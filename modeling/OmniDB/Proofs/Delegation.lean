import OmniDB.Proofs.WorkforceRuns

/-! Delegated authority. The three capability checks compare the scope of a grant with a
target, each in its own way. Whatever covers the scope of a delegation also covers what the
delegation covers, so no delegation gives more than its delegator holds by a role. -/

namespace OmniDB.Authz

open Tx
open Tx.Prog

/-- What a capability is checked against: a scope (`has_scope_capability`), a campaign
(`has_campaign_capability`), or nothing in particular (`has_capability`). -/
inductive Target where
  | scope (scopeType : ScopeType) (scopeId : Option Uuid)
  | campaign (id : Uuid)
  | unscoped

/-- The check at a target. -/
def holds (db : Db) (now : Time) (user : Uuid) (cap : Capability) : Target → Bool
  | .scope scopeType scopeId => hasScopeCapability db now user cap scopeType scopeId
  | .campaign id => hasCampaignCapability db now user cap id
  | .unscoped => hasCapability db now user cap none none

/-- One grant's part of the check. -/
def Grant.reaches (db : Db) (now : Time) (g : Grant) : Target → Bool
  | .scope scopeType scopeId => scopeCovered db g scopeType scopeId
  | .campaign id => (Table.find db.campaigns id).any fun cmp => grantReachesCampaign db now cmp g
  | .unscoped => scopeCovers g none none

/-- The capability comes from one of the user's own effective role assignments. -/
def HoldsByRole (db : Db) (now : Time) (user : Uuid) (cap : Capability) (target : Target) : Prop :=
  ∃ ra ∈ effectiveRoleAssignments db now user, cap ∈ roleCapabilities ra.roleCode ∧
    (Grant.mk ra.scopeType ra.scopeId).reaches db now target = true

/-- The delegation gives its delegate the capability at the target. -/
structure Gives (db : Db) (now : Time) (d : Delegation) (user : Uuid) (cap : Capability) (target : Target) :
    Prop where
  held : d ∈ activeDelegations db now user
  listed : cap ∈ d.capabilitySet
  backed : delegationStillBacked db now d cap = true
  reaches : (Grant.mk d.scopeType d.scopeId).reaches db now target = true

variable {db db' : Db} {now : Time} {user : Uuid} {cap : Capability} {target : Target}

theorem mem_roleCapabilityGrants {g : Grant} : g ∈ roleCapabilityGrants db now user cap ↔
    ∃ ra ∈ effectiveRoleAssignments db now user, cap ∈ roleCapabilities ra.roleCode ∧
      g = ⟨ra.scopeType, ra.scopeId⟩ := by
  simp only [roleCapabilityGrants, List.mem_map, List.mem_filter, List.contains_iff_mem, and_assoc, @eq_comm _ g]

theorem holds_iff_grant :
    holds db now user cap target ↔ ∃ g ∈ capabilityGrants db now user cap, g.reaches db now target = true := by
  cases target with
  | scope scopeType scopeId => simp [holds, hasScopeCapability, Grant.reaches]
  | campaign id =>
    cases h : Table.find db.campaigns id with
    | none => simp [holds, hasCampaignCapability, Grant.reaches, h]
    | some cmp => simp [holds, hasCampaignCapability, Grant.reaches, h]
  | unscoped => simp [holds, hasCapability, Grant.reaches]

/-- There is no third way to hold a capability. -/
theorem holds_iff : holds db now user cap target ↔
    HoldsByRole db now user cap target ∨ ∃ d, Gives db now d user cap target := by
  rw [holds_iff_grant]
  simp only [capabilityGrants, List.mem_append, List.mem_map, List.mem_filter, mem_roleCapabilityGrants,
    Bool.and_eq_true, List.contains_iff_mem]
  constructor
  · rintro ⟨g, ⟨ra, hra, hcap, rfl⟩ | ⟨d, ⟨hd, hcap, hbacked⟩, rfl⟩, hg⟩
    · exact Or.inl ⟨ra, hra, hcap, hg⟩
    · exact Or.inr ⟨d, hd, hcap, hbacked, hg⟩
  · rintro (⟨ra, hra, hcap, hg⟩ | ⟨d, h⟩)
    · exact ⟨_, Or.inl ⟨ra, hra, hcap, rfl⟩, hg⟩
    · exact ⟨_, Or.inr ⟨d, ⟨h.held, h.listed, h.backed⟩, rfl⟩, h.reaches⟩

/-- At a scope, holding by role is the check that backs delegations. -/
theorem holdsByRole_scope {scopeType : ScopeType} {scopeId : Option Uuid} :
    HoldsByRole db now user cap (.scope scopeType scopeId) ↔
      hasScopeCapabilityViaRole db now user cap scopeType scopeId = true := by
  simp only [hasScopeCapabilityViaRole, List.any_eq_true, mem_roleCapabilityGrants, HoldsByRole, Grant.reaches]
  constructor
  · rintro ⟨ra, hra, hcap, hg⟩
    exact ⟨_, ⟨ra, hra, hcap, rfl⟩, hg⟩
  · rintro ⟨g, ⟨ra, hra, hcap, rfl⟩, hg⟩
    exact ⟨ra, hra, hcap, hg⟩

/-! ## Coverage is transitive -/

/-- A grant for the whole installation, or for the one organization, reaches whatever exists. -/
def Grant.Wide (g : Grant) : Prop := g.scopeType = .installation ∨ (g.scopeType = .organization ∧ g.scopeId = none)

/-- What covers the scope of `g` is wide, is `g`'s own scope, or is the organization of the
team that `g` is for. -/
theorem covers_cases {r g : Grant} (h : scopeCovered db r g.scopeType g.scopeId = true) :
    r.Wide ∨ r = g ∨ ∃ o team, r = ⟨.organization, some o⟩ ∧ g = ⟨.team, some team⟩ ∧
      teamOrganization db (some team) = some o := by
  obtain ⟨rt, rid⟩ := r
  obtain ⟨gt, gid⟩ := g
  cases rt with
  | installation => exact Or.inl (Or.inl rfl)
  | organization =>
    cases rid with
    | none => exact Or.inl (Or.inr ⟨rfl, rfl⟩)
    | some o =>
      simp only [scopeCovered, Option.isNone_some, Bool.false_or, Bool.or_eq_true, Bool.and_eq_true,
        decide_eq_true_eq] at h
      rcases h with ⟨rfl, rfl⟩ | ⟨⟨rfl, hid⟩, ho⟩
      · exact Or.inr (Or.inl rfl)
      · obtain ⟨team, rfl⟩ := Option.isSome_iff_exists.1 hid
        exact Or.inr (Or.inr ⟨o, team, rfl, rfl, ho⟩)
  | team | campaign | other =>
    simp only [scopeCovered, Bool.and_eq_true, decide_eq_true_eq] at h
    obtain ⟨rfl, rfl⟩ := h
    exact Or.inr (Or.inl rfl)

theorem Grant.Wide.reaches {r g : Grant} (h : r.Wide) (hg : g.reaches db now target = true) :
    r.reaches db now target = true := by
  obtain ⟨rt, rid⟩ := r
  rcases h with h | ⟨h, h'⟩
  · obtain rfl : rt = .installation := h
    cases target with
    | campaign id =>
      obtain ⟨cmp, hc, -⟩ := (Option.any_eq_true ..).1 hg
      simp [Grant.reaches, hc, grantReachesCampaign]
    | scope | unscoped => rfl
  · obtain ⟨rfl, rfl⟩ : rt = .organization ∧ rid = none := ⟨h, h'⟩
    cases target with
    | campaign id =>
      obtain ⟨cmp, hc, -⟩ := (Option.any_eq_true ..).1 hg
      simp [Grant.reaches, hc, grantReachesCampaign]
    | scope | unscoped => rfl

/-- The organization of a team reaches what the team reaches. -/
theorem organization_reaches {o team : Uuid} (ho : teamOrganization db (some team) = some o)
    (hg : (Grant.mk .team (some team)).reaches db now target = true) :
    (Grant.mk .organization (some o)).reaches db now target = true := by
  cases target with
  | scope scopeType scopeId =>
    simp only [Grant.reaches, scopeCovered, Bool.and_eq_true, decide_eq_true_eq] at hg
    obtain ⟨rfl, rfl⟩ := hg
    simp [Grant.reaches, scopeCovered, ho]
  | campaign id =>
    simp only [Grant.reaches, Option.any_eq_true] at hg ⊢
    obtain ⟨cmp, hc, hg⟩ := hg
    refine ⟨cmp, hc, ?_⟩
    simp only [grantReachesCampaign, teamReaches, Bool.or_eq_true, Bool.and_eq_true, List.any_eq_true,
      decide_eq_true_eq] at hg ⊢
    -- the team owns the campaign, or an assignment names the team
    rcases hg with ⟨ht, hid⟩ | ⟨a, ha, hcur, hid⟩
    · exact Or.inr (Or.inl ⟨ht, hid ▸ ho⟩)
    · exact Or.inr (Or.inr ⟨a, ha, hcur, hid ▸ ho⟩)
  | unscoped => simp [Grant.reaches, scopeCovers] at hg

theorem reaches_trans {r g : Grant} (h : scopeCovered db r g.scopeType g.scopeId = true)
    (hg : g.reaches db now target = true) : r.reaches db now target = true := by
  rcases covers_cases h with hw | rfl | ⟨o, team, rfl, rfl, ho⟩
  · exact hw.reaches hg
  · exact hg
  · exact organization_reaches ho hg

/-- A delegator holds by a role whatever the delegation gives. -/
theorem Gives.delegator {d : Delegation} (h : Gives db now d user cap target) :
    HoldsByRole db now d.delegatorUserId cap target := by
  obtain ⟨ra, hra, hcap, hcov⟩ := holdsByRole_scope.2 h.backed
  exact ⟨ra, hra, hcap, reaches_trans (g := ⟨d.scopeType, d.scopeId⟩) hcov h.reaches⟩

/-! ## What may be delegated -/

/-- No delegation names a capability that may not be delegated. -/
def Delegable (db : Db) : Prop :=
  ∀ d ∈ db.delegations, ∀ cap ∈ d.capabilitySet, cap ∉ Workforce.nonDelegable

theorem Delegable.congr (h : Delegable db) (hd : db'.delegations = db.delegations) : Delegable db' := by
  unfold Delegable
  rwa [hd]

/-- A write that lets no other capability into a delegation. -/
def Safe (f : Db → Db) : Prop := ∀ db, Delegable db → Delegable (f db)

theorem safe_of_leaves {α : Type} {p : Txn α} [h : Leaves Db.delegations p] : Writes Safe p fun _ => True :=
  h.writes.mono (fun _ hf db hd => hd.congr (hf db)) fun _ => id

theorem createDelegation_safe (c : Call) (delegator : Uuid) (r : Workforce.DelegationRequest) :
    Writes Safe (Workforce.createDelegation c delegator r) fun _ => True := by
  unfold Workforce.createDelegation recordAudit
  simp only [writes_bind, writes_raiseIf, writes_view, writes_update, writes_pure, ne_eq, not_not,
    List.filter_eq_nil_iff]
  intro _ _ _ _ _ hforbidden _ _ _ _ _
  refine ⟨fun db hd d hm cap hcap => ?_, fun db hd => hd.congr rfl, safe_of_leaves⟩
  rcases List.mem_append.1 hm with hm | hm
  · exact hd d hm cap hcap
  · obtain rfl := List.mem_singleton.1 hm
    simpa using hforbidden cap hcap

theorem revokeDelegation_safe (c : Call) (id actor : Uuid) :
    Writes Safe (Workforce.revokeDelegation c id actor) fun _ => True := by
  unfold Workforce.revokeDelegation getRow recordAudit
  simp only [writes_bind, writes_view, writes_pure, writes_expect, writes_raiseIf, writes_ite, writes_update]
  refine fun _ d₀ _ _ => ⟨fun _ => ⟨fun db hd d hm => ?_, fun db hd => hd.congr rfl, safe_of_leaves⟩,
    fun _ => trivial⟩
  obtain ⟨d', hd', rfl⟩ := List.mem_map.1 hm
  split_ifs
  · exact hd d' hd'
  · exact hd d' hd'

/-- No request lets such a capability in. -/
theorem body_safe (op : App.Op) : Writes Safe (App.body op) fun _ => True := by
  cases op with
  | createDelegation c user r =>
    exact (writes_map ..).2 ((writes_bind ..).2 (createDelegation_safe c user r))
  | revokeDelegation c id actor => exact (writes_map ..).2 (revokeDelegation_safe c id actor)
  | service | createUser | disableUser | reactivateUser | assignRole | endRoleAssignment | createTeam
    | addTeamMember | endTeamMembership | setReportingLine | uploadWorkforceImport | parseWorkforceImport
    | decideWorkforceImport | commitWorkforceImport | reverseWorkforceImport | cleanupWorkforceImports =>
    dsimp only [App.body]
    exact safe_of_leaves

/-! ## Losing access -/

/-- What the reach of a grant depends on. -/
structure Places where
  campaigns : List Campaign
  teamAssignments : List CampaignTeamAssignment
  teams : List Team

def places (db : Db) : Places where
  campaigns := db.campaigns
  teamAssignments := db.teamAssignments
  teams := db.teams

theorem scopeCovered_congr {g : Grant} {scopeType : ScopeType} {scopeId : Option Uuid}
    (h : db'.teams = db.teams) : scopeCovered db' g scopeType scopeId = scopeCovered db g scopeType scopeId := by
  unfold scopeCovered teamOrganization
  rw [h]

theorem reaches_congr {g : Grant} (h : places db' = places db) :
    g.reaches db' now target = g.reaches db now target := by
  obtain ⟨hc, ha, ht⟩ := Places.mk.inj h
  cases target with
  | scope => exact scopeCovered_congr ht
  | campaign id =>
    unfold Grant.reaches grantReachesCampaign teamReaches teamOrganization
    rw [hc, ha, ht]
  | unscoped => rfl

instance (e : AuditEvent) : Leaves places (recordAudit e) := .update fun _ => rfl

instance (id : Uuid) (f : UserSession → UserSession) : Leaves places (setSession id f) :=
  .then inferInstance fun _ => .update fun _ => rfl

instance (t : Time) (x : Uuid) : Leaves places (revokeAllForUser t x) := by
  unfold revokeAllForUser; infer_instance

instance (c : Call) (ra : RoleAssignment) (actor : Uuid) (reason : String) :
    Leaves places (Workforce.endRoleAssignment c ra actor reason) := by
  have (f : RoleAssignment → RoleAssignment) : Leaves places (Workforce.setRoleAssignment ra.id f) :=
    .then inferInstance fun _ => .update fun _ => rfl
  unfold Workforce.endRoleAssignment Workforce.assertNotSelf invalidateDelegateSessionsForDelegator
  infer_instance

/-- Once an assignment has ended, it is effective at no time. -/
theorem mem_effective_ended {id : Uuid} {t : Time} {ra : RoleAssignment}
    (h : db'.roleAssignments = Table.modify db.roleAssignments id (Workforce.endedRole t))
    (hra : ra ∈ effectiveRoleAssignments db' now user) :
    ra ∈ effectiveRoleAssignments db now user ∧ ra.id ≠ id := by
  unfold effectiveRoleAssignments at hra ⊢
  rw [h, List.mem_filter, Table.mem_modify] at hra
  obtain ⟨⟨s, -, -, rfl⟩ | ⟨hm, hne⟩, hcond⟩ := hra
  · simp [Workforce.endedRole] at hcond
  · exact ⟨List.mem_filter.2 ⟨hm, hcond⟩, hne⟩

/-- The user holds the capability at the target in no other way than through the delegations
that meet `p`. -/
structure OnlyThrough (p : Delegation → Prop) (db : Db) (now : Time) (user : Uuid) (cap : Capability)
    (target : Target) : Prop where
  noRole : ¬HoldsByRole db now user cap target
  through : ∀ d, Gives db now d user cap target → p d

/-- The assignment is the only one by which the user holds the capability at the target. -/
def LastRole (db : Db) (now : Time) (user : Uuid) (cap : Capability) (target : Target) (id : Uuid) : Prop :=
  ∀ ra ∈ effectiveRoleAssignments db now user, cap ∈ roleCapabilities ra.roleCode →
    (Grant.mk ra.scopeType ra.scopeId).reaches db now target = true → ra.id = id

section Ended

variable {c : Call} {ra : RoleAssignment} {actor : Uuid} {reason : String} {u : Unit}

/-- Ending a role gives nobody a role. -/
theorem HoldsByRole.before_end (h : HoldsByRole db' now user cap target)
    (hr : (Workforce.endRoleAssignment c ra actor reason).Runs db u db') :
    ∃ ra' ∈ effectiveRoleAssignments db now user, cap ∈ roleCapabilities ra'.roleCode ∧
      (Grant.mk ra'.scopeType ra'.scopeId).reaches db now target = true ∧ ra'.id ≠ ra.id := by
  obtain ⟨ra', hm, hcap, hreach⟩ := h
  obtain ⟨hm, hne⟩ := mem_effective_ended (Workforce.endRoleAssignment_runs hr).2 hm
  rw [reaches_congr (Leaves.runs (π := places) hr)] at hreach
  exact ⟨ra', hm, hcap, hreach, hne⟩

theorem Gives.before_end {d : Delegation} (h : Gives db' now d user cap target)
    (hr : (Workforce.endRoleAssignment c ra actor reason).Runs db u db') : Gives db now d user cap target := by
  have hd := Leaves.runs (π := Db.delegations) hr
  obtain ⟨ra', hm, hcap, hreach, -⟩ := (holdsByRole_scope.2 h.backed).before_end hr
  refine ⟨?_, h.listed, holdsByRole_scope.1 ⟨ra', hm, hcap, hreach⟩, ?_⟩
  · simpa only [activeDelegations, hd] using h.held
  · exact (reaches_congr (Leaves.runs (π := places) hr)).symm.trans h.reaches

/-- Ending the last role of the delegator takes the delegate's access. -/
theorem access_ended {delegator : Uuid} (hr : (Workforce.endRoleAssignment c ra actor reason).Runs db u db')
    (hu : OnlyThrough (fun d => d.delegatorUserId = delegator) db now user cap target)
    (hlast : LastRole db now delegator cap target ra.id) : holds db' now user cap target = false := by
  rw [← Bool.not_eq_true, holds_iff]
  rintro (h | ⟨d, h⟩)
  · obtain ⟨ra', hm, hcap, hreach, -⟩ := h.before_end hr
    exact hu.noRole ⟨ra', hm, hcap, hreach⟩
  · obtain rfl := hu.through d (h.before_end hr)
    obtain ⟨ra', hm, hcap, hreach, hne⟩ := h.delegator.before_end hr
    exact hne (hlast ra' hm hcap hreach)

end Ended

section Revoked

variable {c : Call} {id actor : Uuid} {u : Unit} {d : Delegation}

instance (id actor : Uuid) : Leaves places (Workforce.revokeDelegation c id actor) := by
  have (f : Delegation → Delegation) : Leaves places (update fun db => { db with
      delegations := Table.modify db.delegations id f } : Txn Unit) := .update fun _ => rfl
  unfold Workforce.revokeDelegation; infer_instance

/-- A delegation in force after the revocation was in force before, and is not the revoked one. -/
theorem mem_active_revoked {d' : Delegation} (hr : (Workforce.revokeDelegation c id actor).Runs db u db')
    (hd : Table.find db.delegations id = some d) (h : d' ∈ activeDelegations db' now user) :
    d' ∈ activeDelegations db now user ∧ d' ≠ d := by
  unfold Workforce.revokeDelegation at hr
  simp only [runs_bind, runs_getRow, runs_expect, runs_raiseIf, hd, and_assoc, exists_and_left, exists_eq_left,
    exists_const, Option.some.injEq] at hr
  obtain ⟨_, rfl, -, hr⟩ := hr
  unfold activeDelegations at h ⊢
  rw [List.mem_filter] at h ⊢
  obtain ⟨hm, hcond⟩ := h
  split_ifs at hr with hnone
  · simp only [runs_bind, runs_update, runs_recordAudit, exists_eq_left, exists_const] at hr
    rw [Leaves.runs (π := Db.delegations) hr] at hm
    rcases Table.mem_modify.1 hm with ⟨d₀, -, -, rfl⟩ | ⟨hm, hne⟩
    · simp at hcond
    · exact ⟨⟨hm, hcond⟩, fun he => hne (he ▸ Table.key_of_find hd)⟩
  · obtain rfl := (runs_pure.1 hr).2
    refine ⟨⟨hm, hcond⟩, ?_⟩
    rintro rfl
    simp [hnone] at hcond

/-- Revoking the one delegation that gives access takes the access. -/
theorem access_revoked (hr : (Workforce.revokeDelegation c id actor).Runs db u db')
    (hd : Table.find db.delegations id = some d) (hu : OnlyThrough (fun d' => d' = d) db now user cap target) :
    holds db' now user cap target = false := by
  have hroles := Leaves.runs (π := Db.roleAssignments) hr
  have hplaces := Leaves.runs (π := places) hr
  have hback {x : Uuid} {t : Target} (h : HoldsByRole db' now x cap t) : HoldsByRole db now x cap t := by
    obtain ⟨ra, hm, hcap, hreach⟩ := h
    unfold effectiveRoleAssignments at hm
    rw [hroles] at hm
    exact ⟨ra, hm, hcap, (reaches_congr hplaces).symm.trans hreach⟩
  rw [← Bool.not_eq_true, holds_iff]
  rintro (h | ⟨d', h⟩)
  · exact hu.noRole (hback h)
  · obtain ⟨hm, hne⟩ := mem_active_revoked hr hd h.held
    have hb := holdsByRole_scope.1 (hback (holdsByRole_scope.2 h.backed))
    exact hne (hu.through d' ⟨hm, h.listed, hb, (reaches_congr hplaces).symm.trans h.reaches⟩)

end Revoked

/-! ## Every reachable state -/

/-- One transaction of the application, or a change from outside that leaves the delegations
alone, such as a team put out of use. -/
def Step (db db' : Db) : Prop :=
  (∃ op, ((App.body op).transact db).2 = db') ∨ db'.delegations = db.delegations

theorem Delegable.step (h : Delegable db) (hs : Step db db') : Delegable db' := by
  rcases hs with ⟨op, heq⟩ | heq
  · rcases transact_cases heq with rfl | ⟨a, hr⟩
    · exact h
    · exact (Writes.runs (R := fun db db' => Delegable db → Delegable db') (fun _ h => h)
        (fun _ _ _ h h' hd => h' (h hd)) (body_safe op) hr).1 h
  · exact h.congr heq

theorem Delegable.reachable (h : Delegable db) (hs : Relation.ReflTransGen Step db db') : Delegable db' := by
  induction hs with
  | refl => exact h
  | tail _ ht ih => exact ih.step ht

/-- What a delegation that gives access is. -/
structure Legitimate (db : Db) (now : Time) (d : Delegation) (user : Uuid) (cap : Capability) (target : Target) :
    Prop where
  mem : d ∈ db.delegations
  delegate : d.delegateUserId = user
  unrevoked : d.revokedAt = none
  window : effectiveAt d.effectiveFrom d.effectiveTo now = true
  listed : cap ∈ d.capabilitySet
  delegable : cap ∉ Workforce.nonDelegable
  /-- The delegator holds the capability at this target by a role, so not through a second delegation. -/
  delegator : HoldsByRole db now d.delegatorUserId cap target

theorem Gives.legitimate {d : Delegation} (hd : Delegable db) (h : Gives db now d user cap target) :
    Legitimate db now d user cap target := by
  obtain ⟨hm, hcond⟩ := List.mem_filter.1 h.held
  simp only [Bool.and_eq_true, decide_eq_true_eq, Option.isNone_iff_eq_none] at hcond
  exact ⟨hm, hcond.1.1, hcond.1.2, hcond.2, h.listed, hd d hm cap h.listed, h.delegator⟩

/-- Delegation never escalates. -/
theorem delegation_never_escalates {db₀ : Db} (h₀ : Delegable db₀) (hreach : Relation.ReflTransGen Step db₀ db)
    (now : Time) (user : Uuid) (cap : Capability) (target : Target) :
    -- what is held, but by no role, is held through a delegation of this kind
    (holds db now user cap target = true → ¬HoldsByRole db now user cap target →
      ∃ d, Gives db now d user cap target) ∧
    (∀ d, Gives db now d user cap target → Legitimate db now d user cap target) ∧
    -- the delegator's last role that covers the target ends
    (∀ c ra actor reason u db' delegator, (Workforce.endRoleAssignment c ra actor reason).Runs db u db' →
      OnlyThrough (fun d => d.delegatorUserId = delegator) db now user cap target →
      LastRole db now delegator cap target ra.id → holds db' now user cap target = false) ∧
    -- the delegation is revoked
    (∀ c id actor u db' d, (Workforce.revokeDelegation c id actor).Runs db u db' →
      Table.find db.delegations id = some d → OnlyThrough (fun d' => d' = d) db now user cap target →
      holds db' now user cap target = false) := by
  refine ⟨fun h hno => (holds_iff.1 h).resolve_left hno, fun d h => h.legitimate (h₀.reachable hreach), ?_, ?_⟩
  · intro c ra actor reason u db' delegator hr hu hlast
    exact access_ended hr hu hlast
  · intro c id actor u db' d hr hd hu
    exact access_revoked hr hd hu

namespace Demo

/-- A manager of the whole installation. -/
def managed : Db := { roleAssignments := [{
  id := 1, userId := 7, roleCode := .manager, scopeType := .installation, effectiveFrom := 0 }] }

/-- The manager lends the view of campaigns of one team. -/
def lend : App.Op := .createDelegation (Queue.Demo.call 1) 7
  { delegateId := 8, capabilitySet := ["view_campaign"], scopeType := .team, scopeId := some 3
    effectiveFrom := 0 }

def lent : Db := ((App.body lend).transact managed).2

end Demo

theorem delegation_never_escalates_lent :
    holds Demo.lent 5 8 .viewCampaign (.scope .team (some 3)) = true ∧
      ∃ d, Legitimate Demo.lent 5 d 8 .viewCampaign (.scope .team (some 3)) := by
  have hreach : Relation.ReflTransGen Step Demo.managed Demo.lent := .single (Or.inl ⟨Demo.lend, rfl⟩)
  have hrun := delegation_never_escalates (fun _ h => by cases h) hreach 5 8 .viewCampaign (.scope .team (some 3))
  have hheld : holds Demo.lent 5 8 .viewCampaign (.scope .team (some 3)) = true := by decide +kernel
  have hno : ¬HoldsByRole Demo.lent 5 8 .viewCampaign (.scope .team (some 3)) := by
    rw [holdsByRole_scope]
    decide +kernel
  obtain ⟨d, hd⟩ := hrun.1 hheld hno
  exact ⟨hheld, d, hrun.2.1 d hd⟩

end OmniDB.Authz
