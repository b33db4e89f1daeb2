import OmniDB.Proofs.Directory
import OmniDB.Spec.AuditTrail

/-! A grant for a wider scope. The capability checks, the listed teams and the campaign
predicate show no less through it; the audit listing takes no notice of the organization of a team. -/

namespace OmniDB.AuditTrail

open Tx
open Authz Directory

variable {db : Db} {now : Time} {user : Uuid} {ra : RoleAssignment} {g : Grant}

def rescope (g : Grant) (ra : RoleAssignment) : RoleAssignment :=
  { ra with scopeType := g.scopeType, scopeId := g.scopeId }

/-- The assignment `id` is for the scope of `g` instead. -/
def rescoped (db : Db) (id : Uuid) (g : Grant) : Db :=
  { db with roleAssignments := Table.modify db.roleAssignments id (rescope g) }

/-- The user sees and may do in `db'` whatever the user sees and may do in `db`. -/
structure SeesNoLess (db db' : Db) (now : Time) (user : Uuid) : Prop where
  audit : ∀ e ∈ visibleAuditEvents db now user, e ∈ visibleAuditEvents db' now user
  teams : ∀ t ∈ db.teams, t.active = true → Visible db now user t.id → Visible db' now user t.id
  campaigns : ∀ cap id, hasCampaignCapability db now user cap id = true →
    hasCampaignCapability db' now user cap id = true
  scopes : ∀ cap scopeType scopeId, hasScopeCapability db now user cap scopeType scopeId = true →
    hasScopeCapability db' now user cap scopeType scopeId = true

/-! ## The capability checks -/

section Checks

variable {cap : Capability} {target : Target} {x : Uuid}

/-- The other assignments stay, and this one is for its new scope. -/
theorem mem_effective_rescoped {ra' : RoleAssignment} (hunique : Table.Unique db.roleAssignments)
    (hra : ra ∈ effectiveRoleAssignments db now user) :
    ra' ∈ effectiveRoleAssignments (rescoped db ra.id g) now x ↔
      (x = user ∧ ra' = rescope g ra) ∨ (ra' ∈ effectiveRoleAssignments db now x ∧ ra'.id ≠ ra.id) := by
  obtain ⟨hin, hcond⟩ := List.mem_filter.1 hra
  simp only [Bool.and_eq_true, decide_eq_true_eq] at hcond
  unfold effectiveRoleAssignments rescoped
  simp only [List.mem_filter, Table.mem_modify, Bool.and_eq_true, decide_eq_true_eq]
  constructor
  · rintro ⟨⟨r, hr, hid, rfl⟩ | ⟨hr, hne⟩, hc⟩
    · obtain rfl : r = ra := hunique.eq hr hin hid
      exact Or.inl ⟨hc.1.1.symm.trans hcond.1.1, rfl⟩
    · exact Or.inr ⟨⟨hr, hc⟩, hne⟩
  · rintro (⟨rfl, rfl⟩ | ⟨⟨hr, hc⟩, hne⟩)
    · exact ⟨Or.inl ⟨ra, hin, rfl, rfl⟩, hcond⟩
    · exact ⟨Or.inr ⟨hr, hne⟩, hc⟩

theorem holdsByRole_rescoped (hunique : Table.Unique db.roleAssignments)
    (hra : ra ∈ effectiveRoleAssignments db now user)
    (hcov : scopeCovered db g ra.scopeType ra.scopeId = true) (h : HoldsByRole db now x cap target) :
    HoldsByRole (rescoped db ra.id g) now x cap target := by
  obtain ⟨r, hr, hcap, hreach⟩ := h
  have hplaces : places (rescoped db ra.id g) = places db := rfl
  by_cases hid : r.id = ra.id
  · obtain rfl : r = ra := hunique.eq (List.mem_filter.1 hr).1 (List.mem_filter.1 hra).1 hid
    have hx : x = user := by
      have hrx := (List.mem_filter.1 hr).2
      have hru := (List.mem_filter.1 hra).2
      simp only [Bool.and_eq_true, decide_eq_true_eq] at hrx hru
      exact hrx.1.1.symm.trans hru.1.1
    refine ⟨rescope g r, (mem_effective_rescoped hunique hra).2 (Or.inl ⟨hx, rfl⟩), hcap, ?_⟩
    rw [reaches_congr hplaces]
    exact reaches_trans (r := g) (g := ⟨r.scopeType, r.scopeId⟩) hcov hreach
  · refine ⟨r, (mem_effective_rescoped hunique hra).2 (Or.inr ⟨hr, hid⟩), hcap, ?_⟩
    rwa [reaches_congr hplaces]

/-- A wider grant holds what the grant held, and backs the delegations that it backed. -/
theorem holds_rescoped (hunique : Table.Unique db.roleAssignments)
    (hra : ra ∈ effectiveRoleAssignments db now user)
    (hcov : scopeCovered db g ra.scopeType ra.scopeId = true) (h : holds db now x cap target = true) :
    holds (rescoped db ra.id g) now x cap target = true := by
  rcases holds_iff.1 h with hrole | ⟨d, hd⟩
  · exact holds_iff.2 (Or.inl (holdsByRole_rescoped hunique hra hcov hrole))
  · refine holds_iff.2 (Or.inr ⟨d, hd.held, hd.listed, ?_, ?_⟩)
    · exact holdsByRole_scope.1 (holdsByRole_rescoped hunique hra hcov (holdsByRole_scope.2 hd.backed))
    · exact (reaches_congr (show places (rescoped db ra.id g) = places db from rfl)).trans hd.reaches

/-- A team that the listings show is shown through the wider grant too. -/
theorem visible_rescoped (hunique : Table.Unique db.roleAssignments) (hteams : Table.Unique db.teams)
    (hra : ra ∈ effectiveRoleAssignments db now user)
    (hcov : scopeCovered db g ra.scopeType ra.scopeId = true) {t : Team} (ht : t ∈ db.teams)
    (hactive : t.active = true) (h : Visible db now user t.id) : Visible (rescoped db ra.id g) now user t.id := by
  obtain ⟨cap, hcap, hrole⟩ := (visible_iff hteams ht hactive).1 h
  exact (visible_iff (show Table.Unique (rescoped db ra.id g).teams from hteams) ht hactive).2
    ⟨cap, hcap, holdsByRole_rescoped hunique hra hcov hrole⟩

end Checks

/-! ## The audit listing -/

section Listing

variable {e : AuditEvent}

/-- The role assignments that show audit events. -/
def auditing (db : Db) (now : Time) (user : Uuid) : List RoleAssignment :=
  (effectiveRoleAssignments db now user).filter fun ra => (roleCapabilities ra.roleCode).contains .viewAudit

/-- The grant shows the event: it is for everything, or for a team of which its actor is a member. -/
def Shows (db : Db) (g : Grant) (e : AuditEvent) : Prop :=
  g.Wide ∨ ∃ m ∈ db.memberships, g = ⟨.team, some m.teamId⟩ ∧ e.actorUserId = some m.userId ∧
    m.membershipStatus = .active

theorem auditVisibility_fst : (auditVisibility db now user).1 = true ↔
    ∃ ra ∈ auditing db now user, (Grant.mk ra.scopeType ra.scopeId).Wide := by
  simp only [auditVisibility, List.any_eq_true, Bool.or_eq_true, Bool.and_eq_true, decide_eq_true_eq,
    Option.isNone_iff_eq_none]
  rfl

theorem mem_auditVisibility_snd {team : Uuid} : team ∈ (auditVisibility db now user).2 ↔
    ∃ ra ∈ auditing db now user, Grant.mk ra.scopeType ra.scopeId = ⟨.team, some team⟩ := by
  simp [auditVisibility, auditing, List.mem_filterMap]

/-- The listing shows the user's own events, and those that a grant of the user's shows. -/
theorem mem_visibleAuditEvents : e ∈ visibleAuditEvents db now user ↔ e ∈ db.audit ∧
    (e.actorUserId = some user ∨ ∃ ra ∈ auditing db now user, Shows db ⟨ra.scopeType, ra.scopeId⟩ e) := by
  unfold visibleAuditEvents
  dsimp only
  split_ifs with heveryone
  · obtain ⟨ra, hra, hw⟩ := auditVisibility_fst.1 heveryone
    exact (and_iff_left (Or.inr ⟨ra, hra, Or.inl hw⟩)).symm
  · rw [List.mem_filter, Option.any_eq_true]
    refine and_congr_right fun _ => ?_
    simp only [memberOfAny, Bool.or_eq_true, Bool.and_eq_true, decide_eq_true_eq, List.any_eq_true,
      List.contains_iff_mem, mem_auditVisibility_snd]
    constructor
    · rintro ⟨actor, he, rfl | ⟨m, hm, ⟨rfl, ra, hra, hg⟩, hs⟩⟩
      · exact Or.inl he
      · exact Or.inr ⟨ra, hra, Or.inr ⟨m, hm, hg, he, hs⟩⟩
    · rintro (he | ⟨ra, hra, hw | ⟨m, hm, hg, he, hs⟩⟩)
      · exact ⟨user, he, Or.inl rfl⟩
      · exact absurd (auditVisibility_fst.2 ⟨ra, hra, hw⟩) heveryone
      · exact ⟨m.userId, he, Or.inr ⟨m, hm, ⟨rfl, ra, hra, hg⟩, hs⟩⟩

theorem mem_auditing_rescoped {r : RoleAssignment} (hunique : Table.Unique db.roleAssignments)
    (hra : ra ∈ effectiveRoleAssignments db now user) :
    r ∈ auditing (rescoped db ra.id g) now user ↔
      (Capability.viewAudit ∈ roleCapabilities ra.roleCode ∧ r = rescope g ra) ∨
        (r ∈ auditing db now user ∧ r.id ≠ ra.id) := by
  simp only [auditing, List.mem_filter, mem_effective_rescoped hunique hra, true_and, List.contains_iff_mem]
  constructor
  · rintro ⟨rfl | ⟨hr, hne⟩, hcap⟩
    · exact Or.inl ⟨hcap, rfl⟩
    · exact Or.inr ⟨⟨hr, hcap⟩, hne⟩
  · rintro (⟨hcap, rfl⟩ | ⟨⟨hr, hcap⟩, hne⟩)
    · exact ⟨Or.inl rfl, hcap⟩
    · exact ⟨Or.inr ⟨hr, hne⟩, hcap⟩

/-- The event is none of the user's own, and no other grant of the user's shows it. -/
structure OnlyShownBy (db : Db) (now : Time) (user : Uuid) (ra : RoleAssignment) (e : AuditEvent) : Prop where
  mem : e ∈ db.audit
  shown : Shows db ⟨ra.scopeType, ra.scopeId⟩ e
  other : e.actorUserId ≠ some user
  only : ∀ r ∈ auditing db now user, r.id ≠ ra.id → ¬Shows db ⟨r.scopeType, r.scopeId⟩ e

/-- A role that may view the audit trail moves from a team to an organization by name, and
an event is shown to the user through this assignment alone. -/
structure Blinds (db : Db) (now : Time) (user : Uuid) (ra : RoleAssignment) (g : Grant) : Prop where
  auditor : Capability.viewAudit ∈ roleCapabilities ra.roleCode
  team : ra.scopeType = .team
  organization : g.scopeType = .organization
  named : g.scopeId ≠ none
  event : ∃ e, OnlyShownBy db now user ra e

/-- A grant for an organization by name shows no event. -/
theorem not_shows_organization (ht : g.scopeType = .organization) (hid : g.scopeId ≠ none) : ¬Shows db g e := by
  rintro ((hw | hw) | ⟨m, -, rfl, -⟩)
  · rw [ht] at hw
    cases hw
  · exact hid hw.2
  · cases ht

theorem shows_rescoped (hunique : Table.Unique db.roleAssignments)
    (hra : ra ∈ effectiveRoleAssignments db now user)
    (hcov : scopeCovered db g ra.scopeType ra.scopeId = true) (hno : ¬Blinds db now user ra g)
    (h : e ∈ visibleAuditEvents db now user) : e ∈ visibleAuditEvents (rescoped db ra.id g) now user := by
  obtain ⟨hin, h⟩ := mem_visibleAuditEvents.1 h
  refine mem_visibleAuditEvents.2 ⟨hin, ?_⟩
  by_cases hown : e.actorUserId = some user
  · exact Or.inl hown
  obtain ⟨r, hr, hshow⟩ := h.resolve_left hown
  by_cases hid : r.id = ra.id
  · obtain ⟨hreff, hcap⟩ := List.mem_filter.1 hr
    obtain rfl : r = ra := hunique.eq (List.mem_filter.1 hreff).1 (List.mem_filter.1 hra).1 hid
    have hcap : Capability.viewAudit ∈ roleCapabilities r.roleCode := List.contains_iff_mem.1 hcap
    have hnew : rescope g r ∈ auditing (rescoped db r.id g) now user :=
      (mem_auditing_rescoped hunique hra).2 (Or.inl ⟨hcap, rfl⟩)
    rcases covers_cases (g := ⟨r.scopeType, r.scopeId⟩) hcov with hw | hsame | ⟨o, team, rfl, hteam, -⟩
    · exact Or.inr ⟨_, hnew, Or.inl hw⟩
    · exact Or.inr ⟨_, hnew, by rw [← hsame] at hshow; exact hshow⟩
    · -- some other grant shows the event
      by_contra hnone
      refine hno ⟨hcap, congrArg Grant.scopeType hteam, rfl, Option.some_ne_none o, e, hin, hshow, hown, ?_⟩
      intro r' hr' hne hs
      exact hnone (Or.inr ⟨r', (mem_auditing_rescoped hunique hra).2 (Or.inr ⟨hr', hne⟩), hs⟩)
  · exact Or.inr ⟨r, (mem_auditing_rescoped hunique hra).2 (Or.inr ⟨hr, hid⟩), hshow⟩

theorem Blinds.hides (hunique : Table.Unique db.roleAssignments)
    (hra : ra ∈ effectiveRoleAssignments db now user) (h : Blinds db now user ra g) :
    ∃ e ∈ visibleAuditEvents db now user, e ∉ visibleAuditEvents (rescoped db ra.id g) now user := by
  obtain ⟨e, he⟩ := h.event
  refine ⟨e, mem_visibleAuditEvents.2 ⟨he.mem, Or.inr ⟨ra, ?_, he.shown⟩⟩, fun hmem => ?_⟩
  · exact List.mem_filter.2 ⟨hra, List.contains_iff_mem.2 h.auditor⟩
  · obtain ⟨-, hown | ⟨r, hr, hshow⟩⟩ := mem_visibleAuditEvents.1 hmem
    · exact he.other hown
    · rcases (mem_auditing_rescoped hunique hra).1 hr with ⟨-, rfl⟩ | ⟨hr, hne⟩
      · exact not_shows_organization h.organization h.named hshow
      · exact he.only r hr hne hshow

end Listing

/-- A grant for a wider scope sees no less, exactly where it does not take the place of a team's
through which alone an audit event was shown, by one for an organization by name. -/
theorem wider_sees_no_less (hunique : Table.Unique db.roleAssignments) (hteams : Table.Unique db.teams)
    (hra : ra ∈ effectiveRoleAssignments db now user)
    (hcov : scopeCovered db g ra.scopeType ra.scopeId = true) :
    SeesNoLess db (rescoped db ra.id g) now user ↔ ¬Blinds db now user ra g := by
  constructor
  · intro h hblinds
    obtain ⟨e, he, hnot⟩ := hblinds.hides hunique hra
    exact hnot (h.audit e he)
  · intro hno
    constructor
    · exact fun e he => shows_rescoped hunique hra hcov hno he
    · exact fun t ht hactive hv => visible_rescoped hunique hteams hra hcov ht hactive hv
    · intro cap id h
      exact holds_rescoped hunique hra hcov (show holds db now user cap (.campaign id) = true from h)
    · intro cap scopeType scopeId h
      exact holds_rescoped hunique hra hcov (show holds db now user cap (.scope scopeType scopeId) = true from h)

/-! A team leader of team 1 is promoted to its organization. The events of the team's member
are not listed to the leader any more. -/

def led (e : AuditEvent) : Db where
  users := [{ id := 3 }, { id := 10 }]
  teams := [{ id := 1, organizationId := 5 }]
  memberships := [{ id := 2, teamId := 1, userId := 3, membershipStatus := .active, effectiveFrom := 0 }]
  roleAssignments := [leader]
  audit := [e]
where
  leader : RoleAssignment :=
    { id := 6, userId := 10, roleCode := .teamLeader, scopeType := .team, scopeId := some 1, effectiveFrom := 0 }

/-- A call of the member, and one of the leader's own. -/
def memberEvent : AuditEvent := { action := "work_item.complete", actorUserId := some 3 }

def leaderEvent : AuditEvent := { action := "workforce.team_member.add", actorUserId := some 10 }

theorem promotion_blinds :
    let db := led memberEvent
    led.leader ∈ effectiveRoleAssignments db 1 10 ∧
      scopeCovered db ⟨.organization, some 5⟩ led.leader.scopeType led.leader.scopeId = true ∧
      visibleAuditEvents db 1 10 = [memberEvent] ∧
      visibleAuditEvents (rescoped db 6 ⟨.organization, some 5⟩) 1 10 = [] ∧
      ¬SeesNoLess db (rescoped db 6 ⟨.organization, some 5⟩) 1 10 := by
  refine ⟨by decide, by decide, by decide, by decide, fun h => ?_⟩
  have hnil : visibleAuditEvents (rescoped (led memberEvent) 6 ⟨.organization, some 5⟩) 1 10 = [] := by decide
  exact List.not_mem_nil (hnil ▸ h.audit memberEvent (by decide))

/-- Where the only event is the leader's own, the promotion hides nothing. -/
theorem wider_sees_no_less_promoted :
    SeesNoLess (led leaderEvent) (rescoped (led leaderEvent) 6 ⟨.organization, some 5⟩) 1 10 := by
  have hleader : led.leader ∈ effectiveRoleAssignments (led leaderEvent) 1 10 := by decide
  refine (wider_sees_no_less (by decide) (by decide) hleader (by decide)).2 fun h => ?_
  obtain ⟨e, he⟩ := h.event
  obtain rfl := List.mem_singleton.1 he.mem
  exact he.other rfl

end OmniDB.AuditTrail
