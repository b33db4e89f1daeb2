import Mathlib.Data.List.Dedup
import OmniDB.Proofs.Delegation

/-! The bulk authority check of the imports. It reads roles, teams and campaigns chunk by
chunk, and decides each user, scope and campaign as the one-row check does. -/

namespace OmniDB

open Tx

namespace Authz

/-! ## Chunks -/

section Chunks

variable {α ρ : Type} {n : ℕ}

theorem flatten_batchedFuel (hn : 0 < n) :
    ∀ (fuel : ℕ) (xs : List α), xs.length ≤ fuel → (batchedFuel n fuel xs).flatten = xs := by
  intro fuel
  induction fuel with
  | zero =>
    intro xs hlen
    exact (List.length_eq_zero_iff.1 (Nat.le_zero.1 hlen)).symm
  | succ fuel ih =>
    intro xs hlen
    cases xs with
    | nil => rfl
    | cons x xs =>
      have hdrop : ((x :: xs).drop n).length ≤ fuel := by
        rw [List.length_drop]
        omega
      rw [batchedFuel, List.isEmpty_cons, if_neg Bool.false_ne_true, List.flatten_cons, ih _ hdrop,
        List.take_append_drop]

/-- The chunks of a list, one after the other, are the list. -/
theorem flatten_batched (hn : 0 < n) (xs : List α) : (batched n xs).flatten = xs :=
  flatten_batchedFuel hn _ xs le_rfl

/-- One statement for each chunk finds what one statement for all would. -/
theorem mem_batched_filter [DecidableEq α] (hn : 0 < n) {xs : List α} {rows : List ρ} {f : ρ → α} {p : ρ → Bool}
    {r : ρ} : (r ∈ (batched n xs).flatMap fun ids => rows.filter fun r => ids.contains (f r) && p r) ↔
      r ∈ rows ∧ f r ∈ xs ∧ p r = true := by
  have hmem : f r ∈ xs ↔ ∃ ids ∈ batched n xs, f r ∈ ids := by
    rw [← List.mem_flatten, flatten_batched hn]
  simp only [List.mem_flatMap, List.mem_filter, Bool.and_eq_true, List.contains_iff_mem, hmem]
  constructor
  · rintro ⟨ids, hids, hr, hf, hp⟩
    exact ⟨hr, ⟨ids, hids, hf⟩, hp⟩
  · rintro ⟨hr, ⟨ids, hids, hf⟩, hp⟩
    exact ⟨ids, hids, hr, hf, hp⟩

end Chunks

/-! ## Scopes -/

variable {db : Db} {now : Time} {user : Uuid} {cap : Capability} {chunk : ℕ}

theorem mem_teamOrganizationIds (hchunk : 0 < chunk) {teams : List Uuid} {team o : Uuid} :
    (team, o) ∈ teamOrganizationIds db chunk teams ↔
      team ∈ teams ∧ ∃ t ∈ db.teams, t.id = team ∧ t.active = true ∧ t.organizationId = o := by
  unfold teamOrganizationIds
  rw [← List.map_flatMap, List.mem_map]
  constructor
  · rintro ⟨t, ht, he⟩
    obtain ⟨ht, hm, ha⟩ := (mem_batched_filter hchunk).1 ht
    obtain ⟨rfl, rfl⟩ := Prod.mk.inj he
    exact ⟨hm, t, ht, rfl, ha, rfl⟩
  · rintro ⟨hm, t, ht, rfl, ha, rfl⟩
    exact ⟨t, (mem_batched_filter hchunk).2 ⟨ht, hm, ha⟩, rfl⟩

theorem teamOrganization_eq_some (hteams : Table.Unique db.teams) {team o : Uuid} :
    teamOrganization db (some team) = some o ↔
      ∃ t ∈ db.teams, t.id = team ∧ t.active = true ∧ t.organizationId = o := by
  simp only [teamOrganization, Option.bind_some, Option.map_eq_some_iff, Option.filter_eq_some_iff]
  constructor
  · rintro ⟨t, ⟨ht, ha⟩, rfl⟩
    exact ⟨t, Table.mem_of_find ht, Table.key_of_find ht, ha, rfl⟩
  · rintro ⟨t, ht, rfl, ha, rfl⟩
    exact ⟨t, ⟨hteams.find_of_mem ht, ha⟩, rfl⟩

/-- The ancestry resolved in bulk is the ancestry of one team. -/
theorem lookup_teamOrganizationIds (hchunk : 0 < chunk) (hteams : Table.Unique db.teams) {teams : List Uuid}
    {team : Uuid} (hm : team ∈ teams) :
    (teamOrganizationIds db chunk teams).lookup team = teamOrganization db (some team) := by
  have hmem (o : Uuid) : (team, o) ∈ teamOrganizationIds db chunk teams ↔
      teamOrganization db (some team) = some o := by
    rw [mem_teamOrganizationIds hchunk, teamOrganization_eq_some hteams]
    exact and_iff_right hm
  cases h : (teamOrganizationIds db chunk teams).lookup team with
  | none =>
    cases ho : teamOrganization db (some team) with
    | none => rfl
    | some o => simpa using List.lookup_eq_none_iff.1 h _ ((hmem o).2 ho)
  | some o =>
    obtain ⟨l₁, l₂, he, -⟩ := List.lookup_eq_some_iff.1 h
    have hentry : (team, o) ∈ teamOrganizationIds db chunk teams := by
      rw [he]
      exact List.mem_append_right _ List.mem_cons_self
    exact ((hmem o).1 hentry).symm

/-- With the ancestry of its team at hand, a scope is covered in memory as it is in the database. -/
theorem scopeCoveredByAssignment_eq {organizations : List (Uuid × Uuid)} {g : Grant} {scopeType : ScopeType}
    {scopeId : Option Uuid}
    (h : ∀ team, g.scopeType = .organization → g.scopeId.isSome → scopeType = .team → scopeId = some team →
      organizations.lookup team = teamOrganization db (some team)) :
    scopeCoveredByAssignment organizations g scopeType scopeId = scopeCovered db g scopeType scopeId := by
  obtain ⟨gt, gid⟩ := g
  cases gt with
  | installation | team | campaign | other => rfl
  | organization =>
    cases gid with
    | none => rfl
    | some o =>
      cases scopeType with
      | organization => simp [scopeCoveredByAssignment, scopeCovered]
      | team =>
        cases scopeId with
        | none => simp [scopeCoveredByAssignment, scopeCovered]
        | some team => simp [scopeCoveredByAssignment, scopeCovered, h team rfl rfl rfl rfl]
      | installation | campaign | other => simp [scopeCoveredByAssignment, scopeCovered]

/-- The teams among the requested scopes. -/
def requestedTeams (requests : List (ScopeType × Option Uuid)) : List Uuid :=
  (requests.dedup.filterMap fun r => if r.1 = .team then r.2 else none).dedup

theorem covered_in_bulk (hchunk : 0 < chunk) (hteams : Table.Unique db.teams) {grants : List Grant}
    {requests : List (ScopeType × Option Uuid)} {r : ScopeType × Option Uuid} (hr : r ∈ requests)
    {organizations : List (Uuid × Uuid)}
    (horg : (grants.any fun g => g.scopeType = .organization && g.scopeId.isSome) = true →
      organizations = teamOrganizationIds db chunk (requestedTeams requests)) :
    (grants.any fun g => scopeCoveredByAssignment organizations g r.1 r.2) = true ↔
      (grants.any fun g => scopeCovered db g r.1 r.2) = true := by
  rw [List.any_eq_true, List.any_eq_true]
  refine exists_congr fun g => and_congr_right fun hg => ?_
  rw [scopeCoveredByAssignment_eq]
  intro team hgt hgid hrt hrid
  -- the grant is for one organization, so the ancestry of the teams was read
  rw [horg (List.any_eq_true.2 ⟨g, hg, by simp [hgt, hgid]⟩)]
  refine lookup_teamOrganizationIds hchunk hteams (List.mem_dedup.2 (List.mem_filterMap.2 ⟨r, ?_, ?_⟩))
  · exact List.mem_dedup.2 hr
  · rw [if_pos hrt, hrid]

/-- The bulk check of scopes decides each of them as `has_scope_capability` does. -/
theorem mem_scopeCapabilitiesMatched (hchunk : 0 < chunk) (hteams : Table.Unique db.teams)
    {requests : List (ScopeType × Option Uuid)} {r : ScopeType × Option Uuid} :
    r ∈ scopeCapabilitiesMatched chunk db now user cap requests ↔
      r ∈ requests ∧ hasScopeCapability db now user cap r.1 r.2 = true := by
  unfold scopeCapabilitiesMatched hasScopeCapability
  dsimp only
  by_cases hempty : (requests.dedup.isEmpty || (capabilityGrants db now user cap).isEmpty) = true
  · rw [if_pos hempty]
    rw [Bool.or_eq_true, List.isEmpty_iff, List.isEmpty_iff] at hempty
    rcases hempty with hnone | hnone
    · have hreq : r ∉ requests := by
        rw [← List.mem_dedup, hnone]
        exact List.not_mem_nil
      simp [hreq]
    · simp [hnone]
  · rw [if_neg hempty, List.mem_filter, List.mem_dedup]
    exact and_congr_right fun hr => covered_in_bulk hchunk hteams hr fun h => if_pos h

/-! ## Campaigns -/

theorem mem_campaignIdsWithCapability (hchunk : 0 < chunk) (hcampaigns : Table.Unique db.campaigns)
    {ids : List Uuid} {id : Uuid} : id ∈ campaignIdsWithCapability chunk db now user cap ids ↔
      id ∈ ids ∧ hasCampaignCapability db now user cap id = true := by
  unfold campaignIdsWithCapability hasCampaignCapability
  dsimp only
  rw [← List.map_flatMap, List.mem_map]
  constructor
  · rintro ⟨cmp, hm, rfl⟩
    obtain ⟨hcmp, hid, hreach⟩ := (mem_batched_filter hchunk).1 hm
    refine ⟨List.mem_dedup.1 hid, ?_⟩
    have hfind : Table.find db.campaigns cmp.id = some cmp := hcampaigns.find_of_mem hcmp
    rw [hfind]
    exact hreach
  · rintro ⟨hid, hany⟩
    obtain ⟨cmp, hfind, hreach⟩ := (Option.any_eq_true ..).1 hany
    obtain rfl : cmp.id = id := Table.key_of_find hfind
    exact ⟨cmp, (mem_batched_filter hchunk).2 ⟨Table.mem_of_find hfind, List.mem_dedup.2 hid, hreach⟩, rfl⟩

end Authz

/-! ## Users, scopes and campaigns -/

namespace WorkforceImports

variable {chunk bulkChunk : ℕ} {db : Db} {now : Time} {actor : Uuid}

theorem mem_coveredScopes (hbulk : 0 < bulkChunk) (hteams : Table.Unique db.teams) {tuples : List ScopeTuple}
    {t : ScopeTuple} : t ∈ coveredScopes bulkChunk db now actor tuples ↔
      t ∈ tuples ∧ Authz.hasScopeCapability db now actor t.1 t.2.1 t.2.2 = true := by
  obtain ⟨cap, r⟩ := t
  unfold coveredScopes
  simp only [List.mem_flatMap, List.mem_map, List.mem_filter, List.mem_dedup, List.contains_iff_mem,
    Authz.mem_scopeCapabilitiesMatched hbulk hteams, decide_eq_true_eq, Prod.mk.injEq]
  constructor
  · rintro ⟨cap', -, r', ⟨⟨t, ⟨ht, rfl⟩, rfl⟩, -, hcov⟩, rfl, rfl⟩
    exact ⟨ht, hcov⟩
  · rintro ⟨ht, hcov⟩
    exact ⟨cap, ⟨(cap, r), ht, rfl⟩, r, ⟨⟨(cap, r), ⟨ht, rfl⟩, rfl⟩, ⟨(cap, r), ⟨ht, rfl⟩, rfl⟩, hcov⟩, rfl, rfl⟩

/-- The roles read in chunks are, for each target, its effective roles. -/
theorem mem_targetRoles (hchunk : 0 < chunk) {targets : List Uuid} {ra : RoleAssignment} :
    ra ∈ targetRoles chunk db now targets ↔
      ra.userId ∈ targets ∧ ra ∈ Authz.effectiveRoleAssignments db now ra.userId := by
  unfold targetRoles Authz.effectiveRoleAssignments
  simp only [Bool.and_assoc]
  rw [Authz.mem_batched_filter hchunk, List.mem_filter]
  simp only [decide_true, Bool.true_and]
  tauto

theorem user_of_effective {target : Uuid} {ra : RoleAssignment}
    (h : ra ∈ Authz.effectiveRoleAssignments db now target) : ra.userId = target := by
  have hcond := (List.mem_filter.1 h).2
  simp only [Bool.and_eq_true, decide_eq_true_eq] at hcond
  exact hcond.1.1

theorem isEmpty_congr {α : Type} {xs ys : List α} (h : ∀ x, x ∈ xs ↔ x ∈ ys) : xs.isEmpty = ys.isEmpty := by
  rw [Bool.eq_iff_iff, List.isEmpty_iff, List.isEmpty_iff, List.eq_nil_iff_forall_not_mem,
    List.eq_nil_iff_forall_not_mem]
  exact forall_congr' fun x => not_congr (h x)

section Satisfied

variable {targetIds campaignIds : List Uuid} {scopeTuples : List ScopeTuple}

theorem mem_satisfied_scopes (hbulk : 0 < bulkChunk) (hteams : Table.Unique db.teams) {t : ScopeTuple} :
    t ∈ (satisfiedAuthority chunk bulkChunk db now actor targetIds scopeTuples campaignIds).scopes ↔
      t ∈ scopeTuples ∧ Authz.hasScopeCapability db now actor t.1 t.2.1 t.2.2 = true := by
  unfold satisfiedAuthority
  simp only [List.mem_filter, List.contains_iff_mem, mem_coveredScopes hbulk hteams, List.mem_dedup,
    List.mem_append]
  tauto

theorem mem_satisfied_campaigns (hbulk : 0 < bulkChunk) (hcampaigns : Table.Unique db.campaigns) {id : Uuid} :
    id ∈ (satisfiedAuthority chunk bulkChunk db now actor targetIds scopeTuples campaignIds).campaigns ↔
      id ∈ campaignIds ∧ Authz.hasCampaignCapability db now actor .assignCampaignAgent id = true := by
  unfold satisfiedAuthority
  simp only [List.mem_filter, List.contains_iff_mem, Authz.mem_campaignIdsWithCapability hbulk hcampaigns]
  tauto

/-- A target is managed in bulk exactly when the actor can manage it. -/
theorem mem_satisfied_targets (hchunk : 0 < chunk) (hbulk : 0 < bulkChunk) (hteams : Table.Unique db.teams)
    {target : Uuid} :
    target ∈ (satisfiedAuthority chunk bulkChunk db now actor targetIds scopeTuples campaignIds).targets ↔
      target ∈ targetIds ∧ Workforce.canManageUser db now actor target = true := by
  unfold satisfiedAuthority Workforce.canManageUser
  dsimp only
  rw [List.mem_filter]
  refine and_congr_right fun ht => ?_
  have hroles (ra : RoleAssignment) :
      ra ∈ (targetRoles chunk db now targetIds.dedup).filter (fun ra => ra.userId = target) ↔
        ra ∈ Authz.effectiveRoleAssignments db now target := by
    rw [List.mem_filter, mem_targetRoles hchunk, List.mem_dedup, decide_eq_true_eq]
    constructor
    · rintro ⟨⟨-, hra⟩, rfl⟩
      exact hra
    · intro hra
      obtain rfl : ra.userId = target := user_of_effective hra
      exact ⟨⟨ht, hra⟩, rfl⟩
  have hempty := isEmpty_congr hroles
  by_cases hnone : (Authz.effectiveRoleAssignments db now target).isEmpty = true
  · -- a user without roles: one flag is computed for all of them
    rw [hempty, if_pos hnone, if_pos hnone]
    have hsome : (targetIds.any fun t => ((targetRoles chunk db now targetIds.dedup).filter fun ra =>
        ra.userId = t).isEmpty) = true := List.any_eq_true.2 ⟨target, ht, hempty.trans hnone⟩
    rw [if_pos hsome]
  · rw [hempty, if_neg hnone, if_neg hnone, List.any_eq_true, List.any_eq_true]
    refine exists_congr fun ra => ?_
    rw [hroles]
    refine and_congr_right fun hra => ?_
    cases hcap : Workforce.roleAppointmentCapability ra.roleCode with
    | none => rfl
    | some cap =>
      -- the scope that this role occupies is one of those resolved
      have hscope : (cap, ra.scopeType, ra.scopeId) ∈
          (scopeTuples ++ appointmentScopes (targetRoles chunk db now targetIds.dedup)).dedup := by
        refine List.mem_dedup.2 (List.mem_append_right _ (List.mem_filterMap.2 ⟨ra, ?_, by rw [hcap]; rfl⟩))
        exact (List.mem_filter.1 ((hroles ra).2 hra)).1
      simp only [Option.any_some, List.contains_iff_mem, mem_coveredScopes hbulk hteams]
      exact and_iff_right hscope

/-- Bulk authority equals the one-row checks, whatever is asked and whatever the chunks. -/
theorem bulk_authority_pointwise (hteams : Table.Unique db.teams) (hcampaigns : Table.Unique db.campaigns)
    (hchunk : 0 < chunk) (hbulk : 0 < bulkChunk) (now : Time) (actor : Uuid) (targetIds campaignIds : List Uuid)
    (scopeTuples : List ScopeTuple) :
    (∀ target, target ∈ (satisfiedAuthority chunk bulkChunk db now actor targetIds scopeTuples
        campaignIds).targets ↔
      target ∈ targetIds ∧ Workforce.canManageUser db now actor target = true) ∧
    (∀ cap scopeType scopeId, (cap, scopeType, scopeId) ∈ (satisfiedAuthority chunk bulkChunk db now actor
        targetIds scopeTuples campaignIds).scopes ↔
      (cap, scopeType, scopeId) ∈ scopeTuples ∧
        Authz.hasScopeCapability db now actor cap scopeType scopeId = true) ∧
    (∀ id, id ∈ (satisfiedAuthority chunk bulkChunk db now actor targetIds scopeTuples campaignIds).campaigns ↔
      id ∈ campaignIds ∧ (Table.find db.campaigns id).isSome ∧
        Authz.hasCampaignCapability db now actor .assignCampaignAgent id = true) ∧
    (∀ user cap requests scopeType scopeId,
      (scopeType, scopeId) ∈ Authz.scopeCapabilitiesMatched bulkChunk db now user cap requests ↔
        (scopeType, scopeId) ∈ requests ∧ Authz.hasScopeCapability db now user cap scopeType scopeId = true) := by
  refine ⟨fun target => mem_satisfied_targets hchunk hbulk hteams,
    fun cap scopeType scopeId => mem_satisfied_scopes hbulk hteams, fun id => ?_,
    fun user cap requests scopeType scopeId => Authz.mem_scopeCapabilitiesMatched hbulk hteams⟩
  rw [mem_satisfied_campaigns hbulk hcampaigns]
  refine and_congr_right fun _ => (and_iff_right_of_imp fun h => ?_).symm
  obtain ⟨cmp, hfind, -⟩ := (Option.any_eq_true ..).1 h
  exact Option.isSome_of_eq_some hfind

end Satisfied

/-- User 7 leads team 12, and the manager of organization 1 lends user 7 that organization. Team 13 and campaign 22
belong to another one; campaign 23 does too, but team 12 works on it. -/
def Demo.district : Db where
  teams := [{ id := 11, organizationId := 1 }, { id := 12, organizationId := 1 }, { id := 13, organizationId := 2 }]
  roleAssignments := [
    { id := 31, userId := 6, roleCode := .manager, scopeType := .organization, scopeId := some 1, effectiveFrom := 0 },
    { id := 32, userId := 7, roleCode := .teamCaptain, scopeType := .team, scopeId := some 12, effectiveFrom := 0 },
    { id := 33, userId := 8, roleCode := .agent, scopeType := .team, scopeId := some 11, effectiveFrom := 0 },
    { id := 34, userId := 9, roleCode := .agent, scopeType := .team, scopeId := some 13, effectiveFrom := 0 }]
  delegations := [{
    id := 41, delegatorUserId := 6, delegateUserId := 7, capabilitySet := [.createAgent, .assignCampaignAgent]
    scopeType := .organization, scopeId := some 1, effectiveFrom := 0 }]
  campaigns := [{ id := 21, owningScopeType := .team, owningScopeId := some 11 },
    { id := 22, owningScopeId := some 2 }, { id := 23, owningScopeId := some 2 }]
  teamAssignments := [{ id := 51, campaignId := 23, teamId := 12, effectiveFrom := 0 }]

/-- What user 7 may do with the agents 8 and 9, user 10 who has no role, two teams and four campaigns, of which
one does not exist. -/
def Demo.resolved : SatisfiedAuthority :=
  satisfiedAuthority 1 2 Demo.district 5 7 [8, 9, 10] [(.createAgent, .team, some 11), (.createAgent, .team, some 13)]
    [21, 22, 23, 24]

theorem bulk_authority_pointwise_district :
    (8 ∈ Demo.resolved.targets ∧ 9 ∉ Demo.resolved.targets ∧ 10 ∈ Demo.resolved.targets) ∧
    ((.createAgent, .team, some 11) ∈ Demo.resolved.scopes ∧ (.createAgent, .team, some 13) ∉ Demo.resolved.scopes) ∧
    (21 ∈ Demo.resolved.campaigns ∧ 22 ∉ Demo.resolved.campaigns ∧ 23 ∈ Demo.resolved.campaigns ∧
      24 ∉ Demo.resolved.campaigns) ∧
    (.team, some 12) ∈ Authz.scopeCapabilitiesMatched 2 Demo.district 5 7 .assignCampaignAgent
      [(.team, some 12), (.team, some 13), (.organization, some 2)] := by
  obtain ⟨htargets, hscopes, hcampaigns, hmatched⟩ := bulk_authority_pointwise (by decide : Table.Unique Demo.district.teams)
    (by decide : Table.Unique Demo.district.campaigns) (by decide : 0 < 1) (by decide : 0 < 2) 5 7 [8, 9, 10]
    [21, 22, 23, 24] [(.createAgent, .team, some 11), (.createAgent, .team, some 13)]
  refine ⟨⟨(htargets 8).2 ?_, fun h => ?_, (htargets 10).2 ?_⟩, ⟨(hscopes _ _ _).2 ?_, fun h => ?_⟩,
    ⟨(hcampaigns 21).2 ?_, fun h => ?_, (hcampaigns 23).2 ?_, fun h => ?_⟩, (hmatched _ _ _ _ _).2 ?_⟩
  · decide +kernel
  · exact absurd ((htargets 9).1 h).2 (by decide +kernel)
  · decide +kernel
  · decide +kernel
  · exact absurd ((hscopes _ _ _).1 h).2 (by decide +kernel)
  · decide +kernel
  · exact absurd ((hcampaigns 22).1 h).2.2 (by decide +kernel)
  · decide +kernel
  · exact absurd ((hcampaigns 24).1 h).2.1 (by decide +kernel)
  · decide +kernel

/-! ## Requirements -/

section Requirements

variable (hteams : Table.Unique db.teams) (hcampaigns : Table.Unique db.campaigns)
  {requirements union : List (Option Requirement)}
include hteams hcampaigns

/-- What is resolved for a union of requirements decides each list among them on its own. -/
theorem requirementsSatisfied_eq (hsub : ∀ r ∈ requirements, r ∈ union) :
    requirementsSatisfied requirements (satisfiedAuthority authorityChunkSize Authz.bulkChunkSize db now actor
      (distinctTargets union) (distinctScopes union) (distinctCampaigns union)) =
      requirements.all fun r => r.all (requirementMet db now actor) := by
  have hchunk : 0 < authorityChunkSize := by decide
  have hbulk : 0 < Authz.bulkChunkSize := by decide
  unfold requirementsSatisfied
  rw [Bool.eq_iff_iff, List.all_eq_true, List.all_eq_true]
  refine forall₂_congr fun r hr => ?_
  have hmem := hsub r hr
  rcases r with _ | _ | target | ⟨cap, scopeType, scopeId⟩ | campaign
  · exact Iff.rfl
  · exact Iff.rfl
  · have hin : target ∈ distinctTargets union := List.mem_dedup.2 (List.mem_filterMap.2 ⟨_, hmem, rfl⟩)
    rw [List.contains_iff_mem, mem_satisfied_targets hchunk hbulk hteams]
    exact and_iff_right hin
  · have hin : (cap, scopeType, scopeId) ∈ distinctScopes union :=
      List.mem_dedup.2 (List.mem_filterMap.2 ⟨_, hmem, rfl⟩)
    rw [List.contains_iff_mem, mem_satisfied_scopes hbulk hteams]
    exact and_iff_right hin
  · have hin : campaign ∈ distinctCampaigns union := List.mem_dedup.2 (List.mem_filterMap.2 ⟨_, hmem, rfl⟩)
    rw [List.contains_iff_mem, mem_satisfied_campaigns hbulk hcampaigns]
    exact and_iff_right hin

/-- The check of a list of requirements checks each of them. -/
theorem authorityOverRequirements_eq : authorityOverRequirements db now actor requirements =
    requirements.all fun r => r.all (requirementMet db now actor) := by
  unfold authorityOverRequirements
  split_ifs with hdeny
  · obtain ⟨r, hr, hd⟩ := List.any_eq_true.1 hdeny
    obtain rfl : r = some .deny := of_decide_eq_true hd
    refine (Bool.eq_false_iff.2 fun hall => ?_).symm
    exact Bool.false_ne_true (List.all_eq_true.1 hall _ hr)
  · exact requirementsSatisfied_eq hteams hcampaigns fun _ => id

end Requirements

end WorkforceImports

end OmniDB
