import OmniDB.Proofs.BulkAuthority
import OmniDB.Proofs.Delegation
import OmniDB.Spec.Directory

/-! The scope of the user listings. The listings see the teams over which the actor may
appoint by a role of their own; an appointment capability that is only lent is not seen. -/

namespace OmniDB.Directory

open Tx
open Authz Workforce

variable {db : Db} {now : Time} {actor team : Uuid}

/-- The listings show the team to the actor. -/
def Visible (db : Db) (now : Time) (actor team : Uuid) : Prop :=
  (visibleTeamIds db now actor).1 = true ∨ team ∈ (visibleTeamIds db now actor).2

/-- The actor may appoint into some role at the team. -/
def Appoints (db : Db) (now : Time) (actor team : Uuid) : Prop :=
  ∃ cap ∈ appointmentCapabilities, hasScopeCapability db now actor cap .team (some team) = true

/-- A role of the actor's own lets the actor appoint at the team. -/
def AppointsByRole (db : Db) (now : Time) (actor team : Uuid) : Prop :=
  ∃ cap ∈ appointmentCapabilities, HoldsByRole db now actor cap (.scope .team (some team))

/-- A delegation lets the actor appoint at the team. -/
def AppointsByDelegation (db : Db) (now : Time) (actor team : Uuid) : Prop :=
  ∃ cap ∈ appointmentCapabilities, ∃ d, Gives db now d actor cap (.scope .team (some team))

theorem appoints_iff : Appoints db now actor team ↔
    AppointsByRole db now actor team ∨ AppointsByDelegation db now actor team := by
  unfold Appoints AppointsByRole AppointsByDelegation
  constructor
  · rintro ⟨cap, hcap, h⟩
    have h : holds db now actor cap (.scope .team (some team)) = true := h
    rcases holds_iff.1 h with h | h
    · exact Or.inl ⟨cap, hcap, h⟩
    · exact Or.inr ⟨cap, hcap, h⟩
  · rintro (⟨cap, hcap, h⟩ | ⟨cap, hcap, h⟩)
    · exact ⟨cap, hcap, holds_iff.2 (Or.inl h)⟩
    · exact ⟨cap, hcap, holds_iff.2 (Or.inr h)⟩

/-- A role that appoints, at a scope that covers the team. -/
theorem appointsByRole_iff : AppointsByRole db now actor team ↔
    ∃ ra ∈ effectiveRoleAssignments db now actor,
      appointmentCapabilities.any (roleCapabilities ra.roleCode).contains = true ∧
        scopeCovered db ⟨ra.scopeType, ra.scopeId⟩ .team (some team) = true := by
  unfold AppointsByRole HoldsByRole
  simp only [List.any_eq_true, List.contains_iff_mem]
  constructor
  · rintro ⟨cap, hcap, ra, hra, hrole, hcov⟩
    exact ⟨ra, hra, ⟨cap, hcap, hrole⟩, hcov⟩
  · rintro ⟨ra, hra, ⟨cap, hcap, hrole⟩, hcov⟩
    exact ⟨cap, hcap, ra, hra, hrole, hcov⟩

section Teams

variable {t : Team}

/-- What covers an active team: the whole installation, its organization, or the team itself. -/
theorem covered_iff (hteams : Table.Unique db.teams) (ht : t ∈ db.teams) (hactive : t.active = true) {g : Grant} :
    scopeCovered db g .team (some t.id) = true ↔
      g.Wide ∨ g = ⟨.organization, some t.organizationId⟩ ∨ g = ⟨.team, some t.id⟩ := by
  have ho : teamOrganization db (some t.id) = some t.organizationId :=
    (teamOrganization_eq_some hteams).2 ⟨t, ht, rfl, hactive, rfl⟩
  obtain ⟨scopeType, scopeId⟩ := g
  cases scopeType with
  | installation => simp [scopeCovered, Grant.Wide]
  | organization =>
    cases scopeId with
    | none => simp [scopeCovered, Grant.Wide]
    | some o => simp [scopeCovered, Grant.Wide, ho, eq_comm]
  | team => simp [scopeCovered, Grant.Wide, eq_comm]
  | campaign | other => simp [scopeCovered, Grant.Wide]

/-- The roles of the actor that appoint. -/
def appointing (db : Db) (now : Time) (actor : Uuid) : List RoleAssignment :=
  (effectiveRoleAssignments db now actor).filter fun ra =>
    appointmentCapabilities.any (roleCapabilities ra.roleCode).contains

theorem seesEveryone_iff : (visibleTeamIds db now actor).1 = true ↔
    ∃ ra ∈ appointing db now actor, (Grant.mk ra.scopeType ra.scopeId).Wide := by
  simp only [visibleTeamIds, List.any_eq_true, Bool.or_eq_true, Bool.and_eq_true, decide_eq_true_eq,
    Option.isNone_iff_eq_none]
  rfl

/-- The teams, and the organizations, that those roles are for. -/
def namedTeams (db : Db) (now : Time) (actor : Uuid) : List Uuid :=
  (appointing db now actor).filterMap fun ra => if ra.scopeType = .team then ra.scopeId else none

def namedOrganizations (db : Db) (now : Time) (actor : Uuid) : List Uuid :=
  (appointing db now actor).filterMap fun ra => if ra.scopeType = .organization then ra.scopeId else none

theorem mem_namedTeams {team : Uuid} : team ∈ namedTeams db now actor ↔
    ∃ ra ∈ appointing db now actor, Grant.mk ra.scopeType ra.scopeId = ⟨.team, some team⟩ := by
  simp [namedTeams, List.mem_filterMap]

theorem mem_namedOrganizations {o : Uuid} : o ∈ namedOrganizations db now actor ↔
    ∃ ra ∈ appointing db now actor, Grant.mk ra.scopeType ra.scopeId = ⟨.organization, some o⟩ := by
  simp [namedOrganizations, List.mem_filterMap]

/-- The organizations stand for their active teams. -/
theorem visibleTeamIds_eq (hno : (visibleTeamIds db now actor).1 = false) :
    (visibleTeamIds db now actor).2 = namedTeams db now actor ++
      if (namedOrganizations db now actor).isEmpty then []
      else (db.teams.filter fun t =>
        (namedOrganizations db now actor).contains t.organizationId && t.active).map Team.id := by
  unfold visibleTeamIds at hno ⊢
  simp only at hno ⊢
  rw [hno, Bool.false_or]
  rfl

theorem mem_teamIds_iff (hteams : Table.Unique db.teams) (ht : t ∈ db.teams) (hactive : t.active = true)
    (hno : (visibleTeamIds db now actor).1 = false) : t.id ∈ (visibleTeamIds db now actor).2 ↔
      ∃ ra ∈ appointing db now actor, Grant.mk ra.scopeType ra.scopeId = ⟨.organization, some t.organizationId⟩ ∨
        Grant.mk ra.scopeType ra.scopeId = ⟨.team, some t.id⟩ := by
  rw [visibleTeamIds_eq hno, List.mem_append, mem_namedTeams]
  simp only [and_or_left, exists_or]
  rw [or_comm, ← mem_namedOrganizations]
  refine or_congr ?_ Iff.rfl
  split_ifs with hempty
  · simp [List.isEmpty_iff.1 hempty]
  · simp only [List.mem_map, List.mem_filter, Bool.and_eq_true, List.contains_iff_mem]
    constructor
    · rintro ⟨t', ⟨ht', ho, -⟩, hid⟩
      obtain rfl : t' = t := hteams.eq ht' ht hid
      exact ho
    · intro ho
      exact ⟨t, ⟨ht, ho, hactive⟩, rfl⟩

/-- The listings see a team through the roles that cover it. -/
theorem mem_visible_iff (hteams : Table.Unique db.teams) (ht : t ∈ db.teams) (hactive : t.active = true) :
    Visible db now actor t.id ↔
      ∃ ra ∈ appointing db now actor, scopeCovered db ⟨ra.scopeType, ra.scopeId⟩ .team (some t.id) = true := by
  simp only [covered_iff hteams ht hactive]
  unfold Visible
  cases h : (visibleTeamIds db now actor).1 with
  | true =>
    obtain ⟨ra, hra, hw⟩ := seesEveryone_iff.1 h
    exact ⟨fun _ => ⟨ra, hra, Or.inl hw⟩, fun _ => Or.inl rfl⟩
  | false =>
    rw [mem_teamIds_iff hteams ht hactive h]
    have hnone : ∀ ra ∈ appointing db now actor, ¬(Grant.mk ra.scopeType ra.scopeId).Wide := by
      intro ra hra hw
      rw [seesEveryone_iff.2 ⟨ra, hra, hw⟩] at h
      cases h
    constructor
    · rintro (hf | ⟨ra, hra, h⟩)
      · cases hf
      · exact ⟨ra, hra, Or.inr h⟩
    · rintro ⟨ra, hra, hw | h⟩
      · exact absurd hw (hnone ra hra)
      · exact Or.inr ⟨ra, hra, h⟩

theorem visible_iff (hteams : Table.Unique db.teams) (ht : t ∈ db.teams) (hactive : t.active = true) :
    Visible db now actor t.id ↔ AppointsByRole db now actor t.id := by
  rw [mem_visible_iff hteams ht hactive, appointsByRole_iff]
  simp only [appointing, List.mem_filter, and_assoc]

/-- The listings and the authorization core agree on a team, and the members over whom the
actor may appoint are listed, exactly where every appointment capability at the team that is
lent to the actor comes with one of the actor's own. -/
theorem visible_iff_appoints (hteams : Table.Unique db.teams) (ht : t ∈ db.teams)
    (hactive : t.active = true) :
    ((Visible db now actor t.id ↔ Appoints db now actor t.id) ∧
      (Appoints db now actor t.id → ∀ m ∈ db.memberships, m.teamId = t.id → m.membershipStatus = .active →
        userInAdminScope db now actor m.userId = true ∧
          ∀ u ∈ db.users, u.id = m.userId → u ∈ visibleUsers db now actor)) ↔
      (AppointsByDelegation db now actor t.id → AppointsByRole db now actor t.id) := by
  rw [visible_iff hteams ht hactive, appoints_iff]
  constructor
  · rintro ⟨h, -⟩ hd
    exact h.2 (Or.inr hd)
  · intro h
    have hrole : AppointsByRole db now actor t.id ∨ AppointsByDelegation db now actor t.id →
        AppointsByRole db now actor t.id := fun ha => ha.elim id h
    refine ⟨⟨Or.inl, hrole⟩, fun ha m hm hteam hstatus => ?_⟩
    have hv : Visible db now actor t.id := (visible_iff hteams ht hactive).2 (hrole ha)
    have hmember : memberOfAny db (visibleTeamIds db now actor).2 m.userId = true ∨
        (visibleTeamIds db now actor).1 = true := by
      refine hv.symm.imp_left fun hmem => List.any_eq_true.2 ⟨m, hm, ?_⟩
      simp [hteam, hmem, hstatus]
    constructor
    · simp only [userInAdminScope, directoryScope, Bool.or_eq_true]
      rcases hmember with hmember | heveryone
      · exact Or.inr hmember
      · exact Or.inl (Or.inl heveryone)
    · rintro u hu hid
      unfold visibleUsers
      dsimp only
      split_ifs with heveryone
      · exact hu
      · exact List.mem_filter.2 ⟨hu, by rw [hid]; exact hmember.resolve_right heveryone⟩

end Teams

/-! A team leader lends the appointment of agents at team 1 to a viewer. The delegation lets
the viewer appoint there, and neither the team nor its member is listed to the viewer. -/

def lent : Db where
  users := [{ id := 3 }]
  teams := [{ id := 1, organizationId := 5 }]
  memberships := [{ id := 2, teamId := 1, userId := 3, membershipStatus := .active, effectiveFrom := 0 }]
  roleAssignments := [
    { id := 6, userId := 10, roleCode := .teamLeader, scopeType := .team, scopeId := some 1, effectiveFrom := 0 },
    { id := 7, userId := 11, roleCode := .viewer, scopeType := .organization, effectiveFrom := 0 }]
  delegations := [{ id := 8, delegatorUserId := 10, delegateUserId := 11, capabilitySet := [.createAgent],
                    scopeType := .team, scopeId := some 1, effectiveFrom := 0 }]

theorem lent_not_visible : Appoints lent 1 11 1 ∧ ¬Visible lent 1 11 1 ∧
    userInAdminScope lent 1 11 3 = false ∧ visibleUsers lent 1 11 = [] := by
  refine ⟨⟨.createAgent, by decide, by decide⟩, ?_, by decide, by decide⟩
  unfold Visible
  decide

/-- The leader sees the team and its member. -/
theorem lent_visible_to_leader :
    (Visible lent 1 10 1 ↔ Appoints lent 1 10 1) ∧
      (Appoints lent 1 10 1 → ∀ m ∈ lent.memberships, m.teamId = 1 → m.membershipStatus = .active →
        userInAdminScope lent 1 10 m.userId = true ∧
          ∀ u ∈ lent.users, u.id = m.userId → u ∈ visibleUsers lent 1 10) := by
  refine (visible_iff_appoints (t := { id := 1, organizationId := 5 }) (by decide) (by decide) rfl).2 fun _ => ?_
  exact appointsByRole_iff.2 ⟨_, List.mem_cons_self, by decide, by decide⟩

end OmniDB.Directory
