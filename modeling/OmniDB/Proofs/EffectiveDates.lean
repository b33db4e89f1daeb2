import OmniDB.Proofs.WorkforceRuns
import OmniDB.Tx.Dated

/-! Effective-dated history. Assignments, role grants, memberships and reporting lines are
ended, never rewritten, as long as no request ends a row a second time: the operations that
end a row do not look whether it has ended already. -/

namespace OmniDB.EffectiveDates

open Tx
open Tx.Dated
open Tx.Prog

/-- The primary campaign assignments of a user exclude each other. -/
instance : Dated CampaignUserAssignment Time Uuid where
  start := CampaignUserAssignment.effectiveFrom
  stop := CampaignUserAssignment.effectiveTo
  ended a := a.status = .ended
  slot a := if a.assignmentType = "primary" then some a.userId else none

/-- A team may be assigned to a campaign more than once. -/
instance : Dated CampaignTeamAssignment Time Uuid where
  start := CampaignTeamAssignment.effectiveFrom
  stop := CampaignTeamAssignment.effectiveTo
  ended a := a.status = .ended
  slot _ := none

instance : Dated RoleAssignment Time (Uuid × Role × ScopeType × Option Uuid) where
  start := RoleAssignment.effectiveFrom
  stop := RoleAssignment.effectiveTo
  ended ra := ra.status = .ended
  slot ra := some (ra.userId, ra.roleCode, ra.scopeType, ra.scopeId)

instance : Dated TeamMembership Time (Uuid × Uuid) where
  start := TeamMembership.effectiveFrom
  stop := TeamMembership.effectiveTo
  ended m := m.membershipStatus = .ended
  slot m := some (m.userId, m.teamId)

/-- The primary reporting lines of a user in one context exclude each other. -/
instance : Dated ReportingAssignment Time (Uuid × String × Option Uuid) where
  start := ReportingAssignment.effectiveFrom
  stop := ReportingAssignment.effectiveTo
  ended l := l.status = .ended
  slot l := if l.assignmentType = "primary" then some (l.subordinateUserId, l.contextType, l.contextId) else none

/-! ## The operations -/

inductive Op where
  | assignAgent (c : Call) (campaign : Uuid) (r : Campaigns.AssignRequest) (actor : Uuid)
  | endUserAssignment (c : Call) (id actor : Uuid) (reason : Option String)
  | transferAgent (c : Call) (agent source destination : Uuid) (team : Option Uuid) (actor : Uuid)
      (reason : Option String)
  | assignTeam (c : Call) (campaign team : Uuid) (capacity : Option ℤ) (actor : Uuid)
  | endTeamAssignment (c : Call) (id actor : Uuid)
  | assignRole (c : Call) (r : Workforce.RoleRequest) (appointedBy : Uuid)
  | endRoleAssignment (c : Call) (id endedBy : Uuid) (reason : String)
  | addTeamMembership (c : Call) (team user addedBy : Uuid)
  | endTeamMembership (c : Call) (id endedBy : Uuid) (reason : Option String)
  | setReportingLine (c : Call) (r : Workforce.ReportingRequest) (assignedBy : Uuid)
  | endReportingLine (c : Call) (id endedBy : Uuid) (reason : Option String)

def Op.call : Op → Call
  | .assignAgent c .. | .endUserAssignment c .. | .transferAgent c .. | .assignTeam c ..
  | .endTeamAssignment c .. | .assignRole c .. | .endRoleAssignment c .. | .addTeamMembership c ..
  | .endTeamMembership c .. | .setReportingLine c .. | .endReportingLine c .. => c

/-- `db.get(Model, id)` of a row that must be there. -/
def load {ρ : Type} [Keyed ρ Uuid] (name : String) (table : Db → List ρ) (id : Uuid) : Txn ρ := do
  expect (← getRow name table id) (.http 404 (name ++ " not found"))

/-- Each operation on the rows that its request has loaded. -/
def body : Op → Txn Unit
  | .assignAgent c campaign r actor => do
    let campaign ← load "campaign" Db.campaigns campaign
    let _ ← Campaigns.assignAgentToCampaign c campaign r actor
  | .endUserAssignment c id actor reason => do
    let a ← load "assignment" Db.userAssignments id
    Campaigns.endUserAssignment c a actor reason
  | .transferAgent c agent source destination team actor reason => do
    let source ← load "campaign" Db.campaigns source
    let destination ← load "campaign" Db.campaigns destination
    let _ ← Campaigns.transferAgent c agent source destination team actor reason
  | .assignTeam c campaign team capacity actor => do
    let campaign ← load "campaign" Db.campaigns campaign
    Campaigns.assignTeamToCampaign c campaign team capacity actor
  | .endTeamAssignment c id actor => do
    let a ← load "team assignment" Db.teamAssignments id
    Campaigns.endTeamAssignment c a actor
  | .assignRole c r appointedBy => do
    let _ ← Workforce.assignRole c r appointedBy
  | .endRoleAssignment c id endedBy reason => do
    let ra ← load "role assignment" Db.roleAssignments id
    Workforce.endRoleAssignment c ra endedBy reason
  | .addTeamMembership c team user addedBy => do
    let _ ← Workforce.addTeamMembership c team user addedBy
  | .endTeamMembership c id endedBy reason => do
    let m ← load "membership" Db.memberships id
    Workforce.endTeamMembership c m endedBy reason
  | .setReportingLine c r assignedBy => do
    let _ ← Workforce.setReportingLine c r assignedBy
  | .endReportingLine c id endedBy reason => do
    let l ← load "reporting line" Db.reportingAssignments id
    Workforce.endReportingLine c l endedBy reason

/-- The row has ended, and ending it now would move its end. -/
def moves {ρ ι : Type} [Keyed ρ Uuid] [Dated ρ Time ι] (t : List ρ) (id : Uuid) (now : Time) : Bool :=
  (Table.find t id).any fun r => ended r && stop r ≠ some now

/-- The assignment has ended, and its agent holds work of its campaign. -/
def releasesWork (x : Db) (id : Uuid) : Bool :=
  (Table.find x.userAssignments id).any fun a => ended a && x.workItems.any fun w =>
    x.campaignOf w = some a.campaignId && Work.heldBy a.userId w

/-- The operation ends a row that has ended before, at another time or with work to release. -/
def Op.endsAgain (x : Db) : Op → Bool
  | .endUserAssignment c id _ _ => moves x.userAssignments id (c.utcnow 0) || releasesWork x id
  | .endTeamAssignment c id _ => moves x.teamAssignments id (c.utcnow 0)
  | .endRoleAssignment c id _ _ => moves x.roleAssignments id (c.utcnow 0)
  | .endTeamMembership c id _ _ => moves x.memberships id (c.utcnow 0)
  | .endReportingLine c id _ _ => moves x.reportingAssignments id (c.utcnow 0)
  | .assignAgent .. | .transferAgent .. | .assignTeam .. | .assignRole .. | .addTeamMembership ..
  | .setReportingLine .. => false

/-- The tables of effective-dated rows. -/
structure Tables where
  userAssignments : List CampaignUserAssignment
  teamAssignments : List CampaignTeamAssignment
  roleAssignments : List RoleAssignment
  memberships : List TeamMembership
  reportingAssignments : List ReportingAssignment

def tables (x : Db) : Tables where
  userAssignments := x.userAssignments
  teamAssignments := x.teamAssignments
  roleAssignments := x.roleAssignments
  memberships := x.memberships
  reportingAssignments := x.reportingAssignments

/-- Every one of the tables is a history. -/
structure Histories (t : Tables) : Prop where
  userAssignments : Ledger t.userAssignments
  teamAssignments : Ledger t.teamAssignments
  roleAssignments : Ledger t.roleAssignments
  memberships : Ledger t.memberships
  reportingAssignments : Ledger t.reportingAssignments

/-- No row that had ended has another end now. -/
structure Kept (t t' : Tables) : Prop where
  userAssignments : Frozen t.userAssignments t'.userAssignments
  teamAssignments : Frozen t.teamAssignments t'.teamAssignments
  roleAssignments : Frozen t.roleAssignments t'.roleAssignments
  memberships : Frozen t.memberships t'.memberships
  reportingAssignments : Frozen t.reportingAssignments t'.reportingAssignments

/-- The clock has not gone back behind an end. -/
structure Timely (t : Tables) (now : Time) : Prop where
  userAssignments : Past t.userAssignments now
  teamAssignments : Past t.teamAssignments now
  roleAssignments : Past t.roleAssignments now
  memberships : Past t.memberships now
  reportingAssignments : Past t.reportingAssignments now

/-- The runs: the clock does not go back, and no operation ends a row again. -/
def Allowed (x : Db) (op : Op) : Prop := (∀ n, Timely (tables x) (op.call.utcnow n)) ∧ op.endsAgain x = false

/-! ## What an operation does to the tables -/

/-- What one operation does to the tables at one reading of the clock. -/
structure Revised (now : Time) (t t' : Tables) : Prop where
  userAssignments : Revises now t.userAssignments t'.userAssignments
  teamAssignments : Revises now t.teamAssignments t'.teamAssignments
  roleAssignments : Revises now t.roleAssignments t'.roleAssignments
  memberships : Revises now t.memberships t'.memberships
  reportingAssignments : Revises now t.reportingAssignments t'.reportingAssignments

variable {t t' : Tables} {now : Time}

theorem Revised.refl (now : Time) (t : Tables) : Revised now t t :=
  ⟨.of_eq rfl, .of_eq rfl, .of_eq rfl, .of_eq rfl, .of_eq rfl⟩

theorem Revised.assignments (us : List CampaignUserAssignment) (h : Revises now t.userAssignments us) :
    Revised now t { t with userAssignments := us } := { Revised.refl now t with userAssignments := h }

theorem Revised.teams (ts : List CampaignTeamAssignment) (h : Revises now t.teamAssignments ts) :
    Revised now t { t with teamAssignments := ts } := { Revised.refl now t with teamAssignments := h }

theorem Revised.roles (ras : List RoleAssignment) (h : Revises now t.roleAssignments ras) :
    Revised now t { t with roleAssignments := ras } := { Revised.refl now t with roleAssignments := h }

theorem Revised.members (ms : List TeamMembership) (h : Revises now t.memberships ms) :
    Revised now t { t with memberships := ms } := { Revised.refl now t with memberships := h }

theorem Revised.lines (ls : List ReportingAssignment) (h : Revises now t.reportingAssignments ls) :
    Revised now t { t with reportingAssignments := ls } := { Revised.refl now t with reportingAssignments := h }

theorem Revised.histories (h : Histories t) (hnow : Timely t now) (hr : Revised now t t') :
    Histories t' ∧ Kept t t' := by
  obtain ⟨hu, ku⟩ := h.userAssignments.revises hnow.userAssignments hr.userAssignments
  obtain ⟨ht, kt⟩ := h.teamAssignments.revises hnow.teamAssignments hr.teamAssignments
  obtain ⟨hra, kra⟩ := h.roleAssignments.revises hnow.roleAssignments hr.roleAssignments
  obtain ⟨hm, km⟩ := h.memberships.revises hnow.memberships hr.memberships
  obtain ⟨hl, kl⟩ := h.reportingAssignments.revises hnow.reportingAssignments hr.reportingAssignments
  exact ⟨⟨hu, ht, hra, hm, hl⟩, ku, kt, kra, km, kl⟩

theorem Kept.refl (t : Tables) : Kept t t := ⟨.refl _, .refl _, .refl _, .refl _, .refl _⟩

theorem Kept.trans {t'' : Tables} (h : Kept t t') (h' : Kept t' t'') : Kept t t'' where
  userAssignments := h.userAssignments.trans h'.userAssignments
  teamAssignments := h.teamAssignments.trans h'.teamAssignments
  roleAssignments := h.roleAssignments.trans h'.roleAssignments
  memberships := h.memberships.trans h'.memberships
  reportingAssignments := h.reportingAssignments.trans h'.reportingAssignments

section Ends

variable {ρ ι : Type} [Keyed ρ Uuid] [Dated ρ Time ι] {rows : List ρ} {id : Uuid} {f : ρ → ρ}

/-- An operation that ends one row now, which has not ended at another time. -/
theorem revises_end (h : Ledger rows) (hagain : moves rows id now = false)
    (hkey : ∀ r : ρ, key (f r) = key r) (hstart : ∀ r : ρ, start (f r) = start r)
    (hslot : ∀ r : ρ, slot (f r) = slot r) (hstop : ∀ r : ρ, stop (f r) = some now)
    (hended : ∀ r : ρ, ended (f r) = true) : Revises now rows (Table.modify rows id f) := by
  refine .modify fun r hr hid => ⟨hkey r, hstart r, hslot r, ?_⟩
  have hfind : Table.find rows id = some r := hid ▸ h.unique.find_of_mem hr
  simp only [moves, hfind, Option.any_some, Bool.and_eq_false_iff, decide_eq_false_iff_not, not_not] at hagain
  rcases hagain with he | hs
  · exact Or.inr ⟨h.stop_eq_none hr he, hstop r, hended r⟩
  · exact Or.inl ⟨(hended r).trans ((h.stopped r hr).2 (by simp [hs])).symm, (hstop r).trans hs.symm⟩

end Ends

section Runs

variable {c : Call} {x x' : Db} {actor : Uuid} {u : Unit}

@[simp] theorem runs_load {ρ : Type} [Keyed ρ Uuid] {name : String} {table : Db → List ρ} {id : Uuid} {r : ρ} :
    (load name table id).Runs x r x' ↔ Table.find (table x) id = some r ∧ x' = x := by
  simp [load, runs_bind, runs_getRow, and_comm, eq_comm]

instance (e : AuditEvent) : Leaves tables (recordAudit e) := .update fun _ => rfl

instance (id : Uuid) (f : UserSession → UserSession) : Leaves tables (Authz.setSession id f) :=
  .then inferInstance fun _ => .update fun _ => rfl

instance (now : Time) (user : Uuid) : Leaves tables (Authz.revokeAllForUser now user) := by
  unfold Authz.revokeAllForUser; infer_instance

instance (now : Time) (user : Uuid) : Leaves tables (Authz.invalidateDelegateSessionsForDelegator now user) := by
  unfold Authz.invalidateDelegateSessionsForDelegator; infer_instance

instance (agent campaign : Uuid) : Leaves tables (Work.releaseCampaignWorkForAgent c agent campaign) := by
  have (id : Uuid) (f : WorkItem → WorkItem) : Leaves tables (Work.setWorkItem id f) := .update fun _ => rfl
  have (f : WorkItem → WorkItem) (items : List WorkItem) : Leaves tables (Work.setAll f items) := by
    unfold Work.setAll; infer_instance
  unfold Work.releaseCampaignWorkForAgent; infer_instance

/-! ### Campaigns -/

theorem not_ended {st : EffectiveStatus} : ¬st = .ended ↔ st = .active := by
  cases st <;> simp

theorem slot_assignment {a : CampaignUserAssignment} {i : Uuid} :
    slot a = some i ↔ a.assignmentType = "primary" ∧ a.userId = i := by
  simp [slot]

theorem assignAgent_revised (hx : Ledger x.userAssignments) {k : Campaign} {r : Campaigns.AssignRequest}
    {a : CampaignUserAssignment} (h : (Campaigns.assignAgentToCampaign c k r actor).Runs x a x') :
    Revised (c.utcnow 1) (tables x) (tables x') := by
  unfold Campaigns.assignAgentToCampaign at h
  split_ifs at h with hp
  · simp only [runs_bind, runs_view, runs_raiseIf, Campaigns.runs_insertUserAssignment,
      runs_recordAudit, runs_pure, and_assoc, exists_and_left, exists_eq_left, exists_const] at h
    obtain ⟨hnone, _, t, hcap, hfree, -, rfl⟩ := h
    obtain rfl := Campaigns.runs_checkStaffingCapacity hcap
    refine .assignments _ (.insert hfree rfl rfl rfl fun b hb i hi hbi => ?_)
    by_contra he
    have hopen : ended b = false := Bool.not_eq_true _ ▸ he
    have hstop : b.effectiveTo = none := hx.stop_eq_none hb hopen
    have hactive : b.status = .active := not_ended.1 (of_decide_eq_false hopen)
    obtain ⟨hprimary, rfl⟩ := slot_assignment.1 hbi
    obtain ⟨-, huser⟩ := slot_assignment.1 hi
    exact hnone (List.any_eq_true.2 ⟨b, hb, by simp [hprimary, hactive, hstop, ← huser]⟩)
  · simp only [runs_bind, Campaigns.runs_insertUserAssignment, runs_recordAudit, runs_pure, and_assoc,
      exists_and_left, exists_eq_left, exists_const] at h
    obtain ⟨_, t, hcap, hfree, -, rfl⟩ := h
    obtain rfl := Campaigns.runs_checkStaffingCapacity hcap
    refine .assignments _ (.insert hfree rfl rfl rfl fun b hb i hi hbi => ?_)
    exact absurd (slot_assignment.1 hi).1 hp

theorem endUserAssignment_revised (hx : Ledger x.userAssignments) {a : CampaignUserAssignment}
    {reason : Option String} (hagain : moves x.userAssignments a.id (c.utcnow 0) = false)
    (h : (Campaigns.endUserAssignment c a actor reason).Runs x u x') :
    Revised (c.utcnow 0) (tables x) (tables x') := by
  unfold Campaigns.endUserAssignment at h
  simp only [runs_bind, Campaigns.runs_setUserAssignment, runs_recordAudit] at h
  obtain ⟨_, _, rfl, n, t, hr, rfl⟩ := h
  have ht := Leaves.runs (π := tables) hr
  change Revised _ _ (tables t)
  rw [ht]
  exact .assignments _ (revises_end hx hagain (fun _ => rfl) (fun _ => rfl) (fun _ => rfl) (fun _ => rfl) fun _ => rfl)

theorem transferAgent_revised (hx : Ledger x.userAssignments) {agent : Uuid} {source destination : Campaign}
    {team : Option Uuid} {reason : Option String} {a : CampaignUserAssignment}
    (h : (Campaigns.transferAgent c agent source destination team actor reason).Runs x a x') :
    Revised (c.utcnow 1) (tables x) (tables x') := by
  unfold Campaigns.transferAgent at h
  simp only [runs_bind, runs_expect, runs_view, runs_raiseIf, Campaigns.runs_setUserAssignment,
    Campaigns.runs_insertUserAssignment, runs_recordAudit, runs_pure, and_assoc, exists_and_left,
    exists_eq_left, exists_const] at h
  obtain ⟨-, current, hcur, -, _, t, hcap, n, y, hr, hfree, -, rfl⟩ := h
  obtain rfl := Campaigns.runs_checkStaffingCapacity hcap
  have hy := Leaves.runs (π := tables) hr
  obtain ⟨hmem, hc⟩ := List.mem_filter.1 (mem_scan.1 (List.mem_of_head? hcur))
  simp only [Bool.and_eq_true, decide_eq_true_eq, Option.isNone_iff_eq_none] at hc
  obtain ⟨⟨⟨⟨rfl, -⟩, hprimary⟩, hactive⟩, hstop⟩ := hc
  have hfree : Table.find (tables y).userAssignments (c.uuid4 0) = none := hfree
  rw [hy] at hfree
  have hfree : Table.find t.userAssignments (c.uuid4 0) = none :=
    Table.find_eq_none_of_modify (f := Service.ended (c.utcnow 1)) (fun _ h => h) hfree
  change Revised _ _ { tables y with userAssignments := (tables y).userAssignments ++ [_] }
  rw [hy]
  have hopen : ended current = false := by simp [ended, hactive]
  refine Revised.assignments _ (hx.replace (f := Service.ended (c.utcnow 1)) hmem hopen
    ⟨rfl, rfl, rfl, Or.inr ⟨hstop, rfl, rfl⟩⟩ rfl ?_ hfree rfl rfl rfl)
  simp [slot, hprimary]

/-! ### Teams -/

theorem assignTeam_revised {k : Campaign} {team : Uuid} {capacity : Option ℤ}
    (h : (Campaigns.assignTeamToCampaign c k team capacity actor).Runs x u x') :
    Revised (c.utcnow 0) (tables x) (tables x') := by
  unfold Campaigns.assignTeamToCampaign at h
  simp only [runs_bind, runs_insertRow, runs_recordAudit] at h
  obtain ⟨_, _, ⟨hfree, rfl⟩, rfl⟩ := h
  exact .teams _ (.insert hfree rfl rfl rfl fun b hb i hi => by cases hi)

theorem endTeamAssignment_revised (hx : Ledger x.teamAssignments) {a : CampaignTeamAssignment}
    (hagain : moves x.teamAssignments a.id (c.utcnow 0) = false)
    (h : (Campaigns.endTeamAssignment c a actor).Runs x u x') : Revised (c.utcnow 0) (tables x) (tables x') := by
  unfold Campaigns.endTeamAssignment at h
  simp only [runs_bind, runs_acquire, runs_update, runs_recordAudit] at h
  obtain ⟨_, _, rfl, _, _, rfl, rfl⟩ := h
  exact .teams _ (revises_end hx hagain (fun _ => rfl) (fun _ => rfl) (fun _ => rfl) (fun _ => rfl) fun _ => rfl)

/-! ### Roles -/

theorem assignRole_revised (hx : Ledger x.roleAssignments) {r : Workforce.RoleRequest} {ra : RoleAssignment}
    (h : (Workforce.assignRole c r actor).Runs x ra x') : Revised (c.utcnow 0) (tables x) (tables x') := by
  unfold Workforce.assignRole at h
  rw [runs_bind] at h
  obtain ⟨_, t, ha, h⟩ := h
  obtain ⟨-, rfl⟩ := runs_raiseIf.1 ha
  obtain ⟨_, hv, hrest⟩ := runs_when.1 h
  obtain ⟨-, rfl⟩ := Workforce.runs_requireWhen.1 hv
  simp only [runs_bind, Workforce.runs_assertNotSelf, runs_view, Workforce.runs_endGrants,
    Workforce.runs_insertRoleAssignment, runs_recordAudit, runs_pure, and_assoc, exists_and_left, exists_eq_left,
    exists_const] at hrest
  obtain ⟨-, hfree, _, t₁, hrev, -, rfl⟩ := hrest
  change Revised _ _ (tables t₁)
  rw [Leaves.runs (π := tables) hrev]
  refine Revised.roles _ (.supersede (f := Workforce.endedRole (c.utcnow 0)) hx.unique (perm_scan c _)
    (fun _ => rfl) (fun b hb hp => ?_) (fun _ => rfl)
    (Table.find_eq_none_of_modifyAll (f := Workforce.endedRole (c.utcnow 0)) (fun _ => rfl) hfree) rfl rfl rfl
    fun b hb i hi hbi he => ?_)
  · simp only [Workforce.isGrant, Workforce.currentRole, Bool.and_eq_true, Option.isNone_iff_eq_none] at hp
    exact ⟨rfl, rfl, rfl, Or.inr ⟨hp.2.2, rfl, rfl⟩⟩
  · obtain ⟨huser, hrole, hscope, hid⟩ : b.userId = r.targetUserId ∧ b.roleCode = r.roleCode ∧
        b.scopeType = r.scopeType ∧ b.scopeId = r.scopeId := by simpa [slot] using hbi.trans hi.symm
    have hstop : b.effectiveTo = none := hx.stop_eq_none hb he
    have hactive : b.status = .active := not_ended.1 (of_decide_eq_false he)
    simp [Workforce.isGrant, Workforce.currentRole, huser, hrole, hscope, hid, hstop, hactive]

theorem endRoleAssignment_revised (hx : Ledger x.roleAssignments) {ra : RoleAssignment} {reason : String}
    (hagain : moves x.roleAssignments ra.id (c.utcnow 0) = false)
    (h : (Workforce.endRoleAssignment c ra actor reason).Runs x u x') :
    Revised (c.utcnow 0) (tables x) (tables x') := by
  unfold Workforce.endRoleAssignment at h
  simp only [runs_bind, Workforce.runs_assertNotSelf, Workforce.runs_setRoleAssignment, runs_recordAudit] at h
  obtain ⟨_, _, ⟨-, rfl⟩, _, _, rfl, _, t, ht, _, t', ht', rfl⟩ := h
  change Revised _ _ (tables t')
  rw [Leaves.runs (π := tables) ht', Leaves.runs (π := tables) ht]
  exact .roles _ (revises_end hx hagain (fun _ => rfl) (fun _ => rfl) (fun _ => rfl) (fun _ => rfl) fun _ => rfl)

/-! ### Memberships and reporting lines -/

theorem addTeamMembership_revised (hx : Ledger x.memberships) {team user : Uuid} {m : TeamMembership}
    (h : (Workforce.addTeamMembership c team user actor).Runs x m x') :
    Revised (c.utcnow 0) (tables x) (tables x') := by
  unfold Workforce.addTeamMembership at h
  simp only [runs_bind, runs_view] at h
  obtain ⟨_, _, ⟨rfl, rfl⟩, h⟩ := h
  split at h
  · obtain ⟨-, rfl⟩ := runs_pure.1 h
    exact .refl _ _
  rename_i hnone
  simp only [runs_bind, runs_insertRow, runs_recordAudit, runs_pure] at h
  obtain ⟨_, _, ⟨hfree, rfl⟩, _, _, rfl, -, rfl⟩ := h
  refine .members _ (.insert hfree rfl rfl rfl fun b hb i hi hbi => ?_)
  by_contra he
  have hopen : ended b = false := Bool.not_eq_true _ ▸ he
  have hstop : b.effectiveTo = none := hx.stop_eq_none hb hopen
  have hactive : b.membershipStatus = .active := not_ended.1 (of_decide_eq_false hopen)
  obtain ⟨huser, hteam⟩ : b.userId = user ∧ b.teamId = team := by simpa [slot] using hbi.trans hi.symm
  have hmem : b ∈ scan c (List.filter (Workforce.isMembership team user) _) :=
    mem_scan.2 (List.mem_filter.2 ⟨hb, by simp [Workforce.isMembership, huser, hteam, hstop, hactive]⟩)
  exact List.ne_nil_of_mem hmem (List.head?_eq_none_iff.1 hnone)

theorem endTeamMembership_revised (hx : Ledger x.memberships) {m : TeamMembership} {reason : Option String}
    (hagain : moves x.memberships m.id (c.utcnow 0) = false)
    (h : (Workforce.endTeamMembership c m actor reason).Runs x u x') :
    Revised (c.utcnow 0) (tables x) (tables x') := by
  unfold Workforce.endTeamMembership at h
  simp only [runs_bind, Workforce.runs_setMembership, runs_recordAudit] at h
  obtain ⟨_, _, rfl, rfl⟩ := h
  exact .members _ (revises_end hx hagain (fun _ => rfl) (fun _ => rfl) (fun _ => rfl) (fun _ => rfl) fun _ => rfl)

theorem slot_line {l : ReportingAssignment} {i : Uuid × String × Option Uuid} :
    slot l = some i ↔ l.assignmentType = "primary" ∧ (l.subordinateUserId, l.contextType, l.contextId) = i := by
  simp [slot]

theorem runs_endLines {now : Time} {lines : List ReportingAssignment} :
    (lines.forM fun l => Workforce.setReportingAssignment l.id (Workforce.endedLine now)).Runs x u x' ↔
      x' = { x with reportingAssignments :=
        Table.modifyAll x.reportingAssignments (lines.map ReportingAssignment.id) (Workforce.endedLine now) } := by
  induction lines generalizing x with
  | nil => exact runs_pure.trans ⟨fun h => h.2, fun h => ⟨rfl, h⟩⟩
  | cons l lines ih =>
    change (Workforce.setReportingAssignment l.id (Workforce.endedLine now) >>= fun _ => lines.forM _).Runs x u x' ↔ _
    simp only [runs_bind, Workforce.runs_setReportingAssignment, exists_eq_left, exists_const, ih]
    rfl

theorem setReportingLine_revised (hx : Ledger x.reportingAssignments) {r : Workforce.ReportingRequest}
    {l : ReportingAssignment} (h : (Workforce.setReportingLine c r actor).Runs x l x') :
    Revised (c.utcnow 0) (tables x) (tables x') := by
  unfold Workforce.setReportingLine at h
  rw [runs_bind] at h
  obtain ⟨_, t, hself, h⟩ := h
  obtain ⟨-, rfl⟩ := runs_raiseIf.1 hself
  split_ifs at h with hp
  · simp only [runs_bind, runs_view, runs_endLines, runs_insertRow, runs_recordAudit, runs_pure, and_assoc,
      exists_and_left, exists_eq_left, exists_const] at h
    obtain ⟨hfree, -, rfl⟩ := h
    refine Revised.lines _ (.supersede (f := Workforce.endedLine (c.utcnow 0)) hx.unique (perm_scan c _)
      (fun _ => rfl) (fun b hb hp => ?_) (fun _ => rfl)
      (Table.find_eq_none_of_modifyAll (f := Workforce.endedLine (c.utcnow 0)) (fun _ => rfl) hfree) rfl rfl rfl
      fun b hb i hi hbi he => ?_)
    · simp only [Workforce.isPrimaryLine, Bool.and_eq_true, Option.isNone_iff_eq_none] at hp
      exact ⟨rfl, rfl, rfl, Or.inr ⟨hp.2, rfl, rfl⟩⟩
    · obtain ⟨hprimary, hb'⟩ := slot_line.1 hbi
      obtain ⟨-, hi'⟩ := slot_line.1 hi
      obtain ⟨hsub, htype, hid⟩ : b.subordinateUserId = r.subordinateUserId ∧ b.contextType = r.contextType ∧
          b.contextId = r.contextId := by simpa using hb'.trans hi'.symm
      have hstop : b.effectiveTo = none := hx.stop_eq_none hb he
      have hactive : b.status = .active := not_ended.1 (of_decide_eq_false he)
      simp [Workforce.isPrimaryLine, hsub, htype, hid, hprimary, hstop, hactive]
  · simp only [runs_bind, runs_insertRow, runs_recordAudit, runs_pure, and_assoc, exists_and_left, exists_eq_left,
      exists_const] at h
    obtain ⟨hfree, -, rfl⟩ := h
    exact .lines _ (.insert hfree rfl rfl rfl fun b hb i hi => by simp [slot, hp] at hi)

theorem endReportingLine_revised (hx : Ledger x.reportingAssignments) {l : ReportingAssignment}
    {reason : Option String} (hagain : moves x.reportingAssignments l.id (c.utcnow 0) = false)
    (h : (Workforce.endReportingLine c l actor reason).Runs x u x') :
    Revised (c.utcnow 0) (tables x) (tables x') := by
  unfold Workforce.endReportingLine at h
  simp only [runs_bind, Workforce.runs_setReportingAssignment, runs_recordAudit] at h
  obtain ⟨_, _, rfl, rfl⟩ := h
  exact .lines _ (revises_end hx hagain (fun _ => rfl) (fun _ => rfl) (fun _ => rfl) (fun _ => rfl) fun _ => rfl)

/-- What an operation that ends no row again does to the tables. -/
theorem body_revised {op : Op} (hx : Histories (tables x)) (hagain : op.endsAgain x = false)
    (h : (body op).Runs x u x') : ∃ n, Revised (op.call.utcnow n) (tables x) (tables x') := by
  cases op with
  | assignAgent c campaign r actor =>
    simp only [body, runs_bind, runs_load, runs_pure] at h
    obtain ⟨k, _, ⟨-, rfl⟩, a, _, h, -, rfl⟩ := h
    exact ⟨1, assignAgent_revised hx.userAssignments h⟩
  | endUserAssignment c id actor reason =>
    simp only [body, runs_bind, runs_load] at h
    obtain ⟨a, _, ⟨ha, rfl⟩, h⟩ := h
    obtain rfl : a.id = id := Table.key_of_find ha
    exact ⟨0, endUserAssignment_revised hx.userAssignments (Bool.or_eq_false_iff.1 hagain).1 h⟩
  | transferAgent c agent source destination team actor reason =>
    simp only [body, runs_bind, runs_load, runs_pure] at h
    obtain ⟨src, _, ⟨-, rfl⟩, dst, _, ⟨-, rfl⟩, a, _, h, -, rfl⟩ := h
    exact ⟨1, transferAgent_revised hx.userAssignments h⟩
  | assignTeam c campaign team capacity actor =>
    simp only [body, runs_bind, runs_load] at h
    obtain ⟨k, _, ⟨-, rfl⟩, h⟩ := h
    exact ⟨0, assignTeam_revised h⟩
  | endTeamAssignment c id actor =>
    simp only [body, runs_bind, runs_load] at h
    obtain ⟨a, _, ⟨ha, rfl⟩, h⟩ := h
    obtain rfl : a.id = id := Table.key_of_find ha
    exact ⟨0, endTeamAssignment_revised hx.teamAssignments hagain h⟩
  | assignRole c r actor =>
    simp only [body, runs_bind, runs_pure] at h
    obtain ⟨ra, _, h, -, rfl⟩ := h
    exact ⟨0, assignRole_revised hx.roleAssignments h⟩
  | endRoleAssignment c id actor reason =>
    simp only [body, runs_bind, runs_load] at h
    obtain ⟨ra, _, ⟨hra, rfl⟩, h⟩ := h
    obtain rfl : ra.id = id := Table.key_of_find hra
    exact ⟨0, endRoleAssignment_revised hx.roleAssignments hagain h⟩
  | addTeamMembership c team user actor =>
    simp only [body, runs_bind, runs_pure] at h
    obtain ⟨m, _, h, -, rfl⟩ := h
    exact ⟨0, addTeamMembership_revised hx.memberships h⟩
  | endTeamMembership c id actor reason =>
    simp only [body, runs_bind, runs_load] at h
    obtain ⟨m, _, ⟨hm, rfl⟩, h⟩ := h
    obtain rfl : m.id = id := Table.key_of_find hm
    exact ⟨0, endTeamMembership_revised hx.memberships hagain h⟩
  | setReportingLine c r actor =>
    simp only [body, runs_bind, runs_pure] at h
    obtain ⟨l, _, h, -, rfl⟩ := h
    exact ⟨0, setReportingLine_revised hx.reportingAssignments h⟩
  | endReportingLine c id actor reason =>
    simp only [body, runs_bind, runs_load] at h
    obtain ⟨l, _, ⟨hl, rfl⟩, h⟩ := h
    obtain rfl : l.id = id := Table.key_of_find hl
    exact ⟨0, endReportingLine_revised hx.reportingAssignments hagain h⟩

/-- Without work of the agent in the campaign the release finds nothing. -/
theorem release_nothing {agent campaign : Uuid} {n : ℕ}
    (hnone : x.workItems.any (fun w => x.campaignOf w = some campaign && Work.heldBy agent w) = false)
    (h : (Work.releaseCampaignWorkForAgent c agent campaign).Runs x n x') : x' = x := by
  unfold Work.releaseCampaignWorkForAgent at h
  rw [runs_bind] at h
  obtain ⟨rows, t, hrows, h⟩ := h
  obtain ⟨hrows, rfl⟩ := runs_lockRows hrows
  have hempty : t.workItems.filter (fun w => t.campaignOf w = some campaign && Work.heldBy agent w) = [] := by
    rw [List.filter_eq_nil_iff]
    intro w hw
    simpa using List.any_eq_false.1 hnone w hw
  rw [hempty] at hrows
  subst hrows
  exact (runs_pure.1 h).2

theorem endUserAssignment_work {id : Uuid} {reason : Option String} {a : CampaignUserAssignment}
    (ha : Table.find x.userAssignments id = some a) (he : a.status = .ended) (hnone : releasesWork x id = false)
    (h : (body (.endUserAssignment c id actor reason)).Runs x u x') : x'.workItems = x.workItems := by
  simp only [body, runs_bind, runs_load] at h
  obtain ⟨a', t, ⟨ha', ht⟩, h⟩ := h
  subst t
  obtain rfl : a = a' := Option.some.inj (ha.symm.trans ha')
  have hnone' : x.workItems.any (fun w => x.campaignOf w = some a.campaignId && Work.heldBy a.userId w) = false := by
    simpa [releasesWork, ha, ended, he] using hnone
  unfold Campaigns.endUserAssignment at h
  simp only [runs_bind, Campaigns.runs_setUserAssignment, runs_recordAudit] at h
  obtain ⟨_, _, rfl, n, t, hr, rfl⟩ := h
  have hx := release_nothing (by exact hnone') hr
  rw [hx]
  rfl

end Runs

/-! ## Runs -/

variable {v x x' : Db}

theorem step_kept (hx : Histories (tables x)) {op : Op} (hok : Allowed x op) (h : ((body op).transact x).2 = x') :
    Histories (tables x') ∧ Kept (tables x) (tables x') := by
  rcases transact_cases h with rfl | ⟨u, hr⟩
  · exact ⟨hx, .refl _⟩
  · obtain ⟨n, hrev⟩ := body_revised hx hok.2 hr
    exact hrev.histories hx (hok.1 n)

theorem kept_of_serial (hv : Histories (tables v)) (h : Serial body Allowed v x) :
    Histories (tables x) ∧ Kept (tables v) (tables x) := by
  induction h with
  | refl => exact ⟨hv, .refl _⟩
  | tail _ hs ih =>
    obtain ⟨op, hok, hx⟩ := hs
    obtain ⟨hx', hk⟩ := step_kept ih.1 hok hx
    exact ⟨hx', ih.2.trans hk⟩

/-- In a run whose clock does not go back and whose operations end no row again, the tables
are histories, an end that is recorded stays, and ending an assignment that has ended
changes no work item. -/
theorem history_append_only (hv : Histories (tables v)) (h : Serial body Allowed v x) :
    Histories (tables x) ∧
      (∀ y, Serial body Allowed v y → Serial body Allowed y x → Kept (tables y) (tables x)) ∧
      ∀ c id actor reason a, Table.find x.userAssignments id = some a → a.status = .ended →
        Allowed x (.endUserAssignment c id actor reason) →
        ((body (.endUserAssignment c id actor reason)).transact x).2.workItems = x.workItems := by
  refine ⟨(kept_of_serial hv h).1, fun y hy hyx => (kept_of_serial (kept_of_serial hv hy).1 hyx).2, ?_⟩
  intro c id actor reason a ha he hok
  rcases transact_cases (p := body (.endUserAssignment c id actor reason)) (s := x) rfl with hx | ⟨u, hr⟩
  · rw [hx]
  · exact endUserAssignment_work ha he (Bool.or_eq_false_iff.1 hok.2).2 hr

/-! ## A second end -/

namespace Demo

/-- Agent 5 left campaign 1 at `stop`. -/
def left (stop : Time) : CampaignUserAssignment where
  id := 45
  campaignId := 1
  userId := 5
  campaignRole := "agent"
  effectiveFrom := 0
  effectiveTo := some stop
  status := .ended

/-- Agent 5 is back from minute 2 on. -/
def back : CampaignUserAssignment where
  id := 46
  campaignId := 1
  userId := 5
  campaignRole := "agent"
  effectiveFrom := minutes 2

/-- Agent 5 left campaign 1 in minute 1, came back in minute 2 and has leased its contact. -/
def db : Db := { Queue.Demo.db with
  workItems := [{
    id := 30, campaignContactId := 20, state := .leased, leaseOwnerId := some 5, leaseId := some 31
    leaseExpiresAt := some (minutes 20) }]
  userAssignments := [left (minutes 1), back] }

/-- Manager 7 ends an assignment in minute `n`. -/
def finish (n : ℕ) (id : Uuid) : Op := .endUserAssignment (Queue.Demo.call n) id 7 none

/-- The assignment is ended twice in minute 3, and agent 5 is assigned again in minute 4. -/
def reassigned : Db :=
  serially body db [finish 3 46, finish 3 46, .assignAgent (Queue.Demo.call 4) 1 { agentId := 5 } 7]

theorem histories_db : Histories (tables db) where
  userAssignments := {
    unique := by decide
    stopped := by decide
    apart := by
      refine List.pairwise_pair.2 fun i _ _ x hboth => ?_
      obtain ⟨hx, hx'⟩ := hboth
      have hend : x < minutes 1 := hx.2 _ rfl
      have hstart : minutes 2 ≤ x := hx'.1
      exact absurd (hstart.trans_lt hend) (by decide) }
  teamAssignments := ⟨by decide, by decide, .nil⟩
  roleAssignments := ⟨by decide, by decide, .nil⟩
  memberships := ⟨by decide, by decide, .nil⟩
  reportingAssignments := ⟨by decide, by decide, .nil⟩

theorem timely {x : Db} {now : Time} (h : Past x.userAssignments now)
    (hx : (x.teamAssignments, x.roleAssignments, x.memberships, x.reportingAssignments) = ([], [], [], [])) :
    Timely (tables x) now := by
  simp only [Prod.mk.injEq] at hx
  obtain ⟨ht, hr, hm, hl⟩ := hx
  refine ⟨h, ?_, ?_, ?_, ?_⟩ <;> intro r hr'
  · simp [tables, ht] at hr'
  · simp [tables, hr] at hr'
  · simp [tables, hm] at hr'
  · simp [tables, hl] at hr'

end Demo

theorem history_append_only_reassigned :
    Demo.reassigned.userAssignments.map (fun a => (a.effectiveFrom, a.effectiveTo)) =
      [(0, some (minutes 1)), (minutes 2, some (minutes 3)), (minutes 4, none)] ∧
    Histories (tables Demo.reassigned) ∧ Kept (tables Demo.db) (tables Demo.reassigned) := by
  have hrun : Serial body Allowed Demo.db Demo.reassigned :=
    .head ⟨_, ⟨fun _ => (Demo.timely (by decide) rfl : Timely _ (minutes 3)), by decide⟩, rfl⟩
      (.head ⟨_, ⟨fun _ => (Demo.timely (by decide) rfl : Timely _ (minutes 3)), by decide⟩, rfl⟩
        (.single ⟨_, ⟨fun _ => (Demo.timely (by decide) rfl : Timely _ (minutes 4)), by decide⟩, rfl⟩))
  obtain ⟨hhist, hkept, -⟩ := history_append_only Demo.histories_db hrun
  exact ⟨by decide, hhist, hkept _ .refl hrun⟩

/-- A second end of the assignment of minute 1 moves that end into the next assignment, and
takes the contact from the agent. -/
theorem history_rewritten :
    Histories (tables Demo.db) ∧ (∀ n, Timely (tables Demo.db) ((Demo.finish 3 45).call.utcnow n)) ∧
      ∃ x, ((body (Demo.finish 3 45)).transact Demo.db).2 = x ∧ ¬Kept (tables Demo.db) (tables x) ∧
        ¬Ledger x.userAssignments ∧ Demo.db.workItems.map WorkItem.state = [.leased] ∧
        x.workItems.map WorkItem.state = [.queued] := by
  refine ⟨Demo.histories_db, fun _ => (Demo.timely (by decide) rfl : Timely _ (minutes 3)), _, rfl, fun h => ?_, fun h => ?_,
    by decide, by decide⟩
  · obtain ⟨a, ha, hid, -, hstop⟩ := h.userAssignments _ List.mem_cons_self rfl
    revert a
    decide
  · have hapart : Apart (Demo.left (minutes 3)) Demo.back := List.pairwise_pair.1 h.apart
    refine hapart 5 rfl rfl (minutes 2) ⟨⟨by decide, fun e he => ?_⟩, by decide, fun e he => ?_⟩
    · cases he
      decide
    · cases he

end OmniDB.EffectiveDates
