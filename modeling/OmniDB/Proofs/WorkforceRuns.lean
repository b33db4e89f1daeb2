import OmniDB.Proofs.WorkforceFrame
import OmniDB.Proofs.Service

/-! What each operation on people does alone, in the one table it is about. -/

namespace OmniDB.Workforce

open Tx
open Tx.Prog

variable {s s' : Db} {u : Unit} {c : Call} {actor : Uuid}

@[simp] theorem runs_assertNotSelf {a b : Uuid} : (assertNotSelf a b).Runs s u s' ↔ a ≠ b ∧ s' = s := by
  simp [assertNotSelf]

@[simp] theorem runs_setUser {id : Uuid} {f : User → User} : (setUser id f).Runs s u s' ↔
    s' = { s with users := Table.modify s.users id f } := by
  simp [setUser, runs_bind]

@[simp] theorem runs_setMembership {id : Uuid} {f : TeamMembership → TeamMembership} :
    (setMembership id f).Runs s u s' ↔ s' = { s with memberships := Table.modify s.memberships id f } := by
  simp [setMembership, runs_bind]

@[simp] theorem runs_setRoleAssignment {id : Uuid} {f : RoleAssignment → RoleAssignment} :
    (setRoleAssignment id f).Runs s u s' ↔
      s' = { s with roleAssignments := Table.modify s.roleAssignments id f } := by
  simp [setRoleAssignment, runs_bind]

@[simp] theorem runs_setReportingAssignment {id : Uuid} {f : ReportingAssignment → ReportingAssignment} :
    (setReportingAssignment id f).Runs s u s' ↔
      s' = { s with reportingAssignments := Table.modify s.reportingAssignments id f } := by
  simp [setReportingAssignment, runs_bind]

@[simp] theorem runs_insertRoleAssignment {ra : RoleAssignment} : (insertRoleAssignment ra).Runs s u s' ↔
    Table.find s.roleAssignments ra.id = none ∧ s' = { s with roleAssignments := s.roleAssignments ++ [ra] } :=
  runs_insertRow

/-! ## Roles -/

theorem runs_endGrants {now : Time} {ras : List RoleAssignment} :
    (ras.forM fun ra => setRoleAssignment ra.id (endedRole now)).Runs s u s' ↔
      s' = { s with
        roleAssignments := Table.modifyAll s.roleAssignments (ras.map RoleAssignment.id) (endedRole now) } := by
  induction ras generalizing s with
  | nil => exact runs_pure.trans ⟨fun h => h.2, fun h => ⟨rfl, h⟩⟩
  | cons ra ras ih =>
    change (setRoleAssignment ra.id (endedRole now) >>= fun _ => ras.forM _).Runs s u s' ↔ _
    simp only [runs_bind, runs_setRoleAssignment, exists_eq_left, exists_const, ih]
    rfl

theorem runs_requireWhen {p : Prop} [Decidable p] {key : String} :
    (if p then requireEnabled key else pure ()).Runs s u s' ↔ (p → s.flag key = true) ∧ s' = s := by
  by_cases h : p
  · simp [h]
  · simp [h]

/-! ### Ending -/

theorem endRoleAssignment_runs {ra : RoleAssignment} {reason : String}
    (h : (endRoleAssignment c ra actor reason).Runs s u s') : actor ≠ ra.userId ∧
      s'.roleAssignments = Table.modify s.roleAssignments ra.id (endedRole (c.utcnow 0)) := by
  unfold endRoleAssignment at h
  simp only [runs_bind, runs_assertNotSelf, runs_setRoleAssignment, and_assoc, exists_and_left, exists_eq_left,
    exists_const] at h
  obtain ⟨hself, _, t₁, h₁, _, t₂, h₂, h₃⟩ := h
  refine ⟨hself, ?_⟩
  rw [Leaves.runs (π := Db.roleAssignments) h₃, Leaves.runs (π := Db.roleAssignments) h₂,
    Leaves.runs (π := Db.roleAssignments) h₁]

end OmniDB.Workforce
