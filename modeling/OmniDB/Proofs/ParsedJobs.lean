import OmniDB.Proofs.WorkforceFrame

/-! What decisions, commits and reversals leave of a parsed import: its type, its uploader, its
footprint, and what the parser made of its rows. -/

namespace OmniDB.WorkforceImports

open Tx
open Tx.Prog

/-- The columns that the parser writes and nothing changes later. -/
def asParsed (row : WorkforceImportRow) : WorkforceImportRow :=
  { row with
    conflictType := none, committedEntityType := none, committedEntityId := none
    preCommitSnapshot := none, reversedAt := none }

@[simp] theorem rowRequirement_asParsed (t : ImportType) (row : WorkforceImportRow) :
    rowRequirement t (asParsed row) = rowRequirement t row := rfl

/-- The columns of a job that its footprint depends on. -/
def jobCore (job : WorkforceImportJob) : Uuid × ImportType × Uuid × Option Footprint :=
  (job.id, job.importType, job.uploaderId, job.authorizationFootprint)

/-- What access to the jobs depends on, apart from their states. -/
def Db.uploaded (db : Db) : List (Uuid × ImportType × Uuid × Option Footprint) × List WorkforceImportRow :=
  (db.workforceJobs.map jobCore, db.workforceRows.map asParsed)

/-- The effect changes only columns of a commit. -/
def Marks : Option RowEffect → Prop
  | none => True
  | some effect => ∀ row, asParsed (effect.change row) = asParsed row

theorem marks_createRowUser (c : Call) (row : WorkforceImportRow) (values : ParsedValues) (actor : Uuid) :
    Writes (fun _ => True) (createRowUser c row values actor) fun effect => Marks (some effect) := by
  unfold createRowUser
  dsimp only
  repeat' first | exact fun _ => rfl | split | refine .last fun _ => ?_

theorem marks_commitRow (t : ImportType) (c : Call) (row : WorkforceImportRow) (actor : Uuid) :
    Writes (fun _ => True) (commitRow t c row actor) Marks := by
  cases t with
  | users =>
    unfold commitRow commitUsersRow
    dsimp only
    split
    · rw [writes_bind]
      exact (marks_createRowUser c row _ actor).weaken fun _ h => h
    · repeat' first | exact trivial | exact fun _ => rfl | split | refine .last fun _ => ?_
  | explicitDeactivations =>
    change Writes _ (commitDeactivationRow c row actor) _
    unfold commitDeactivationRow
    repeat' first | exact trivial | exact fun _ => rfl | split | refine .last fun _ => ?_
  | teamMemberships =>
    unfold commitRow commitTeamMembershipRow
    dsimp only
    repeat' first | exact trivial | exact fun _ => rfl | split | refine .last fun _ => ?_
  | roleAssignments =>
    unfold commitRow commitRoleAssignmentRow
    dsimp only
    repeat' first | exact trivial | exact fun _ => rfl | split | refine .last fun _ => ?_
  | reportingAssignments =>
    unfold commitRow commitReportingAssignmentRow
    dsimp only
    repeat' first | exact trivial | exact fun _ => rfl | split | refine .last fun _ => ?_
  | campaignUserAssignments =>
    unfold commitRow commitCampaignAssignmentRow
    dsimp only
    repeat' first | exact trivial | exact fun _ => rfl | split | refine .last fun _ => ?_

/-! ### Requests keep what was parsed -/

instance (priority := low) leaves_uploaded {α : Type} {p : Txn α} [h : Leaves Db.imports p] :
    Leaves Db.uploaded p :=
  h.part fun x => (x.jobs.map jobCore, x.rows.map asParsed)

theorem map_modify {ρ β : Type} [Keyed ρ Uuid] {t : List ρ} {id : Uuid} {f : ρ → ρ} {g : ρ → β}
    (h : ∀ r, g (f r) = g r) : (Table.modify t id f).map g = t.map g := by
  unfold Table.modify
  rw [List.map_map]
  refine List.map_congr_left fun r _ => ?_
  simp only [Function.comp]
  split_ifs
  · exact h r
  · rfl

theorem leaves_setWorkforceJob {id : Uuid} {f : WorkforceImportJob → WorkforceImportJob}
    (h : ∀ job, jobCore (f job) = jobCore job) : Leaves Db.uploaded (setWorkforceJob id f) :=
  .then inferInstance fun _ => .update fun _ => Prod.ext (map_modify h) rfl

theorem leaves_setWorkforceRow {id : Uuid} {f : WorkforceImportRow → WorkforceImportRow}
    (h : ∀ row, asParsed (f row) = asParsed row) : Leaves Db.uploaded (setWorkforceRow id f) :=
  .update fun _ => Prod.ext rfl (map_modify h)

section Requests

variable (c : Call) (job : WorkforceImportJob)

instance (t : ImportType) (row : WorkforceImportRow) (actor : Uuid) : Leaves Db.imports (commitRow t c row actor) := by
  cases t with
  | roleAssignments =>
    unfold commitRow commitRoleAssignmentRow
    dsimp only
    repeat' first | infer_instance | split | refine .then inferInstance fun _ => ?_
  | _ => unfold commitRow; infer_instance

instance (entity : EntityType) (row : WorkforceImportRow) (id actor : Uuid) :
    Leaves Db.imports (reverseRow entity c row id actor) := by
  cases entity with
  | roleAssignment => unfold reverseRow reverseRoleAssignmentRow; infer_instance
  | _ => unfold reverseRow; infer_instance

instance (standard : Uuid) (highRisk : Option Uuid) (acc : Committed) (row : WorkforceImportRow) :
    Leaves Db.uploaded (commitStep c job standard highRisk acc row) := by
  unfold commitStep
  refine .seq (marks_commitRow ..) fun effect hmarks => ?_
  cases effect with
  | none => infer_instance
  | some effect =>
    have : Leaves Db.uploaded (setWorkforceRow row.id effect.change) := leaves_setWorkforceRow hmarks
    infer_instance

instance (r : CommitRequest) (loaded : Option WorkforceImportJob) : Leaves Db.uploaded (commitJob c r loaded) := by
  have (id : Uuid) (now : Time) (outcomes : List (ℕ × Outcome)) : Leaves Db.uploaded
      (setWorkforceJob id (committed now r.idempotencyKey outcomes)) := leaves_setWorkforceJob fun _ => rfl
  have (job : WorkforceImportJob) : Leaves Db.uploaded (commitParsed c r job) := by
    unfold commitParsed; infer_instance
  unfold commitJob; infer_instance

instance (actor : Uuid) (now : Time) (acc : Reversed) (row : WorkforceImportRow) :
    Leaves Db.uploaded (reverseStep c job actor now acc row) := by
  have hskip (id : Uuid) : Leaves Db.uploaded (setWorkforceRow id fun r => { r with
      conflictType := some "reversal_conflict" }) := leaves_setWorkforceRow fun _ => rfl
  have hdone (id : Uuid) : Leaves Db.uploaded (setWorkforceRow id fun r => { r with reversedAt := some now }) :=
    leaves_setWorkforceRow fun _ => rfl
  unfold reverseStep
  repeat' first | infer_instance | split | refine .then inferInstance fun _ => ?_

instance (id actor : Uuid) (loaded : Option WorkforceImportJob) : Leaves Db.uploaded (reverseJob c id actor loaded) := by
  have (id : Uuid) (now : Time) : Leaves Db.uploaded (setWorkforceJob id fun j => { j with
      reversedAt := some now }) := leaves_setWorkforceJob fun _ => rfl
  unfold reverseJob
  dsimp only
  repeat' first | infer_instance | split | refine .then inferInstance fun _ => ?_

instance (r : DecisionRequest) : Leaves Db.uploaded (recordDecision c r) := by
  have (id : Uuid) (version : ℤ) : Leaves Db.uploaded (setWorkforceJob id fun j => { j with
      decisionVersion := version }) := leaves_setWorkforceJob fun _ => rfl
  have (d : WorkforceImportDecision) : Leaves Db.uploaded
      (insertRow "workforce_import_decisions" .workforceDecision Db.workforceDecisions
        (fun d db => { db with workforceDecisions := db.workforceDecisions ++ [d] }) d) :=
    leaves_insertRow fun _ => rfl
  unfold recordDecision
  dsimp only
  repeat' first | infer_instance | split | refine .then inferInstance fun _ => ?_

end Requests

/-- `job` is what the parse left of a job: the same file, the same footprint, and rows in which
only the columns of a commit or a reversal may differ. -/
structure Kept (parsed : Db) (id : Uuid) (db : Db) (job : WorkforceImportJob) : Prop where
  found : Table.find db.workforceJobs id = some job
  same : ∃ job₀, Table.find parsed.workforceJobs id = some job₀ ∧ job.importType = job₀.importType ∧
    job.uploaderId = job₀.uploaderId ∧ job.authorizationFootprint = job₀.authorizationFootprint
  rows : (jobRows db id).map asParsed = (jobRows parsed id).map asParsed

theorem find_of_core {jobs jobs' : List WorkforceImportJob} {id : Uuid} {job : WorkforceImportJob}
    (h : jobs'.map jobCore = jobs.map jobCore) (hfind : Table.find jobs id = some job) :
    ∃ job', Table.find jobs' id = some job' ∧ jobCore job' = jobCore job := by
  have hmap (jobs : List WorkforceImportJob) :
      (jobs.map jobCore).find? (fun x => x.1 = id) = (Table.find jobs id).map jobCore := List.find?_map ..
  have := hmap jobs'
  rw [h, hmap, hfind, Option.map_some] at this
  obtain ⟨job', hjob', he⟩ := Option.map_eq_some_iff.1 this.symm
  exact ⟨job', hjob', he⟩

/-- A decision, a commit or a reversal, of this job or of another, leaves a parsed job what it was. -/
theorem Kept.of_leaves {α : Type} {p : Txn α} [hp : Leaves Db.uploaded p] {parsed db db' : Db} {id : Uuid}
    {job : WorkforceImportJob} {a : α} (h : Kept parsed id db job) (hr : p.Runs db a db') :
    ∃ job', Kept parsed id db' job' := by
  obtain ⟨hjobs, hrows⟩ := Prod.ext_iff.1 (Leaves.runs (π := Db.uploaded) hr)
  obtain ⟨job', hfind, hcore⟩ := find_of_core hjobs h.found
  obtain ⟨job₀, hjob₀, htype, huploader, hfootprint⟩ := h.same
  simp only [jobCore, Prod.mk.injEq] at hcore
  refine ⟨job', hfind, ⟨job₀, hjob₀, hcore.2.1.trans htype, hcore.2.2.1.trans huploader,
    hcore.2.2.2.trans hfootprint⟩, ?_⟩
  have hmap (db : Db) : (jobRows db id).map asParsed =
      (db.workforceRows.map asParsed).filter fun r => r.importJobId = id := by
    rw [List.filter_map]
    rfl
  change db'.workforceRows.map asParsed = db.workforceRows.map asParsed at hrows
  rw [hmap, hrows, ← hmap, h.rows]

end OmniDB.WorkforceImports
