import OmniDB.Spec.Uploads
import OmniDB.Proofs.Approvers
import OmniDB.Proofs.Service

/-! How the parse of a stored file ends. A job is parsed or failed afterwards exactly when reading
the file raises nothing but a `ValueError`, and nothing that is looked up, stored or reported has a
text that PostgreSQL refuses; the title of a request for a review is such a text. -/

namespace OmniDB

open Tx
open Tx.Prog

namespace Imports

/-! ## Reading -/

/-- The rows of a file that are classified, and the error at which the parse of the file ends. -/
def reading (s : Settings) (check : List String → Option ReadError) (raw : RawFile) :
    List ParsedRow × Option ReadError :=
  match readHeader s raw with
  | .error e => ([], some e)
  | .ok header =>
    match check header with
    | some e => ([], some e)
    | none =>
      let (rows, stop) := parseFile s raw
      (rows, stop.or (if rows = [] then some noDataRows else none))

theorem readRows_numbers (s : Settings) (header : List String) (stop : Option ReadError) (n : ℕ)
    (cells : List (List String)) : (readRows s header stop n cells).1.map ParsedRow.rowNumber =
      List.range' n (readRows s header stop n cells).1.length := by
  induction cells generalizing n with
  | nil => rfl
  | cons row rest ih =>
    unfold readRows
    split_ifs
    · rfl
    · rfl
    · dsimp only
      rw [List.map_cons, ih, List.length_cons, List.range'_succ]

theorem parseFile_numbers (s : Settings) (raw : RawFile) : (parseFile s raw).1.map ParsedRow.rowNumber =
    List.range' 1 (parseFile s raw).1.length := by
  unfold parseFile
  split
  · rfl
  · split
    · rfl
    · exact readRows_numbers ..

/-- The rows of a file are numbered from 1 on. -/
theorem reading_numbers (s : Settings) (check : List String → Option ReadError) (raw : RawFile) :
    (reading s check raw).1.map ParsedRow.rowNumber = List.range' 1 (reading s check raw).1.length := by
  unfold reading
  split
  · rfl
  · split
    · rfl
    · exact parseFile_numbers ..

/-- The error becomes the error text of a failed job. -/
def ReadError.Caught (e : ReadError) : Prop := ∃ text, e = .value text ∧ hasNul (truncate text 1000) = false

/-- What is stored of the classified rows when the reading of the file ends with `stop`. -/
def stored {ρ : Type} (flushed : List ρ → List ρ) (stop : Option ReadError) (rows : List ρ) : List ρ :=
  if stop.isSome then flushed rows else rows

/-! ## The campaign importer -/

section Campaign

variable {c : Call} {protect : Protect} {raw : RawFile} {cols : Columns} {x x' : Db} {job : ImportJob}
variable {campaign : Campaign}

@[simp] theorem runs_refuseNul {texts : List String} {s s' : Db} {u : Unit} :
    (refuseNul texts).Runs s u s' ↔ (∀ text ∈ texts, hasNul text = false) ∧ s' = s := by
  simp [refuseNul]

@[simp] theorem runs_storeRows {rows : List ImportRow} {s s' : Db} {u : Unit} :
    (storeRows rows).Runs s u s' ↔ (∀ row ∈ rows, ∀ text ∈ rowTexts row, hasNul text = false) ∧
      s' = { s with importRows := s.importRows ++ rows } := by
  unfold storeRows addRows
  simp only [runs_bind, runs_refuseNul, runs_update, and_assoc, exists_and_left, exists_eq_left, exists_const]
  simp only [List.mem_flatMap, forall_exists_index, and_imp]
  exact and_congr_left' ⟨fun h row hrow text ht => h text row hrow ht, fun h text row hrow ht => h row hrow text ht⟩

def checkPhone (cols : Columns) (header : List String) : Option ReadError :=
  if cols.phone ∉ header then some (.value ("phone column '" ++ cols.phone ++ "' not found in file header"))
  else none

/-- The parsed row joins the tally, as `classify_row` sees `db`. -/
def classifyIn (c : Call) (protect : Protect) (job : Uuid) (campaign : Campaign) (cols : Columns) (db : Db) (t : Tally)
    (row : ParsedRow) : Tally :=
  let r := classifyRow protect db job campaign cols t.seen (c.uuid4 t.total) row
  t.add r.1 r.2

def tallyOf (c : Call) (protect : Protect) (job : Uuid) (campaign : Campaign) (cols : Columns) (db : Db)
    (rows : List ParsedRow) : Tally := rows.foldl (classifyIn c protect job campaign cols db) {}

/-- The rows that the parse of the file stores. -/
def storedRows (c : Call) (protect : Protect) (job : Uuid) (campaign : Campaign) (cols : Columns) (db : Db)
    (raw : RawFile) : List ImportRow :=
  let r := reading c.settings (checkPhone cols) raw
  stored flushed r.2 (tallyOf c protect job campaign cols db r.1).rows

theorem classifyIn_rows {db : Db} {jobId : Uuid} {t : Tally} {row : ParsedRow} :
    (classifyIn c protect jobId campaign cols db t row).rows =
      t.rows ++ [(classifyRow protect db jobId campaign cols t.seen (c.uuid4 t.total) row).1] := by
  unfold classifyIn
  exact Service.add_rows ..

theorem classifyRow_number {db : Db} {id jobId : Uuid} {seen : List Fingerprint} {row : ParsedRow} :
    (classifyRow protect db jobId campaign cols seen id row).1.rowNumber = row.rowNumber := by
  unfold classifyRow
  dsimp only
  split
  · rfl
  · split <;> rfl

def rejected (r : ImportRow) : Bool := r.validationResult = .invalid

def repeated (r : ImportRow) : Bool := r.validationResult ≠ .invalid && r.duplicateCategory.isSome

def fresh (r : ImportRow) : Bool := r.validationResult ≠ .invalid && r.duplicateCategory.isNone

/-- Each row is counted in one class. -/
structure Counts (t : Tally) : Prop where
  total : t.total = t.rows.length
  valid : t.valid = t.rows.countP fresh
  duplicates : t.duplicates = t.rows.countP repeated
  invalid : t.invalid = t.rows.countP rejected
  sum : t.valid + t.duplicates + t.invalid = t.total

theorem Counts.add {t : Tally} (h : Counts t) (row : ImportRow) (seen : List Fingerprint) : Counts (t.add row seen) := by
  obtain ⟨htotal, hvalid, hdup, hinvalid, hsum⟩ := h
  unfold Tally.add
  by_cases hr : row.validationResult = .invalid
  · have hclass : fresh row = false ∧ repeated row = false ∧ rejected row = true := by
      simp [fresh, repeated, rejected, hr]
    dsimp only
    rw [if_pos hr]
    constructor <;> simp [hclass, htotal, hvalid, hdup, hinvalid]
    omega
  · dsimp only
    rw [if_neg hr]
    cases hd : row.duplicateCategory.isSome with
    | true =>
      have hclass : fresh row = false ∧ repeated row = true ∧ rejected row = false := by
        simp [fresh, repeated, rejected, hr, hd, ← Option.not_isSome]
      rw [if_pos rfl]
      constructor <;> simp [hclass, htotal, hvalid, hdup, hinvalid]
      omega
    | false =>
      have hclass : fresh row = true ∧ repeated row = false ∧ rejected row = false := by
        simp [fresh, repeated, rejected, hr, hd, ← Option.not_isSome]
      rw [if_neg (by simp)]
      constructor <;> simp [hclass, htotal, hvalid, hdup, hinvalid]
      omega

theorem tallyOf_counts (db : Db) (jobId : Uuid) (rows : List ParsedRow) :
    Counts (tallyOf c protect jobId campaign cols db rows) := by
  unfold tallyOf
  refine List.foldlRecOn rows _ ⟨rfl, rfl, rfl, rfl, rfl⟩ fun t ht row _ => ?_
  unfold classifyIn
  exact ht.add ..

theorem tallyOf_rows (db : Db) (jobId : Uuid) (rows : List ParsedRow) :
    (tallyOf c protect jobId campaign cols db rows).rows.map ImportRow.rowNumber = rows.map ParsedRow.rowNumber ∧
      ∀ r ∈ (tallyOf c protect jobId campaign cols db rows).rows, r.importJobId = jobId := by
  have hfold : ∀ (rows : List ParsedRow) (t : Tally), (∀ r ∈ t.rows, r.importJobId = jobId) →
      (rows.foldl (classifyIn c protect jobId campaign cols db) t).rows.map ImportRow.rowNumber =
        t.rows.map ImportRow.rowNumber ++ rows.map ParsedRow.rowNumber ∧
      ∀ r ∈ (rows.foldl (classifyIn c protect jobId campaign cols db) t).rows, r.importJobId = jobId := by
    intro rows
    induction rows with
    | nil => exact fun t ht => ⟨by simp, ht⟩
    | cons row rows ih =>
      intro t ht
      rw [List.foldl_cons]
      obtain ⟨hnumbers, hjob⟩ := ih (classifyIn c protect jobId campaign cols db t row) fun r hr => by
        rw [classifyIn_rows, List.mem_append, List.mem_singleton] at hr
        rcases hr with hr | rfl
        · exact ht r hr
        · exact Service.classifyRow_job
      refine ⟨?_, hjob⟩
      rw [hnumbers, classifyIn_rows, List.map_append, List.map_singleton, classifyRow_number]
      simp
  simpa [tallyOf] using hfold rows {} (by simp)

/-! ### The end of a parse -/

/-- The job is parsed: its rows are stored, numbered from 1 on, and each is counted once. -/
structure Parsed (x x' : Db) (job : ImportJob) : Prop where
  state : job.state = .parsed
  rows : ∃ rows, x'.importRows = x.importRows ++ rows ∧ (∀ r ∈ rows, r.importJobId = job.id) ∧
    rows.map ImportRow.rowNumber = List.range' 1 job.totalRows ∧
    job.validRows = rows.countP fresh ∧ job.duplicateRows = rows.countP repeated ∧
    job.invalidRows = rows.countP rejected
  sum : job.validRows + job.duplicateRows + job.invalidRows = job.totalRows

/-- The job is parsed, or failed with an error text. -/
def Decided (x x' : Db) (id : Uuid) : Prop :=
  ∃ job, Table.find x'.importJobs id = some job ∧
    (Parsed x x' job ∨ job.state = .failed ∧ job.errorSummary.isSome = true)

/-- The file can be read to an end that the parser knows, and what is stored of it has no NUL. -/
structure Accepted (c : Call) (protect : Protect) (raw : RawFile) (cols : Columns) (x : Db) (job : ImportJob)
    (campaign : Campaign) : Prop where
  caught : ∀ e, (reading c.settings (checkPhone cols) raw).2 = some e → e.Caught
  texts : ∀ row ∈ storedRows c protect job.id campaign cols x raw, ∀ text ∈ rowTexts row, hasNul text = false

theorem decided_of_fail {error reason : String} {y : Db} {job' : ImportJob}
    (hjob : Table.find y.importJobs job.id = some job')
    (h : (failParse job error reason).Runs y () x') : Decided x x' job.id := by
  unfold failParse at h
  simp only [runs_bind, runs_setImportJob, runs_recordAudit, exists_eq_left, exists_const] at h
  subst h
  exact ⟨_, Table.find_modify_self (fun _ h => h) hjob, Or.inr ⟨rfl, rfl⟩⟩

theorem failRead_runs {e : ReadError} {y : Db} (h : (failRead job e).Runs y () x') :
    e.Caught ∧ ∃ error reason, (failParse job error reason).Runs y () x' := by
  cases e with
  | other kind text => exact absurd h runs_raise
  | value text =>
    unfold failRead at h
    simp only [runs_bind, runs_refuseNul, and_assoc, exists_and_left, exists_eq_left, exists_const] at h
    exact ⟨⟨text, rfl, h.1 _ (List.mem_singleton_self _)⟩, _, _, h.2⟩

def parseEvent (job : ImportJob) (tally : Tally) : AuditEvent where
  action := "import.parse"
  actorUserId := job.uploaderId
  targetType := "import_job"
  targetId := job.id
  eventMetadata := [("total", .num tally.total), ("valid", .num tally.valid), ("invalid", .num tally.invalid)]

/-- The end of the file: the error, if there is one, or the counts of the rows. -/
def Ends (job : ImportJob) (tally : Tally) (stop : Option ReadError) (y x' : Db) : Prop :=
  match stop with
  | some e => (failRead job e).Runs y () x'
  | none => x' = Db.log (parseEvent job tally) { y with
      importJobs := Table.modify y.importJobs job.id (Service.parsed tally) }

theorem runs_classify {jobId : Uuid} {t t' : Tally} {row : ParsedRow} {s s' : Db} :
    (do let db ← view "classify_row"
        let (r, seen) := classifyRow protect db jobId campaign cols t.seen (c.uuid4 t.total) row
        return t.add r seen : Txn Tally).Runs s t' s' ↔
      t' = classifyIn c protect jobId campaign cols s t row ∧ s' = s := by
  simp only [runs_bind, runs_view, runs_pure, and_assoc, exists_and_left, exists_eq_left]
  rfl

/-- `parse_job` from the rows of the file on. -/
def parseRows (c : Call) (protect : Protect) (cols : Columns) (job : ImportJob) (campaign : Campaign)
    (rows : List ParsedRow) (stop : Option ReadError) : Txn Unit := do
  let tally ← rows.foldlM (fun (t : Tally) row => do
    let db ← view "classify_row"
    let (r, seen) := classifyRow protect db job.id campaign cols t.seen (c.uuid4 t.total) row
    return t.add r seen) {}
  match stop with
  | some e =>
    storeRows (flushed tally.rows)
    failRead job e
  | none =>
    storeRows tally.rows
    if tally.total = 0 then failRead job noDataRows
    else
      setImportJob job.id (Service.parsed tally)
      recordAudit (parseEvent job tally)

theorem parseRows_runs (rows : List ParsedRow) (stop : Option ReadError) (y : Db) {stop' : Option ReadError}
    {tally : Tally} (htally : tally = tallyOf c protect job.id campaign cols y rows)
    (hstop : stop' = stop.or (if rows = [] then some noDataRows else none)) :
    (parseRows c protect cols job campaign rows stop).Runs y () x' ↔
      (∀ row ∈ stored flushed stop' tally.rows, ∀ text ∈ rowTexts row, hasNul text = false) ∧
      Ends job tally stop' { y with importRows := y.importRows ++ stored flushed stop' tally.rows } x' := by
  have htotal : tally.total = 0 ↔ rows = [] := by
    rw [htally, (tallyOf_counts ..).total, ← List.length_map ImportRow.rowNumber, (tallyOf_rows ..).1,
      List.length_map, List.length_eq_zero_iff]
  have hnil (h : rows = []) : tally.rows = [] := by
    rw [htally, h]
    rfl
  unfold parseRows
  rw [runs_bind]
  refine (exists_congr fun t => exists_congr fun _ =>
    and_congr_left' (runs_foldlM_read (fun _ _ _ _ => runs_classify) _)).trans ?_
  simp only [and_assoc, exists_and_left, exists_eq_left]
  rw [← show tally = List.foldl _ {} rows from htally, hstop]
  cases stop with
  | some e => simp [runs_bind, stored, Ends, and_assoc]
  | none =>
    by_cases hrows : rows = []
    · simp [runs_bind, stored, Ends, hrows, hnil hrows, htotal.2 hrows, flushed]
    · simp [runs_bind, stored, Ends, and_assoc, hrows, htotal]

/-- One parse of a quarantined job, told by what reading its file yields. -/
theorem parseStored_runs (hjob : Table.find x.importJobs job.id = some job) (hq : job.state = .quarantined)
    (hcampaign : Table.find x.campaigns job.campaignId = some campaign) :
    (parseStored c protect raw cols job.id).Runs x () x' ↔
      (∀ row ∈ storedRows c protect job.id campaign cols x raw, ∀ text ∈ rowTexts row, hasNul text = false) ∧
      Ends job (tallyOf c protect job.id campaign cols x (reading c.settings (checkPhone cols) raw).1)
        (reading c.settings (checkPhone cols) raw).2 { x with
          importJobs := Table.modify x.importJobs job.id Service.parsing
          importRows := x.importRows ++ storedRows c protect job.id campaign cols x raw } x' := by
  unfold parseStored
  simp only [runs_bind, runs_selectForUpdate, hjob, Option.filter_some, if_true, and_assoc, exists_and_left,
    exists_eq_left, hq, runs_setImportJob, runs_getRow, exists_const]
  rw [hcampaign]
  dsimp only
  unfold storedRows reading
  cases hheader : readHeader c.settings raw with
  | error e =>
    dsimp only
    simp [stored, tallyOf, flushed, Ends]
    rfl
  | ok header =>
    dsimp only
    unfold checkPhone
    by_cases hcol : cols.phone ∉ header
    · simp only [if_pos hcol]
      simp [stored, tallyOf, flushed, Ends]
      rfl
    · simp only [if_neg hcol]
      have htally : tallyOf c protect job.id campaign cols x (parseFile c.settings raw).1 =
          tallyOf c protect job.id campaign cols { x with
            importJobs := Table.modify x.importJobs job.id Service.parsing } (parseFile c.settings raw).1 := rfl
      have hend : (parseRows c protect cols job campaign (parseFile c.settings raw).1 (parseFile c.settings raw).2).Runs _
        () x' ↔ _ := parseRows_runs _ _ _ htally rfl
      simp only [parseRows] at hend
      exact hend

theorem find_parsing (hjob : Table.find x.importJobs job.id = some job) :
    Table.find (Table.modify x.importJobs job.id Service.parsing) job.id = some (Service.parsing job) :=
  Table.find_modify_self (fun _ h => h) hjob

theorem parsed_of_ends {tally : Tally} {rows : List ParsedRow} {y : Db}
    (hjob : Table.find y.importJobs job.id = some (Service.parsing job))
    (htally : tally = tallyOf c protect job.id campaign cols x rows)
    (hnumbers : rows.map ParsedRow.rowNumber = List.range' 1 rows.length)
    (hrows : y.importRows = x.importRows ++ tally.rows) (h : Ends job tally none y x') : Decided x x' job.id := by
  obtain ⟨htotal, hvalid, hdup, hinvalid, hsum⟩ : Counts tally := htally ▸ tallyOf_counts ..
  obtain ⟨hrownumbers, hjobs⟩ : tally.rows.map ImportRow.rowNumber = rows.map ParsedRow.rowNumber ∧
      ∀ r ∈ tally.rows, r.importJobId = job.id := htally ▸ tallyOf_rows ..
  have hlength : tally.rows.length = rows.length := by
    simpa using congrArg List.length hrownumbers
  refine ⟨Service.parsed tally (Service.parsing job), ?_, Or.inl ⟨rfl, ⟨tally.rows, ?_, hjobs, ?_, hvalid, hdup, hinvalid⟩, hsum⟩⟩
  · rw [show x' = _ from h]
    exact Table.find_modify_self (fun _ h => h) hjob
  · rw [show x' = _ from h]
    exact hrows
  · rw [hrownumbers, hnumbers, ← hlength, ← htotal]
    rfl

theorem failParse_total (job : ImportJob) (error reason : String) (y : Db) :
    ∃ x', (failParse job error reason).Runs y () x' := by
  unfold failParse
  simp [runs_bind]

theorem failRead_total {e : ReadError} (job : ImportJob) (h : e.Caught) (y : Db) : ∃ x', (failRead job e).Runs y () x' := by
  obtain ⟨text, rfl, hnul⟩ := h
  obtain ⟨x', hr⟩ := failParse_total job (truncate text 1000) (truncate text 50) y
  refine ⟨x', ?_⟩
  unfold failRead
  simp only [runs_bind, runs_refuseNul, and_assoc, exists_and_left, exists_eq_left, exists_const]
  exact ⟨fun t ht => List.mem_singleton.1 ht ▸ hnul, hr⟩

/-- A quarantined campaign import is decided by its parse exactly when its file is accepted. -/
theorem decided_iff (hjob : Table.find x.importJobs job.id = some job) (hq : job.state = .quarantined) :
    (∃ x', (parseStored c protect raw cols job.id).Runs x () x' ∧ Decided x x' job.id) ↔
      ∀ campaign, Table.find x.campaigns job.campaignId = some campaign →
        Accepted c protect raw cols x job campaign := by
  constructor
  · rintro ⟨x', hr, -⟩ campaign hcampaign
    obtain ⟨htexts, hends⟩ := (parseStored_runs hjob hq hcampaign).1 hr
    refine ⟨fun e he => ?_, htexts⟩
    unfold Ends at hends
    rw [he] at hends
    exact (failRead_runs hends).1
  · intro haccepted
    cases hcampaign : Table.find x.campaigns job.campaignId with
    | none =>
      obtain ⟨x', hfail⟩ := failParse_total job "campaign for import job no longer exists" "campaign_missing" { x with
        importJobs := Table.modify x.importJobs job.id Service.parsing }
      refine ⟨x', ?_, decided_of_fail (find_parsing hjob) hfail⟩
      unfold parseStored
      simp only [runs_bind, runs_selectForUpdate, hjob, Option.filter_some, if_true, and_assoc, exists_and_left,
        exists_eq_left, hq, runs_setImportJob, runs_getRow, exists_const]
      rw [hcampaign]
      exact hfail
    | some campaign =>
      obtain ⟨hcaught, htexts⟩ := haccepted campaign hcampaign
      have hends : ∀ x', Ends job _ _ _ x' → _ := fun x' h => (parseStored_runs hjob hq hcampaign).2 ⟨htexts, h⟩
      cases hstop : (reading c.settings (checkPhone cols) raw).2 with
      | some e =>
        rw [hstop] at hends
        obtain ⟨x', hfail⟩ := failRead_total job (hcaught e hstop) { x with
          importJobs := Table.modify x.importJobs job.id Service.parsing
          importRows := x.importRows ++ storedRows c protect job.id campaign cols x raw }
        obtain ⟨-, error, reason, hparse⟩ := failRead_runs hfail
        exact ⟨x', hends x' hfail, decided_of_fail (find_parsing hjob) hparse⟩
      | none =>
        rw [hstop] at hends
        have hstored : storedRows c protect job.id campaign cols x raw =
            (tallyOf c protect job.id campaign cols x (reading c.settings (checkPhone cols) raw).1).rows := by
          unfold storedRows stored
          dsimp only
          rw [hstop]
          rfl
        refine ⟨_, hends _ rfl, parsed_of_ends (find_parsing hjob) rfl (reading_numbers ..) ?_ rfl⟩
        rw [hstored]

end Campaign

end Imports

/-! ## The workforce importer -/

namespace WorkforceImports

open Imports (ParsedRow RawFile ReadError reading readHeader parseFile stored reading_numbers noDataRows runs_refuseNul)

section Rows

variable {x : Context} {row : ParsedRow}

theorem classifyUsersRow_number : (classifyUsersRow x row).1.rowNumber = row.rowNumber := by
  unfold classifyUsersRow classifyCreate classifyReactivate classifyUpdate invalid
  dsimp only
  repeat' first | split | rfl

theorem classifyDeactivationRow_number : (classifyDeactivationRow x row).1.rowNumber = row.rowNumber := by
  unfold classifyDeactivationRow invalid
  dsimp only
  repeat' first | split | rfl

theorem classifyTeamMembershipRow_number : (classifyTeamMembershipRow x row).1.rowNumber = row.rowNumber := by
  unfold classifyTeamMembershipRow invalid
  dsimp only
  repeat' first | split | rfl

theorem classifyRoleAssignmentRow_number : (classifyRoleAssignmentRow x row).1.rowNumber = row.rowNumber := by
  unfold classifyRoleAssignmentRow invalid
  dsimp only
  repeat' first | split | rfl

theorem classifyReportingAssignmentRow_number : (classifyReportingAssignmentRow x row).1.rowNumber = row.rowNumber := by
  unfold classifyReportingAssignmentRow invalid
  dsimp only
  repeat' first | split | rfl

theorem classifyCampaignAssignmentRow_number : (classifyCampaignAssignmentRow x row).1.rowNumber = row.rowNumber := by
  unfold classifyCampaignAssignmentRow invalid
  dsimp only
  repeat' first | split | rfl

/-- A classification is about the row it was made of. -/
theorem classifier_number (t : ImportType) : (classifier t x row).1.rowNumber = row.rowNumber := by
  cases t with
  | users => simp only [classifier, classifyUsersRow_number]
  | explicitDeactivations => simp only [classifier, classifyDeactivationRow_number]
  | teamMemberships => simp only [classifier, classifyTeamMembershipRow_number]
  | roleAssignments => simp only [classifier, classifyRoleAssignmentRow_number]
  | reportingAssignments => simp only [classifier, classifyReportingAssignmentRow_number]
  | campaignUserAssignments => simp only [classifier, classifyCampaignAssignmentRow_number]

end Rows

section Workforce

variable {c : Call} {lower : String → String} {raw : RawFile} {x x' : Db} {job : WorkforceImportJob}

/-- Each row is counted under its validation result, and once more when it is valid and of high risk. -/
structure Counts (t : Tally) : Prop where
  total : t.total = t.rows.length
  valid : t.valid = t.rows.countP fun r => r.validationResult = .valid
  warning : t.warning = t.rows.countP fun r => r.validationResult = .warning
  invalid : t.invalid = t.rows.countP fun r => r.validationResult = .invalid
  highRisk : t.highRisk = t.rows.countP fun r => r.riskLevel = .highRisk ∧ r.validationResult = .valid
  sum : t.valid + t.warning + t.invalid = t.total

theorem require_counters (t : Tally) (r : Option Requirement) :
    (t.require r).total = t.total ∧ (t.require r).valid = t.valid ∧ (t.require r).warning = t.warning ∧
      (t.require r).invalid = t.invalid ∧ (t.require r).highRisk = t.highRisk := by
  unfold Tally.require
  cases r with
  | none => exact ⟨rfl, rfl, rfl, rfl, rfl⟩
  | some r => dsimp only; split_ifs <;> exact ⟨rfl, rfl, rfl, rfl, rfl⟩

theorem Counts.add {t : Tally} (h : Counts t) (importType : ImportType) (row : WorkforceImportRow) (seen : List String) :
    Counts (t.add importType row seen) := by
  obtain ⟨htotal, hvalid, hwarning, hinvalid, hrisk, hsum⟩ := h
  have hrows : (({ t with rows := t.rows ++ [row], seen := seen, total := t.total + 1 } : Tally).require
      (rowRequirement importType row)).rows = t.rows ++ [row] := require_rows _
  obtain ⟨htotal', hvalid', hwarning', hinvalid', hrisk'⟩ := require_counters
    { t with rows := t.rows ++ [row], seen := seen, total := t.total + 1 } (rowRequirement importType row)
  unfold Tally.add
  generalize ({ t with rows := t.rows ++ [row], seen := seen, total := t.total + 1 } : Tally).require
    (rowRequirement importType row) = t' at *
  unfold Tally.count
  dsimp only at *
  cases hr : row.validationResult with
  | valid =>
    constructor <;> simp [hr, hrows, htotal', hvalid', hwarning', hinvalid', hrisk', htotal, hvalid, hwarning, hinvalid, hrisk,
      List.countP_singleton]
    · split_ifs <;> rfl
    · omega
  | warning =>
    constructor <;> simp [hr, hrows, htotal', hvalid', hwarning', hinvalid', hrisk', htotal, hvalid, hwarning, hinvalid, hrisk]
    omega
  | invalid =>
    constructor <;> simp [hr, hrows, htotal', hvalid', hwarning', hinvalid', hrisk', htotal, hvalid, hwarning, hinvalid, hrisk]
    omega

theorem tallyOf_counts (db : Db) (rows : List ParsedRow) : Counts (tallyOf c lower job db rows) := by
  unfold tallyOf
  refine List.foldlRecOn rows _ ⟨rfl, rfl, rfl, rfl, rfl, rfl⟩ fun t ht row _ => ?_
  exact ht.add ..

theorem tallyOf_rows (db : Db) (rows : List ParsedRow) :
    (tallyOf c lower job db rows).rows.map WorkforceImportRow.rowNumber = rows.map ParsedRow.rowNumber := by
  have hfold : ∀ (rows : List ParsedRow) (t : Tally),
      (rows.foldl (parseRowIn c lower job db) t).rows.map WorkforceImportRow.rowNumber =
        t.rows.map WorkforceImportRow.rowNumber ++ rows.map ParsedRow.rowNumber := by
    intro rows
    induction rows with
    | nil => simp
    | cons row rows ih =>
      intro t
      rw [List.foldl_cons, ih, show (parseRowIn c lower job db t row).rows = _ from add_rows, List.map_append,
        List.map_singleton, show (importRow _ _ _).rowNumber = _ from classifier_number job.importType]
      simp
  simpa [tallyOf] using hfold rows {}

/-! ### The end of a parse -/

/-- The rows that the parse of the file stores. -/
def storedRows (c : Call) (lower : String → String) (job : WorkforceImportJob) (db : Db) (raw : RawFile) :
    List WorkforceImportRow :=
  let r := reading c.settings (checkHeader job.importType) raw
  stored flushed r.2 (tallyOf c lower job db r.1).rows

/-- The job is parsed: its rows are stored, numbered from 1 on, and counted. -/
structure Parsed (x x' : Db) (job : WorkforceImportJob) : Prop where
  state : job.state = .parsed
  rows : ∃ rows, x'.workforceRows = x.workforceRows ++ rows ∧ (∀ r ∈ rows, r.importJobId = job.id) ∧
    rows.map WorkforceImportRow.rowNumber = List.range' 1 job.totalRows ∧
    job.validRows = rows.countP (fun r => r.validationResult = .valid) ∧
    job.warningRows = rows.countP (fun r => r.validationResult = .warning) ∧
    job.invalidRows = rows.countP (fun r => r.validationResult = .invalid) ∧
    job.highRiskRows = rows.countP fun r => r.riskLevel = .highRisk ∧ r.validationResult = .valid
  sum : job.validRows + job.warningRows + job.invalidRows = job.totalRows

/-- The job is parsed, or failed with an error text. -/
def Decided (x x' : Db) (id : Uuid) : Prop :=
  ∃ job, Table.find x'.workforceJobs id = some job ∧
    (Parsed x x' job ∨ job.state = .failed ∧ job.errorSummary.isSome = true)

/-- PostgreSQL takes the row: no text of it has a NUL, and its action fits the column. -/
structure Storable (row : WorkforceImportRow) : Prop where
  action : actionTooLong row = false
  texts : ∀ text ∈ rowTexts row, hasNul text = false

/-- The job is marked as parsing. -/
def started (x : Db) (job : WorkforceImportJob) : Db :=
  { x with workforceJobs := Table.modify x.workforceJobs job.id parsing }

/-- The job is parsed: its columns are written, and the parse is logged. -/
def finished (job : WorkforceImportJob) (tally : Tally) (y : Db) : Db :=
  Db.log (jobEvent "workforce_import.parse" job.uploaderId job.id none
    [("total", .num tally.total), ("valid", .num tally.valid), ("invalid", .num tally.invalid),
      ("high_risk", .num tally.highRisk)])
    { y with workforceJobs := Table.modify y.workforceJobs job.id (parsed tally) }

/-- The job as a file that is read to its end leaves it. -/
def parsedJob (c : Call) (lower : String → String) (raw : RawFile) (x : Db) (job : WorkforceImportJob) :
    WorkforceImportJob :=
  parsed (tallyOf c lower job (started x job) (reading c.settings (checkHeader job.importType) raw).1) job

/-- The state in which it then asks for a review. -/
def asking (c : Call) (lower : String → String) (raw : RawFile) (x : Db) (job : WorkforceImportJob) : Db :=
  finished job (tallyOf c lower job (started x job) (reading c.settings (checkHeader job.importType) raw).1)
    { started x job with workforceRows := x.workforceRows ++ storedRows c lower job (started x job) raw }

/-- PostgreSQL takes what is looked up and stored of the file. -/
structure Taken (c : Call) (lower : String → String) (raw : RawFile) (x : Db) (job : WorkforceImportJob) : Prop where
  lookups : ∀ done row rest, (reading c.settings (checkHeader job.importType) raw).1 = done ++ row :: rest →
    ∀ text ∈ lookups job.importType
      { call := c, lower := lower, db := started x job, seen := (tallyOf c lower job (started x job) done).seen } row,
      hasNul text = false
  rows : ∀ row ∈ storedRows c lower job (started x job) raw, Storable row

/-- The file can be read to an end that the parser knows, PostgreSQL takes what is looked up and stored
of it, and if someone is to be told of the job, the title fits. -/
structure Accepted (c : Call) (lower : String → String) (raw : RawFile) (x : Db) (job : WorkforceImportJob) : Prop where
  caught : ∀ e, (reading c.settings (checkHeader job.importType) raw).2 = some e → e.Caught
  taken : Taken c lower raw x job
  review : (reading c.settings (checkHeader job.importType) raw).2 = none →
    NeedsReview c (asking c lower raw x job) (parsedJob c lower raw x job) →
    Titled job ∨ ∀ user, ¬MayApprove c (asking c lower raw x job) (parsedJob c lower raw x job) user

@[simp] theorem runs_storeRows {rows : List WorkforceImportRow} {s s' : Db} {u : Unit} :
    (storeRows rows).Runs s u s' ↔ (∀ row ∈ rows, Storable row) ∧
      s' = { s with workforceRows := s.workforceRows ++ rows } := by
  unfold storeRows
  simp only [runs_bind, runs_raiseIf, runs_refuseNul, runs_addWorkforceRows, and_assoc, exists_and_left,
    exists_eq_left, exists_const]
  rw [← and_assoc]
  refine and_congr_left' ⟨fun h row hrow => ⟨?_, ?_⟩, fun h => ⟨?_, ?_⟩⟩
  · simpa using fun ha => h.1 (List.any_eq_true.2 ⟨row, hrow, ha⟩)
  · exact fun text ht => h.2 text (List.mem_flatMap.2 ⟨row, hrow, ht⟩)
  · simpa using fun row hrow => (h row hrow).action
  · intro text ht
    obtain ⟨row, hrow, ht⟩ := List.mem_flatMap.1 ht
    exact (h row hrow).texts text ht

theorem runs_classifyNext {t t' : Tally} {row : ParsedRow} {s s' : Db} :
    (classifyNext c lower job t row).Runs s t' s' ↔
      (∀ text ∈ lookups job.importType { call := c, lower := lower, db := s, seen := t.seen } row,
        hasNul text = false) ∧ t' = parseRowIn c lower job s t row ∧ s' = s := by
  unfold classifyNext
  simp only [runs_bind, runs_view, runs_refuseNul, runs_parseRow, and_assoc, exists_and_left, exists_eq_left, exists_const]

theorem decided_of_fail {error : String} {y : Db} {job' : WorkforceImportJob}
    (hjob : Table.find y.workforceJobs job.id = some job') (h : (failParse job error).Runs y () x') :
    Decided x x' job.id := by
  unfold failParse at h
  simp only [runs_bind, runs_setWorkforceJob, runs_recordAudit, exists_eq_left, exists_const] at h
  subst h
  exact ⟨_, Table.find_modify_self (fun _ h => h) hjob, Or.inr ⟨rfl, rfl⟩⟩

theorem failRead_runs {e : ReadError} {y : Db} (h : (failRead job e).Runs y () x') :
    e.Caught ∧ ∃ error, (failParse job error).Runs y () x' := by
  cases e with
  | other kind text => exact absurd h runs_raise
  | value text =>
    unfold failRead at h
    simp only [runs_bind, runs_refuseNul, and_assoc, exists_and_left, exists_eq_left, exists_const] at h
    exact ⟨⟨text, rfl, h.1 _ (List.mem_singleton_self _)⟩, _, h.2⟩

theorem failRead_total {e : ReadError} (job : WorkforceImportJob) (h : e.Caught) (y : Db) :
    ∃ x', (failRead job e).Runs y () x' := by
  obtain ⟨text, rfl, hnul⟩ := h
  unfold failRead failParse
  simp [runs_bind, hnul]

/-- The end of the file: the error, if there is one, or the counts of the rows. -/
def Ends (c : Call) (job : WorkforceImportJob) (tally : Tally) (stop : Option ReadError) (y x' : Db) : Prop :=
  match stop with
  | some e => (failRead job e).Runs y () x'
  | none => (notifyPendingApprovers c (parsed tally job)).Runs (finished job tally y) () x'

/-- `parse_job` from the rows of the file on. -/
def parseRows (c : Call) (lower : String → String) (job : WorkforceImportJob) (rows : List ParsedRow)
    (stop : Option ReadError) : Txn Unit := do
  let tally ← rows.foldlM (classifyNext c lower job) {}
  match stop with
  | some e =>
    storeRows (flushed tally.rows)
    failRead job e
  | none =>
    storeRows tally.rows
    if tally.total = 0 then failRead job noDataRows
    else
      setWorkforceJob job.id (parsed tally)
      recordAudit (jobEvent "workforce_import.parse" job.uploaderId job.id none
        [("total", .num tally.total), ("valid", .num tally.valid), ("invalid", .num tally.invalid),
          ("high_risk", .num tally.highRisk)])
      notifyPendingApprovers c (parsed tally job)

theorem parseRows_runs (rows : List ParsedRow) (stop : Option ReadError) (y : Db) {stop' : Option ReadError}
    {tally : Tally} (htally : tally = tallyOf c lower job y rows)
    (hstop : stop' = stop.or (if rows = [] then some noDataRows else none)) :
    (parseRows c lower job rows stop).Runs y () x' ↔
      (∀ done row rest, rows = done ++ row :: rest → ∀ text ∈ lookups job.importType
        { call := c, lower := lower, db := y, seen := (tallyOf c lower job y done).seen } row, hasNul text = false) ∧
      (∀ row ∈ stored flushed stop' tally.rows, Storable row) ∧
      Ends c job tally stop' { y with workforceRows := y.workforceRows ++ stored flushed stop' tally.rows } x' := by
  have htotal : tally.total = 0 ↔ rows = [] := by
    rw [htally, (tallyOf_counts ..).total, ← List.length_map WorkforceImportRow.rowNumber, tallyOf_rows,
      List.length_map, List.length_eq_zero_iff]
  have hnil (h : rows = []) : tally.rows = [] := by
    rw [htally, h]
    rfl
  unfold parseRows
  rw [runs_bind]
  refine (exists_congr fun t => exists_congr fun _ =>
    and_congr_left' (runs_foldlM_checked (fun _ _ _ _ => runs_classifyNext) _)).trans ?_
  simp only [and_assoc, exists_and_left, exists_eq_left]
  refine and_congr_right' ?_
  rw [← show tally = List.foldl _ {} rows from htally, hstop]
  cases stop with
  | some e => simp [runs_bind, stored, Ends, and_assoc]
  | none =>
    by_cases hrows : rows = []
    · simp [runs_bind, stored, Ends, hrows, hnil hrows, htotal.2 hrows, flushed]
    · simp [runs_bind, stored, Ends, and_assoc, hrows, htotal, finished]

/-- One parse of a quarantined job, told by what reading its file yields. -/
theorem parseStored_runs (hjob : Table.find x.workforceJobs job.id = some job) (hq : job.state = .quarantined) :
    (parseStored c lower raw job.id).Runs x () x' ↔ Taken c lower raw x job ∧
      Ends c job (tallyOf c lower job (started x job) (reading c.settings (checkHeader job.importType) raw).1)
        (reading c.settings (checkHeader job.importType) raw).2 { started x job with
          workforceRows := x.workforceRows ++ storedRows c lower job (started x job) raw } x' := by
  have htaken : Taken c lower raw x job ↔ _ ∧ _ := ⟨fun h => ⟨h.lookups, h.rows⟩, fun h => ⟨h.1, h.2⟩⟩
  rw [htaken, and_assoc]
  unfold parseStored
  simp only [runs_bind, runs_selectForUpdate, hjob, Option.filter_some, if_true, and_assoc, exists_and_left,
    exists_eq_left, hq, runs_setWorkforceJob, exists_const]
  change Runs _ (started x job) () x' ↔ _
  unfold storedRows reading
  cases hheader : readHeader c.settings raw with
  | error e =>
    dsimp only
    simp [stored, tallyOf, flushed, Ends, started]
  | ok header =>
    dsimp only
    cases hcheck : checkHeader job.importType header with
    | some e => simp [stored, tallyOf, flushed, Ends, started]
    | none =>
      exact parseRows_runs (parseFile c.settings raw).1 (parseFile c.settings raw).2 (started x job) rfl rfl

theorem find_parsing (hjob : Table.find x.workforceJobs job.id = some job) :
    Table.find (started x job).workforceJobs job.id = some (parsing job) :=
  Table.find_modify_self (fun _ h => h) hjob

theorem parsed_of_ends {tally : Tally} {rows : List ParsedRow} {y z : Db}
    (hjob : Table.find y.workforceJobs job.id = some (parsing job)) (htally : tally = tallyOf c lower job z rows)
    (hnumbers : rows.map ParsedRow.rowNumber = List.range' 1 rows.length)
    (hrows : y.workforceRows = x.workforceRows ++ tally.rows) (h : Ends c job tally none y x') : Decided x x' job.id := by
  obtain ⟨htotal, hvalid, hwarning, hinvalid, hrisk, hsum⟩ : Counts tally := htally ▸ tallyOf_counts ..
  have hrownumbers : tally.rows.map WorkforceImportRow.rowNumber = rows.map ParsedRow.rowNumber :=
    htally ▸ tallyOf_rows ..
  have hjobs : ∀ r ∈ tally.rows, r.importJobId = job.id :=
    fun r hr => ((tallyOf_spec job z rows).2 r (htally ▸ hr)).1
  have hlength : tally.rows.length = rows.length := by
    simpa using congrArg List.length hrownumbers
  have hkept : (finished job tally y).imports = Db.imports x' := (Leaves.runs (π := Db.imports) h).symm
  refine ⟨parsed tally (parsing job), ?_, Or.inl ⟨rfl, ⟨tally.rows, ?_, hjobs, ?_, hvalid, hwarning, hinvalid, hrisk⟩, hsum⟩⟩
  · rw [show x'.workforceJobs = _ from (congrArg ImportTables.jobs hkept).symm]
    exact Table.find_modify_self (fun _ h => h) hjob
  · rw [show x'.workforceRows = _ from (congrArg ImportTables.rows hkept).symm]
    exact hrows
  · rw [hrownumbers, hnumbers, ← hlength, ← htotal]
    rfl

/-- Everyone's access to the job can be told from what its parse has stored. -/
theorem access_parsedJob (db : Db) (now : Time) (user : Uuid) :
    ∃ b, canAccessJob db now user (parsedJob c lower raw x job) = .ok b := by
  obtain ⟨hnoted, hnamed⟩ : Noted job.importType (tallyOf c lower job (started x job) _) ∧ _ :=
    tallyOf_spec job (started x job) (reading c.settings (checkHeader job.importType) raw).1
  exact access_parsed job.importType hnoted (fun row hrow => (hnamed row hrow).2) ..

/-- A quarantined workforce import is decided by its parse exactly when its file is accepted. -/
theorem decided_iff (hjob : Table.find x.workforceJobs job.id = some job) (hq : job.state = .quarantined) :
    (∃ x', (parseStored c lower raw job.id).Runs x () x' ∧ Decided x x' job.id) ↔ Accepted c lower raw x job := by
  constructor
  · rintro ⟨x', hr, -⟩
    obtain ⟨htaken, hends⟩ := (parseStored_runs hjob hq).1 hr
    refine ⟨fun e he => ?_, htaken, fun he => ?_⟩
    · rw [he] at hends
      exact (failRead_runs hends).1
    · rw [he] at hends
      exact ((notifyPendingApprovers_runs fun user => access_parsedJob ..).1 hends).1
  · rintro ⟨hcaught, htaken, hreview⟩
    have hends : ∀ x', Ends c job _ _ _ x' → _ := fun x' h => (parseStored_runs hjob hq).2 ⟨htaken, h⟩
    have hfind : Table.find ({ started x job with
        workforceRows := x.workforceRows ++ storedRows c lower job (started x job) raw } : Db).workforceJobs job.id =
      some (parsing job) := find_parsing hjob
    cases hstop : (reading c.settings (checkHeader job.importType) raw).2 with
    | some e =>
      rw [hstop] at hends
      obtain ⟨x', hfail⟩ := failRead_total job (hcaught e hstop) _
      obtain ⟨-, error, hparse⟩ := failRead_runs hfail
      exact ⟨x', hends x' hfail, decided_of_fail hfind hparse⟩
    | none =>
      rw [hstop] at hends
      have hnotify : (notifyPendingApprovers c (parsedJob c lower raw x job)).Runs (asking c lower raw x job) () _ :=
        (notifyPendingApprovers_runs fun user => access_parsedJob ..).2 ⟨hreview hstop, rfl⟩
      refine ⟨_, hends _ hnotify, parsed_of_ends hfind rfl (reading_numbers ..) ?_ hnotify⟩
      unfold storedRows stored
      dsimp only
      rw [hstop]
      rfl

end Workforce

end WorkforceImports

/-! ## Both importers -/

/-- The parse of a quarantined job ends with the job parsed or failed exactly when the file is accepted. -/
theorem parse_decides (c : Call) (raw : Imports.RawFile) (x : Db) :
    (∀ (protect : Imports.Protect) (cols : Imports.Columns) (job : ImportJob),
      Table.find x.importJobs job.id = some job → job.state = .quarantined →
      ((∃ x', (Imports.parseStored c protect raw cols job.id).Runs x () x' ∧ Imports.Decided x x' job.id) ↔
        ∀ campaign, Table.find x.campaigns job.campaignId = some campaign →
          Imports.Accepted c protect raw cols x job campaign)) ∧
    ∀ (lower : String → String) (job : WorkforceImportJob),
      Table.find x.workforceJobs job.id = some job → job.state = .quarantined →
      ((∃ x', (WorkforceImports.parseStored c lower raw job.id).Runs x () x' ∧ WorkforceImports.Decided x x' job.id) ↔
        WorkforceImports.Accepted c lower raw x job) :=
  ⟨fun _ _ _ hjob hq => Imports.decided_iff hjob hq, fun _ _ hjob hq => WorkforceImports.decided_iff hjob hq⟩

namespace Uploads.Demo

/-! Job 60 is a campaign import, job 70 an import of users; both wait for their parse. -/

def contacts : ImportJob := { id := 60, campaignId := 1, uploaderId := 8, state := .quarantined }

def people : WorkforceImportJob := { id := 70, importType := .users, uploaderId := 8 }

def db : Db where
  campaigns := [{ id := 1, name := "spring", status := .active }]
  importJobs := [contacts]
  workforceJobs := [people]

def call : Call where
  utcnow _ := 5
  uuid4 n := n

def protect : Imports.Protect := fun raw _ => .ok (raw, raw)

def cols : Imports.Columns := { phone := "phone" }

/-- A file with two phones. -/
def phones : Imports.RawFile := { rows := [["phone"], ["0151"], ["0152"]] }

/-- A file with a cell of more than 131072 characters. -/
def oversized : Imports.RawFile where
  rows := [["phone"]]
  stop := some (.other "_csv.Error" "field larger than field limit (131072)")

def usersHeader : List String := ["action", "external_workforce_id", "login_identifier", "display_name"]

/-- A file whose action has more than 20 characters. -/
def longAction : Imports.RawFile where
  rows := [usersHeader, ["deactivate-immediately", "w1", "w1@example.com", "W One"]]

def noUsers : Imports.RawFile := { rows := [usersHeader] }

/-- A file of the given name, which announces that user 5 leaves. -/
def leaving (name : String) : WorkforceImportJob where
  id := 70
  importType := .explicitDeactivations
  uploaderId := 8
  sourceFilenameDisplay := name

/-- User 9 is a manager and may approve it. -/
def staff (name : String) : Db where
  users := [{ id := 5, workforceId := "w5" }]
  roleAssignments := [{ id := 6, userId := 9, roleCode := .manager, scopeType := .installation, effectiveFrom := 0 }]
  workforceJobs := [leaving name]

def leaverFile : Imports.RawFile := { rows := [["external_workforce_id", "reason_code"], ["w5", "left"]] }

/-- A name that leaves no room for the words around it. -/
def longName : String := String.ofList (List.replicate 166 'x') ++ ".csv"

end Uploads.Demo

open Uploads

theorem parse_decides_files :
    (∃ x', (Imports.parseStored Demo.call Demo.protect Demo.phones Demo.cols 60).Runs Demo.db () x' ∧
      Imports.Decided Demo.db x' 60) ∧
    (∃ x', (WorkforceImports.parseStored Demo.call id Demo.noUsers 70).Runs Demo.db () x' ∧
      WorkforceImports.Decided Demo.db x' 70) ∧
    ∃ x', (WorkforceImports.parseStored Demo.call id Demo.leaverFile 70).Runs (Demo.staff "leavers.csv") () x' ∧
      WorkforceImports.Decided (Demo.staff "leavers.csv") x' 70 := by
  refine ⟨((parse_decides Demo.call Demo.phones Demo.db).1 Demo.protect Demo.cols Demo.contacts rfl rfl).2 ?_,
    ((parse_decides Demo.call Demo.noUsers Demo.db).2 id Demo.people rfl rfl).2 ?_,
    ((parse_decides Demo.call Demo.leaverFile (Demo.staff _)).2 id (Demo.leaving _) rfl rfl).2 ?_⟩
  · intro campaign hcampaign
    obtain rfl : _ = campaign := Option.some.inj hcampaign
    have hend : (Imports.reading Demo.call.settings (Imports.checkPhone Demo.cols) Demo.phones).2 = none := by
      decide +kernel
    refine ⟨fun e he => ?_, by decide +kernel⟩
    rw [hend] at he
    cases he
  · have hend : (Imports.reading Demo.call.settings (WorkforceImports.checkHeader Demo.people.importType) Demo.noUsers).2 =
        some Imports.noDataRows := by decide +kernel
    have hok : ((WorkforceImports.parseStored Demo.call id Demo.noUsers 70).transact Demo.db).1 = .ok () := by
      decide +kernel
    refine ⟨fun e he => ?_, ((WorkforceImports.parseStored_runs rfl rfl).1 (runs_transact hok)).1, fun he => ?_⟩
    · obtain rfl := Option.some.inj (hend.symm.trans he)
      exact ⟨_, rfl, by decide +kernel⟩
    · cases hend.symm.trans he
  · have hend : (Imports.reading Demo.call.settings
        (WorkforceImports.checkHeader (Demo.leaving "leavers.csv").importType) Demo.leaverFile).2 = none := by decide +kernel
    have hok : ((WorkforceImports.parseStored Demo.call id Demo.leaverFile 70).transact (Demo.staff "leavers.csv")).1 =
        .ok () := by decide +kernel
    refine ⟨fun e he => ?_, ((WorkforceImports.parseStored_runs rfl rfl).1 (runs_transact hok)).1,
      fun _ _ => Or.inl (WorkforceImports.titled_iff.2 (by decide +kernel))⟩
    cases hend.symm.trans he

/-- The reader's own error, an action of more than 20 characters and a long file name all leave the job as
it was. -/
theorem parse_undecided_files :
    (∃ e, (Imports.parseStored Demo.call Demo.protect Demo.oversized Demo.cols 60).transact Demo.db =
      (.error (.uncaught "_csv.Error" e), Demo.db)) ∧
    (∃ e, (WorkforceImports.parseStored Demo.call id Demo.longAction 70).transact Demo.db =
      (.error (.dataError e), Demo.db)) ∧
    (∃ e, (WorkforceImports.parseStored Demo.call id Demo.leaverFile 70).transact (Demo.staff Demo.longName) =
      (.error (.dataError e), Demo.staff Demo.longName)) ∧
    Demo.contacts.state = .quarantined ∧ Demo.people.state = .quarantined ∧
    (Demo.leaving Demo.longName).state = .quarantined ∧
    (¬∃ x', (Imports.parseStored Demo.call Demo.protect Demo.oversized Demo.cols 60).Runs Demo.db () x' ∧
      Imports.Decided Demo.db x' 60) ∧
    (¬∃ x', (WorkforceImports.parseStored Demo.call id Demo.longAction 70).Runs Demo.db () x' ∧
      WorkforceImports.Decided Demo.db x' 70) ∧
    ¬∃ x', (WorkforceImports.parseStored Demo.call id Demo.leaverFile 70).Runs (Demo.staff Demo.longName) () x' ∧
      WorkforceImports.Decided (Demo.staff Demo.longName) x' 70 := by
  have hcell : ((Imports.parseStored Demo.call Demo.protect Demo.oversized Demo.cols 60).transact Demo.db).1 =
      .error (.uncaught "_csv.Error" "field larger than field limit (131072)") := by decide +kernel
  have haction : ((WorkforceImports.parseStored Demo.call id Demo.longAction 70).transact Demo.db).1 =
      .error (tooLong 20) := by decide +kernel
  have hname : ((WorkforceImports.parseStored Demo.call id Demo.leaverFile 70).transact (Demo.staff Demo.longName)).1 =
      .error (tooLong 200) := by decide +kernel
  refine ⟨⟨_, transact_eq_error hcell⟩, ⟨_, transact_eq_error haction⟩, ⟨_, transact_eq_error hname⟩,
    rfl, rfl, rfl, ?_, ?_, ?_⟩
  · rintro ⟨x', hr, -⟩
    exact not_runs_of_error hcell hr
  · rintro ⟨x', hr, -⟩
    exact not_runs_of_error haction hr
  · rintro ⟨x', hr, -⟩
    exact not_runs_of_error hname hr

end OmniDB
