import OmniDB.Spec.WorkforceImports

/-! `parse_job` of the two importers from the stored bytes on: what `app/imports/parser.py` reads
of a file, the errors it stops at, and the texts that PostgreSQL does not take. -/

namespace OmniDB

open Tx
open Tx.Prog (view update raise raiseIf)

namespace Imports

/-! ## The readers -/

/-- What reading a file raises: `ValueError` or a class under it, or any other exception. -/
inductive ReadError where
  | value (text : String)
  | other (kind text : String)
deriving DecidableEq

/-- What `csv.reader` or `openpyxl` makes of the bytes of a file: rows of cells as text, and the
error, if there is one, at which it stops. -/
structure RawFile where
  rows : List (List String)
  stop : Option ReadError := none

/-- `_validate_header`. -/
def validateHeader (s : Settings) (header : List String) : Except ReadError (List String) :=
  if s.uploadMaxColumns < header.length then
    .error (.value ("too many columns: " ++ toString header.length ++ " > " ++ toString s.uploadMaxColumns))
  else .ok (header.map strip)

/-- `read_header`. -/
def readHeader (s : Settings) (raw : RawFile) : Except ReadError (List String) :=
  match raw.rows, raw.stop with
  | header :: _, _ => validateHeader s header
  | [], some e => .error e
  | [], none => .ok []

/-- The values of a row by the columns of the header. -/
def rowValues (s : Settings) (header cells : List String) : List (String × String) :=
  (header.zip cells).foldl (fun m kv => setKey m kv.1 (truncate kv.2 s.uploadMaxCellLength)) []

/-- The loop of `parse_csv` and `parse_xlsx` from row `n` on. -/
def readRows (s : Settings) (header : List String) (stop : Option ReadError) :
    ℕ → List (List String) → List ParsedRow × Option ReadError
  | _, [] => ([], stop)
  | n, cells :: rest =>
    if s.uploadMaxRows < n then
      ([], some (.value ("too many rows: exceeds " ++ toString s.uploadMaxRows)))
    else if s.uploadMaxColumns < cells.length then
      ([], some (.value ("row " ++ toString n ++ " has too many columns")))
    else
      let (rows, e) := readRows s header stop (n + 1) rest
      (⟨n, rowValues s header cells⟩ :: rows, e)

/-- `parse_file`: the rows it yields and the error at which it stops. -/
def parseFile (s : Settings) (raw : RawFile) : List ParsedRow × Option ReadError :=
  match raw.rows with
  | [] => ([], raw.stop)
  | header :: rest =>
    match validateHeader s header with
    | .error e => ([], some e)
    | .ok header => readRows s header raw.stop 1 rest

def noDataRows : ReadError := .value "file has no data rows - upload a file with at least one row"

/-! ## The campaign importer -/

/-- The texts of a row that are stored. -/
def rowTexts (row : ImportRow) : List String :=
  row.rawPhoneProtected.toList ++ row.phoneFingerprint.toList ++ row.validationDetail.toList ++
    (row.canonicalValues.getD []).flatMap fun kv => [kv.1, kv.2]

def storeRows (rows : List ImportRow) : Txn Unit := do
  refuseNul (rows.flatMap rowTexts)
  addRows rows

/-- `except (ParseLimitExceeded, UnicodeDecodeError, ValueError)`; any other error goes on. -/
def failRead (job : ImportJob) : ReadError → Txn Unit
  | .value text => do
    refuseNul [truncate text 1000]
    failParse job (truncate text 1000) (truncate text 50)
  | .other kind text => raise (.uncaught kind text)

/-- `parse_job`. -/
def parseStored (c : Call) (protect : Protect) (raw : RawFile) (cols : Columns) (id : Uuid) : Txn Unit := do
  match ← selectForUpdate "import_job" .importJob Db.importJobs (fun _ => true) id with
  | none => return
  | some job =>
    if job.state = .quarantined then
      setImportJob id fun j => { j with state := .parsing }
      match ← getRow "campaign" Db.campaigns job.campaignId with
      | none => failParse job "campaign for import job no longer exists" "campaign_missing"
      | some campaign =>
        match readHeader c.settings raw with
        | .error e => failRead job e
        | .ok header =>
          if cols.phone ∉ header then
            failRead job (.value ("phone column '" ++ cols.phone ++ "' not found in file header"))
          else
            let (rows, stop) := parseFile c.settings raw
            let tally ← rows.foldlM (fun (t : Tally) row => do
              let db ← view "classify_row"
              let (r, seen) := classifyRow protect db id campaign cols t.seen (c.uuid4 t.total) row
              return t.add r seen) {}
            match stop with
            | some e =>
              storeRows (flushed tally.rows)
              failRead job e
            | none =>
              storeRows tally.rows
              if tally.total = 0 then failRead job noDataRows
              else
                setImportJob id fun j => { j with
                  totalRows := tally.total, validRows := tally.valid, invalidRows := tally.invalid
                  duplicateRows := tally.duplicates, suppressionHits := tally.suppressed
                  state := .parsed }
                recordAudit {
                  action := "import.parse", actorUserId := job.uploaderId
                  targetType := "import_job", targetId := id
                  eventMetadata := [("total", .num tally.total), ("valid", .num tally.valid),
                    ("invalid", .num tally.invalid)] }
    else return

end Imports

/-! ## The workforce importer -/

namespace WorkforceImports

open Imports (ParsedRow RawFile ReadError readHeader parseFile noDataRows)

/-- The texts that the classification of a row looks up. -/
def lookups (importType : ImportType) (x : Context) (row : ParsedRow) : List String :=
  let action := x.lower (clean row "action")
  let externalId := clean row "external_workforce_id"
  if !validWorkforceId externalId then []
  else match importType with
  | .users =>
    if action ∈ ["create", "update", "reactivate"] ∧ !x.seen.contains externalId then [externalId] else []
  | .explicitDeactivations =>
    if !x.seen.contains externalId ∧ validReasonCode (clean row "reason_code") then [externalId] else []
  | .teamMemberships =>
    let teamCode := clean row "team_code"
    if action ∈ ["add", "end"] ∧ teamCode ≠ "" ∧ !x.seen.contains (externalId ++ ":" ++ teamCode) then
      teamCode :: if (lookupTeam x.call x.db teamCode).isSome then [externalId] else []
    else []
  | .roleAssignments =>
    match roleOf (x.lower (clean row "role_code")), scopeTypeOf (x.lower (clean row "scope_type")) with
    | some role, some scopeType =>
      if action ∈ ["assign", "end"] ∧ validReasonCode (clean row "reason_code") then
        let scope := if scopeType = .team ∧ clean row "scope_code" ≠ "" then [clean row "scope_code"] else []
        scope ++ match rowScope x row scopeType with
          | .error _ => []
          | .ok scopeId =>
            if x.seen.contains (externalId ++ ":" ++ Workforce.roleName role ++ ":" ++
              Workforce.scopeTypeName scopeType ++ ":" ++ idText scopeId) then [] else [externalId]
      else []
    | _, _ => []
  | .reportingAssignments =>
    let supervisorId := clean row "supervisor_workforce_id"
    let cell := match Imports.lookup row.values "action" with
      | some text => if text = "" then "set" else text
      | none => "set"
    if x.lower (Imports.sanitizeText (Imports.strip cell)) = "set" ∧ validWorkforceId supervisorId ∧
        externalId ≠ supervisorId ∧ !x.seen.contains externalId then
      externalId :: if (lookupUserId x.db externalId).isSome then [supervisorId] else []
    else []
  | .campaignUserAssignments =>
    let campaignCode := clean row "campaign_code"
    let teamCode := clean row "team_code"
    if action ∈ ["assign", "end"] ∧ campaignCode ≠ "" ∧
        !x.seen.contains (externalId ++ ":" ++ campaignCode ++ ":" ++ action) then
      campaignCode :: if (lookupCampaign x.call x.db campaignCode).isSome then
        externalId :: if (lookupUserId x.db externalId).isSome ∧ teamCode ≠ "" then [teamCode] else []
      else []
    else []

/-- What the parser does with the next row; row `n` of the file gets the identifier `c.uuid4 n`. -/
def classifyNext (c : Call) (lower : String → String) (job : WorkforceImportJob) (t : Tally)
    (row : ParsedRow) : Txn Tally := do
  let db ← view "classify"
  refuseNul (lookups job.importType { call := c, lower := lower, db := db, seen := t.seen } row)
  parseRow c lower job t row

/-- The texts of a row that are stored. -/
def rowTexts (row : WorkforceImportRow) : List String :=
  let values := row.parsedValues.getD {}
  row.action.toList ++ row.externalWorkforceId.toList ++ row.validationDetail.toList ++
    values.loginIdentifier.toList ++ values.displayName.toList ++ values.reasonCode.toList

/-- `action` is a `String(20)`. -/
def actionTooLong (row : WorkforceImportRow) : Bool := row.action.any fun action => 20 < action.length

def storeRows (rows : List WorkforceImportRow) : Txn Unit := do
  raiseIf (rows.any actionTooLong) (tooLong 20)
  refuseNul (rows.flatMap rowTexts)
  addWorkforceRows rows

/-- `except (ParseLimitExceeded, UnicodeDecodeError, ValueError)`; any other error goes on. -/
def failRead (job : WorkforceImportJob) : ReadError → Txn Unit
  | .value text => do
    refuseNul [truncate text 1000]
    failParse job text
  | .other kind text => raise (.uncaught kind text)

/-- The check of the header against the columns of the import type. -/
def checkHeader (importType : ImportType) (header : List String) : Option ReadError :=
  let missing := (requiredColumns importType).filter fun k => !header.contains k
  let unknown := header.dedup.filter fun k => !(allowedColumns importType).contains k
  if missing ≠ [] then
    some (.value ("file header is missing required column(s): " ++ Workforce.joinSorted missing ++
      " - download the current template"))
  else if unknown ≠ [] then
    some (.value ("file header has unrecognized column(s): " ++ Workforce.joinSorted unknown ++
      " - download the current template"))
  else none

/-- `parse_job`; `lower` is `str.lower`. -/
def parseStored (c : Call) (lower : String → String) (raw : RawFile) (id : Uuid) : Txn Unit := do
  match ← selectForUpdate "workforce_import_job" .workforceJob Db.workforceJobs (fun _ => true) id with
  | none => return
  | some job =>
    if job.state = .quarantined then
      setWorkforceJob id fun j => { j with state := .parsing }
      match readHeader c.settings raw with
      | .error e => failRead job e
      | .ok header =>
        match checkHeader job.importType header with
        | some e => failRead job e
        | none =>
          let (rows, stop) := parseFile c.settings raw
          let tally ← rows.foldlM (classifyNext c lower job) {}
          match stop with
          | some e =>
            storeRows (flushed tally.rows)
            failRead job e
          | none =>
            storeRows tally.rows
            if tally.total = 0 then failRead job noDataRows
            else
              setWorkforceJob id (parsed tally)
              recordAudit (jobEvent "workforce_import.parse" job.uploaderId id none
                [("total", .num tally.total), ("valid", .num tally.valid), ("invalid", .num tally.invalid),
                  ("high_risk", .num tally.highRisk)])
              notifyPendingApprovers c (parsed tally job)
    else return

end WorkforceImports

end OmniDB
