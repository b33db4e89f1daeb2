import OmniDB.Spec.Authz

/-! Campaign imports, `app/imports` and the commit request of `app/api/campaigns.py`.
The stored file is what its parser yields; `protect` is the phone library. -/

namespace OmniDB.Imports

open Tx
open Tx.Prog (view update acquire raise raiseIf expect)

def campaignImportEnabled : String := "campaign_import_enabled"

/-- `ParsedRow`. -/
structure ParsedRow where
  rowNumber : ℕ
  values : List (String × String)

/-- A stored file: its header, the rows its parser yields, and the error at which the
parser stops. -/
structure SourceFile where
  header : List String
  rows : List ParsedRow
  failure : Option String := none

/-- `protect`: ciphertext and fingerprint of a raw number, or the parse error. -/
abbrev Protect := String → String → Except String (String × Fingerprint)

/-! ## Upload and parse -/

/-- `create_import_job`, for a file that passed validation. -/
def createImportJob (c : Call) (campaign uploader : Uuid) (filename storageKey fileHash : String)
    (size : ℤ) (extension : String) : Txn ImportJob := do
  requireEnabled campaignImportEnabled
  let job : ImportJob := {
    id := c.uuid4 0
    campaignId := campaign
    uploaderId := uploader
    sourceFilenameDisplay := filename
    generatedStorageKey := storageKey
    fileHash := fileHash
    state := .quarantined
    expiresAt := some (c.utcnow 0 + hours c.settings.importExpiryHours) }
  insertRow "import_jobs" .importJob Db.importJobs
    (fun j db => { db with importJobs := db.importJobs ++ [j] }) job
  recordAudit {
    action := "import.upload", actorUserId := uploader, targetType := "import_job"
    targetId := job.id
    eventMetadata := [("file_hash", .text fileHash), ("size", .num size),
      ("extension", .text extension)] }
  return job

def setImportJob (id : Uuid) (f : ImportJob → ImportJob) : Txn Unit := do
  acquire (.importJob id)
  update fun db => { db with importJobs := Table.modify db.importJobs id f }

/-- `row.values.get(column)`. -/
def lookup (values : List (String × String)) (column : String) : Option String :=
  (values.find? fun kv => kv.1 = column).map Prod.snd

/-- `text.strip()`. -/
def strip (text : String) : String :=
  String.ofList ((((text.toList.dropWhile isSpace).reverse).dropWhile isSpace).reverse)

/-- `_FORMULA_LIKE_PREFIXES`. -/
def formulaLikePrefixes : List Char := ['=', '+', '-', '@', '\t', '\r']

def sanitizeText (value : String) : String :=
  if value.toList.head?.any formulaLikePrefixes.contains then "'" ++ value else value

/-- `canonical[key] = value`. -/
def setKey (m : Metadata) (key value : String) : Metadata :=
  if (lookup m key).isSome then m.map fun kv => if kv.1 = key then (key, value) else kv
  else m ++ [(key, value)]

/-- Copy one nonempty cell. -/
def copyCell (values : List (String × String)) (m : Metadata) (key column : String) : Metadata :=
  match lookup values column with
  | some v => if v = "" then m else setKey m key (sanitizeText (strip v))
  | none => m

def alreadyInCampaign (db : Db) (campaign contact : Uuid) : Bool :=
  db.campaignContacts.any fun cc => cc.campaignId = campaign && cc.contactId = contact

def contactByFingerprint (db : Db) (phone : Fingerprint) : Option Contact :=
  db.contacts.find? fun k => k.phoneFingerprint = phone

structure Columns where
  phone : String
  name : Option String := none
  metadata : List String := []

def invalidRow (id job : Uuid) (rowNumber : ℕ) (detail : String) : ImportRow where
  id := id
  importJobId := job
  rowNumber := rowNumber
  validationResult := .invalid
  validationDetail := some detail

/-- `classify_row`; `seen` are the fingerprints of the rows before. -/
def classifyRow (protect : Protect) (db : Db) (job : Uuid) (campaign : Campaign) (cols : Columns)
    (seen : List Fingerprint) (id : Uuid) (row : ParsedRow) : ImportRow × List Fingerprint :=
  let raw := strip ((lookup row.values cols.phone).getD "")
  if raw = "" then (invalidRow id job row.rowNumber "missing phone value", seen)
  else match protect raw campaign.defaultRegion with
    | .error e => (invalidRow id job row.rowNumber (truncate e 200), seen)
    | .ok (ciphertext, phone) =>
      let duplicate :=
        if seen.contains phone then some "in_file"
        else if ((contactByFingerprint db phone).any fun k => alreadyInCampaign db campaign.id k.id)
          then some "in_campaign" else none
      let named := match cols.name with
        | some column => copyCell row.values [] "name" column
        | none => []
      let canonical := cols.metadata.foldl (fun m col => copyCell row.values m col col) named
      ({ id := id
         importJobId := job
         rowNumber := row.rowNumber
         rawPhoneProtected := some ciphertext
         phoneFingerprint := some phone
         canonicalValues := if canonical.isEmpty then none else some canonical
         validationResult := .valid
         duplicateCategory := duplicate
         suppressionMatch := db.suppressed phone }, phone :: seen)

/-- The rows of a file with the fingerprints seen so far, and the counters. -/
structure Tally where
  rows : List ImportRow := []
  seen : List Fingerprint := []
  total : ℕ := 0
  valid : ℕ := 0
  invalid : ℕ := 0
  duplicates : ℕ := 0
  suppressed : ℕ := 0

def Tally.add (t : Tally) (row : ImportRow) (seen : List Fingerprint) : Tally :=
  let t := { t with rows := t.rows ++ [row], seen := seen, total := t.total + 1 }
  if row.validationResult = .invalid then { t with invalid := t.invalid + 1 }
  else if row.duplicateCategory.isSome then { t with duplicates := t.duplicates + 1 }
  else { t with
    valid := t.valid + 1
    suppressed := if row.suppressionMatch then t.suppressed + 1 else t.suppressed }

def parseBatchSize : ℕ := 500

/-- The rows that are flushed when the parser stops with an error: full batches. -/
def flushed (rows : List ImportRow) : List ImportRow :=
  rows.take (rows.length / parseBatchSize * parseBatchSize)

def failParse (job : ImportJob) (error : String) (reason : String) : Txn Unit := do
  setImportJob job.id fun j => { j with state := .failed, errorSummary := some error }
  recordAudit {
    action := "import.parse", actorUserId := job.uploaderId, targetType := "import_job"
    targetId := job.id, reasonCode := reason }

def addRows (rows : List ImportRow) : Txn Unit :=
  update fun db => { db with importRows := db.importRows ++ rows }

/-- `parse_job`; row `n` of the file gets the identifier `c.uuid4 n`. -/
def parseJob (c : Call) (protect : Protect) (file : SourceFile) (cols : Columns) (id : Uuid) :
    Txn Unit := do
  match ← selectForUpdate "import_job" .importJob Db.importJobs (fun _ => true) id with
  | none => return
  | some job =>
    if job.state = .quarantined then
      setImportJob id fun j => { j with state := .parsing }
      match ← getRow "campaign" Db.campaigns job.campaignId with
      | none => failParse job "campaign for import job no longer exists" "campaign_missing"
      | some campaign =>
        if cols.phone ∉ file.header then
          let e := "phone column '" ++ cols.phone ++ "' not found in file header"
          failParse job (truncate e 1000) (truncate e 50)
        else
          let tally ← file.rows.foldlM (fun (t : Tally) row => do
            let db ← view "classify_row"
            let (r, seen) := classifyRow protect db id campaign cols t.seen (c.uuid4 t.total) row
            return t.add r seen) {}
          match file.failure with
          | some e =>
            addRows (flushed tally.rows)
            failParse job (truncate e 1000) (truncate e 50)
          | none =>
            addRows tally.rows
            if tally.total = 0 then
              let e := "file has no data rows - upload a file with at least one row"
              failParse job (truncate e 1000) (truncate e 50)
            else
              setImportJob id fun j => { j with
                totalRows := tally.total, validRows := tally.valid, invalidRows := tally.invalid
                duplicateRows := tally.duplicates, suppressionHits := tally.suppressed
                state := .parsed }
              recordAudit {
                action := "import.parse", actorUserId := job.uploaderId
                targetType := "import_job", targetId := id
                eventMetadata := [("total", .num tally.total), ("valid", .num tally.valid),
                  ("invalid", .num tally.invalid)] }
    else return

/-! ## Decision -/

def decisionName : Decision → String
  | .approve => "approve"
  | .reject => "reject"
  | .cancel => "cancel"

/-- `record_decision`, on the job as the request loaded it. -/
def recordDecision (c : Call) (job : ImportJob) (decidedBy : Uuid) (decision : Decision)
    (note : Option String) : Txn ImportDecision := do
  let row : ImportDecision := {
    id := c.uuid4 0
    importJobId := job.id
    decisionVersion := job.decisionVersion + 1
    decision := decision
    decidedBy := decidedBy
    note := note
    createdAt := c.utcnow 0 }
  setImportJob job.id fun j => { j with decisionVersion := row.decisionVersion }
  update fun db => { db with importDecisions := db.importDecisions ++ [row] }
  recordAudit {
    action := "import.decide", actorUserId := decidedBy, targetType := "import_job"
    targetId := job.id, reasonCode := decisionName decision }
  return row

/-- `_latest_decision`. -/
def latestDecision (c : Call) (db : Db) (job : ImportJob) : Option ImportDecision :=
  newest c ImportDecision.createdAt (db.importDecisions.filter fun d =>
    d.importJobId = job.id && d.decisionVersion = job.decisionVersion)

/-! ## Commit -/

/-- `_assert_provenance`: the names of the missing fields, in source order. -/
def missingProvenance (campaign : Campaign) : List String :=
  let text (name : String) (v : Option String) := if v.all (· = "") then [name] else []
  text "data_source" campaign.dataSource ++ text "purpose" campaign.purpose ++
    (if campaign.dataObtainedAt.isNone then ["data_obtained_at"] else []) ++
    text "lawful_basis_or_consent_reference" campaign.lawfulBasisOrConsentReference

def assertProvenance (campaign : Campaign) : Txn Unit :=
  raiseIf (missingProvenance campaign ≠ []) (.missingProvenance
    ("missing required provenance fields: " ++ String.intercalate ", " (missingProvenance campaign)))

def stateName : JobState → String
  | .uploaded => "uploaded"
  | .quarantined => "quarantined"
  | .parsing => "parsing"
  | .parsed => "parsed"
  | .failed => "failed"
  | .committed => "committed"
  | .expired => "expired"

/-- A row `select ... with_for_update()` finds is the object the session already
has, with the attributes that one was loaded with. -/
def identityMap {ρ : Type} [Keyed ρ Uuid] (loaded : Option ρ) (row : ρ) : ρ :=
  match loaded with
  | some r => if key r = key row then r else row
  | none => row

/-- Rows are committed by fingerprint, then by row number. -/
def commitOrder : List ImportRow → List ImportRow :=
  orderBy fun a b =>
    (a.phoneFingerprint.getD "") < (b.phoneFingerprint.getD "") ∨
      (a.phoneFingerprint = b.phoneFingerprint ∧ a.rowNumber ≤ b.rowNumber)

/-- The counters of the commit loop. -/
structure Inserted where
  inserted : ℕ := 0
  suppressed : ℕ := 0
  /-- How many identifiers the loop has drawn. -/
  drawn : ℕ := 0

def insertContact (k : Contact) : Txn Unit :=
  insertRow "contacts" .contact Db.contacts Db.addContact k

def insertCampaignContact (cc : CampaignContact) : Txn Unit :=
  insertRow "campaign_contacts" .campaignContact Db.campaignContacts Db.addCampaignContact cc

def insertWorkItem (w : WorkItem) : Txn Unit :=
  insertRow "work_items" .workItem Db.workItems Db.addWorkItem w

/-- The contact of a row, reused or inserted; `none` when it is in the campaign already. -/
def rowContact (c : Call) (campaign : Uuid) (phone : Fingerprint) (ciphertext : String) (n : ℕ) :
    Txn (Option Uuid) := do
  let db ← view "contact by fingerprint"
  match contactByFingerprint db phone with
  | none =>
    insertContact {
      id := c.uuid4 n, phoneCiphertext := ciphertext, phoneFingerprint := phone
      phoneKeyVersion := c.settings.phoneFingerprintKeyVersion }
    return some (c.uuid4 n)
  | some contact =>
    let db ← view "already_in_campaign"
    return if alreadyInCampaign db campaign contact.id then none else some contact.id

/-- One row of the commit loop. -/
def commitRow (c : Call) (campaign : Uuid) (now : Time) (acc : Inserted) (row : ImportRow) :
    Txn Inserted := do
  match row.phoneFingerprint, row.rawPhoneProtected with
  | some phone, some ciphertext =>
    acquire (.phone phone)
    match ← rowContact c campaign phone ciphertext acc.drawn with
    | none => return acc
    | some contact =>
      let db ← view "is_suppressed"
      let suppressed := db.suppressed phone
      let ccId := c.uuid4 (acc.drawn + 1)
      insertCampaignContact {
        id := ccId
        campaignId := campaign
        contactId := contact
        originalPhoneProtected := some ciphertext
        campaignNameValue := lookup (row.canonicalValues.getD []) "name"
        approvedMetadata := row.canonicalValues
        sourceRowReference := some (toString row.rowNumber)
        status := if suppressed then .suppressed else .queued
        importedAt := now }
      if suppressed then
        return { inserted := acc.inserted + 1, suppressed := acc.suppressed + 1
                 drawn := acc.drawn + 3 }
      else
        insertWorkItem { id := c.uuid4 (acc.drawn + 2), campaignContactId := ccId, createdAt := now }
        return { acc with inserted := acc.inserted + 1, drawn := acc.drawn + 3 }
  | _, _ => return acc

structure CommitRequest where
  jobId : Uuid
  actorId : Uuid
  decisionVersion : ℤ
  idempotencyKey : String

/-- The columns of a job that its commit writes. -/
def committed (now : Time) (idempotencyKey : String) (result : ImportResult) (job : ImportJob) : ImportJob :=
  { job with
    state := .committed, committedAt := some now, idempotencyKey := some idempotencyKey
    committedResult := some result }

/-- The rows of a job that its commit inserts, unless they are in the campaign by then. -/
def committable (db : Db) (job : Uuid) : List ImportRow :=
  db.importRows.filter fun row =>
    row.importJobId = job && row.validationResult = .valid && row.duplicateCategory.isNone

/-- The import itself, once the state of the job has been checked. -/
def commitParsed (c : Call) (r : CommitRequest) (job : ImportJob) (loadedCampaign : Option Campaign) :
    Txn ImportResult := do
  let db ← view "_latest_decision"
  raiseIf ((latestDecision c db job).map ImportDecision.decision ≠ some .approve)
    (.importNotReady "import has not been approved for commit")
  let row ← expect
    (← selectForUpdate "campaign" .campaign Db.campaigns (fun _ => true) job.campaignId)
    .noResultFound
  let campaign := identityMap loadedCampaign row
  assertProvenance campaign
  let db ← view "import rows"
  let now := c.utcnow 0
  let acc ← (commitOrder (committable db job.id)).foldlM (commitRow c campaign.id now) {}
  let result : ImportResult := ⟨job.id, acc.inserted, acc.suppressed⟩
  setImportJob job.id (committed now r.idempotencyKey result)
  recordAudit {
    action := "import.commit", actorUserId := r.actorId, targetType := "import_job"
    targetId := job.id
    eventMetadata := [("job_id", .uuid result.jobId), ("inserted", .num result.inserted),
      ("suppressed", .num result.suppressed)] }
  return result

/-- `commit_job`. `loadedJob` and `loadedCampaign` are the objects the session has
already loaded. -/
def commitJob (c : Call) (r : CommitRequest) (loadedJob : Option ImportJob)
    (loadedCampaign : Option Campaign) : Txn ImportResult := do
  let row ← expect
    (← selectForUpdate "import_job for update" .importJob Db.importJobs (fun _ => true) r.jobId)
    (.importNotReady "import job not found")
  let job := identityMap loadedJob row
  if job.state = .committed then
    raiseIf (job.idempotencyKey ≠ some r.idempotencyKey)
      (.importNotReady "import already committed under a different idempotency key")
    return job.committedResult.getD ⟨job.id, 0, 0⟩
  else
    raiseIf (job.state ≠ .parsed)
      (.importNotReady ("import job is not ready to commit (state=" ++ stateName job.state ++ ")"))
    raiseIf (job.decisionVersion ≠ r.decisionVersion)
      (.staleDecisionVersion "decision version is stale; re-review the preview")
    commitParsed c r job loadedCampaign

/-- `POST /imports/{import_id}/commit`: the request loads the job and its campaign
before it commits the job in the same session. -/
def commitImport (c : Call) (r : CommitRequest) : Txn ImportResult := do
  let job ← expect (← getRow "import job" Db.importJobs r.jobId)
    (.http 404 "import job not found")
  let campaign ← expect (← getRow "campaign" Db.campaigns job.campaignId)
    (.http 404 "campaign not found")
  let db ← view "has_campaign_capability"
  raiseIf (!Authz.hasCampaignCapability db (c.utcnow 1) r.actorId .manageCampaign campaign.id)
    (.http 403 "not authorized")
  commitJob c r (some job) (some campaign)

/-- `cleanup_expired_jobs`. -/
def cleanupExpiredJobs (c : Call) : Txn ℕ := do
  let now := c.utcnow 0
  let db ← view "cleanup_expired_jobs"
  let expired := scan c (db.importJobs.filter fun j => j.expiresAt.any fun t => t < now)
  expired.foldlM (fun count job => do
    if job.state = .committed then setImportJob job.id fun j => { j with expiresAt := none }
    else
      update fun db => { db with importRows := db.importRows.filter fun r => r.importJobId ≠ job.id }
      setImportJob job.id fun j => { j with state := .expired }
    return count + 1) 0

end OmniDB.Imports
