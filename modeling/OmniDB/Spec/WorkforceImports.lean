import OmniDB.Spec.WorkforceRows

/-! Bulk workforce imports, `app/workforce_imports/service.py` and the requests of
`app/api/workforce_imports.py`: upload, parse, decide, commit, reverse, clean up. -/

namespace OmniDB.WorkforceImports

open Tx
open Tx.Prog (view update acquire raise raiseIf expect ofExcept handle)
open Workforce (appointmentCapabilities workforceEvent)

def workforceImportEnabled : String := "workforce_import_enabled"
def deferredBulkActivationEnabled : String := "deferred_bulk_activation_enabled"

/-- `UPLOAD_CAPABILITIES`. -/
def uploadCapabilities : List Capability := appointmentCapabilities ++ [.assignCampaignAgent]

def importTypeName : ImportType → String
  | .users => "users"
  | .explicitDeactivations => "explicit_deactivations"
  | .teamMemberships => "team_memberships"
  | .roleAssignments => "role_assignments"
  | .reportingAssignments => "reporting_assignments"
  | .campaignUserAssignments => "campaign_user_assignments"

def outcomeName : Outcome → String
  | .created => "created"
  | .updated => "updated"
  | .reactivated => "reactivated"
  | .deactivated => "deactivated"
  | .added => "added"
  | .ended => "ended"
  | .assigned => "assigned"
  | .set => "set"
  | .skippedConflict => "skipped_conflict"
  | .restored => "restored"

def entityTypeName : EntityType → String
  | .user => "user"
  | .teamMembership => "team_membership"
  | .roleAssignment => "role_assignment"
  | .reportingAssignment => "reporting_assignment"
  | .campaignUserAssignment => "campaign_user_assignment"

def setWorkforceJob (id : Uuid) (f : WorkforceImportJob → WorkforceImportJob) : Txn Unit := do
  acquire (.workforceJob id)
  update fun db => { db with workforceJobs := Table.modify db.workforceJobs id f }

def setWorkforceRow (id : Uuid) (f : WorkforceImportRow → WorkforceImportRow) : Txn Unit :=
  update fun db => { db with workforceRows := Table.modify db.workforceRows id f }

def addWorkforceRows (rows : List WorkforceImportRow) : Txn Unit :=
  update fun db => { db with workforceRows := db.workforceRows ++ rows }

/-- An audit event about a job. -/
def jobEvent (action : String) (actor job : Uuid) (reason : Option String)
    (details : List (String × MetaValue)) : AuditEvent :=
  workforceEvent action actor "workforce_import_job" job reason details

/-- A notification about a job. -/
def jobNotification (recipient : Uuid) (category title : String) (job : Uuid) : Notification where
  recipientUserId := recipient
  category := category
  title := title
  relatedEntityType := some "workforce_import_job"
  relatedEntityId := some job

/-! ## Upload -/

/-- `create_import_job`, for a file that passed validation. -/
def createImportJob (c : Call) (importType : ImportType) (uploader : Uuid)
    (filename fileHash : String) (size : ℤ) : Txn WorkforceImportJob := do
  requireEnabled workforceImportEnabled
  let job : WorkforceImportJob := {
    id := c.uuid4 0
    importType := importType
    uploaderId := uploader
    sourceFilenameDisplay := filename
    expiresAt := some (c.utcnow 0 + hours c.settings.importExpiryHours)
    createdAt := c.utcnow 2 }
  insertRow "workforce_import_jobs" .workforceJob Db.workforceJobs
    (fun j db => { db with workforceJobs := db.workforceJobs ++ [j] }) job
  recordAudit (jobEvent "workforce_import.upload" uploader job.id none
    [("import_type", .text (importTypeName importType)), ("file_hash", .text fileHash), ("size", .num size)])
  return job

/-! ## Access -/

/-- The rows of a job. -/
def jobRows (db : Db) (job : Uuid) : List WorkforceImportRow :=
  db.workforceRows.filter fun r => r.importJobId = job

/-- `_committable_rows` of one risk level. -/
def committableRows (db : Db) (job : Uuid) (risk : RiskLevel) : List WorkforceImportRow :=
  (jobRows db job).filter fun r => r.validationResult = .valid && r.riskLevel = risk

/-- The check of `_assert_rows_authorized`. -/
def rowsAuthorized (db : Db) (now : Time) (job : WorkforceImportJob) (actor : Uuid) (risk : RiskLevel) : Bool :=
  authorityOverRequirements db now actor
    ((committableRows db job.id risk).map (rowRequirement job.importType))

/-- `_assert_rows_authorized`. -/
def assertRowsAuthorized (now : Time) (job : WorkforceImportJob) (actor : Uuid) (risk : RiskLevel) :
    Txn Unit := do
  let db ← view "_assert_rows_authorized"
  raiseIf (!rowsAuthorized db now job actor risk) (.insufficientApprovalAuthority
    "not authorized for the effect of one or more rows in this import")

/-- The entries of a stored footprint. -/
def storedRequirements (footprint : Footprint) : Except Err (List (Option Requirement)) :=
  footprint.requirements.mapM fun entry =>
    match deserializeRequirement entry with
    | some r => .ok (some r)
    | none => .error (.valueError "unrecognized stored requirement")

/-- `_job_access_requirements`; `none` is a job no one but its uploader may access. -/
def jobAccessRequirements (db : Db) (job : WorkforceImportJob) :
    Except Err (Option (List (Option Requirement))) :=
  let fromRows : Option (List (Option Requirement)) :=
    if job.state ≠ .parsed then none
    else if jobRows db job.id = [] then none
    else some ((jobRows db job.id).map (rowRequirement job.importType))
  match job.authorizationFootprint with
  | some footprint => if footprint.overCap then .ok fromRows else some <$> storedRequirements footprint
  | none => .ok fromRows

/-- `can_access_job`. -/
def canAccessJob (db : Db) (now : Time) (actor : Uuid) (job : WorkforceImportJob) : Except Err Bool :=
  if actor = job.uploaderId then .ok true
  else (jobAccessRequirements db job).map fun requirements =>
    requirements.any (authorityOverRequirements db now actor)

/-- `_assert_job_accessible`. -/
def assertJobAccessible (now : Time) (job : WorkforceImportJob) (actor : Uuid) : Txn Unit := do
  let db ← view "can_access_job"
  let accessible ← ofExcept (canAccessJob db now actor job)
  raiseIf (!accessible) (.insufficientApprovalAuthority "not authorized for this import job")

/-! ## The list -/

/-- The jobs of the list, newest first. -/
def newestJobs (c : Call) : List WorkforceImportJob → List WorkforceImportJob :=
  orderBy fun a b => toLex (-a.createdAt, c.rank a.id) ≤ toLex (-b.createdAt, c.rank b.id)

/-- The loop of `visible_jobs`: it stops when `limit` jobs are listed. -/
def listJobs (accessible : WorkforceImportJob → Bool) (limit : ℤ) :
    List WorkforceImportJob → List WorkforceImportJob → List WorkforceImportJob
  | [], visible => visible
  | job :: jobs, visible =>
    if accessible job then
      let visible := visible ++ [job]
      if limit ≤ visible.length then visible else listJobs accessible limit jobs visible
    else listJobs accessible limit jobs visible

/-- `visible_jobs`: one resolution for the union of what the candidates require. -/
def visibleJobs (c : Call) (db : Db) (actor : Uuid) (limit : ℤ) (candidateLimit : ℕ) :
    Except Err (List WorkforceImportJob) := do
  let candidates := (newestJobs c db.workforceJobs).take candidateLimit
  let requirements ← (candidates.filter fun job => job.uploaderId ≠ actor).mapM fun job => do
    return (job.id, ← jobAccessRequirements db job)
  let union := (requirements.filterMap Prod.snd).flatten
  let satisfied := satisfiedAuthority authorityChunkSize Authz.bulkChunkSize db (c.utcnow 0) actor
    (distinctTargets union) (distinctScopes union) (distinctCampaigns union)
  let accessible := fun job : WorkforceImportJob => job.uploaderId = actor ||
    ((requirements.lookup job.id).join).any fun r => requirementsSatisfied r satisfied
  return listJobs accessible limit candidates []

/-! ## Approvers -/

/-- `_assert_qualified_high_risk_approver`. -/
def assertQualifiedHighRiskApprover (now : Time) (job : WorkforceImportJob) (approver : Uuid) : Txn Unit := do
  raiseIf (approver = job.uploaderId) (.selfApproval "the uploader cannot also approve a high-risk import")
  assertRowsAuthorized now job approver .highRisk

/-- The title under which a job asks for a review. -/
def reviewTitle (job : WorkforceImportJob) : String :=
  "An import needs your review: “" ++ job.sourceFilenameDisplay ++ "”"

/-- `notify_pending_approvers`. -/
def notifyPendingApprovers (c : Call) (job : WorkforceImportJob) : Txn Unit := do
  let db ← view "notify_pending_approvers"
  if 0 < job.highRiskRows ∨ !rowsAuthorized db (c.utcnow 0) job job.uploaderId .routine then
    (Authz.usersWithAnyCapability db (c.utcnow 1) uploadCapabilities).forM fun candidate => do
      if candidate = job.uploaderId then return
      if ← ofExcept (canAccessJob db (c.utcnow 2) candidate job) then
        notify (jobNotification candidate "workforce_import.needs_review" (reviewTitle job) job.id)

/-! ## Parse -/

/-- `_REQUIREMENTS_CAP`. -/
def requirementsCap : ℕ := 10000

/-- The rows of a file with the keys seen so far, the counters and the requirements. -/
structure Tally where
  rows : List WorkforceImportRow := []
  seen : List String := []
  total : ℕ := 0
  valid : ℕ := 0
  warning : ℕ := 0
  invalid : ℕ := 0
  highRisk : ℕ := 0
  requirements : List Requirement := []
  overCap : Bool := false

/-- The row of a classification. -/
def importRow (id job : Uuid) (cl : Classification) : WorkforceImportRow where
  id := id
  importJobId := job
  rowNumber := cl.rowNumber
  action := cl.action
  externalWorkforceId := cl.externalWorkforceId
  normalizedIdentity := cl.normalizedIdentity
  parsedValues := cl.parsedValues
  validationResult := cl.validationResult
  validationDetail := cl.validationDetail
  conflictType := cl.conflictType
  riskLevel := cl.riskLevel

/-- The requirement joins the footprint unless the cap is passed. -/
def Tally.require (t : Tally) : Option Requirement → Tally
  | none => t
  | some r =>
    if t.overCap then t
    else
      let requirements := if t.requirements.contains r then t.requirements else t.requirements ++ [r]
      if requirementsCap < requirements.length then { t with overCap := true, requirements := [] }
      else { t with requirements := requirements }

/-- The counters of one row. A high-risk row counts only when it is valid. -/
def Tally.count (t : Tally) (row : WorkforceImportRow) : Tally :=
  let highRisk := if row.riskLevel = .highRisk ∧ row.validationResult = .valid then t.highRisk + 1
    else t.highRisk
  let t := { t with highRisk := highRisk }
  match row.validationResult with
  | .invalid => { t with invalid := t.invalid + 1 }
  | .warning => { t with warning := t.warning + 1 }
  | .valid => { t with valid := t.valid + 1 }

def Tally.add (t : Tally) (importType : ImportType) (row : WorkforceImportRow) (seen : List String) : Tally :=
  (({ t with rows := t.rows ++ [row], seen := seen, total := t.total + 1 }).require
    (rowRequirement importType row)).count row

/-- `_PARSE_BATCH_SIZE`: the rows that are flushed when the parser stops with an error. -/
def flushed (rows : List WorkforceImportRow) : List WorkforceImportRow :=
  rows.take (rows.length / 500 * 500)

def failParse (job : WorkforceImportJob) (error : String) : Txn Unit := do
  setWorkforceJob job.id fun j => { j with state := .failed, errorSummary := some (truncate error 1000) }
  recordAudit (jobEvent "workforce_import.parse" job.uploaderId job.id (some (truncate error 50)) [])

/-- The columns of a job that its parse writes. -/
def parsed (t : Tally) (job : WorkforceImportJob) : WorkforceImportJob :=
  { job with
    totalRows := t.total, validRows := t.valid, warningRows := t.warning, invalidRows := t.invalid
    highRiskRows := t.highRisk
    authorizationFootprint := some ⟨t.overCap, t.requirements.map serializeRequirement⟩
    state := .parsed }

/-- What the parser does with the next row; row `n` of the file gets the identifier `c.uuid4 n`. -/
def parseRow (c : Call) (lower : String → String) (job : WorkforceImportJob) (t : Tally)
    (row : Imports.ParsedRow) : Txn Tally := do
  let db ← view "classify"
  let (cl, seen) := classifier job.importType { call := c, lower := lower, db := db, seen := t.seen } row
  return t.add job.importType (importRow (c.uuid4 t.total) job.id cl) seen

/-- `parse_job`; `lower` is `str.lower`. -/
def parseJob (c : Call) (lower : String → String) (file : Imports.SourceFile) (id : Uuid) : Txn Unit := do
  match ← selectForUpdate "workforce_import_job" .workforceJob Db.workforceJobs (fun _ => true) id with
  | none => return
  | some job =>
    if job.state = .quarantined then
      setWorkforceJob id fun j => { j with state := .parsing }
      let missing := (requiredColumns job.importType).filter fun k => !file.header.contains k
      let unknown := file.header.dedup.filter fun k => !(allowedColumns job.importType).contains k
      if missing ≠ [] then
        failParse job ("file header is missing required column(s): " ++ Workforce.joinSorted missing ++
          " - download the current template")
      else if unknown ≠ [] then
        failParse job ("file header has unrecognized column(s): " ++ Workforce.joinSorted unknown ++
          " - download the current template")
      else
        let tally ← file.rows.foldlM (parseRow c lower job) {}
        match file.failure with
        | some e =>
          addWorkforceRows (flushed tally.rows)
          failParse job e
        | none =>
          addWorkforceRows tally.rows
          if tally.total = 0 then
            failParse job "file has no data rows - upload a file with at least one row"
          else
            setWorkforceJob id (parsed tally)
            recordAudit (jobEvent "workforce_import.parse" job.uploaderId id none
              [("total", .num tally.total), ("valid", .num tally.valid), ("invalid", .num tally.invalid),
                ("high_risk", .num tally.highRisk)])
            notifyPendingApprovers c (parsed tally job)
    else return

/-! ## Decision -/

def tierName : DecisionTier → String
  | .standard => "standard"
  | .highRisk => "high_risk"

structure DecisionRequest where
  jobId : Uuid
  decidedBy : Uuid
  decision : Decision
  decisionTier : DecisionTier
  note : Option String := none
  acknowledgeWarnings : Bool := false

/-- The checks of an approval: the authority for its tier, then the findings of the parser. -/
def assertApprovable (now : Time) (job : WorkforceImportJob) (r : DecisionRequest) : Txn Unit := do
  match r.decisionTier with
  | .highRisk => assertQualifiedHighRiskApprover now job r.decidedBy
  | .standard => assertRowsAuthorized now job r.decidedBy .routine
  raiseIf (0 < job.invalidRows) (.unresolvedBlockingErrors (toString job.invalidRows ++
    " row(s) have blocking errors - fix and re-upload before this import can be approved"))
  raiseIf (0 < job.warningRows ∧ !r.acknowledgeWarnings) (.warningsNotAcknowledged
    (toString job.warningRows ++ " row(s) have warnings that must be explicitly acknowledged before approval"))

/-- `_DECISION_PAST_TENSE`. -/
def decisionPastTense : Decision → String
  | .approve => "approved"
  | .reject => "rejected"
  | .cancel => "cancelled"

/-- The title under which the uploader is told what happened to the import. -/
def outcomeTitle (job : WorkforceImportJob) (outcome : String) : String :=
  "Your import “" ++ job.sourceFilenameDisplay ++ "” was " ++ outcome

/-- `record_decision`. -/
def recordDecision (c : Call) (r : DecisionRequest) : Txn WorkforceImportDecision := do
  let job ← expect
    (← selectForUpdate "workforce job for decision" .workforceJob Db.workforceJobs (fun _ => true) r.jobId)
    (.importNotReady "import job not found")
  assertJobAccessible (c.utcnow 0) job r.decidedBy
  raiseIf (job.state ≠ .parsed) (.importNotReady
    ("import job is not ready to decide on (state=" ++ Imports.stateName job.state ++ ")"))
  raiseIf (r.decisionTier = .highRisk ∧ job.highRiskRows = 0)
    (.valueError "this import has no high-risk rows to approve")
  if r.decision = .approve then assertApprovable (c.utcnow 1) job r
  let row : WorkforceImportDecision := {
    id := c.uuid4 0
    importJobId := job.id
    decisionVersion := job.decisionVersion + 1
    decision := r.decision
    decisionTier := r.decisionTier
    decidedBy := r.decidedBy
    note := r.note }
  setWorkforceJob job.id fun j => { j with decisionVersion := row.decisionVersion }
  insertRow "workforce_import_decisions" .workforceDecision Db.workforceDecisions
    (fun d db => { db with workforceDecisions := db.workforceDecisions ++ [d] }) row
  recordAudit (jobEvent "workforce_import.decide" r.decidedBy job.id
    (some (Imports.decisionName r.decision)) [("decision_tier", .text (tierName r.decisionTier))])
  if r.decidedBy ≠ job.uploaderId then
    notify (jobNotification job.uploaderId "workforce_import.decision"
      (outcomeTitle job (decisionPastTense r.decision)) job.id)
  return row

/-- `_latest_decision`. -/
def latestDecision (c : Call) (db : Db) (job : Uuid) (tier : DecisionTier) : Option WorkforceImportDecision :=
  newest c WorkforceImportDecision.decisionVersion
    (db.workforceDecisions.filter fun d => d.importJobId = job && d.decisionTier = tier)

/-! ## The rows of a commit -/

/-- What the commit of one row did: its outcome, a one-time token, and the columns it sets. -/
structure RowEffect where
  outcome : Outcome
  token : Option String := none
  change : WorkforceImportRow → WorkforceImportRow

/-- `skipped_conflict`. -/
def skipped (conflict : String) : RowEffect where
  outcome := .skippedConflict
  change r := { r with conflictType := some conflict }

def applied (outcome : Outcome) (entity : EntityType) (id : Uuid) : RowEffect where
  outcome := outcome
  change r := { r with committedEntityType := some entity, committedEntityId := some id }

/-- `except authz.SelfApprovalError` around a call without result. -/
def orSelf {α : Type} (p : Txn α) : Txn (Option α) :=
  (some <$> p).handle fun e => match e with
    | .selfApproval _ => pure none
    | e => raise e

/-- `scalar_one_or_none()` of a locking select. -/
def oneOrNone {ρ : Type} (rows : List ρ) : Txn (Option ρ) :=
  match rows with
  | [] => pure none
  | [r] => pure (some r)
  | _ => raise .multipleResultsFound

/-- `select(User).with_for_update()`, `scalar_one`. -/
def lockUser (id : Uuid) : Txn User := do
  expect (← selectForUpdate "user for update" .user Db.users (fun _ => true) id) .noResultFound

/-- The new identity of a `create` row. -/
def createRowUser (c : Call) (row : WorkforceImportRow) (values : ParsedValues) (actor : Uuid) :
    Txn RowEffect := do
  let db ← view "is_enabled"
  let deferred := db.flag deferredBulkActivationEnabled
  let email ← expect values.loginIdentifier (.keyError "login_identifier")
  let displayName ← expect values.displayName (.keyError "display_name")
  let created ← (some <$> Workforce.createUser c email displayName row.externalWorkforceId actor
      (!deferred)).handle fun e => match e with
    | .duplicateIdentity _ => pure none
    | e => raise e
  match created with
  | none => return skipped "already_exists"
  | some (user, token) =>
    Workforce.setUser user.id fun u => { u with
      startDate := values.startDate.orElse fun _ => u.startDate
      endDate := values.endDate.orElse fun _ => u.endDate }
    return { applied .created .user user.id with token := token }

/-- The fields of the user that an `update` row overwrites. -/
def snapshotOf (values : ParsedValues) (u : User) : Snapshot :=
  .userFields (values.displayName.map fun _ => u.displayName) (values.startDate.map fun _ => u.startDate)
    (values.endDate.map fun _ => u.endDate)

def fileChanges (values : ParsedValues) : Workforce.UserChanges where
  displayName := values.displayName
  startDate := values.startDate.map some
  endDate := values.endDate.map some

/-- `_commit_users_row`. -/
def commitUsersRow (c : Call) (row : WorkforceImportRow) (actor : Uuid) : Txn (Option RowEffect) := do
  let values := row.parsedValues.getD {}
  if row.action = some "create" then return some (← createRowUser c row values actor)
  else
    match row.normalizedIdentity with
    | none => return none
    | some user =>
      let target ← lockUser user
      if row.action = some "update" then
        Workforce.updateUser target (fileChanges values) actor none
        return some { applied .updated .user target.id with
          change := fun r => { r with
            preCommitSnapshot := some (snapshotOf values target)
            committedEntityType := some .user, committedEntityId := some target.id } }
      else if row.action = some "reactivate" then
        if target.active then return some (skipped "already_active")
        Workforce.reactivateUser target actor "bulk_import"
        return some (applied .reactivated .user target.id)
      else return none

/-- `text or "bulk_import"`. -/
def reasonOr (reason : Option String) : String :=
  match reason with
  | some text => if text = "" then "bulk_import" else text
  | none => "bulk_import"

/-- `_commit_deactivation_row`. -/
def commitDeactivationRow (c : Call) (row : WorkforceImportRow) (actor : Uuid) : Txn (Option RowEffect) := do
  match row.normalizedIdentity with
  | none => return none
  | some user =>
    let target ← lockUser user
    if !target.active then return some (skipped "already_inactive")
    let reason := reasonOr (row.parsedValues.getD {}).reasonCode
    match ← orSelf (Workforce.disableUser c target actor reason) with
    | none => return some (skipped "self_target_not_allowed")
    | some _ => return some (applied .deactivated .user target.id)

/-- `_commit_team_membership_row`. -/
def commitTeamMembershipRow (c : Call) (row : WorkforceImportRow) (actor : Uuid) :
    Txn (Option RowEffect) := do
  match row.normalizedIdentity with
  | none => return none
  | some user =>
    let values := row.parsedValues.getD {}
    let teamId ← expect values.teamId (.keyError "team_id")
    match ← getRow "team" Db.teams teamId with
    | none => return some (skipped "unknown_team")
    | some team =>
      let current ← oneOrNone (← lockRows "current membership" false .membership Db.memberships
        (fun _ => Workforce.isMembership team.id user) (scan c))
      if row.action = some "add" then
        if !team.active then return some (skipped "unknown_team")
        if current.isSome then return some (skipped "already_member")
        let m ← Workforce.addTeamMembership c team.id user actor
        return some (applied .added .teamMembership m.id)
      else
        match current with
        | none => return some (skipped "not_a_member")
        | some m =>
          Workforce.endTeamMembership c m actor values.reasonCode
          return some (applied .ended .teamMembership m.id)

/-- `_commit_role_assignment_row`. -/
def commitRoleAssignmentRow (c : Call) (row : WorkforceImportRow) (actor : Uuid) :
    Txn (Option RowEffect) := do
  match row.normalizedIdentity with
  | none => return none
  | some user =>
    let values := row.parsedValues.getD {}
    let role ← expect values.roleCode (.keyError "role_code")
    let scopeType ← expect values.scopeType (.keyError "scope_type")
    let current ← oneOrNone (← lockRows "current grant" false .roleAssignment Db.roleAssignments
      (fun _ => Workforce.isGrant user role scopeType values.scopeId) (scan c))
    if row.action = some "assign" then
      if current.isSome then return some (skipped "already_granted")
      let reason ← expect values.reasonCode (.keyError "reason_code")
      match ← orSelf (Workforce.assignRole c {
          targetUserId := user, roleCode := role, scopeType := scopeType, scopeId := values.scopeId
          reasonCode := some reason } actor) with
      | none => return some (skipped "self_target_not_allowed")
      | some ra => return some (applied .assigned .roleAssignment ra.id)
    else
      match current with
      | none => return some (skipped "not_assigned")
      | some ra =>
        let reason ← expect values.reasonCode (.keyError "reason_code")
        match ← orSelf (Workforce.endRoleAssignment c ra actor reason) with
        | none => return some (skipped "self_target_not_allowed")
        | some _ => return some (applied .ended .roleAssignment ra.id)

/-- `_commit_reporting_assignment_row`. -/
def commitReportingAssignmentRow (c : Call) (row : WorkforceImportRow) (actor : Uuid) :
    Txn (Option RowEffect) := do
  match row.normalizedIdentity with
  | none => return none
  | some user =>
    let values := row.parsedValues.getD {}
    let supervisor ← expect values.supervisorUserId (.keyError "supervisor_user_id")
    let db ← view "supervisor active"
    if !lookupUserActive db supervisor then return some (skipped "unknown_supervisor")
    let db ← view "prior supervisor"
    let prior := currentSupervisor c db user
    if prior = some supervisor then return some (skipped "already_set")
    let line ← (some <$> Workforce.setReportingLine c {
        subordinateUserId := user, supervisorUserId := supervisor
        reasonCode := values.reasonCode } actor).handle fun e => match e with
      | .selfSupervision _ => pure none
      | e => raise e
    match line with
    | none => return some (skipped "self_target_not_allowed")
    | some line =>
      return some { applied .set .reportingAssignment line.id with
        change := fun r => { r with
          preCommitSnapshot := some (.priorSupervisor prior)
          committedEntityType := some .reportingAssignment, committedEntityId := some line.id } }

/-- `assign_agent_to_campaign` of a row, or `none` on a `CampaignAssignmentError`. -/
def tryAssign (c : Call) (campaign : Campaign) (agent : Uuid) (team : Option Uuid) (actor : Uuid) :
    Txn (Option CampaignUserAssignment) :=
  (some <$> Campaigns.assignAgentToCampaign c campaign { agentId := agent, teamId := team } actor).handle
    fun e => match e with
    | .campaignAssignmentError _ => pure none
    | e => raise e

/-- `_commit_campaign_assignment_row`. -/
def commitCampaignAssignmentRow (c : Call) (row : WorkforceImportRow) (actor : Uuid) :
    Txn (Option RowEffect) := do
  match row.normalizedIdentity with
  | none => return none
  | some user =>
    let values := row.parsedValues.getD {}
    let campaignId ← expect values.campaignId (.keyError "campaign_id")
    let campaign ← expect (← getRow "campaign" Db.campaigns campaignId) .noResultFound
    if row.action = some "assign" then
      match ← tryAssign c campaign user values.teamId actor with
      | none => return some (skipped "already_assigned")
      | some a => return some (applied .assigned .campaignUserAssignment a.id)
    else
      let current ← oneOrNone (← lockRows "current assignment" false .userAssignment Db.userAssignments
        (fun _ a => a.campaignId = campaign.id && isPrimaryAssignment user a) (scan c))
      match current with
      | none => return some (skipped "not_assigned")
      | some a =>
        Campaigns.endUserAssignment c a actor values.reasonCode
        return some (applied .ended .campaignUserAssignment a.id)

/-- `_COMMIT_ROW_FUNCTIONS`. -/
def commitRow : ImportType → Call → WorkforceImportRow → Uuid → Txn (Option RowEffect)
  | .users => commitUsersRow
  | .explicitDeactivations => commitDeactivationRow
  | .teamMemberships => commitTeamMembershipRow
  | .roleAssignments => commitRoleAssignmentRow
  | .reportingAssignments => commitReportingAssignmentRow
  | .campaignUserAssignments => commitCampaignAssignmentRow

/-! ## Commit -/

/-- `record_audit` of a row, when it has an entity. -/
def recordRow (action : String) (job : WorkforceImportJob) (row : WorkforceImportRow) (actor : Uuid)
    (outcome : Outcome) : Txn Unit :=
  match row.committedEntityId with
  | none => pure ()
  | some id => recordAudit (workforceEvent action actor
      ((row.committedEntityType.map entityTypeName).getD "None") id none
      [("import_job_id", .uuid job.id), ("import_type", .text (importTypeName job.importType)),
        ("row_number", .num row.rowNumber), ("outcome", .text (outcomeName outcome))])

/-- What the commit loop has collected. -/
structure Committed where
  /-- How many rows are done. -/
  done : ℕ := 0
  outcomes : List (ℕ × Outcome) := []
  activations : List (String × String) := []

/-- The token of a row is returned under its workforce id. -/
def Committed.add (acc : Committed) (row : WorkforceImportRow) (effect : RowEffect) : Committed where
  done := acc.done + 1
  outcomes := acc.outcomes ++ [(row.rowNumber, effect.outcome)]
  activations := match effect.token, row.externalWorkforceId with
    | some token, some id => Imports.setKey acc.activations id token
    | _, _ => acc.activations

/-- The approver a row is committed for. -/
def rowActor (standard : Uuid) (highRisk : Option Uuid) (row : WorkforceImportRow) : Uuid :=
  if row.riskLevel = .highRisk then highRisk.getD standard else standard

/-- One row of the commit loop. -/
def commitStep (c : Call) (job : WorkforceImportJob) (standard : Uuid) (highRisk : Option Uuid)
    (acc : Committed) (row : WorkforceImportRow) : Txn Committed := do
  let actor := rowActor standard highRisk row
  match ← commitRow job.importType (c.block (acc.done + 1)) row actor with
  | none => return { acc with done := acc.done + 1 }
  | some effect =>
    setWorkforceRow row.id effect.change
    recordRow "workforce_import.row_commit" job (effect.change row) actor effect.outcome
    return acc.add row effect

structure CommitRequest where
  jobId : Uuid
  actorId : Uuid
  decisionVersion : ℤ
  idempotencyKey : String

structure CommitResult where
  jobId : Uuid
  outcomes : List (ℕ × Outcome)
  activationTokens : List (String × String)
deriving DecidableEq

/-- The rows of a commit, by row number. -/
def rowOrder (c : Call) : List WorkforceImportRow → List WorkforceImportRow :=
  orderBy fun a b => toLex (a.rowNumber, c.rank a.id) ≤ toLex (b.rowNumber, c.rank b.id)

/-- The columns of a job that its commit writes. -/
def committed (now : Time) (idempotencyKey : String) (outcomes : List (ℕ × Outcome))
    (job : WorkforceImportJob) : WorkforceImportJob :=
  { job with
    state := .committed, committedAt := some now, idempotencyKey := some idempotencyKey
    committedResult := some outcomes }

/-- The latest decision of a tier, when it is an approval. -/
def approver (c : Call) (db : Db) (job : Uuid) (tier : DecisionTier) : Option Uuid :=
  ((latestDecision c db job tier).filter fun d => d.decision = .approve).map
    WorkforceImportDecision.decidedBy

/-- The standard approver, whose authority over the routine rows is checked again. -/
def standardApprover (c : Call) (job : WorkforceImportJob) : Txn Uuid := do
  let db ← view "_latest_decision"
  let standard ← expect (approver c db job.id .standard)
    (.importNotReady "import has not been approved for commit")
  assertRowsAuthorized (c.utcnow 1) job standard .routine
  return standard

/-- The second approver of a job with high-risk rows. -/
def highRiskApprover (c : Call) (job : WorkforceImportJob) : Txn (Option Uuid) := do
  if 0 < job.highRiskRows then
    let db ← view "_latest_decision"
    let highRisk ← expect (approver c db job.id .highRisk)
      (.importNotReady "high-risk rows require a separate high-risk approval")
    assertQualifiedHighRiskApprover (c.utcnow 2) job highRisk
    return some highRisk
  else return none

/-- The import itself, once the state of the job has been checked. -/
def commitParsed (c : Call) (r : CommitRequest) (job : WorkforceImportJob) : Txn CommitResult := do
  let standard ← standardApprover c job
  let highRisk ← highRiskApprover c job
  let db ← view "import rows"
  let rows := (jobRows db job.id).filter fun row => row.validationResult = .valid
  let acc ← (rowOrder c rows).foldlM (commitStep c job standard highRisk) {}
  setWorkforceJob job.id (committed (c.utcnow 3) r.idempotencyKey acc.outcomes)
  recordAudit (jobEvent "workforce_import.commit" r.actorId job.id none
    [("import_type", .text (importTypeName job.importType)), ("row_count", .num acc.outcomes.length)])
  if r.actorId ≠ job.uploaderId then
    notify (jobNotification job.uploaderId "workforce_import.commit" (outcomeTitle job "committed") job.id)
  return ⟨job.id, acc.outcomes, acc.activations⟩

/-- `commit_job`. `loaded` is the object the session has already loaded. -/
def commitJob (c : Call) (r : CommitRequest) (loaded : Option WorkforceImportJob) : Txn CommitResult := do
  let row ← expect
    (← selectForUpdate "workforce job for commit" .workforceJob Db.workforceJobs (fun _ => true) r.jobId)
    (.importNotReady "import job not found")
  let job := Imports.identityMap loaded row
  assertJobAccessible (c.utcnow 0) job r.actorId
  if job.state = .committed then
    raiseIf (job.idempotencyKey ≠ some r.idempotencyKey)
      (.importNotReady "import already committed under a different idempotency key")
    return ⟨job.id, job.committedResult.getD [], []⟩
  else
    raiseIf (job.state ≠ .parsed) (.importNotReady
      ("import job is not ready to commit (state=" ++ Imports.stateName job.state ++ ")"))
    raiseIf (job.decisionVersion ≠ r.decisionVersion)
      (.staleDecisionVersion "decision version is stale; re-review the preview")
    raiseIf (0 < job.invalidRows) (.unresolvedBlockingErrors
      (toString job.invalidRows ++ " row(s) still have blocking errors"))
    commitParsed c r job

/-! ## The rows of a reversal -/

/-- The live user no longer is as the row left it. -/
def userConflicts (row : WorkforceImportRow) (u : User) : Bool :=
  let values := row.parsedValues.getD {}
  if row.action = some "create" ∨ row.action = some "reactivate" then !u.active
  else if row.action = some "deactivate" then u.active
  else
    values.displayName.any (· ≠ u.displayName) || values.startDate.any (fun d => some d ≠ u.startDate) ||
      values.endDate.any fun d => some d ≠ u.endDate

/-- The changes that a snapshot restores. -/
def snapshotChanges : Option Snapshot → Workforce.UserChanges
  | some (.userFields displayName startDate endDate) => ⟨displayName, startDate, endDate⟩
  | _ => {}

/-- `_reverse_user_row`. -/
def reverseUserRow (c : Call) (row : WorkforceImportRow) (id actor : Uuid) : Txn (Option Outcome) := do
  let target ← lockUser id
  if userConflicts row target then return none
  if row.action = some "create" ∨ row.action = some "reactivate" then
    Workforce.disableUser c target actor "import_reversal"
    return some .deactivated
  else if row.action = some "deactivate" then
    Workforce.reactivateUser target actor "import_reversal"
    return some .reactivated
  else
    Workforce.updateUser target (snapshotChanges row.preCommitSnapshot) actor (some "import_reversal")
    return some .restored

/-- `_reverse_team_membership_row`. -/
def reverseTeamMembershipRow (c : Call) (row : WorkforceImportRow) (id actor : Uuid) :
    Txn (Option Outcome) := do
  let m ← expect (← selectForUpdate "membership for update" .membership Db.memberships (fun _ => true) id)
    .noResultFound
  if row.action = some "add" then
    if m.membershipStatus = .active ∧ m.effectiveTo = none then
      Workforce.endTeamMembership c m actor (some "import_reversal")
      return some .ended
    else return none
  else
    let db ← view "still_a_member"
    if db.memberships.any (Workforce.isMembership m.teamId m.userId) then return none
    let team ← expect (← getRow "team" Db.teams m.teamId) .noResultFound
    let _ ← Workforce.addTeamMembership c team.id m.userId actor
    return some .added

/-- `_reverse_role_assignment_row`. -/
def reverseRoleAssignmentRow (c : Call) (row : WorkforceImportRow) (id actor : Uuid) :
    Txn (Option Outcome) := do
  let ra ← expect
    (← selectForUpdate "grant for update" .roleAssignment Db.roleAssignments (fun _ => true) id)
    .noResultFound
  if row.action = some "assign" then
    if Workforce.currentRole ra then
      Workforce.endRoleAssignment c ra actor "import_reversal"
      return some .ended
    else return none
  else
    let db ← view "still_active_elsewhere"
    if db.roleAssignments.any (Workforce.isGrant ra.userId ra.roleCode ra.scopeType ra.scopeId) then
      return none
    let _ ← Workforce.assignRole c {
      targetUserId := ra.userId, roleCode := ra.roleCode, scopeType := ra.scopeType
      scopeId := ra.scopeId, reasonCode := some "import_reversal" } actor
    return some .assigned

/-- `snapshot.get("prior_supervisor_id")`. -/
def snapshotSupervisor : Option Snapshot → Option Uuid
  | some (.priorSupervisor id) => id
  | _ => none

/-- `_reverse_reporting_assignment_row`. -/
def reverseReportingAssignmentRow (c : Call) (row : WorkforceImportRow) (id actor : Uuid) :
    Txn (Option Outcome) := do
  let line ← expect
    (← selectForUpdate "line for update" .reportingAssignment Db.reportingAssignments (fun _ => true) id)
    .noResultFound
  if line.status = .active ∧ line.effectiveTo = none then
    match snapshotSupervisor row.preCommitSnapshot with
    | some prior =>
      let _ ← Workforce.setReportingLine c {
        subordinateUserId := line.subordinateUserId, supervisorUserId := prior
        reasonCode := some "import_reversal" } actor
    | none => Workforce.endReportingLine c line actor (some "import_reversal")
    return some .restored
  else return none

/-- `_reverse_campaign_assignment_row`. -/
def reverseCampaignAssignmentRow (c : Call) (row : WorkforceImportRow) (id actor : Uuid) :
    Txn (Option Outcome) := do
  let a ← expect
    (← selectForUpdate "assignment for update" .userAssignment Db.userAssignments (fun _ => true) id)
    .noResultFound
  let active := a.status = .active ∧ a.effectiveTo = none
  if row.action = some "assign" then
    if active then
      Campaigns.endUserAssignment c a actor none
      return some .ended
    else return none
  else if active then return none
  else
    let campaign ← expect (← getRow "campaign" Db.campaigns a.campaignId) .noResultFound
    match ← tryAssign c campaign a.userId (row.parsedValues.getD {}).teamId actor with
    | none => return none
    | some _ => return some .assigned

/-- `_REVERSE_ROW_FUNCTIONS`. -/
def reverseRow : EntityType → Call → WorkforceImportRow → Uuid → Uuid → Txn (Option Outcome)
  | .user => reverseUserRow
  | .teamMembership => reverseTeamMembershipRow
  | .roleAssignment => reverseRoleAssignmentRow
  | .reportingAssignment => reverseReportingAssignmentRow
  | .campaignUserAssignment => reverseCampaignAssignmentRow

/-! ## Reversal -/

structure ReverseResult where
  jobId : Uuid
  reversed : List (ℕ × Outcome)
  skipped : List ℕ
deriving DecidableEq

/-- What the reversal loop has collected. -/
structure Reversed where
  done : ℕ := 0
  reversed : List (ℕ × Outcome) := []
  skipped : List ℕ := []

/-- One row of the reversal loop. -/
def reverseStep (c : Call) (job : WorkforceImportJob) (actor : Uuid) (now : Time) (acc : Reversed)
    (row : WorkforceImportRow) : Txn Reversed := do
  match row.committedEntityType, row.committedEntityId with
  | some entity, some id =>
    match ← reverseRow entity (c.block (acc.done + 1)) row id actor with
    | none =>
      setWorkforceRow row.id fun r => { r with conflictType := some "reversal_conflict" }
      return { acc with done := acc.done + 1, skipped := acc.skipped ++ [row.rowNumber] }
    | some outcome =>
      setWorkforceRow row.id fun r => { r with reversedAt := some now }
      recordRow "workforce_import.row_reverse" job row actor outcome
      return { acc with
        done := acc.done + 1, reversed := acc.reversed ++ [(row.rowNumber, outcome)] }
  | _, _ => return { acc with done := acc.done + 1 }

/-- The rows of a job that its reversal visits. -/
def reversible (db : Db) (job : Uuid) : List WorkforceImportRow :=
  (jobRows db job).filter fun r => r.committedEntityId.isSome && r.reversedAt.isNone

/-- `reverse_job`. `loaded` is the object the session has already loaded. -/
def reverseJob (c : Call) (id actor : Uuid) (loaded : Option WorkforceImportJob) : Txn ReverseResult := do
  let row ← expect
    (← selectForUpdate "workforce job for reversal" .workforceJob Db.workforceJobs (fun _ => true) id)
    (.importNotReady "import job not found")
  let job := Imports.identityMap loaded row
  assertJobAccessible (c.utcnow 0) job actor
  raiseIf (job.state ≠ .committed) (.importNotReady "only a committed import can be reversed")
  raiseIf job.reversedAt.isSome (.importNotReady "import has already been reversed")
  if 0 < job.highRiskRows then assertQualifiedHighRiskApprover (c.utcnow 1) job actor
  assertRowsAuthorized (c.utcnow 2) job actor .routine
  let db ← view "rows to reverse"
  let now := c.utcnow 3
  let acc ← (scan c (reversible db job.id)).foldlM (reverseStep c job actor now) {}
  setWorkforceJob job.id fun j => { j with reversedAt := some now }
  recordAudit (jobEvent "workforce_import.reverse" actor job.id none
    [("reversed", .num acc.reversed.length), ("skipped", .num acc.skipped.length)])
  if actor ≠ job.uploaderId then
    notify (jobNotification job.uploaderId "workforce_import.reverse" (outcomeTitle job "reversed") job.id)
  return ⟨job.id, acc.reversed, acc.skipped⟩

/-! ## Cleanup -/

/-- `cleanup_expired_jobs`: the rows are those the first statement read. -/
def cleanupExpiredJobs (c : Call) : Txn ℕ := do
  let now := c.utcnow 0
  let db ← view "cleanup_expired_jobs"
  let expired := scan c (db.workforceJobs.filter fun j => j.expiresAt.any fun t => t < now)
  expired.foldlM (fun count job => do
    if job.state = .committed then setWorkforceJob job.id fun j => { j with expiresAt := none }
    else
      update fun db => { db with
        workforceRows := db.workforceRows.filter fun r => r.importJobId ≠ job.id }
      setWorkforceJob job.id fun j => { j with state := .expired }
    return count + 1) 0

/-! ## Requests -/

namespace Request

/-- `POST /workforce/imports`, for a file that passed validation. -/
def upload (c : Call) (user : Uuid) (importType : ImportType) (filename fileHash : String) (size : ℤ) :
    Txn Unit := do
  Workforce.requireAnyCapability (c.utcnow 1) uploadCapabilities user
  let _ ← createImportJob c importType user filename fileHash size

/-- `PATCH /workforce/imports/{import_id}/decisions`. -/
def decide (c : Call) (r : DecisionRequest) : Txn Unit := do
  Workforce.requireAnyCapability (c.utcnow 2) uploadCapabilities r.decidedBy
  let _ ← recordDecision c r

/-- `POST /workforce/imports/{import_id}/commit`: the request loads the job before it commits
it in the same session. -/
def commit (c : Call) (r : CommitRequest) : Txn CommitResult := do
  Workforce.requireAnyCapability (c.utcnow 4) uploadCapabilities r.actorId
  let job ← expect (← getRow "workforce job" Db.workforceJobs r.jobId) (.http 404 "import job not found")
  commitJob c r (some job)

/-- `POST /workforce/imports/{import_id}/reverse`. -/
def reverse (c : Call) (id actor : Uuid) : Txn ReverseResult := do
  Workforce.requireAnyCapability (c.utcnow 4) uploadCapabilities actor
  let job ← expect (← getRow "workforce job" Db.workforceJobs id) (.http 404 "import job not found")
  reverseJob c id actor (some job)

end Request

end OmniDB.WorkforceImports
