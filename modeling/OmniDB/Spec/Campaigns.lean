import OmniDB.Spec.Imports
import OmniDB.Spec.Work

/-! Campaign lifecycle, dispositions and staffing, `app/campaigns/service.py`. A
function receives the row objects its request has loaded. -/

namespace OmniDB.Campaigns

open Tx
open Tx.Prog (view update acquire raise raiseIf expect)

def campaignLaunchEnabled : String := "campaign_launch_enabled"

/-- `UPDATE campaigns`. -/
def setCampaign (id : Uuid) (f : Campaign → Campaign) : Txn Unit := do
  acquire (.campaign id)
  update fun db => { db with campaigns := Table.modify db.campaigns id f }

def setUserAssignment (id : Uuid) (f : CampaignUserAssignment → CampaignUserAssignment) :
    Txn Unit := do
  acquire (.userAssignment id)
  update fun db => { db with userAssignments := Table.modify db.userAssignments id f }

def statusName : CampaignStatus → String
  | .draft => "draft"
  | .active => "active"
  | .paused => "paused"
  | .completed => "completed"
  | .archived => "archived"

/-- An audit event of the campaign service. -/
def campaignEvent (action : String) (actor campaign : Uuid) (reason : Option String)
    (details : List (String × MetaValue)) : AuditEvent where
  action := action
  actorUserId := some actor
  targetType := some "campaign"
  targetId := some campaign
  reasonCode := reason
  eventMetadata := details

/-! ## Lifecycle -/

/-- `normalize_campaign_code`. -/
def normalizeCampaignCode (externalCode : String) : Except Err String :=
  let cleaned := Imports.strip externalCode
  if cleaned = "" then .error (.valueError "external_code must not be empty")
  else if 50 < cleaned.length then .error (.valueError "external_code must be at most 50 characters")
  else if cleaned.toList.any isSpace then
    .error (.valueError "external_code must not contain whitespace")
  else .ok cleaned

/-- `create_campaign`; `fields` holds the submitted columns. -/
def createCampaign (c : Call) (createdBy : Uuid) (fields : Campaign) : Txn Campaign := do
  match normalizeCampaignCode fields.externalCode with
  | .error e => raise e
  | .ok code =>
    let db ← view "campaign by code"
    raiseIf (db.campaigns.any fun k => k.externalCode = code)
      (.valueError ("a campaign with code '" ++ code ++ "' already exists"))
    let campaign : Campaign := { fields with
      id := c.uuid4 0, externalCode := code, status := .draft, createdBy := some createdBy
      launchedAt := none, archivedAt := none, completedAt := none, retentionDeleteAfter := none
      dispositionPolicyVersion := none }
    insertRow "campaigns" .campaign Db.campaigns
      (fun k db => { db with campaigns := db.campaigns ++ [k] }) campaign
    recordAudit (campaignEvent "campaign.create" createdBy campaign.id none [])
    return campaign

/-- The fields `update_campaign` sets; an absent one is left as it is. -/
structure CampaignPatch where
  name : Option String := none
  purpose : Option String := none
  dataSource : Option String := none
  dataObtainedAt : Option Date := none
  lawfulBasisOrConsentReference : Option String := none
  defaultRegion : Option String := none
  timezone : Option String := none

/-- `update_campaign`. -/
def updateCampaign (campaign : Campaign) (actor : Uuid) (p : CampaignPatch) : Txn Unit := do
  raiseIf (campaign.status ≠ .draft) (.campaignStateError "only a draft campaign may be edited")
  setCampaign campaign.id fun k => { k with
    name := p.name.getD k.name
    purpose := p.purpose.orElse fun _ => k.purpose
    dataSource := p.dataSource.orElse fun _ => k.dataSource
    dataObtainedAt := p.dataObtainedAt.orElse fun _ => k.dataObtainedAt
    lawfulBasisOrConsentReference :=
      p.lawfulBasisOrConsentReference.orElse fun _ => k.lawfulBasisOrConsentReference
    defaultRegion := p.defaultRegion.getD k.defaultRegion
    timezone := p.timezone.getD k.timezone }
  recordAudit (campaignEvent "campaign.update" actor campaign.id none [])

/-- One entry of `STANDARD_DISPOSITIONS`. -/
structure StandardDisposition where
  order : ℤ
  label : String
  stableSemanticCode : String
  nextAction : Option NextAction := none
  causesDnc : Bool := false
  requiresCallbackTime : Bool := false
  countsAsConnected : Bool := false
  immediateRedial : Bool := false
  retryDelayEditable : Bool := false
  defaultRetryDelayMinutes : Option ℤ := none

def policyVersion : ℤ := 1
def minRetryDelayMinutes : ℤ := 5
def maxRetryDelayMinutes : ℤ := 10080

/-- `STANDARD_DISPOSITIONS`. -/
def standardDispositions : List StandardDisposition :=
  [{ order := 10, label := "Connected", stableSemanticCode := "connected"
     nextAction := some .complete, countsAsConnected := true },
   { order := 20, label := "No Answer", stableSemanticCode := "no_answer"
     nextAction := some .retryWait, retryDelayEditable := true
     defaultRetryDelayMinutes := some 60 },
   { order := 30, label := "Call Back Later", stableSemanticCode := "callback_later"
     requiresCallbackTime := true },
   { order := 40, label := "Hung Up", stableSemanticCode := "hung_up"
     nextAction := some .immediateRedial, immediateRedial := true },
   { order := 50, label := "Number Disconnected", stableSemanticCode := "number_disconnected"
     nextAction := some .complete },
   { order := 60, label := "Do Not Call", stableSemanticCode := "explicit_dnc"
     causesDnc := true },
   { order := 70, label := "Unavailable", stableSemanticCode := "unavailable"
     nextAction := some .retryWait, retryDelayEditable := true
     defaultRetryDelayMinutes := some 30 }]

def standardByCode (code : String) : Option StandardDisposition :=
  standardDispositions.find? fun e => e.stableSemanticCode = code

def nextActionRepr : Option NextAction → String
  | none => "None"
  | some .complete => "'complete'"
  | some .review => "'review'"
  | some .requeue => "'requeue'"
  | some .retryWait => "'retry_wait'"
  | some .immediateRedial => "'immediate_redial'"
  | some (.other text) => "'" ++ text ++ "'"

def boolRepr (b : Bool) : String := if b then "True" else "False"

def validRetryDelay (m : ℤ) : Bool := minRetryDelayMinutes ≤ m && m ≤ maxRetryDelayMinutes

/-- The errors of one manifest entry against the active row with its code. -/
def entryErrors (e : StandardDisposition) (row : CampaignDispositionDefinition) : List String :=
  let code := "'" ++ e.stableSemanticCode ++ "'"
  let check (ok : Bool) (text : String) : List String := if ok then [] else [code ++ text]
  check (row.label = e.label) (" label must be '" ++ e.label ++ "'") ++
    check (row.displayOrder = e.order) (" display order must be " ++ toString e.order) ++
    check row.isStandard " must be marked as a standard disposition" ++
    check (row.nextAction = e.nextAction) (" next action must be " ++ nextActionRepr e.nextAction) ++
    check (row.causesDnc = e.causesDnc) (" causes_dnc must be " ++ boolRepr e.causesDnc) ++
    check (row.requiresCallbackTime = e.requiresCallbackTime)
      (" requires_callback_time must be " ++ boolRepr e.requiresCallbackTime) ++
    check (row.countsAsConnected = e.countsAsConnected)
      (" counts_as_connected must be " ++ boolRepr e.countsAsConnected) ++
    check (row.immediateRedial = e.immediateRedial)
      (" immediate_redial must be " ++ boolRepr e.immediateRedial) ++
    if e.retryDelayEditable then
      check (row.retryDelayMinutes.any validRetryDelay) (" retry delay must be between " ++
        toString minRetryDelayMinutes ++ " and " ++ toString maxRetryDelayMinutes ++ " minutes")
    else check row.retryDelayMinutes.isNone " must not have a retry delay set"

/-- `validate_standard_dispositions`: the list of errors, empty when valid. -/
def standardPolicyErrors (c : Call) (db : Db) (campaign : Uuid) : List String :=
  let rows := scan c (db.dispositions.filter fun d => d.campaignId = campaign && d.active)
  let codes := (rows.map (·.stableSemanticCode)).dedup
  let unexpected := (codes.filter fun code => (standardByCode code).isNone).insertionSort (· ≤ ·)
  (unexpected.map fun code => "unexpected active disposition present: '" ++ code ++ "'") ++
    standardDispositions.flatMap fun e =>
      match rows.reverse.find? fun d => d.stableSemanticCode = e.stableSemanticCode with
      | none => ["required outcome '" ++ e.stableSemanticCode ++ "' is missing or inactive"]
      | some row => entryErrors e row

/-- `launch_campaign`. -/
def launchCampaign (c : Call) (campaign : Campaign) (actor : Uuid) : Txn Unit := do
  requireEnabled campaignLaunchEnabled
  raiseIf (campaign.status ≠ .draft)
    (.campaignStateError ("cannot launch a campaign in state " ++ statusName campaign.status))
  let missing := Imports.missingProvenance campaign
  raiseIf (missing ≠ []) (.campaignStateError
    ("missing required provenance fields: " ++ String.intercalate ", " missing))
  let db ← view "contact count"
  let contactCount := (db.campaignContacts.filter fun cc => cc.campaignId = campaign.id).length
  raiseIf (contactCount = 0)
    (.campaignStateError "cannot launch a campaign with no committed imported contacts")
  if campaign.dispositionPolicyVersion = some policyVersion then
    let db ← view "validate_standard_dispositions"
    let errors := standardPolicyErrors c db campaign.id
    raiseIf (errors ≠ []) (.campaignStateError
      ("standard disposition policy is invalid: " ++ String.intercalate "; " errors))
  setCampaign campaign.id fun k => { k with status := .active, launchedAt := some (c.utcnow 0) }
  recordAudit (campaignEvent "campaign.launch" actor campaign.id none
    [("contacts", .num contactCount)])

/-- `pause_campaign`. -/
def pauseCampaign (campaign : Campaign) (actor : Uuid) : Txn Unit := do
  raiseIf (campaign.status ≠ .active)
    (.campaignStateError ("cannot pause a campaign in state " ++ statusName campaign.status))
  setCampaign campaign.id fun k => { k with status := .paused }
  recordAudit (campaignEvent "campaign.pause" actor campaign.id none [])

/-- `archive_campaign`. -/
def archiveCampaign (c : Call) (campaign : Campaign) (actor : Uuid) : Txn Unit := do
  raiseIf (campaign.status = .completed ∨ campaign.status = .archived)
    (.campaignStateError ("cannot archive a campaign in state " ++ statusName campaign.status))
  setCampaign campaign.id fun k => { k with status := .archived, archivedAt := some (c.utcnow 0) }
  recordAudit (campaignEvent "campaign.archive" actor campaign.id none [])

/-! ## Dispositions -/

/-- `PROTECTED_DNC_SEMANTIC_CODES`. -/
def protectedDncSemanticCodes : List String := ["explicit_dnc"]

def insertDisposition (d : CampaignDispositionDefinition) : Txn Unit := do
  let db ← view "campaign_disposition_definitions"
  raiseIf ((Table.find db.dispositions d.id).isSome)
    (.integrityError "pk_campaign_disposition_definitions")
  raiseIf (db.dispositions.any fun e => e.campaignId = d.campaignId &&
      e.stableSemanticCode = d.stableSemanticCode)
    (.integrityError "uq_disposition_campaign_code")
  update fun db => { db with dispositions := db.dispositions ++ [d] }

/-- `create_disposition`; `fields` holds the submitted columns. -/
def createDisposition (c : Call) (campaign : Campaign) (actor : Uuid)
    (fields : CampaignDispositionDefinition) : Txn Unit := do
  let code := fields.stableSemanticCode
  raiseIf (fields.causesDnc ∧ code ∉ protectedDncSemanticCodes) (.dispositionPolicyError
    "only an approved protected semantic code may cause global DNC suppression")
  raiseIf (code ∈ protectedDncSemanticCodes ∧ !fields.causesDnc) (.dispositionPolicyError
    "the protected explicit-DNC semantic code must cause global DNC suppression")
  raiseIf (fields.nextAction ∉ [none, some .complete, some .review, some .requeue])
    (.dispositionPolicyError "next action must be complete, review, or requeue")
  insertDisposition { fields with
    id := c.uuid4 0, campaignId := campaign.id, displayOrder := 0, active := true
    isStandard := false, retryDelayMinutes := none, immediateRedial := false
    policyVersion := none }
  recordAudit (campaignEvent "campaign.disposition.create" actor campaign.id none
    [("stable_semantic_code", .text code), ("causes_dnc", .flag fields.causesDnc)])

def retryDelayRange : Err := .dispositionPolicyError
  ("retry delay must be between " ++ toString minRetryDelayMinutes ++ " and " ++
    toString maxRetryDelayMinutes ++ " minutes")

def setDisposition (id : Uuid) (f : CampaignDispositionDefinition → CampaignDispositionDefinition) :
    Txn Unit :=
  update fun db => { db with dispositions := Table.modify db.dispositions id f }

/-- The row of a manifest entry, with the manager's retry delay where it is editable. -/
def standardRow (id campaign : Uuid) (noAnswer unavailable : Option ℤ) (e : StandardDisposition) :
    CampaignDispositionDefinition :=
  let override := if e.stableSemanticCode = "no_answer" then noAnswer
    else if e.stableSemanticCode = "unavailable" then unavailable else none
  { id := id
    campaignId := campaign
    label := e.label
    stableSemanticCode := e.stableSemanticCode
    nextAction := e.nextAction
    requiresCallbackTime := e.requiresCallbackTime
    countsAsConnected := e.countsAsConnected
    causesDnc := e.causesDnc
    displayOrder := e.order
    isStandard := true
    retryDelayMinutes :=
      if e.retryDelayEditable then override.orElse fun _ => e.defaultRetryDelayMinutes
      else e.defaultRetryDelayMinutes
    immediateRedial := e.immediateRedial
    policyVersion := some policyVersion }

/-- `install_standard_dispositions`. -/
def installStandardDispositions (c : Call) (campaign : Campaign) (actor : Uuid)
    (noAnswer unavailable : Option ℤ) : Txn Unit := do
  raiseIf (campaign.status ≠ .draft) (.dispositionPolicyError
    "standard dispositions may only be installed on a draft campaign")
  raiseIf campaign.dispositionPolicyVersion.isSome
    (.dispositionPolicyError "this campaign already has a disposition policy installed")
  let db ← view "disposition count"
  raiseIf (db.dispositions.any fun d => d.campaignId = campaign.id) (.dispositionPolicyError
    "standard dispositions require a campaign with no existing dispositions")
  raiseIf (noAnswer.any fun m => !validRetryDelay m) retryDelayRange
  raiseIf (unavailable.any fun m => !validRetryDelay m) retryDelayRange
  let rows := standardDispositions.mapIdx fun n e =>
    standardRow (c.uuid4 n) campaign.id noAnswer unavailable e
  rows.forM insertDisposition
  setCampaign campaign.id fun k => { k with dispositionPolicyVersion := some policyVersion }
  let delay (code : String) : MetaValue :=
    match (rows.find? fun r => r.stableSemanticCode = code).bind (·.retryDelayMinutes) with
    | some m => .num m
    | none => .text "None"
  recordAudit (campaignEvent "campaign.disposition_policy.install" actor campaign.id none
    [("policy_version", .num policyVersion), ("no_answer_retry_minutes", delay "no_answer"),
      ("unavailable_retry_minutes", delay "unavailable")])

/-- `update_retry_policy`. -/
def updateRetryPolicy (c : Call) (campaign : Campaign) (code : String) (retryDelayMinutes : ℤ)
    (actor : Uuid) : Txn Unit := do
  raiseIf (!(standardByCode code).any (·.retryDelayEditable))
    (.dispositionPolicyError ("'" ++ code ++ "' does not have a configurable retry delay"))
  raiseIf (campaign.status ≠ .draft)
    (.campaignStateError "retry delay may only be changed on a draft campaign")
  raiseIf (!validRetryDelay retryDelayMinutes) retryDelayRange
  let db ← view "disposition by code"
  let row ← expect ((scan c (db.dispositions.filter fun d =>
      d.campaignId = campaign.id && d.stableSemanticCode = code)).head?)
    (.dispositionPolicyError ("'" ++ code ++ "' is not configured for this campaign"))
  setDisposition row.id fun d => { d with retryDelayMinutes := some retryDelayMinutes }
  recordAudit (campaignEvent "campaign.retry_policy.update" actor campaign.id none
    [("stable_semantic_code", .text code), ("retry_delay_minutes", .num retryDelayMinutes)])

/-! ## Staffing -/

/-- `_check_staffing_capacity`. -/
def checkStaffingCapacity (c : Call) (campaign : Uuid) (team : Option Uuid) (now : Time) :
    Txn Unit := do
  match team with
  | none => return
  | some team =>
    let rows ← lockRows "_check_staffing_capacity" false .teamAssignment Db.teamAssignments
      (fun _ a => a.campaignId = campaign && a.teamId = team && a.status = .active &&
        effectiveAt a.effectiveFrom a.effectiveTo now) (scan c)
    match rows.head?.bind (·.staffingCapacity) with
    | none => return
    | some capacity =>
      let db ← view "current_count"
      let count := (db.userAssignments.filter fun a => a.campaignId = campaign &&
        a.teamId = some team && a.status = .active && a.effectiveTo.isNone).length
      raiseIf (capacity ≤ count) (.campaignAssignmentError
        ("destination campaign is at staffing capacity for this team (" ++
          toString count ++ "/" ++ toString capacity ++ ")"))

def insertUserAssignment (a : CampaignUserAssignment) : Txn Unit :=
  insertRow "campaign_user_assignments" .userAssignment Db.userAssignments
    (fun a db => { db with userAssignments := db.userAssignments ++ [a] }) a

/-- `assign_team_to_campaign`. -/
def assignTeamToCampaign (c : Call) (campaign : Campaign) (team : Uuid) (capacity : Option ℤ)
    (actor : Uuid) : Txn Unit := do
  insertRow "campaign_team_assignments" .teamAssignment Db.teamAssignments
    (fun a db => { db with teamAssignments := db.teamAssignments ++ [a] })
    { id := c.uuid4 0, campaignId := campaign.id, teamId := team, effectiveFrom := c.utcnow 0
      staffingCapacity := capacity, assignedBy := some actor }
  recordAudit (campaignEvent "campaign.team_assignment.create" actor campaign.id none
    [("team_id", .uuid team)])

/-- `end_team_assignment`. -/
def endTeamAssignment (c : Call) (a : CampaignTeamAssignment) (actor : Uuid) : Txn Unit := do
  acquire (.teamAssignment a.id)
  update fun db => { db with teamAssignments := Table.modify db.teamAssignments a.id fun a =>
    { a with status := .ended, effectiveTo := some (c.utcnow 0) } }
  recordAudit (campaignEvent "campaign.team_assignment.end" actor a.campaignId none
    [("team_id", .uuid a.teamId)])

structure AssignRequest where
  agentId : Uuid
  teamId : Option Uuid := none
  assignmentType : String := "primary"
  priority : Option ℤ := none
  allocationPercentage : Option ℤ := none
  shiftReference : Option String := none

/-- `assign_agent_to_campaign`. -/
def assignAgentToCampaign (c : Call) (campaign : Campaign) (r : AssignRequest) (actor : Uuid) :
    Txn CampaignUserAssignment := do
  if r.assignmentType = "primary" then
    let db ← view "existing_primary"
    raiseIf (db.userAssignments.any fun a => a.userId = r.agentId &&
        a.assignmentType = "primary" && a.status = .active && a.effectiveTo.isNone)
      (.campaignAssignmentError
        "agent already has an active primary assignment; use transfer instead")
  checkStaffingCapacity c campaign.id r.teamId (c.utcnow 0)
  let assignment : CampaignUserAssignment := {
    id := c.uuid4 0
    campaignId := campaign.id
    userId := r.agentId
    teamId := r.teamId
    campaignRole := "agent"
    assignmentType := r.assignmentType
    effectiveFrom := c.utcnow 1
    priority := r.priority
    allocationPercentage := r.allocationPercentage
    shiftReference := r.shiftReference
    assignedBy := some actor }
  insertUserAssignment assignment
  recordAudit (campaignEvent "campaign.assignment.create" actor campaign.id none
    [("agent_id", .uuid r.agentId), ("assignment_type", .text r.assignmentType)])
  return assignment

/-- `end_user_assignment`. The row is updated by the flush before the release reads. -/
def endUserAssignment (c : Call) (a : CampaignUserAssignment) (actor : Uuid)
    (reason : Option String) : Txn Unit := do
  setUserAssignment a.id fun a => { a with status := .ended, effectiveTo := some (c.utcnow 0) }
  let released ← Work.releaseCampaignWorkForAgent c a.userId a.campaignId
  recordAudit (campaignEvent "campaign.assignment.end" actor a.campaignId reason
    [("agent_id", .uuid a.userId), ("work_items_released", .num released)])

/-- `transfer_agent`. -/
def transferAgent (c : Call) (agent : Uuid) (source destination : Campaign) (team : Option Uuid)
    (actor : Uuid) (reason : Option String) : Txn CampaignUserAssignment := do
  raiseIf (source.id = destination.id)
    (.campaignAssignmentError "source and destination campaign must differ")
  let db ← view "source assignment"
  let current ← expect ((scan c (db.userAssignments.filter fun a => a.userId = agent &&
      a.campaignId = source.id && a.assignmentType = "primary" && a.status = .active &&
      a.effectiveTo.isNone)).head?)
    (.campaignAssignmentError "agent has no active primary assignment on the source campaign")
  raiseIf (destination.status ≠ .active)
    (.campaignAssignmentError "destination campaign is not active")
  checkStaffingCapacity c destination.id team (c.utcnow 0)
  let now := c.utcnow 1
  setUserAssignment current.id fun a => { a with status := .ended, effectiveTo := some now }
  let released ← Work.releaseCampaignWorkForAgent c agent source.id
  let assignment : CampaignUserAssignment := {
    id := c.uuid4 0
    campaignId := destination.id
    userId := agent
    teamId := team
    campaignRole := "agent"
    effectiveFrom := now
    assignedBy := some actor }
  insertUserAssignment assignment
  recordAudit (campaignEvent "campaign.assignment.transfer" actor destination.id reason
    [("agent_id", .uuid agent), ("from_campaign_id", .uuid source.id),
      ("to_campaign_id", .uuid destination.id), ("work_items_released", .num released)])
  return assignment

end OmniDB.Campaigns
