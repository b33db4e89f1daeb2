import Mathlib.Data.List.MinMax
import Mathlib.Data.Prod.Lex
import OmniDB.Spec.Db

/-! Work-item leasing and completion, `app/work/service.py`. -/

namespace OmniDB.Work

open Tx
open Tx.Prog (view update acquire tryAcquire raise raiseIf expect)

def sharedPoolEnabled : String := "shared_pool_enabled"
def callbacksEnabled : String := "callbacks_enabled"

inductive NextStep where
  | complete | retryScheduled | callbackScheduled | redialReady | review | suppressed
deriving DecidableEq

/-- `_NEXT_STEP_BY_STATE`. -/
def nextStepByState : WorkState → Option NextStep
  | .completed => some .complete
  | .retryWait => some .retryScheduled
  | .callbackWait => some .callbackScheduled
  | .leased => some .redialReady
  | .review => some .review
  | .suppressed => some .suppressed
  | .queued => some .retryScheduled
  | .cancelled => none

structure LeaseResult where
  workItemId : Uuid
  leaseId : Uuid
  leaseExpiresAt : Time
  campaignId : Uuid
  campaignName : String
  phoneE164 : String
  contactName : Option String
  approvedMetadata : Option Metadata
  isCallback : Bool
  leaseReason : LeaseReason
deriving DecidableEq

/-- `_lease_result`. -/
def leaseResult (c : Call) (w : WorkItem) (cc : CampaignContact) (contact : Contact)
    (campaign : Campaign) : Txn LeaseResult :=
  match w.leaseId, w.leaseExpiresAt with
  | some leaseId, some leaseExpiresAt =>
    let leaseReason := w.leaseReason.getD .normal
    return {
      workItemId := w.id
      leaseId := leaseId
      leaseExpiresAt := leaseExpiresAt
      campaignId := campaign.id
      campaignName := campaign.name
      phoneE164 := c.decrypt contact.phoneCiphertext
      contactName := cc.campaignNameValue
      approvedMetadata := cc.approvedMetadata
      isCallback := leaseReason = .scheduledCallback
      leaseReason := leaseReason }
  | _, _ => raise (.workItemError "leased work item is missing lease identity or expiry")

/-! ## Candidate selection -/

/-- An effective agent assignment of the user. -/
def agentAssignment (agent : Uuid) (now : Time) (a : CampaignUserAssignment) : Bool :=
  a.userId = agent && a.campaignRole = "agent" && a.status = .active &&
    effectiveAt a.effectiveFrom a.effectiveTo now

/-- `ORDER BY effective_from DESC`. -/
def newestFirst (c : Call) : List CampaignUserAssignment → List CampaignUserAssignment :=
  orderBy fun a b => toLex (-a.effectiveFrom, c.rank a.id) ≤ toLex (-b.effectiveFrom, c.rank b.id)

/-- `_active_primary_assignment`. -/
def activePrimaryAssignment (c : Call) (agent : Uuid) (now : Time) :
    Txn (Option CampaignUserAssignment) := do
  let rows ← lockRows "_active_primary_assignment" false .userAssignment Db.userAssignments
    (fun _ a => agentAssignment agent now a && a.assignmentType = "primary") (newestFirst c)
  return rows.head?

/-- `_active_assignment_for_campaign`. -/
def activeAssignmentForCampaign (c : Call) (agent campaign : Uuid) (now : Time) :
    Txn (Option CampaignUserAssignment) := do
  let rows ← lockRows "_active_assignment_for_campaign" false .userAssignment Db.userAssignments
    (fun _ a => agentAssignment agent now a && a.campaignId = campaign) (newestFirst c)
  return rows.head?

structure LeaseCandidate where
  workItemId : Uuid
  phoneFingerprint : Fingerprint
  campaignId : Uuid
deriving DecidableEq

/-- `_active_suppression_exists`. -/
def activeSuppressionExists (phone : Fingerprint) : Txn Bool := do
  let db ← view "_active_suppression_exists"
  return db.suppressed phone

/-- The first work item, in the statement's order, that meets its condition together
with its campaign contact and contact. -/
def firstCandidate {β : Type} [LinearOrder β] (db : Db) (order : WorkItem → β)
    (eligible : WorkItem → CampaignContact → Contact → Bool) : Option LeaseCandidate := do
  let w ← (db.workItems.filter fun w => ((db.campaignContact w).bind fun cc =>
    (db.contact cc).map (eligible w cc)).getD false).argmin order
  let cc ← db.campaignContact w
  let contact ← db.contact cc
  return ⟨w.id, contact.phoneFingerprint, cc.campaignId⟩

/-- `due_at <= now` rows are ordered by a column that is not null. -/
def dueKey (w : WorkItem) : Time := w.dueAt.getD 0

/-- `_next_callback_candidate`. -/
def nextCallbackCandidate (c : Call) (agent : Uuid) (now : Time) (excluded : List Uuid) :
    Txn (Option LeaseCandidate) := do
  let db ← view "_next_callback_candidate"
  return firstCandidate db (fun w => toLex (dueKey w, c.rank w.id)) fun w cc contact =>
    w.state = .callbackWait && w.assignedAgentId = some agent && dueBy w.dueAt now &&
    ((Table.find db.campaigns cc.campaignId).map Campaign.status = some .active) &&
    (db.userAssignments.any fun a => agentAssignment agent now a && a.campaignId = cc.campaignId) &&
    !db.suppressed contact.phoneFingerprint && !excluded.contains w.id

/-- `_next_queue_candidate`. -/
def nextQueueCandidate (c : Call) (campaign : Uuid) (excluded : List Uuid) :
    Txn (Option LeaseCandidate) := do
  let db ← view "_next_queue_candidate"
  return firstCandidate db (fun w => toLex (-w.priority, toLex (w.createdAt, c.rank w.id)))
    fun w cc contact =>
      cc.campaignId = campaign && w.state = .queued &&
      !db.suppressed contact.phoneFingerprint && !excluded.contains w.id

/-- `_next_due_retry_candidate`. -/
def nextDueRetryCandidate (c : Call) (campaign : Uuid) (now : Time) (excluded : List Uuid) :
    Txn (Option LeaseCandidate) := do
  let db ← view "_next_due_retry_candidate"
  return firstCandidate db
    (fun w => toLex (dueKey w, toLex (-w.priority, toLex (w.createdAt, c.rank w.id))))
    fun w cc contact =>
      cc.campaignId = campaign && w.state = .retryWait && dueBy w.dueAt now &&
      !db.suppressed contact.phoneFingerprint && !excluded.contains w.id

/-- Which of the three queues a candidate comes from. -/
inductive Source where
  | callback | dueRetry | queue
deriving DecidableEq

/-- The conditions `_lock_lease_candidate` puts on the work row. -/
def Source.conditions (agent : Uuid) (now : Time) (w : WorkItem) : Source → Bool
  | callback => w.state = .callbackWait && w.assignedAgentId = some agent && dueBy w.dueAt now
  | dueRetry => w.state = .retryWait && dueBy w.dueAt now
  | queue => w.state = .queued

def Source.reason : Source → LeaseReason
  | callback => .scheduledCallback
  | dueRetry => .delayedRetry
  | queue => .normal

/-- Assign columns of a work item whose row is locked. -/
def setWorkItem (id : Uuid) (f : WorkItem → WorkItem) : Txn Unit := update (Db.modifyWorkItem id f)

/-- `UPDATE campaign_contacts`: the row is locked when the change is flushed. -/
def setCampaignContact (id : Uuid) (f : CampaignContact → CampaignContact) : Txn Unit := do
  acquire (.campaignContact id)
  update (Db.modifyCampaignContact id f)

/-- Close a campaign contact. -/
def stamp (status : ContactStatus) (now : Time) (code : String) (cc : CampaignContact) :
    CampaignContact :=
  { cc with status := status, completedAt := some now, finalDispositionCode := some code }

/-- Close a campaign contact on behalf of an agent. -/
def stampBy (agent : Uuid) (status : ContactStatus) (now : Time) (code : String)
    (cc : CampaignContact) : CampaignContact :=
  { stamp status now code cc with completedByAgentId := some agent }

/-- The work row of a contact that was suppressed after the item was queued. -/
def suppressedAtLease (now : Time) (w : WorkItem) : WorkItem := { w with
  state := .suppressed, completedAt := some now, version := w.version + 1 }

/-- `_lock_lease_candidate`. -/
def lockLeaseCandidate (candidate : LeaseCandidate) (agent : Uuid) (now : Time) (src : Source) :
    Txn (Option (WorkItem × CampaignContact × Contact)) := do
  if ← tryAcquire (.phone candidate.phoneFingerprint) then
    match ← selectSkipLocked "_lock_lease_candidate" .workItem Db.workItems
        (fun w => src.conditions agent now w) candidate.workItemId with
    | none => return none
    | some w =>
      let cc ← expect (← getRow "campaign_contact" Db.campaignContacts w.campaignContactId)
        (.workItemError "work item references a missing campaign contact")
      let contact ← expect (← getRow "contact" Db.contacts cc.contactId)
        (.workItemError "campaign contact references a missing contact")
      let campaign ← getRow "campaign" Db.campaigns cc.campaignId
      if campaign.map Campaign.status = some .active then
        if ← activeSuppressionExists contact.phoneFingerprint then
          setWorkItem w.id (suppressedAtLease now)
          setCampaignContact cc.id (stamp .suppressed now "explicit_dnc")
          return none
        else return some (w, cc, contact)
      else return none
  else return none

/-! ## Leasing -/

/-- The agent's unexpired lease. -/
def activeLease (agent : Uuid) (now : Time) (w : WorkItem) : Bool :=
  w.state = .leased && w.leaseOwnerId = some agent && w.leaseExpiresAt.any fun t => now < t

/-- `_active_lease_candidate`. -/
def activeLeaseCandidate (c : Call) (agent : Uuid) (now : Time) : Txn (Option LeaseCandidate) := do
  let db ← view "_active_lease_candidate"
  return firstCandidate db (fun w => c.rank w.id) fun w _ _ => activeLease agent now w

/-- `_get_active_lease_locked`. -/
def getActiveLeaseLocked (c : Call) (agent : Uuid) (now : Time) : Txn (Option LeaseResult) := do
  match ← activeLeaseCandidate c agent now with
  | none => return none
  | some candidate =>
    acquire (.phone candidate.phoneFingerprint)
    match ← selectForUpdate "_get_active_lease_locked" .workItem Db.workItems
        (activeLease agent now) candidate.workItemId with
    | none => return none
    | some w =>
      let cc ← expect (← getRow "campaign_contact" Db.campaignContacts w.campaignContactId)
        (.workItemError "work item references a missing campaign contact")
      let contact ← expect (← getRow "contact" Db.contacts cc.contactId)
        (.workItemError "campaign contact references a missing contact")
      match ← getRow "campaign" Db.campaigns cc.campaignId with
      | none => return none
      | some campaign =>
        if campaign.status = .active then
          if ← activeSuppressionExists contact.phoneFingerprint then
            raise (.workItemError "active lease references a suppressed contact")
          else return some (← leaseResult c w cc contact campaign)
        else return none

/-- `get_active_lease`. -/
def getActiveLease (c : Call) (agent : Uuid) : Txn (Option LeaseResult) := do
  acquire (.idempotency "work.lease.agent" agent "single-active")
  getActiveLeaseLocked c agent (c.utcnow 0)

/-- `while True:` take the next candidate, try it, and pass over it when that fails. -/
def leaseLoop {γ : Type} (candidates : List Uuid → Txn (Option LeaseCandidate))
    (attempt : List Uuid → LeaseCandidate → Txn (Option γ)) : ℕ → List Uuid → Txn (Option γ)
  | 0, _ => raise .fuelExhausted
  | fuel + 1, skipped => do
    match ← candidates skipped with
    | none => return none
    | some candidate =>
      match ← attempt skipped candidate with
      | none => leaseLoop candidates attempt fuel (candidate.workItemId :: skipped)
      | some r => return some r

/-- A locked candidate with the assignment and the reason it is leased under. -/
structure Chosen where
  workItem : WorkItem
  campaignContact : CampaignContact
  contact : Contact
  assignment : CampaignUserAssignment
  source : Source

/-- One round of the callback loop; each round reads the clock anew. -/
def tryCallback (c : Call) (agent : Uuid) (now : Time) (skipped : List Uuid)
    (candidate : LeaseCandidate) : Txn (Option Chosen) := do
  match ← activeAssignmentForCampaign c agent candidate.campaignId
      (c.utcnow (skipped.length + 2)) with
  | none => return none
  | some assignment =>
    match ← lockLeaseCandidate candidate agent now .callback with
    | none => return none
    | some (w, cc, contact) => return some ⟨w, cc, contact, assignment, .callback⟩

/-- One round of the retry loop or of the queue loop. -/
def tryShared (agent : Uuid) (now : Time) (assignment : CampaignUserAssignment) (src : Source)
    (_skipped : List Uuid) (candidate : LeaseCandidate) : Txn (Option Chosen) := do
  match ← lockLeaseCandidate candidate agent now src with
  | none => return none
  | some (w, cc, contact) => return some ⟨w, cc, contact, assignment, src⟩

/-- The candidate search of `lease_next`: due callbacks, then due retries and fresh
queue items of the agent's active primary campaign. -/
def chooseWorkItem (c : Call) (agent : Uuid) (now : Time) (fuel : ℕ) : Txn (Option Chosen) := do
  match ← leaseLoop (nextCallbackCandidate c agent now) (tryCallback c agent now) fuel [] with
  | some chosen => return some chosen
  | none =>
    match ← activePrimaryAssignment c agent (c.utcnow 1) with
    | none => return none
    | some assignment =>
      match ← getRow "campaign" Db.campaigns assignment.campaignId with
      | none => return none
      | some campaign =>
        if campaign.status = .active then
          match ← leaseLoop (nextDueRetryCandidate c campaign.id now)
              (tryShared agent now assignment .dueRetry) fuel [] with
          | some chosen => return some chosen
          | none =>
            leaseLoop (nextQueueCandidate c campaign.id)
              (tryShared agent now assignment .queue) fuel []
        else return none

/-- A work item other than `id` is leased to the agent, expired or not. -/
def otherLease (db : Db) (agent id : Uuid) : Bool :=
  db.workItems.any fun w => w.state = .leased && w.leaseOwnerId = some agent && w.id ≠ id

def oneActiveLease : Err := .integrityError "uq_work_items_one_active_lease"

/-- The flush of a row that is leased to the agent, against the partial unique index. -/
def flushLease (agent id : Uuid) : Txn Unit := do
  let db ← view "flush"
  raiseIf (otherLease db agent id) oneActiveLease

/-- The columns of a lease that `lease_next` hands out. -/
def leaseTo (c : Call) (agent : Uuid) (src : Source) (assignment : Uuid) (w : WorkItem) : WorkItem :=
  { w with
    state := .leased
    leaseOwnerId := some agent
    leaseId := some (c.uuid4 0)
    leaseExpiresAt := some (c.utcnow 0 + minutes c.settings.leaseDurationMinutes)
    leaseReason := some src.reason
    campaignUserAssignmentId := some assignment
    version := w.version + 1 }

/-- `lease_next`. -/
def leaseNext (c : Call) (agent : Uuid) : Txn (Option LeaseResult) := do
  let now := c.utcnow 0
  acquire (.idempotency "work.lease.agent" agent "single-active")
  match ← getActiveLeaseLocked c agent now with
  | some lease => return some lease
  | none =>
    requireEnabled sharedPoolEnabled
    raiseIf (!c.leaseRateAllows)
      (.leaseRateLimited "you are leasing contacts too quickly; wait a moment")
    let db ← view "work items"
    match ← chooseWorkItem c agent now (c.fuel + db.workItems.length + 1) with
    | none => return none
    | some chosen =>
      let id := chosen.workItem.id
      let leased := leaseTo c agent chosen.source chosen.assignment.id
      setWorkItem id leased
      flushLease agent id
      let campaign ← expect (← getRow "campaign" Db.campaigns chosen.campaignContact.campaignId)
        (.workItemError "campaign contact references a missing campaign")
      recordAudit { action := "work.view", actorUserId := agent, targetType := "work_item", targetId := id }
      return some (← leaseResult c (leased chosen.workItem) chosen.campaignContact chosen.contact campaign)

/-- The lease is active and owned by this agent under this lease id. -/
def holdsLease (w : WorkItem) (agent leaseId : Uuid) : Bool :=
  w.state = .leased && w.leaseOwnerId = some agent && w.leaseId = some leaseId

def leaseGone : Err := .leaseConflict "lease is not active or not owned by this agent"

/-- `select(WorkItem).where(WorkItem.id == work_item_id).with_for_update()`. -/
def lockWorkItem (id : Uuid) : Txn (Option WorkItem) :=
  selectForUpdate "work_item" .workItem Db.workItems (fun _ => true) id

def renewed (c : Call) (w : WorkItem) : WorkItem := { w with
  leaseExpiresAt := some (c.utcnow 0 + minutes c.settings.leaseDurationMinutes)
  version := w.version + 1 }

/-- `renew_lease`. -/
def renewLease (c : Call) (id agent leaseId : Uuid) : Txn WorkItem := do
  let w ← expect (← lockWorkItem id) leaseGone
  raiseIf (!(holdsLease w agent leaseId && w.leaseExpiresAt.any fun t => c.utcnow 0 < t)) leaseGone
  setWorkItem id (renewed c)
  return renewed c w

/-! ## Taking leases back -/

def unlease (w : WorkItem) (state : WorkState) : WorkItem := { w with
  state := state, leaseOwnerId := none, leaseId := none, leaseExpiresAt := none
  version := w.version + 1 }

/-- Back to the pre-lease state: a callback keeps its agent. -/
def reclaimed (w : WorkItem) : WorkItem :=
  unlease w (if w.assignedAgentId.isSome then .callbackWait else .queued)

/-- Back to the shared queue, with no agent. -/
def released (w : WorkItem) : WorkItem :=
  { unlease w .queued with assignedAgentId := none, dueAt := none }

/-- The loop over the locked rows; the number of rows is the result. -/
def setAll (f : WorkItem → WorkItem) (items : List WorkItem) : Txn ℕ :=
  items.foldlM (fun count w => do setWorkItem w.id f; return count + 1) 0

def expiredLease (now : Time) (w : WorkItem) : Bool :=
  w.state = .leased && w.leaseExpiresAt.any fun t => t < now

/-- `reclaim_expired_leases`. -/
def reclaimExpiredLeases (c : Call) : Txn ℕ := do
  let now := c.utcnow 0
  let expired ← lockRows "reclaim_expired_leases" true .workItem Db.workItems
    (fun _ w => expiredLease now w) (scan c)
  setAll reclaimed expired

/-- `reclaim_leases_for_user`. -/
def reclaimLeasesForUser (c : Call) (agent : Uuid) : Txn ℕ := do
  let leased ← lockRows "reclaim_leases_for_user" true .workItem Db.workItems
    (fun _ w => w.state = .leased && w.leaseOwnerId = some agent) (scan c)
  setAll reclaimed leased

/-- Leased by the agent, or a pending callback of the agent. -/
def heldBy (agent : Uuid) (w : WorkItem) : Bool :=
  (w.state = .leased && w.leaseOwnerId = some agent) ||
    (w.state = .callbackWait && w.assignedAgentId = some agent)

/-- `release_campaign_work_for_agent`. -/
def releaseCampaignWorkForAgent (c : Call) (agent campaign : Uuid) : Txn ℕ := do
  let items ← lockRows "release_campaign_work_for_agent" true .workItem Db.workItems
    (fun db w => db.campaignOf w = some campaign && heldBy agent w) (scan c)
  setAll released items

/-! ## Completion -/

/-- `_load_leased_item`; `now` is the clock read after the row is locked. -/
def loadLeasedItem (now : Time) (id agent leaseId : Uuid) : Txn WorkItem := do
  let w ← expect (← lockWorkItem id) leaseGone
  raiseIf (!holdsLease w agent leaseId) leaseGone
  raiseIf (w.leaseExpiresAt.any fun t => t ≤ now) (.leaseConflict "lease has expired")
  return w

/-- `_existing_attempt`. -/
def existingAttempt (agent : Uuid) (idempotencyKey : String) : Txn (Option CallAttempt) := do
  let db ← view "_existing_attempt"
  return db.attempts.find? fun a => a.agentId = agent && a.idempotencyKey = idempotencyKey

/-- `_phone_fingerprint_for_work_item`. -/
def phoneFingerprintForWorkItem (id : Uuid) : Txn (Option Fingerprint) := do
  let db ← view "_phone_fingerprint_for_work_item"
  return (Table.find db.workItems id).bind db.phoneOf

structure CompletionResult where
  attemptId : Uuid
  workItemState : WorkState
  semanticOutcome : String
  callbackAt : Option Time
  retryAt : Option Time
  redialLeaseId : Option Uuid
  redialLeaseExpiresAt : Option Time
  nextStep : NextStep
deriving DecidableEq

def stateName : WorkState → String
  | .queued => "queued"
  | .leased => "leased"
  | .callbackWait => "callback_wait"
  | .retryWait => "retry_wait"
  | .review => "review"
  | .completed => "completed"
  | .suppressed => "suppressed"
  | .cancelled => "cancelled"

/-- The completion result of an attempt in its final form. -/
def completionResult (a : CallAttempt) (retryAt : Option Time) : Txn CompletionResult := do
  let step ← expect (nextStepByState a.resultingWorkItemState)
    (.keyError (stateName a.resultingWorkItemState))
  return {
    attemptId := a.id
    workItemState := a.resultingWorkItemState
    semanticOutcome := a.semanticOutcome
    callbackAt := a.callbackAt
    retryAt := retryAt
    redialLeaseId := a.resultingLeaseId
    redialLeaseExpiresAt := a.resultingLeaseExpiresAt
    nextStep := step }

/-- `_result_from_existing_attempt`. -/
def resultFromExistingAttempt (existing : CallAttempt) (workItemId : Uuid) :
    Txn CompletionResult := do
  raiseIf (existing.workItemId ≠ workItemId)
    (.idempotencyConflict "idempotency key was already used for another work item")
  if existing.resultingWorkItemState = .retryWait then
    let disposition ← getRow "disposition" Db.dispositions existing.dispositionDefinitionId
    completionResult existing ((disposition.bind (·.retryDelayMinutes)).map fun delay =>
      existing.createdAt + minutes delay)
  else completionResult existing none

def suppressed (now : Time) (w : WorkItem) : WorkItem :=
  { unlease w .suppressed with completedAt := some now }

/-- Close one pending item of a suppressed contact, with its campaign contact. -/
def suppressItem (now : Time) (createdBy : Uuid) (w : WorkItem) : Txn Unit := do
  setWorkItem w.id (suppressed now)
  let cc ← expect (← getRow "campaign_contact" Db.campaignContacts w.campaignContactId)
    (.workItemError "work item references a missing campaign contact")
  setCampaignContact cc.id (stampBy createdBy .suppressed now "explicit_dnc")

/-- `_suppress_contact_everywhere`. -/
def suppressContactEverywhere (c : Call) (contact : Contact) (source : String) (createdBy : Uuid) :
    Txn Unit := do
  acquire (.phone contact.phoneFingerprint)
  let db ← view "existing suppression"
  if !db.suppressed contact.phoneFingerprint then
    insertRow "suppression_entries" .suppression Db.suppressions Db.addSuppression
      { id := c.uuid4 2
        phoneFingerprint := contact.phoneFingerprint
        protectedPhoneValue := some contact.phoneCiphertext
        source := source
        effectiveAt := c.utcnow 3
        createdBy := some createdBy }
  let pending ← lockRows "pending items" false .workItem Db.workItems
    (fun db w => (db.campaignContact w).map (·.contactId) = some contact.id && !w.state.terminal)
    (scan c)
  pending.forM (suppressItem (c.utcnow 4) createdBy)

structure CompleteRequest where
  workItemId : Uuid
  agentId : Uuid
  leaseId : Uuid
  dispositionId : Uuid
  notes : Option String := none
  callbackAt : Option Time := none
  selfReportedDurationSeconds : Option ℤ := none
  idempotencyKey : String

/-- The checks of `complete_work_item` on the disposition and the submitted fields. -/
def checkedDisposition (c : Call) (r : CompleteRequest) (cc : CampaignContact) :
    Txn CampaignDispositionDefinition := do
  let mismatch : Err :=
    .dispositionMismatch "disposition does not belong to this work item's campaign"
  let disposition ← expect (← getRow "disposition" Db.dispositions r.dispositionId) mismatch
  raiseIf (disposition.campaignId ≠ cc.campaignId) mismatch
  raiseIf (!disposition.active) (.dispositionMismatch "disposition is not active")
  raiseIf (disposition.requiresNotes && r.notes.all (· = ""))
    (.missingRequiredField "notes are required for this disposition")
  if r.callbackAt.isSome then requireEnabled callbacksEnabled
  raiseIf (disposition.requiresCallbackTime && r.callbackAt.isNone)
    (.missingRequiredField "a callback time is required for this disposition")
  raiseIf (disposition.requiresCallbackTime && r.callbackAt.any fun t => t ≤ c.utcnow 2)
    (.missingRequiredField "callback time must be in the future")
  raiseIf (r.selfReportedDurationSeconds.any fun d => d < 0)
    (.missingRequiredField "duration cannot be negative")
  return disposition

/-- The attempt as first stored; its result columns are replaced at the end. -/
def newAttempt (c : Call) (r : CompleteRequest) (w : WorkItem) (cc : CampaignContact)
    (disposition : CampaignDispositionDefinition) : CallAttempt where
  id := c.uuid4 0
  workItemId := w.id
  campaignContactId := cc.id
  agentId := r.agentId
  campaignUserAssignmentId := w.campaignUserAssignmentId
  dispositionDefinitionId := disposition.id
  semanticOutcome := disposition.stableSemanticCode
  notesCiphertext := (r.notes.filter (· ≠ "")).map c.encrypt
  selfReportedDurationSeconds := r.selfReportedDurationSeconds
  explicitDncRequested := disposition.causesDnc
  callbackAt := if disposition.requiresCallbackTime then r.callbackAt else none
  idempotencyKey := r.idempotencyKey
  sourceLeaseReason := w.leaseReason
  createdAt := c.utcnow 0
  resultingWorkItemState := w.state

def insertAttempt (a : CallAttempt) : Txn Unit :=
  insertRow "call_attempts" .attempt Db.attempts Db.addAttempt a

/-- What a disposition that is neither a callback nor a DNC makes of the work item,
with the audit event of the branch. `attemptCount` already counts this attempt. -/
def dispose (c : Call) (agent : Uuid) (disposition : CampaignDispositionDefinition) (w : WorkItem) :
    Except Err (WorkItem × Option AuditEvent) :=
  let exhausted : Bool := w.maxAttempts ≤ w.attemptCount
  match disposition.nextAction.getD .complete with
  | .review => .ok (unlease w .review, none)
  | .requeue => .ok (unlease w (if exhausted then .review else .queued), none)
  | .retryWait =>
    if exhausted then .ok (unlease w .review, none)
    else match disposition.retryDelayMinutes with
      | none => .error (.dispositionMismatch "retry disposition is missing a configured retry delay")
      | some delay =>
        let dueAt := c.utcnow 0 + minutes delay
        .ok ({ unlease w .retryWait with dueAt := some dueAt, assignedAgentId := none },
          some {
            action := "work.retry.schedule", actorUserId := agent
            targetType := "work_item", targetId := w.id
            eventMetadata := [("due_at", .time dueAt)] })
  | .immediateRedial =>
    if exhausted then .ok (unlease w .review, none)
    else
      let newExpiry := c.utcnow 0 + minutes c.settings.leaseDurationMinutes
      .ok ({ unlease w .leased with
          leaseOwnerId := some agent, leaseId := some (c.uuid4 1)
          leaseExpiresAt := some newExpiry, leaseReason := some .immediateRedial },
        some {
          action := "work.redial.ready", actorUserId := agent
          targetType := "work_item", targetId := w.id
          eventMetadata := [("lease_expires_at", .time newExpiry)] })
  | .complete => .ok ({ unlease w .completed with completedAt := some (c.utcnow 5) }, none)
  | .other _ => .error (.dispositionMismatch "disposition has an unsupported next action")

/-- This attempt is counted. -/
def counted (w : WorkItem) : WorkItem := { w with attemptCount := w.attemptCount + 1 }

def callbackFor (agent : Uuid) (dueAt : Option Time) (w : WorkItem) : WorkItem :=
  { unlease w .callbackWait with dueAt := dueAt, assignedAgentId := some agent }

/-- The branches of `complete_work_item` on the disposition kind. -/
def applyDisposition (c : Call) (r : CompleteRequest) (w : WorkItem) (cc : CampaignContact)
    (contact : Contact) (disposition : CampaignDispositionDefinition) : Txn Unit := do
  setWorkItem w.id counted
  if disposition.causesDnc then
    suppressContactEverywhere c contact "explicit_contact_request" r.agentId
    recordAudit {
      action := "work.dnc", actorUserId := r.agentId, targetType := "contact"
      targetId := contact.id }
  else if disposition.requiresCallbackTime then
    setWorkItem w.id (callbackFor r.agentId r.callbackAt)
  else
    match dispose c r.agentId disposition (counted w) with
    | .error e => raise e
    | .ok (w', event) =>
      setWorkItem w.id fun _ => w'
      if w'.state = .leased then flushLease r.agentId w.id
      if disposition.nextAction.getD .complete = .complete then
        setCampaignContact cc.id
          (stampBy r.agentId .completed (c.utcnow 6) disposition.stableSemanticCode)
      event.forM recordAudit

/-- The result columns of the attempt, from the work item as the branch left it. -/
def finishAttempt (a : CallAttempt) (w : WorkItem) : CallAttempt := { a with
  resultingWorkItemState := w.state
  resultingLeaseId := if w.state = .leased then w.leaseId else none
  resultingLeaseExpiresAt := if w.state = .leased then w.leaseExpiresAt else none }

/-- `complete_work_item` once the lease is loaded. -/
def completeLeased (c : Call) (r : CompleteRequest) (w : WorkItem) : Txn CompletionResult := do
  let cc ← expect (← getRow "campaign_contact" Db.campaignContacts w.campaignContactId)
    (.workItemError "work item references a missing campaign contact")
  let disposition ← checkedDisposition c r cc
  let contact ← expect (← getRow "contact" Db.contacts cc.contactId)
    (.workItemError "campaign contact references a missing contact")
  let attempt := newAttempt c r w cc disposition
  insertAttempt attempt
  applyDisposition c r w cc contact disposition
  -- the session's work item, as the branch left it
  let final ← expect (← getRow "work_item" Db.workItems w.id) leaseGone
  update (Db.modifyAttempt attempt.id fun a => finishAttempt a final)
  recordAudit {
    action := "work.complete", actorUserId := r.agentId, targetType := "work_item"
    targetId := w.id, reasonCode := disposition.stableSemanticCode }
  completionResult (finishAttempt attempt final)
    (if final.state = .retryWait then final.dueAt else none)

/-- `complete_work_item`. -/
def completeWorkItem (c : Call) (r : CompleteRequest) : Txn CompletionResult := do
  acquire (.idempotency "work.complete" r.agentId r.idempotencyKey)
  match ← existingAttempt r.agentId r.idempotencyKey with
  | some existing => resultFromExistingAttempt existing r.workItemId
  | none =>
    let phone ← expect (← phoneFingerprintForWorkItem r.workItemId) leaseGone
    acquire (.phone phone)
    let w ← loadLeasedItem (c.utcnow 1) r.workItemId r.agentId r.leaseId
    completeLeased c r w

def skipped (c : Call) (w : WorkItem) : WorkItem :=
  { unlease w (if c.settings.maxSkipsBeforeReview ≤ w.skipCount + 1 then .review else .queued) with
    skipCount := w.skipCount + 1 }

/-- `skip_work_item`. -/
def skipWorkItem (c : Call) (id agent leaseId : Uuid) (reason : String) : Txn WorkItem := do
  raiseIf (blank reason) (.missingRequiredField "a reason is required to skip")
  let w ← loadLeasedItem (c.utcnow 0) id agent leaseId
  setWorkItem id (skipped c)
  recordAudit {
    action := "work.skip", actorUserId := agent, targetType := "work_item", targetId := id
    reasonCode := truncate reason 50 }
  return skipped c w

/-! ## Review -/

/-- `_load_review_item`. -/
def loadReviewItem (id : Uuid) : Txn WorkItem := do
  let e : Err := .reviewStateError "work item is not awaiting review"
  let w ← expect (← lockWorkItem id) e
  raiseIf (w.state ≠ .review) e
  return w

/-- Back to the shared pool, due at a time the reviewer chose. -/
def rescheduled (dueAt : Time) (w : WorkItem) : WorkItem := { w with
  state := .retryWait, dueAt := some dueAt, assignedAgentId := none, version := w.version + 1 }

/-- `reschedule_review_item`. -/
def rescheduleReviewItem (c : Call) (id actor : Uuid) (retryAt : Time) (reason : String) :
    Txn WorkItem := do
  raiseIf (blank reason) (.missingRequiredField "a reason is required to reschedule a review item")
  raiseIf (retryAt ≤ c.utcnow 0) (.missingRequiredField "retry time must be in the future")
  let w ← loadReviewItem id
  setWorkItem id (rescheduled retryAt)
  recordAudit {
    action := "work.review.retry", actorUserId := actor, targetType := "work_item", targetId := id
    reasonCode := truncate reason 50, eventMetadata := [("retry_at", .time retryAt)] }
  return rescheduled retryAt w

/-- `increase_review_item_attempts`. -/
def increaseReviewItemAttempts (c : Call) (id actor : Uuid) (newMaxAttempts : ℤ) (reason : String) :
    Txn WorkItem := do
  raiseIf (blank reason) (.missingRequiredField "a reason is required to allow more attempts")
  let w ← loadReviewItem id
  raiseIf (newMaxAttempts ≤ w.attemptCount) (.missingRequiredField
    ("new maximum must be greater than the current attempt count (" ++
      toString w.attemptCount ++ ")"))
  let raised (w : WorkItem) : WorkItem :=
    { rescheduled (c.utcnow 0) w with maxAttempts := newMaxAttempts }
  setWorkItem id raised
  recordAudit {
    action := "work.review.retry", actorUserId := actor, targetType := "work_item", targetId := id
    reasonCode := truncate reason 50, eventMetadata := [("new_max_attempts", .num newMaxAttempts)] }
  return raised w

/-- The newest attempt on a work item. -/
def lastAttempt (c : Call) (id : Uuid) : Txn (Option CallAttempt) := do
  let db ← view "last attempt"
  return newest c CallAttempt.createdAt (db.attempts.filter fun a => a.workItemId = id)

def closed (now : Time) (w : WorkItem) : WorkItem := { w with
  state := .completed, completedAt := some now, version := w.version + 1 }

/-- `close_review_item`. -/
def closeReviewItem (c : Call) (id actor : Uuid) (reason : String) : Txn WorkItem := do
  raiseIf (blank reason) (.missingRequiredField "a reason is required to close a review item")
  let w ← loadReviewItem id
  let last ← expect (← lastAttempt c id)
    (.workItemError "cannot close a review item with no recorded attempts")
  let cc ← expect (← getRow "campaign_contact" Db.campaignContacts w.campaignContactId)
    (.workItemError "work item references a missing campaign contact")
  let now := c.utcnow 0
  setWorkItem id (closed now)
  setCampaignContact cc.id (stampBy last.agentId .completed now last.semanticOutcome)
  recordAudit {
    action := "work.review.close", actorUserId := actor, targetType := "work_item", targetId := id
    reasonCode := truncate reason 50
    eventMetadata := [("final_disposition_code", .text last.semanticOutcome)] }
  return closed now w

end OmniDB.Work
