import OmniDB.Tx.Table
import Mathlib.Data.Nat.Notation
import Mathlib.Data.Int.Notation

/-! The rows of the database, table by table, as `app/models` declares them.
Columns that no modelled function reads or writes are left out. A `datetime` is
the number of microseconds since the epoch, a `date` its ordinal day, a `uuid` a
number. Columns whose code values form a fixed set are enumerations. -/

namespace OmniDB

abbrev Uuid := ℕ
abbrev Time := ℤ
abbrev Date := ℤ

/-- `timedelta(minutes=n)`. -/
def minutes (n : ℤ) : Time := n * 60000000
/-- `timedelta(hours=n)`. -/
def hours (n : ℤ) : Time := minutes (60 * n)
/-- `timedelta(days=n)`. -/
def days (n : ℤ) : Time := hours (24 * n)

/-! ## Work -/

inductive WorkState where
  | queued | leased | callbackWait | retryWait | review | completed | suppressed | cancelled
deriving DecidableEq

/-- `_TERMINAL_STATES`. -/
def WorkState.terminal : WorkState → Bool
  | completed | suppressed | cancelled => true
  | _ => false

inductive LeaseReason where
  | normal | scheduledCallback | delayedRetry | immediateRedial
deriving DecidableEq

structure WorkItem where
  id : Uuid
  campaignContactId : Uuid
  campaignUserAssignmentId : Option Uuid := none
  assignedAgentId : Option Uuid := none
  state : WorkState := .queued
  priority : ℤ := 0
  dueAt : Option Time := none
  attemptCount : ℕ := 0
  maxAttempts : ℤ := 5
  skipCount : ℕ := 0
  leaseOwnerId : Option Uuid := none
  leaseId : Option Uuid := none
  leaseExpiresAt : Option Time := none
  version : ℕ := 0
  completedAt : Option Time := none
  leaseReason : Option LeaseReason := none
  createdAt : Time := 0
deriving DecidableEq

structure CallAttempt where
  id : Uuid
  workItemId : Uuid
  campaignContactId : Uuid
  agentId : Uuid
  campaignUserAssignmentId : Option Uuid := none
  dispositionDefinitionId : Uuid
  semanticOutcome : String
  notesCiphertext : Option String := none
  selfReportedDurationSeconds : Option ℤ := none
  explicitDncRequested : Bool := false
  callbackAt : Option Time := none
  idempotencyKey : String
  resultingWorkItemState : WorkState
  correctionOfAttemptId : Option Uuid := none
  createdAt : Time
  sourceLeaseReason : Option LeaseReason := none
  resultingLeaseId : Option Uuid := none
  resultingLeaseExpiresAt : Option Time := none
deriving DecidableEq

/-! ## Contacts and suppression -/

abbrev Fingerprint := String

structure Contact where
  id : Uuid
  phoneCiphertext : String
  phoneFingerprint : Fingerprint
  phoneKeyVersion : ℤ := 1
deriving DecidableEq

inductive ContactStatus where
  | queued | completed | suppressed
deriving DecidableEq

/-- `canonical_values` / `approved_metadata`: column names with their text. -/
abbrev Metadata := List (String × String)

structure CampaignContact where
  id : Uuid
  campaignId : Uuid
  contactId : Uuid
  originalPhoneProtected : Option String := none
  campaignNameValue : Option String := none
  approvedMetadata : Option Metadata := none
  sourceRowReference : Option String := none
  status : ContactStatus := .queued
  importedAt : Time := 0
  completedAt : Option Time := none
  completedByAgentId : Option Uuid := none
  finalDispositionCode : Option String := none
deriving DecidableEq

/-- The code writes only `active`; other texts come from outside it. -/
inductive SuppressionStatus where
  | active
  | other (text : String)
deriving DecidableEq

structure SuppressionEntry where
  id : Uuid
  phoneFingerprint : Fingerprint
  protectedPhoneValue : Option String := none
  source : String
  effectiveAt : Time
  status : SuppressionStatus := .active
  createdBy : Option Uuid := none
deriving DecidableEq

/-! ## Campaigns -/

inductive CampaignStatus where
  | draft | active | paused | completed | archived
deriving DecidableEq

inductive ScopeType where
  | installation | organization | team | campaign
  | other (text : String)
deriving DecidableEq

structure Campaign where
  id : Uuid
  owningScopeType : ScopeType := .organization
  owningScopeId : Option Uuid := none
  externalCode : String := ""
  name : String := ""
  purpose : Option String := none
  dataSource : Option String := none
  dataObtainedAt : Option Date := none
  lawfulBasisOrConsentReference : Option String := none
  defaultRegion : String := "ZW"
  timezone : String := "Africa/Harare"
  status : CampaignStatus := .draft
  createdBy : Option Uuid := none
  launchedAt : Option Time := none
  archivedAt : Option Time := none
  completedAt : Option Time := none
  retentionDeleteAfter : Option Time := none
  dispositionPolicyVersion : Option ℤ := none
deriving DecidableEq

/-- Status of an effective-dated row. -/
inductive EffectiveStatus where
  | active | ended
deriving DecidableEq

structure CampaignTeamAssignment where
  id : Uuid
  campaignId : Uuid
  teamId : Uuid
  effectiveFrom : Time
  effectiveTo : Option Time := none
  status : EffectiveStatus := .active
  staffingCapacity : Option ℤ := none
  assignedBy : Option Uuid := none
deriving DecidableEq

structure CampaignUserAssignment where
  id : Uuid
  campaignId : Uuid
  userId : Uuid
  teamId : Option Uuid := none
  campaignRole : String
  assignmentType : String := "primary"
  effectiveFrom : Time
  effectiveTo : Option Time := none
  status : EffectiveStatus := .active
  priority : Option ℤ := none
  allocationPercentage : Option ℤ := none
  shiftReference : Option String := none
  assignedBy : Option Uuid := none
deriving DecidableEq

/-- `next_action`; the column also admits texts the service does not support. -/
inductive NextAction where
  | complete | review | requeue | retryWait | immediateRedial
  | other (text : String)
deriving DecidableEq

structure CampaignDispositionDefinition where
  id : Uuid
  campaignId : Uuid
  label : String := ""
  stableSemanticCode : String
  nextAction : Option NextAction := none
  requiresNotes : Bool := false
  requiresCallbackTime : Bool := false
  countsAsConnected : Bool := false
  countsAsConversion : Bool := false
  causesDnc : Bool := false
  displayOrder : ℤ := 0
  active : Bool := true
  isStandard : Bool := false
  retryDelayMinutes : Option ℤ := none
  immediateRedial : Bool := false
  policyVersion : Option ℤ := none
deriving DecidableEq

/-! ## Campaign imports -/

inductive JobState where
  | uploaded | quarantined | parsing | parsed | failed | committed | expired
deriving DecidableEq

/-- `{"job_id", "inserted", "suppressed"}`. -/
structure ImportResult where
  jobId : Uuid
  inserted : ℕ
  suppressed : ℕ
deriving DecidableEq

structure ImportJob where
  id : Uuid
  campaignId : Uuid
  uploaderId : Uuid
  sourceFilenameDisplay : String := ""
  generatedStorageKey : String := ""
  fileHash : String := ""
  state : JobState := .uploaded
  totalRows : ℕ := 0
  validRows : ℕ := 0
  invalidRows : ℕ := 0
  duplicateRows : ℕ := 0
  suppressionHits : ℕ := 0
  decisionVersion : ℤ := 0
  idempotencyKey : Option String := none
  errorSummary : Option String := none
  expiresAt : Option Time := none
  committedAt : Option Time := none
  committedResult : Option ImportResult := none
deriving DecidableEq

inductive RowValidation where
  | valid | warning | invalid
deriving DecidableEq

structure ImportRow where
  id : Uuid
  importJobId : Uuid
  rowNumber : ℕ
  rawPhoneProtected : Option String := none
  phoneFingerprint : Option Fingerprint := none
  canonicalValues : Option Metadata := none
  validationResult : RowValidation
  validationDetail : Option String := none
  duplicateCategory : Option String := none
  suppressionMatch : Bool := false
deriving DecidableEq

inductive Decision where
  | approve | reject | cancel
deriving DecidableEq

structure ImportDecision where
  id : Uuid
  importJobId : Uuid
  decisionVersion : ℤ
  decision : Decision
  decidedBy : Uuid
  note : Option String := none
  createdAt : Time := 0
deriving DecidableEq

/-! ## People, teams and authority -/

structure User where
  id : Uuid
  workforceId : String := ""
  email : String := ""
  displayName : String := ""
  passwordHash : Option String := none
  totpSecretCiphertext : Option String := none
  totpEnrolled : Bool := false
  workforceStatus : EffectiveStatus := .active
  active : Bool := true
  startDate : Option Date := none
  endDate : Option Date := none
  lastLoginAt : Option Time := none
  disabledAt : Option Time := none
  createdAt : Time := 0
deriving DecidableEq

structure Organization where
  id : Uuid
  name : String := ""
  active : Bool := true
deriving DecidableEq

structure Team where
  id : Uuid
  organizationId : Uuid
  externalCode : String := ""
  name : String := ""
  parentTeamId : Option Uuid := none
  active : Bool := true
deriving DecidableEq

structure TeamMembership where
  id : Uuid
  teamId : Uuid
  userId : Uuid
  membershipStatus : EffectiveStatus := .active
  effectiveFrom : Time
  effectiveTo : Option Time := none
  createdBy : Option Uuid := none
  endedAt : Option Time := none
deriving DecidableEq

inductive Role where
  | superAdmin | manager | teamLeader | teamCaptain | agent | viewer
  | other (text : String)
deriving DecidableEq

inductive Capability where
  | technicalConfig | resetUserAuth | viewAudit | createManager | manageRoles
  | appointTeamLeader | appointTeamCaptain | createAgent
  | createCampaign | viewCampaign | manageCampaign | pauseCampaign | launchCampaign
  | archiveCampaign | workQueue | assignCampaignAgent | viewCampaignReports
  | exportCompletedCampaign
deriving DecidableEq

structure RoleAssignment where
  id : Uuid
  userId : Uuid
  roleCode : Role
  scopeType : ScopeType
  scopeId : Option Uuid := none
  effectiveFrom : Time
  effectiveTo : Option Time := none
  status : EffectiveStatus := .active
  reasonCode : Option String := none
  appointedBy : Option Uuid := none
  endedAt : Option Time := none
deriving DecidableEq

structure ReportingAssignment where
  id : Uuid
  subordinateUserId : Uuid
  supervisorUserId : Uuid
  contextType : String := "organization"
  contextId : Option Uuid := none
  effectiveFrom : Time
  effectiveTo : Option Time := none
  assignmentType : String := "primary"
  status : EffectiveStatus := .active
  assignedBy : Option Uuid := none
  reasonCode : Option String := none
  endedAt : Option Time := none
deriving DecidableEq

structure Delegation where
  id : Uuid
  delegatorUserId : Uuid
  delegateUserId : Uuid
  capabilitySet : List Capability := []
  scopeType : ScopeType
  scopeId : Option Uuid := none
  effectiveFrom : Time
  effectiveTo : Option Time := none
  reasonCode : Option String := none
  revokedAt : Option Time := none
deriving DecidableEq

structure UserSession where
  id : Uuid
  userId : Uuid
  tokenHash : String := ""
  lastSeenAt : Option Time := none
  idleExpiresAt : Time := 0
  absoluteExpiresAt : Time := 0
  revokedAt : Option Time := none
  sourceSummary : Option String := none
  mfaState : String := "none"
  reauthenticatedAt : Option Time := none
deriving DecidableEq

structure ActivationToken where
  id : Uuid
  userId : Uuid
  tokenHash : String
  createdBy : Option Uuid := none
  expiresAt : Time
  usedAt : Option Time := none
deriving DecidableEq

/-! ## Workforce imports -/

inductive ImportType where
  | users | explicitDeactivations | teamMemberships | roleAssignments | reportingAssignments
  | campaignUserAssignments
deriving DecidableEq

inductive RiskLevel where
  | routine | highRisk
deriving DecidableEq

inductive DecisionTier where
  | standard | highRisk
deriving DecidableEq

/-- `parsed_values`. A missing key and a `None` value are the same to every reader. -/
structure ParsedValues where
  loginIdentifier : Option String := none
  displayName : Option String := none
  startDate : Option Date := none
  endDate : Option Date := none
  reasonCode : Option String := none
  teamId : Option Uuid := none
  roleCode : Option Role := none
  scopeType : Option ScopeType := none
  scopeId : Option Uuid := none
  supervisorUserId : Option Uuid := none
  campaignId : Option Uuid := none
deriving DecidableEq

/-- `pre_commit_snapshot`: the overwritten user fields, or the replaced supervisor.
The outer `Option` of a field is the presence of its key. -/
inductive Snapshot where
  | userFields (displayName : Option String) (startDate endDate : Option (Option Date))
  | priorSupervisor (id : Option Uuid)
deriving DecidableEq

/-- The outcomes of one row's commit or reversal. -/
inductive Outcome where
  | created | updated | reactivated | deactivated | added | ended | assigned | set
  | skippedConflict | restored
deriving DecidableEq

inductive EntityType where
  | user | teamMembership | roleAssignment | reportingAssignment | campaignUserAssignment
deriving DecidableEq

/-- One authorization fact a row's effect depends on (`_row_requirement`). -/
inductive Requirement where
  | deny
  | user (target : Uuid)
  | scope (capability : Capability) (scopeType : ScopeType) (scopeId : Option Uuid)
  | campaign (campaignId : Uuid)
deriving DecidableEq

/-- The stored footprint, as the JSON column holds it: every entry is a list of texts and nulls. -/
structure Footprint where
  overCap : Bool
  requirements : List (List (Option String))
deriving DecidableEq

structure WorkforceImportJob where
  id : Uuid
  importType : ImportType
  uploaderId : Uuid
  sourceFilenameDisplay : String := ""
  state : JobState := .quarantined
  totalRows : ℕ := 0
  validRows : ℕ := 0
  warningRows : ℕ := 0
  invalidRows : ℕ := 0
  highRiskRows : ℕ := 0
  decisionVersion : ℤ := 0
  idempotencyKey : Option String := none
  errorSummary : Option String := none
  expiresAt : Option Time := none
  committedAt : Option Time := none
  reversedAt : Option Time := none
  committedResult : Option (List (ℕ × Outcome)) := none
  authorizationFootprint : Option Footprint := none
  createdAt : Time := 0
deriving DecidableEq

structure WorkforceImportRow where
  id : Uuid
  importJobId : Uuid
  rowNumber : ℕ
  action : Option String := none
  externalWorkforceId : Option String := none
  normalizedIdentity : Option Uuid := none
  parsedValues : Option ParsedValues := none
  validationResult : RowValidation
  validationDetail : Option String := none
  conflictType : Option String := none
  riskLevel : RiskLevel := .routine
  committedEntityType : Option EntityType := none
  committedEntityId : Option Uuid := none
  preCommitSnapshot : Option Snapshot := none
  reversedAt : Option Time := none
deriving DecidableEq

structure WorkforceImportDecision where
  id : Uuid
  importJobId : Uuid
  decisionVersion : ℤ
  decision : Decision
  decisionTier : DecisionTier
  decidedBy : Uuid
  note : Option String := none
deriving DecidableEq

/-! ## Audit, notifications and flags -/

/-- A value inside `event_metadata`. -/
inductive MetaValue where
  | text (s : String)
  | num (n : ℤ)
  | uuid (u : Uuid)
  | time (t : Time)
  | flag (b : Bool)
deriving DecidableEq

structure AuditEvent where
  action : String
  actorUserId : Option Uuid := none
  targetType : Option String := none
  targetId : Option Uuid := none
  reasonCode : Option String := none
  eventMetadata : List (String × MetaValue) := []
deriving DecidableEq

structure Notification where
  recipientUserId : Uuid
  category : String
  title : String
  relatedEntityType : Option String := none
  relatedEntityId : Option Uuid := none
deriving DecidableEq

structure FeatureFlag where
  flagKey : String
  enabled : Bool
deriving DecidableEq

section Keys

open Tx (Keyed)

instance : Keyed WorkItem Uuid := ⟨WorkItem.id⟩
instance : Keyed CallAttempt Uuid := ⟨CallAttempt.id⟩
instance : Keyed Contact Uuid := ⟨Contact.id⟩
instance : Keyed CampaignContact Uuid := ⟨CampaignContact.id⟩
instance : Keyed SuppressionEntry Uuid := ⟨SuppressionEntry.id⟩
instance : Keyed Campaign Uuid := ⟨Campaign.id⟩
instance : Keyed CampaignTeamAssignment Uuid := ⟨CampaignTeamAssignment.id⟩
instance : Keyed CampaignUserAssignment Uuid := ⟨CampaignUserAssignment.id⟩
instance : Keyed CampaignDispositionDefinition Uuid := ⟨CampaignDispositionDefinition.id⟩
instance : Keyed ImportJob Uuid := ⟨ImportJob.id⟩
instance : Keyed ImportRow Uuid := ⟨ImportRow.id⟩
instance : Keyed ImportDecision Uuid := ⟨ImportDecision.id⟩
instance : Keyed User Uuid := ⟨User.id⟩
instance : Keyed Organization Uuid := ⟨Organization.id⟩
instance : Keyed Team Uuid := ⟨Team.id⟩
instance : Keyed TeamMembership Uuid := ⟨TeamMembership.id⟩
instance : Keyed RoleAssignment Uuid := ⟨RoleAssignment.id⟩
instance : Keyed ReportingAssignment Uuid := ⟨ReportingAssignment.id⟩
instance : Keyed Delegation Uuid := ⟨Delegation.id⟩
instance : Keyed UserSession Uuid := ⟨UserSession.id⟩
instance : Keyed ActivationToken Uuid := ⟨ActivationToken.id⟩
instance : Keyed WorkforceImportJob Uuid := ⟨WorkforceImportJob.id⟩
instance : Keyed WorkforceImportRow Uuid := ⟨WorkforceImportRow.id⟩
instance : Keyed WorkforceImportDecision Uuid := ⟨WorkforceImportDecision.id⟩

end Keys

end OmniDB
