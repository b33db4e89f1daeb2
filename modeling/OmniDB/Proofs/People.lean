import OmniDB.Spec.System
import OmniDB.Tx.Writes

/-! The campaign service never touches the tables of people, authority and bulk imports. -/

namespace OmniDB

open Tx
open Tx.Prog

/-- The tables of `app/workforce`, `app/authz` and `app/workforce_imports`. -/
structure People where
  users : List User
  organizations : List Organization
  teams : List Team
  memberships : List TeamMembership
  roleAssignments : List RoleAssignment
  reportingAssignments : List ReportingAssignment
  delegations : List Delegation
  sessions : List UserSession
  activationTokens : List ActivationToken
  workforceJobs : List WorkforceImportJob
  workforceRows : List WorkforceImportRow
  workforceDecisions : List WorkforceImportDecision
  flags : List FeatureFlag

def Db.people (db : Db) : People where
  users := db.users
  organizations := db.organizations
  teams := db.teams
  memberships := db.memberships
  roleAssignments := db.roleAssignments
  reportingAssignments := db.reportingAssignments
  delegations := db.delegations
  sessions := db.sessions
  activationTokens := db.activationTokens
  workforceJobs := db.workforceJobs
  workforceRows := db.workforceRows
  workforceDecisions := db.workforceDecisions
  flags := db.flags

section Statements

variable {τ : Type} {π : Db → τ} {ρ : Type} [Keyed ρ Uuid]

instance (n : String) (table : Db → List ρ) (id : Uuid) : Leaves π (getRow n table id) := by
  unfold getRow; infer_instance

instance (n : String) (key : Uuid → LockKey) (table : Db → List ρ) (cond : ρ → Bool) (id : Uuid) :
    Leaves π (selectForUpdate n key table cond id) := by
  unfold selectForUpdate
  refine .then inferInstance fun r => ?_
  cases r <;> infer_instance

instance (n : String) (key : Uuid → LockKey) (table : Db → List ρ) (cond : ρ → Bool) (id : Uuid) :
    Leaves π (selectSkipLocked n key table cond id) := by
  unfold selectSkipLocked
  refine .then inferInstance fun r => ?_
  cases r <;> infer_instance

instance (n : String) (skip : Bool) (key : Uuid → LockKey) (table : Db → List ρ) (cond : ρ → Bool)
    (acc : List ρ) (r : ρ) : Leaves π (lockRow n skip key table cond acc r) := by
  unfold lockRow; infer_instance

instance (n : String) (skip : Bool) (key : Uuid → LockKey) (table : Db → List ρ) (cond : Db → ρ → Bool)
    (sort : List ρ → List ρ) : Leaves π (lockRows n skip key table cond sort) := by
  unfold lockRows; infer_instance

theorem leaves_insertRow {n : String} {key : Uuid → LockKey} {table : Db → List ρ} {push : ρ → Db → Db} {r : ρ}
    (h : Keeps π (push r)) : Leaves π (insertRow n key table push r) := by
  have := Leaves.update (κ := LockKey) (ε := Err) h
  unfold insertRow; infer_instance

instance (key : String) : Leaves π (requireEnabled key) := by unfold requireEnabled; infer_instance

end Statements

section Leaf

instance (e : AuditEvent) : Leaves Db.people (recordAudit e) := .update fun _ => rfl
instance (n : Notification) : Leaves Db.people (notify n) := .then inferInstance fun _ => .update fun _ => rfl

end Leaf

/-! ## The work queue -/

namespace Work

instance (id : Uuid) (f : WorkItem → WorkItem) : Leaves Db.people (setWorkItem id f) := .update fun _ => rfl

instance (id : Uuid) (f : CampaignContact → CampaignContact) : Leaves Db.people (setCampaignContact id f) :=
  .then inferInstance fun _ => .update fun _ => rfl

instance (a : CallAttempt) : Leaves Db.people (insertAttempt a) := leaves_insertRow fun _ => rfl

instance (phone : Fingerprint) : Leaves Db.people (activeSuppressionExists phone) := by
  unfold activeSuppressionExists; infer_instance

instance (l : LeaseCandidate) (agent : Uuid) (now : Time) (src : Source) :
    Leaves Db.people (lockLeaseCandidate l agent now src) := by
  unfold lockLeaseCandidate
  repeat' first | infer_instance | split | refine .then inferInstance fun _ => ?_

instance (c : Call) (w : WorkItem) (cc : CampaignContact) (contact : Contact) (campaign : Campaign) :
    Leaves Db.people (leaseResult c w cc contact campaign) := by
  unfold leaseResult
  repeat' first | infer_instance | split

instance (c : Call) (agent : Uuid) (now : Time) : Leaves Db.people (getActiveLeaseLocked c agent now) := by
  unfold getActiveLeaseLocked activeLeaseCandidate
  repeat' first | infer_instance | split | refine .then inferInstance fun _ => ?_

instance {γ : Type} (candidates : List Uuid → Txn (Option LeaseCandidate))
    (attempt : List Uuid → LeaseCandidate → Txn (Option γ)) [∀ l, Leaves Db.people (candidates l)]
    [∀ l x, Leaves Db.people (attempt l x)] (fuel : ℕ) (skipped : List Uuid) :
    Leaves Db.people (leaseLoop candidates attempt fuel skipped) := by
  induction fuel generalizing skipped with
  | zero => exact inferInstanceAs (Leaves _ (raise _))
  | succ n ih =>
    unfold leaseLoop
    repeat' first | infer_instance | exact ih _ | split | refine .then inferInstance fun _ => ?_

instance (c : Call) (agent campaign : Uuid) (now : Time) :
    Leaves Db.people (activeAssignmentForCampaign c agent campaign now) := by
  unfold activeAssignmentForCampaign; infer_instance

instance (c : Call) (agent : Uuid) (now : Time) : Leaves Db.people (activePrimaryAssignment c agent now) := by
  unfold activePrimaryAssignment; infer_instance

instance (c : Call) (agent : Uuid) (now : Time) (l : List Uuid) :
    Leaves Db.people (nextCallbackCandidate c agent now l) := by
  unfold nextCallbackCandidate; infer_instance

instance (c : Call) (campaign : Uuid) (l : List Uuid) : Leaves Db.people (nextQueueCandidate c campaign l) := by
  unfold nextQueueCandidate; infer_instance

instance (c : Call) (campaign : Uuid) (now : Time) (l : List Uuid) :
    Leaves Db.people (nextDueRetryCandidate c campaign now l) := by
  unfold nextDueRetryCandidate; infer_instance

instance (c : Call) (agent : Uuid) (now : Time) (l : List Uuid) (x : LeaseCandidate) :
    Leaves Db.people (tryCallback c agent now l x) := by
  unfold tryCallback
  repeat' first | infer_instance | split | refine .then inferInstance fun _ => ?_

instance (agent : Uuid) (now : Time) (a : CampaignUserAssignment) (src : Source) (l : List Uuid)
    (x : LeaseCandidate) : Leaves Db.people (tryShared agent now a src l x) := by
  unfold tryShared
  repeat' first | infer_instance | split | refine .then inferInstance fun _ => ?_

instance (c : Call) (agent : Uuid) (now : Time) (fuel : ℕ) :
    Leaves Db.people (chooseWorkItem c agent now fuel) := by
  unfold chooseWorkItem
  repeat' first | infer_instance | split | refine .then inferInstance fun _ => ?_

instance (agent id : Uuid) : Leaves Db.people (flushLease agent id) := by unfold flushLease; infer_instance

instance (c : Call) (agent : Uuid) : Leaves Db.people (leaseNext c agent) := by
  unfold leaseNext
  repeat' first | infer_instance | split | refine .then inferInstance fun _ => ?_

instance (c : Call) (agent : Uuid) : Leaves Db.people (getActiveLease c agent) := by
  unfold getActiveLease; infer_instance

instance (id : Uuid) : Leaves Db.people (lockWorkItem id) := by unfold lockWorkItem; infer_instance

instance (c : Call) (id agent leaseId : Uuid) : Leaves Db.people (renewLease c id agent leaseId) := by
  unfold renewLease; infer_instance

instance (f : WorkItem → WorkItem) (items : List WorkItem) : Leaves Db.people (setAll f items) := by
  unfold setAll; infer_instance

instance (c : Call) : Leaves Db.people (reclaimExpiredLeases c) := by
  unfold reclaimExpiredLeases; infer_instance

instance (c : Call) (agent : Uuid) : Leaves Db.people (reclaimLeasesForUser c agent) := by
  unfold reclaimLeasesForUser; infer_instance

instance (c : Call) (agent campaign : Uuid) : Leaves Db.people (releaseCampaignWorkForAgent c agent campaign) := by
  unfold releaseCampaignWorkForAgent; infer_instance

instance (now : Time) (id agent leaseId : Uuid) : Leaves Db.people (loadLeasedItem now id agent leaseId) := by
  unfold loadLeasedItem; infer_instance

instance (a : CallAttempt) (t : Option Time) : Leaves Db.people (completionResult a t) := by
  unfold completionResult; infer_instance

instance (a : CallAttempt) (id : Uuid) : Leaves Db.people (resultFromExistingAttempt a id) := by
  unfold resultFromExistingAttempt; infer_instance

instance (now : Time) (user : Uuid) (w : WorkItem) : Leaves Db.people (suppressItem now user w) := by
  unfold suppressItem; infer_instance

instance (c : Call) (contact : Contact) (source : String) (user : Uuid) :
    Leaves Db.people (suppressContactEverywhere c contact source user) := by
  have (s : SuppressionEntry) :
      Leaves Db.people (insertRow "suppression_entries" .suppression Db.suppressions Db.addSuppression s) :=
    leaves_insertRow fun _ => rfl
  unfold suppressContactEverywhere; infer_instance

instance (c : Call) (r : CompleteRequest) (cc : CampaignContact) : Leaves Db.people (checkedDisposition c r cc) := by
  unfold checkedDisposition
  dsimp only
  repeat' first | infer_instance | split | refine .then inferInstance fun _ => ?_

instance (c : Call) (r : CompleteRequest) (w : WorkItem) (cc : CampaignContact) (contact : Contact)
    (d : CampaignDispositionDefinition) : Leaves Db.people (applyDisposition c r w cc contact d) := by
  have (e : Option AuditEvent) : Leaves Db.people (e.forM recordAudit : Txn PUnit) := by
    cases e <;> unfold Option.forM <;> infer_instance
  unfold applyDisposition
  repeat' first | infer_instance | split

instance (c : Call) (r : CompleteRequest) (w : WorkItem) : Leaves Db.people (completeLeased c r w) := by
  have (id : Uuid) (f : CallAttempt → CallAttempt) :
      Leaves Db.people (update (Db.modifyAttempt id f) : Txn Unit) := .update fun _ => rfl
  unfold completeLeased
  dsimp only
  repeat' first | infer_instance | split | refine .then inferInstance fun _ => ?_

instance (c : Call) (r : CompleteRequest) : Leaves Db.people (completeWorkItem c r) := by
  unfold completeWorkItem existingAttempt phoneFingerprintForWorkItem
  repeat' first | infer_instance | split | refine .then inferInstance fun _ => ?_

instance (c : Call) (id agent leaseId : Uuid) (reason : String) :
    Leaves Db.people (skipWorkItem c id agent leaseId reason) := by
  unfold skipWorkItem; infer_instance

instance (id : Uuid) : Leaves Db.people (loadReviewItem id) := by unfold loadReviewItem; infer_instance

instance (c : Call) (id actor : Uuid) (t : Time) (reason : String) :
    Leaves Db.people (rescheduleReviewItem c id actor t reason) := by
  unfold rescheduleReviewItem; infer_instance

instance (c : Call) (id actor : Uuid) (n : ℤ) (reason : String) :
    Leaves Db.people (increaseReviewItemAttempts c id actor n reason) := by
  unfold increaseReviewItemAttempts; infer_instance

instance (c : Call) (id actor : Uuid) (reason : String) : Leaves Db.people (closeReviewItem c id actor reason) := by
  unfold closeReviewItem lastAttempt
  dsimp only
  repeat' first | infer_instance | split | refine .then inferInstance fun _ => ?_

end Work

/-! ## Campaign imports -/

namespace Imports

instance (id : Uuid) (f : ImportJob → ImportJob) : Leaves Db.people (setImportJob id f) :=
  .then inferInstance fun _ => .update fun _ => rfl

instance (rows : List ImportRow) : Leaves Db.people (addRows rows) := .update fun _ => rfl

instance (k : Contact) : Leaves Db.people (insertContact k) := leaves_insertRow fun _ => rfl

instance (cc : CampaignContact) : Leaves Db.people (insertCampaignContact cc) := leaves_insertRow fun _ => rfl

instance (w : WorkItem) : Leaves Db.people (insertWorkItem w) := leaves_insertRow fun _ => rfl

instance (c : Call) (campaign uploader : Uuid) (filename storageKey fileHash : String) (size : ℤ)
    (extension : String) :
    Leaves Db.people (createImportJob c campaign uploader filename storageKey fileHash size extension) := by
  have (j : ImportJob) : Leaves Db.people (insertRow "import_jobs" .importJob Db.importJobs
      (fun j db => { db with importJobs := db.importJobs ++ [j] }) j) := leaves_insertRow fun _ => rfl
  unfold createImportJob
  dsimp only
  infer_instance

instance (job : ImportJob) (error reason : String) : Leaves Db.people (failParse job error reason) := by
  unfold failParse; infer_instance

instance (c : Call) (protect : Protect) (file : SourceFile) (cols : Columns) (id : Uuid) :
    Leaves Db.people (parseJob c protect file cols id) := by
  unfold parseJob
  dsimp only
  repeat' first | infer_instance | split | refine .then inferInstance fun _ => ?_

instance (c : Call) (job : ImportJob) (user : Uuid) (d : Decision) (note : Option String) :
    Leaves Db.people (recordDecision c job user d note) := by
  have (row : ImportDecision) : Leaves Db.people
      (update fun db => { db with importDecisions := db.importDecisions ++ [row] } : Txn Unit) :=
    .update fun _ => rfl
  unfold recordDecision
  dsimp only
  infer_instance

instance (c : Call) (campaign : Uuid) (phone : Fingerprint) (ciphertext : String) (n : ℕ) :
    Leaves Db.people (rowContact c campaign phone ciphertext n) := by
  unfold rowContact
  repeat' first | infer_instance | split | refine .then inferInstance fun _ => ?_

instance (c : Call) (campaign : Uuid) (now : Time) (acc : Inserted) (row : ImportRow) :
    Leaves Db.people (commitRow c campaign now acc row) := by
  unfold commitRow
  dsimp only
  repeat' first | infer_instance | split | refine .then inferInstance fun _ => ?_

instance (campaign : Campaign) : Leaves Db.people (assertProvenance campaign) := by
  unfold assertProvenance; infer_instance

instance (c : Call) (r : CommitRequest) (loaded : Option ImportJob) (campaign : Option Campaign) :
    Leaves Db.people (commitJob c r loaded campaign) := by
  unfold commitJob commitParsed
  dsimp only
  repeat' first | infer_instance | split | refine .then inferInstance fun _ => ?_

instance (c : Call) (r : CommitRequest) : Leaves Db.people (commitImport c r) := by
  unfold commitImport; infer_instance

instance (c : Call) : Leaves Db.people (cleanupExpiredJobs c) := by
  have (p : ImportRow → Bool) : Leaves Db.people
      (update fun db => { db with importRows := db.importRows.filter p } : Txn Unit) := .update fun _ => rfl
  unfold cleanupExpiredJobs
  dsimp only
  infer_instance

end Imports

/-! ## Campaigns -/

namespace Campaigns

instance (id : Uuid) (f : Campaign → Campaign) : Leaves Db.people (setCampaign id f) :=
  .then inferInstance fun _ => .update fun _ => rfl

instance (id : Uuid) (f : CampaignUserAssignment → CampaignUserAssignment) :
    Leaves Db.people (setUserAssignment id f) :=
  .then inferInstance fun _ => .update fun _ => rfl

instance (a : CampaignUserAssignment) : Leaves Db.people (insertUserAssignment a) :=
  leaves_insertRow fun _ => rfl

instance (k : Campaign) (actor : Uuid) (p : CampaignPatch) : Leaves Db.people (updateCampaign k actor p) := by
  unfold updateCampaign; infer_instance

instance (c : Call) (k : Campaign) (actor : Uuid) : Leaves Db.people (launchCampaign c k actor) := by
  unfold launchCampaign
  dsimp only
  repeat' first | infer_instance | split | refine .then inferInstance fun _ => ?_

instance (k : Campaign) (actor : Uuid) : Leaves Db.people (pauseCampaign k actor) := by
  unfold pauseCampaign; infer_instance

instance (c : Call) (k : Campaign) (actor : Uuid) : Leaves Db.people (archiveCampaign c k actor) := by
  unfold archiveCampaign; infer_instance

instance (c : Call) (campaign : Uuid) (team : Option Uuid) (now : Time) :
    Leaves Db.people (checkStaffingCapacity c campaign team now) := by
  unfold checkStaffingCapacity
  repeat' first | infer_instance | split | refine .then inferInstance fun _ => ?_

instance (c : Call) (k : Campaign) (team : Uuid) (capacity : Option ℤ) (actor : Uuid) :
    Leaves Db.people (assignTeamToCampaign c k team capacity actor) := by
  have (a : CampaignTeamAssignment) : Leaves Db.people
      (insertRow "campaign_team_assignments" .teamAssignment Db.teamAssignments
        (fun a db => { db with teamAssignments := db.teamAssignments ++ [a] }) a) :=
    leaves_insertRow fun _ => rfl
  unfold assignTeamToCampaign; infer_instance

instance (c : Call) (a : CampaignTeamAssignment) (actor : Uuid) :
    Leaves Db.people (endTeamAssignment c a actor) := by
  have (f : List CampaignTeamAssignment → List CampaignTeamAssignment) : Leaves Db.people
      (update fun db => { db with teamAssignments := f db.teamAssignments } : Txn Unit) :=
    .update fun _ => rfl
  exact .then inferInstance fun _ => .then (this fun t => Table.modify t a.id _) fun _ => inferInstance

instance (c : Call) (k : Campaign) (r : AssignRequest) (actor : Uuid) :
    Leaves Db.people (assignAgentToCampaign c k r actor) := by
  unfold assignAgentToCampaign
  dsimp only
  infer_instance

instance (c : Call) (a : CampaignUserAssignment) (actor : Uuid) (reason : Option String) :
    Leaves Db.people (endUserAssignment c a actor reason) := by
  unfold endUserAssignment; infer_instance

instance (c : Call) (agent : Uuid) (source destination : Campaign) (team : Option Uuid) (actor : Uuid)
    (reason : Option String) : Leaves Db.people (transferAgent c agent source destination team actor reason) := by
  unfold transferAgent
  dsimp only
  repeat' first | infer_instance | split | refine .then inferInstance fun _ => ?_

end Campaigns

namespace Retention

instance (now : Time) (k : Campaign) : Leaves Db.people (markCampaignCompleted now k) := by
  unfold markCampaignCompleted
  dsimp only
  repeat' first | infer_instance | split

instance (now : Time) (n : ℕ) (id : Uuid) : Leaves Db.people (detectOne now n id) := by
  unfold detectOne
  repeat' first | infer_instance | split | refine .then inferInstance fun _ => ?_

instance (c : Call) : Leaves Db.people (detectCompletedCampaigns c) := by
  unfold detectCompletedCampaigns
  dsimp only
  infer_instance

instance (k : Campaign) (actor : Option Uuid) (reason : Option String) :
    Leaves Db.people (deleteCompletedCampaignData k actor reason) := by
  have : Leaves Db.people (update (deleteCampaignRows k.id) : Txn Unit) := .update fun _ => rfl
  have (p : Contact → Bool) : Leaves Db.people
      (update fun db => { db with contacts := db.contacts.filter p } : Txn Unit) := .update fun _ => rfl
  unfold deleteCompletedCampaignData
  dsimp only
  repeat' first | infer_instance | refine .then inferInstance fun _ => ?_

instance (n : ℕ) (id : Uuid) : Leaves Db.people (purgeOne n id) := by
  unfold purgeOne
  repeat' first | infer_instance | split | refine .then inferInstance fun _ => ?_

instance (c : Call) : Leaves Db.people (purgeExpiredCampaignData c) := by
  unfold purgeExpiredCampaignData
  dsimp only
  infer_instance

end Retention

/-! ## Requests -/

namespace Service

instance (now : Time) (user id : Uuid) (cap : Capability) : Leaves Db.people (loadCampaign now user id cap) := by
  unfold loadCampaign requireCampaignCapability; infer_instance

instance (now : Time) (user : Uuid) (cap : Capability) (k : Campaign) :
    Leaves Db.people (requireCampaignCapability now user cap k) := by
  unfold requireCampaignCapability; infer_instance

instance (team : Option Uuid) : Leaves Db.people (requireTeam team) := by
  unfold requireTeam
  repeat' first | infer_instance | split

instance (c : Call) (user source destination agent : Uuid) (team : Option Uuid) (reason : Option String) :
    Leaves Db.people (transferAgent c user source destination agent team reason) := by
  unfold transferAgent
  repeat' first | infer_instance | refine .then inferInstance fun _ => ?_

end Service

instance (op : Queue.Op) : Leaves Db.people (Queue.body op) := by
  cases op <;> unfold Queue.body <;> infer_instance

instance (op : Service.Op) : Leaves Db.people (Service.body op) := by
  cases op <;> unfold Service.body
  case work => infer_instance
  case updateCampaign => unfold Service.updateCampaign; infer_instance
  case launchCampaign => unfold Service.launchCampaign; infer_instance
  case pauseCampaign => unfold Service.pauseCampaign; infer_instance
  case archiveCampaign => unfold Service.archiveCampaign; infer_instance
  case assignTeam => unfold Service.assignTeam; infer_instance
  case endTeamAssignment => unfold Service.endTeamAssignment; infer_instance
  case assignAgent => unfold Service.assignAgent; infer_instance
  case endAgentAssignment => unfold Service.endAgentAssignment; infer_instance
  case transferAgent => infer_instance
  case uploadImport => unfold Service.uploadImport; infer_instance
  case parseImport | cleanupImports | detectCompleted | purgeExpired => infer_instance
  case decideImport => unfold Service.decideImport; infer_instance
  case deleteCampaignData =>
    unfold Service.deleteCampaignData
    dsimp only
    infer_instance

end OmniDB
