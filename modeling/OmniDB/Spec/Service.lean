import OmniDB.Spec.Queue
import OmniDB.Spec.Retention

/-! The requests of `app/api/campaigns.py` and `app/web/campaigns.py` and the background
tasks, beside the transactions of the work queue: everything that moves a campaign, its
imports, its staff and its contacts. -/

namespace OmniDB.Service

open Tx
open Tx.Prog (view raiseIf expect)

/-- `_require_campaign_capability`. -/
def requireCampaignCapability (now : Time) (user : Uuid) (cap : Capability) (campaign : Campaign) :
    Txn Unit := do
  let db ← view "has_campaign_capability"
  raiseIf (!Authz.hasCampaignCapability db now user cap campaign.id) (.http 403 "not authorized")

/-- `_load_campaign_or_404`, then the capability. -/
def loadCampaign (now : Time) (user id : Uuid) (cap : Capability) : Txn Campaign := do
  let campaign ← expect (← getRow "campaign" Db.campaigns id) (.http 404 "campaign not found")
  requireCampaignCapability now user cap campaign
  return campaign

/-- A submitted team must be active. -/
def requireTeam (team : Option Uuid) : Txn Unit := do
  match team with
  | none => return
  | some team =>
    let row ← getRow "team" Db.teams team
    raiseIf (!row.any Team.active) (.http 400 "invalid team")

/-! ## Campaigns -/

/-- `PATCH /campaigns/{campaign_id}`. -/
def updateCampaign (c : Call) (user id : Uuid) (p : Campaigns.CampaignPatch) : Txn Unit := do
  let campaign ← loadCampaign (c.utcnow 0) user id .manageCampaign
  Campaigns.updateCampaign campaign user p

/-- `POST /campaigns/{campaign_id}/launch`. -/
def launchCampaign (c : Call) (user id : Uuid) : Txn Unit := do
  let campaign ← loadCampaign (c.utcnow 1) user id .launchCampaign
  Campaigns.launchCampaign c campaign user

/-- `POST /campaigns/{campaign_id}/pause`. -/
def pauseCampaign (c : Call) (user id : Uuid) : Txn Unit := do
  let campaign ← loadCampaign (c.utcnow 0) user id .pauseCampaign
  Campaigns.pauseCampaign campaign user

/-- `POST /campaigns/{campaign_id}/archive`. -/
def archiveCampaign (c : Call) (user id : Uuid) : Txn Unit := do
  let campaign ← loadCampaign (c.utcnow 1) user id .archiveCampaign
  Campaigns.archiveCampaign c campaign user

/-- `POST /campaigns/{campaign_id}/delete-data`. -/
def deleteCampaignData (c : Call) (user id : Uuid) : Txn Unit := do
  let e : Err := .http 303 "Campaign not found or not authorized."
  let campaign ← expect (← getRow "campaign" Db.campaigns id) e
  let db ← view "has_campaign_capability"
  raiseIf (!Authz.hasCampaignCapability db (c.utcnow 0) user .exportCompletedCampaign campaign.id) e
  let _ ← Retention.deleteCompletedCampaignData campaign (some user) (some "manual")

/-! ## Staffing -/

/-- `POST /campaigns/{campaign_id}/team-assignments`. -/
def assignTeam (c : Call) (user id team : Uuid) (capacity : Option ℤ) : Txn Unit := do
  let campaign ← loadCampaign (c.utcnow 1) user id .manageCampaign
  requireTeam (some team)
  Campaigns.assignTeamToCampaign c campaign team capacity user

/-- `POST /campaigns/{campaign_id}/team-assignments/{assignment_id}/end`. -/
def endTeamAssignment (c : Call) (user id assignment : Uuid) : Txn Unit := do
  let campaign ← loadCampaign (c.utcnow 1) user id .manageCampaign
  let a ← expect ((← getRow "team assignment" Db.teamAssignments assignment).filter fun a =>
      a.campaignId = campaign.id)
    (.http 404 "team assignment not found")
  Campaigns.endTeamAssignment c a user

/-- `POST /campaigns/{campaign_id}/assignments`. -/
def assignAgent (c : Call) (user id : Uuid) (r : Campaigns.AssignRequest) : Txn Unit := do
  let campaign ← loadCampaign (c.utcnow 2) user id .assignCampaignAgent
  requireTeam r.teamId
  let _ ← Campaigns.assignAgentToCampaign c campaign r user

/-- `POST /campaigns/{campaign_id}/assignments/{assignment_id}/end`. -/
def endAgentAssignment (c : Call) (user id assignment : Uuid) : Txn Unit := do
  let campaign ← loadCampaign (c.utcnow 1) user id .assignCampaignAgent
  let a ← expect ((← getRow "assignment" Db.userAssignments assignment).filter fun a =>
      a.campaignId = campaign.id)
    (.http 404 "assignment not found")
  Campaigns.endUserAssignment c a user none

/-- `POST /campaigns/{campaign_id}/transfer`. -/
def transferAgent (c : Call) (user source destination agent : Uuid) (team : Option Uuid)
    (reason : Option String) : Txn Unit := do
  let e : Err := .http 404 "campaign not found"
  let src ← expect (← getRow "campaign" Db.campaigns source) e
  let dst ← expect (← getRow "campaign" Db.campaigns destination) e
  requireCampaignCapability (c.utcnow 2) user .assignCampaignAgent src
  requireCampaignCapability (c.utcnow 3) user .assignCampaignAgent dst
  requireTeam team
  let _ ← Campaigns.transferAgent c agent src dst team user reason

/-! ## Imports -/

structure Upload where
  filename : String
  storageKey : String
  fileHash : String
  size : ℤ
  extension : String

/-- `POST /campaigns/{campaign_id}/imports`, for a file that passed validation. -/
def uploadImport (c : Call) (user id : Uuid) (u : Upload) : Txn Unit := do
  let campaign ← loadCampaign (c.utcnow 1) user id .manageCampaign
  let _ ← Imports.createImportJob c campaign.id user u.filename u.storageKey u.fileHash u.size u.extension

/-- `PATCH /imports/{import_id}/decisions`. -/
def decideImport (c : Call) (user id : Uuid) (decision : Decision) (note : Option String) : Txn Unit := do
  let job ← expect (← getRow "import job" Db.importJobs id) (.http 404 "import job not found")
  let _ ← loadCampaign (c.utcnow 1) user job.campaignId .manageCampaign
  let _ ← Imports.recordDecision c job user decision note

inductive Op where
  | work (op : Queue.Op)
  | updateCampaign (c : Call) (user id : Uuid) (p : Campaigns.CampaignPatch)
  | launchCampaign (c : Call) (user id : Uuid)
  | pauseCampaign (c : Call) (user id : Uuid)
  | archiveCampaign (c : Call) (user id : Uuid)
  | assignTeam (c : Call) (user id team : Uuid) (capacity : Option ℤ)
  | endTeamAssignment (c : Call) (user id assignment : Uuid)
  | assignAgent (c : Call) (user id : Uuid) (r : Campaigns.AssignRequest)
  | endAgentAssignment (c : Call) (user id assignment : Uuid)
  | transferAgent (c : Call) (user source destination agent : Uuid) (team : Option Uuid)
      (reason : Option String)
  | uploadImport (c : Call) (user id : Uuid) (u : Upload)
  | parseImport (c : Call) (protect : Imports.Protect) (file : Imports.SourceFile)
      (cols : Imports.Columns) (id : Uuid)
  | decideImport (c : Call) (user id : Uuid) (decision : Decision) (note : Option String)
  | cleanupImports (c : Call)
  | detectCompleted (c : Call)
  | purgeExpired (c : Call)
  | deleteCampaignData (c : Call) (user id : Uuid)

inductive Result where
  | work (res : Queue.Result)
  | done

def body : Op → Txn Result
  | .work op => Result.work <$> Queue.body op
  | .updateCampaign c user id p => (fun _ => .done) <$> updateCampaign c user id p
  | .launchCampaign c user id => (fun _ => .done) <$> launchCampaign c user id
  | .pauseCampaign c user id => (fun _ => .done) <$> pauseCampaign c user id
  | .archiveCampaign c user id => (fun _ => .done) <$> archiveCampaign c user id
  | .assignTeam c user id team capacity => (fun _ => .done) <$> assignTeam c user id team capacity
  | .endTeamAssignment c user id assignment => (fun _ => .done) <$> endTeamAssignment c user id assignment
  | .assignAgent c user id r => (fun _ => .done) <$> assignAgent c user id r
  | .endAgentAssignment c user id assignment =>
    (fun _ => .done) <$> endAgentAssignment c user id assignment
  | .transferAgent c user source destination agent team reason =>
    (fun _ => .done) <$> transferAgent c user source destination agent team reason
  | .uploadImport c user id u => (fun _ => .done) <$> uploadImport c user id u
  | .parseImport c protect file cols id => (fun _ => .done) <$> Imports.parseJob c protect file cols id
  | .decideImport c user id decision note => (fun _ => .done) <$> decideImport c user id decision note
  | .cleanupImports c => (fun _ => .done) <$> Imports.cleanupExpiredJobs c
  | .detectCompleted c => (fun _ => .done) <$> Retention.detectCompletedCampaigns c
  | .purgeExpired c => (fun _ => .done) <$> Retention.purgeExpiredCampaignData c
  | .deleteCampaignData c user id => (fun _ => .done) <$> deleteCampaignData c user id

end OmniDB.Service
