import OmniDB.Spec.Service

/-! The requests that create a campaign and configure its outcomes, beside the requests and
tasks of the campaign service. -/

namespace OmniDB.Setup

open Tx
open Tx.Prog (raiseIf expect view)

/-- The scope that owns a new campaign must be active. -/
def requireOwner (scope : ScopeType) (id : Option Uuid) : Txn Unit := do
  match id with
  | none => raiseIf (scope = .team) (.http 400 "invalid owning team")
  | some id =>
    if scope = .team then
      let team ← getRow "owning team" Db.teams id
      raiseIf (!team.any Team.active) (.http 400 "invalid owning team")
    else
      let organization ← getRow "owning organization" Db.organizations id
      raiseIf (!organization.any Organization.active) (.http 400 "invalid owning organization")

/-- `POST /campaigns`; `fields` holds the submitted columns. -/
def createCampaign (c : Call) (user : Uuid) (fields : Campaign) : Txn Unit := do
  let db ← view "has_scope_capability"
  raiseIf (!Authz.hasScopeCapability db (c.utcnow 0) user .createCampaign fields.owningScopeType
    fields.owningScopeId) (.http 403 "not authorized")
  requireOwner fields.owningScopeType fields.owningScopeId
  let _ ← Campaigns.createCampaign c user fields

/-- `POST /campaigns/{campaign_id}/dispositions`; `fields` holds the submitted columns. -/
def createDisposition (c : Call) (user id : Uuid) (fields : CampaignDispositionDefinition) : Txn Unit := do
  let campaign ← Service.loadCampaign (c.utcnow 0) user id .manageCampaign
  Campaigns.createDisposition c campaign user fields

/-- The campaign of a page, for someone who manages it. -/
def managedCampaign (c : Call) (user id : Uuid) : Txn Campaign := do
  let e : Err := .http 303 "Not authorized to configure dispositions."
  let campaign ← expect (← getRow "campaign" Db.campaigns id) e
  let db ← view "has_campaign_capability"
  raiseIf (!Authz.hasCampaignCapability db (c.utcnow 0) user .manageCampaign campaign.id) e
  return campaign

/-- `POST /campaigns/{campaign_id}/disposition-policy/install`. -/
def installStandardPolicy (c : Call) (user id : Uuid) (noAnswer unavailable : Option ℤ) : Txn Unit := do
  let campaign ← managedCampaign c user id
  Campaigns.installStandardDispositions c campaign user noAnswer unavailable

/-- `POST /campaigns/{campaign_id}/disposition-policy/retries`. -/
def updateRetryPolicy (c : Call) (user id : Uuid) (code : String) (minutes : ℤ) : Txn Unit := do
  let campaign ← managedCampaign c user id
  Campaigns.updateRetryPolicy c campaign code minutes user

inductive Op where
  | service (op : Service.Op)
  | createCampaign (c : Call) (user : Uuid) (fields : Campaign)
  | createDisposition (c : Call) (user id : Uuid) (fields : CampaignDispositionDefinition)
  | installStandardPolicy (c : Call) (user id : Uuid) (noAnswer unavailable : Option ℤ)
  | updateRetryPolicy (c : Call) (user id : Uuid) (code : String) (minutes : ℤ)

inductive Result where
  | service (res : Service.Result)
  | done

def body : Op → Txn Result
  | .service op => Result.service <$> Service.body op
  | .createCampaign c user fields => (fun _ => .done) <$> createCampaign c user fields
  | .createDisposition c user id fields => (fun _ => .done) <$> createDisposition c user id fields
  | .installStandardPolicy c user id noAnswer unavailable =>
    (fun _ => .done) <$> installStandardPolicy c user id noAnswer unavailable
  | .updateRetryPolicy c user id code minutes => (fun _ => .done) <$> updateRetryPolicy c user id code minutes

end OmniDB.Setup
