import OmniDB.Spec.Campaigns

/-! Campaign completion and deletion, `app/campaigns/retention.py`. -/

namespace OmniDB.Retention

open Tx
open Tx.Prog (view update raiseIf)
open Campaigns (setCampaign campaignEvent)

/-- `RETENTION_DAYS`. -/
def retentionDays : ℤ := 60

/-- The contacts of a campaign. -/
def contactsOf (db : Db) (campaign : Uuid) : List CampaignContact :=
  db.campaignContacts.filter fun cc => cc.campaignId = campaign

/-- `campaign_is_complete`: at least one contact, and each has `completed_at` set. -/
def campaignIsComplete (db : Db) (campaign : Campaign) : Bool :=
  campaign.status = .active && !(contactsOf db campaign.id).isEmpty &&
    (contactsOf db campaign.id).all fun cc => cc.completedAt.isSome

/-- `mark_campaign_completed`. -/
def markCampaignCompleted (now : Time) (campaign : Campaign) : Txn Unit := do
  let deleteAfter := now + days retentionDays
  setCampaign campaign.id fun k => { k with
    status := .completed, completedAt := some now, retentionDeleteAfter := some deleteAfter }
  recordAudit {
    action := "campaign.completed", targetType := "campaign", targetId := campaign.id
    eventMetadata := [("retention_delete_after", .time deleteAfter),
      ("retention_days", .num retentionDays)] }
  match campaign.createdBy with
  | none => return
  | some owner => notify {
      recipientUserId := owner, category := "campaign.retention"
      title := "Campaign “" ++ campaign.name ++ "” is complete"
      relatedEntityType := some "campaign", relatedEntityId := some campaign.id }

/-- One campaign of `detect_completed_campaigns`. -/
def detectOne (now : Time) (marked : ℕ) (id : Uuid) : Txn ℕ := do
  match ← getRow "campaign" Db.campaigns id with
  | none => return marked
  | some campaign =>
    let db ← view "campaign_is_complete"
    if campaignIsComplete db campaign then
      markCampaignCompleted now campaign
      return marked + 1
    else return marked

/-- `detect_completed_campaigns`. -/
def detectCompletedCampaigns (c : Call) : Txn ℕ := do
  let now := c.utcnow 0
  let db ← view "active campaigns"
  ((scan c (db.campaigns.filter fun k => k.status = .active)).map Campaign.id).foldlM
    (detectOne now) 0

/-- The bulk statements of `delete_completed_campaign_data` on attempts, work items and
campaign contacts, in their order. -/
def deleteCampaignRows (campaign : Uuid) (db : Db) : Db :=
  let ccIds := (contactsOf db campaign).map CampaignContact.id
  { db with
    attempts := db.attempts.filter fun a => !ccIds.contains a.campaignContactId
    workItems := db.workItems.filter fun w => !ccIds.contains w.campaignContactId
    campaignContacts := db.campaignContacts.filter fun cc => cc.campaignId ≠ campaign }

/-- The attempts of a campaign, which its deletion removes, and the others. -/
def splitAttempts (campaign : Uuid) (db : Db) : List CallAttempt × List CallAttempt :=
  let ccIds := (contactsOf db campaign).map CampaignContact.id
  db.attempts.partition fun a => ccIds.contains a.campaignContactId

/-- An attempt that stays refers to an attempt that goes; those that go refer to none any more. -/
def correctionDangles (campaign : Uuid) (db : Db) : Bool :=
  let (gone, kept) := splitAttempts campaign db
  kept.any fun a => gone.any fun b => a.correctionOfAttemptId = some b.id

/-- An attempt that stays refers to a work item that goes. -/
def workItemDangles (campaign : Uuid) (db : Db) : Bool :=
  let ccIds := (contactsOf db campaign).map CampaignContact.id
  (splitAttempts campaign db).2.any fun a =>
    db.workItems.any fun w => ccIds.contains w.campaignContactId && a.workItemId = w.id

/-- The deleted campaign's contacts that no campaign refers to any more. -/
def orphaned (contactIds : List Uuid) (db : Db) : List Uuid :=
  contactIds.filter fun id => !db.campaignContacts.any fun cc => cc.contactId = id

/-- How many parameters PostgreSQL binds in one statement. -/
def maxBindParameters : ℕ := 65535

/-- `delete_completed_campaign_data`: the numbers of campaign contacts and of deleted
contacts. -/
def deleteCompletedCampaignData (campaign : Campaign) (actor : Option Uuid)
    (reason : Option String) : Txn (ℕ × ℕ) := do
  raiseIf (campaign.status ≠ .completed)
    (.campaignNotDeletable "only a completed campaign's data may be deleted")
  let db ← view "contact ids"
  let contactIds := ((contactsOf db campaign.id).map CampaignContact.contactId).dedup
  let db ← view "foreign keys"
  raiseIf (correctionDangles campaign.id db) (.integrityError "fk_call_attempts_correction_of")
  raiseIf (workItemDangles campaign.id db) (.integrityError "fk_call_attempts_work_item_id")
  update (deleteCampaignRows campaign.id)
  -- `IN` binds one parameter for each contact
  raiseIf (maxBindParameters < contactIds.length)
    (.uncaught "OperationalError" "number of parameters must be between 0 and 65535")
  let db ← view "orphaned contacts"
  let gone := orphaned contactIds db
  update fun db => { db with contacts := db.contacts.filter fun k => !gone.contains k.id }
  setCampaign campaign.id fun k => { k with retentionDeleteAfter := none }
  recordAudit {
    action := "campaign.delete_data", actorUserId := actor, targetType := "campaign"
    targetId := campaign.id, reasonCode := reason
    eventMetadata := [("campaign_contacts", .num contactIds.length),
      ("contacts_deleted", .num gone.length)] }
  return (contactIds.length, gone.length)

/-- One campaign of `purge_expired_campaign_data`. -/
def purgeOne (purged : ℕ) (id : Uuid) : Txn ℕ := do
  match ← getRow "campaign" Db.campaigns id with
  | none => return purged
  | some campaign =>
    let _ ← deleteCompletedCampaignData campaign none (some "retention_auto_delete")
    return purged + 1

/-- `purge_expired_campaign_data`. -/
def purgeExpiredCampaignData (c : Call) : Txn ℕ := do
  let now := c.utcnow 0
  let db ← view "due campaigns"
  ((scan c (db.campaigns.filter fun k => k.status = .completed && dueBy k.retentionDeleteAfter now)).map
    Campaign.id).foldlM purgeOne 0

end OmniDB.Retention
