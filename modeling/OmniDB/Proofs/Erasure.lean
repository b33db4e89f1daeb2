import Mathlib.Data.List.Dedup
import OmniDB.Proofs.Deletion
import OmniDB.Proofs.DoNotCall

/-! What deleting a campaign's data removes, and what it leaves. The attempts, work items and
campaign contacts of the campaign go, and the contacts that no other campaign refers to. What
stays refers to nothing that went, a second deletion finds nothing, and a phone that was
suppressed stays suppressed although its contact is gone. -/

namespace OmniDB.Service

open Tx

variable {x x' y : Db} {campaign id : Uuid}

/-- Keys are unique, and what refers to a deleted table finds its row. -/
structure Referential (x : Db) : Prop where
  wellFormed : x.WellFormed
  importJobs : Table.Unique x.importJobs
  attempts : Table.Unique x.attempts
  campaign : ∀ cc ∈ x.campaignContacts, ∃ k, Table.find x.campaigns cc.campaignId = some k
  attemptItem : ∀ a ∈ x.attempts, ∃ w, Table.find x.workItems a.workItemId = some w
  attemptContact : ∀ a ∈ x.attempts, ∃ cc, x.attemptContact a = some cc
  correction : ∀ a ∈ x.attempts, ∀ b, a.correctionOfAttemptId = some b → ∃ a', Table.find x.attempts b = some a'

/-- A correction is of an attempt on the same campaign contact. -/
def CorrectsOwn (x : Db) : Prop :=
  ∀ a ∈ x.attempts, ∀ b ∈ x.attempts, a.correctionOfAttemptId = some b.id →
    b.campaignContactId = a.campaignContactId

/-- An attempt is on the campaign contact of its work item. -/
def OnOwnItem (x : Db) : Prop :=
  ∀ a ∈ x.attempts, ∀ w ∈ x.workItems, a.workItemId = w.id → w.campaignContactId = a.campaignContactId

instance (x : Db) : Decidable (CorrectsOwn x) := inferInstanceAs
  (Decidable (∀ a ∈ x.attempts, ∀ b ∈ x.attempts, _ → _))

instance (x : Db) : Decidable (OnOwnItem x) := inferInstanceAs
  (Decidable (∀ a ∈ x.attempts, ∀ w ∈ x.workItems, _ → _))

/-- The contact is in the campaign and in no other. -/
def OnlyIn (x : Db) (campaign : Uuid) (k : Contact) : Prop :=
  (∃ cc ∈ x.campaignContacts, cc.contactId = k.id ∧ cc.campaignId = campaign) ∧
    ∀ cc ∈ x.campaignContacts, cc.contactId = k.id → cc.campaignId = campaign

instance (x : Db) (campaign : Uuid) (k : Contact) : Decidable (OnlyIn x campaign k) :=
  inferInstanceAs (Decidable (_ ∧ _))

/-- The campaign of an attempt. -/
def attemptCampaign (x : Db) (a : CallAttempt) : Option Uuid :=
  (x.attemptContact a).map CampaignContact.campaignId

/-- The database without the campaign's rows and without the contacts that only it had. -/
def erased (campaign : Uuid) (x : Db) : Db :=
  { x with
    attempts := x.attempts.filter fun a => attemptCampaign x a ≠ some campaign
    workItems := x.workItems.filter fun w => x.campaignOf w ≠ some campaign
    campaignContacts := x.campaignContacts.filter fun cc => cc.campaignId ≠ campaign
    contacts := x.contacts.filter fun k => ¬OnlyIn x campaign k
    campaigns := Table.modify x.campaigns campaign fun k => { k with retentionDeleteAfter := none } }

/-- The keys of a campaign's contacts. -/
theorem contains_contactsOf (hu : Table.Unique x.campaignContacts) {cc : CampaignContact}
    (h : Table.find x.campaignContacts id = some cc) :
    ((Retention.contactsOf x campaign).map CampaignContact.id).contains id = true ↔ cc.campaignId = campaign := by
  have hid : cc.id = id := Table.key_of_find h
  simp only [List.contains_iff_mem, Retention.contactsOf, List.mem_map, List.mem_filter, decide_eq_true_eq]
  constructor
  · rintro ⟨cc', ⟨hcc', hk⟩, he⟩
    rwa [← hu.eq hcc' (Table.mem_of_find h) (he.trans hid.symm)]
  · exact fun hk => ⟨cc, ⟨Table.mem_of_find h, hk⟩, hid⟩

theorem mem_orphaned {ids : List Uuid} : id ∈ Retention.orphaned ids x ↔
    id ∈ ids ∧ ∀ cc ∈ x.campaignContacts, cc.contactId ≠ id := by
  simp [Retention.orphaned]

/-- The orphans are the contacts that only the campaign had. -/
theorem orphaned_iff {k : Contact} :
    k.id ∈ Retention.orphaned ((Retention.contactsOf x campaign).map CampaignContact.contactId).dedup
      (Retention.deleteCampaignRows campaign x) ↔ OnlyIn x campaign k := by
  rw [mem_orphaned, List.mem_dedup]
  simp only [Retention.contactsOf, List.mem_map, List.mem_filter, decide_eq_true_eq, Retention.deleteCampaignRows]
  refine and_congr ?_ ?_
  · constructor
    · rintro ⟨cc, ⟨hcc, hk⟩, hid⟩
      exact ⟨cc, hcc, hid, hk⟩
    · rintro ⟨cc, hcc, hid, hk⟩
      exact ⟨cc, ⟨hcc, hk⟩, hid⟩
  · constructor
    · intro h cc hcc hid
      by_contra hk
      exact h cc ⟨hcc, hk⟩ hid
    · rintro h cc ⟨hcc, hk⟩ hid
      exact hk (h cc hcc hid)

theorem purged_eq_erased (hx : Referential x) : purged campaign x = erased campaign x := by
  have hattempts : (purged campaign x).attempts = (erased campaign x).attempts := by
    refine List.filter_congr fun a ha => ?_
    obtain ⟨cc, hcc⟩ := hx.attemptContact a ha
    rw [Bool.eq_iff_iff, Bool.not_eq_true', Bool.eq_false_iff, Ne, contains_contactsOf hx.wellFormed.campaignContacts hcc]
    simp [attemptCampaign, hcc]
  have hitems : (purged campaign x).workItems = (erased campaign x).workItems := by
    refine List.filter_congr fun w hw => ?_
    obtain ⟨cc, hcc⟩ := hx.wellFormed.campaignContact _ w (hx.wellFormed.workItems.find_of_mem hw)
    rw [Bool.eq_iff_iff, Bool.not_eq_true', Bool.eq_false_iff, Ne, contains_contactsOf hx.wellFormed.campaignContacts hcc]
    simp [Db.campaignOf, hcc]
  have hcontacts : (purged campaign x).contacts = (erased campaign x).contacts := by
    refine List.filter_congr fun k _ => ?_
    rw [Bool.eq_iff_iff, Bool.not_eq_true', Bool.eq_false_iff, Ne, List.contains_iff_mem, orphaned_iff]
    simp
  change ({ x with
    attempts := (purged campaign x).attempts, workItems := (purged campaign x).workItems
    campaignContacts := (purged campaign x).campaignContacts, contacts := (purged campaign x).contacts
    campaigns := (purged campaign x).campaigns } : Db) = _
  rw [hattempts, hitems, hcontacts]
  rfl

/-! ## No reference is left dangling -/

theorem mem_erased_attempts {a : CallAttempt} :
    a ∈ (erased campaign x).attempts ↔ a ∈ x.attempts ∧ attemptCampaign x a ≠ some campaign := by
  simp [erased]

theorem mem_erased_items {w : WorkItem} :
    w ∈ (erased campaign x).workItems ↔ w ∈ x.workItems ∧ x.campaignOf w ≠ some campaign := by
  simp [erased]

/-- An attempt is of the campaign of its work item. -/
theorem OnOwnItem.campaign_eq (hm : OnOwnItem x) {a : CallAttempt} {w : WorkItem} (ha : a ∈ x.attempts)
    (hw : Table.find x.workItems a.workItemId = some w) : attemptCampaign x a = x.campaignOf w := by
  unfold attemptCampaign Db.attemptContact Db.campaignOf Db.campaignContact
  rw [hm a ha w (Table.mem_of_find hw) (Table.key_of_find hw).symm]

/-- A correction is of an attempt of the same campaign. -/
theorem CorrectsOwn.campaign_eq (hc : CorrectsOwn x) {a b : CallAttempt} (ha : a ∈ x.attempts) (hb : b ∈ x.attempts)
    (h : a.correctionOfAttemptId = some b.id) : attemptCampaign x b = attemptCampaign x a := by
  unfold attemptCampaign Db.attemptContact
  rw [hc a ha b hb h]

theorem mem_splitAttempts (hx : Referential x) {a : CallAttempt} :
    (a ∈ (Retention.splitAttempts campaign x).1 ↔ a ∈ x.attempts ∧ attemptCampaign x a = some campaign) ∧
    (a ∈ (Retention.splitAttempts campaign x).2 ↔ a ∈ x.attempts ∧ attemptCampaign x a ≠ some campaign) := by
  have hof (ha : a ∈ x.attempts) : ((Retention.contactsOf x campaign).map CampaignContact.id).contains
      a.campaignContactId = true ↔ attemptCampaign x a = some campaign := by
    obtain ⟨cc, hcc⟩ := hx.attemptContact a ha
    rw [contains_contactsOf hx.wellFormed.campaignContacts hcc]
    simp [attemptCampaign, hcc]
  unfold Retention.splitAttempts
  rw [List.partition_eq_filter_filter]
  constructor
  · rw [List.mem_filter]
    exact and_congr_right hof
  · rw [List.mem_filter, Function.comp_apply, Bool.not_eq_true', Bool.eq_false_iff]
    exact and_congr_right fun ha => not_congr (hof ha)

theorem correctionDangles_eq (hx : Referential x) (hc : CorrectsOwn x) :
    Retention.correctionDangles campaign x = false := by
  unfold Retention.correctionDangles
  rw [List.any_eq_false]
  intro a ha hany
  obtain ⟨b, hb, he⟩ := List.any_eq_true.1 hany
  obtain ⟨ha, hne⟩ := (mem_splitAttempts hx).2.1 ha
  obtain ⟨hb, hk⟩ := (mem_splitAttempts hx).1.1 hb
  exact hne ((hc.campaign_eq ha hb (of_decide_eq_true he)).symm.trans hk)

theorem workItemDangles_eq (hx : Referential x) (hm : OnOwnItem x) :
    Retention.workItemDangles campaign x = false := by
  unfold Retention.workItemDangles
  rw [List.any_eq_false]
  intro a ha hany
  obtain ⟨w, hw, he⟩ := List.any_eq_true.1 hany
  obtain ⟨ha, hne⟩ := (mem_splitAttempts hx).2.1 ha
  rw [Bool.and_eq_true, decide_eq_true_eq] at he
  have hfind : Table.find x.workItems a.workItemId = some w := he.2 ▸ hx.wellFormed.workItems.find_of_mem hw
  obtain ⟨cc, hcc⟩ := hx.wellFormed.campaignContact _ w hfind
  have hk := (contains_contactsOf hx.wellFormed.campaignContacts hcc).1 he.1
  refine hne ((hm.campaign_eq ha hfind).trans ?_)
  simp [Db.campaignOf, hcc, hk]

/-- What stays refers only to what stays. -/
theorem Referential.erased (hx : Referential x) (hc : CorrectsOwn x) (hm : OnOwnItem x) :
    Referential (erased campaign x) where
  wellFormed := purged_eq_erased hx ▸ wellFormed_purged hx.wellFormed campaign
  importJobs := hx.importJobs
  attempts := hx.attempts.filter _
  campaign cc hcc := by
    obtain ⟨k, hk⟩ := hx.campaign cc (List.mem_filter.1 hcc).1
    refine ⟨k, Eq.trans ?_ hk⟩
    exact Table.find_modify_ne (fun _ h => h) (of_decide_eq_true (List.mem_filter.1 hcc).2)
  attemptItem a ha := by
    obtain ⟨ha, hne⟩ := mem_erased_attempts.1 ha
    obtain ⟨w, hw⟩ := hx.attemptItem a ha
    refine ⟨w, ?_⟩
    rw [← Table.key_of_find hw]
    refine Table.Unique.find_of_mem (hx.wellFormed.workItems.filter _)
      (mem_erased_items.2 ⟨Table.mem_of_find hw, ?_⟩)
    rwa [← hm.campaign_eq ha hw]
  attemptContact a ha := by
    obtain ⟨cc, hcc⟩ := hx.attemptContact a (mem_erased_attempts.1 ha).1
    rw [← purged_eq_erased hx] at ha ⊢
    exact ⟨cc, attemptContact_purged hx.wellFormed.campaignContacts ha hcc⟩
  correction a ha b hb := by
    obtain ⟨ha, hne⟩ := mem_erased_attempts.1 ha
    obtain ⟨a', ha'⟩ := hx.correction a ha b hb
    have hid : a'.id = b := Table.key_of_find ha'
    refine ⟨a', ?_⟩
    rw [← hid]
    refine Table.Unique.find_of_mem (hx.attempts.filter _) (mem_erased_attempts.2 ⟨Table.mem_of_find ha', ?_⟩)
    rwa [hc.campaign_eq ha (Table.mem_of_find ha') (hid ▸ hb)]

/-! ## The deletion, once and again -/

section Run

variable {k : Campaign}

/-- The contacts of the campaign fit into one statement. -/
def Bindable (x : Db) (campaign : Uuid) : Prop :=
  ((Retention.contactsOf x campaign).map CampaignContact.contactId).dedup.length ≤ Retention.maxBindParameters

instance (x : Db) (campaign : Uuid) : Decidable (Bindable x campaign) := inferInstanceAs (Decidable (_ ≤ _))

/-- A deletion that neither a foreign key nor its size stops. -/
theorem deletion_runs (actor : Option Uuid) (reason : Option String) (hst : k.status = .completed)
    (hc : Retention.correctionDangles k.id x = false) (hm : Retention.workItemDangles k.id x = false)
    (hsize : Bindable x k.id) : ∃ counts e,
      (Retention.deleteCompletedCampaignData k actor reason).Runs x counts (Db.log e (purged k.id x)) ∧
      e.action = "campaign.delete_data" ∧
      counts = (((Retention.contactsOf x k.id).map CampaignContact.contactId).dedup.length,
        (Retention.orphaned ((Retention.contactsOf x k.id).map CampaignContact.contactId).dedup
          (Retention.deleteCampaignRows k.id x)).length) := by
  unfold Retention.deleteCompletedCampaignData
  simp only [Prog.runs_bind, Prog.runs_raiseIf, Prog.runs_view, Prog.runs_update, Campaigns.runs_setCampaign,
    runs_recordAudit, Prog.runs_pure, and_assoc, exists_and_left, exists_eq_left, exists_const, hst, hc, hm]
  exact ⟨by simp, by simp, by simp, Nat.not_lt.2 hsize, _, rfl, rfl, trivial⟩

/-- Nothing is left to delete. -/
theorem erased_again (hn : NoContacts x campaign) (hx : Referential x)
    (hd : ∀ k ∈ x.campaigns, k.id = campaign → k.retentionDeleteAfter = none) : erased campaign x = x := by
  have hcc : ∀ cc ∈ x.campaignContacts, decide (cc.campaignId ≠ campaign) = true := fun cc h => decide_eq_true (hn cc h)
  have hattempts : ∀ a ∈ x.attempts, decide (attemptCampaign x a ≠ some campaign) = true := by
    intro a ha
    obtain ⟨cc, hfind⟩ := hx.attemptContact a ha
    rw [decide_eq_true_eq, attemptCampaign, hfind, Option.map_some, Ne, Option.some.injEq]
    exact hn cc (Table.mem_of_find hfind)
  have hitems : ∀ w ∈ x.workItems, decide (x.campaignOf w ≠ some campaign) = true := by
    intro w hw
    obtain ⟨cc, hfind⟩ := hx.wellFormed.campaignContact _ w (hx.wellFormed.workItems.find_of_mem hw)
    rw [decide_eq_true_eq, Db.campaignOf, hfind, Option.map_some, Ne, Option.some.injEq]
    exact hn cc (Table.mem_of_find hfind)
  have hcontacts : ∀ k ∈ x.contacts, decide (¬OnlyIn x campaign k) = true := by
    intro k _
    rw [decide_eq_true_eq]
    rintro ⟨⟨cc, hmem, -, hk⟩, -⟩
    exact hn cc hmem hk
  have hcampaigns : Table.modify x.campaigns campaign (fun k => { k with retentionDeleteAfter := none }) =
      x.campaigns := by
    refine List.map_congr_left (g := id) (fun k hk => ?_) |>.trans (List.map_id _)
    split_ifs with hid
    · rw [← hd k hk hid]
      rfl
    · rfl
  unfold erased
  rw [List.filter_eq_self.2 hattempts, List.filter_eq_self.2 hitems, List.filter_eq_self.2 hcc,
    List.filter_eq_self.2 hcontacts, hcampaigns]

theorem noContacts_erased (campaign : Uuid) (x : Db) : NoContacts (erased campaign x) campaign := by
  intro cc hcc
  exact of_decide_eq_true (List.mem_filter.1 hcc).2

theorem retention_erased : ∀ k ∈ (erased campaign x).campaigns, k.id = campaign → k.retentionDeleteAfter = none := by
  intro k hk hid
  obtain ⟨k', -, rfl⟩ := List.mem_map.1 hk
  split_ifs at hid ⊢ with hkey
  · rfl
  · exact absurd hid hkey

theorem Referential.log (h : Referential x) (e : AuditEvent) : Referential (Db.log e x) where
  wellFormed := { h.wellFormed with }
  importJobs := h.importJobs
  attempts := h.attempts
  campaign := h.campaign
  attemptItem := h.attemptItem
  attemptContact := h.attemptContact
  correction := h.correction

/-- The campaign is still completed. -/
theorem erased_campaign {k' : Campaign} {e : AuditEvent} (hk : Table.find x.campaigns k.id = some k)
    (hst : k.status = .completed) (hk' : Table.find (Db.log e (erased k.id x)).campaigns k.id = some k') :
    k'.status = .completed ∧ k'.id = k.id := by
  have hfind : Table.find (Db.log e (erased k.id x)).campaigns k.id =
      some { k with retentionDeleteAfter := none } := Table.find_modify_self (fun _ h => h) hk
  obtain rfl := Option.some.inj (hk'.symm.trans hfind)
  exact ⟨hst, rfl⟩

theorem contactsOf_eq_nil (hn : NoContacts x campaign) : Retention.contactsOf x campaign = [] :=
  List.filter_eq_nil_iff.2 fun cc hcc he => hn cc hcc (of_decide_eq_true he)

theorem CorrectsOwn.erased {e : AuditEvent} (hc : CorrectsOwn x) : CorrectsOwn (Db.log e (erased campaign x)) :=
  fun a ha b hb => hc a (mem_erased_attempts.1 ha).1 b (mem_erased_attempts.1 hb).1

theorem OnOwnItem.erased {e : AuditEvent} (hm : OnOwnItem x) : OnOwnItem (Db.log e (erased campaign x)) :=
  fun a ha w hw => hm a (mem_erased_attempts.1 ha).1 w (mem_erased_items.1 hw).1

end Run

/-! ## Suppression outlives the contact -/

/-- No operation lifts a suppression. -/
theorem Op.Effect.suppressed {op : Op} (h : op.Effect x x') (hx : x.WellFormed) {phone : Fingerprint}
    (hs : x.suppressed phone = true) : x'.suppressed phone = true := by
  cases op
  case work op =>
    obtain ⟨a, h⟩ := h
    obtain ⟨held, h⟩ := Queue.effect_of_runs hx h
    rcases h.cases with ⟨new, dnc, h, -⟩ | ⟨-, -, -, job, campaign, ks, ccs, ws, h⟩
    · rw [h.suppressed_eq, hs, Bool.true_or]
    · rwa [h.suppressed_eq]
  case updateCampaign | launchCampaign | pauseCampaign =>
    obtain ⟨k, f, e, rfl, -⟩ := h
    exact hs
  case archiveCampaign =>
    obtain ⟨st, -, -, k, f, e, rfl, -⟩ := h
    exact hs
  case assignTeam | endTeamAssignment =>
    obtain ⟨ts, e, rfl⟩ := h
    exact hs
  case assignAgent | endAgentAssignment =>
    obtain ⟨a, e, rfl, -⟩ := h
    exact hs
  case transferAgent =>
    obtain ⟨current, a, e, rfl, -⟩ := h
    exact hs
  case uploadImport =>
    obtain ⟨j, e, rfl, -⟩ := h
    exact hs
  case parseImport =>
    obtain rfl | ⟨job, f, rows, e, rfl, -⟩ := h
    · exact hs
    · exact hs
  case decideImport =>
    obtain ⟨job, d, e, rfl, -⟩ := h
    exact hs
  case cleanupImports =>
    clear hx
    induction h with
    | refl => exact hs
    | tail _ h ih =>
      obtain ⟨job, -, ⟨-, rfl⟩ | ⟨-, rfl⟩⟩ := h <;> exact ih
  case detectCompleted =>
    clear hx
    induction h with
    | refl => exact hs
    | tail _ h ih =>
      obtain ⟨k, f, ns, e, rfl, -⟩ := h
      exact ih
  case purgeExpired =>
    obtain ⟨h, -⟩ := h
    clear hx
    induction h with
    | refl => exact hs
    | tail _ h ih =>
      obtain ⟨campaign, k, e, rfl, -⟩ := h
      exact ih
  case deleteCampaignData =>
    obtain ⟨k, e, rfl, -⟩ := h
    exact hs

/-- An import creates no work item for a suppressed phone. -/
theorem commitImport_suppressed {c : Call} {r : Imports.CommitRequest} {res : ImportResult} (hx : x.WellFormed)
    (h : (Imports.commitImport c r).Runs x res x') {phone : Fingerprint} (hs : x.suppressed phone = true)
    {w : WorkItem} (hw : w ∈ x'.workItems) (hp : x'.phoneOf w = some phone) : w ∈ x.workItems := by
  rcases Imports.commitImport_runs hx h with ⟨rfl, -⟩ | ⟨job, held, -, ks, ccs, ws, heff⟩
  · exact hw
  · rw [heff.workItems, List.mem_append] at hw
    refine hw.resolve_right fun hnew => ?_
    obtain ⟨f, hf, -, hclear⟩ := heff.fresh_phone hnew
    obtain rfl : f = phone := Option.some.inj (hf.symm.trans hp)
    rw [hclear] at hs
    cases hs

/-- Deleting the data of a completed campaign. -/
structure DeletesExactly (k : Campaign) (actor : Option Uuid) (reason : Option String) (x x' : Db) : Prop where
  /-- Exactly the campaign's rows go, and the contacts that no other campaign refers to; one
  audit event is added and the countdown of the campaign is over. -/
  exactly : ∃ counts e, (Retention.deleteCompletedCampaignData k actor reason).Runs x counts x' ∧
    x' = Db.log e (erased k.id x) ∧ e.action = "campaign.delete_data"
  noDangling : Referential x'
  again : ∀ k', Table.find x'.campaigns k.id = some k' → ∀ actor' reason', ∃ e',
    (Retention.deleteCompletedCampaignData k' actor' reason').Runs x' (0, 0) (Db.log e' x')
  suppressed : ∀ phone, x.suppressed phone = true → ∀ y, Prog.Serial body (fun _ _ => True) x' y →
    ∀ c r res y', (Imports.commitImport c r).Runs y res y' →
      ∀ w ∈ y'.workItems, y'.phoneOf w = some phone → w ∈ y.workItems

/-- In every database in which references resolve, corrections stay on one campaign contact and
attempts are on the campaign contact of their work item, for a campaign whose contacts fit into one
statement. -/
theorem deletion_removes_exactly {k : Campaign} {actor : Option Uuid} {reason : Option String} (hx : Referential x)
    (hc : CorrectsOwn x) (hm : OnOwnItem x) (hk : Table.find x.campaigns k.id = some k) (hst : k.status = .completed)
    (hsize : Bindable x k.id) : ∃ x', DeletesExactly k actor reason x x' := by
  obtain ⟨counts, e, hr, haction, -⟩ := deletion_runs actor reason hst
    (correctionDangles_eq hx hc) (workItemDangles_eq hx hm) hsize
  rw [purged_eq_erased hx] at hr
  have hx' : Referential (Db.log e (erased k.id x)) := (hx.erased hc hm).log e
  refine ⟨_, ⟨counts, e, hr, rfl, haction⟩, hx', fun k' hk' actor' reason' => ?_, fun phone hs y hy => ?_⟩
  · obtain ⟨again, hkey⟩ := erased_campaign (e := e) hk hst hk'
    have hnone : NoContacts (Db.log e (erased k.id x)) k'.id := hkey ▸ noContacts_erased k.id x
    have hsmall : Bindable (Db.log e (erased k.id x)) k'.id := by simp [Bindable, contactsOf_eq_nil hnone]
    obtain ⟨counts', e', hr', -, hcounts⟩ := deletion_runs actor' reason' again
      (correctionDangles_eq hx' hc.erased) (workItemDangles_eq hx' hm.erased) hsmall
    rw [purged_eq_erased hx', erased_again hnone hx' (hkey ▸ retention_erased)] at hr'
    rw [contactsOf_eq_nil hnone] at hcounts
    exact ⟨e', hcounts ▸ hr'⟩
  · have hv : Valid (Db.log e (erased k.id x)) := ⟨hx'.wellFormed, hx'.importJobs⟩
    obtain ⟨hvalid, hsup⟩ := invariant_of_serial (I := fun x => x.suppressed phone = true)
      (fun op x x' hx _ he hI => he.suppressed hx.wellFormed hI) hv hs hy
    intro c r res y' hr w hw hp
    exact commitImport_suppressed hvalid.wellFormed hr hsup hw hp

/-! Campaign 1 is completed and shares a phone with campaign 2. Its other phone was called twice,
the second time to correct the first. -/

theorem Referential.of_mem (hx : x.WellFormed) (hj : Table.Unique x.importJobs) (ha : Table.Unique x.attempts)
    (hk : ∀ cc ∈ x.campaignContacts, (Table.find x.campaigns cc.campaignId).isSome = true)
    (hw : ∀ a ∈ x.attempts, (Table.find x.workItems a.workItemId).isSome = true)
    (hcc : ∀ a ∈ x.attempts, (x.attemptContact a).isSome = true)
    (hc : ∀ a ∈ x.attempts, a.correctionOfAttemptId.all (fun b => (Table.find x.attempts b).isSome) = true) :
    Referential x where
  wellFormed := hx
  importJobs := hj
  attempts := ha
  campaign cc h := Option.isSome_iff_exists.1 (hk cc h)
  attemptItem a h := Option.isSome_iff_exists.1 (hw a h)
  attemptContact a h := Option.isSome_iff_exists.1 (hcc a h)
  correction a h b hb := by
    have := hc a h
    rw [hb] at this
    exact Option.isSome_iff_exists.1 this

def Demo.completed : Campaign := { id := 1, status := .completed, completedAt := some 0, retentionDeleteAfter := some 60 }

def Demo.shared : Db where
  campaigns := [Demo.completed, { id := 2, status := .active }]
  contacts := [{ id := 11, phoneCiphertext := "", phoneFingerprint := "f" },
    { id := 12, phoneCiphertext := "", phoneFingerprint := "g" }]
  campaignContacts := [{ id := 21, campaignId := 1, contactId := 11 }, { id := 22, campaignId := 1, contactId := 12 },
    { id := 23, campaignId := 2, contactId := 12 }]
  workItems := [{ id := 31, campaignContactId := 21, state := .completed }, { id := 33, campaignContactId := 23 }]
  attempts := [
    { id := 41, workItemId := 31, campaignContactId := 21, agentId := 5, dispositionDefinitionId := 6,
      semanticOutcome := "sale", idempotencyKey := "a", resultingWorkItemState := .completed, createdAt := 0 },
    { id := 42, workItemId := 31, campaignContactId := 21, agentId := 5, dispositionDefinitionId := 6,
      semanticOutcome := "sale", idempotencyKey := "b", resultingWorkItemState := .completed, createdAt := 1,
      correctionOfAttemptId := some 41 }]

theorem deletion_removes_exactly_shared :
    ∃ x', DeletesExactly Demo.completed (some 5) (some "manual") Demo.shared x' := by
  refine deletion_removes_exactly (.of_mem (.of_mem ?_ ?_ ?_ ?_ ?_ ?_) ?_ ?_ ?_ ?_ ?_ ?_) ?_ ?_ rfl rfl ?_ <;> decide +kernel

/-- An attempt on the contact of campaign 2 names the work item of campaign 1. -/
def Demo.crossed : Db :=
  { Demo.shared with
    attempts := [
      { id := 43, workItemId := 31, campaignContactId := 23, agentId := 5, dispositionDefinitionId := 6,
        semanticOutcome := "sale", idempotencyKey := "c", resultingWorkItemState := .completed, createdAt := 0 }] }

/-- References resolve and nothing is corrected, but the work item cannot be deleted. -/
theorem crossed_not_deleted : Referential Demo.crossed ∧ CorrectsOwn Demo.crossed ∧
    ((Retention.deleteCompletedCampaignData Demo.completed none none).exec Demo.crossed).1 =
      .error (.integrityError "fk_call_attempts_work_item_id") := by
  refine ⟨.of_mem (.of_mem ?_ ?_ ?_ ?_ ?_ ?_) ?_ ?_ ?_ ?_ ?_ ?_, ?_, ?_⟩ <;> decide

end OmniDB.Service
