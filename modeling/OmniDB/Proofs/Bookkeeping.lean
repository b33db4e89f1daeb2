import OmniDB.Proofs.Queue
import OmniDB.Spec.Retention

/-! When a campaign contact is done. Its `completed_at`, its status and the state of its
one work item are written together by every transaction of the queue, except by an import
of a suppressed phone, which creates a contact that is done in one place only. -/

namespace OmniDB.Queue

open Tx

/-- The work items of the campaign contact are all closed. -/
def ItemsClosed (db : Db) (cc : Uuid) : Prop :=
  ∀ w ∈ db.workItems, w.campaignContactId = cc → w.state.terminal = true

instance (db : Db) (cc : Uuid) : Decidable (ItemsClosed db cc) :=
  inferInstanceAs (Decidable (∀ w ∈ db.workItems, w.campaignContactId = cc → w.state.terminal = true))

/-- Stamp, status and work items of a campaign contact agree. -/
@[mk_iff]
structure Settled (db : Db) (cc : CampaignContact) : Prop where
  status : cc.completedAt.isSome = true ↔ cc.status = .completed ∨ cc.status = .suppressed
  items : cc.completedAt.isSome = true ↔ ItemsClosed db cc.id
  code : cc.completedAt.isSome = true → cc.finalDispositionCode.isSome = true

instance (db : Db) (cc : CampaignContact) : Decidable (Settled db cc) :=
  decidable_of_iff' _ (settled_iff db cc)

/-- A campaign contact has at most one work item. -/
def OneItem (db : Db) : Prop :=
  ∀ w ∈ db.workItems, ∀ w' ∈ db.workItems, w.campaignContactId = w'.campaignContactId → w = w'

/-- A campaign contact that is done has no open work item. -/
def DoneClosed (db : Db) : Prop :=
  ∀ cc ∈ db.campaignContacts, cc.completedAt.isSome = true → ItemsClosed db cc.id

/-- Every campaign contact is settled, and has at most one work item. -/
structure Bookkept (db : Db) : Prop where
  settled : ∀ cc ∈ db.campaignContacts, Settled db cc
  oneItem : OneItem db

/-- The commit request inserts a phone that is suppressed. -/
def ImportsSuppressed (db : Db) : Op → Prop
  | .commitImport c r => ∃ job phone, Imports.Commits c r db job ∧ Imports.Offers db job.id phone ∧
      ¬db.InCampaign job.campaignId phone ∧ db.suppressed phone = true
  | _ => False

/-! ## One commit -/

section Work

variable {held : LockKey → Prop} {Δ : WorkItem → WorkItem → Prop} {new : List CallAttempt}
variable {dnc : List SuppressionEntry} {x x' : Db}

theorem oneItem_of_work (hx : x.WellFormed) (h : WorkEffect held Δ new dnc x x') (ho : OneItem x) :
    OneItem x' := by
  intro w hw w' hw' he
  have hu := (h.wellFormed hx).workItems
  obtain ⟨v, hv, hvc, -⟩ := h.workItem_back (hu.find_of_mem hw)
  obtain ⟨v', hv', hvc', -⟩ := h.workItem_back (hu.find_of_mem hw')
  have hvv : v = v' := ho v (Table.mem_of_find hv) v' (Table.mem_of_find hv') (by rw [← hvc, ← hvc', he])
  have hid : w.id = w'.id := by
    rw [show w.id = v.id from (Table.key_of_find hv).symm, hvv]
    exact Table.key_of_find hv'
  exact hu.eq hw hw' hid

/-- Closed items stay closed. -/
theorem itemsClosed_of_work (hx : x.WellFormed) (h : WorkEffect held Δ new dnc x x') {cc : Uuid}
    (hc : ItemsClosed x cc) : ItemsClosed x' cc := by
  intro w' hw' he
  obtain ⟨w, hw, hwc, rfl | ⟨ht, -⟩⟩ := h.workItem_back ((h.wellFormed hx).workItems.find_of_mem hw')
  · exact hc _ (Table.mem_of_find hw) he
  · have := hc w (Table.mem_of_find hw) (hwc ▸ he)
    simp [ht] at this

/-- The item that is closed with its contact is the only one of the contact. -/
theorem itemsClosed_of_closed (hx : x.WellFormed) (h : WorkEffect held Δ new dnc x x') (ho : OneItem x)
    {cc i : Uuid} {w w' : WorkItem} (hw : Table.find x.workItems i = some w)
    (hw' : Table.find x'.workItems i = some w') (hc : w.campaignContactId = cc)
    (ht' : w'.state.terminal = true) : ItemsClosed x' cc := by
  intro v' hv' hvc
  obtain ⟨u, hu, huc, -⟩ := h.workItem_forth hw
  obtain rfl : w' = u := Option.some.inj (hw'.symm.trans hu)
  rwa [oneItem_of_work hx h ho v' hv' w' (Table.mem_of_find hw') (by rw [hvc, huc, hc])]

/-- A contact that is not stamped keeps its items open, or keeps them closed. -/
theorem settled_of_same (hx : x.WellFormed) (h : WorkEffect held Δ new dnc x x') {cc : CampaignContact}
    (hb : Settled x cc) (hcc : Table.find x'.campaignContacts cc.id = some cc) : Settled x' cc where
  status := hb.status
  items := by
    refine ⟨fun hdone => itemsClosed_of_work hx h (hb.items.1 hdone), fun hclosed => ?_⟩
    by_contra hopen
    refine hopen (hb.items.2 fun w hw hc => ?_)
    obtain ⟨w', hw', hwc, -⟩ := h.workItem_forth (hx.workItems.find_of_mem hw)
    by_contra ht
    -- an item that is closed now and was open before has its contact stamped
    obtain ⟨cc₀, cc', -, hcc', hs⟩ := h.closed _ w w' (hx.workItems.find_of_mem hw) hw'
      (by simpa using ht) (hclosed w' (Table.mem_of_find hw') (hwc.trans hc))
    rw [hc, hcc] at hcc'
    obtain rfl := Option.some.inj hcc'
    exact hopen hs.completedAt
  code := hb.code

theorem bookkept_of_work (hx : x.WellFormed) (h : WorkEffect held Δ new dnc x x') (hb : Bookkept x) :
    Bookkept x' where
  oneItem := oneItem_of_work hx h hb.oneItem
  settled cc' hcc' := by
    have hfind := (h.wellFormed hx).campaignContacts.find_of_mem hcc'
    rcases h.campaignContact cc'.id with he | ⟨-, cc, cc₁, -, hcc₁, hs, i, w, w', hw, hw', hc, -, ht'⟩
    · exact settled_of_same hx h (hb.settled cc' (Table.mem_of_find (he.symm.trans hfind))) hfind
    · obtain rfl : cc' = cc₁ := Option.some.inj (hfind.symm.trans hcc₁)
      exact ⟨iff_of_true hs.completedAt hs.status,
        iff_of_true hs.completedAt (itemsClosed_of_closed hx h hb.oneItem hw hw' hc ht'), fun _ => hs.code⟩

theorem doneClosed_of_work (hx : x.WellFormed) (h : WorkEffect held Δ new dnc x x') (ho : OneItem x)
    (hd : DoneClosed x) : DoneClosed x' := by
  intro cc' hcc' hdone
  have hfind := (h.wellFormed hx).campaignContacts.find_of_mem hcc'
  rcases h.campaignContact cc'.id with he | ⟨-, cc, cc₁, -, -, -, i, w, w', hw, hw', hc, -, ht'⟩
  · exact itemsClosed_of_work hx h (hd cc' (Table.mem_of_find (he.symm.trans hfind)) hdone)
  · exact itemsClosed_of_closed hx h ho hw hw' hc ht'

end Work

section Import

variable {held : LockKey → Prop} {campaign : Uuid} {offered : Fingerprint → Prop} {ks : List Contact}
variable {ccs : List CampaignContact} {ws : List WorkItem} {x x' : Db}

/-- A contact that was there before the import gets no new item. -/
theorem itemsClosed_of_import (hx : x.WellFormed) (h : ImportEffect held campaign offered ks ccs ws x x')
    {cc : CampaignContact} (hcc : cc ∈ x.campaignContacts) :
    ItemsClosed x' cc.id ↔ ItemsClosed x cc.id := by
  unfold ItemsClosed
  rw [h.workItems]
  refine ⟨fun hc w hw => hc w (List.mem_append_left _ hw), fun hc w hw he => ?_⟩
  rcases List.mem_append.1 hw with hw | hw
  · exact hc w hw he
  · obtain ⟨cc', hcc', hid, -⟩ := h.fresh_link hw
    have hnone := (h.campaignContact cc' hcc').2.1
    rw [hid, he, show Table.find x.campaignContacts cc.id = some cc from
      hx.campaignContacts.find_of_mem hcc] at hnone
    cases hnone

/-- A contact of a phone that is not suppressed is created with an open item. -/
theorem settled_of_fresh (h : ImportEffect held campaign offered ks ccs ws x x') {cc : CampaignContact}
    (hcc : cc ∈ ccs) (hf : cc.Fresh campaign false) : Settled x' cc where
  status := by simp [hf.status, hf.completedAt]
  items := by
    have hq : cc.id ∈ ws.map (·.campaignContactId) := by
      rw [h.queued]
      exact List.mem_map_of_mem (List.mem_filter.2 ⟨hcc, by simp [hf.status]⟩)
    obtain ⟨w, hw, hid⟩ := List.mem_map.1 hq
    rw [hf.completedAt]
    refine iff_of_false nofun fun hclosed => ?_
    have ht := hclosed w (h.workItems ▸ List.mem_append_right _ hw) hid
    rw [(h.workItem w hw).2.2] at ht
    cases ht
  code := by simp [hf.completedAt]

theorem oneItem_of_import (hx : x.WellFormed) (h : ImportEffect held campaign offered ks ccs ws x x')
    (ho : OneItem x) : OneItem x' := by
  have hnew : ∀ w ∈ x.workItems, ∀ w' ∈ ws, w.campaignContactId ≠ w'.campaignContactId := by
    intro w hw w' hw' he
    obtain ⟨cc, hcc⟩ := hx.campaignContact _ w (hx.workItems.find_of_mem hw)
    obtain ⟨cc', hcc', hid, -⟩ := h.fresh_link hw'
    have hnone := (h.campaignContact cc' hcc').2.1
    rw [hid, ← he, show Table.find x.campaignContacts w.campaignContactId = some cc from hcc] at hnone
    cases hnone
  have hnodup : (ws.map (·.campaignContactId)).Nodup := by
    rw [h.queued]
    have hu : Table.Unique (x.campaignContacts ++ ccs) := h.campaignContacts ▸ h.wellFormed.campaignContacts
    exact hu.sublist ((List.filter_sublist.trans (List.sublist_append_right _ _)).map _)
  intro w hw w' hw' he
  rw [h.workItems] at hw hw'
  rcases List.mem_append.1 hw with hw | hw <;> rcases List.mem_append.1 hw' with hw' | hw'
  · exact ho w hw w' hw' he
  · exact absurd he (hnew w hw w' hw')
  · exact absurd he.symm (hnew w' hw' w hw)
  · exact List.inj_on_of_nodup_map hnodup hw hw' he

/-- An import of phones none of which is suppressed. -/
theorem bookkept_of_import (hx : x.WellFormed) (h : ImportEffect held campaign offered ks ccs ws x x')
    (hs : ∀ phone, offered phone → ¬x.InCampaign campaign phone → x.suppressed phone = false)
    (hb : Bookkept x) : Bookkept x' where
  oneItem := oneItem_of_import hx h hb.oneItem
  settled cc hcc := by
    rw [h.campaignContacts] at hcc
    rcases List.mem_append.1 hcc with hcc | hcc
    · have := hb.settled cc hcc
      exact ⟨this.status, by rw [itemsClosed_of_import hx h hcc]; exact this.items, this.code⟩
    · obtain ⟨-, -, k, -, -, hf, ho, hn⟩ := h.campaignContact cc hcc
      exact settled_of_fresh h hcc (hs _ ho hn ▸ hf)

theorem doneClosed_of_import (hx : x.WellFormed) (h : ImportEffect held campaign offered ks ccs ws x x')
    (hd : DoneClosed x) : DoneClosed x' := by
  intro cc hcc hdone
  rw [h.campaignContacts] at hcc
  rcases List.mem_append.1 hcc with hcc | hcc
  · exact (itemsClosed_of_import hx h hcc).2 (hd cc hcc hdone)
  · obtain ⟨-, -, k, -, -, hf, -⟩ := h.campaignContact cc hcc
    simp [hf.completedAt] at hdone

end Import

/-- One operation keeps the books. -/
theorem bookkept_step {op : Op} {a : Result} {x x' : Db} (hx : x.WellFormed)
    (hok : ¬ImportsSuppressed x op) (h : (body op).Runs x a x') (hb : Bookkept x) : Bookkept x' := by
  obtain ⟨held, he⟩ := effect_of_runs hx h
  rcases he.cases with ⟨new, dnc, he, -⟩ | ⟨c, r, rfl, -⟩
  · exact bookkept_of_work hx he hb
  · obtain ⟨res, hr, rfl⟩ := Prog.runs_map.1 h
    rcases Imports.commitImport_runs hx hr with ⟨rfl, -⟩ | ⟨job, held, hc, ks, ccs, ws, he⟩
    · exact hb
    · refine bookkept_of_import hx he (fun phone ho hn => ?_) hb
      by_contra hs
      exact hok ⟨job, phone, hc, ho, hn, by simpa using hs⟩

/-- A stamp is never cleared. -/
theorem done_forth {op : Op} {a : Result} {held : LockKey → Prop} {x x' : Db} (h : op.Effect a held x x')
    {id : Uuid} {cc : CampaignContact} (hcc : Table.find x.campaignContacts id = some cc)
    (hdone : cc.completedAt.isSome = true) :
    ∃ cc', Table.find x'.campaignContacts id = some cc' ∧ cc'.completedAt.isSome = true := by
  rcases h.cases with ⟨new, dnc, h, -⟩ | ⟨-, -, -, job, campaign, ks, ccs, ws, h⟩
  · obtain ⟨cc', hcc', -, -, rfl | hs⟩ := h.campaignContact_forth hcc
    · exact ⟨_, hcc', hdone⟩
    · exact ⟨cc', hcc', hs.completedAt⟩
  · exact ⟨cc, h.campaignContacts ▸ Table.find_append_of_some hcc, hdone⟩

/-- The stamps alone tell whether a campaign is done. -/
theorem campaignIsComplete_iff {db : Db} (hdb : db.WellFormed) (hb : Bookkept db) {campaign : Campaign}
    (ha : campaign.status = .active) (hne : Retention.contactsOf db campaign.id ≠ []) :
    Retention.campaignIsComplete db campaign = true ↔
      ∀ w ∈ db.workItems, db.campaignOf w = some campaign.id → w.state.terminal = true := by
  have hmem : ∀ cc, cc ∈ Retention.contactsOf db campaign.id ↔
      cc ∈ db.campaignContacts ∧ cc.campaignId = campaign.id := fun cc => by
    simp [Retention.contactsOf]
  simp only [Retention.campaignIsComplete, ha, decide_true, Bool.true_and, Bool.and_eq_true,
    Bool.not_eq_true', List.isEmpty_eq_false_iff, List.all_eq_true]
  refine ⟨fun h w hw hc => ?_, fun h => ⟨hne, fun cc hcc => ?_⟩⟩
  · obtain ⟨cc, hcc, hcid⟩ := Option.map_eq_some_iff.1 hc
    have hin := Table.mem_of_find hcc
    have hdone := h.2 cc ((hmem cc).2 ⟨hin, hcid⟩)
    exact (hb.settled cc hin).items.1 hdone w hw (Table.key_of_find hcc).symm
  · obtain ⟨hin, hcid⟩ := (hmem cc).1 hcc
    refine (hb.settled cc hin).items.2 fun w hw hc => h w hw ?_
    rw [Db.campaignOf, Db.campaignContact, hc,
      show Table.find db.campaignContacts cc.id = some cc from hdb.campaignContacts.find_of_mem hin,
      Option.map_some, hcid]

/-! ## Runs -/

/-- In a run that imports no suppressed phone, stamp, status and work items of every
campaign contact agree, no stamp is ever cleared, and the stamps tell whether a campaign
is done. -/
theorem completion_bookkeeping {v db : Db} (hv : v.WellFormed) (hb : Bookkept v)
    (h : Prog.Serial body (fun db op => ¬ImportsSuppressed db op) v db) :
    (∀ cc ∈ db.campaignContacts, Settled db cc) ∧
    (∀ id cc, Table.find v.campaignContacts id = some cc → cc.completedAt.isSome = true →
      ∃ cc', Table.find db.campaignContacts id = some cc' ∧ cc'.completedAt.isSome = true) ∧
    ∀ campaign : Campaign, campaign.status = .active → Retention.contactsOf db campaign.id ≠ [] →
      (Retention.campaignIsComplete db campaign = true ↔
        ∀ w ∈ db.workItems, db.campaignOf w = some campaign.id → w.state.terminal = true) := by
  let I (x : Db) : Prop := x.WellFormed ∧ Bookkept x ∧
    ∀ id cc, Table.find v.campaignContacts id = some cc → cc.completedAt.isSome = true →
      ∃ cc', Table.find x.campaignContacts id = some cc' ∧ cc'.completedAt.isSome = true
  obtain ⟨hdb, hb, hdone⟩ : I db := by
    refine Prog.Serial.invariant (I := I) ?_ h ⟨hv, hb, fun id cc hcc hd => ⟨cc, hcc, hd⟩⟩
    rintro op x a x' ⟨hx, hb, hdone⟩ hok hr
    obtain ⟨held, he⟩ := effect_of_runs hx hr
    refine ⟨he.wellFormed hx, bookkept_step hx hok hr hb, fun id cc hcc hd => ?_⟩
    obtain ⟨cc', hcc', hd'⟩ := hdone id cc hcc hd
    exact done_forth he hcc' hd'
  exact ⟨hb.settled, hdone, fun campaign ha hne => campaignIsComplete_iff hdb hb ha hne⟩

theorem bookkept_demo : Bookkept Demo.db := ⟨by decide, by simp [OneItem, Demo.db]⟩

/-- Agent 5 leases the contact of the small database and completes it with a sale. -/
theorem completion_bookkeeping_sale :
    let db := Prog.serially body Demo.db [.leaseNext (Demo.call 1) 5, Demo.complete 2 1 5 50]
    ∀ cc ∈ db.campaignContacts, Settled db cc :=
  (completion_bookkeeping Demo.db_wellFormed bookkept_demo
    (Prog.serial_serially (by simp [ImportsSuppressed, Demo.complete]) _)).1

/-- The phone of the import is suppressed. -/
def Demo.suppressedImport : Db := { Demo.importDb with
  suppressions := [{ id := 70, phoneFingerprint := "f", source := "letter", effectiveAt := 0 }] }

/-- Its commit leaves a contact with no item and no stamp: the campaign never completes. -/
theorem import_of_suppressed_never_completes :
    let db := Prog.serially body Demo.suppressedImport [Demo.commit 1 "k"]
    Bookkept Demo.suppressedImport ∧ Prog.Serial body (fun _ _ => True) Demo.suppressedImport db ∧
      (¬∀ cc ∈ db.campaignContacts, Settled db cc) ∧
      db.campaigns.all (fun campaign => !Retention.campaignIsComplete db campaign) = true ∧
      db.workItems = [] :=
  ⟨⟨by decide, by simp [OneItem, Demo.suppressedImport, Demo.importDb]⟩, Prog.serial_serially (fun _ _ _ => trivial) _, by decide +kernel,
    by decide +kernel, by decide +kernel⟩

end OmniDB.Queue
