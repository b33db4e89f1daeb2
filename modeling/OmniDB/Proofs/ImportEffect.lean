import OmniDB.Proofs.Locking
import OmniDB.Spec.Imports

/-! What the commit of a campaign import does to the committed state: it appends contacts,
campaign contacts and work items, each row and each phone under its lock, and a work item
only for a phone that is not suppressed. -/

namespace OmniDB

open Tx

/-- A campaign contact as the import creates it. -/
structure CampaignContact.Fresh (campaign : Uuid) (suppressed : Bool) (cc : CampaignContact) : Prop where
  campaign : cc.campaignId = campaign
  status : cc.status = if suppressed then .suppressed else .queued
  completedAt : cc.completedAt = none
  code : cc.finalDispositionCode = none

/-- A work item as the import creates it. -/
def WorkItem.Fresh (w : WorkItem) : Prop :=
  w = { id := w.id, campaignContactId := w.campaignContactId, createdAt := w.createdAt }

/-- A contact of the phone is in the campaign. -/
def Db.InCampaign (db : Db) (campaign : Uuid) (phone : Fingerprint) : Prop :=
  ∃ cc ∈ db.campaignContacts, cc.campaignId = campaign ∧
    (db.contact cc).map Contact.phoneFingerprint = some phone

/-- The import into `campaign` appends the contacts `ks`, the campaign contacts `ccs` and
the work items `ws`, for phones that `offered` allows. -/
structure ImportEffect (held : LockKey → Prop) (campaign : Uuid) (offered : Fingerprint → Prop)
    (ks : List Contact) (ccs : List CampaignContact) (ws : List WorkItem) (x x' : Db) : Prop where
  contacts : x'.contacts = x.contacts ++ ks
  campaignContacts : x'.campaignContacts = x.campaignContacts ++ ccs
  workItems : x'.workItems = x.workItems ++ ws
  attempts : x'.attempts = x.attempts
  suppressions : x'.suppressions = x.suppressions
  campaigns : x'.campaigns = x.campaigns
  dispositions : x'.dispositions = x.dispositions
  importRows : x'.importRows = x.importRows
  importDecisions : x'.importDecisions = x.importDecisions
  jobKeys : x'.importJobs.map key = x.importJobs.map key
  importJob : ∀ id, Table.find x'.importJobs id = Table.find x.importJobs id ∨ (held (.importJob id) ∧
    ∃ j now idem res, Table.find x.importJobs id = some j ∧
      Table.find x'.importJobs id = some (Imports.committed now idem res j))
  userAssignments : x'.userAssignments = x.userAssignments
  contact : ∀ k ∈ ks, held (.contact k.id) ∧ held (.phone k.phoneFingerprint) ∧
    Table.find x.contacts k.id = none
  campaignContact : ∀ cc ∈ ccs, held (.campaignContact cc.id) ∧
    Table.find x.campaignContacts cc.id = none ∧
    ∃ k, x'.contact cc = some k ∧ held (.phone k.phoneFingerprint) ∧
      cc.Fresh campaign (x.suppressed k.phoneFingerprint) ∧ offered k.phoneFingerprint ∧
      ¬x.InCampaign campaign k.phoneFingerprint
  workItem : ∀ w ∈ ws, held (.workItem w.id) ∧ Table.find x.workItems w.id = none ∧ w.Fresh
  queued : ws.map (·.campaignContactId) =
    (ccs.filter fun cc => cc.status = .queued).map CampaignContact.id
  wellFormed : x'.WellFormed

namespace ImportEffect

variable {held held' : LockKey → Prop} {campaign : Uuid} {offered : Fingerprint → Prop} {ks : List Contact}
variable {ccs : List CampaignContact} {ws : List WorkItem} {x y x' : Db}

theorem refl (hx : x.WellFormed) : ImportEffect held campaign offered [] [] [] x x where
  contacts := (List.append_nil _).symm
  campaignContacts := (List.append_nil _).symm
  workItems := (List.append_nil _).symm
  attempts := rfl
  suppressions := rfl
  campaigns := rfl
  dispositions := rfl
  importRows := rfl
  importDecisions := rfl
  jobKeys := rfl
  importJob _ := Or.inl rfl
  userAssignments := rfl
  contact := by simp
  campaignContact := by simp
  workItem := by simp
  queued := by simp
  wellFormed := hx

theorem held_mono (h : ImportEffect held campaign offered ks ccs ws x y) (hh : ∀ k, held k → held' k) :
    ImportEffect held' campaign offered ks ccs ws x y :=
  { h with
    contact := fun k hk => ⟨hh _ (h.contact k hk).1, hh _ (h.contact k hk).2.1, (h.contact k hk).2.2⟩
    campaignContact := fun cc hcc => by
      obtain ⟨hl, hf, k, hk, hp, hs⟩ := h.campaignContact cc hcc
      exact ⟨hh _ hl, hf, k, hk, hh _ hp, hs⟩
    workItem := fun w hw => ⟨hh _ (h.workItem w hw).1, (h.workItem w hw).2⟩
    importJob := fun id => (h.importJob id).imp_right (And.imp_left (hh _)) }

theorem suppressed_eq (h : ImportEffect held campaign offered ks ccs ws x y) (f : Fingerprint) :
    y.suppressed f = x.suppressed f := by
  unfold Db.suppressed
  rw [h.suppressions]

theorem contact_forth (h : ImportEffect held campaign offered ks ccs ws x y) {id : Uuid} {k : Contact}
    (hk : Table.find x.contacts id = some k) : Table.find y.contacts id = some k := by
  rw [h.contacts]
  exact Table.find_append_of_some hk

theorem find_eq_none_of_append {ρ : Type} [Keyed ρ Uuid] {t u : List ρ} {id : Uuid}
    (h : Table.find (t ++ u) id = none) : Table.find t id = none := by
  rw [Table.find_append, Option.or_eq_none_iff] at h
  exact h.1

theorem log (h : ImportEffect held campaign offered ks ccs ws x y) (e : AuditEvent) :
    ImportEffect held campaign offered ks ccs ws x (Db.log e y) :=
  { h with wellFormed := { h.wellFormed with } }

/-- The locked job of the import is committed. -/
theorem commit (h : ImportEffect held campaign offered ks ccs ws x y) {id : Uuid} (now : Time)
    (idem : String) (res : ImportResult) (hl : held (.importJob id)) :
    ImportEffect held campaign offered ks ccs ws x
      { y with importJobs := Table.modify y.importJobs id (Imports.committed now idem res) } :=
  have hfind (j : Uuid) : Table.find (Table.modify y.importJobs id (Imports.committed now idem res)) j =
      if j = id then (Table.find y.importJobs j).map (Imports.committed now idem res)
      else Table.find y.importJobs j := Table.find_modify fun _ h => h
  { h with
    wellFormed := { h.wellFormed with }
    jobKeys := (Table.keys_modify _ id (f := Imports.committed now idem res) fun _ h => h).trans h.jobKeys
    importJob := fun j => by
      by_cases hj : j = id
      · subst hj
        rw [hfind, if_pos rfl]
        rcases h.importJob j with he | ⟨-, job, now', idem', res', hx, hy⟩
        · rw [he]
          cases hx : Table.find x.importJobs j with
          | none => exact Or.inl rfl
          | some job => exact Or.inr ⟨hl, job, now, idem, res, rfl, rfl⟩
        · exact Or.inr ⟨hl, job, now, idem, res, hx, by rw [hy]; rfl⟩
      · rw [hfind, if_neg hj]
        exact h.importJob j }

/-- One more contact, the first of its phone. -/
theorem addContact (h : ImportEffect held campaign offered ks ccs ws x y) {k : Contact}
    (hl : held (.contact k.id)) (hp : held (.phone k.phoneFingerprint))
    (hfree : Table.find y.contacts k.id = none)
    (hnew : ∀ k' ∈ y.contacts, k'.phoneFingerprint ≠ k.phoneFingerprint) :
    ImportEffect held campaign offered (ks ++ [k]) ccs ws x (y.addContact k) :=
  { h with
    contacts := by rw [← List.append_assoc, ← h.contacts]; rfl
    contact := fun k' hk' => by
      rcases List.mem_append.1 hk' with hk' | hk'
      · exact h.contact k' hk'
      · obtain rfl := List.mem_singleton.1 hk'
        exact ⟨hl, hp, find_eq_none_of_append (h.contacts ▸ hfree)⟩
    campaignContact := fun cc hcc => by
      obtain ⟨hl, hf, k', hk', hr⟩ := h.campaignContact cc hcc
      exact ⟨hl, hf, k', Table.find_append_of_some hk', hr⟩
    wellFormed := h.wellFormed.addContact hfree hnew }

/-- One more campaign contact of a suppressed phone. -/
theorem addSuppressed (h : ImportEffect held campaign offered ks ccs ws x y) {cc : CampaignContact} {k : Contact}
    (hl : held (.campaignContact cc.id)) (hp : held (.phone k.phoneFingerprint))
    (hfree : Table.find y.campaignContacts cc.id = none) (hk : y.contact cc = some k)
    (hs : x.suppressed k.phoneFingerprint = true) (hcc : cc.Fresh campaign true)
    (ho : offered k.phoneFingerprint) (hnot : ¬x.InCampaign campaign k.phoneFingerprint) :
    ImportEffect held campaign offered ks (ccs ++ [cc]) ws x (y.addCampaignContact cc) :=
  { h with
    campaignContacts := by rw [← List.append_assoc, ← h.campaignContacts]; rfl
    campaignContact := fun cc' hcc' => by
      rcases List.mem_append.1 hcc' with hcc' | hcc'
      · exact h.campaignContact cc' hcc'
      · obtain rfl := List.mem_singleton.1 hcc'
        exact ⟨hl, find_eq_none_of_append (h.campaignContacts ▸ hfree), k, hk, hp, hs ▸ hcc, ho, hnot⟩
    queued := by
      have hne : cc.status ≠ .queued := by simp [hcc.status]
      simp [List.filter_append, hne, h.queued]
    wellFormed := h.wellFormed.addCampaignContact hfree hk }

/-- One more campaign contact with its work item. -/
theorem addQueued (h : ImportEffect held campaign offered ks ccs ws x y) {cc : CampaignContact} {k : Contact}
    {w : WorkItem} (hl : held (.campaignContact cc.id)) (hp : held (.phone k.phoneFingerprint))
    (hfree : Table.find y.campaignContacts cc.id = none) (hk : y.contact cc = some k)
    (hs : x.suppressed k.phoneFingerprint = false) (hcc : cc.Fresh campaign false)
    (ho : offered k.phoneFingerprint) (hnot : ¬x.InCampaign campaign k.phoneFingerprint)
    (hlw : held (.workItem w.id)) (hfreew : Table.find y.workItems w.id = none) (hw : w.Fresh)
    (hwc : w.campaignContactId = cc.id) :
    ImportEffect held campaign offered ks (ccs ++ [cc]) (ws ++ [w]) x ((y.addCampaignContact cc).addWorkItem w) :=
  { h with
    campaignContacts := by rw [← List.append_assoc, ← h.campaignContacts]; rfl
    workItems := by rw [← List.append_assoc, ← h.workItems]; rfl
    campaignContact := fun cc' hcc' => by
      rcases List.mem_append.1 hcc' with hcc' | hcc'
      · exact h.campaignContact cc' hcc'
      · obtain rfl := List.mem_singleton.1 hcc'
        exact ⟨hl, find_eq_none_of_append (h.campaignContacts ▸ hfree), k, hk, hp, hs ▸ hcc, ho, hnot⟩
    workItem := fun w' hw' => by
      rcases List.mem_append.1 hw' with hw' | hw'
      · exact h.workItem w' hw'
      · obtain rfl := List.mem_singleton.1 hw'
        exact ⟨hlw, find_eq_none_of_append (h.workItems ▸ hfreew), hw⟩
    queued := by
      have hq : cc.status = .queued := by simp [hcc.status]
      simp [List.filter_append, hq, h.queued, hwc]
    wellFormed := by
      have hlink : (y.addCampaignContact cc).campaignContact w = some cc := by
        unfold Db.campaignContact Db.addCampaignContact
        rw [Table.find_append, hwc, hfree, Option.none_or, Table.find_singleton]
        exact if_pos rfl
      exact (h.wellFormed.addCampaignContact hfree hk).addWorkItem hfreew hlink }

/-- A row of the new state is a row of the old one or a fresh one. -/
theorem workItem_back (h : ImportEffect held campaign offered ks ccs ws x y) {id : Uuid} {w : WorkItem}
    (hw : Table.find y.workItems id = some w) : Table.find x.workItems id = some w ∨ w ∈ ws := by
  rw [h.workItems, Table.find_append] at hw
  cases hx : Table.find x.workItems id with
  | some w' =>
    rw [hx, Option.some_or] at hw
    exact Or.inl hw
  | none =>
    rw [hx, Option.none_or] at hw
    exact Or.inr (Table.mem_of_find hw)

theorem campaignContact_back (h : ImportEffect held campaign offered ks ccs ws x y) {id : Uuid}
    {cc : CampaignContact} (hcc : Table.find y.campaignContacts id = some cc) :
    Table.find x.campaignContacts id = some cc ∨ cc ∈ ccs := by
  rw [h.campaignContacts, Table.find_append] at hcc
  cases hx : Table.find x.campaignContacts id with
  | some cc' =>
    rw [hx, Option.some_or] at hcc
    exact Or.inl hcc
  | none =>
    rw [hx, Option.none_or] at hcc
    exact Or.inr (Table.mem_of_find hcc)

theorem grows (h : ImportEffect held campaign offered ks ccs ws x y) : Db.Grows x y where
  campaigns := h.campaigns
  dispositions := h.dispositions
  importRows := h.importRows
  workItem id w hw := by
    refine ⟨w, ?_, rfl, fun _ => rfl⟩
    rw [h.workItems]
    exact Table.find_append_of_some hw
  campaignContact id cc hcc := by
    refine ⟨cc, ?_, rfl, rfl⟩
    rw [h.campaignContacts]
    exact Table.find_append_of_some hcc
  contact _ _ hk := h.contact_forth hk
  attempt a ha := by rwa [h.attempts]

/-- The campaign contact of a fresh work item, which is queued and new. -/
theorem fresh_link (h : ImportEffect held campaign offered ks ccs ws x y) {w : WorkItem} (hw : w ∈ ws) :
    ∃ cc ∈ ccs, cc.id = w.campaignContactId ∧ cc.status = .queued ∧ y.campaignContact w = some cc := by
  have hmem : w.campaignContactId ∈ ws.map (·.campaignContactId) := List.mem_map_of_mem hw
  rw [h.queued] at hmem
  obtain ⟨cc, hcc, hid⟩ := List.mem_map.1 hmem
  obtain ⟨hcc, hq⟩ := List.mem_filter.1 hcc
  refine ⟨cc, hcc, hid, of_decide_eq_true hq, ?_⟩
  rw [Db.campaignContact, ← hid]
  refine h.wellFormed.campaignContacts.find_of_mem ?_
  rw [h.campaignContacts]
  exact List.mem_append_right _ hcc

/-- The phone of a fresh work item is locked, and not suppressed. -/
theorem fresh_phone (h : ImportEffect held campaign offered ks ccs ws x y) {w : WorkItem} (hw : w ∈ ws) :
    ∃ f, y.phoneOf w = some f ∧ held (.phone f) ∧ x.suppressed f = false := by
  obtain ⟨cc, hcc, -, hq, hlink⟩ := h.fresh_link hw
  obtain ⟨-, -, k, hk, hp, hf, -⟩ := h.campaignContact cc hcc
  refine ⟨k.phoneFingerprint, Db.phoneOf_eq hlink hk, hp, ?_⟩
  cases hs : x.suppressed k.phoneFingerprint with
  | false => rfl
  | true =>
    have := hf.status
    simp [hs, hq] at this

/-- An effect under locks is what the discipline allows. -/
theorem within (h : ImportEffect held campaign offered ks ccs ws x y) (hx : x.WellFormed) :
    discipline.Within held x y where
  grows := h.grows
  same k hk := by
    cases k with
    | phone f =>
      refine ⟨h.suppressed_eq f, fun k hkm hkf => ?_, fun id w hw hp => ?_, fun id cc hcc hp => ?_⟩
      · rw [h.contacts, List.mem_append] at hkm
        rcases hkm with hkm | hkm
        · exact hkm
        · exact absurd (hkf ▸ (h.contact k hkm).2.1) hk
      · rcases h.workItem_back hw with hw' | hw'
        · exact ⟨w, hw', by rw [← h.grows.phoneOf_iff hx hw' rfl]; exact hp⟩
        · obtain ⟨f', hf', hl, -⟩ := h.fresh_phone hw'
          exact absurd (Option.some.inj (hf'.symm.trans hp) ▸ hl) hk
      · rcases h.campaignContact_back hcc with hcc' | hcc'
        · obtain ⟨k', hk'⟩ := hx.contact id cc hcc'
          refine ⟨cc, hcc', ?_⟩
          rw [hk', ← show y.contact cc = some k' from h.contact_forth hk', hp]
        · obtain ⟨-, -, k', hk', hl, -⟩ := h.campaignContact cc hcc'
          rw [hk', Option.map_some] at hp
          exact absurd (Option.some.inj hp ▸ hl) hk
    | importJob id => exact (h.importJob id).resolve_right fun hr => hk hr.1
    | idempotency => exact fun _ a ha _ _ => h.attempts ▸ ha
    | workItem id =>
      change Table.find y.workItems id = Table.find x.workItems id
      rw [h.workItems]
      exact Table.find_append_of_ne fun w hw he => hk (he ▸ (h.workItem w hw).1)
    | campaignContact id =>
      change Table.find y.campaignContacts id = Table.find x.campaignContacts id
      rw [h.campaignContacts]
      exact Table.find_append_of_ne fun cc hcc he => hk (he ▸ (h.campaignContact cc hcc).1)
    | contact id =>
      change Table.find y.contacts id = Table.find x.contacts id
      rw [h.contacts]
      exact Table.find_append_of_ne fun k' hk' he => hk (he ▸ (h.contact k' hk').1)
    | userAssignment id => exact congrArg (Table.find · id) h.userAssignments
    | attempt id => exact congrArg (Table.find · id) h.attempts
    | _ => trivial

end ImportEffect

end OmniDB
