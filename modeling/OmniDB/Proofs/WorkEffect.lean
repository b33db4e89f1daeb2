import OmniDB.Proofs.Locking

/-! What a work-queue transaction does to the committed state, row by row. Every
operation of the queue is shown to have a `WorkEffect`; what a reader needs to know
about the queue as a whole follows from that, with no operation unfolded again. -/

namespace OmniDB

open Tx

/-- A campaign contact is closed with all its stamps. -/
structure CampaignContact.Stamped (cc cc' : CampaignContact) : Prop where
  id : cc'.id = cc.id
  campaign : cc'.campaignId = cc.campaignId
  contact : cc'.contactId = cc.contactId
  status : cc'.status = .completed ∨ cc'.status = .suppressed
  completedAt : cc'.completedAt.isSome = true
  code : cc'.finalDispositionCode.isSome = true

theorem CampaignContact.Stamped.trans {cc cc' cc'' : CampaignContact} (h : CampaignContact.Stamped cc cc')
    (h' : CampaignContact.Stamped cc' cc'') : CampaignContact.Stamped cc cc'' :=
  { h' with
    id := h'.id.trans h.id
    campaign := h'.campaign.trans h.campaign
    contact := h'.contact.trans h.contact }

/-- The transaction changes the work items by `Δ`, closes the campaign contacts of the
items it ends, and stores the attempts `new` and the suppressions `dnc`, each change
under its lock. -/
structure WorkEffect (held : LockKey → Prop) (Δ : WorkItem → WorkItem → Prop)
    (new : List CallAttempt) (dnc : List SuppressionEntry) (c x : Db) : Prop where
  contacts : x.contacts = c.contacts
  campaigns : x.campaigns = c.campaigns
  dispositions : x.dispositions = c.dispositions
  importRows : x.importRows = c.importRows
  importJobs : x.importJobs = c.importJobs
  importDecisions : x.importDecisions = c.importDecisions
  itemKeys : x.workItems.map key = c.workItems.map key
  contactKeys : x.campaignContacts.map key = c.campaignContacts.map key
  workItem : ∀ id, Table.find x.workItems id = Table.find c.workItems id ∨
    (held (.workItem id) ∧ ∃ w w', Table.find c.workItems id = some w ∧
      Table.find x.workItems id = some w' ∧ w.state.terminal = false ∧
      w'.campaignContactId = w.campaignContactId ∧ Δ w w')
  campaignContact : ∀ id, Table.find x.campaignContacts id = Table.find c.campaignContacts id ∨
    (held (.campaignContact id) ∧ ∃ cc cc', Table.find c.campaignContacts id = some cc ∧
      Table.find x.campaignContacts id = some cc' ∧ CampaignContact.Stamped cc cc' ∧
      ∃ i w w', Table.find c.workItems i = some w ∧ Table.find x.workItems i = some w' ∧
        w.campaignContactId = id ∧ w.state.terminal = false ∧ w'.state.terminal = true)
  closed : ∀ id w w', Table.find c.workItems id = some w → Table.find x.workItems id = some w' →
    w.state.terminal = false → w'.state.terminal = true →
    ∃ cc cc', Table.find c.campaignContacts w.campaignContactId = some cc ∧
      Table.find x.campaignContacts w.campaignContactId = some cc' ∧ CampaignContact.Stamped cc cc'
  attempts : x.attempts = c.attempts ++ new
  attempt : ∀ a ∈ new, held (.idempotency "work.complete" a.agentId a.idempotencyKey) ∧
    held (.attempt a.id)
  suppressions : x.suppressions = c.suppressions ++ dnc
  phone : ∀ e ∈ dnc, held (.phone e.phoneFingerprint)
  userAssignments : x.userAssignments = c.userAssignments

namespace WorkEffect

variable {held held' : LockKey → Prop} {Δ Δ' Δ₁ Δ₂ : WorkItem → WorkItem → Prop}
variable {new new' : List CallAttempt} {dnc dnc' : List SuppressionEntry} {c x y : Db}

/-- What is known about the rows sharpens the description of their changes. -/
theorem sharpen (h : WorkEffect held Δ new dnc c x)
    (hΔ : ∀ id w w', Table.find c.workItems id = some w → Table.find x.workItems id = some w' →
      Δ w w' → Δ' w w') : WorkEffect held Δ' new dnc c x := by
  refine { h with workItem := fun id => (h.workItem id).imp_right ?_ }
  rintro ⟨hl, w, w', hw, hw', ht, hc, hd⟩
  exact ⟨hl, w, w', hw, hw', ht, hc, hΔ id w w' hw hw' hd⟩

theorem mono (h : WorkEffect held Δ new dnc c x) (hΔ : ∀ w w', Δ w w' → Δ' w w') :
    WorkEffect held Δ' new dnc c x := h.sharpen fun _ w w' _ _ => hΔ w w'

/-- Every row of the new state is a row of the old one, changed or not. -/
theorem workItem_back (h : WorkEffect held Δ new dnc c x) {id : Uuid} {w' : WorkItem}
    (hw : Table.find x.workItems id = some w') :
    ∃ w, Table.find c.workItems id = some w ∧ w'.campaignContactId = w.campaignContactId ∧
      (w' = w ∨ (w.state.terminal = false ∧ Δ w w')) := by
  rcases h.workItem id with he | ⟨-, w, w'', hw₀, hw'', ht, hc, hd⟩
  · exact ⟨w', he ▸ hw, rfl, Or.inl rfl⟩
  · obtain rfl : w'' = w' := Option.some.inj (hw''.symm.trans hw)
    exact ⟨w, hw₀, hc, Or.inr ⟨ht, hd⟩⟩

/-- Every row of the old state is still there, changed or not. -/
theorem workItem_forth (h : WorkEffect held Δ new dnc c x) {id : Uuid} {w : WorkItem}
    (hw : Table.find c.workItems id = some w) :
    ∃ w', Table.find x.workItems id = some w' ∧ w'.campaignContactId = w.campaignContactId ∧
      (w' = w ∨ (w.state.terminal = false ∧ Δ w w')) := by
  rcases h.workItem id with he | ⟨-, w₀, w', hw₀, hw', ht, hc, hd⟩
  · exact ⟨w, he ▸ hw, rfl, Or.inl rfl⟩
  · obtain rfl : w₀ = w := Option.some.inj (hw₀.symm.trans hw)
    exact ⟨w', hw', hc, Or.inr ⟨ht, hd⟩⟩

theorem campaignContact_back (h : WorkEffect held Δ new dnc c x) {id : Uuid} {cc' : CampaignContact}
    (hcc : Table.find x.campaignContacts id = some cc') :
    ∃ cc, Table.find c.campaignContacts id = some cc ∧ cc'.campaignId = cc.campaignId ∧
      cc'.contactId = cc.contactId ∧ (cc' = cc ∨ CampaignContact.Stamped cc cc') := by
  rcases h.campaignContact id with he | ⟨-, cc, cc'', hcc₀, hcc'', hs, -⟩
  · exact ⟨cc', he ▸ hcc, rfl, rfl, Or.inl rfl⟩
  · obtain rfl : cc'' = cc' := Option.some.inj (hcc''.symm.trans hcc)
    exact ⟨cc, hcc₀, hs.campaign, hs.contact, Or.inr hs⟩

theorem campaignContact_forth (h : WorkEffect held Δ new dnc c x) {id : Uuid} {cc : CampaignContact}
    (hcc : Table.find c.campaignContacts id = some cc) :
    ∃ cc', Table.find x.campaignContacts id = some cc' ∧ cc'.campaignId = cc.campaignId ∧
      cc'.contactId = cc.contactId ∧ (cc' = cc ∨ CampaignContact.Stamped cc cc') := by
  rcases h.campaignContact id with he | ⟨-, cc₀, cc', hcc₀, hcc', hs, -⟩
  · exact ⟨cc, he ▸ hcc, rfl, rfl, Or.inl rfl⟩
  · obtain rfl : cc₀ = cc := Option.some.inj (hcc₀.symm.trans hcc)
    exact ⟨cc', hcc', hs.campaign, hs.contact, Or.inr hs⟩

theorem grows (h : WorkEffect held Δ new dnc c x) : Db.Grows c x where
  campaigns := h.campaigns
  dispositions := h.dispositions
  importRows := h.importRows
  workItem id w hw := by
    obtain ⟨w', hw', hc, hd⟩ := h.workItem_forth hw
    refine ⟨w', hw', hc, fun ht => ?_⟩
    rcases hd with rfl | ⟨hf, -⟩
    · rfl
    · simp [hf] at ht
  campaignContact id cc hcc := by
    obtain ⟨cc', hcc', hc, hk, -⟩ := h.campaignContact_forth hcc
    exact ⟨cc', hcc', hc, hk⟩
  contact id k hk := by rwa [h.contacts]
  attempt a ha := by
    rw [h.attempts]
    exact List.mem_append_left _ ha

theorem phoneOf (h : WorkEffect held Δ new dnc c x) (hc : c.WellFormed) {id : Uuid} {w w' : WorkItem}
    (hw : Table.find c.workItems id = some w) (hl : w'.campaignContactId = w.campaignContactId) :
    x.phoneOf w' = c.phoneOf w := h.grows.phoneOf_iff hc hw hl

theorem campaignOf (h : WorkEffect held Δ new dnc c x) (hc : c.WellFormed) {id : Uuid}
    {w w' : WorkItem} (hw : Table.find c.workItems id = some w)
    (hl : w'.campaignContactId = w.campaignContactId) : x.campaignOf w' = c.campaignOf w :=
  h.grows.campaignOf_iff hc hw hl

theorem wellFormed (h : WorkEffect held Δ new dnc c x) (hc : c.WellFormed) : x.WellFormed where
  workItems := by
    unfold Table.Unique
    rw [h.itemKeys]
    exact hc.workItems
  campaignContacts := by
    unfold Table.Unique
    rw [h.contactKeys]
    exact hc.campaignContacts
  contacts := by
    rw [h.contacts]
    exact hc.contacts
  campaignContact id w' hw' := by
    obtain ⟨w, hw, hl, -⟩ := h.workItem_back hw'
    obtain ⟨cc, hcc⟩ := hc.campaignContact id w hw
    obtain ⟨cc', hcc', -⟩ := h.campaignContact_forth hcc
    exact ⟨cc', by unfold Db.campaignContact; rwa [hl]⟩
  contact id cc' hcc' := by
    obtain ⟨cc, hcc, -, hk, -⟩ := h.campaignContact_back hcc'
    obtain ⟨k, hk'⟩ := hc.contact id cc hcc
    exact ⟨k, by unfold Db.contact at hk' ⊢; rwa [hk, h.contacts]⟩
  onePhone := by
    rw [h.contacts]
    exact hc.onePhone

theorem suppressed_eq (h : WorkEffect held Δ new dnc c x) (f : Fingerprint) :
    x.suppressed f = (c.suppressed f || dnc.any fun e => e.phoneFingerprint = f && e.status = .active) := by
  unfold Db.suppressed
  rw [h.suppressions, List.any_append]

theorem suppressed_of_notHeld (h : WorkEffect held Δ new dnc c x) {f : Fingerprint}
    (hf : ¬held (.phone f)) : x.suppressed f = c.suppressed f := by
  have hnone : (dnc.any fun e => e.phoneFingerprint = f && e.status = .active) = false := by
    rw [List.any_eq_false]
    intro e he hd
    simp only [Bool.and_eq_true, decide_eq_true_eq] at hd
    exact hf (hd.1 ▸ h.phone e he)
  rw [h.suppressed_eq, hnone, Bool.or_false]

/-- An effect under locks is what the discipline allows. -/
theorem within (h : WorkEffect held Δ new dnc c x) (hc : c.WellFormed) : discipline.Within held c x where
  grows := h.grows
  same k hk := by
    cases k with
    | phone f =>
      refine ⟨?_, fun k hk _ => h.contacts ▸ hk, fun id w' hw' hp => ?_, fun id cc' hcc' hp => ?_⟩
      · exact h.suppressed_of_notHeld hk
      · obtain ⟨w, hw, hl, -⟩ := h.workItem_back hw'
        exact ⟨w, hw, by rw [← h.phoneOf hc hw hl]; exact hp⟩
      · obtain ⟨cc, hcc, -, hk', -⟩ := h.campaignContact_back hcc'
        refine ⟨cc, hcc, ?_⟩
        unfold Db.contact at hp ⊢
        rwa [← hk', ← h.contacts]
    | idempotency space agent idem =>
      rintro rfl a ha rfl rfl
      rw [h.attempts, List.mem_append] at ha
      rcases ha with ha | ha
      · exact ha
      · exact absurd (h.attempt a ha).1 hk
    | workItem id =>
      rcases h.workItem id with he | ⟨hl, -⟩
      · exact he
      · exact absurd hl hk
    | campaignContact id =>
      rcases h.campaignContact id with he | ⟨hl, -⟩
      · exact he
      · exact absurd hl hk
    | contact id => exact congrArg (Table.find · id) h.contacts
    | importJob id => exact congrArg (Table.find · id) h.importJobs
    | userAssignment id => exact congrArg (Table.find · id) h.userAssignments
    | attempt id =>
      have hnone : Table.find new id = none := by
        rw [Table.find_eq_none]
        rintro a ha rfl
        exact hk (h.attempt a ha).2
      change Table.find x.attempts id = Table.find c.attempts id
      rw [h.attempts, Table.find_append, hnone, Option.or_none]
    | _ => trivial

/-- No write at all. -/
theorem refl (c : Db) : WorkEffect held Δ [] [] c c where
  contacts := rfl
  campaigns := rfl
  dispositions := rfl
  importRows := rfl
  importJobs := rfl
  importDecisions := rfl
  itemKeys := rfl
  contactKeys := rfl
  workItem _ := Or.inl rfl
  campaignContact _ := Or.inl rfl
  closed id w w' hw hw' hf ht := by
    obtain rfl := Option.some.inj (hw.symm.trans hw')
    simp [hf] at ht
  attempts := (List.append_nil _).symm
  attempt := by simp
  suppressions := (List.append_nil _).symm
  phone := by simp
  userAssignments := rfl

/-- One work item is changed and stays open. -/
theorem modify {f : WorkItem → WorkItem} {id : Uuid} {w : WorkItem} (hl : held (.workItem id))
    (hw : Table.find c.workItems id = some w) (hid : ∀ v, v.id = id → (f v).id = id)
    (hcc : (f w).campaignContactId = w.campaignContactId) (ht : w.state.terminal = false)
    (ht' : (f w).state.terminal = false) (hΔ : Δ w (f w)) :
    WorkEffect held Δ [] [] c (Db.modifyWorkItem id f c) := by
  have hw' := Table.find_modify_self hid hw
  refine ⟨rfl, rfl, rfl, rfl, rfl, rfl, Table.keys_modify _ _ hid, rfl, fun j => ?_, fun _ => Or.inl rfl,
    fun j v v' hv hv' hvt hvt' => ?_, (List.append_nil _).symm, by simp, (List.append_nil _).symm,
    by simp, rfl⟩
  · by_cases hj : j = id
    · subst hj
      exact Or.inr ⟨hl, w, f w, hw, hw', ht, hcc, hΔ⟩
    · exact Or.inl (Table.find_modify_ne hid hj)
  · by_cases hj : j = id
    · subst hj
      obtain rfl := Option.some.inj (hw'.symm.trans hv')
      simp [ht'] at hvt'
    · obtain rfl : v = v' := Option.some.inj (hv.symm.trans ((Table.find_modify_ne hid hj).symm.trans hv'))
      simp [hvt] at hvt'

/-- One work item is closed together with its campaign contact. -/
theorem close {f : WorkItem → WorkItem} {g : CampaignContact → CampaignContact} {id : Uuid}
    {w : WorkItem} {cc : CampaignContact} (hl : held (.workItem id)) (hw : Table.find c.workItems id = some w)
    (hlc : held (.campaignContact w.campaignContactId))
    (hcc : Table.find c.campaignContacts w.campaignContactId = some cc)
    (hid : ∀ v, v.id = id → (f v).id = id) (hfc : (f w).campaignContactId = w.campaignContactId)
    (ht : w.state.terminal = false) (ht' : (f w).state.terminal = true) (hΔ : Δ w (f w))
    (hg : ∀ cc, CampaignContact.Stamped cc (g cc)) :
    WorkEffect held Δ [] [] c
      (Db.modifyCampaignContact w.campaignContactId g (Db.modifyWorkItem id f c)) := by
  have hgk : ∀ cc : CampaignContact, key cc = w.campaignContactId →
      key (g cc) = w.campaignContactId := fun cc h => (hg cc).id.trans h
  have hw' := Table.find_modify_self hid hw
  have hcc' := Table.find_modify_self hgk hcc
  refine ⟨rfl, rfl, rfl, rfl, rfl, rfl, Table.keys_modify _ _ hid, Table.keys_modify _ _ hgk, fun j => ?_, fun j => ?_,
    fun j v v' hv hv' hvt hvt' => ?_, (List.append_nil _).symm, by simp, (List.append_nil _).symm,
    by simp, rfl⟩
  · by_cases hj : j = id
    · subst hj
      exact Or.inr ⟨hl, w, f w, hw, hw', ht, hfc, hΔ⟩
    · exact Or.inl (Table.find_modify_ne hid hj)
  · by_cases hj : j = w.campaignContactId
    · subst hj
      exact Or.inr ⟨hlc, cc, g cc, hcc, hcc', hg cc, id, w, f w, hw, hw', rfl, ht, ht'⟩
    · exact Or.inl (Table.find_modify_ne hgk hj)
  · by_cases hj : j = id
    · subst hj
      obtain rfl : w = v := Option.some.inj (hw.symm.trans hv)
      exact ⟨cc, g cc, hcc, hcc', hg cc⟩
    · obtain rfl : v = v' := Option.some.inj (hv.symm.trans ((Table.find_modify_ne hid hj).symm.trans hv'))
      simp [hvt] at hvt'

/-- An attempt is stored. -/
theorem store {a : CallAttempt} (hk : held (.idempotency "work.complete" a.agentId a.idempotencyKey))
    (hl : held (.attempt a.id)) :
    WorkEffect held Δ [a] [] c (Db.addAttempt a c) where
  contacts := rfl
  campaigns := rfl
  dispositions := rfl
  importRows := rfl
  importJobs := rfl
  importDecisions := rfl
  itemKeys := rfl
  contactKeys := rfl
  workItem _ := Or.inl rfl
  campaignContact _ := Or.inl rfl
  closed id w w' hw hw' hf ht := by
    obtain rfl := Option.some.inj (hw.symm.trans hw')
    simp [hf] at ht
  attempts := rfl
  attempt b hb := by
    obtain rfl := List.mem_singleton.1 hb
    exact ⟨hk, hl⟩
  suppressions := (List.append_nil _).symm
  phone := by simp
  userAssignments := rfl

/-- A suppression is stored. -/
theorem suppress {e : SuppressionEntry} (hl : held (.phone e.phoneFingerprint)) :
    WorkEffect held Δ [] [e] c (Db.addSuppression e c) where
  contacts := rfl
  campaigns := rfl
  dispositions := rfl
  importRows := rfl
  importJobs := rfl
  importDecisions := rfl
  itemKeys := rfl
  contactKeys := rfl
  workItem _ := Or.inl rfl
  campaignContact _ := Or.inl rfl
  closed id w w' hw hw' hf ht := by
    obtain rfl := Option.some.inj (hw.symm.trans hw')
    simp [hf] at ht
  attempts := (List.append_nil _).symm
  attempt := by simp
  suppressions := rfl
  phone d hd := by
    obtain rfl := List.mem_singleton.1 hd
    exact hl
  userAssignments := rfl

theorem log (h : WorkEffect held Δ new dnc c x) (e : AuditEvent) :
    WorkEffect held Δ new dnc c (Db.log e x) := { h with }

/-- The stored attempt gets its final form. -/
theorem finish {a : CallAttempt} {g : CallAttempt → CallAttempt} (h : WorkEffect held Δ [a] dnc c x)
    (hc : Table.find c.attempts a.id = none) (hid : (g a).id = a.id)
    (hagent : (g a).agentId = a.agentId) (hkey : (g a).idempotencyKey = a.idempotencyKey) :
    WorkEffect held Δ [g a] dnc c (Db.modifyAttempt a.id g x) := by
  refine { h with attempts := ?_, attempt := fun b hb => ?_ }
  · change Table.modify x.attempts a.id g = c.attempts ++ [g a]
    rw [h.attempts, Table.modify_append, Table.modify_eq_self hc]
    simp [Table.modify, Tx.key]
  · obtain rfl := List.mem_singleton.1 hb
    rw [hid, hagent, hkey]
    exact h.attempt a (List.mem_singleton.2 rfl)

/-- More locks are held by the time of the commit. -/
theorem held_mono (h : WorkEffect held Δ new dnc c x) (hh : ∀ k, held k → held' k) :
    WorkEffect held' Δ new dnc c x where
  contacts := h.contacts
  campaigns := h.campaigns
  dispositions := h.dispositions
  importRows := h.importRows
  importJobs := h.importJobs
  importDecisions := h.importDecisions
  itemKeys := h.itemKeys
  contactKeys := h.contactKeys
  workItem id := (h.workItem id).imp_right fun ⟨hl, hr⟩ => ⟨hh _ hl, hr⟩
  campaignContact id := (h.campaignContact id).imp_right fun ⟨hl, hr⟩ => ⟨hh _ hl, hr⟩
  closed := h.closed
  attempts := h.attempts
  attempt a ha := ⟨hh _ (h.attempt a ha).1, hh _ (h.attempt a ha).2⟩
  suppressions := h.suppressions
  phone e he := hh _ (h.phone e he)
  userAssignments := h.userAssignments

/-- A row that is closed stays as it is. -/
theorem frozen (h : WorkEffect held Δ new dnc c x) {id : Uuid} {w : WorkItem}
    (hw : Table.find c.workItems id = some w) (ht : w.state.terminal = true) :
    Table.find x.workItems id = some w := by
  obtain ⟨w', hw', -, rfl | ⟨hf, -⟩⟩ := h.workItem_forth hw
  · exact hw'
  · simp [ht] at hf

/-- A row that is open was open before. -/
theorem open_back (h : WorkEffect held Δ new dnc c x) {id : Uuid} {w' : WorkItem}
    (hw : Table.find x.workItems id = some w') (ht : w'.state.terminal = false) :
    ∃ w, Table.find c.workItems id = some w ∧ w.state.terminal = false ∧
      w'.campaignContactId = w.campaignContactId := by
  obtain ⟨w, hw₀, hc, rfl | ⟨hf, -⟩⟩ := h.workItem_back hw
  · exact ⟨_, hw₀, ht, hc⟩
  · exact ⟨w, hw₀, hf, hc⟩

/-- A campaign contact that was stamped on the way is stamped at the end. -/
theorem stamped_forth (h : WorkEffect held Δ new dnc y x) {id : Uuid} {cc cc' : CampaignContact}
    (hcc : Table.find y.campaignContacts id = some cc') (hs : CampaignContact.Stamped cc cc') :
    ∃ cc'', Table.find x.campaignContacts id = some cc'' ∧ CampaignContact.Stamped cc cc'' := by
  obtain ⟨cc'', hcc'', -, -, rfl | hs'⟩ := h.campaignContact_forth hcc
  · exact ⟨_, hcc'', hs⟩
  · exact ⟨cc'', hcc'', hs.trans hs'⟩

/-- Two effects in one transaction. -/
theorem trans (h : WorkEffect held Δ₁ new dnc c y) (h' : WorkEffect held Δ₂ new' dnc' y x)
    (h₁ : ∀ w w', Δ₁ w w' → Δ w w') (h₂ : ∀ w w', Δ₂ w w' → Δ w w')
    (h₁₂ : ∀ w u w', u.state.terminal = false → Δ₁ w u → Δ₂ u w' → Δ w w') :
    WorkEffect held Δ (new ++ new') (dnc ++ dnc') c x where
  contacts := h'.contacts.trans h.contacts
  campaigns := h'.campaigns.trans h.campaigns
  dispositions := h'.dispositions.trans h.dispositions
  importRows := h'.importRows.trans h.importRows
  importJobs := h'.importJobs.trans h.importJobs
  importDecisions := h'.importDecisions.trans h.importDecisions
  itemKeys := h'.itemKeys.trans h.itemKeys
  contactKeys := h'.contactKeys.trans h.contactKeys
  workItem id := by
    rcases h.workItem id with he | ⟨hl, w, u, hw, hu, ht, hc, hd⟩
    · rcases h'.workItem id with he' | ⟨hl, u, w', hu, hw', ht, hc, hd⟩
      · exact Or.inl (he'.trans he)
      · exact Or.inr ⟨hl, u, w', he ▸ hu, hw', ht, hc, h₂ _ _ hd⟩
    · rcases h'.workItem id with he' | ⟨-, u', w', hu', hw', ht', hc', hd'⟩
      · exact Or.inr ⟨hl, w, u, hw, he'.trans hu, ht, hc, h₁ _ _ hd⟩
      · obtain rfl : u = u' := Option.some.inj (hu.symm.trans hu')
        exact Or.inr ⟨hl, w, w', hw, hw', ht, hc'.trans hc, h₁₂ w u w' ht' hd hd'⟩
  campaignContact id := by
    rcases h.campaignContact id with he | ⟨hl, cc, cc', hcc, hcc', hs, i, w, u, hw, hu, hi, ht, ht'⟩
    · rcases h'.campaignContact id with he' | ⟨hl, cc, cc', hcc, hcc', hs, i, u, w', hu, hw', hi, ht, ht'⟩
      · exact Or.inl (he'.trans he)
      · obtain ⟨w, hw, hwt, hwc⟩ := h.open_back hu ht
        exact Or.inr ⟨hl, cc, cc', he ▸ hcc, hcc', hs, i, w, w', hw, hw', hwc ▸ hi, hwt, ht'⟩
    · obtain ⟨cc'', hcc'', hs'⟩ := h'.stamped_forth hcc' hs
      exact Or.inr ⟨hl, cc, cc'', hcc, hcc'', hs', i, w, u, hw, h'.frozen hu ht', hi, ht, ht'⟩
  closed id w w' hw hw' ht ht' := by
    obtain ⟨u, hu, hc, -⟩ := h.workItem_forth hw
    cases hut : u.state.terminal with
    | true =>
      obtain ⟨cc, cc', hcc, hcc', hs⟩ := h.closed id w u hw hu ht hut
      obtain ⟨cc'', hcc'', hs'⟩ := h'.stamped_forth hcc' hs
      exact ⟨cc, cc'', hcc, hcc'', hs'⟩
    | false =>
      obtain ⟨cc', cc'', hcc', hcc'', hs⟩ := h'.closed id u w' hu hw' hut ht'
      rw [hc] at hcc' hcc''
      obtain ⟨cc, hcc, -, -, rfl | hs'⟩ := h.campaignContact_back hcc'
      · exact ⟨_, cc'', hcc, hcc'', hs⟩
      · exact ⟨cc, cc'', hcc, hcc'', hs'.trans hs⟩
  attempts := by rw [h'.attempts, h.attempts, List.append_assoc]
  attempt a ha := (List.mem_append.1 ha).elim (h.attempt a) (h'.attempt a)
  suppressions := by rw [h'.suppressions, h.suppressions, List.append_assoc]
  phone e he := (List.mem_append.1 he).elim (h.phone e) (h'.phone e)
  userAssignments := h'.userAssignments.trans h.userAssignments

end WorkEffect

/-! ## The uncommitted writes of a transaction -/

/-- Writes that act on each work item and campaign contact by its old value alone. -/
structure RowWise (p : Db → Db) : Prop where
  workItem : ∀ id s s', Table.find s'.workItems id = Table.find s.workItems id →
    Table.find (p s').workItems id = Table.find (p s).workItems id
  campaignContact : ∀ id s s',
    Table.find s'.campaignContacts id = Table.find s.campaignContacts id →
    Table.find (p s').campaignContacts id = Table.find (p s).campaignContacts id
  userAssignment : ∀ id s s', Table.find s'.userAssignments id = Table.find s.userAssignments id →
    Table.find (p s').userAssignments id = Table.find (p s).userAssignments id

/-- The writes so far are an effect, and still will be whatever others commit. -/
structure Pending {ω : Type} (Δ : WorkItem → WorkItem → Prop) (new : List CallAttempt)
    (dnc : List SuppressionEntry) (l : Stand Db LockKey ω) (p : Db → Db) (s : Db) : Prop where
  rowWise : RowWise p
  effect : ∀ c, discipline.Frame l.held s c → c.WellFormed → WorkEffect l.held Δ new dnc c (p c)

namespace RowWise

variable {p : Db → Db}

theorem id : RowWise id := ⟨fun _ _ _ h => h, fun _ _ _ h => h, fun _ _ _ h => h⟩

theorem modifyWorkItem (h : RowWise p) {i : Uuid} {f : WorkItem → WorkItem}
    (hid : ∀ v, v.id = i → (f v).id = i) : RowWise (Db.modifyWorkItem i f ∘ p) where
  workItem j s s' he := by
    change Table.find (Table.modify _ i f) j = Table.find (Table.modify _ i f) j
    rw [Table.find_modify hid, Table.find_modify hid, h.workItem j s s' he]
  campaignContact := h.campaignContact
  userAssignment := h.userAssignment

theorem modifyCampaignContact (h : RowWise p) {i : Uuid} {g : CampaignContact → CampaignContact}
    (hid : ∀ v, v.id = i → (g v).id = i) : RowWise (Db.modifyCampaignContact i g ∘ p) where
  workItem := h.workItem
  campaignContact j s s' he := by
    change Table.find (Table.modify _ i g) j = Table.find (Table.modify _ i g) j
    rw [Table.find_modify hid, Table.find_modify hid, h.campaignContact j s s' he]
  userAssignment := h.userAssignment

theorem log (h : RowWise p) (e : AuditEvent) : RowWise (Db.log e ∘ p) :=
  ⟨h.workItem, h.campaignContact, h.userAssignment⟩

theorem addAttempt (h : RowWise p) (a : CallAttempt) : RowWise (Db.addAttempt a ∘ p) :=
  ⟨h.workItem, h.campaignContact, h.userAssignment⟩

theorem addSuppression (h : RowWise p) (e : SuppressionEntry) : RowWise (Db.addSuppression e ∘ p) :=
  ⟨h.workItem, h.campaignContact, h.userAssignment⟩

end RowWise

namespace Pending

variable {ω : Type} {Δ Δ₁ : WorkItem → WorkItem → Prop} {new : List CallAttempt}
variable {dnc : List SuppressionEntry} {l l' : Stand Db LockKey ω} {p : Db → Db} {s s' : Db}

theorem start : Pending (fun _ _ => False) [] [] l id s :=
  ⟨RowWise.id, fun c _ _ => WorkEffect.refl c⟩

theorem stable (h : Pending Δ new dnc l p s) (hf : discipline.Frame l.held s s')
    (hh : ∀ k, l.held k → l'.held k) : Pending Δ new dnc l' p s' :=
  ⟨h.rowWise, fun c hc hw => (h.effect c (hf.trans (hc.mono hh)) hw).held_mono hh⟩

theorem mono (h : Pending Δ₁ new dnc l p s) (hΔ : ∀ w w', Δ₁ w w' → Δ w w') :
    Pending Δ new dnc l p s :=
  ⟨h.rowWise, fun c hc hw => (h.effect c hc hw).mono hΔ⟩

/-- What is known about the rows at the time of the commit sharpens their changes. -/
theorem sharpen (h : Pending Δ₁ new dnc l p s)
    (hΔ : ∀ x, discipline.Frame l.held s x → x.WellFormed → ∀ id w w',
      Table.find x.workItems id = some w → Table.find (p x).workItems id = some w' →
      Δ₁ w w' → Δ w w') : Pending Δ new dnc l p s :=
  ⟨h.rowWise, fun x hx ix => (h.effect x hx ix).sharpen (hΔ x hx ix)⟩

/-- A locked work item, as the transaction sees it, stays as it is. -/
theorem find (h : Pending Δ new dnc l p s) {i : Uuid} (hf : discipline.Frame l.held s s')
    (hl : l.held (.workItem i)) :
    Table.find (p s').workItems i = Table.find (p s).workItems i :=
  h.rowWise.workItem i s s' (hf.same _ hl)

/-- The writes keep the links of the database. -/
theorem now (h : Pending Δ new dnc l p s) (hs : s.WellFormed) : WorkEffect l.held Δ new dnc s (p s) :=
  h.effect s Discipline.Frame.refl hs

theorem log (h : Pending Δ new dnc l p s) (e : AuditEvent) : Pending Δ new dnc l (Db.log e ∘ p) s :=
  ⟨h.rowWise.log e, fun c hc hw => (h.effect c hc hw).log e⟩

/-- One more work item is changed and stays open. -/
theorem modify (h : Pending Δ₁ new dnc l p s) (f : WorkItem → WorkItem) {i : Uuid} {w : WorkItem}
    (hl : l.held (.workItem i)) (hw : Table.find (p s).workItems i = some w)
    (hid : ∀ v, v.id = i → (f v).id = i) (hcc : (f w).campaignContactId = w.campaignContactId)
    (ht : w.state.terminal = false) (ht' : (f w).state.terminal = false)
    (h₁ : ∀ w w', Δ₁ w w' → Δ w w') (h₂ : Δ w (f w)) (h₁₂ : ∀ v, Δ₁ v w → Δ v (f w)) :
    Pending Δ new dnc l (Db.modifyWorkItem i f ∘ p) s := by
  refine ⟨h.rowWise.modifyWorkItem hid, fun c hc hwf => ?_⟩
  have step : WorkEffect l.held (fun a b => a = w ∧ b = f w) [] [] (p c)
      (Db.modifyWorkItem i f (p c)) :=
    WorkEffect.modify hl ((h.find hc hl).trans hw) hid hcc ht ht' ⟨rfl, rfl⟩
  have := (h.effect c hc hwf).trans step h₁ (fun _ _ ⟨ha, hb⟩ => ha ▸ hb ▸ h₂)
    (fun v _ _ _ hv ⟨hu, hb⟩ => hb ▸ h₁₂ v (hu ▸ hv))
  simpa using this

/-- One more work item is closed with its campaign contact. -/
theorem close (h : Pending Δ₁ new dnc l p s) (f : WorkItem → WorkItem)
    (g : CampaignContact → CampaignContact) {i : Uuid} {w : WorkItem}
    (hl : l.held (.workItem i)) (hw : Table.find (p s).workItems i = some w)
    (hlc : l.held (.campaignContact w.campaignContactId))
    (hid : ∀ v, v.id = i → (f v).id = i) (hcc : (f w).campaignContactId = w.campaignContactId)
    (ht : w.state.terminal = false) (ht' : (f w).state.terminal = true)
    (hg : ∀ cc, CampaignContact.Stamped cc (g cc))
    (h₁ : ∀ w w', Δ₁ w w' → Δ w w') (h₂ : Δ w (f w)) (h₁₂ : ∀ v, Δ₁ v w → Δ v (f w)) :
    Pending Δ new dnc l (Db.modifyCampaignContact w.campaignContactId g ∘ Db.modifyWorkItem i f ∘ p) s := by
  have hgk : ∀ cc : CampaignContact, cc.id = w.campaignContactId → (g cc).id = w.campaignContactId :=
    fun cc h => (hg cc).id.trans h
  refine ⟨(h.rowWise.modifyWorkItem hid).modifyCampaignContact hgk, fun c hc hwf => ?_⟩
  have hwc := (h.find hc hl).trans hw
  obtain ⟨cc, hfind⟩ := ((h.effect c hc hwf).wellFormed hwf).campaignContact i w hwc
  have step : WorkEffect l.held (fun a b => a = w ∧ b = f w) [] [] (p c) _ :=
    WorkEffect.close hl hwc hlc hfind hid hcc ht ht' ⟨rfl, rfl⟩ hg
  have := (h.effect c hc hwf).trans step h₁ (fun _ _ ⟨ha, hb⟩ => ha ▸ hb ▸ h₂)
    (fun v _ _ _ hv ⟨hu, hb⟩ => hb ▸ h₁₂ v (hu ▸ hv))
  simpa using this

/-- An attempt is stored. -/
theorem store (h : Pending Δ [] dnc l p s) {a : CallAttempt}
    (hk : l.held (.idempotency "work.complete" a.agentId a.idempotencyKey))
    (hl : l.held (.attempt a.id)) : Pending Δ [a] dnc l (Db.addAttempt a ∘ p) s := by
  refine ⟨h.rowWise.addAttempt a, fun c hc hwf => ?_⟩
  have step : WorkEffect l.held (fun _ _ => False) [a] [] (p c) (Db.addAttempt a (p c)) :=
    WorkEffect.store hk hl
  have := (h.effect c hc hwf).trans step (fun _ _ h => h) (fun _ _ => False.elim)
    (fun _ _ _ _ _ => False.elim)
  simpa using this

/-- A suppression is stored. -/
theorem suppress (h : Pending Δ new [] l p s) {e : SuppressionEntry}
    (hl : l.held (.phone e.phoneFingerprint)) : Pending Δ new [e] l (Db.addSuppression e ∘ p) s := by
  refine ⟨h.rowWise.addSuppression e, fun c hc hwf => ?_⟩
  have step : WorkEffect l.held (fun _ _ => False) [] [e] (p c) (Db.addSuppression e (p c)) :=
    WorkEffect.suppress hl
  have := (h.effect c hc hwf).trans step (fun _ _ h => h) (fun _ _ => False.elim)
    (fun _ _ _ _ _ => False.elim)
  simpa using this

end Pending

end OmniDB
