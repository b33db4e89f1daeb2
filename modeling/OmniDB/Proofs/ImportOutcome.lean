import OmniDB.Proofs.Deletion

/-! What the commit of a parsed import inserts: for each phone of its rows that the campaign
does not have yet one campaign contact, and one queued work item unless the phone is
suppressed by then. What was there stays as it is. -/

namespace OmniDB.Imports

open Tx
open Tx.Prog (Writes writes_bind writes_view writes_pure writes_ite)

variable {x t t' : Db} {campaign : Uuid} {offered : Fingerprint → Prop} {phone : Fingerprint}
variable {ks : List Contact} {ccs : List CampaignContact} {ws : List WorkItem}

/-- `uq_campaign_contacts_campaign_contact`. -/
def OncePerCampaign (x : Db) : Prop :=
  ∀ cc ∈ x.campaignContacts, ∀ cc' ∈ x.campaignContacts, cc.campaignId = cc'.campaignId →
    cc.contactId = cc'.contactId → cc = cc'

/-- The rows inserted so far, and the counters. -/
structure Inserting (campaign : Uuid) (offered : Fingerprint → Prop) (ks : List Contact) (ccs : List CampaignContact)
    (ws : List WorkItem) (x : Db) (done : List ImportRow) (acc : Inserted) (t : Db) : Prop where
  effect : ImportEffect (fun _ => True) campaign offered ks ccs ws x t
  rest : t = { x with contacts := t.contacts, campaignContacts := t.campaignContacts, workItems := t.workItems }
  once : OncePerCampaign t
  used : ∀ k ∈ ks, ∃ cc ∈ ccs, cc.contactId = k.id
  inserted : acc.inserted = ccs.length
  suppressed : acc.suppressed = (ccs.filter fun cc => cc.status = .suppressed).length
  covered : ∀ row ∈ done, ∀ phone, row.phoneFingerprint = some phone → row.rawPhoneProtected.isSome = true →
    t.InCampaign campaign phone

/-- Whether the campaign has the phone is read off its contact. -/
theorem inCampaign_iff (hx : t.WellFormed) {k : Contact} (hk : k ∈ t.contacts) :
    t.InCampaign campaign k.phoneFingerprint ↔ alreadyInCampaign t campaign k.id = true := by
  unfold Db.InCampaign alreadyInCampaign
  simp only [List.any_eq_true, Bool.and_eq_true, decide_eq_true_eq, Option.map_eq_some_iff]
  constructor
  · rintro ⟨cc, hcc, hc, k', hk', hp⟩
    obtain rfl := hx.onePhone k' (Table.mem_of_find hk') k hk hp
    exact ⟨cc, hcc, hc, (Table.key_of_find hk').symm⟩
  · rintro ⟨cc, hcc, hc, hid⟩
    refine ⟨cc, hcc, hc, k, ?_, rfl⟩
    rw [Db.contact, hid]
    exact hx.contacts.find_of_mem hk

theorem not_inCampaign_of_new (hnew : ∀ k ∈ t.contacts, k.phoneFingerprint ≠ phone) : ¬t.InCampaign campaign phone := by
  rintro ⟨cc, -, -, hp⟩
  obtain ⟨k, hk, hp⟩ := Option.map_eq_some_iff.1 hp
  exact hnew k (Table.mem_of_find hk) hp

theorem inCampaign_mono (h : ImportEffect (fun _ => True) campaign offered ks ccs ws x t) {k : Uuid}
    (hin : x.InCampaign k phone) : t.InCampaign k phone := by
  obtain ⟨cc, hcc, hc, hp⟩ := hin
  obtain ⟨c, hk, hp⟩ := Option.map_eq_some_iff.1 hp
  refine ⟨cc, h.campaignContacts ▸ List.mem_append_left _ hcc, hc, ?_⟩
  rw [show t.contact cc = some c from h.contact_forth hk, Option.map_some, hp]

/-- The phone of a fresh campaign contact is one that the campaign did not have. -/
theorem OncePerCampaign.add (h : OncePerCampaign t) {cc : CampaignContact} (hcc : cc.campaignId = campaign)
    (hnot : ∀ cc' ∈ t.campaignContacts, cc'.campaignId = campaign → cc'.contactId ≠ cc.contactId) :
    OncePerCampaign (t.addCampaignContact cc) := by
  intro a ha b hb hc hk
  rcases List.mem_append.1 ha with ha | ha
  · rcases List.mem_append.1 hb with hb | hb
    · exact h a ha b hb hc hk
    · rw [List.mem_singleton.1 hb] at hc hk
      exact absurd hk (hnot a ha (hc.trans hcc))
  · rcases List.mem_append.1 hb with hb | hb
    · rw [List.mem_singleton.1 ha] at hc hk
      exact absurd hk.symm (hnot b hb (hc.symm.trans hcc))
    · rw [List.mem_singleton.1 ha, List.mem_singleton.1 hb]

/-! ## One row -/

/-- The contact of a row is one that is there, or a new one. -/
theorem rowContact_runs {c : Call} {ciphertext : String} {n : ℕ} {o : Option Uuid}
    (h : (rowContact c campaign phone ciphertext n).Runs t o t') :
    (∃ k ∈ t.contacts, k.phoneFingerprint = phone ∧ alreadyInCampaign t campaign k.id = true ∧ o = none ∧ t' = t) ∨
    ∃ k, o = some k.id ∧ k.phoneFingerprint = phone ∧
      ((k ∈ t.contacts ∧ alreadyInCampaign t campaign k.id = false ∧ t' = t) ∨
        ((∀ k' ∈ t.contacts, k'.phoneFingerprint ≠ phone) ∧ Table.find t.contacts k.id = none ∧ t' = t.addContact k)) := by
  unfold rowContact at h
  simp only [Prog.runs_bind, Prog.runs_view, and_assoc, exists_and_left, exists_eq_left] at h
  split at h
  · rename_i hnone
    simp only [insertContact, Prog.runs_bind, runs_insertRow, Prog.runs_pure] at h
    obtain ⟨_, _, ⟨hfree, rfl⟩, rfl, rfl⟩ := h
    refine Or.inr ⟨_, rfl, rfl, Or.inr ⟨?_, hfree, rfl⟩⟩
    simpa [contactByFingerprint] using hnone
  · rename_i k hk
    have hmem : k ∈ t.contacts := List.mem_of_find?_eq_some hk
    have hp : k.phoneFingerprint = phone := by simpa using List.find?_some hk
    simp only [Prog.runs_bind, Prog.runs_view, Prog.runs_pure, and_assoc, exists_and_left, exists_eq_left] at h
    obtain ⟨rfl, rfl⟩ := h
    cases hin : alreadyInCampaign t' campaign k.id with
    | true => exact Or.inl ⟨k, hmem, hp, hin, by rw [if_pos rfl], rfl⟩
    | false => exact Or.inr ⟨k, by rw [if_neg Bool.false_ne_true], hp, Or.inl ⟨hmem, hin, rfl⟩⟩

/-- What a row inserts: the contact of its phone, unless there is one, its campaign contact,
and its work item. -/
theorem commitRow_runs {c : Call} {now : Time} {acc acc' : Inserted} {row : ImportRow}
    (h : (commitRow c campaign now acc row).Runs t acc' t') :
    (acc' = acc ∧ t' = t ∧ ∀ phone, row.phoneFingerprint = some phone → row.rawPhoneProtected.isSome = true →
      ∃ k ∈ t.contacts, k.phoneFingerprint = phone ∧ alreadyInCampaign t campaign k.id = true) ∨
    ∃ phone k t₁ cc, row.phoneFingerprint = some phone ∧ row.rawPhoneProtected.isSome = true ∧ k.phoneFingerprint = phone ∧
      ((k ∈ t.contacts ∧ alreadyInCampaign t campaign k.id = false ∧ t₁ = t) ∨
        ((∀ k' ∈ t.contacts, k'.phoneFingerprint ≠ phone) ∧ Table.find t.contacts k.id = none ∧ t₁ = t.addContact k)) ∧
      Table.find t₁.campaignContacts cc.id = none ∧ cc.contactId = k.id ∧
      cc.Fresh campaign (t.suppressed phone) ∧
      ((t.suppressed phone = true ∧ t' = t₁.addCampaignContact cc ∧ acc'.inserted = acc.inserted + 1 ∧
          acc'.suppressed = acc.suppressed + 1) ∨
        (t.suppressed phone = false ∧ acc'.inserted = acc.inserted + 1 ∧ acc'.suppressed = acc.suppressed ∧
          ∃ w, w.Fresh ∧ w.campaignContactId = cc.id ∧ Table.find t₁.workItems w.id = none ∧
            t' = (t₁.addCampaignContact cc).addWorkItem w)) := by
  unfold commitRow at h
  split at h
  swap
  · rename_i hnone
    obtain ⟨rfl, rfl⟩ := Prog.runs_pure.1 h
    refine Or.inl ⟨rfl, rfl, fun phone hp hraw => ?_⟩
    obtain ⟨raw, hraw⟩ := Option.isSome_iff_exists.1 hraw
    exact absurd hraw (hnone phone raw hp)
  rename_i phone ciphertext hphone hraw
  simp only [Prog.runs_bind, Prog.runs_acquire, exists_eq_left, exists_const] at h
  obtain ⟨o, t₁, ho, h⟩ := h
  rcases rowContact_runs ho with ⟨k, hk, hp, hin, rfl, rfl⟩ | ⟨k, rfl, hp, hk⟩
  · obtain ⟨rfl, rfl⟩ := Prog.runs_pure.1 h
    refine Or.inl ⟨rfl, rfl, fun phone' hp' _ => ?_⟩
    obtain rfl : phone = phone' := Option.some.inj (hphone.symm.trans hp')
    exact ⟨k, hk, hp, hin⟩
  right
  have hsup : t₁.suppressed phone = t.suppressed phone := by
    rcases hk with ⟨-, -, rfl⟩ | ⟨-, -, rfl⟩ <;> rfl
  simp only [insertCampaignContact, Prog.runs_bind, Prog.runs_view, runs_insertRow, and_assoc, exists_and_left,
    exists_eq_left, hsup] at h
  obtain ⟨hfree, -, h⟩ := h
  refine ⟨phone, k, t₁, _, hphone, by rw [hraw]; rfl, hp, hk, hfree, rfl, ⟨rfl, ?_, rfl, rfl⟩, ?_⟩
  · cases t.suppressed phone <;> rfl
  cases hs : t.suppressed phone with
  | true =>
    rw [hs, if_pos rfl] at h
    obtain ⟨rfl, rfl⟩ := Prog.runs_pure.1 h
    exact Or.inl ⟨rfl, rfl, rfl, rfl⟩
  | false =>
    rw [hs, if_neg Bool.false_ne_true] at h
    simp only [insertWorkItem, Prog.runs_bind, runs_insertRow, Prog.runs_pure, and_assoc] at h
    obtain ⟨_, _, hfree', rfl, rfl, rfl⟩ := h
    refine Or.inr ⟨rfl, rfl, rfl, _, ?_, ?_, hfree', rfl⟩ <;> rfl

section Step

variable {done : List ImportRow} {acc acc' : Inserted} {row : ImportRow}

/-- No campaign contact of the campaign is of the contact. -/
theorem no_contact_of_not_inCampaign (hx : t.WellFormed) {k : Contact} (hk : k ∈ t.contacts)
    (hnot : ¬t.InCampaign campaign k.phoneFingerprint) :
    ∀ cc ∈ t.campaignContacts, cc.campaignId = campaign → cc.contactId ≠ k.id := by
  intro cc hcc hc hid
  refine hnot ((inCampaign_iff hx hk).2 (List.any_eq_true.2 ⟨cc, hcc, ?_⟩))
  simp [hc, hid]

/-- The contact of the row is in place, and the campaign does not have it yet. -/
structure Placed (campaign : Uuid) (offered : Fingerprint → Prop) (ks : List Contact) (ccs : List CampaignContact)
    (ws : List WorkItem) (x t t₁ : Db) (k : Contact) : Prop where
  effect : ∃ ks', ImportEffect (fun _ => True) campaign offered ks' ccs ws x t₁ ∧ ∀ k' ∈ ks', k' ∈ ks ∨ k' = k
  mem : k ∈ t₁.contacts
  notIn : ¬t.InCampaign campaign k.phoneFingerprint
  contacts : ∃ new, t₁.contacts = t.contacts ++ new
  campaignContacts : t₁.campaignContacts = t.campaignContacts
  rest : t₁ = { x with contacts := t₁.contacts, campaignContacts := t₁.campaignContacts, workItems := t₁.workItems }
  noContact : ∀ cc ∈ t.campaignContacts, cc.campaignId = campaign → cc.contactId ≠ k.id

theorem Inserting.contact (h : Inserting campaign offered ks ccs ws x done acc t) {k : Contact} {t₁ : Db}
    (hk : (k ∈ t.contacts ∧ alreadyInCampaign t campaign k.id = false ∧ t₁ = t) ∨
      ((∀ k' ∈ t.contacts, k'.phoneFingerprint ≠ k.phoneFingerprint) ∧ Table.find t.contacts k.id = none ∧
        t₁ = t.addContact k)) : Placed campaign offered ks ccs ws x t t₁ k := by
  rcases hk with ⟨hmem, hin, rfl⟩ | ⟨hnew, hfree, rfl⟩
  · have hnot : ¬t₁.InCampaign campaign k.phoneFingerprint := by
      rw [inCampaign_iff h.effect.wellFormed hmem, hin]
      exact Bool.false_ne_true
    exact ⟨⟨ks, h.effect, fun _ => Or.inl⟩, hmem, hnot, ⟨[], (List.append_nil _).symm⟩, rfl, h.rest,
      no_contact_of_not_inCampaign h.effect.wellFormed hmem hnot⟩
  · refine ⟨⟨ks ++ [k], h.effect.addContact trivial trivial hfree hnew, fun k' hk' => ?_⟩,
      List.mem_append_right _ (List.mem_singleton_self k), not_inCampaign_of_new hnew, ⟨[k], rfl⟩, rfl,
      congrArg (Db.addContact k) h.rest, fun cc hcc _ hid => ?_⟩
    · rw [List.mem_append, List.mem_singleton] at hk'
      exact hk'
    · obtain ⟨k', hk'⟩ := h.effect.wellFormed.contact _ cc (h.effect.wellFormed.campaignContacts.find_of_mem hcc)
      rw [Db.contact, hid, hfree] at hk'
      cases hk'

theorem inCampaign_addCampaignContact {k : Contact} {cc : CampaignContact} (hk : t.contact cc = some k)
    (hcc : cc.campaignId = campaign) : (t.addCampaignContact cc).InCampaign campaign k.phoneFingerprint := by
  refine ⟨cc, List.mem_append_right _ (List.mem_singleton_self cc), hcc, ?_⟩
  change (t.contact cc).map _ = _
  rw [hk, Option.map_some]

theorem inCampaign_grows {k : Uuid} (hk : t'.contacts = t.contacts ++ ks)
    (hcc : t'.campaignContacts = t.campaignContacts ++ ccs) (hin : t.InCampaign k phone) : t'.InCampaign k phone := by
  obtain ⟨cc, hmem, hc, hp⟩ := hin
  obtain ⟨c, hfind, hp⟩ := Option.map_eq_some_iff.1 hp
  refine ⟨cc, hcc ▸ List.mem_append_left _ hmem, hc, ?_⟩
  have hfind' : t'.contact cc = some c := by
    rw [Db.contact, hk]
    exact Table.find_append_of_some hfind
  rw [hfind', Option.map_some, hp]

/-- One row of the loop. -/
theorem Inserting.step (h : Inserting campaign offered ks ccs ws x done acc t) {c : Call} {now : Time}
    (hoffered : ∀ phone, row.phoneFingerprint = some phone → row.rawPhoneProtected.isSome = true → offered phone)
    (hr : (commitRow c campaign now acc row).Runs t acc' t') :
    ∃ ks' ccs' ws', Inserting campaign offered ks' ccs' ws' x (done ++ [row]) acc' t' := by
  rcases commitRow_runs hr with ⟨rfl, rfl, hin⟩ | ⟨phone, k, t₁, cc, hphone, hraw, rfl, hk, hfree, hid, hfresh, hend⟩
  · refine ⟨ks, ccs, ws, { h with covered := fun row' hrow' phone hp hraw => ?_ }⟩
    rcases List.mem_append.1 hrow' with hrow' | hrow'
    · exact h.covered row' hrow' phone hp hraw
    · obtain rfl := List.mem_singleton.1 hrow'
      obtain ⟨k, hk, rfl, hin⟩ := hin phone hp hraw
      exact (inCampaign_iff h.effect.wellFormed hk).2 hin
  · obtain ⟨⟨ks', heff, hks'⟩, hmem, hnot, ⟨new, hnew⟩, hccs, hrest, hnone⟩ := h.contact hk
    have hlink : t₁.contact cc = some k := by
      rw [Db.contact, hid]
      exact heff.wellFormed.contacts.find_of_mem hmem
    have hoff : offered k.phoneFingerprint := hoffered _ hphone hraw
    have hnotx : ¬x.InCampaign campaign k.phoneFingerprint := fun hin => hnot (inCampaign_mono h.effect hin)
    have hsup : x.suppressed k.phoneFingerprint = t.suppressed k.phoneFingerprint := (h.effect.suppressed_eq _).symm
    have honce : OncePerCampaign (t₁.addCampaignContact cc) := by
      refine OncePerCampaign.add ?_ hfresh.campaign ?_
      · unfold OncePerCampaign
        rw [hccs]
        exact h.once
      · rw [hccs, hid]
        exact hnone
    have hused : ∀ k' ∈ ks', ∃ cc' ∈ ccs ++ [cc], cc'.contactId = k'.id := by
      intro k' hk'
      rcases hks' k' hk' with hk' | rfl
      · obtain ⟨cc', hcc', he⟩ := h.used k' hk'
        exact ⟨cc', List.mem_append_left _ hcc', he⟩
      · exact ⟨cc, List.mem_append_right _ (List.mem_singleton_self cc), hid⟩
    have hcovered : ∀ row' ∈ done ++ [row], ∀ phone, row'.phoneFingerprint = some phone →
        row'.rawPhoneProtected.isSome = true → (t₁.addCampaignContact cc).InCampaign campaign phone := by
      intro row' hrow' phone hp hraw'
      rcases List.mem_append.1 hrow' with hrow' | hrow'
      · exact inCampaign_grows hnew (by rw [← hccs]; rfl) (h.covered row' hrow' phone hp hraw')
      · obtain rfl := List.mem_singleton.1 hrow'
        obtain rfl : k.phoneFingerprint = phone := Option.some.inj (hphone.symm.trans hp)
        exact inCampaign_addCampaignContact hlink hfresh.campaign
    rcases hend with ⟨hs, rfl, hinserted, hsuppressed⟩ | ⟨hs, hinserted, hsuppressed, w, hw, hwc, hwfree, rfl⟩
    · refine ⟨ks', ccs ++ [cc], ws, heff.addSuppressed trivial trivial hfree hlink (hsup.trans hs) (hs ▸ hfresh) hoff
        hnotx, congrArg (Db.addCampaignContact cc) hrest, honce, hused, ?_, ?_, hcovered⟩
      · rw [hinserted, h.inserted, List.length_append, List.length_singleton]
      · have hstatus : cc.status = .suppressed := by rw [hfresh.status, hs, if_pos rfl]
        rw [hsuppressed, h.suppressed, List.filter_append, List.length_append]
        simp [hstatus]
    · refine ⟨ks', ccs ++ [cc], ws ++ [w], heff.addQueued trivial trivial hfree hlink (hsup.trans hs) (hs ▸ hfresh) hoff
        hnotx trivial hwfree hw hwc, congrArg (fun t => (Db.addCampaignContact cc t).addWorkItem w) hrest, honce, hused,
        ?_, ?_, hcovered⟩
      · rw [hinserted, h.inserted, List.length_append, List.length_singleton]
      · have hstatus : cc.status = .queued := by rw [hfresh.status, hs, if_neg Bool.false_ne_true]
        rw [hsuppressed, h.suppressed, List.filter_append, List.length_append]
        simp [hstatus]

theorem inserting_nil (offered : Fingerprint → Prop) (hx : x.WellFormed) (honce : OncePerCampaign x) :
    Inserting campaign offered [] [] [] x [] {} x where
  effect := .refl hx
  rest := rfl
  once := honce
  used := by simp
  inserted := rfl
  suppressed := rfl
  covered := by simp

/-- The whole loop. -/
theorem Inserting.rows {c : Call} {now : Time} (rows : List ImportRow) :
    ∀ {ks ccs ws done acc t}, Inserting campaign offered ks ccs ws x done acc t →
      (∀ row ∈ rows, ∀ phone, row.phoneFingerprint = some phone → row.rawPhoneProtected.isSome = true →
        offered phone) → (rows.foldlM (commitRow c campaign now) acc : Txn Inserted).Runs t acc' t' →
      ∃ ks' ccs' ws', Inserting campaign offered ks' ccs' ws' x (done ++ rows) acc' t' := by
  induction rows with
  | nil =>
    intro ks ccs ws done acc t h _ hr
    obtain ⟨rfl, rfl⟩ := Prog.runs_pure.1 hr
    exact ⟨ks, ccs, ws, by rwa [List.append_nil]⟩
  | cons row rows ih =>
    intro ks ccs ws done acc t h hoffered hr
    rw [List.foldlM_cons, Prog.runs_bind] at hr
    obtain ⟨acc₁, t₁, hrow, hrows⟩ := hr
    obtain ⟨ks', ccs', ws', h'⟩ := h.step (hoffered row List.mem_cons_self) hrow
    obtain ⟨ks'', ccs'', ws'', h''⟩ := ih h' (fun row' hrow' => hoffered row' (List.mem_cons_of_mem _ hrow')) hrows
    exact ⟨ks'', ccs'', ws'', by simpa using h''⟩

end Step

/-! ## The commit -/

section Commit

variable {c : Call} {r : CommitRequest} {job : ImportJob} {res : ImportResult}

theorem commitParsed_loop {loaded : Option Campaign} {x' : Db}
    (h : (commitParsed c r job loaded).Runs x res x') :
    ∃ acc t e, ((commitOrder (committable x job.id)).foldlM (commitRow c job.campaignId (c.utcnow 0)) {} :
        Txn Inserted).Runs x acc t ∧ res = ⟨job.id, acc.inserted, acc.suppressed⟩ ∧
      x' = Db.log e { t with
        importJobs := Table.modify t.importJobs job.id (committed (c.utcnow 0) r.idempotencyKey res) } := by
  unfold commitParsed assertProvenance at h
  simp only [Prog.runs_bind, Prog.runs_view, Prog.runs_raiseIf, runs_selectForUpdate, Prog.runs_expect,
    and_assoc] at h
  obtain ⟨_, _, rfl, rfl, _, _, -, rfl, _, _, rfl, rfl, row, _, hrow, rfl, _, _, -, rfl, _, _, rfl, rfl, acc, t, hloop, h⟩ := h
  have hid : (identityMap loaded row).id = job.campaignId :=
    (identityMap_key loaded row).trans (Table.key_of_find (Option.filter_eq_some_iff.1 hrow).1)
  rw [hid] at hloop
  simp only [setImportJob, Prog.runs_bind, Prog.runs_acquire, Prog.runs_update, runs_recordAudit, Prog.runs_pure] at h
  obtain ⟨_, _, ⟨_, _, rfl, rfl⟩, _, _, rfl, rfl, rfl⟩ := h
  exact ⟨acc, _, _, hloop, rfl, rfl⟩

/-- What the session has loaded before is what the database has. -/
def Loaded (x : Db) (loaded : Option ImportJob) : Prop :=
  ∀ j, loaded = some j → Table.find x.importJobs j.id = some j

theorem identityMap_loaded {loaded : Option ImportJob} (hl : Loaded x loaded)
    (hjob : Table.find x.importJobs r.jobId = some job) : identityMap loaded job = job := by
  cases loaded with
  | none => rfl
  | some j =>
    unfold identityMap
    dsimp only
    split_ifs with hkey
    · have hid : j.id = r.jobId := hkey.trans (Table.key_of_find hjob)
      exact Option.some.inj ((hl j rfl).symm.trans (hid ▸ hjob))
    · rfl

theorem commitJob_loop {loadedJob : Option ImportJob} {loadedCampaign : Option Campaign} {x' : Db}
    (hjob : Table.find x.importJobs r.jobId = some job) (hstate : job.state = .parsed) (hl : Loaded x loadedJob)
    (h : (commitJob c r loadedJob loadedCampaign).Runs x res x') :
    (commitParsed c r job loadedCampaign).Runs x res x' := by
  unfold commitJob at h
  simp only [Prog.runs_bind, runs_selectForUpdate, Prog.runs_expect, and_assoc] at h
  obtain ⟨_, _, rfl, rfl, row, _, hrow, rfl, h⟩ := h
  obtain rfl : job = row := by simpa [hjob] using hrow
  rw [identityMap_loaded hl hjob, hstate, if_neg (by decide)] at h
  simp only [Prog.runs_bind, Prog.runs_raiseIf] at h
  obtain ⟨_, _, ⟨-, rfl⟩, _, _, ⟨-, rfl⟩, h⟩ := h
  exact h

end Commit

/-- What a commit of the job inserts: the contacts `ks`, the campaign contacts `ccs` and the
work items `ws`. -/
structure InsertsExactly (job : ImportJob) (x x' : Db) (res : ImportResult) (ks : List Contact)
    (ccs : List CampaignContact) (ws : List WorkItem) : Prop where
  /-- Rows are appended to three tables, the job is committed, and an audit event is added. -/
  appends : ∃ now key e, x' = Db.log e { x with
    contacts := x.contacts ++ ks, campaignContacts := x.campaignContacts ++ ccs, workItems := x.workItems ++ ws
    importJobs := Table.modify x.importJobs job.id (committed now key res) }
  /-- Each phone of the rows has one contact, and one campaign contact in the campaign. -/
  present : ∀ row ∈ committable x job.id, ∀ phone, row.phoneFingerprint = some phone →
    (∃ k ∈ x'.contacts, k.phoneFingerprint = phone ∧ ∀ k' ∈ x'.contacts, k'.phoneFingerprint = phone → k' = k) ∧
    ∃ cc ∈ x'.campaignContacts, (cc.campaignId = job.campaignId ∧
        (x'.contact cc).map Contact.phoneFingerprint = some phone) ∧
      ∀ cc' ∈ x'.campaignContacts, cc'.campaignId = job.campaignId →
        (x'.contact cc').map Contact.phoneFingerprint = some phone → cc' = cc
  /-- A new campaign contact is one of the job's campaign, of a phone of the rows that the
  campaign did not have. -/
  wanted : ∀ cc ∈ ccs, cc.campaignId = job.campaignId ∧ Table.find x.campaignContacts cc.id = none ∧
    ∃ phone, (x'.contact cc).map Contact.phoneFingerprint = some phone ∧ Offers x job.id phone ∧
      ¬x.InCampaign job.campaignId phone ∧
      (x.suppressed phone = false → cc.status = .queued ∧
        ∃ w ∈ ws, (w.state = .queued ∧ w.leaseOwnerId = none ∧ w.leaseId = none ∧ w.leaseExpiresAt = none) ∧
          ∀ w' ∈ x'.workItems, w'.campaignContactId = cc.id ↔ w' = w) ∧
      (x.suppressed phone = true → cc.status = .suppressed ∧ ∀ w ∈ x'.workItems, w.campaignContactId ≠ cc.id)
  /-- New contacts and new work items are those of new campaign contacts. -/
  used : (∀ k ∈ ks, ∃ cc ∈ ccs, cc.contactId = k.id) ∧ ∀ w ∈ ws, ∃ cc ∈ ccs, w.campaignContactId = cc.id
  counts : res = ⟨job.id, ccs.length, (ccs.filter fun cc => cc.status = .suppressed).length⟩

section Outcome

variable {ks : List Contact} {ccs : List CampaignContact} {ws : List WorkItem}

theorem newItem_iff (h : ImportEffect (fun _ => True) campaign offered ks ccs ws x t) (hx : x.WellFormed)
    {cc : CampaignContact} (hfree : Table.find x.campaignContacts cc.id = none) {w : WorkItem} (hw : w ∈ t.workItems)
    (hid : w.campaignContactId = cc.id) : w ∈ ws := by
  rw [h.workItems, List.mem_append] at hw
  refine hw.resolve_left fun hold => ?_
  obtain ⟨cc', hcc'⟩ := hx.campaignContact _ w (hx.workItems.find_of_mem hold)
  rw [Db.campaignContact, hid, hfree] at hcc'
  cases hcc'

/-- A queued campaign contact has its one work item. -/
theorem one_item (h : ImportEffect (fun _ => True) campaign offered ks ccs ws x t) (hx : x.WellFormed)
    {cc : CampaignContact} (hcc : cc ∈ ccs) (hfree : Table.find x.campaignContacts cc.id = none)
    (hq : cc.status = .queued) :
    ∃ w ∈ ws, (w.state = .queued ∧ w.leaseOwnerId = none ∧ w.leaseId = none ∧ w.leaseExpiresAt = none) ∧
      ∀ w' ∈ t.workItems, w'.campaignContactId = cc.id ↔ w' = w := by
  have hmem : cc.id ∈ ws.map (·.campaignContactId) := by
    rw [h.queued]
    exact List.mem_map_of_mem (List.mem_filter.2 ⟨hcc, decide_eq_true hq⟩)
  obtain ⟨w, hw, hid⟩ := List.mem_map.1 hmem
  have hnodup : (ws.map (·.campaignContactId)).Nodup := by
    have hkeys : (t.campaignContacts.map CampaignContact.id).Nodup := h.wellFormed.campaignContacts
    rw [h.campaignContacts, List.map_append] at hkeys
    rw [h.queued]
    exact (List.nodup_append.1 hkeys).2.1.sublist (List.filter_sublist.map _)
  refine ⟨w, hw, ?_, fun w' hw' => ⟨fun hid' => ?_, fun he => he ▸ hid⟩⟩
  · rw [(h.workItem w hw).2.2]
    exact ⟨rfl, rfl, rfl, rfl⟩
  · exact List.inj_on_of_nodup_map hnodup (newItem_iff h hx hfree hw' hid') hw (hid'.trans hid.symm)

/-- A suppressed campaign contact has none. -/
theorem no_item (h : ImportEffect (fun _ => True) campaign offered ks ccs ws x t) (hx : x.WellFormed)
    {cc : CampaignContact} (hcc : cc ∈ ccs) (hfree : Table.find x.campaignContacts cc.id = none)
    (hs : cc.status = .suppressed) : ∀ w ∈ t.workItems, w.campaignContactId ≠ cc.id := by
  intro w hw hid
  obtain ⟨cc', hcc', hid', hq, -⟩ := h.fresh_link (newItem_iff h hx hfree hw hid)
  have hin (c : CampaignContact) (hc : c ∈ ccs) : c ∈ t.campaignContacts :=
    h.campaignContacts ▸ List.mem_append_right _ hc
  rw [h.wellFormed.campaignContacts.eq (hin cc' hcc') (hin cc hcc) (hid'.trans hid), hs] at hq
  cases hq

/-- Each phone of the rows is there once. -/
theorem Inserting.present {done : List ImportRow} {acc : Inserted}
    (h : Inserting campaign offered ks ccs ws x done acc t) {row : ImportRow} (hrow : row ∈ done)
    (hp : row.phoneFingerprint = some phone) (hraw : row.rawPhoneProtected.isSome = true) :
    (∃ k ∈ t.contacts, k.phoneFingerprint = phone ∧ ∀ k' ∈ t.contacts, k'.phoneFingerprint = phone → k' = k) ∧
    ∃ cc ∈ t.campaignContacts, (cc.campaignId = campaign ∧ (t.contact cc).map Contact.phoneFingerprint = some phone) ∧
      ∀ cc' ∈ t.campaignContacts, cc'.campaignId = campaign →
        (t.contact cc').map Contact.phoneFingerprint = some phone → cc' = cc := by
  obtain ⟨cc, hcc, hc, hphone⟩ := h.covered row hrow phone hp hraw
  obtain ⟨k, hk, rfl⟩ := Option.map_eq_some_iff.1 hphone
  have hmem : k ∈ t.contacts := Table.mem_of_find hk
  refine ⟨⟨k, hmem, rfl, fun k' hk' he => h.effect.wellFormed.onePhone k' hk' k hmem he⟩,
    cc, hcc, ⟨hc, hphone⟩, fun cc' hcc' hc' hphone' => ?_⟩
  obtain ⟨k', hk', he⟩ := Option.map_eq_some_iff.1 hphone'
  obtain rfl := h.effect.wellFormed.onePhone k' (Table.mem_of_find hk') k hmem he
  refine h.once cc' hcc' cc hcc (hc'.trans hc.symm) ?_
  exact (Table.key_of_find hk').symm.trans (Table.key_of_find hk)

end Outcome

/-! ## The rows of the parser -/

/-- Valid rows carry the protected phone. -/
def RowsProtected (x : Db) : Prop := ∀ row ∈ x.importRows, row.validationResult = .valid → row.rawPhoneProtected.isSome = true

/-- A write that keeps it so. -/
def Protecting (f : Db → Db) : Prop := ∀ x, RowsProtected x → RowsProtected (f x)

theorem classifyRow_protected {protect : Protect} {db : Db} {job id : Uuid} {campaign : Campaign} {cols : Columns}
    {seen : List Fingerprint} {row : ParsedRow} (h : (classifyRow protect db job campaign cols seen id row).1.validationResult = .valid) :
    (classifyRow protect db job campaign cols seen id row).1.rawPhoneProtected.isSome = true := by
  unfold classifyRow at h ⊢
  dsimp only at h ⊢
  split at h
  · cases h
  · rename_i hraw
    rw [if_neg hraw]
    split at h
    · cases h
    · rfl

theorem protecting_of_rows {f : Db → Db} (h : ∀ x, (f x).importRows = x.importRows) : Protecting f := by
  intro x hx
  unfold RowsProtected
  rw [h]
  exact hx

theorem protecting_addRows {rows : List ImportRow}
    (h : ∀ row ∈ rows, row.validationResult = .valid → row.rawPhoneProtected.isSome = true) :
    Writes Protecting (addRows rows) fun _ => True := by
  refine ⟨fun x hx row hrow => ?_, trivial⟩
  rcases List.mem_append.1 hrow with hrow | hrow
  · exact hx row hrow
  · exact h row hrow

theorem protecting_setImportJob (id : Uuid) (f : ImportJob → ImportJob) :
    Writes Protecting (setImportJob id f) fun _ => True := ⟨protecting_of_rows fun _ => rfl, trivial⟩

theorem protecting_recordAudit (e : AuditEvent) : Writes Protecting (recordAudit e) fun _ => True :=
  ⟨protecting_of_rows fun _ => rfl, trivial⟩

theorem protecting_failParse (job : ImportJob) (error reason : String) :
    Writes Protecting (failParse job error reason) fun _ => True := by
  unfold failParse
  rw [writes_bind]
  exact (protecting_setImportJob ..).weaken fun _ _ => protecting_recordAudit _

section Statements

variable {ρ : Type} [Keyed ρ Uuid] {W : (Db → Db) → Prop} {name : String} {table : Db → List ρ} {id : Uuid}

theorem writes_getRow {Q : Option ρ → Prop} :
    Writes W (getRow name table id) Q ↔ ∀ db, Q (Table.find (table db) id) := Iff.rfl

theorem writes_selectForUpdate {key : Uuid → LockKey} {cond : ρ → Bool} :
    Writes W (selectForUpdate name key table cond id) fun _ => True := by
  unfold selectForUpdate
  rw [writes_bind, writes_getRow]
  intro db
  cases Table.find (table db) id with
  | none => trivial
  | some r =>
    dsimp only
    rw [writes_ite]
    exact ⟨fun _ _ => trivial, fun _ => trivial⟩

end Statements

/-- The parser writes no other rows. -/
theorem parseJob_protecting (c : Call) (protect : Protect) (file : SourceFile) (cols : Columns) (id : Uuid) :
    Writes Protecting (parseJob c protect file cols id) fun _ => True := by
  unfold parseJob
  rw [writes_bind]
  refine writes_selectForUpdate.weaken fun o _ => ?_
  cases o with
  | none => trivial
  | some job =>
    dsimp only
    rw [writes_ite]
    refine ⟨fun _ => ?_, fun _ => trivial⟩
    rw [writes_bind]
    refine (protecting_setImportJob ..).weaken fun _ _ => ?_
    rw [writes_bind, writes_getRow]
    intro db
    cases Table.find db.campaigns job.campaignId with
    | none => exact protecting_failParse ..
    | some campaign =>
      dsimp only
      rw [writes_ite]
      refine ⟨fun _ => protecting_failParse .., fun _ => ?_⟩
      rw [writes_bind]
      refine (Writes.foldlM (Q := fun tally : Tally => ∀ row ∈ tally.rows, row.validationResult = .valid →
        row.rawPhoneProtected.isSome = true) (fun tally row htally => ?_) _ (by simp)).weaken fun tally htally => ?_
      · rw [writes_bind, writes_view]
        intro db
        rw [writes_pure, Service.add_rows]
        intro r hr hvalid
        rcases List.mem_append.1 hr with hr | hr
        · exact htally r hr hvalid
        · rw [List.mem_singleton.1 hr] at hvalid ⊢
          exact classifyRow_protected hvalid
      cases file.failure with
      | some e =>
        rw [writes_bind]
        exact (protecting_addRows fun row hrow => htally row (List.mem_of_mem_take hrow)).weaken fun _ _ =>
          protecting_failParse ..
      | none =>
        rw [writes_bind]
        refine (protecting_addRows htally).weaken fun _ _ => ?_
        rw [writes_ite]
        refine ⟨fun _ => protecting_failParse .., fun _ => ?_⟩
        rw [writes_bind]
        exact (protecting_setImportJob ..).weaken fun _ _ => protecting_recordAudit _

theorem rowsProtected_committable (h : RowsProtected x) {job : Uuid} {row : ImportRow} (hrow : row ∈ committable x job) :
    row.rawPhoneProtected.isSome = true := by
  obtain ⟨hmem, hc⟩ := List.mem_filter.1 hrow
  simp only [Bool.and_eq_true, decide_eq_true_eq] at hc
  exact h row hmem hc.1.2

/-- In every run of the service, valid rows carry the protected phone. -/
theorem rowsProtected_of_serial {v : Db} (hv : Service.Valid v) (hp : RowsProtected v)
    {ok : Db → Service.Op → Prop} (h : Prog.Serial Service.body ok v x) : RowsProtected x := by
  refine (Prog.Serial.invariant (I := fun x => Service.Valid x ∧ RowsProtected x) ?_ h ⟨hv, hp⟩).2
  rintro op y a y' ⟨hy, hp⟩ - hr
  have he := hy.effect hr
  refine ⟨hy.step he, ?_⟩
  have hrows : (∃ c protect file cols id, op = .parseImport c protect file cols id) ∨
      ∀ row ∈ y'.importRows, row ∈ y.importRows := by
    cases op
    case work op =>
      right
      obtain ⟨a, hr⟩ := he
      obtain ⟨held, he⟩ := Queue.effect_of_runs hy.wellFormed hr
      rw [he.importRows]
      exact fun _ h => h
    case parseImport => exact Or.inl ⟨_, _, _, _, _, rfl⟩
    all_goals right
    case updateCampaign | launchCampaign | pauseCampaign =>
      obtain ⟨k, f, e, rfl, -⟩ := he
      exact fun _ h => h
    case archiveCampaign =>
      obtain ⟨st, -, -, k, f, e, rfl, -⟩ := he
      exact fun _ h => h
    case assignTeam | endTeamAssignment =>
      obtain ⟨ts, e, rfl⟩ := he
      exact fun _ h => h
    case assignAgent | endAgentAssignment =>
      obtain ⟨a, e, rfl, -⟩ := he
      exact fun _ h => h
    case transferAgent =>
      obtain ⟨current, a, e, rfl, -⟩ := he
      exact fun _ h => h
    case uploadImport =>
      obtain ⟨j, e, rfl, -⟩ := he
      exact fun _ h => h
    case decideImport =>
      obtain ⟨job, d, e, rfl, -⟩ := he
      exact fun _ h => h
    case cleanupImports =>
      clear hr
      induction he with
      | refl => exact fun _ h => h
      | tail _ h ih =>
        obtain ⟨job, -, ⟨-, rfl⟩ | ⟨-, rfl⟩⟩ := h
        · exact ih
        · exact fun row hrow => ih row (List.mem_filter.1 hrow).1
    case detectCompleted =>
      clear hr
      induction he with
      | refl => exact fun _ h => h
      | tail _ h ih =>
        obtain ⟨k, f, ns, e, rfl, -⟩ := h
        exact ih
    case purgeExpired =>
      clear hr
      obtain ⟨he, -⟩ := he
      induction he with
      | refl => exact fun _ h => h
      | tail _ h ih =>
        obtain ⟨campaign, k, e, rfl, -⟩ := h
        exact ih
    case deleteCampaignData =>
      obtain ⟨k, e, rfl, -⟩ := he
      exact fun _ h => h
  rcases hrows with ⟨c, protect, file, cols, id, rfl⟩ | hrows
  · obtain ⟨_, hr, -⟩ := Prog.runs_map.1 hr
    exact (Writes.runs (R := fun x x' => RowsProtected x → RowsProtected x') (fun _ h => h) (fun _ _ _ h h' => h' ∘ h)
      (parseJob_protecting c protect file cols _) hr).1 hp
  · exact fun row hrow => hp row (hrows row hrow)

/-- A commit of a parsed job inserts exactly the right contacts. -/
theorem commit_inserts_exactly {c : Call} {r : CommitRequest} {job : ImportJob} {loadedJob : Option ImportJob}
    {loadedCampaign : Option Campaign} {x x' : Db} {res : ImportResult} (hx : x.WellFormed) (honce : OncePerCampaign x)
    (hjob : Table.find x.importJobs r.jobId = some job) (hstate : job.state = .parsed) (hl : Loaded x loadedJob)
    (hrows : RowsProtected x) (h : (commitJob c r loadedJob loadedCampaign).Runs x res x') :
    ∃ ks ccs ws, InsertsExactly job x x' res ks ccs ws := by
  obtain ⟨acc, t, e, hloop, rfl, rfl⟩ := commitParsed_loop (commitJob_loop hjob hstate hl h)
  obtain ⟨ks, ccs, ws, hins⟩ := (inserting_nil (Offers x job.id) hx honce).rows _
    (fun row hrow phone hp hraw => ⟨row, mem_orderBy.1 hrow, hp, hraw⟩) hloop
  rw [List.nil_append] at hins
  have heff := hins.effect
  have hrest := hins.rest
  rw [heff.contacts, heff.campaignContacts, heff.workItems] at hrest
  refine ⟨ks, ccs, ws, ⟨c.utcnow 0, r.idempotencyKey, e, by rw [hrest]⟩, ?_, ?_, ⟨hins.used, fun w hw => ?_⟩, ?_⟩
  · intro row hrow phone hp
    exact hins.present (mem_orderBy.2 hrow) hp (rowsProtected_committable hrows hrow)
  · intro cc hcc
    obtain ⟨-, hfree, k, hk, -, hfresh, hoff, hnot⟩ := heff.campaignContact cc hcc
    refine ⟨hfresh.campaign, hfree, k.phoneFingerprint, ?_, hoff, hnot, fun hs => ?_, fun hs => ?_⟩
    · change (t.contact cc).map _ = _
      rw [hk, Option.map_some]
    · have hq : cc.status = .queued := by rw [hfresh.status, hs, if_neg Bool.false_ne_true]
      exact ⟨hq, one_item heff hx hcc hfree hq⟩
    · have hsup : cc.status = .suppressed := by rw [hfresh.status, hs, if_pos rfl]
      exact ⟨hsup, no_item heff hx hcc hfree hsup⟩
  · obtain ⟨cc, hcc, hid, -⟩ := heff.fresh_link hw
    exact ⟨cc, hcc, hid.symm⟩
  · rw [hins.inserted, hins.suppressed]

/-! The file of job 60 has the phone `f`, which campaign 1 already has, and the phones `g` and
`h`; `h` was suppressed after the parse. -/

def Demo.file : Db :=
  { Queue.Demo.importDb with
    contacts := [{ id := 11, phoneCiphertext := "c", phoneFingerprint := "f" }]
    campaignContacts := [{ id := 21, campaignId := 1, contactId := 11, status := .completed }]
    suppressions := [{ id := 71, phoneFingerprint := "h", source := "agent_request", effectiveAt := 0 }]
    importRows := [
      { id := 61, importJobId := 60, rowNumber := 1, rawPhoneProtected := some "c", phoneFingerprint := some "f",
        validationResult := .valid },
      { id := 62, importJobId := 60, rowNumber := 2, rawPhoneProtected := some "d", phoneFingerprint := some "g",
        validationResult := .valid },
      { id := 63, importJobId := 60, rowNumber := 3, rawPhoneProtected := some "e", phoneFingerprint := some "h",
        validationResult := .valid }] }

def Demo.request : CommitRequest := { jobId := 60, actorId := 7, decisionVersion := 1, idempotencyKey := "k" }

def Demo.job : ImportJob := { id := 60, campaignId := 1, uploaderId := 8, state := .parsed, decisionVersion := 1 }

theorem commit_inserts_exactly_file : ∃ x' ks ccs ws, InsertsExactly Demo.job Demo.file x' ⟨60, 2, 1⟩ ks ccs ws := by
  have hrun := Prog.runs_transact (p := commitJob (Queue.Demo.call 1) Demo.request none none) (s := Demo.file)
    (a := ⟨60, 2, 1⟩) (by decide +kernel)
  exact ⟨_, commit_inserts_exactly (.of_mem (by decide) (by decide) (by decide) (by decide) (by decide) (by decide))
    (by unfold OncePerCampaign; decide) rfl rfl (fun _ h => by cases h) (by unfold RowsProtected; decide) hrun⟩

end OmniDB.Imports
