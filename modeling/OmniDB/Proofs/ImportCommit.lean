import OmniDB.Proofs.ImportEffect

/-! Committing a campaign import: the loop over the rows of the file only appends, each
row under the lock of its phone, whatever else is committed in between. -/

namespace OmniDB.Imports

open Tx
open Protocol (wp_bind wp_view wp_update wp_acquire wp_raiseIf wp_expect wp_pure)

variable {α ω : Type} {P : Protocol Db LockKey Err α ω} [hP : Disciplined P]
variable {l l' : Stand Db LockKey ω} {p : Db → Db} {s s' : Db}
variable {campaign : Uuid} {offered : Fingerprint → Prop} {ks : List Contact} {ccs : List CampaignContact} {ws : List WorkItem}

/-- The rows inserted so far are an import's, and still will be whatever others commit. -/
def Staged (campaign : Uuid) (offered : Fingerprint → Prop) (ks : List Contact) (ccs : List CampaignContact) (ws : List WorkItem)
    (l : Stand Db LockKey ω) (p : Db → Db) (s : Db) : Prop :=
  ∀ x, discipline.Frame l.held s x → x.WellFormed → ImportEffect l.held campaign offered ks ccs ws x (p x)

theorem Staged.start : Staged campaign offered [] [] [] l id s := fun _ _ hx => .refl hx

theorem Staged.stable (h : Staged campaign offered ks ccs ws l p s) (hf : discipline.Frame l.held s s')
    (hh : ∀ k, l.held k → l'.held k) : Staged campaign offered ks ccs ws l' p s' :=
  fun x hx ix => (h x (hf.trans (hx.mono hh)) ix).held_mono hh

theorem Staged.now (h : Staged campaign offered ks ccs ws l p s) (hi : s.WellFormed) :
    ImportEffect l.held campaign offered ks ccs ws s (p s) := h s Discipline.Frame.refl hi

/-- A locked row stays as the transaction sees it. -/
theorem Staged.contact_eq (h : Staged campaign offered ks ccs ws l p s) (hi : s.WellFormed)
    (hf : discipline.Frame l.held s s') (hi' : s'.WellFormed) {id : Uuid} (hl : l.held (.contact id)) :
    Table.find (p s').contacts id = Table.find (p s).contacts id := by
  rw [(h s' hf hi').contacts, (h.now hi).contacts]
  exact Table.find_append_congr (hf.same _ hl)

theorem Staged.campaignContact_eq (h : Staged campaign offered ks ccs ws l p s) (hi : s.WellFormed)
    (hf : discipline.Frame l.held s s') (hi' : s'.WellFormed) {id : Uuid}
    (hl : l.held (.campaignContact id)) :
    Table.find (p s').campaignContacts id = Table.find (p s).campaignContacts id := by
  rw [(h s' hf hi').campaignContacts, (h.now hi).campaignContacts]
  exact Table.find_append_congr (hf.same _ hl)

theorem Staged.workItem_eq (h : Staged campaign offered ks ccs ws l p s) (hi : s.WellFormed)
    (hf : discipline.Frame l.held s s') (hi' : s'.WellFormed) {id : Uuid} (hl : l.held (.workItem id)) :
    Table.find (p s').workItems id = Table.find (p s).workItems id := by
  rw [(h s' hf hi').workItems, (h.now hi).workItems]
  exact Table.find_append_congr (hf.same _ hl)

/-- A contact the transaction sees is there to stay. -/
theorem Staged.contact_stable (h : Staged campaign offered ks ccs ws l p s) (hi : s.WellFormed)
    (hf : discipline.Frame l.held s s') (hi' : s'.WellFormed) {id : Uuid} {k : Contact}
    (hk : Table.find (p s).contacts id = some k) : Table.find (p s').contacts id = some k := by
  have he := h.now hi
  rw [(h s' hf hi').contacts]
  rw [he.contacts, Table.find_append] at hk
  cases hs : Table.find s.contacts id with
  | some k' =>
    rw [hs, Option.some_or] at hk
    exact Table.find_append_of_some (hf.grows.contact _ _ (hs.trans hk))
  | none =>
    rw [hs, Option.none_or] at hk
    obtain rfl : k.id = id := Table.key_of_find hk
    have hl := (he.contact k (Table.mem_of_find hk)).1
    rw [Table.find_append, show Table.find s'.contacts k.id = none from Eq.trans (hf.same _ hl) hs,
      Option.none_or, hk]

/-- A phone that has no contact when it is locked is not in the campaign. -/
theorem Staged.not_inCampaign_of_none (h : Staged campaign offered ks ccs ws l p s) (hi : s.WellFormed)
    {phone : Fingerprint} (hl : l.held (.phone phone))
    (hnone : ∀ k ∈ (p s).contacts, k.phoneFingerprint ≠ phone) (hf : discipline.Frame l.held s s') :
    ¬s'.InCampaign campaign phone := by
  rintro ⟨cc, -, -, hp⟩
  obtain ⟨k, hk, hphone⟩ := Option.map_eq_some_iff.1 hp
  have hmem := (hf.same _ hl).contact k (Table.mem_of_find hk) hphone
  exact hnone k ((h.now hi).contacts ▸ List.mem_append_left _ hmem) hphone

/-- A phone whose contact is not in the campaign when the transaction looks stays out of it. -/
theorem Staged.not_inCampaign_of_some (h : Staged campaign offered ks ccs ws l p s) (hi : s.WellFormed)
    {k : Contact} (hl : l.held (.phone k.phoneFingerprint)) (hk : k ∈ (p s).contacts)
    (hnot : alreadyInCampaign (p s) campaign k.id = false) (hf : discipline.Frame l.held s s')
    (hi' : s'.WellFormed) : ¬s'.InCampaign campaign k.phoneFingerprint := by
  rintro ⟨cc, hcc, hc, hp⟩
  have hfind := hi'.campaignContacts.find_of_mem hcc
  obtain ⟨cc₀, hcc₀, hp₀⟩ := (hf.same _ hl).campaignContact _ cc hfind hp
  obtain ⟨cc₁, hcc₁, hc₁, -⟩ := hf.grows.campaignContact _ _ hcc₀
  obtain rfl : cc = cc₁ := Option.some.inj (hfind.symm.trans hcc₁)
  obtain ⟨k₀, hk₀, hphone⟩ := Option.map_eq_some_iff.1 hp₀
  have he := h.now hi
  have hk₀' : (p s).contact cc₀ = some k₀ := he.contact_forth hk₀
  obtain rfl : k₀ = k := he.wellFormed.onePhone k₀ (Table.mem_of_find hk₀') k hk hphone
  have hmem : cc₀ ∈ (p s).campaignContacts :=
    he.campaignContacts ▸ List.mem_append_left _ (Table.mem_of_find hcc₀)
  have hid : cc₀.contactId = k₀.id := (Table.key_of_find hk₀).symm
  have hin : alreadyInCampaign (p s) campaign k₀.id = true :=
    List.any_eq_true.2 ⟨cc₀, hmem, by simp [hid, ← hc₁, hc]⟩
  simp [hnot] at hin

/-- The contact of a row: one of its phone is there, and there to stay. -/
theorem wp_rowContact {c : Call} {phone : Fingerprint} {ciphertext : String} {n : ℕ}
    {Q : Option Uuid → Protocol.Assertion Db LockKey ω} (h : Staged campaign offered ks ccs ws l p s)
    (hl : l.held (.phone phone))
    (hQ : ∀ o l' p' s' ks', (∀ j, l.held j → l'.held j) → discipline.Frame l.held s s' →
      s'.WellFormed → Staged campaign offered ks' ccs ws l' p' s' →
      (∀ id, o = some id → ∃ k, k.phoneFingerprint = phone ∧
        ∀ x, discipline.Frame l'.held s' x → x.WellFormed →
          Table.find (p' x).contacts id = some k ∧ ¬x.InCampaign campaign phone) →
      Q o l' p' s') :
    P.wp (rowContact c campaign phone ciphertext n) Q l p s := by
  unfold rowContact
  simp only [wp_bind, wp_view]
  intro s₁ hs₁
  have h₁ := frame_of_later hs₁
  have i₁ := wellFormed_of_later hs₁
  cases hc : contactByFingerprint (p s₁) phone with
  | none =>
    dsimp only
    rw [wp_bind]
    refine wp_insertRow fun l₂ s₂ hl₂ h₂ i₂ hfree => ?_
    rw [wp_pure]
    have hnone : ∀ k' ∈ (p s₁).contacts, k'.phoneFingerprint ≠ phone := by
      simpa [contactByFingerprint] using hc
    have hh₂ : ∀ j, l.held j → l₂.held j := fun j hj => hl₂ ▸ Or.inr hj
    have hf₂ : discipline.Frame l.held s s₂ := h₁.trans h₂
    have hstaged := h.stable hf₂ hh₂
    have hkey : l₂.held (.contact (c.uuid4 n)) := hl₂ ▸ held_take _
    refine hQ _ l₂ _ s₂ _ hh₂ hf₂ i₂ (fun x hx ix =>
      (hstaged x hx ix).addContact hkey (hh₂ _ hl) ?_ fun k' hk' => ?_) ?_
    · exact (hstaged.contact_eq i₂ hx ix hkey).trans hfree
    -- a contact of the phone would have been seen under the lock of the phone
    · intro he
      have h₁x : discipline.Frame l.held s₁ x := Discipline.Frame.trans h₂ (hx.mono hh₂)
      have hs₁ : (p s₁).contacts = s₁.contacts ++ ks := ((h.stable h₁ fun _ h => h).now i₁).contacts
      rw [(hstaged x hx ix).contacts, List.mem_append] at hk'
      refine hnone k' ?_ he
      rw [hs₁, List.mem_append]
      exact hk'.imp_left fun hk' => (h₁x.same _ hl).contact k' hk' he
    · rintro _ ⟨⟩
      refine ⟨{ id := c.uuid4 n, phoneCiphertext := ciphertext, phoneFingerprint := phone
                phoneKeyVersion := c.settings.phoneFingerprintKeyVersion }, rfl, fun x hx ix => ?_⟩
      refine ⟨?_, (h.stable h₁ fun _ h => h).not_inCampaign_of_none i₁ hl hnone
        (Discipline.Frame.trans h₂ (hx.mono hh₂))⟩
      change Table.find ((p x).contacts ++ [_]) _ = _
      rw [Table.find_append, (hstaged.contact_eq i₂ hx ix hkey).trans hfree, Option.none_or,
        Table.find_singleton]
      exact if_pos rfl
  | some k =>
    simp only [wp_bind, wp_view, wp_pure]
    intro s₂ hs₂
    have h₂ := frame_of_later hs₂
    have i₂ := wellFormed_of_later hs₂
    refine hQ _ _ p s₂ ks (fun _ h => h) (h₁.trans h₂) i₂ (h.stable (h₁.trans h₂) fun _ h => h) ?_
    intro id hid
    split_ifs at hid with hin
    obtain rfl : k.id = id := Option.some.inj hid
    unfold contactByFingerprint at hc
    obtain rfl : k.phoneFingerprint = phone := by simpa using List.find?_some hc
    have hs₁ := h.stable h₁ fun _ h => h
    have hfind := (hs₁.now i₁).wellFormed.contacts.find_of_mem (List.mem_of_find?_eq_some hc)
    refine ⟨k, rfl, fun x hx ix => ⟨hs₁.contact_stable i₁ (h₂.trans hx) ix hfind, ?_⟩⟩
    have hs₂ := h.stable (h₁.trans h₂) fun _ h => h
    refine hs₂.not_inCampaign_of_some i₂ hl ?_ (by simpa using hin) hx ix
    exact Table.mem_of_find (hs₁.contact_stable i₁ h₂ i₂ hfind)

/-- One row of the file. -/
theorem wp_commitRow {c : Call} {now : Time} {acc : Inserted} {row : ImportRow}
    {Q : Inserted → Protocol.Assertion Db LockKey ω} (h : Staged campaign offered ks ccs ws l p s)
    (hi : s.WellFormed)
    (hrow : ∀ phone, row.phoneFingerprint = some phone → row.rawPhoneProtected.isSome → offered phone)
    (hQ : ∀ acc' l' p' s' ks' ccs' ws', (∀ j, l.held j → l'.held j) → discipline.Frame l.held s s' →
      s'.WellFormed → Staged campaign offered ks' ccs' ws' l' p' s' → Q acc' l' p' s') :
    P.wp (commitRow c campaign now acc row) Q l p s := by
  unfold commitRow
  split
  swap
  · exact hQ acc l p s ks ccs ws (fun _ h => h) Discipline.Frame.refl hi h
  rename_i phone ciphertext hphone hraw
  rw [wp_bind, wp_acquire]
  intro s₁ hs₁ _
  have h₁ := frame_of_later hs₁
  have hh₁ : ∀ j, l.held j → (l.take (.phone phone)).held j := fun _ => Or.inr
  rw [wp_bind]
  refine wp_rowContact (h.stable h₁ hh₁) (held_take _) fun o l₂ p₂ s₂ ks₂ hh₂ h₂ i₂ hst₂ ho => ?_
  have hs₂ : discipline.Frame l.held s s₂ := h₁.trans (h₂.mono hh₁)
  cases o with
  | none => exact hQ acc l₂ p₂ s₂ ks₂ ccs ws (fun j hj => hh₂ j (hh₁ j hj)) hs₂ i₂ hst₂
  | some contact =>
    obtain ⟨k, rfl, hk⟩ := ho contact rfl
    have hp₂ : l₂.held (.phone k.phoneFingerprint) := hh₂ _ (held_take _)
    simp only [wp_bind, wp_view]
    intro s₃ hs₃
    have h₃ := frame_of_later hs₃
    have i₃ := wellFormed_of_later hs₃
    have hsup := ((hst₂.stable h₃ fun _ h => h).now i₃).suppressed_eq k.phoneFingerprint
    refine wp_insertRow fun l₄ s₄ hl₄ h₄ i₄ hfree => ?_
    have hh₄ : ∀ j, l₂.held j → l₄.held j := fun j hj => hl₄ ▸ Or.inr hj
    have hs₄ : discipline.Frame l₂.held s₂ s₄ := Discipline.Frame.trans h₃ h₄
    have hst₄ := hst₂.stable hs₄ hh₄
    have hcc₄ : l₄.held (.campaignContact (c.uuid4 (acc.drawn + 1))) := hl₄ ▸ held_take _
    have hheld : ∀ j, l.held j → l₄.held j := fun j hj => hh₄ j (hh₂ j (hh₁ j hj))
    have hframe : discipline.Frame l.held s s₄ := hs₂.trans (hs₄.mono fun j hj => hh₂ j (hh₁ j hj))
    have hclear : ∀ x, discipline.Frame l₄.held s₄ x →
        x.suppressed k.phoneFingerprint = (p₂ s₃).suppressed k.phoneFingerprint := fun x hx =>
      ((((h₄ : discipline.Frame l₂.held s₃ s₄).trans (hx.mono hh₄)).same _ hp₂).suppressed).trans hsup.symm
    have hfresh : ∀ x, discipline.Frame l₄.held s₄ x → x.WellFormed → Table.find (p₂ x).campaignContacts
        (c.uuid4 (acc.drawn + 1)) = none := fun x hx ix =>
      (hst₄.campaignContact_eq i₄ hx ix hcc₄).trans hfree
    have hcontact : ∀ x, discipline.Frame l₄.held s₄ x → x.WellFormed →
        Table.find (p₂ x).contacts contact = some k := fun x hx ix =>
      (hk x (hs₄.trans (hx.mono hh₄)) ix).1
    have hnot : ∀ x, discipline.Frame l₄.held s₄ x → x.WellFormed →
        ¬x.InCampaign campaign k.phoneFingerprint := fun x hx ix =>
      (hk x (hs₄.trans (hx.mono hh₄)) ix).2
    have hoff := hrow _ hphone (by rw [hraw]; rfl)
    split_ifs with hsuppressed
    · rw [wp_pure]
      exact hQ _ l₄ _ s₄ _ _ ws hheld hframe i₄ fun x hx ix =>
        (hst₄ x hx ix).addSuppressed hcc₄ (hh₄ _ hp₂) (hfresh x hx ix) (hcontact x hx ix)
          ((hclear x hx).trans hsuppressed) ⟨rfl, rfl, rfl, rfl⟩ hoff (hnot x hx ix)
    · rw [wp_bind]
      refine wp_insertRow fun l₅ s₅ hl₅ h₅ i₅ hfreew => ?_
      rw [wp_pure]
      have hh₅ : ∀ j, l₄.held j → l₅.held j := fun j hj => hl₅ ▸ Or.inr hj
      have hw₅ : l₅.held (.workItem (c.uuid4 (acc.drawn + 2))) := hl₅ ▸ held_take _
      have hst₅ := hst₄.stable h₅ hh₅
      exact hQ _ l₅ _ s₅ _ _ _ (fun j hj => hh₅ j (hheld j hj)) (hframe.trans (h₅.mono hheld)) i₅
        fun x hx ix =>
          have hx₄ : discipline.Frame l₄.held s₄ x := h₅.trans (hx.mono hh₅)
          (hst₅ x hx ix).addQueued (hh₅ _ hcc₄) (hh₅ _ (hh₄ _ hp₂)) (hfresh x hx₄ ix) (hcontact x hx₄ ix)
            ((hclear x hx₄).trans (by simpa using hsuppressed)) ⟨rfl, rfl, rfl, rfl⟩ hoff
            (hnot x hx₄ ix) hw₅
            ((hst₅.workItem_eq i₅ hx ix hw₅).trans hfreew) rfl rfl

/-- The loop over the rows of the file. -/
theorem wp_commitRows {c : Call} {now : Time} {rows : List ImportRow} (acc : Inserted)
    (h : Staged campaign offered ks ccs ws l p s) (hi : s.WellFormed)
    (hrows : ∀ row ∈ rows, ∀ phone, row.phoneFingerprint = some phone →
      row.rawPhoneProtected.isSome → offered phone) :
    P.wp (rows.foldlM (commitRow c campaign now) acc)
      (fun _ l' p' s' => discipline.Frame l.held s s' ∧ s'.WellFormed ∧
        ∃ ks ccs ws, Staged campaign offered ks ccs ws l' p' s') l p s := by
  induction rows generalizing acc ks ccs ws l p s with
  | nil => exact ⟨Discipline.Frame.refl, hi, ks, ccs, ws, h⟩
  | cons row rows ih =>
    rw [List.foldlM_cons, wp_bind]
    refine wp_commitRow h hi (hrows row (List.mem_cons_self ..)) fun acc' l' p' s' ks' ccs' ws' hh hf i' h' => ?_
    refine Protocol.wp_mono _ ?_ _ _ _ (ih acc' h' i' fun row hr => hrows row (List.mem_cons_of_mem _ hr))
    rintro acc'' l'' p'' s'' ⟨hf', i'', h''⟩
    exact ⟨hf.trans (hf'.mono hh), i'', h''⟩

/-- A row of the job offers the phone to the campaign. -/
def Offers (db : Db) (job : Uuid) (phone : Fingerprint) : Prop :=
  ∃ row ∈ committable db job, row.phoneFingerprint = some phone ∧ row.rawPhoneProtected.isSome = true

/-- The import of the job's rows into the campaign. -/
def ImportsRows (job campaign : Uuid) (held : LockKey → Prop) (x x' : Db) : Prop :=
  ∃ ks ccs ws, ImportEffect held campaign (Offers x job) ks ccs ws x x'

/-- The import of some job. -/
def ImportsInto (held : LockKey → Prop) (x x' : Db) : Prop :=
  ∃ job campaign, ImportsRows job campaign held x x'

theorem ImportsInto.refl {held : LockKey → Prop} {x : Db} (hx : x.WellFormed) : ImportsInto held x x :=
  ⟨0, 0, [], [], [], .refl hx⟩

theorem offers_congr {x y : Db} (h : y.importRows = x.importRows) (job : Uuid) :
    Offers y job = Offers x job := by
  unfold Offers committable
  rw [h]

theorem identityMap_key {ρ : Type} [Keyed ρ Uuid] (loaded : Option ρ) (row : ρ) :
    key (identityMap loaded row) = key row := by
  unfold identityMap
  split
  · split_ifs with h
    · exact h
    · rfl
  · rfl

/-- The latest decision is one of the job, with the version of the job. -/
theorem mem_of_latestDecision {c : Call} {x : Db} {job : ImportJob} {d : ImportDecision}
    (h : latestDecision c x job = some d) :
    d ∈ x.importDecisions ∧ d.importJobId = job.id ∧ d.decisionVersion = job.decisionVersion := by
  obtain ⟨hmem, hd⟩ := List.mem_filter.1 (mem_orderBy.1 (List.mem_of_head? h))
  rw [Bool.and_eq_true, decide_eq_true_eq, decide_eq_true_eq] at hd
  exact ⟨hmem, hd⟩

theorem wp_commitParsed {c : Call} {r : CommitRequest} {job : ImportJob} {loaded : Option Campaign} :
    P.wp (commitParsed c r job loaded)
      (fun _ => discipline.Settles Db.WellFormed (ImportsRows job.id job.campaignId)) l id s := by
  unfold commitParsed assertProvenance
  rw [wp_bind, wp_view]
  intro s₁ hs₁
  rw [wp_bind, wp_raiseIf]
  intro _
  refine wp_expectForUpdate fun l₂ s₂ row hl₂ h₂ i₂ hrow _ => ?_
  have hid : (identityMap loaded row).id = job.campaignId :=
    (identityMap_key loaded row).trans (Table.key_of_find hrow)
  simp only [wp_bind, wp_raiseIf, wp_view, hid]
  intro _ s₃ hs₃
  refine Protocol.wp_mono _ ?_ _ _ _ (wp_commitRows {}
    (show Staged _ (Offers s₃ job.id) [] [] [] _ id s₃ from .start) (wellFormed_of_later hs₃)
    fun row hrow phone hp hraw => ?_)
  swap
  · exact ⟨row, mem_orderBy.1 hrow, hp, hraw⟩
  rintro acc l' p' s' ⟨hf, hi, ks, ccs, ws, h⟩
  unfold setImportJob
  simp only [wp_bind, wp_acquire, wp_update]
  intro s₄ hs₄ _ x hx ix
  have h₄ : discipline.Frame l'.held s' x := (frame_of_later hs₄).trans (frame_of_take hx)
  have hrows : x.importRows = s₃.importRows := h₄.grows.importRows.trans hf.grows.importRows
  have heff := (h x h₄ ix).held_mono fun _ => held_of_take (k := .importJob job.id)
  rw [← offers_congr hrows] at heff
  exact ⟨ks, ccs, ws, (heff.commit (c.utcnow 0) r.idempotencyKey ⟨job.id, acc.inserted, acc.suppressed⟩
    (held_take _)).log _⟩

/-- The commit of a campaign import, by the service. -/
theorem commitJob_effect (c : Call) (r : CommitRequest) (job : Option ImportJob)
    (campaign : Option Campaign) :
    P.wp (commitJob c r job campaign) (fun _ => discipline.Settles Db.WellFormed ImportsInto) l id s := by
  unfold commitJob
  refine wp_expectForUpdate fun l₂ s₂ row hl₂ h₂ i₂ _ _ => ?_
  dsimp only
  split_ifs with hc
  · simp only [wp_bind, wp_raiseIf, wp_pure]
    exact fun _ x hx ix => .refl ix
  · simp only [wp_bind, wp_raiseIf]
    intro _ _
    exact Protocol.wp_mono _ (fun _ _ _ _ h x hx ix => ⟨_, _, h x hx ix⟩) _ _ _ wp_commitParsed

/-- The commit of a campaign import, by the request. -/
theorem commitImport_effect (c : Call) (r : CommitRequest) :
    P.wp (commitImport c r) (fun _ => discipline.Settles Db.WellFormed ImportsInto) l id s := by
  unfold commitImport
  rw [wp_bind]
  refine wp_getRow fun s₁ h₁ i₁ => ?_
  rw [wp_bind, wp_expect]
  intro job _
  rw [wp_bind]
  refine wp_getRow fun s₂ h₂ i₂ => ?_
  simp only [wp_bind, wp_expect, wp_view, wp_raiseIf]
  intro campaign _ s₃ _ _
  exact commitJob_effect c r (some job) (some campaign)

/-! ## The commit request alone -/

/-- The request passes every check and inserts the rows of the job. -/
structure Commits (c : Call) (r : CommitRequest) (db : Db) (job : ImportJob) : Prop where
  row : Table.find db.importJobs r.jobId = some job
  state : job.state = .parsed
  version : job.decisionVersion = r.decisionVersion
  approved : (latestDecision c db job).map ImportDecision.decision = some .approve
  campaign : ∃ campaign, Table.find db.campaigns job.campaignId = some campaign ∧
    missingProvenance campaign = []
  authorized : Authz.hasCampaignCapability db (c.utcnow 1) r.actorId .manageCampaign job.campaignId = true

theorem identityMap_self {ρ : Type} [Keyed ρ Uuid] (row : ρ) : identityMap (some row) row = row :=
  if_pos rfl

/-- The checks of the import itself. -/
theorem commitParsed_runs {c : Call} {r : CommitRequest} {job : ImportJob} {loaded : Option Campaign}
    {x x' : Db} {res : ImportResult} (h : (commitParsed c r job loaded).Runs x res x') :
    (latestDecision c x job).map ImportDecision.decision = some .approve ∧
    ∃ row, Table.find x.campaigns job.campaignId = some row ∧
      missingProvenance (identityMap loaded row) = [] := by
  unfold commitParsed assertProvenance at h
  simp only [Prog.runs_bind, Prog.runs_view, Prog.runs_raiseIf, runs_selectForUpdate, Prog.runs_expect,
    and_assoc] at h
  obtain ⟨_, _, rfl, rfl, _, _, happ, rfl, _, _, rfl, rfl, row, _, hrow, rfl, _, _, hmiss, -⟩ := h
  refine ⟨not_not.1 happ, row, ?_, not_not.1 hmiss⟩
  simpa using hrow

/-- A request that succeeds with no other transaction about repeats an earlier commit, or
inserts the rows of a job that passes every check. -/
theorem commitImport_runs {c : Call} {r : CommitRequest} {x x' : Db} {res : ImportResult}
    (hx : x.WellFormed) (h : (commitImport c r).Runs x res x') :
    (x' = x ∧ ∃ job, Table.find x.importJobs r.jobId = some job ∧ job.state = .committed) ∨
      ∃ job held, Commits c r x job ∧ ImportsRows job.id job.campaignId held x x' := by
  unfold commitImport commitJob at h
  simp only [Prog.runs_bind, runs_getRow, Prog.runs_view, Prog.runs_expect, Prog.runs_raiseIf,
    runs_selectForUpdate, and_assoc] at h
  obtain ⟨_, _, rfl, rfl, job, _, hjob, rfl, _, _, rfl, rfl, campaign, _, hcampaign, rfl, _, _, rfl, rfl,
    _, _, hauth, rfl, _, _, rfl, rfl, row, _, hrow, rfl, h⟩ := h
  obtain rfl : job = row := by simpa [hjob] using hrow
  rw [identityMap_self] at h
  split_ifs at h with hc
  · simp only [Prog.runs_bind, Prog.runs_raiseIf, Prog.runs_pure] at h
    obtain ⟨_, _, ⟨-, rfl⟩, -, rfl⟩ := h
    exact Or.inl ⟨rfl, job, hjob, hc⟩
  · simp only [Prog.runs_bind, Prog.runs_raiseIf] at h
    obtain ⟨_, _, ⟨hstate, rfl⟩, _, _, ⟨hversion, rfl⟩, h⟩ := h
    obtain ⟨happ, row, hrow, hmiss⟩ := commitParsed_runs h
    obtain rfl : campaign = row := Option.some.inj (hcampaign.symm.trans hrow)
    rw [identityMap_self] at hmiss
    have hid : campaign.id = job.campaignId := Table.key_of_find hcampaign
    obtain ⟨held, he⟩ := Discipline.effect_of_runs (E := fun _ => ImportsRows job.id job.campaignId) hx
      wp_commitParsed h
    exact Or.inr ⟨job, held, ⟨hjob, not_not.1 hstate, not_not.1 hversion, happ, ⟨campaign, hcampaign, hmiss⟩,
      by simpa [hid] using hauth⟩, he⟩

end OmniDB.Imports
