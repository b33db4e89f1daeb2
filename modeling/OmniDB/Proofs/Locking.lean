import OmniDB.Tx.Discipline
import OmniDB.Spec.Work

/-! The lock discipline of the work queue. A row lock guards its row; the advisory
lock of a phone guards the suppression of the phone and the contacts and work items
that can appear for it; the idempotency lock of a completion guards the attempts
under its key. No commit reopens a closed work item, moves a row to another contact or
campaign, or deletes one. -/

namespace OmniDB

open Tx

/-- What every commit of the work queue keeps. -/
structure Db.Grows (s s' : Db) : Prop where
  campaigns : s'.campaigns = s.campaigns
  dispositions : s'.dispositions = s.dispositions
  importRows : s'.importRows = s.importRows
  workItem : ∀ id w, Table.find s.workItems id = some w →
    ∃ w', Table.find s'.workItems id = some w' ∧
      w'.campaignContactId = w.campaignContactId ∧ (w.state.terminal = true → w' = w)
  campaignContact : ∀ id cc, Table.find s.campaignContacts id = some cc →
    ∃ cc', Table.find s'.campaignContacts id = some cc' ∧
      cc'.campaignId = cc.campaignId ∧ cc'.contactId = cc.contactId
  contact : ∀ id k, Table.find s.contacts id = some k → Table.find s'.contacts id = some k
  attempt : ∀ a ∈ s.attempts, a ∈ s'.attempts

/-- What the advisory lock of a phone guards. -/
structure Db.SamePhone (f : Fingerprint) (s s' : Db) : Prop where
  suppressed : s'.suppressed f = s.suppressed f
  contact : ∀ k ∈ s'.contacts, k.phoneFingerprint = f → k ∈ s.contacts
  workItem : ∀ id w', Table.find s'.workItems id = some w' → s'.phoneOf w' = some f →
    ∃ w, Table.find s.workItems id = some w ∧ s.phoneOf w = some f
  campaignContact : ∀ id cc', Table.find s'.campaignContacts id = some cc' →
    (s'.contact cc').map Contact.phoneFingerprint = some f →
    ∃ cc, Table.find s.campaignContacts id = some cc ∧
      (s.contact cc).map Contact.phoneFingerprint = some f

/-- What a lock guards. -/
def LockKey.Same : LockKey → Db → Db → Prop
  | .phone f, s, s' => Db.SamePhone f s s'
  | .idempotency space agent key, s, s' => space = "work.complete" →
      ∀ a ∈ s'.attempts, a.agentId = agent → a.idempotencyKey = key → a ∈ s.attempts
  | .workItem id, s, s' => Table.find s'.workItems id = Table.find s.workItems id
  | .contact id, s, s' => Table.find s'.contacts id = Table.find s.contacts id
  | .campaignContact id, s, s' => Table.find s'.campaignContacts id = Table.find s.campaignContacts id
  | .attempt id, s, s' => Table.find s'.attempts id = Table.find s.attempts id
  | .userAssignment id, s, s' => Table.find s'.userAssignments id = Table.find s.userAssignments id
  | .importJob id, s, s' => Table.find s'.importJobs id = Table.find s.importJobs id
  | _, _, _ => True

theorem Db.Grows.refl (s : Db) : Db.Grows s s where
  campaigns := rfl
  dispositions := rfl
  importRows := rfl
  workItem _ w h := ⟨w, h, rfl, fun _ => rfl⟩
  campaignContact _ cc h := ⟨cc, h, rfl, rfl⟩
  contact _ _ h := h
  attempt _ h := h

theorem Db.Grows.trans {s s' s'' : Db} (h : Db.Grows s s') (h' : Db.Grows s' s'') :
    Db.Grows s s'' where
  campaigns := h'.campaigns.trans h.campaigns
  dispositions := h'.dispositions.trans h.dispositions
  importRows := h'.importRows.trans h.importRows
  workItem id w hw := by
    obtain ⟨w', hw', hc, ht⟩ := h.workItem id w hw
    obtain ⟨w'', hw'', hc', ht'⟩ := h'.workItem id w' hw'
    refine ⟨w'', hw'', hc'.trans hc, fun hterm => ?_⟩
    obtain rfl := ht hterm
    exact ht' hterm
  campaignContact id cc hcc := by
    obtain ⟨cc', hcc', hc, hk⟩ := h.campaignContact id cc hcc
    obtain ⟨cc'', hcc'', hc', hk'⟩ := h'.campaignContact id cc' hcc'
    exact ⟨cc'', hcc'', hc'.trans hc, hk'.trans hk⟩
  contact id k hk := h'.contact id k (h.contact id k hk)
  attempt a ha := h'.attempt a (h.attempt a ha)

theorem LockKey.Same.refl (k : LockKey) (s : Db) : k.Same s s := by
  cases k with
  | phone f => exact ⟨rfl, fun _ h _ => h, fun _ w h hp => ⟨w, h, hp⟩, fun _ cc h hp => ⟨cc, h, hp⟩⟩
  | idempotency => exact fun _ _ h _ _ => h
  | workItem | contact | campaignContact | attempt | userAssignment | importJob => rfl
  | _ => trivial

theorem LockKey.Same.trans (k : LockKey) {s s' s'' : Db} (h : k.Same s s') (h' : k.Same s' s'') :
    k.Same s s'' := by
  cases k with
  | phone f =>
    refine ⟨h'.suppressed.trans h.suppressed, fun k hk hf => h.contact k (h'.contact k hk hf) hf, ?_, ?_⟩
    · intro id w'' hw hp
      obtain ⟨w', hw', hp'⟩ := h'.workItem id w'' hw hp
      exact h.workItem id w' hw' hp'
    · intro id cc'' hcc hp
      obtain ⟨cc', hcc', hp'⟩ := h'.campaignContact id cc'' hcc hp
      exact h.campaignContact id cc' hcc' hp'
  | idempotency => exact fun hs a ha hag hk => h hs a (h' hs a ha hag hk) hag hk
  | workItem | contact | campaignContact | attempt | userAssignment | importJob => exact Eq.trans h' h
  | _ => trivial

/-- The lock discipline of the work queue. -/
def discipline : Discipline Db LockKey where
  grows := Db.Grows
  same := LockKey.Same
  grows_refl := Db.Grows.refl
  grows_trans _ _ _ h h' := h.trans h'
  same_refl := LockKey.Same.refl
  same_trans k _ _ _ h h' := LockKey.Same.trans k h h'

/-- Keys are unique, references resolve, and a phone has one contact. -/
structure Db.WellFormed (s : Db) : Prop where
  workItems : Table.Unique s.workItems
  campaignContacts : Table.Unique s.campaignContacts
  contacts : Table.Unique s.contacts
  campaignContact : ∀ id w, Table.find s.workItems id = some w → ∃ cc, s.campaignContact w = some cc
  contact : ∀ id cc, Table.find s.campaignContacts id = some cc → ∃ k, s.contact cc = some k
  onePhone : ∀ k ∈ s.contacts, ∀ k' ∈ s.contacts, k.phoneFingerprint = k'.phoneFingerprint → k = k'

/-- The conditions as they are checked on a concrete database. -/
theorem Db.WellFormed.of_mem {s : Db} (hw : Table.Unique s.workItems) (hc : Table.Unique s.campaignContacts)
    (hk : Table.Unique s.contacts) (hcc : ∀ w ∈ s.workItems, (s.campaignContact w).isSome = true)
    (hct : ∀ cc ∈ s.campaignContacts, (s.contact cc).isSome = true)
    (hp : ∀ k ∈ s.contacts, ∀ k' ∈ s.contacts, k.phoneFingerprint = k'.phoneFingerprint → k = k') :
    s.WellFormed where
  workItems := hw
  campaignContacts := hc
  contacts := hk
  campaignContact _ w h := Option.isSome_iff_exists.1 (hcc w (Table.mem_of_find h))
  contact _ cc h := Option.isSome_iff_exists.1 (hct cc (Table.mem_of_find h))
  onePhone := hp

section Links

variable {s s' : Db}

theorem Db.phoneOf_eq {w : WorkItem} {cc : CampaignContact} {k : Contact}
    (hcc : s.campaignContact w = some cc) (hk : s.contact cc = some k) :
    s.phoneOf w = some k.phoneFingerprint := by
  simp [Db.phoneOf, Db.contactOf, hcc, hk]

theorem Db.Grows.contactOf (h : Db.Grows s s') {cc cc' : CampaignContact} {k : Contact}
    (hc : cc'.contactId = cc.contactId) (hk : s.contact cc = some k) : s'.contact cc' = some k := by
  unfold Db.contact at hk ⊢
  rw [hc]
  exact h.contact _ _ hk

/-- A row keeps its phone. -/
theorem Db.Grows.phoneOf (h : Db.Grows s s') {w w' : WorkItem} {f : Fingerprint}
    (hc : w'.campaignContactId = w.campaignContactId) (hp : s.phoneOf w = some f) :
    s'.phoneOf w' = some f := by
  unfold Db.phoneOf Db.contactOf Db.campaignContact at hp ⊢
  rw [Option.map_eq_some_iff] at hp ⊢
  obtain ⟨k, hk, rfl⟩ := hp
  obtain ⟨cc, hcc, hk⟩ := Option.bind_eq_some_iff.1 hk
  obtain ⟨cc', hcc', -, hct⟩ := h.campaignContact _ _ hcc
  exact ⟨k, Option.bind_eq_some_iff.2 ⟨cc', hc ▸ hcc', h.contactOf hct hk⟩, rfl⟩

theorem Db.Grows.campaignOf (h : Db.Grows s s') {w w' : WorkItem} {id : Uuid}
    (hc : w'.campaignContactId = w.campaignContactId) (hp : s.campaignOf w = some id) :
    s'.campaignOf w' = some id := by
  unfold Db.campaignOf Db.campaignContact at hp ⊢
  rw [Option.map_eq_some_iff] at hp ⊢
  obtain ⟨cc, hcc, rfl⟩ := hp
  obtain ⟨cc', hcc', hcmp, -⟩ := h.campaignContact _ _ hcc
  exact ⟨cc', hc ▸ hcc', hcmp⟩

/-- In a well-formed database a work item has a phone. -/
theorem Db.WellFormed.phone (h : s.WellFormed) {id : Uuid} {w : WorkItem}
    (hw : Table.find s.workItems id = some w) :
    ∃ cc k, s.campaignContact w = some cc ∧ s.contact cc = some k ∧
      s.phoneOf w = some k.phoneFingerprint := by
  obtain ⟨cc, hcc⟩ := h.campaignContact id w hw
  obtain ⟨k, hk⟩ := h.contact _ cc hcc
  exact ⟨cc, k, hcc, hk, Db.phoneOf_eq hcc hk⟩

/-- A work item keeps its phone, read either way. -/
theorem Db.Grows.phoneOf_iff (h : Db.Grows s s') (hs : s.WellFormed) {id : Uuid} {w w' : WorkItem}
    (hw : Table.find s.workItems id = some w) (hc : w'.campaignContactId = w.campaignContactId) :
    s'.phoneOf w' = s.phoneOf w := by
  obtain ⟨cc, k, -, -, hp⟩ := hs.phone hw
  rw [hp, h.phoneOf hc hp]

/-- A work item keeps its campaign, read either way. -/
theorem Db.Grows.campaignOf_iff (h : Db.Grows s s') (hs : s.WellFormed) {id : Uuid} {w w' : WorkItem}
    (hw : Table.find s.workItems id = some w) (hc : w'.campaignContactId = w.campaignContactId) :
    s'.campaignOf w' = s.campaignOf w := by
  obtain ⟨cc, hcc⟩ := hs.campaignContact id w hw
  have hcamp : s.campaignOf w = some cc.campaignId := by rw [Db.campaignOf, hcc, Option.map_some]
  rw [hcamp, h.campaignOf hc hcamp]

end Links

section Insertions

variable {s : Db}

theorem Db.WellFormed.addContact (h : s.WellFormed) {k : Contact}
    (hfree : Table.find s.contacts k.id = none)
    (hnew : ∀ k' ∈ s.contacts, k'.phoneFingerprint ≠ k.phoneFingerprint) : (s.addContact k).WellFormed where
  workItems := h.workItems
  campaignContacts := h.campaignContacts
  contacts := h.contacts.append hfree
  campaignContact := h.campaignContact
  contact id cc hcc := by
    obtain ⟨k', hk'⟩ := h.contact id cc hcc
    exact ⟨k', Table.find_append_of_some hk'⟩
  onePhone k₁ h₁ k₂ h₂ he := by
    rcases List.mem_append.1 h₁ with h₁ | h₁ <;> rcases List.mem_append.1 h₂ with h₂ | h₂
    · exact h.onePhone k₁ h₁ k₂ h₂ he
    · exact absurd (List.mem_singleton.1 h₂ ▸ he) (hnew k₁ h₁)
    · exact absurd (List.mem_singleton.1 h₁ ▸ he).symm (hnew k₂ h₂)
    · rw [List.mem_singleton.1 h₁, List.mem_singleton.1 h₂]

theorem Db.WellFormed.addCampaignContact (h : s.WellFormed) {cc : CampaignContact} {k : Contact}
    (hfree : Table.find s.campaignContacts cc.id = none) (hk : s.contact cc = some k) :
    (s.addCampaignContact cc).WellFormed where
  workItems := h.workItems
  campaignContacts := h.campaignContacts.append hfree
  contacts := h.contacts
  campaignContact id w hw := by
    obtain ⟨cc', hcc'⟩ := h.campaignContact id w hw
    exact ⟨cc', Table.find_append_of_some hcc'⟩
  contact id cc' hcc' := by
    rcases Table.find_append_singleton hcc' with hcc' | rfl
    · exact h.contact id cc' hcc'
    · exact ⟨k, hk⟩
  onePhone := h.onePhone

theorem Db.WellFormed.addWorkItem (h : s.WellFormed) {w : WorkItem} {cc : CampaignContact}
    (hfree : Table.find s.workItems w.id = none) (hcc : s.campaignContact w = some cc) :
    (s.addWorkItem w).WellFormed where
  workItems := h.workItems.append hfree
  campaignContacts := h.campaignContacts
  contacts := h.contacts
  campaignContact id w' hw' := by
    rcases Table.find_append_singleton hw' with hw' | rfl
    · exact h.campaignContact id w' hw'
    · exact ⟨cc, hcc⟩
  contact := h.contact
  onePhone := h.onePhone

end Insertions

/-! ## The rows of a statement -/

section Order

variable {ρ : Type} {before : ρ → ρ → Prop} [DecidableRel before] {rows : List ρ} {r : ρ}

theorem perm_orderBy (before : ρ → ρ → Prop) [DecidableRel before] (rows : List ρ) :
    (orderBy before rows).Perm rows := List.perm_insertionSort _ _

/-- The order of a key puts the rows in order. -/
theorem pairwise_orderBy {κ : Type} [LinearOrder κ] (before : ρ → ρ → Prop) [DecidableRel before] (f : ρ → κ)
    (h : ∀ a b, before a b ↔ f a ≤ f b) (rows : List ρ) : (orderBy before rows).Pairwise before := by
  have : Std.Total before := ⟨fun a b => by simpa only [h] using le_total (f a) (f b)⟩
  have : IsTrans ρ before := ⟨fun a b c => by simpa only [h] using le_trans⟩
  exact List.pairwise_insertionSort before rows

@[simp] theorem mem_orderBy : r ∈ orderBy before rows ↔ r ∈ rows := (perm_orderBy _ _).mem_iff

variable [Keyed ρ Uuid] {c : Call}

theorem perm_scan (c : Call) (rows : List ρ) : (scan c rows).Perm rows := perm_orderBy _ _

@[simp] theorem mem_scan : r ∈ scan c rows ↔ r ∈ rows := (perm_scan _ _).mem_iff

end Order

/-! ## Statements under the discipline -/

/-- A protocol whose other transactions follow the discipline. -/
abbrev Disciplined {α ω : Type} (P : Protocol Db LockKey Err α ω) : Prop :=
  P.Respects discipline Db.WellFormed

section Rules

variable {α ω β ρ : Type} {P : Protocol Db LockKey Err α ω} [hP : Disciplined P]
variable {l : Stand Db LockKey ω} {p : Db → Db} {s s' : Db}

theorem frame_of_later (h : P.Later l s s') : discipline.Frame l.held s s' := hP.frame _ _ _ h.1

theorem wellFormed_of_later (h : P.Later l s s') : s'.WellFormed := hP.inv _ h.2

@[simp] theorem held_saw (n : String) (v : Db) : (l.saw n v).held = l.held := rfl

theorem held_take (k : LockKey) : (l.take k).held k := Or.inl rfl

theorem held_of_take {k j : LockKey} (h : l.held j) : (l.take k).held j := Or.inr h

theorem frame_of_take {k : LockKey} (h : discipline.Frame (l.take k).held s s') :
    discipline.Frame l.held s s' := h.mono fun _ => Or.inr

variable [Keyed ρ Uuid] {key : Uuid → LockKey} {table : Db → List ρ}

theorem wp_getRow {n : String} {id : Uuid} {Q : Option ρ → Protocol.Assertion Db LockKey ω}
    (h : ∀ s', discipline.Frame l.held s s' → s'.WellFormed →
      Q (Table.find (table (p s')) id) (l.saw n (p s')) p s') :
    P.wp (getRow n table id) Q l p s := by
  unfold getRow
  rw [Protocol.wp_bind, Protocol.wp_view]
  intro s' hs
  exact h s' (frame_of_later hs) (wellFormed_of_later hs)

/-- `FOR UPDATE` on one row: the answer is the row as it is once it is locked. -/
theorem wp_selectForUpdate {n : String} {cond : ρ → Bool} {id : Uuid}
    {Q : Option ρ → Protocol.Assertion Db LockKey ω}
    (hnone : ∀ l' s', (∀ k, l.held k → l'.held k) → discipline.Frame l.held s s' →
      s'.WellFormed → Q none l' p s')
    (hsome : ∀ l' s' r, l'.held = (l.take (key id)).held → discipline.Frame l.held s s' →
      s'.WellFormed → Table.find (table (p s')) id = some r → cond r = true → Q (some r) l' p s') :
    P.wp (selectForUpdate n key table cond id) Q l p s := by
  unfold selectForUpdate
  rw [Protocol.wp_bind]
  refine wp_getRow fun s₁ h₁ i₁ => ?_
  cases hr : Table.find (table (p s₁)) id with
  | none => exact hnone _ _ (fun _ h => h) h₁ i₁
  | some r =>
    dsimp only
    split_ifs with hc
    · rw [Protocol.wp_bind, Protocol.wp_acquire]
      intro s₂ hs₂ _
      rw [Protocol.wp_bind]
      refine wp_getRow fun s₃ h₃ i₃ => ?_
      have hf := frame_of_later hs₂
      have h₂ : discipline.Frame l.held s s₂ := h₁.trans hf
      have h := h₂.trans (frame_of_take h₃)
      rw [Protocol.wp_pure]
      cases ho : (Table.find (table (p s₃)) id).filter cond with
      | none => exact hnone _ _ (fun _ => Or.inr) h i₃
      | some r' =>
        obtain ⟨hf, hcr⟩ := Option.filter_eq_some_iff.1 ho
        exact hsome _ _ _ rfl h i₃ hf hcr
    · exact hnone _ _ (fun _ h => h) h₁ i₁

/-- `FOR UPDATE` on a row that must be there. -/
theorem wp_expectForUpdate {n : String} {cond : ρ → Bool} {id : Uuid} {e : Err} {f : ρ → Txn β}
    {Q : β → Protocol.Assertion Db LockKey ω}
    (h : ∀ l' s' r, l'.held = (l.take (key id)).held → discipline.Frame l.held s s' →
      s'.WellFormed → Table.find (table (p s')) id = some r → cond r = true → P.wp (f r) Q l' p s') :
    P.wp (do let r ← Prog.expect (← selectForUpdate n key table cond id) e; f r) Q l p s := by
  rw [Protocol.wp_bind]
  refine wp_selectForUpdate (fun l' s' _ _ _ => ?_) fun l' s' r hl hf hi hr hc => ?_
  · rw [Protocol.wp_bind, Protocol.wp_expect]
    intro r hr
    cases hr
  · rw [Protocol.wp_bind, Protocol.wp_expect]
    rintro _ ⟨⟩
    exact h l' s' r hl hf hi hr hc

/-- The same with `SKIP LOCKED`. -/
theorem wp_selectSkipLocked {n : String} {cond : ρ → Bool} {id : Uuid}
    {Q : Option ρ → Protocol.Assertion Db LockKey ω}
    (hnone : ∀ l' s', (∀ k, l.held k → l'.held k) → discipline.Frame l.held s s' →
      s'.WellFormed → Q none l' p s')
    (hsome : ∀ l' s' r, l'.held = (l.take (key id)).held → discipline.Frame l.held s s' →
      s'.WellFormed → Table.find (table (p s')) id = some r → cond r = true → Q (some r) l' p s') :
    P.wp (selectSkipLocked n key table cond id) Q l p s := by
  unfold selectSkipLocked
  rw [Protocol.wp_bind]
  refine wp_getRow fun s₁ h₁ i₁ => ?_
  cases hr : Table.find (table (p s₁)) id with
  | none => exact hnone _ _ (fun _ h => h) h₁ i₁
  | some r =>
    dsimp only
    split_ifs with hc
    · rw [Protocol.wp_bind, Protocol.wp_tryAcquire]
      intro s₂ hs₂
      have hf := frame_of_later hs₂
      have h₂ : discipline.Frame l.held s s₂ := h₁.trans hf
      refine ⟨fun _ => ?_, fun _ => hnone _ _ (fun _ h => h) h₂ (wellFormed_of_later hs₂)⟩
      simp only [if_true, Protocol.wp_bind]
      refine wp_getRow fun s₃ h₃ i₃ => ?_
      have h := h₂.trans (frame_of_take h₃)
      rw [Protocol.wp_pure]
      cases ho : (Table.find (table (p s₃)) id).filter cond with
      | none => exact hnone _ _ (fun _ => Or.inr) h i₃
      | some r' =>
        obtain ⟨hf, hcr⟩ := Option.filter_eq_some_iff.1 ho
        exact hsome _ _ _ rfl h i₃ hf hcr
    · exact hnone _ _ (fun _ h => h) h₁ i₁

/-- `INSERT`: the key of the new row is locked and was free. -/
theorem wp_insertRow {n : String} {push : ρ → Db → Db} {r : ρ}
    {Q : Unit → Protocol.Assertion Db LockKey ω}
    (h : ∀ l' s', l'.held = (l.take (key (Tx.key r))).held → discipline.Frame l.held s s' →
      s'.WellFormed → Table.find (table (p s')) (Tx.key r) = none → Q () l' (push r ∘ p) s') :
    P.wp (insertRow n key table push r) Q l p s := by
  unfold insertRow
  simp only [Protocol.wp_bind, Protocol.wp_acquire, Protocol.wp_view, Protocol.wp_raiseIf,
    Protocol.wp_update]
  intro s₁ hs₁ _ s₂ hs₂ hfree
  refine h _ _ rfl ((frame_of_later hs₁).trans (frame_of_take (frame_of_later hs₂)))
    (wellFormed_of_later hs₂) ?_
  simpa using hfree

/-- `key id` guards row `id` of the table, and the transaction's own writes act on the
rows of the table one by one. -/
structure RowLock (key : Uuid → LockKey) (table : Db → List ρ) (p : Db → Db) : Prop where
  same : ∀ id s s', (key id).Same s s' → Table.find (table s') id = Table.find (table s) id
  local_ : ∀ id s s', Table.find (table s') id = Table.find (table s) id →
    Table.find (table (p s')) id = Table.find (table (p s)) id

theorem RowLock.find_eq (hk : RowLock key table p) {held : LockKey → Prop} {id : Uuid}
    (h : discipline.Frame held s s') (hid : held (key id)) :
    Table.find (table (p s')) id = Table.find (table (p s)) id :=
  hk.local_ id s s' (hk.same id s s' (h.same _ hid))

/-- What is known about the rows a multi-row `FOR UPDATE` has returned so far. `todo`
are the rows of its snapshot it has dealt with. -/
structure Locked (P : Protocol Db LockKey Err α ω) (key : Uuid → LockKey) (table : Db → List ρ)
    (skipLocked : Bool) (cond : ρ → Bool) (todo rows : List ρ) (held : LockKey → Prop) (v : Db) :
    Prop where
  row : ∀ r ∈ rows, held (key (Tx.key r)) ∧ Table.find (table v) (Tx.key r) = some r ∧ cond r = true
  keys : (rows.map Tx.key).Sublist (todo.map Tx.key)
  all : ∀ r ∈ todo, (∃ r' ∈ rows, Tx.key r' = Tx.key r) ∨
    (held (key (Tx.key r)) ∧ (Table.find (table v) (Tx.key r)).filter cond = none) ∨
    (skipLocked = true ∧ ∃ l s, P.refused l (key (Tx.key r)) s)

omit hP in
theorem Locked.stable {skipLocked : Bool} {cond : ρ → Bool} {todo rows : List ρ}
    {held held' : LockKey → Prop} (hk : RowLock key table p) (hf : discipline.Frame held s s')
    (hh : ∀ k, held k → held' k) (h : Locked P key table skipLocked cond todo rows held (p s)) :
    Locked P key table skipLocked cond todo rows held' (p s') where
  row r hr := by
    obtain ⟨hl, hfind, hc⟩ := h.row r hr
    exact ⟨hh _ hl, (hk.find_eq hf hl).trans hfind, hc⟩
  keys := h.keys
  all r hr := by
    rcases h.all r hr with hin | ⟨hl, hnone⟩ | href
    · exact Or.inl hin
    · exact Or.inr (Or.inl ⟨hh _ hl, by rw [hk.find_eq hf hl]; exact hnone⟩)
    · exact Or.inr (Or.inr href)

omit hP in
/-- One more row has been locked and read again. -/
theorem Locked.snoc {skipLocked : Bool} {cond : ρ → Bool} {todo rows : List ρ}
    {held : LockKey → Prop} {v : Db} {r : ρ} (hl : held (key (Tx.key r)))
    (h : Locked P key table skipLocked cond todo rows held v) :
    Locked P key table skipLocked cond (todo ++ [r])
      (rows ++ ((Table.find (table v) (Tx.key r)).filter cond).toList) held v := by
  cases ho : (Table.find (table v) (Tx.key r)).filter cond with
  | none =>
    refine ⟨by simpa using h.row, ?_, fun r' hr' => ?_⟩
    · simpa using h.keys.trans (List.sublist_append_left _ _)
    · rcases List.mem_append.1 hr' with hr' | hr'
      · simpa using h.all r' hr'
      · obtain rfl := List.mem_singleton.1 hr'
        exact Or.inr (Or.inl ⟨hl, ho⟩)
  | some r₁ =>
    obtain ⟨hf, hc⟩ := Option.filter_eq_some_iff.1 ho
    have hkey : Tx.key r₁ = Tx.key r := Table.key_of_find hf
    refine ⟨fun r' hr' => ?_, ?_, fun r' hr' => ?_⟩
    · rcases List.mem_append.1 hr' with hr' | hr'
      · exact h.row r' hr'
      · obtain rfl : r' = r₁ := by simpa using hr'
        exact ⟨hkey ▸ hl, hkey ▸ hf, hc⟩
    · simpa [hkey] using h.keys.append (List.Sublist.refl [Tx.key r])
    · rcases List.mem_append.1 hr' with hr' | hr'
      · rcases h.all r' hr' with ⟨r'', hin, he⟩ | hrest
        · exact Or.inl ⟨r'', List.mem_append_left _ hin, he⟩
        · exact Or.inr hrest
      · obtain rfl := List.mem_singleton.1 hr'
        exact Or.inl ⟨r₁, by simp, hkey⟩

omit hP in
/-- A row that another transaction holds is passed over. -/
theorem Locked.skip {cond : ρ → Bool} {todo rows : List ρ} {held : LockKey → Prop} {v : Db} {r : ρ}
    {l : Stand Db LockKey ω} {s : Db} (hr : P.refused l (key (Tx.key r)) s)
    (h : Locked P key table true cond todo rows held v) :
    Locked P key table true cond (todo ++ [r]) rows held v where
  row := h.row
  keys := by simpa using h.keys.trans (List.sublist_append_left _ _)
  all r' hr' := by
    rcases List.mem_append.1 hr' with hr' | hr'
    · exact h.all r' hr'
    · obtain rfl := List.mem_singleton.1 hr'
      exact Or.inr (Or.inr ⟨rfl, l, s, hr⟩)

/-- A multi-row `FOR UPDATE`. `v` is the snapshot it starts from. -/
theorem wp_lockRows {n : String} {skipLocked : Bool} {cond : Db → ρ → Bool}
    {sort : List ρ → List ρ} (hk : RowLock key table p)
    {Q : List ρ → Protocol.Assertion Db LockKey ω}
    (h : ∀ l' s₀ s' rows, (∀ k, l.held k → l'.held k) → discipline.Frame l.held s s₀ →
      s₀.WellFormed → discipline.Frame l.held s₀ s' → s'.WellFormed →
      Locked P key table skipLocked (cond (p s₀))
        (sort ((table (p s₀)).filter (cond (p s₀)))) rows l'.held (p s') → Q rows l' p s') :
    P.wp (lockRows n skipLocked key table cond sort) Q l p s := by
  unfold lockRows
  rw [Protocol.wp_bind, Protocol.wp_view]
  intro s₀ hs₀
  have h₀ := frame_of_later hs₀
  let M (todo : List ρ) (rows : List ρ) : Protocol.Assertion Db LockKey ω := fun l' q s' =>
    q = p ∧ (∀ k, l.held k → l'.held k) ∧ discipline.Frame l.held s₀ s' ∧ s'.WellFormed ∧
      Locked P key table skipLocked (cond (p s₀)) todo rows l'.held (p s')
  refine Protocol.wp_mono _ (Q := M _) ?_ _ _ _
    (Protocol.wp_foldlM (M := M) ?step _ [] [] _ _ _ ?init)
  · rintro rows l' q s' ⟨rfl, hh, hf, hw, hl⟩
    exact h l' s₀ s' rows hh h₀ (wellFormed_of_later hs₀) hf hw (by simpa using hl)
  case init =>
    exact ⟨rfl, fun _ h => h, Discipline.Frame.refl, wellFormed_of_later hs₀, by simp, by simp,
      by simp⟩
  case step =>
    rintro todo r rows l' q s₁ ⟨rfl, hh, hf, hw, hl⟩
    unfold lockRow
    cases skipLocked with
    | false =>
      simp only [Bool.false_eq_true, if_false, Protocol.wp_bind, Protocol.wp_acquire,
        Protocol.wp_pure, if_true]
      intro s₂ hs₂ _
      refine wp_getRow fun s₃ h₃ i₃ => ?_
      have h₁₃ := (frame_of_later hs₂).trans (frame_of_take h₃)
      refine ⟨rfl, fun k hk => Or.inr (hh k hk), hf.trans (h₁₃.mono hh), i₃, ?_⟩
      exact Locked.snoc (held_take _) (hl.stable hk h₁₃ fun _ => Or.inr)
    | true =>
      simp only [reduceIte, Protocol.wp_bind, Protocol.wp_tryAcquire]
      intro s₂ hs₂
      have h₁₂ := frame_of_later hs₂
      refine ⟨fun _ => ?_, fun hr => ?_⟩
      · refine wp_getRow fun s₃ h₃ i₃ => ?_
        have h₁₃ := h₁₂.trans (frame_of_take h₃)
        refine ⟨rfl, fun k hk => Or.inr (hh k hk), hf.trans (h₁₃.mono hh), i₃, ?_⟩
        exact Locked.snoc (held_take _) (hl.stable hk h₁₃ fun _ => Or.inr)
      · simp only [Bool.false_eq_true, if_false, Protocol.wp_pure]
        exact ⟨rfl, hh, hf.trans (h₁₂.mono hh), wellFormed_of_later hs₂,
          (hl.stable hk h₁₂ fun _ h => h).skip hr⟩

end Rules

/-! ## Statements with no other transaction about -/

section Alone

variable {ρ : Type} [Keyed ρ Uuid] {n : String} {key : Uuid → LockKey} {table : Db → List ρ}
variable {cond : ρ → Bool} {id : Uuid} {o : Option ρ} {s s' : Db}

@[simp] theorem runs_getRow :
    (getRow n table id).Runs s o s' ↔ o = Table.find (table s) id ∧ s' = s := by
  simp [getRow, and_comm]

@[simp] theorem runs_selectForUpdate : (selectForUpdate n key table cond id).Runs s o s' ↔
    o = (Table.find (table s) id).filter cond ∧ s' = s := by
  unfold selectForUpdate
  simp only [Prog.runs_bind, runs_getRow, and_assoc]
  cases hr : Table.find (table s) id with
  | none => simp
  | some r => cases hc : cond r <;> simp [hr, hc, Prog.runs_bind, Option.filter, and_comm]

end Alone

end OmniDB
