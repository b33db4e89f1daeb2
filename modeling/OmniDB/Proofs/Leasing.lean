import OmniDB.Proofs.WorkSpecs

/-! Leasing: what one commit of `lease_next` does. The two loops are handled once, by
induction on their fuel; every round either closes a suppressed row, passes over the
candidate or ends the search. -/

namespace OmniDB.Work

open Tx
open Protocol (wp_bind wp_view wp_update wp_acquire wp_tryAcquire wp_raiseIf wp_expect wp_pure)

variable {α β ω : Type} {P : Protocol Db LockKey Err α ω} [hP : Disciplined P]
variable {l : Stand Db LockKey ω} {p : Db → Db} {s : Db}

/-! ## Reading the links of a row -/

/-- The campaign contact and the contact of a work item, read one after the other. -/
theorem wp_links {Δ : WorkItem → WorkItem → Prop} {new : List CallAttempt} {dnc : List SuppressionEntry}
    {w : WorkItem} {e₁ e₂ : Err} {f : CampaignContact → Contact → Txn β}
    {Q : β → Protocol.Assertion Db LockKey ω} (hp : Pending Δ new dnc l p s)
    (h : ∀ l' s' cc k, l'.held = l.held → discipline.Frame l.held s s' → s'.WellFormed →
      cc.id = w.campaignContactId → s'.phoneOf w = some k.phoneFingerprint →
      s'.campaignOf w = some cc.campaignId → P.wp (f cc k) Q l' p s') :
    P.wp (do
      let cc ← Prog.expect (← getRow "campaign_contact" Db.campaignContacts w.campaignContactId) e₁
      let k ← Prog.expect (← getRow "contact" Db.contacts cc.contactId) e₂
      f cc k) Q l p s := by
  rw [wp_bind]
  refine wp_getRow fun s₁ h₁ i₁ => ?_
  rw [wp_bind, wp_expect]
  intro cc hcc
  rw [wp_bind]
  refine wp_getRow fun s₂ h₂ i₂ => ?_
  rw [wp_bind, wp_expect]
  intro k hk
  have hf : discipline.Frame l.held s s₂ := Discipline.Frame.trans h₁ h₂
  -- the same rows in the committed state
  obtain ⟨cc₁, hcc₁, hcamp, hct, -⟩ := ((hp.stable h₁ fun _ h => h).now i₁).campaignContact_back hcc
  obtain ⟨cc₂, hcc₂, hcamp', hct'⟩ := h₂.grows.campaignContact _ _ hcc₁
  have hk₂ : Table.find s₂.contacts cc.contactId = some k := by
    rwa [← ((hp.stable hf fun _ h => h).now i₂).contacts]
  refine h _ s₂ cc k rfl hf i₂ (Table.key_of_find hcc) (Db.phoneOf_eq hcc₂ ?_) ?_
  · unfold Db.contact
    rwa [hct', ← hct]
  · rw [Db.campaignOf, show s₂.campaignContact w = some cc₂ from hcc₂, Option.map_some, hcamp', ← hcamp]

/-! ## Searching -/

/-- A point of the search: rows were closed at most, and assignments left alone. -/
structure Search (Δ : WorkItem → WorkItem → Prop) (l : Stand Db LockKey ω) (p : Db → Db) (s : Db) :
    Prop where
  pending : Pending Δ [] [] l p s
  wellFormed : s.WellFormed
  assignments : ∀ v, (p v).userAssignments = v.userAssignments

/-- A part of the search. -/
structure Searching (Δ : WorkItem → WorkItem → Prop) (l : Stand Db LockKey ω) (s : Db)
    (l' : Stand Db LockKey ω) (p' : Db → Db) (s' : Db) : Prop where
  held : ∀ j, l.held j → l'.held j
  frame : discipline.Frame l.held s s'
  here : Search Δ l' p' s'

/-- The search may go on, and what it found satisfies `R`. -/
def Finds {γ : Type} (Δ : WorkItem → WorkItem → Prop) (R : γ → Protocol.Assertion Db LockKey ω)
    (l : Stand Db LockKey ω) (s : Db) (o : Option γ) : Protocol.Assertion Db LockKey ω :=
  fun l' p' s' => Searching Δ l s l' p' s' ∧ ∀ x, o = some x → R x l' p' s'

section Search

variable {γ : Type} {Δ : WorkItem → WorkItem → Prop} {R : γ → Protocol.Assertion Db LockKey ω}
variable {l₁ l₂ : Stand Db LockKey ω} {p₁ p₂ : Db → Db} {s₁ s₂ : Db}

omit hP in
theorem Search.stable (h : Search Δ l p s) (hf : discipline.Frame l.held s s₁) (hi : s₁.WellFormed)
    (hh : ∀ j, l.held j → l₁.held j) : Search Δ l₁ p s₁ :=
  ⟨h.pending.stable hf hh, hi, h.assignments⟩

omit hP in
theorem Search.searching (h : Search Δ l p s) (hf : discipline.Frame l.held s s₁) (hi : s₁.WellFormed)
    (hh : ∀ j, l.held j → l₁.held j) : Searching Δ l s l₁ p s₁ :=
  ⟨hh, hf, h.stable hf hi hh⟩

omit hP in
theorem Searching.refl (h : Search Δ l p s) : Searching Δ l s l p s :=
  ⟨fun _ h => h, Discipline.Frame.refl, h⟩

omit hP in
theorem Searching.trans (h : Searching Δ l s l₁ p₁ s₁) (h' : Searching Δ l₁ s₁ l₂ p₂ s₂) :
    Searching Δ l s l₂ p₂ s₂ :=
  ⟨fun j hj => h'.held j (h.held j hj), h.frame.trans (h'.frame.mono h.held), h'.here⟩

omit hP in
theorem Finds.after (h : Searching Δ l s l₁ p₁ s₁) {o : Option γ} (h' : Finds Δ R l₁ s₁ o l₂ p₂ s₂) :
    Finds Δ R l s o l₂ p₂ s₂ :=
  ⟨h.trans h'.1, h'.2⟩

omit hP in
theorem Finds.none (h : Searching Δ l s l₁ p₁ s₁) : Finds Δ R l s none l₁ p₁ s₁ := ⟨h, nofun⟩

omit hP in
/-- The loop: rounds that find nothing can be repeated. -/
theorem wp_leaseLoop {C : LeaseCandidate → Protocol.Assertion Db LockKey ω}
    {candidates : List Uuid → Txn (Option LeaseCandidate)}
    {attempt : List Uuid → LeaseCandidate → Txn (Option γ)}
    {l₀ : Stand Db LockKey ω} {s₀ : Db}
    (hcand : ∀ skipped l p s, Searching Δ l₀ s₀ l p s →
      P.wp (candidates skipped) (Finds Δ C l s) l p s)
    (hatt : ∀ skipped candidate l p s, Searching Δ l₀ s₀ l p s → C candidate l p s →
      P.wp (attempt skipped candidate) (Finds Δ R l s) l p s)
    (fuel : ℕ) (skipped : List Uuid) (hs : Searching Δ l₀ s₀ l p s) :
    P.wp (leaseLoop candidates attempt fuel skipped) (Finds Δ R l s) l p s := by
  induction fuel generalizing skipped l p s with
  | zero => exact trivial
  | succ fuel ih =>
    rw [leaseLoop, wp_bind]
    refine Protocol.wp_mono _ ?_ _ _ _ (hcand skipped l p s hs)
    rintro (_ | candidate) l₁ p₁ s₁ ⟨h₁, hc⟩
    · exact Finds.none h₁
    dsimp only
    rw [wp_bind]
    refine Protocol.wp_mono _ ?_ _ _ _
      (hatt skipped candidate l₁ p₁ s₁ (hs.trans h₁) (hc candidate rfl))
    rintro (_ | x) l₂ p₂ s₂ ⟨h₂, hr⟩
    · refine Protocol.wp_mono _ (fun o l' p' s' => Finds.after (h₁.trans h₂)) _ _ _
        (ih (candidate.workItemId :: skipped) (hs.trans (h₁.trans h₂)))
    · exact ⟨h₁.trans h₂, hr⟩

end Search

/-- The candidate names a work item, its phone and its campaign. -/
def IsCandidate (candidate : LeaseCandidate) (s : Db) : Prop :=
  ∃ w, Table.find s.workItems candidate.workItemId = some w ∧
    s.phoneOf w = some candidate.phoneFingerprint ∧ s.campaignOf w = some candidate.campaignId

omit hP in
theorem IsCandidate.later {candidate : LeaseCandidate} {s' : Db} (h : IsCandidate candidate s) (hg : s.Grows s') :
    IsCandidate candidate s' := by
  obtain ⟨w, hw, hphone, hcamp⟩ := h
  obtain ⟨w', hw', hlink, -⟩ := hg.workItem _ _ hw
  exact ⟨w', hw', hg.phoneOf hlink hphone, hg.campaignOf hlink hcamp⟩

theorem firstCandidate_some {δ : Type} [LinearOrder δ] {db : Db} {order : WorkItem → δ}
    {eligible : WorkItem → CampaignContact → Contact → Bool} {candidate : LeaseCandidate}
    (h : firstCandidate db order eligible = some candidate) :
    ∃ w cc k, w ∈ db.workItems ∧ db.campaignContact w = some cc ∧ db.contact cc = some k ∧
      eligible w cc k = true ∧ candidate = ⟨w.id, k.phoneFingerprint, cc.campaignId⟩ := by
  obtain ⟨w, hw, h⟩ := Option.bind_eq_some_iff.1 h
  obtain ⟨cc, hcc, h⟩ := Option.bind_eq_some_iff.1 h
  obtain ⟨k, hk, h⟩ := Option.bind_eq_some_iff.1 h
  obtain ⟨hmem, he⟩ := List.mem_filter.1 (List.argmin_mem hw)
  refine ⟨w, cc, k, hmem, hcc, hk, ?_, (Option.some.inj h).symm⟩
  simpa [hcc, hk] using he

omit hP in
theorem IsCandidate.of_first {δ : Type} [LinearOrder δ] {order : WorkItem → δ}
    {eligible : WorkItem → CampaignContact → Contact → Bool} {candidate : LeaseCandidate} (hi : s.WellFormed)
    (h : firstCandidate s order eligible = some candidate) : IsCandidate candidate s := by
  obtain ⟨w, cc, k, hw, hcc, hk, -, rfl⟩ := firstCandidate_some h
  refine ⟨w, hi.workItems.find_of_mem hw, Db.phoneOf_eq hcc hk, ?_⟩
  rw [Db.campaignOf, hcc, Option.map_some]

/-- A statement that looks for a candidate whose campaign satisfies `G`. -/
theorem wp_candidate {Δ : WorkItem → WorkItem → Prop} {δ : Type} [LinearOrder δ] {n : String}
    {order : WorkItem → δ} {eligible : Db → WorkItem → CampaignContact → Contact → Bool}
    {G : Uuid → Prop} (hG : ∀ db w cc k, eligible db w cc k = true → G cc.campaignId)
    (hs : Search Δ l p s) :
    P.wp (do let db ← Prog.view n; return firstCandidate db order (eligible db))
      (Finds Δ (fun x _ _ s' => IsCandidate x s' ∧ G x.campaignId) l s) l p s := by
  rw [wp_bind, wp_view]
  intro s' hs'
  have hf := frame_of_later hs'
  have i' := wellFormed_of_later hs'
  refine ⟨hs.searching hf i' fun _ h => h, fun x hx => ?_⟩
  obtain ⟨w, cc, k, hw, hcc, hk, he, rfl⟩ := firstCandidate_some hx
  have heff := (hs.pending.stable hf fun _ h => h).now i'
  have hfind := (heff.wellFormed i').workItems.find_of_mem hw
  obtain ⟨w₀, hw₀, hc, -⟩ := heff.workItem_back hfind
  refine ⟨⟨w₀, hw₀, ?_, ?_⟩, hG _ w cc k he⟩
  · rw [← heff.phoneOf i' hw₀ hc, Db.phoneOf_eq hcc hk]
  · rw [← heff.campaignOf i' hw₀ hc, Db.campaignOf, hcc, Option.map_some]

/-! ## Locking a candidate -/

/-- A work item suppressed since it was queued, closed by the search. -/
def ClosesAtLease (now : Time) (w w' : WorkItem) : Prop :=
  w.state ≠ .leased ∧ w' = suppressedAtLease now w

/-- A candidate that is locked with its phone and may be leased. -/
structure Ready (agent : Uuid) (now : Time) (src : Source) (w : WorkItem) (cc : CampaignContact)
    (k : Contact) (l : Stand Db LockKey ω) (p : Db → Db) (s : Db) : Prop where
  locked : l.held (.workItem w.id)
  row : Table.find (p s).workItems w.id = some w
  condition : src.conditions agent now w = true
  phone : l.held (.phone k.phoneFingerprint)
  phoneOf : s.phoneOf w = some k.phoneFingerprint
  campaignOf : s.campaignOf w = some cc.campaignId
  clear : s.suppressed k.phoneFingerprint = false
  active : (Table.find s.campaigns cc.campaignId).map Campaign.status = some .active

omit hP in
theorem Ready.stable {agent : Uuid} {now : Time} {src : Source} {w : WorkItem} {cc : CampaignContact}
    {k : Contact} {l' : Stand Db LockKey ω} {s' : Db} {Δ : WorkItem → WorkItem → Prop}
    (h : Ready agent now src w cc k l p s) (hp : Pending Δ [] [] l p s)
    (hf : discipline.Frame l.held s s') (hh : ∀ j, l.held j → l'.held j) :
    Ready agent now src w cc k l' p s' where
  locked := hh _ h.locked
  row := (hp.find hf h.locked).trans h.row
  condition := h.condition
  phone := hh _ h.phone
  phoneOf := hf.grows.phoneOf rfl h.phoneOf
  campaignOf := hf.grows.campaignOf rfl h.campaignOf
  clear := (hf.same _ h.phone).suppressed.trans h.clear
  active := by rw [hf.grows.campaigns]; exact h.active

theorem open_of_conditions {src : Source} {agent : Uuid} {now : Time} {w : WorkItem}
    (h : src.conditions agent now w = true) : w.state.terminal = false := by
  cases src with
  | callback =>
    simp only [Source.conditions, Bool.and_eq_true, decide_eq_true_eq] at h
    exact open_of_state h.1.1 rfl
  | dueRetry =>
    simp only [Source.conditions, Bool.and_eq_true, decide_eq_true_eq] at h
    exact open_of_state h.1 rfl
  | queue =>
    simp only [Source.conditions, decide_eq_true_eq] at h
    exact open_of_state h rfl

theorem not_leased_of_conditions {src : Source} {agent : Uuid} {now : Time} {w : WorkItem}
    (h : src.conditions agent now w = true) : w.state ≠ .leased := by
  intro hl
  cases src <;> simp [Source.conditions, hl] at h

omit hP in
theorem Pending.suppressed_eq {Δ : WorkItem → WorkItem → Prop} {new : List CallAttempt}
    (h : Pending Δ new [] l p s) (hi : s.WellFormed) (f : Fingerprint) :
    (p s).suppressed f = s.suppressed f := by
  rw [(h.now hi).suppressed_eq, List.any_nil, Bool.or_false]

/-- The row of a candidate, locked with the candidate's phone. -/
structure Picked (candidate : LeaseCandidate) (agent : Uuid) (now : Time) (src : Source) (w : WorkItem)
    (l : Stand Db LockKey ω) (p : Db → Db) (s : Db) : Prop where
  search : Search (ClosesAtLease now) l p s
  locked : l.held (.workItem w.id)
  row : Table.find (p s).workItems w.id = some w
  condition : src.conditions agent now w = true
  phone : l.held (.phone candidate.phoneFingerprint)
  phoneOf : s.phoneOf w = some candidate.phoneFingerprint
  campaignOf : s.campaignOf w = some candidate.campaignId

section Candidate

variable {candidate : LeaseCandidate} {agent : Uuid} {now : Time} {src : Source} {w : WorkItem}
variable {cc : CampaignContact} {k : Contact}

omit hP in
theorem Picked.stable {l' : Stand Db LockKey ω} {s' : Db} (h : Picked candidate agent now src w l p s)
    (hf : discipline.Frame l.held s s') (hi : s'.WellFormed) (hh : ∀ j, l.held j → l'.held j) :
    Picked candidate agent now src w l' p s' where
  search := h.search.stable hf hi hh
  locked := hh _ h.locked
  row := (h.search.pending.find hf h.locked).trans h.row
  condition := h.condition
  phone := hh _ h.phone
  phoneOf := hf.grows.phoneOf rfl h.phoneOf
  campaignOf := hf.grows.campaignOf rfl h.campaignOf

omit hP in
/-- The locked row names the phone and the campaign that the candidate was found with. -/
theorem IsCandidate.picked (hc : IsCandidate candidate s) (hs : Search (ClosesAtLease now) l p s)
    (hw : Table.find (p s).workItems candidate.workItemId = some w)
    (hcond : src.conditions agent now w = true) (hl : l.held (.workItem candidate.workItemId))
    (hphone : l.held (.phone candidate.phoneFingerprint)) : Picked candidate agent now src w l p s := by
  have hid : w.id = candidate.workItemId := Table.key_of_find hw
  obtain ⟨w₀, hw₀, hphone₀, hcamp₀⟩ := hc
  obtain ⟨w₁, hw₁, hlink, -⟩ := (hs.pending.now hs.wellFormed).workItem_back hw
  obtain rfl : w₀ = w₁ := Option.some.inj (hw₀.symm.trans hw₁)
  exact {
    search := hs
    locked := hid ▸ hl
    row := hid ▸ hw
    condition := hcond
    phone := hphone
    phoneOf := (Db.Grows.refl s).phoneOf hlink hphone₀
    campaignOf := (Db.Grows.refl s).campaignOf hlink hcamp₀ }

/-- The row of a suppressed phone is closed with its campaign contact, and nothing is found. -/
theorem wp_closeCandidate {γ : Type} {R : γ → Protocol.Assertion Db LockKey ω}
    (h : Picked candidate agent now src w l p s) (hcc : cc.id = w.campaignContactId) :
    P.wp (do
      setWorkItem w.id (suppressedAtLease now)
      setCampaignContact cc.id (stamp .suppressed now "explicit_dnc")
      return none) (Finds (ClosesAtLease now) R l s) l p s := by
  simp only [wp_bind, wp_setWorkItem]
  refine wp_setCampaignContact fun l₁ s₁ hl₁ h₁ i₁ => ?_
  rw [hcc] at hl₁ ⊢
  have hh₁ : ∀ j, l.held j → l₁.held j := fun j hj => hl₁ ▸ Or.inr hj
  have h' : Picked candidate agent now src w l₁ p s₁ := h.stable h₁ i₁ hh₁
  have hopen := open_of_conditions h.condition
  refine Finds.none { h.search.searching h₁ i₁ hh₁ with here := ⟨?_, i₁, h.search.assignments⟩ }
  refine h'.search.pending.close (suppressedAtLease now) (stamp .suppressed now "explicit_dnc")
    h'.locked h'.row (hl₁ ▸ held_take _) (fun _ h => h) rfl hopen rfl (stamped_stamp _ _ (Or.inr rfl))
    (fun _ _ h => h) ⟨not_leased_of_conditions h.condition, rfl⟩ ?_
  rintro v ⟨-, rfl⟩
  cases hopen

/-- In an active campaign the phone is checked once more: it is clear, or the row is closed. -/
theorem wp_checkCandidate (h : Picked candidate agent now src w l p s) (hcc : cc.id = w.campaignContactId)
    (hk : k.phoneFingerprint = candidate.phoneFingerprint) (hcamp : cc.campaignId = candidate.campaignId)
    (hactive : (Table.find s.campaigns cc.campaignId).map Campaign.status = some .active) :
    P.wp (do
      if ← activeSuppressionExists k.phoneFingerprint then
        setWorkItem w.id (suppressedAtLease now)
        setCampaignContact cc.id (stamp .suppressed now "explicit_dnc")
        return none
      else return some (w, cc, k))
      (Finds (ClosesAtLease now) (fun x l' p' s' => Ready agent now src x.1 x.2.1 x.2.2 l' p' s' ∧
        x.2.1.campaignId = candidate.campaignId) l s) l p s := by
  unfold activeSuppressionExists
  simp only [wp_bind, wp_view, wp_pure]
  intro s₁ hs₁
  have h₁ := frame_of_later hs₁
  have i₁ := wellFormed_of_later hs₁
  have h' : Picked candidate agent now src w (l.saw "_active_suppression_exists" (p s₁)) p s₁ :=
    h.stable h₁ i₁ fun _ h => h
  have hs : Searching (ClosesAtLease now) l s (l.saw "_active_suppression_exists" (p s₁)) p s₁ :=
    h.search.searching h₁ i₁ fun _ h => h
  rw [Pending.suppressed_eq h'.search.pending i₁]
  split_ifs with hsup
  · exact Protocol.wp_mono _ (fun _ _ _ _ => Finds.after hs) _ _ _ (wp_closeCandidate h' hcc)
  refine ⟨hs, ?_⟩
  rintro _ ⟨⟩
  exact ⟨{
    locked := h'.locked
    row := h'.row
    condition := h'.condition
    phone := hk ▸ h'.phone
    phoneOf := hk ▸ h'.phoneOf
    campaignOf := hcamp ▸ h'.campaignOf
    clear := by simpa using hsup
    active := by rwa [h₁.grows.campaigns] }, hcamp⟩

theorem wp_lockLeaseCandidate (hs : Search (ClosesAtLease now) l p s) (hc : IsCandidate candidate s) :
    P.wp (lockLeaseCandidate candidate agent now src)
      (Finds (ClosesAtLease now) (fun x l' p' s' => Ready agent now src x.1 x.2.1 x.2.2 l' p' s' ∧
        x.2.1.campaignId = candidate.campaignId) l s) l p s := by
  unfold lockLeaseCandidate
  rw [wp_bind, wp_tryAcquire]
  intro s₁ hs₁
  have h₁ := frame_of_later hs₁
  have i₁ := wellFormed_of_later hs₁
  refine ⟨fun _ => ?_, fun _ => Finds.none (hs.searching h₁ i₁ fun _ h => h)⟩
  have hphone : Searching (ClosesAtLease now) l s (l.take (.phone candidate.phoneFingerprint)) p s₁ :=
    hs.searching h₁ i₁ fun _ => Or.inr
  simp only [if_true]
  rw [wp_bind]
  refine wp_selectSkipLocked (fun l₂ s₂ hh₂ h₂ i₂ => ?_) fun l₂ s₂ w hl₂ h₂ i₂ hw hcond => ?_
  · exact Finds.none (hphone.trans (hphone.here.searching h₂ i₂ hh₂))
  have hh₂ : ∀ j, (l.take (.phone candidate.phoneFingerprint)).held j → l₂.held j :=
    fun j hj => hl₂ ▸ Or.inr hj
  have hrow := hphone.trans (hphone.here.searching h₂ i₂ hh₂)
  have hpicked : Picked candidate agent now src w l₂ p s₂ := (hc.later hrow.frame.grows).picked hrow.here hw
    hcond (hl₂ ▸ held_take _) (hh₂ _ (held_take _))
  refine Protocol.wp_mono _ (fun _ _ _ _ => Finds.after hrow) _ _ _ ?_
  refine wp_links hpicked.search.pending fun l₃ s₃ cc k hl₃ h₃ i₃ hcc hphoneOf hcampaignOf => ?_
  rw [wp_bind]
  refine wp_getRow fun s₄ h₄ i₄ => ?_
  have hh₃ : ∀ j, l₂.held j → l₃.held j := fun j hj => hl₃ ▸ hj
  have h₂₄ : discipline.Frame l₂.held s₂ s₄ := Discipline.Frame.trans h₃ (hl₃ ▸ h₄)
  have hlinks : Searching (ClosesAtLease now) l₂ s₂ (l₃.saw "campaign" (p s₄)) p s₄ :=
    hpicked.search.searching h₂₄ i₄ hh₃
  have hk : k.phoneFingerprint = candidate.phoneFingerprint :=
    Option.some.inj (hphoneOf.symm.trans (h₃.grows.phoneOf rfl hpicked.phoneOf))
  have hcamp : cc.campaignId = candidate.campaignId :=
    Option.some.inj (hcampaignOf.symm.trans (h₃.grows.campaignOf rfl hpicked.campaignOf))
  split_ifs with hactive
  · rw [(hlinks.here.pending.now i₄).campaigns] at hactive
    exact Protocol.wp_mono _ (fun _ _ _ _ => Finds.after hlinks) _ _ _
      (wp_checkCandidate (hpicked.stable h₂₄ i₄ hh₃) hcc hk hcamp hactive)
  · rw [wp_pure]
    exact Finds.none hlinks

end Candidate

/-! ## The assignment a lease is handed out under -/

/-- The locked row of an agent assignment of the agent. -/
structure Assigned (c : Call) (agent : Uuid) (a : CampaignUserAssignment) (l : Stand Db LockKey ω) (s : Db) :
    Prop where
  locked : l.held (.userAssignment a.id)
  row : Table.find s.userAssignments a.id = some a
  agent : ∃ n, agentAssignment agent (c.utcnow n) a = true

omit hP in
theorem Assigned.stable {c : Call} {agent : Uuid} {a : CampaignUserAssignment} {l' : Stand Db LockKey ω} {s' : Db}
    (h : Assigned c agent a l s) (hf : discipline.Frame l.held s s') (hh : ∀ j, l.held j → l'.held j) :
    Assigned c agent a l' s' :=
  ⟨hh _ h.locked, Eq.trans (hf.same _ h.locked) h.row, h.agent⟩

theorem rowLock_userAssignment (h : RowWise p) : RowLock .userAssignment Db.userAssignments p :=
  ⟨fun _ _ _ h => h, h.userAssignment⟩

theorem wp_assignment {Δ : WorkItem → WorkItem → Prop} {n : String} {c : Call} {agent : Uuid} {i : ℕ}
    {G : CampaignUserAssignment → Bool} {sort : List CampaignUserAssignment → List CampaignUserAssignment}
    (hs : Search Δ l p s) :
    P.wp (do
        let rows ← lockRows n false .userAssignment Db.userAssignments
          (fun _ a => agentAssignment agent (c.utcnow i) a && G a) sort
        return rows.head?)
      (Finds Δ (fun a l' _ s' => Assigned c agent a l' s' ∧ G a = true) l s) l p s := by
  rw [wp_bind]
  refine wp_lockRows (rowLock_userAssignment hs.pending.rowWise) fun l' s₀ s' rows hh h₀ _ h₁ i₁ hlock => ?_
  refine ⟨hs.searching (h₀.trans h₁) i₁ hh, fun a ha => ?_⟩
  obtain ⟨hl, hrow, hc⟩ := hlock.row a (List.mem_of_mem_head? ha)
  rw [hs.assignments] at hrow
  rw [Bool.and_eq_true] at hc
  exact ⟨⟨hl, hrow, i, hc.1⟩, hc.2⟩

/-! ## The candidate search -/

/-- A chosen item, locked with its phone and its assignment. -/
structure Chosen.Ready (c : Call) (agent : Uuid) (now : Time) (x : Chosen) (l : Stand Db LockKey ω) (p : Db → Db)
    (s : Db) : Prop where
  item : Work.Ready agent now x.source x.workItem x.campaignContact x.contact l p s
  assigned : Assigned c agent x.assignment l s
  campaign : x.assignment.campaignId = x.campaignContact.campaignId

theorem wp_tryShared {c : Call} {agent : Uuid} {now : Time} {a : CampaignUserAssignment} {src : Source}
    {skipped : List Uuid} {candidate : LeaseCandidate} (hs : Search (ClosesAtLease now) l p s)
    (hc : IsCandidate candidate s) (ha : Assigned c agent a l s)
    (hcamp : candidate.campaignId = a.campaignId) :
    P.wp (tryShared agent now a src skipped candidate)
      (Finds (ClosesAtLease now) (Chosen.Ready c agent now) l s) l p s := by
  unfold tryShared
  rw [wp_bind]
  refine Protocol.wp_mono _ ?_ _ _ _ (wp_lockLeaseCandidate hs hc)
  rintro (_ | ⟨w, cc, k⟩) l' p' s' ⟨h, hr⟩
  · exact Finds.none h
  refine ⟨h, ?_⟩
  rintro _ ⟨⟩
  obtain ⟨hready, hcc⟩ := hr _ rfl
  exact ⟨hready, ha.stable h.frame h.held, (hcc.trans hcamp).symm⟩

theorem wp_tryCallback {c : Call} {agent : Uuid} {now : Time} {skipped : List Uuid}
    {candidate : LeaseCandidate} (hs : Search (ClosesAtLease now) l p s)
    (hc : IsCandidate candidate s) :
    P.wp (tryCallback c agent now skipped candidate)
      (Finds (ClosesAtLease now) (Chosen.Ready c agent now) l s) l p s := by
  unfold tryCallback activeAssignmentForCampaign
  rw [wp_bind]
  refine Protocol.wp_mono _ ?_ _ _ _ (wp_assignment hs)
  rintro (_ | a) l₁ p₁ s₁ ⟨h₁, ha⟩
  · exact Finds.none h₁
  obtain ⟨ha, hcamp⟩ := ha a rfl
  dsimp only
  rw [wp_bind]
  refine Protocol.wp_mono _ ?_ _ _ _ (wp_lockLeaseCandidate h₁.here (hc.later h₁.frame.grows))
  rintro (_ | ⟨w, cc, k⟩) l₂ p₂ s₂ ⟨h₂, hr⟩
  · exact Finds.none (h₁.trans h₂)
  refine ⟨h₁.trans h₂, ?_⟩
  rintro _ ⟨⟩
  obtain ⟨hready, hcc⟩ := hr _ rfl
  exact ⟨hready, ha.stable h₂.frame h₂.held, (of_decide_eq_true hcamp).trans hcc.symm⟩

/-- The retry loop and the queue loop. -/
theorem wp_sharedLoop {c : Call} {agent : Uuid} {now : Time} {a : CampaignUserAssignment} {src : Source} {fuel : ℕ}
    {candidates : List Uuid → Txn (Option LeaseCandidate)} (hs : Search (ClosesAtLease now) l p s)
    (ha : Assigned c agent a l s)
    (hcand : ∀ skipped l p s, Search (ClosesAtLease now) l p s → P.wp (candidates skipped)
      (Finds (ClosesAtLease now) (fun x _ _ s' => IsCandidate x s' ∧ x.campaignId = a.campaignId) l s)
      l p s) :
    P.wp (leaseLoop candidates (tryShared agent now a src) fuel [])
      (Finds (ClosesAtLease now) (Chosen.Ready c agent now) l s) l p s :=
  wp_leaseLoop (fun skipped l p s h => hcand skipped l p s h.here)
    (fun _ _ _ _ _ h hc => wp_tryShared h.here hc.1 (ha.stable h.frame h.held) hc.2) fuel []
    (Searching.refl hs)

theorem wp_chooseWorkItem {c : Call} {agent : Uuid} {now : Time} {fuel : ℕ}
    (hs : Search (ClosesAtLease now) l p s) :
    P.wp (chooseWorkItem c agent now fuel)
      (Finds (ClosesAtLease now) (Chosen.Ready c agent now) l s) l p s := by
  unfold chooseWorkItem
  rw [wp_bind]
  refine Protocol.wp_mono _ ?_ _ _ _ (wp_leaseLoop (C := fun x _ _ s' => IsCandidate x s' ∧ True)
    (fun skipped l p s hs => wp_candidate (G := fun _ => True) (fun _ _ _ _ _ => trivial) hs.here)
    (fun skipped x l p s hs hc => wp_tryCallback hs.here hc.1) fuel [] (Searching.refl hs))
  rintro (_ | x) l₁ p₁ s₁ ⟨h₁, hr⟩
  rotate_left
  · exact ⟨h₁, hr⟩
  dsimp only
  unfold activePrimaryAssignment
  rw [wp_bind]
  refine Protocol.wp_mono _ ?_ _ _ _ (wp_assignment h₁.here)
  rintro (_ | a) l₂ p₂ s₂ ⟨h₂, ha⟩
  · exact Finds.none (h₁.trans h₂)
  have ha := (ha a rfl).1
  dsimp only
  rw [wp_bind]
  refine wp_getRow fun s₃ h₃ i₃ => ?_
  have h₂₃ : Searching (ClosesAtLease now) l s (l₂.saw "campaign" (p₂ s₃)) p₂ s₃ :=
    (h₁.trans h₂).trans (h₂.here.searching h₃ i₃ fun _ h => h)
  cases hcampaign : Table.find (p₂ s₃).campaigns a.campaignId with
  | none => exact Finds.none h₂₃
  | some campaign =>
    have hid : campaign.id = a.campaignId := Table.key_of_find hcampaign
    have ha₃ : Assigned c agent a (l₂.saw "campaign" (p₂ s₃)) s₃ := ha.stable h₃ fun _ h => h
    dsimp only
    split_ifs with hactive
    rotate_left
    · exact Finds.none h₂₃
    rw [wp_bind]
    refine Protocol.wp_mono _ ?_ _ _ _ (wp_sharedLoop h₂₃.here ha₃ fun skipped l p s hs =>
      wp_candidate (G := fun i => i = a.campaignId) (fun db w cc k he => ?_) hs)
    · rintro (_ | x) l₄ p₄ s₄ ⟨h₄, hr⟩
      · refine Protocol.wp_mono _ (fun o l' p' s' => Finds.after (h₂₃.trans h₄)) _ _ _
          (wp_sharedLoop h₄.here (ha₃.stable h₄.frame h₄.held) fun skipped l p s hs =>
            wp_candidate (G := fun i => i = a.campaignId) (fun db w cc k he => ?_) hs)
        simp only [Bool.and_eq_true, decide_eq_true_eq] at he
        exact he.1.1.1.trans hid
      · exact ⟨h₂₃.trans h₄, hr⟩
    · simp only [Bool.and_eq_true, decide_eq_true_eq] at he
      exact he.1.1.1.1.trans hid

/-! ## The whole operation -/

/-- The lease the agent already has, live and on a clear phone of an active campaign. -/
structure Resumes (c : Call) (agent : Uuid) (lease : LeaseResult) (x : Db) (w : WorkItem)
    (f : Fingerprint) : Prop where
  row : Table.find x.workItems lease.workItemId = some w
  live : activeLease agent (c.utcnow 0) w = true
  leaseId : w.leaseId = some lease.leaseId
  phone : x.phoneOf w = some f
  clear : x.suppressed f = false
  active : x.ActiveCampaign w

/-- The lease that a commit hands out: one row, under a locked assignment, on a clear phone. -/
structure HandsOut (c : Call) (agent : Uuid) (lease : LeaseResult) (held : LockKey → Prop) (x x' : Db)
    (w : WorkItem) (src : Source) (a : CampaignUserAssignment) (f : Fingerprint) : Prop where
  effect : WorkEffect held (fun v v' => ClosesAtLease (c.utcnow 0) v v' ∨
    (v = w ∧ v' = leaseTo c agent src a.id w)) [] [] x x'
  row : Table.find x.workItems lease.workItemId = some w
  leased : Table.find x'.workItems lease.workItemId = some (leaseTo c agent src a.id w)
  leaseId : lease.leaseId = c.uuid4 0
  condition : src.conditions agent (c.utcnow 0) w = true
  phone : x.phoneOf w = some f
  clear : x.suppressed f = false
  campaign : x.campaignOf w = some a.campaignId
  active : x.ActiveCampaign w
  assignments : x'.userAssignments = x.userAssignments
  assigned : held (.userAssignment a.id) ∧ Table.find x.userAssignments a.id = some a ∧
    ∃ n, agentAssignment agent (c.utcnow n) a = true

/-- `lease_next` resumes a lease and changes nothing, hands one out, or finds nothing. -/
def LeaseEffect (c : Call) (agent : Uuid) (res : Option LeaseResult) (held : LockKey → Prop)
    (x x' : Db) : Prop :=
  match res with
  | none => WorkEffect held (ClosesAtLease (c.utcnow 0)) [] [] x x' ∧
      x'.userAssignments = x.userAssignments
  | some lease => (x' = x ∧ ∃ w f, Resumes c agent lease x w f) ∨
      ∃ w src a f, HandsOut c agent lease held x x' w src a f

omit hP in
theorem wp_leaseResult {c : Call} {w : WorkItem} {cc : CampaignContact} {k : Contact} {campaign : Campaign}
    {Q : LeaseResult → Protocol.Assertion Db LockKey ω}
    (h : ∀ res, res.workItemId = w.id → w.leaseId = some res.leaseId → Q res l p s) :
    P.wp (leaseResult c w cc k campaign) Q l p s := by
  unfold leaseResult
  split
  · rename_i leaseId _ hl _
    exact h _ rfl hl
  · exact trivial

/-- A live lease that is locked with its phone. -/
structure LiveLease (agent : Uuid) (now : Time) (lease : LeaseResult) (w : WorkItem) (f : Fingerprint)
    (l : Stand Db LockKey ω) (s : Db) : Prop where
  locked : l.held (.workItem lease.workItemId)
  row : Table.find s.workItems lease.workItemId = some w
  live : activeLease agent now w = true
  leaseId : w.leaseId = some lease.leaseId
  lockedPhone : l.held (.phone f)
  phone : s.phoneOf w = some f
  clear : s.suppressed f = false
  active : s.ActiveCampaign w

omit hP in
/-- Such a lease is what the agent resumes, whatever others commit. -/
theorem LiveLease.resumes {c : Call} {agent : Uuid} {lease : LeaseResult} {w : WorkItem}
    {f : Fingerprint} {x : Db} (h : LiveLease agent (c.utcnow 0) lease w f l s)
    (hx : discipline.Frame l.held s x) : Resumes c agent lease x w f where
  row := Eq.trans (hx.same _ h.locked) h.row
  live := h.live
  leaseId := h.leaseId
  phone := hx.grows.phoneOf rfl h.phone
  clear := (hx.same _ h.lockedPhone).suppressed.trans h.clear
  active := by
    obtain ⟨k, hk, hactive⟩ := h.active
    exact ⟨k, hx.grows.campaignOf rfl hk, by rwa [hx.grows.campaigns]⟩

/-- The search of a live lease writes nothing. -/
theorem wp_getActiveLeaseLocked {c : Call} {agent : Uuid} {now : Time} :
    P.wp (getActiveLeaseLocked c agent now)
      (fun o l' p' s' => p' = id ∧ (∀ j, l.held j → l'.held j) ∧ discipline.Frame l.held s s' ∧
        s'.WellFormed ∧ ∀ lease, o = some lease → ∃ w f, LiveLease agent now lease w f l' s') l id s := by
  unfold getActiveLeaseLocked activeLeaseCandidate
  simp only [wp_bind, wp_view, wp_pure]
  intro s₁ hs₁
  have h₁ := frame_of_later hs₁
  have i₁ := wellFormed_of_later hs₁
  cases hc : firstCandidate (id s₁) (fun w => c.rank w.id) fun w _ _ => activeLease agent now w with
  | none => exact ⟨rfl, fun _ h => h, h₁, i₁, by simp⟩
  | some candidate =>
    have hcandidate : IsCandidate candidate s₁ := .of_first i₁ hc
    dsimp only
    rw [wp_bind, wp_acquire]
    intro s₂ hs₂ _
    have h₂ := frame_of_later hs₂
    rw [held_saw] at h₂
    rw [wp_bind]
    have hh₂ : ∀ j, l.held j → (l.take (.phone candidate.phoneFingerprint)).held j := fun _ => Or.inr
    refine wp_selectForUpdate (fun l₃ s₃ hh₃ h₃ i₃ => ?_) fun l₃ s₃ w hl₃ h₃ i₃ hw hlive => ?_
    · exact ⟨rfl, fun j hj => hh₃ j (hh₂ j hj), h₁.trans (h₂.trans (h₃.mono hh₂)), i₃, by simp⟩
    have hh₃ : ∀ j, l.held j → l₃.held j := fun j hj => hl₃ ▸ Or.inr (hh₂ j hj)
    have h₁₃ : discipline.Frame l.held s₁ s₃ := h₂.trans (h₃.mono hh₂)
    have hid : w.id = candidate.workItemId := Table.key_of_find hw
    obtain ⟨w₀, hw₀, hphone₀, -⟩ := hcandidate.later h₁₃.grows
    obtain rfl : w = w₀ := Option.some.inj (hw.symm.trans hw₀)
    dsimp only
    refine wp_links Pending.start fun l₄ s₄ cc k hl₄ h₄ i₄ _ hphone hcamp => ?_
    have hk : k.phoneFingerprint = candidate.phoneFingerprint :=
      Option.some.inj (hphone.symm.trans (h₄.grows.phoneOf rfl hphone₀))
    rw [wp_bind]
    refine wp_getRow fun s₅ h₅ i₅ => ?_
    have h₃₅ : discipline.Frame l₃.held s₃ s₅ := h₄.trans (hl₄ ▸ h₅)
    have hh₄ : ∀ j, l.held j → l₄.held j := fun j hj => hl₄ ▸ hh₃ j hj
    have hs₅ : discipline.Frame l.held s s₅ := h₁.trans (h₁₃.trans (h₃₅.mono hh₃))
    cases hcampaign : Table.find (id s₅).campaigns cc.campaignId with
    | none => exact ⟨rfl, hh₄, hs₅, i₅, by simp⟩
    | some campaign =>
      dsimp only
      split_ifs with hactive
      · unfold activeSuppressionExists
        simp only [wp_bind, wp_view, wp_pure]
        intro s₆ hs₆
        have h₆ := frame_of_later hs₆
        split_ifs with hsup
        · exact trivial
        rw [wp_bind]
        refine wp_leaseResult fun res hres hlease => ?_
        rw [wp_pure]
        have h₃₆ : discipline.Frame l₃.held s₃ s₆ := h₃₅.trans (hl₄ ▸ h₆)
        have hlock : l₃.held (.workItem w.id) := hl₃ ▸ hid ▸ held_take _
        have hlockp : l₃.held (.phone k.phoneFingerprint) := hl₃ ▸ hk ▸ Or.inr (held_take _)
        have h₄₆ : discipline.Frame l₃.held s₄ s₆ := (hl₄ ▸ h₅ : discipline.Frame l₃.held s₄ s₅).trans (hl₄ ▸ h₆)
        refine ⟨rfl, hh₄, hs₅.trans (Discipline.Frame.mono h₆ hh₄), wellFormed_of_later hs₆, ?_⟩
        rintro _ ⟨⟩
        refine ⟨w, k.phoneFingerprint, ?_⟩
        rw [← hid] at hw
        exact {
          locked := hres ▸ hl₄ ▸ hlock
          row := hres ▸ Eq.trans (h₃₆.same _ hlock) hw
          live := hlive
          leaseId := hlease
          lockedPhone := hl₄ ▸ hlockp
          phone := h₄₆.grows.phoneOf rfl hphone
          clear := by simpa using hsup
          active := by
            refine ⟨cc.campaignId, h₄₆.grows.campaignOf rfl hcamp, ?_⟩
            rw [h₆.grows.campaigns, show Table.find s₅.campaigns cc.campaignId = some campaign from hcampaign,
              Option.map_some, hactive] }
      · exact ⟨rfl, hh₄, hs₅, i₅, by simp⟩

/-- An effect that closes suppressed rows leaves an open row as it was. -/
theorem find_of_closes {held : LockKey → Prop} {now : Time} {new : List CallAttempt}
    {dnc : List SuppressionEntry} {x y : Db} {id : Uuid} {w : WorkItem}
    (h : WorkEffect held (ClosesAtLease now) new dnc x y) (hw : Table.find y.workItems id = some w)
    (ht : w.state.terminal = false) : Table.find x.workItems id = some w := by
  obtain ⟨v, hv, -, rfl | ⟨-, -, rfl⟩⟩ := h.workItem_back hw
  · exact hv
  · cases ht

theorem leaseNext_effect (c : Call) (agent : Uuid) :
    P.wp (leaseNext c agent)
      (fun res => discipline.Settles Db.WellFormed (LeaseEffect c agent res)) l id s := by
  unfold leaseNext
  simp only [wp_bind, wp_acquire]
  intro s₁ hs₁ _
  have i₁ := wellFormed_of_later hs₁
  refine Protocol.wp_mono _ ?_ _ _ _ wp_getActiveLeaseLocked
  rintro (_ | lease) l₂ p₂ s₂ ⟨rfl, hh₂, h₂, i₂, hres⟩
  rotate_left
  · obtain ⟨w, f, hlive⟩ := hres lease rfl
    exact fun x hx ix => Or.inl ⟨rfl, w, f, hlive.resumes hx⟩
  unfold requireEnabled
  simp only [wp_bind, wp_view, wp_raiseIf]
  intro s₃ hs₃ _ _ s₄ hs₄
  have i₄ := wellFormed_of_later hs₄
  refine Protocol.wp_mono _ ?_ _ _ _ (wp_chooseWorkItem ⟨Pending.start.mono fun _ _ => False.elim, i₄,
    fun _ => rfl⟩)
  rintro (_ | chosen) l₅ p₅ s₅ ⟨h₅, hr⟩
  · exact fun x hx ix => ⟨h₅.here.pending.effect x hx ix, h₅.here.assignments x⟩
  obtain ⟨hready, ha, hcamp⟩ := hr chosen rfl
  obtain ⟨w, cc, k, a, src⟩ := chosen
  dsimp only at hready ha hcamp ⊢
  have hopen := open_of_conditions hready.condition
  have hp : Pending (fun v v' => ClosesAtLease (c.utcnow 0) v v' ∨ (v = w ∧ v' = leaseTo c agent src a.id w))
      [] [] l₅ (Db.modifyWorkItem w.id (leaseTo c agent src a.id) ∘ p₅) s₅ := by
    refine h₅.here.pending.modify (leaseTo c agent src a.id) hready.locked hready.row (fun _ h => h) rfl
      hopen rfl (fun _ _ => Or.inl) (Or.inr ⟨rfl, rfl⟩) ?_
    rintro v ⟨-, rfl⟩
    cases hopen
  unfold flushLease
  simp only [wp_setWorkItem, wp_view, wp_raiseIf, wp_bind]
  intro s₆ hs₆ _
  refine wp_getRow fun s₇ h₇ i₇ => ?_
  simp only [wp_expect, wp_bind, wp_recordAudit]
  intro campaign _
  refine wp_leaseResult fun res hresid hlease => ?_
  rw [wp_pure]
  intro x hx ix
  have h₅x : discipline.Frame l₅.held s₅ x := (frame_of_later hs₆).trans (Discipline.Frame.trans h₇ hx)
  have hrx := hready.stable h₅.here.pending h₅x fun _ h => h
  have hax := ha.stable h₅x fun _ h => h
  refine Or.inr ⟨w, src, a, k.phoneFingerprint, ?_⟩
  exact {
    effect := (hp.effect x h₅x ix).log _
    row := hresid ▸ find_of_closes (h₅.here.pending.effect x h₅x ix) hrx.row hopen
    leased := by
      rw [hresid]
      exact Table.find_modify_self (f := leaseTo c agent src a.id) (fun _ h => h) hrx.row
    leaseId := (Option.some.inj hlease).symm
    condition := hrx.condition
    phone := hrx.phoneOf
    clear := hrx.clear
    campaign := hcamp ▸ hrx.campaignOf
    active := ⟨_, hrx.campaignOf, hrx.active⟩
    assignments := h₅.here.assignments x
    assigned := ⟨hax.locked, hax.row, hax.agent⟩ }

/-- `get_active_lease` writes nothing. -/
theorem getActiveLease_effect (c : Call) (agent : Uuid) :
    P.wp (getActiveLease c agent)
      (fun res => discipline.Settles Db.WellFormed fun _ x x' =>
        x' = x ∧ ∀ lease, res = some lease → ∃ w f, Resumes c agent lease x w f) l id s := by
  unfold getActiveLease
  rw [wp_bind, wp_acquire]
  intro s₁ hs₁ _
  refine Protocol.wp_mono _ ?_ _ _ _ wp_getActiveLeaseLocked
  rintro res l₂ p₂ s₂ ⟨rfl, -, -, -, hres⟩ x hx ix
  refine ⟨rfl, fun lease hlease => ?_⟩
  obtain ⟨w, f, hlive⟩ := hres lease hlease
  exact ⟨w, f, hlive.resumes hx⟩

end OmniDB.Work
