import OmniDB.Proofs.WorkEffect

/-! What each operation of the work queue does, under any interference that follows
the lock discipline: one theorem for each operation. -/

namespace OmniDB.Work

open Tx
open Protocol (wp_bind wp_view wp_update wp_acquire wp_tryAcquire wp_raiseIf wp_expect wp_pure)

variable {α β ω : Type} {P : Protocol Db LockKey Err α ω} [hP : Disciplined P]
variable {l : Stand Db LockKey ω} {p : Db → Db} {s : Db}

/-- Whatever others commit, committing here has a `WorkEffect` that stores nothing. -/
abbrev Effects (Δ : WorkItem → WorkItem → Prop) : Protocol.Assertion Db LockKey ω :=
  discipline.Settles Db.WellFormed fun held c x => WorkEffect held Δ [] [] c x

omit hP in
theorem wp_setWorkItem {id : Uuid} {f : WorkItem → WorkItem} {Q : Unit → Protocol.Assertion Db LockKey ω} :
    P.wp (setWorkItem id f) Q l p s ↔ Q () l (Db.modifyWorkItem id f ∘ p) s := Iff.rfl

omit hP in
theorem wp_recordAudit {e : AuditEvent} {Q : Unit → Protocol.Assertion Db LockKey ω} :
    P.wp (recordAudit e) Q l p s ↔ Q () l (Db.log e ∘ p) s := Iff.rfl

/-! ## Loading a work item -/

/-- `FOR UPDATE` on a work item that must be there. -/
theorem wp_lockWorkItem {item : Uuid} {e : Err} {f : WorkItem → Txn β}
    {Q : β → Protocol.Assertion Db LockKey ω}
    (h : ∀ l' s' w, l'.held = (l.take (.workItem item)).held → discipline.Frame l.held s s' →
      s'.WellFormed → Table.find (p s').workItems item = some w → P.wp (f w) Q l' p s') :
    P.wp (do let w ← Prog.expect (← lockWorkItem item) e; f w) Q l p s :=
  wp_expectForUpdate fun l' s' w hl hf hi hw _ => h l' s' w hl hf hi hw

theorem wp_loadLeasedItem {now : Time} {item agent leaseId : Uuid}
    {Q : WorkItem → Protocol.Assertion Db LockKey ω}
    (h : ∀ l' s' w, l'.held = (l.take (.workItem item)).held → discipline.Frame l.held s s' →
      s'.WellFormed → Table.find (p s').workItems item = some w →
      holdsLease w agent leaseId = true → w.leaseExpiresAt.any (fun t => t ≤ now) = false →
      Q w l' p s') :
    P.wp (loadLeasedItem now item agent leaseId) Q l p s := by
  refine wp_lockWorkItem fun l' s' w hl hf hw hfind => ?_
  simp only [wp_bind, wp_raiseIf, wp_pure]
  intro hlease hexp
  exact h l' s' w hl hf hw hfind (by simpa using hlease) (by simpa using hexp)

theorem wp_loadReviewItem {item : Uuid} {Q : WorkItem → Protocol.Assertion Db LockKey ω}
    (h : ∀ l' s' w, l'.held = (l.take (.workItem item)).held → discipline.Frame l.held s s' →
      s'.WellFormed → Table.find (p s').workItems item = some w → w.state = .review → Q w l' p s') :
    P.wp (loadReviewItem item) Q l p s := by
  refine wp_lockWorkItem fun l' s' w hl hf hw hfind => ?_
  simp only [wp_bind, wp_raiseIf, wp_pure]
  intro hr
  exact h l' s' w hl hf hw hfind (not_not.1 hr)

/-- `UPDATE campaign_contacts`. -/
theorem wp_setCampaignContact {id : Uuid} {g : CampaignContact → CampaignContact}
    {Q : Unit → Protocol.Assertion Db LockKey ω}
    (h : ∀ l' s', l'.held = (l.take (.campaignContact id)).held → discipline.Frame l.held s s' →
      s'.WellFormed → Q () l' (Db.modifyCampaignContact id g ∘ p) s') :
    P.wp (setCampaignContact id g) Q l p s := by
  unfold setCampaignContact
  rw [wp_bind, wp_acquire]
  intro s' hs _
  exact h _ s' rfl (frame_of_later hs) (wellFormed_of_later hs)

theorem holdsLease_iff {w : WorkItem} {agent leaseId : Uuid} :
    holdsLease w agent leaseId = true ↔
      w.state = .leased ∧ w.leaseOwnerId = some agent ∧ w.leaseId = some leaseId := by
  simp [holdsLease, and_assoc]

theorem open_of_state {w : WorkItem} {state : WorkState} (h : w.state = state)
    (ht : state.terminal = false) : w.state.terminal = false := by
  rw [h, ht]

theorem open_of_holdsLease {w : WorkItem} {agent leaseId : Uuid}
    (h : holdsLease w agent leaseId = true) : w.state.terminal = false :=
  open_of_state (holdsLease_iff.1 h).1 rfl

theorem stamped_stamp {status : ContactStatus} (now : Time) (code : String)
    (h : status = .completed ∨ status = .suppressed) (cc : CampaignContact) :
    CampaignContact.Stamped cc (stamp status now code cc) := ⟨rfl, rfl, rfl, h, rfl, rfl⟩

theorem stamped_stampBy {status : ContactStatus} (agent : Uuid) (now : Time) (code : String)
    (h : status = .completed ∨ status = .suppressed) (cc : CampaignContact) :
    CampaignContact.Stamped cc (stampBy agent status now code cc) := ⟨rfl, rfl, rfl, h, rfl, rfl⟩

/-! ## Operations on one work item -/

/-- The first write of a transaction changes one locked work item that stays open. -/
theorem pending_first {Δ : WorkItem → WorkItem → Prop} {item : Uuid} {w : WorkItem}
    (f : WorkItem → WorkItem) (hl : l.held (.workItem item))
    (hw : Table.find s.workItems item = some w) (hid : ∀ v, (f v).id = v.id)
    (hcc : (f w).campaignContactId = w.campaignContactId) (ht : w.state.terminal = false)
    (ht' : (f w).state.terminal = false) (hΔ : Δ w (f w)) :
    Pending Δ [] [] l (Db.modifyWorkItem item f ∘ id) s :=
  Pending.start.modify f hl hw (fun v hv => (hid v).trans hv) hcc ht ht' (fun _ _ => False.elim) hΔ
    fun _ => False.elim

theorem settles_of_pending {Δ : WorkItem → WorkItem → Prop} (h : Pending Δ [] [] l p s) :
    Effects Δ l p s := h.effect

/-- `renew_lease` on one row. -/
structure Renews (c : Call) (item agent leaseId : Uuid) (w w' : WorkItem) : Prop where
  id : w.id = item
  lease : holdsLease w agent leaseId = true
  live : (w.leaseExpiresAt.any fun t => c.utcnow 0 < t) = true
  eq : w' = renewed c w

theorem renewLease_effect (c : Call) (item agent leaseId : Uuid) :
    P.wp (renewLease c item agent leaseId) (fun _ => Effects (Renews c item agent leaseId)) l id s := by
  refine wp_lockWorkItem fun l' s' w hl hf hw hfind => ?_
  simp only [wp_bind, wp_raiseIf]
  intro hlease
  have hown : l'.held (.workItem item) := hl ▸ held_take _
  rw [Bool.not_eq_true', Bool.not_eq_false, Bool.and_eq_true] at hlease
  obtain ⟨hh, hlive⟩ := hlease
  exact settles_of_pending (pending_first (renewed c) hown hfind (fun _ => rfl) rfl
    (open_of_holdsLease hh) (open_of_holdsLease hh) ⟨Table.key_of_find hfind, hh, hlive, rfl⟩)

/-- `skip_work_item` on one row. -/
structure Skips (c : Call) (item agent leaseId : Uuid) (reason : String) (w w' : WorkItem) : Prop where
  id : w.id = item
  reason : blank reason = false
  lease : holdsLease w agent leaseId = true
  live : (w.leaseExpiresAt.any fun t => t ≤ c.utcnow 0) = false
  eq : w' = skipped c w

theorem skipped_open (c : Call) (w : WorkItem) : (skipped c w).state.terminal = false := by
  unfold skipped unlease
  dsimp only
  split_ifs <;> rfl

theorem skipWorkItem_effect (c : Call) (item agent leaseId : Uuid) (reason : String) :
    P.wp (skipWorkItem c item agent leaseId reason)
      (fun _ => Effects (Skips c item agent leaseId reason)) l id s := by
  unfold skipWorkItem
  simp only [wp_bind, wp_raiseIf]
  intro hreason
  refine wp_loadLeasedItem fun l' s' w hl hf hw hfind hh hlive => ?_
  have hown : l'.held (.workItem item) := hl ▸ held_take _
  exact settles_of_pending ((pending_first (skipped c) hown hfind (fun _ => rfl) rfl
    (open_of_holdsLease hh) (skipped_open c w)
    ⟨Table.key_of_find hfind, by simpa using hreason, hh, hlive, rfl⟩).log _)

/-- `reschedule_review_item` on one row. -/
def Reschedules (item : Uuid) (retryAt : Time) (w w' : WorkItem) : Prop :=
  w.id = item ∧ w.state = .review ∧ w' = rescheduled retryAt w

theorem rescheduleReviewItem_effect (c : Call) (item actor : Uuid) (retryAt : Time) (reason : String) :
    P.wp (rescheduleReviewItem c item actor retryAt reason)
      (fun _ => Effects (Reschedules item retryAt)) l id s := by
  unfold rescheduleReviewItem
  simp only [wp_bind, wp_raiseIf]
  intro _ _
  refine wp_loadReviewItem fun l' s' w hl hf hw hfind hr => ?_
  have hown : l'.held (.workItem item) := hl ▸ held_take _
  exact settles_of_pending ((pending_first (rescheduled retryAt) hown hfind (fun _ => rfl) rfl
    (open_of_state hr rfl) rfl ⟨Table.key_of_find hfind, hr, rfl⟩).log _)

/-- `increase_review_item_attempts` on one row: the new ceiling is above the attempts used. -/
structure Raises (c : Call) (item : Uuid) (newMax : ℤ) (w w' : WorkItem) : Prop where
  id : w.id = item
  review : w.state = .review
  used : (w.attemptCount : ℤ) < newMax
  eq : w' = { rescheduled (c.utcnow 0) w with maxAttempts := newMax }

theorem increaseReviewItemAttempts_effect (c : Call) (item actor : Uuid) (newMax : ℤ)
    (reason : String) :
    P.wp (increaseReviewItemAttempts c item actor newMax reason)
      (fun _ => Effects (Raises c item newMax)) l id s := by
  unfold increaseReviewItemAttempts
  simp only [wp_bind, wp_raiseIf]
  intro _
  refine wp_loadReviewItem fun l' s' w hl hf hw hfind hr => ?_
  simp only [wp_bind, wp_raiseIf]
  intro hused
  have hown : l'.held (.workItem item) := hl ▸ held_take _
  exact settles_of_pending ((pending_first
    (fun w => { rescheduled (c.utcnow 0) w with maxAttempts := newMax }) hown hfind (fun _ => rfl) rfl
    (open_of_state hr rfl) rfl ⟨Table.key_of_find hfind, hr, not_le.1 hused, rfl⟩).log _)

/-- `close_review_item` on one row. -/
def Closes (c : Call) (item : Uuid) (w w' : WorkItem) : Prop :=
  w.id = item ∧ w.state = .review ∧ w' = closed (c.utcnow 0) w

theorem closeReviewItem_effect (c : Call) (item actor : Uuid) (reason : String) :
    P.wp (closeReviewItem c item actor reason) (fun _ => Effects (Closes c item)) l id s := by
  unfold closeReviewItem
  simp only [wp_bind, wp_raiseIf]
  intro _
  refine wp_loadReviewItem fun l₁ s₁ w hl hf hw hfind hr => ?_
  have hown : l₁.held (.workItem item) := hl ▸ held_take _
  unfold lastAttempt
  simp only [wp_bind, wp_view, wp_pure, wp_expect]
  intro s₂ hs₂ last _
  refine wp_getRow fun s₃ h₃ i₃ => ?_
  simp only [wp_bind, wp_expect, wp_setWorkItem]
  intro cc hcc
  refine wp_setCampaignContact fun l₄ s₄ hl₄ h₄ i₄ => ?_
  have hframe : discipline.Frame l₁.held s₁ s₄ := (frame_of_later hs₂).trans (Discipline.Frame.trans h₃ h₄)
  have hkey : cc.id = w.campaignContactId := Table.key_of_find hcc
  have hlocked : l₄.held (.campaignContact w.campaignContactId) := by
    rw [hl₄, hkey]
    exact held_take _
  have hh : ∀ k, l₁.held k → l₄.held k := fun k hk => hl₄ ▸ Or.inr hk
  rw [hkey]
  have hpend : Pending (Closes c item) [] [] l₄ _ s₄ :=
    Pending.start.close (closed (c.utcnow 0)) 
      (stampBy last.agentId .completed (c.utcnow 0) last.semanticOutcome) (hh _ hown) (Eq.trans (hframe.same _ hown) hfind)
      hlocked (fun _ h => h) rfl (open_of_state hr rfl) rfl
      (stamped_stampBy _ _ _ (Or.inl rfl)) (fun _ _ => False.elim)
      ⟨Table.key_of_find hfind, hr, rfl⟩ fun _ => False.elim
  exact settles_of_pending (hpend.log _)

/-! ## Operations on all the rows of a scan -/

theorem rowLock_workItem (h : RowWise p) : RowLock .workItem Db.workItems p :=
  ⟨fun _ _ _ h => h, h.workItem⟩

omit hP in
/-- The loop over locked rows, each of them changed once. -/
theorem wp_setAll {Δ : WorkItem → WorkItem → Prop} {f : WorkItem → WorkItem} {rows : List WorkItem}
    (n : ℕ) (h : Pending Δ [] [] l p s)
    (hrows : ∀ w ∈ rows, l.held (.workItem w.id) ∧ Table.find (p s).workItems w.id = some w ∧
      w.state.terminal = false ∧ (f w).state.terminal = false ∧ Δ w (f w) ∧ ∀ v, ¬Δ v w)
    (hn : (rows.map WorkItem.id).Nodup) (hid : ∀ w, (f w).id = w.id)
    (hcc : ∀ w, (f w).campaignContactId = w.campaignContactId) :
    P.wp (rows.foldlM (fun count w => do setWorkItem w.id f; return count + 1) n)
      (fun _ l' p' s' => l' = l ∧ s' = s ∧ Pending Δ [] [] l p' s ∧
        ∀ id, Table.find (p' s).workItems id =
          if id ∈ rows.map WorkItem.id then (Table.find (p s).workItems id).map f
          else Table.find (p s).workItems id) l p s := by
  induction rows generalizing n p with
  | nil => exact ⟨rfl, rfl, h, fun id => by simp⟩
  | cons w rows ih =>
    rw [List.map_cons, List.nodup_cons] at hn
    obtain ⟨hl, hw, ht, ht', hΔ, hne⟩ := hrows w (List.mem_cons_self ..)
    have hkey : ∀ v : WorkItem, v.id = w.id → (f v).id = w.id := fun v hv => (hid v).trans hv
    have h' : Pending Δ [] [] l (Db.modifyWorkItem w.id f ∘ p) s :=
      h.modify f hl hw hkey (hcc w) ht ht' (fun _ _ => id) hΔ fun v hv => absurd hv (hne v)
    have hfind : ∀ id, Table.find ((Db.modifyWorkItem w.id f ∘ p) s).workItems id =
        if id = w.id then (Table.find (p s).workItems id).map f else Table.find (p s).workItems id :=
      fun id => Table.find_modify hkey
    rw [List.foldlM_cons, wp_bind, wp_bind, wp_setWorkItem, wp_pure]
    refine Protocol.wp_mono _ ?_ _ _ _ (ih (n + 1) h' (fun v hv => ?_) hn.2)
    · rintro _ l' p' s' ⟨hl', hs', hp', hall⟩
      refine ⟨hl', hs', hp', fun id => ?_⟩
      rw [hall, hfind, List.map_cons]
      by_cases he : id = w.id
      · subst he
        simp [hn.1]
      · simp [he]
    · obtain ⟨hlv, hv', hrest⟩ := hrows v (List.mem_cons_of_mem _ hv)
      have hvw : v.id ≠ w.id := fun he => hn.1 (he ▸ List.mem_map_of_mem hv)
      exact ⟨hlv, by rw [hfind, if_neg hvw]; exact hv', hrest⟩

/-- A scan with `SKIP LOCKED` and a change of every row it locked. `v` is the snapshot of
the scan: each of its rows was passed over, or no longer meets the condition. -/
theorem wp_scanAndSet {n : String} {c : Call} {cond : Db → WorkItem → Bool} {f : WorkItem → WorkItem}
    {Δ : WorkItem → WorkItem → Prop} {Q : ℕ → Protocol.Assertion Db LockKey ω}
    (h : Pending Δ [] [] l p s)
    (hcond : ∀ v w, cond v w = true → w.state.terminal = false ∧ (f w).state.terminal = false ∧
      Δ w (f w) ∧ ∀ u, ¬Δ u w)
    (hf : ∀ v w, cond v (f w) = false) (hid : ∀ w, (f w).id = w.id)
    (hcc : ∀ w, (f w).campaignContactId = w.campaignContactId)
    (hQ : ∀ count l' p' s₀ s', (∀ k, l.held k → l'.held k) → discipline.Frame l.held s s₀ →
      discipline.Frame l.held s₀ s' → s'.WellFormed → Pending Δ [] [] l' p' s' →
      (∀ w ∈ (p s₀).workItems, cond (p s₀) w = true →
        (l'.held (.workItem w.id) ∧
          (Table.find (p' s').workItems w.id).filter (cond (p s₀)) = none) ∨
        ∃ l s, P.refused l (.workItem w.id) s) →
      Q count l' p' s') :
    P.wp (do let rows ← lockRows n true .workItem Db.workItems cond (scan c); setAll f rows) Q l p s := by
  rw [wp_bind]
  refine wp_lockRows (rowLock_workItem h.rowWise) fun l' s₀ s' rows hh h₀ i₀ h₁ i₁ hlock => ?_
  have hn : (rows.map WorkItem.id).Nodup := by
    refine List.Nodup.sublist hlock.keys ?_
    refine ((perm_scan c _).map _).nodup_iff.2 ?_
    exact ((h.stable h₀ fun _ h => h).now i₀).wellFormed i₀ |>.workItems.filter _
  have hp := h.stable (h₀.trans h₁) hh
  refine Protocol.wp_mono _ ?_ _ _ _ (wp_setAll 0 hp (fun w hw => ?_) hn hid hcc)
  · rintro count l'' p' s'' ⟨rfl, rfl, hp', hfind⟩
    refine hQ count l'' p' s₀ s'' hh h₀ h₁ i₁ hp' fun w hw hcw => ?_
    have hmem : w ∈ scan c ((p s₀).workItems.filter (cond (p s₀))) :=
      mem_scan.2 (List.mem_filter.2 ⟨hw, hcw⟩)
    rcases hlock.all w hmem with ⟨w', hw', hk⟩ | ⟨hl, hnone⟩ | ⟨-, href⟩
    · have hkid : w'.id = w.id := hk
      obtain ⟨hlw, hfw, -⟩ := hlock.row w' hw'
      refine Or.inl ⟨hkid ▸ hlw, ?_⟩
      have hin : w.id ∈ rows.map WorkItem.id := hkid ▸ List.mem_map_of_mem hw'
      rw [hfind, if_pos hin, ← show key w' = w.id from hk, hfw, Option.map_some]
      simp [hf]
    · refine Or.inl ⟨hl, ?_⟩
      rw [hfind]
      split_ifs with hin
      · obtain ⟨w', hw', hk⟩ := List.mem_map.1 hin
        obtain ⟨-, hfw, hcw'⟩ := hlock.row w' hw'
        rw [show key w = key w' from hk.symm, hfw] at hnone
        simp [hcw'] at hnone
      · exact hnone
    · exact Or.inr href
  · obtain ⟨hl, hw', hc⟩ := hlock.row w hw
    obtain ⟨ht, ht', hΔ, hne⟩ := hcond _ w hc
    exact ⟨hl, hw', ht, ht', hΔ, hne⟩

@[simp] theorem unlease_state (w : WorkItem) (state : WorkState) : (unlease w state).state = state := rfl

theorem reclaimed_state (w : WorkItem) :
    (reclaimed w).state = if w.assignedAgentId.isSome then .callbackWait else .queued := rfl

theorem reclaimed_not_leased (w : WorkItem) : (reclaimed w).state ≠ .leased := by
  rw [reclaimed_state]
  split_ifs <;> simp

/-- A lease is taken back, the row going to its pre-lease state. -/
def Reclaims (cond : WorkItem → Prop) (w w' : WorkItem) : Prop :=
  w.state = .leased ∧ cond w ∧ w' = reclaimed w

theorem reclaim_cond {cond : WorkItem → Prop} {w : WorkItem} (hs : w.state = .leased) (hc : cond w) :
    w.state.terminal = false ∧ (reclaimed w).state.terminal = false ∧
      Reclaims cond w (reclaimed w) ∧ ∀ u, ¬Reclaims cond u w := by
  refine ⟨open_of_state hs rfl, ?_, ⟨hs, hc, rfl⟩, ?_⟩
  · rw [reclaimed_state]
    split_ifs <;> rfl
  · rintro u ⟨-, -, rfl⟩
    exact reclaimed_not_leased u hs

theorem reclaimExpiredLeases_effect (c : Call) :
    P.wp (reclaimExpiredLeases c)
      (fun _ => Effects (Reclaims fun w => expiredLease (c.utcnow 0) w = true)) l id s := by
  refine wp_scanAndSet (Pending.start.mono fun _ _ => False.elim) (fun _ w hw => ?_) (fun _ w => ?_)
    (fun _ => rfl) (fun _ => rfl) fun _ l' p' s₀ s' _ _ _ _ hp _ => settles_of_pending hp
  · have hs : w.state = .leased := by
      simp only [expiredLease, Bool.and_eq_true, decide_eq_true_eq] at hw
      exact hw.1
    exact reclaim_cond hs hw
  · simp [expiredLease, reclaimed_not_leased]

theorem reclaimLeasesForUser_effect (c : Call) (agent : Uuid) :
    P.wp (reclaimLeasesForUser c agent)
      (fun _ => Effects (Reclaims fun w => w.leaseOwnerId = some agent)) l id s := by
  refine wp_scanAndSet (Pending.start.mono fun _ _ => False.elim) (fun _ w hw => ?_) (fun _ w => ?_)
    (fun _ => rfl) (fun _ => rfl) fun _ l' p' s₀ s' _ _ _ _ hp _ => settles_of_pending hp
  · simp only [Bool.and_eq_true, decide_eq_true_eq] at hw
    exact reclaim_cond hw.1 hw.2
  · simp [reclaimed_not_leased]

/-- `release_campaign_work_for_agent` on one row. -/
def Releases (agent : Uuid) (w w' : WorkItem) : Prop := heldBy agent w = true ∧ w' = released w

theorem not_heldBy_released (agent : Uuid) (w : WorkItem) : heldBy agent (released w) = false := rfl

theorem heldBy_iff {agent : Uuid} {w : WorkItem} :
    heldBy agent w = true ↔ (w.state = .leased ∧ w.leaseOwnerId = some agent) ∨
      (w.state = .callbackWait ∧ w.assignedAgentId = some agent) := by
  simp [heldBy]

theorem open_of_heldBy {agent : Uuid} {w : WorkItem} (h : heldBy agent w = true) :
    w.state.terminal = false := by
  rcases heldBy_iff.1 h with ⟨hs, -⟩ | ⟨hs, -⟩ <;> exact open_of_state hs rfl

theorem releaseCampaignWorkForAgent_effect (c : Call) (agent campaign : Uuid) :
    P.wp (releaseCampaignWorkForAgent c agent campaign)
      (fun _ => Effects (Releases agent)) l id s := by
  refine wp_scanAndSet (Pending.start.mono fun _ _ => False.elim) (fun _ w hw => ?_) (fun _ w => ?_)
    (fun _ => rfl) (fun _ => rfl) fun _ l' p' s₀ s' _ _ _ _ hp _ => settles_of_pending hp
  · simp only [Bool.and_eq_true] at hw
    refine ⟨open_of_heldBy hw.2, rfl, ⟨hw.2, rfl⟩, ?_⟩
    rintro u ⟨-, rfl⟩
    simp [not_heldBy_released] at hw
  · simp [not_heldBy_released]

end OmniDB.Work
