import OmniDB.Proofs.WorkSpecs

/-! Completing a work item: what one commit of `complete_work_item` leaves behind, for
every kind of disposition, and that a do-not-call leaves no open item of the phone. -/

namespace OmniDB

open Tx

/-- No work item of the phone is open. -/
def Db.PhoneClosed (f : Fingerprint) (x : Db) : Prop :=
  ∀ id w, Table.find x.workItems id = some w → x.phoneOf w = some f → w.state.terminal = true

namespace Work

open Protocol (wp_bind wp_view wp_update wp_acquire wp_raiseIf wp_expect wp_pure)

variable {α ω : Type} {P : Protocol Db LockKey Err α ω} [hP : Disciplined P]
variable {l : Stand Db LockKey ω} {p : Db → Db} {s : Db}

/-! ## The suppression cascade -/

/-- The loop over the pending rows closes each of them with its campaign contact. -/
theorem wp_suppressItems {Δ : WorkItem → WorkItem → Prop} {new : List CallAttempt}
    {dnc : List SuppressionEntry} {now : Time} {createdBy : Uuid} {rows : List WorkItem}
    {Q : Unit → Protocol.Assertion Db LockKey ω} (h : Pending Δ new dnc l p s) (hi : s.WellFormed)
    (hΔ : ∀ v, Δ v (suppressed now v))
    (h₁₂ : ∀ v u, Δ v u → u.state.terminal = false → Δ v (suppressed now u))
    (hrows : ∀ w ∈ rows, l.held (.workItem w.id) ∧ Table.find (p s).workItems w.id = some w ∧
      w.state.terminal = false)
    (hn : (rows.map WorkItem.id).Nodup)
    (hQ : ∀ l' p' s', (∀ k, l.held k → l'.held k) → discipline.Frame l.held s s' → s'.WellFormed →
      Pending Δ new dnc l' p' s' →
      (∀ v id, Table.find (p' v).workItems id =
        if id ∈ rows.map WorkItem.id then (Table.find (p v).workItems id).map (suppressed now)
        else Table.find (p v).workItems id) → Q () l' p' s') :
    P.wp (rows.forM (suppressItem now createdBy)) Q l p s := by
  induction rows generalizing l p s with
  | nil =>
    exact hQ l p s (fun _ h => h) Discipline.Frame.refl hi h fun v id => by simp
  | cons w rows ih =>
    rw [List.map_cons, List.nodup_cons] at hn
    obtain ⟨hl, hw, ht⟩ := hrows w (List.mem_cons_self ..)
    change P.wp (suppressItem now createdBy w >>= fun _ => rows.forM (suppressItem now createdBy)) Q l p s
    rw [wp_bind]
    unfold suppressItem
    rw [wp_bind, wp_setWorkItem, wp_bind]
    refine wp_getRow fun s₁ h₁ i₁ => ?_
    simp only [wp_bind, wp_expect]
    intro cc hcc
    refine wp_setCampaignContact fun l₂ s₂ hl₂ h₂ i₂ => ?_
    have hkey : cc.id = w.campaignContactId := Table.key_of_find hcc
    rw [hkey] at hl₂ ⊢
    have hh : ∀ k, l.held k → l₂.held k := fun k hk => hl₂ ▸ Or.inr hk
    have hf : discipline.Frame l.held s s₂ := Discipline.Frame.trans h₁ h₂
    have h' := (h.stable hf hh).close (suppressed now)
      (stampBy createdBy .suppressed now "explicit_dnc") (hh _ hl) ((h.find hf hl).trans hw)
      (hl₂ ▸ held_take _) (fun _ h => h) rfl ht rfl (stamped_stampBy _ _ _ (Or.inr rfl))
      (fun _ _ h => h) (hΔ w) fun v hv => h₁₂ v w hv ht
    have hfind : ∀ v id, Table.find (Db.modifyWorkItem w.id (suppressed now) (p v)).workItems id =
        if id = w.id then (Table.find (p v).workItems id).map (suppressed now)
        else Table.find (p v).workItems id :=
      fun v id => Table.find_modify fun _ h => h
    refine ih h' i₂ (fun v hv => ?_) hn.2 fun l' p' s' hh' hf' i' hp' hall => ?_
    · obtain ⟨hlv, hv', htv⟩ := hrows v (List.mem_cons_of_mem _ hv)
      have hne : v.id ≠ w.id := fun he => hn.1 (he ▸ List.mem_map_of_mem hv)
      refine ⟨hh _ hlv, ?_, htv⟩
      exact (hfind s₂ v.id).trans (by rw [if_neg hne, h.find hf hlv, hv'])
    · refine hQ l' p' s' (fun k hk => hh' k (hh k hk)) (hf.trans (hf'.mono hh)) i' hp' fun v id => ?_
      rw [hall]
      change (if id ∈ rows.map WorkItem.id then
        (Table.find (Db.modifyWorkItem w.id (suppressed now) (p v)).workItems id).map (suppressed now)
        else Table.find (Db.modifyWorkItem w.id (suppressed now) (p v)).workItems id) = _
      rw [hfind, List.map_cons]
      by_cases he : id = w.id
      · subst he
        simp [hn.1]
      · simp [he]

/-- The condition of the pending rows. -/
abbrev pendingOf (k : Contact) (db : Db) (w : WorkItem) : Bool :=
  (db.campaignContact w).map (·.contactId) = some k.id && !w.state.terminal

omit hP in
theorem pendingOf_iff {Δ : WorkItem → WorkItem → Prop} {new : List CallAttempt}
    {dnc : List SuppressionEntry} {k : Contact} {id : Uuid} {w w' : WorkItem} {v : Db}
    (hp : Pending Δ new dnc l p v) (hi : v.WellFormed) (hk : k ∈ v.contacts)
    (hw : Table.find v.workItems id = some w) (hphone : v.phoneOf w = some k.phoneFingerprint)
    (hc : w'.campaignContactId = w.campaignContactId) :
    pendingOf k (p v) w' = !w'.state.terminal := by
  have he := hp.now hi
  obtain ⟨w₁, hw₁, hc₁, -⟩ := he.workItem_forth hw
  obtain ⟨cc, k', hcc, hk', hph⟩ := (he.wellFormed hi).phone hw₁
  rw [he.phoneOf hi hw hc₁, hphone] at hph
  have hmem : k' ∈ v.contacts := he.contacts ▸ Table.mem_of_find hk'
  obtain rfl := hi.onePhone k hk k' hmem (Option.some.inj hph)
  have hlink : (p v).campaignContact w' = some cc := by
    unfold Db.campaignContact at hcc ⊢
    rwa [hc, ← hc₁]
  have hid : cc.contactId = k.id := (Table.key_of_find hk').symm
  simp [pendingOf, hlink, hid]

omit hP in
/-- An open item of the contact is among the pending rows; one that is not was closed
before the cascade began. -/
theorem phoneClosed_of_cascade {Δ Δ' : WorkItem → WorkItem → Prop} {new : List CallAttempt}
    {dnc : List SuppressionEntry} {k : Contact} {l₁ l' : Stand Db LockKey ω} {p' : Db → Db}
    {s₀ s₁ s' x : Db} {rows : List WorkItem} {c : Call}
    (hopen : ∀ w w', Δ w w' → w'.state.terminal = false) (hp : Pending Δ new dnc l p s₀)
    (i₀ : s₀.WellFormed) (hk : k ∈ s₀.contacts) (hl : l.held (.phone k.phoneFingerprint))
    (hf : discipline.Frame l.held s₀ s₁) (i₁ : s₁.WellFormed) (hh₁ : ∀ j, l.held j → l₁.held j)
    (hlock : Locked P .workItem Db.workItems false (pendingOf k (p s₀))
      (scan c ((p s₀).workItems.filter (pendingOf k (p s₀)))) rows l₁.held (p s₁))
    (hf' : discipline.Frame l₁.held s₁ s') (hp' : Pending Δ' new dnc l' p' s')
    (hh : ∀ j, l₁.held j → l'.held j)
    (hin : ∀ id ∈ rows.map WorkItem.id, ∀ v w, Table.find (p' v).workItems id = some w →
      w.state = .suppressed)
    (hx : discipline.Frame l'.held s' x) (ix : x.WellFormed) :
    (p' x).PhoneClosed k.phoneFingerprint := by
  intro id w' hw' hphone
  have h₁x : discipline.Frame l₁.held s₁ x := hf'.trans (hx.mono hh)
  have h₀x : discipline.Frame l.held s₀ x := hf.trans (h₁x.mono hh₁)
  obtain ⟨w, hw, hc, hd⟩ := (hp'.effect x hx ix).workItem_back hw'
  have hwp : x.phoneOf w = some k.phoneFingerprint := by
    rw [← (hp'.effect x hx ix).phoneOf ix hw hc]
    exact hphone
  -- an item that was closed when the cascade began is closed for good
  have hclosed : ∀ v u, Db.Grows v x → Table.find v.workItems id = some u →
      u.state.terminal = true → w'.state.terminal = true := by
    intro v u hg hu ht
    obtain ⟨u', hu', -, he⟩ := hg.workItem id u hu
    obtain rfl := he ht
    obtain rfl : u' = w := Option.some.inj (hu'.symm.trans hw)
    rcases hd with rfl | ⟨hf, -⟩
    · exact ht
    · simp [ht] at hf
  obtain ⟨w₀, hw₀, hp₀⟩ := (h₀x.same _ hl).workItem id w hw hwp
  obtain ⟨w₁, hw₁, hc₁, hd₁⟩ := (hp.now i₀).workItem_forth hw₀
  have hcond := pendingOf_iff hp i₀ hk hw₀ hp₀ hc₁
  cases ht₁ : w₁.state.terminal with
  | true =>
    rcases hd₁ with rfl | ⟨-, hΔ⟩
    · exact hclosed _ _ h₀x.grows hw₀ ht₁
    · simp [hopen _ _ hΔ] at ht₁
  | false =>
    have hkey : w₁.id = id := Table.key_of_find hw₁
    have hmem : w₁ ∈ scan c ((p s₀).workItems.filter (pendingOf k (p s₀))) :=
      mem_scan.2
        (List.mem_filter.2 ⟨Table.mem_of_find hw₁, by rw [hcond, ht₁]; rfl⟩)
    rcases hlock.all w₁ hmem with ⟨r, hr, he⟩ | ⟨-, hnone⟩ | ⟨hs, -⟩
    · have hrid : id ∈ rows.map WorkItem.id := by
        rw [← hkey, ← show r.id = w₁.id from he]
        exact List.mem_map_of_mem hr
      rw [hin id hrid x w' hw']
      rfl
    · obtain ⟨u, hu, huc, -⟩ := hf.grows.workItem id w₀ hw₀
      obtain ⟨u', hu', huc', hdu⟩ := ((hp.stable hf fun _ h => h).now i₁).workItem_forth hu
      rw [show Tx.key w₁ = id from hkey, hu', Option.filter_some,
        pendingOf_iff hp i₀ hk hw₀ hp₀ (huc'.trans huc)] at hnone
      have htu : u'.state.terminal = true := by simpa using hnone
      rcases hdu with rfl | ⟨-, hΔ⟩
      · exact hclosed _ _ h₁x.grows hu htu
      · simp [hopen _ _ hΔ] at htu
    · cases hs

/-- Every row is as before, or suppressed. -/
def SuppressesSome (now : Time) (p p' : Db → Db) : Prop :=
  ∀ v id, Table.find (p' v).workItems id = Table.find (p v).workItems id ∨
    Table.find (p' v).workItems id = (Table.find (p v).workItems id).map (suppressed now)

/-- From the scan on: every open item of the phone is closed. -/
theorem wp_cascade {Δ₁ Δ : WorkItem → WorkItem → Prop} {new : List CallAttempt}
    {dnc : List SuppressionEntry} {k : Contact} {c : Call} {now : Time} {createdBy : Uuid}
    {Q : Unit → Protocol.Assertion Db LockKey ω} (h : Pending Δ₁ new dnc l p s)
    (hopen : ∀ w w', Δ₁ w w' → w'.state.terminal = false) (h₁ : ∀ w w', Δ₁ w w' → Δ w w')
    (hΔ : ∀ v, Δ v (suppressed now v))
    (h₁₂ : ∀ v u, Δ v u → u.state.terminal = false → Δ v (suppressed now u))
    (hk : Table.find s.contacts k.id = some k) (hl : l.held (.phone k.phoneFingerprint))
    (hQ : ∀ l' p' s', (∀ j, l.held j → l'.held j) → discipline.Frame l.held s s' → s'.WellFormed →
      Pending Δ new dnc l' p' s' → SuppressesSome now p p' →
      (∀ x, discipline.Frame l'.held s' x → x.WellFormed → (p' x).PhoneClosed k.phoneFingerprint) →
      Q () l' p' s') :
    P.wp (do
      let pending ← lockRows "pending items" false .workItem Db.workItems (pendingOf k) (scan c)
      pending.forM (suppressItem now createdBy)) Q l p s := by
  rw [wp_bind]
  refine wp_lockRows (rowLock_workItem h.rowWise) fun l₁ s₀ s₁ rows hh₁ h₀ i₀ hf₁ i₁ hlock => ?_
  have hp₀ := h.stable h₀ fun _ h => h
  have hk₀ := Table.mem_of_find (h₀.grows.contact _ _ hk)
  have hn : (rows.map WorkItem.id).Nodup := by
    refine List.Nodup.sublist hlock.keys ?_
    refine ((perm_scan c _).map _).nodup_iff.2 ?_
    exact ((hp₀.now i₀).wellFormed i₀).workItems.filter _
  have hrows : ∀ w ∈ rows, l₁.held (.workItem w.id) ∧
      Table.find (p s₁).workItems w.id = some w ∧ w.state.terminal = false := by
    intro w hw
    obtain ⟨hlw, hfind, hc⟩ := hlock.row w hw
    simp only [pendingOf, Bool.and_eq_true, Bool.not_eq_true'] at hc
    exact ⟨hlw, hfind, hc.2⟩
  refine wp_suppressItems ((h.stable (h₀.trans hf₁) hh₁).mono h₁) i₁ hΔ h₁₂ hrows hn
    fun l' p' s' hh hf' i' hp' hall => ?_
  have hin : ∀ id ∈ rows.map WorkItem.id, ∀ v w, Table.find (p' v).workItems id = some w →
      w.state = .suppressed := by
    intro id hid v w hw
    rw [hall, if_pos hid, Option.map_eq_some_iff] at hw
    obtain ⟨u, -, rfl⟩ := hw
    rfl
  refine hQ l' p' s' (fun j hj => hh j (hh₁ j hj)) ((h₀.trans hf₁).trans (hf'.mono hh₁)) i' hp'
    (fun v id => ?_) ?_
  · rw [hall]
    split_ifs
    · exact Or.inr rfl
    · exact Or.inl rfl
  exact fun x hx ix => phoneClosed_of_cascade hopen hp₀ i₀ hk₀ hl hf₁ i₁ hh₁ hlock hf' hp' hh hin hx ix

theorem wp_suppressContactEverywhere {Δ₁ Δ : WorkItem → WorkItem → Prop} {new : List CallAttempt}
    {k : Contact} {c : Call} {source : String} {createdBy : Uuid}
    {Q : Unit → Protocol.Assertion Db LockKey ω} (h : Pending Δ₁ new [] l p s)
    (hopen : ∀ w w', Δ₁ w w' → w'.state.terminal = false) (h₁ : ∀ w w', Δ₁ w w' → Δ w w')
    (hΔ : ∀ v, Δ v (suppressed (c.utcnow 4) v))
    (h₁₂ : ∀ v u, Δ v u → u.state.terminal = false → Δ v (suppressed (c.utcnow 4) u))
    (hk : Table.find s.contacts k.id = some k)
    (hQ : ∀ l' p' s' dnc, (∀ j, l.held j → l'.held j) → discipline.Frame l.held s s' →
      s'.WellFormed → Pending Δ new dnc l' p' s' → SuppressesSome (c.utcnow 4) p p' →
      (∀ e ∈ dnc, e.phoneFingerprint = k.phoneFingerprint) →
      (∀ x, discipline.Frame l'.held s' x → x.WellFormed → (p' x).PhoneClosed k.phoneFingerprint) →
      Q () l' p' s') :
    P.wp (suppressContactEverywhere c k source createdBy) Q l p s := by
  unfold suppressContactEverywhere
  simp only [wp_bind, wp_acquire, wp_view]
  intro s₁ hs₁ _ s₂ hs₂
  have hf₂ : discipline.Frame l.held s s₂ :=
    (frame_of_later hs₁).trans (frame_of_take (frame_of_later hs₂))
  have hk₂ := hf₂.grows.contact _ _ hk
  have hp₂ : Pending Δ₁ new [] ((l.take (.phone k.phoneFingerprint)).saw "existing suppression" (p s₂))
      p s₂ := h.stable hf₂ fun _ => Or.inr
  split_ifs with hsup
  · rw [wp_bind]
    refine wp_insertRow fun l₃ s₃ hl₃ hf₃ i₃ _ => ?_
    have hh₃ : ∀ j, (l.take (.phone k.phoneFingerprint)).held j → l₃.held j := fun j hj => hl₃ ▸ Or.inr hj
    refine wp_cascade ((hp₂.stable hf₃ hh₃).suppress (hh₃ _ (held_take _))) hopen h₁ hΔ h₁₂
      (hf₃.grows.contact _ _ hk₂) (hh₃ _ (held_take _)) fun l' p' s' hh hf' i' hp' hsome hclosed => ?_
    exact hQ l' p' s' _ (fun j hj => hh j (hh₃ j (Or.inr hj)))
      (hf₂.trans ((hf₃.trans (hf'.mono hh₃)).mono fun _ => Or.inr)) i' hp' hsome (by simp) hclosed
  · refine wp_cascade hp₂ hopen h₁ hΔ h₁₂ hk₂ (held_take _) fun l' p' s' hh hf' i' hp' hsome hclosed => ?_
    exact hQ l' p' s' [] (fun j hj => hh j (Or.inr hj)) (hf₂.trans (frame_of_take hf')) i' hp' hsome
      (by simp) hclosed

/-! ## The branches on the disposition -/

/-- What completing with the disposition makes of the leased row. -/
inductive Disposes (c : Call) (r : CompleteRequest) (d : CampaignDispositionDefinition) (w : WorkItem) :
    WorkItem → Prop where
  | dnc (h : d.causesDnc = true) : Disposes c r d w (suppressed (c.utcnow 4) (counted w))
  | callback (hn : d.causesDnc = false) (h : d.requiresCallbackTime = true)
      (hs : r.callbackAt.isSome = true) :
      Disposes c r d w (callbackFor r.agentId r.callbackAt (counted w))
  | review (h : d.nextAction = some .review ∨ w.maxAttempts ≤ (w.attemptCount : ℤ) + 1) :
      Disposes c r d w (unlease (counted w) .review)
  | requeue (h : d.nextAction = some .requeue) (hn : d.causesDnc = false)
      (hc : d.requiresCallbackTime = false) (hx : (w.attemptCount : ℤ) + 1 < w.maxAttempts) :
      Disposes c r d w (unlease (counted w) .queued)
  | retryWait (delay : ℤ) (h : d.retryDelayMinutes = some delay)
      (hx : (w.attemptCount : ℤ) + 1 < w.maxAttempts) :
      Disposes c r d w { unlease (counted w) .retryWait with
        dueAt := some (c.utcnow 0 + minutes delay), assignedAgentId := none }
  | redial (h : d.nextAction = some .immediateRedial) (hn : d.causesDnc = false)
      (hc : d.requiresCallbackTime = false) (hx : (w.attemptCount : ℤ) + 1 < w.maxAttempts) :
      Disposes c r d w { unlease (counted w) .leased with
        leaseOwnerId := some r.agentId, leaseId := some (c.uuid4 1)
        leaseExpiresAt := some (c.utcnow 0 + minutes c.settings.leaseDurationMinutes)
        leaseReason := some .immediateRedial }
  | complete : Disposes c r d w { unlease (counted w) .completed with completedAt := some (c.utcnow 5) }

/-- The row an immediate redial makes, with the columns of its new lease. -/
def redialled (c : Call) (agent : Uuid) (w : WorkItem) : WorkItem := { unlease (counted w) .leased with
  leaseOwnerId := some agent, leaseId := some (c.uuid4 1)
  leaseExpiresAt := some (c.utcnow 0 + minutes c.settings.leaseDurationMinutes)
  leaseReason := some .immediateRedial }

/-- A completed row is leased by an immediate redial only. -/
theorem Disposes.redialled {c : Call} {r : CompleteRequest} {d : CampaignDispositionDefinition} {w w' : WorkItem}
    (h : Disposes c r d w w') (hl : w'.state = .leased) : w' = Work.redialled c r.agentId w := by
  cases h with
  | redial => rfl
  | _ => cases hl

theorem exhausted_eq (w : WorkItem) : decide ((counted w).maxAttempts ≤ (counted w).attemptCount) =
    !decide ((w.attemptCount : ℤ) + 1 < w.maxAttempts) := by
  rw [← decide_not, decide_eq_decide, not_lt]
  simp [counted]

theorem nextAction_eq {d : CampaignDispositionDefinition} {a : NextAction} (ha : a ≠ .complete)
    (h : d.nextAction.getD .complete = a) : d.nextAction = some a := by
  cases hd : d.nextAction with
  | none =>
    rw [hd] at h
    exact absurd h.symm ha
  | some b =>
    rw [hd] at h
    rw [← h, Option.getD_some]

/-- `dispose` on a row that is counted. -/
theorem disposes_of_dispose {c : Call} {r : CompleteRequest} {d : CampaignDispositionDefinition}
    {w w' : WorkItem} {event : Option AuditEvent}
    (hdnc : d.causesDnc = false) (hcb : d.requiresCallbackTime = false)
    (h : dispose c r.agentId d (counted w) = .ok (w', event)) :
    Disposes c r d w w' ∧ w'.id = w.id ∧ w'.campaignContactId = w.campaignContactId ∧
      w'.state.terminal = decide (d.nextAction.getD .complete = .complete) := by
  unfold dispose at h
  rw [exhausted_eq] at h
  by_cases hx : (w.attemptCount : ℤ) + 1 < w.maxAttempts
  all_goals
    simp only [hx, decide_true, decide_false, Bool.not_true, Bool.not_false, if_true, if_false,
      Bool.false_eq_true] at h
    cases hn : d.nextAction.getD .complete <;> simp only [hn] at h
  case pos.review | neg.review =>
    cases h
    exact ⟨.review (Or.inl (nextAction_eq (by decide) hn)), rfl, rfl, rfl⟩
  case neg.requeue | neg.retryWait | neg.immediateRedial =>
    cases h
    exact ⟨.review (Or.inr (not_lt.1 hx)), rfl, rfl, rfl⟩
  case pos.requeue =>
    cases h
    exact ⟨.requeue (nextAction_eq (by decide) hn) hdnc hcb hx, rfl, rfl, rfl⟩
  case pos.retryWait =>
    cases hd : d.retryDelayMinutes with
    | none =>
      rw [hd] at h
      cases h
    | some delay =>
      rw [hd] at h
      cases h
      exact ⟨.retryWait delay hd hx, rfl, rfl, rfl⟩
  case pos.immediateRedial =>
    cases h
    exact ⟨.redial (nextAction_eq (by decide) hn) hdnc hcb hx, rfl, rfl, rfl⟩
  case pos.complete | neg.complete =>
    cases h
    exact ⟨.complete, rfl, rfl, rfl⟩
  case pos.other | neg.other => cases h

/-- `complete_work_item` on one row: the leased one, or a pending one of a suppressed contact. -/
def Completes (c : Call) (r : CompleteRequest) (w w' : WorkItem) : Prop :=
  (w.id ≠ r.workItemId ∧ w' = suppressed (c.utcnow 4) w) ∨
    (w.id = r.workItemId ∧ holdsLease w r.agentId r.leaseId = true ∧ ∃ d, Disposes c r d w w')

/-- The changes of a branch: of the leased row, and the closing of the phone's other rows. -/
def Touches (c : Call) (w v v' : WorkItem) : Prop := v.id = w.id ∨ v' = suppressed (c.utcnow 4) v

section Branches

variable {c : Call} {r : CompleteRequest} {d : CampaignDispositionDefinition} {w w' final : WorkItem}
variable {cc : CampaignContact} {k : Contact} {new : List CallAttempt} {dnc : List SuppressionEntry}
variable {l' : Stand Db LockKey ω} {p' : Db → Db} {s' : Db}

/-- Among the changes of the branches, those of the leased row amount to its final form. -/
theorem completes_of_pending (h : Pending (Touches c w) new dnc l p s)
    (hl : l.held (.workItem w.id)) (hw : Table.find s.workItems w.id = some w)
    (hid : w.id = r.workItemId) (hlease : holdsLease w r.agentId r.leaseId = true)
    (hfinal : Table.find (p s).workItems w.id = some final) (hd : Disposes c r d w final) :
    Pending (Completes c r) new dnc l p s := by
  refine h.sharpen fun x hx ix id v v' hv hv' hc => ?_
  by_cases hvid : v.id = w.id
  · obtain rfl : id = w.id := (Table.key_of_find hv).symm.trans hvid
    obtain rfl : w = v := Option.some.inj ((Eq.trans (hx.same _ hl) hw).symm.trans hv)
    obtain rfl : final = v' := Option.some.inj (((h.find hx hl).trans hfinal).symm.trans hv')
    exact Or.inr ⟨hid, hlease, d, hd⟩
  · exact Or.inl ⟨hid ▸ hvid, hc.resolve_left hvid⟩

/-- The leased row under its lock: its attempt is counted, and no other row is changed. -/
structure Counted (r : CompleteRequest) (new : List CallAttempt) (w : WorkItem) (l : Stand Db LockKey ω)
    (p : Db → Db) (s : Db) : Prop where
  wellFormed : s.WellFormed
  locked : l.held (.workItem w.id)
  stored : Table.find s.workItems w.id = some w
  workItem : w.id = r.workItemId
  lease : holdsLease w r.agentId r.leaseId = true
  pending : Pending (fun v v' => v = w ∧ v' = counted w) new [] l p s
  row : Table.find (p s).workItems w.id = some (counted w)

/-- What a branch leaves: the leased row in its final form, and the suppressed phones closed. -/
structure Branched (c : Call) (r : CompleteRequest) (d : CampaignDispositionDefinition) (new : List CallAttempt)
    (w : WorkItem) (l : Stand Db LockKey ω) (s : Db) (final : WorkItem) (dnc : List SuppressionEntry)
    (l' : Stand Db LockKey ω) (p' : Db → Db) (s' : Db) : Prop where
  held : ∀ j, l.held j → l'.held j
  frame : discipline.Frame l.held s s'
  wellFormed : s'.WellFormed
  pending : Pending (Completes c r) new dnc l' p' s'
  row : Table.find (p' s').workItems w.id = some final
  disposes : Disposes c r d w final
  closed : ∀ e ∈ dnc, ∀ x, discipline.Frame l'.held s' x → x.WellFormed → (p' x).PhoneClosed e.phoneFingerprint

def Branches (c : Call) (r : CompleteRequest) (d : CampaignDispositionDefinition) (new : List CallAttempt)
    (w : WorkItem) (l : Stand Db LockKey ω) (s : Db) : Unit → Protocol.Assertion Db LockKey ω :=
  fun _ l' p' s' => ∃ final dnc, Branched c r d new w l s final dnc l' p' s'

omit hP in
theorem Counted.start (h : Pending (fun _ _ => False) new [] l p s) (hi : s.WellFormed)
    (hl : l.held (.workItem w.id)) (hw : Table.find s.workItems w.id = some w) (hid : w.id = r.workItemId)
    (hlease : holdsLease w r.agentId r.leaseId = true) :
    Counted r new w l (Db.modifyWorkItem w.id counted ∘ p) s := by
  have hopen := open_of_holdsLease hlease
  have hrow : Table.find (p s).workItems w.id = some w := by
    obtain ⟨w', hw', -, rfl | ⟨-, hF⟩⟩ := (h.now hi).workItem_forth hw
    · exact hw'
    · exact hF.elim
  exact {
    wellFormed := hi
    locked := hl
    stored := hw
    workItem := hid
    lease := hlease
    pending := h.modify counted hl hrow (fun _ h => h) rfl hopen hopen (fun _ _ => False.elim) ⟨rfl, rfl⟩
      fun _ => False.elim
    row := Table.find_modify_self (fun _ h => h) hrow }

omit hP in
/-- One more change of the counted row, which stays open. -/
theorem Counted.modify (h : Counted r new w l p s) {f : WorkItem → WorkItem}
    (hid : ∀ v, v.id = w.id → (f v).id = w.id)
    (hlink : (f (counted w)).campaignContactId = w.campaignContactId)
    (ht : (f (counted w)).state.terminal = false) :
    Pending (Touches c w) new [] l (Db.modifyWorkItem w.id f ∘ p) s :=
  h.pending.modify f h.locked h.row hid hlink (open_of_holdsLease h.lease) ht
    (fun _ _ hv => Or.inl (hv.1 ▸ rfl)) (Or.inl rfl) fun _ hv => Or.inl (hv.1 ▸ rfl)

omit hP in
theorem Counted.branched (h : Counted r new w l p s) (hh : ∀ j, l.held j → l'.held j)
    (hf : discipline.Frame l.held s s') (hi : s'.WellFormed) (hp : Pending (Touches c w) new dnc l' p' s')
    (hfinal : Table.find (p' s').workItems w.id = some final) (hd : Disposes c r d w final)
    (hclosed : ∀ e ∈ dnc, ∀ x, discipline.Frame l'.held s' x → x.WellFormed →
      (p' x).PhoneClosed e.phoneFingerprint) : Branched c r d new w l s final dnc l' p' s' where
  held := hh
  frame := hf
  wellFormed := hi
  pending := completes_of_pending hp (hh _ h.locked) (Eq.trans (hf.same _ h.locked) h.stored) h.workItem
    h.lease hfinal hd
  row := hfinal
  disposes := hd
  closed := hclosed

omit hP in
theorem Branches.audit {event : Option AuditEvent} {l₀ : Stand Db LockKey ω} {s₀ : Db}
    (h : Branches c r d new w l₀ s₀ () l p s) :
    P.wp (event.forM recordAudit) (Branches c r d new w l₀ s₀) l p s := by
  cases event with
  | none => exact h
  | some e =>
    obtain ⟨final, dnc, h⟩ := h
    exact ⟨final, dnc, { h with pending := h.pending.log e }⟩

/-- A do-not-call closes every open row of the phone, the leased one among them. -/
theorem wp_suppressBranch {e : AuditEvent} (h : Counted r new w l p s)
    (hk : Table.find s.contacts k.id = some k) (hphone : s.phoneOf w = some k.phoneFingerprint)
    (hdnc : d.causesDnc = true) :
    P.wp (do
      suppressContactEverywhere c k "explicit_contact_request" r.agentId
      recordAudit e) (Branches c r d new w l s) l p s := by
  have hopen := open_of_holdsLease h.lease
  rw [wp_bind]
  refine wp_suppressContactEverywhere (Δ := Touches c w) h.pending (fun _ _ hv => hv.2 ▸ hopen)
    (fun _ _ hv => Or.inl (hv.1 ▸ rfl)) (fun _ => Or.inr rfl) (fun v u hv hu => ?_) hk
    fun l' p' s' dnc hh hf i' hp' hsome hdncs hclosed => ?_
  · rcases hv with hv | rfl
    · exact Or.inl hv
    · cases hu
  have hw' : Table.find s'.workItems w.id = some w := Eq.trans (hf.same _ h.locked) h.stored
  obtain ⟨final, hfinal, hc, -⟩ := (hp'.now i').workItem_forth hw'
  have hterm : final.state.terminal = true := by
    refine hclosed s' Discipline.Frame.refl i' _ _ hfinal ?_
    rw [(hp'.now i').phoneOf i' hw' hc, hf.grows.phoneOf_iff h.wellFormed h.stored rfl, hphone]
  have hs : final = suppressed (c.utcnow 4) (counted w) := by
    rcases hsome s' w.id with he | he
    · rw [hfinal, h.pending.find hf h.locked, h.row] at he
      obtain rfl := Option.some.inj he
      simp [counted, hopen] at hterm
    · rw [hfinal, h.pending.find hf h.locked, h.row] at he
      exact Option.some.inj he
  exact ⟨final, dnc, h.branched hh hf i' (hp'.log e) hfinal (hs ▸ .dnc hdnc) fun e he x hx ix =>
    hdncs e he ▸ hclosed x hx ix⟩

omit hP in
theorem wp_callbackBranch (h : Counted r new w l p s) (hdnc : d.causesDnc = false)
    (hcb : d.requiresCallbackTime = true) (hcall : r.callbackAt.isSome = true) :
    P.wp (setWorkItem w.id (callbackFor r.agentId r.callbackAt)) (Branches c r d new w l s) l p s := by
  have hrow := Table.find_modify_self (f := callbackFor r.agentId r.callbackAt) (fun _ h => h) h.row
  have hp : Pending (Touches c w) new [] l
      (Db.modifyWorkItem w.id (callbackFor r.agentId r.callbackAt) ∘ p) s := h.modify (fun _ h => h) rfl rfl
  exact ⟨_, [], h.branched (fun _ h => h) Discipline.Frame.refl h.wellFormed hp hrow
    (.callback hdnc hcb hcall) (by simp)⟩

/-- A row that is completed is closed with its campaign contact. -/
theorem wp_completeBranch {event : Option AuditEvent} (h : Counted r new w l p s)
    (hcc : cc.id = w.campaignContactId) (hid : w'.id = w.id)
    (hlink : w'.campaignContactId = w.campaignContactId) (hterm : w'.state.terminal = true)
    (hd : Disposes c r d w w') :
    P.wp (do
      setCampaignContact cc.id (stampBy r.agentId .completed (c.utcnow 6) d.stableSemanticCode)
      event.forM recordAudit) (Branches c r d new w l s) l (Db.modifyWorkItem w.id (fun _ => w') ∘ p) s := by
  rw [wp_bind]
  refine wp_setCampaignContact fun l₁ s₁ hl₁ h₁ i₁ => ?_
  rw [hcc] at hl₁ ⊢
  have hh : ∀ j, l.held j → l₁.held j := fun j hj => hl₁ ▸ Or.inr hj
  have hrow := (h.pending.find h₁ h.locked).trans h.row
  have hp := (h.pending.stable h₁ hh).close (Δ := Touches c w) (fun _ => w')
    (stampBy r.agentId .completed (c.utcnow 6) d.stableSemanticCode) (hh _ h.locked) hrow
    (hl₁ ▸ held_take _) (fun _ _ => hid) hlink (open_of_holdsLease h.lease) hterm
    (stamped_stampBy _ _ _ (Or.inl rfl)) (fun _ _ hv => Or.inl (hv.1 ▸ rfl)) (Or.inl rfl)
    fun _ hv => Or.inl (hv.1 ▸ rfl)
  exact Branches.audit ⟨w', [], h.branched hh h₁ i₁ hp
    (Table.find_modify_self (f := fun _ => w') (fun _ _ => hid) hrow) hd (by simp)⟩

/-- The other dispositions: the row is completed, or stays open. -/
theorem wp_disposeBranch {event : Option AuditEvent} (h : Counted r new w l p s)
    (hcc : cc.id = w.campaignContactId) (hdnc : d.causesDnc = false) (hcb : d.requiresCallbackTime = false)
    (hdisp : dispose c r.agentId d (counted w) = .ok (w', event)) :
    P.wp (do
      setWorkItem w.id fun _ => w'
      if w'.state = .leased then flushLease r.agentId w.id
      if d.nextAction.getD .complete = .complete then
        setCampaignContact cc.id (stampBy r.agentId .completed (c.utcnow 6) d.stableSemanticCode)
      event.forM recordAudit) (Branches c r d new w l s) l p s := by
  obtain ⟨hd, hid, hlink, hterm⟩ := disposes_of_dispose hdnc hcb hdisp
  rw [wp_bind, wp_setWorkItem]
  by_cases hcomp : d.nextAction.getD .complete = .complete
  · rw [hcomp, decide_eq_true rfl] at hterm
    have hne : w'.state ≠ .leased := fun hs => by simp [hs, WorkState.terminal] at hterm
    simp only [if_neg hne, if_pos hcomp]
    exact wp_completeBranch h hcc hid hlink hterm hd
  rw [decide_eq_false hcomp] at hterm
  have hp : Pending (Touches c w) new [] l (Db.modifyWorkItem w.id (fun _ => w') ∘ p) s :=
    h.modify (fun _ _ => hid) hlink hterm
  have hrow := Table.find_modify_self (f := fun _ => w') (fun _ _ => hid) h.row
  simp only [if_neg hcomp]
  split_ifs with hleased
  · unfold flushLease
    simp only [wp_bind, wp_view, wp_raiseIf]
    intro s₁ hs₁ _
    have h₁ := frame_of_later hs₁
    exact Branches.audit ⟨w', [], h.branched (fun _ h => h) h₁ (wellFormed_of_later hs₁)
      (hp.stable h₁ fun _ h => h) ((hp.find h₁ h.locked).trans hrow) hd (by simp)⟩
  · exact Branches.audit ⟨w', [], h.branched (fun _ h => h) Discipline.Frame.refl h.wellFormed hp hrow hd
      (by simp)⟩

/-- The checks of a completion on its disposition and its fields. -/
structure Accepts (r : CompleteRequest) (campaign : Uuid) (d : CampaignDispositionDefinition) : Prop where
  campaign : d.campaignId = campaign
  active : d.active = true
  callback : d.requiresCallbackTime = true → r.callbackAt.isSome = true
  notes : ¬(d.requiresNotes = true ∧ r.notes.all (· = "") = true)
  duration : (r.selfReportedDurationSeconds.any fun t => t < 0) = false

/-- The rows that a completion reads for the leased item. -/
structure Reads (r : CompleteRequest) (w : WorkItem) (cc : CampaignContact) (d : CampaignDispositionDefinition)
    (k : Contact) (s : Db) : Prop where
  link : cc.id = w.campaignContactId
  contact : Table.find s.contacts k.id = some k
  phone : s.phoneOf w = some k.phoneFingerprint
  campaign : s.campaignOf w = some d.campaignId
  disposition : Table.find s.dispositions r.dispositionId = some d
  accepts : Accepts r d.campaignId d

omit hP in
theorem Reads.later (h : Reads r w cc d k s) (hg : s.Grows s') : Reads r w cc d k s' where
  link := h.link
  contact := hg.contact _ _ h.contact
  phone := hg.phoneOf rfl h.phone
  campaign := hg.campaignOf rfl h.campaign
  disposition := hg.dispositions ▸ h.disposition
  accepts := h.accepts

/-- The branches of `complete_work_item` on the leased row `w`. -/
theorem wp_applyDisposition (h : Pending (fun _ _ => False) new [] l p s) (hi : s.WellFormed)
    (hl : l.held (.workItem w.id)) (hw : Table.find s.workItems w.id = some w) (hid : w.id = r.workItemId)
    (hlease : holdsLease w r.agentId r.leaseId = true) (hreads : Reads r w cc d k s) :
    P.wp (applyDisposition c r w cc k d) (Branches c r d new w l s) l p s := by
  have hcounted := Counted.start h hi hl hw hid hlease
  unfold applyDisposition
  rw [wp_bind, wp_setWorkItem]
  by_cases hdnc : d.causesDnc = true
  · rw [if_pos hdnc]
    exact wp_suppressBranch hcounted hreads.contact hreads.phone hdnc
  rw [if_neg hdnc]
  rw [Bool.not_eq_true] at hdnc
  by_cases hcb : d.requiresCallbackTime = true
  · rw [if_pos hcb]
    exact wp_callbackBranch hcounted hdnc hcb (hreads.accepts.callback hcb)
  rw [if_neg hcb]
  rw [Bool.not_eq_true] at hcb
  cases hdisp : dispose c r.agentId d (counted w) with
  | error e => exact trivial
  | ok out => exact wp_disposeBranch hcounted hreads.link hdnc hcb hdisp

end Branches

/-! ## The answer of a completion -/

/-- The retry time an attempt stands for. -/
def retryAtOf (dispositions : List CampaignDispositionDefinition) (a : CallAttempt) : Option Time :=
  if a.resultingWorkItemState = .retryWait then
    ((Table.find dispositions a.dispositionDefinitionId).bind (·.retryDelayMinutes)).map fun delay =>
      a.createdAt + minutes delay
  else none

/-- The completion result that a stored attempt stands for. -/
def replay (dispositions : List CampaignDispositionDefinition) (a : CallAttempt) :
    Option CompletionResult :=
  (nextStepByState a.resultingWorkItemState).map fun step => {
    attemptId := a.id
    workItemState := a.resultingWorkItemState
    semanticOutcome := a.semanticOutcome
    callbackAt := a.callbackAt
    retryAt := retryAtOf dispositions a
    redialLeaseId := a.resultingLeaseId
    redialLeaseExpiresAt := a.resultingLeaseExpiresAt
    nextStep := step }

omit hP in
theorem wp_completionResult {dispositions : List CampaignDispositionDefinition} {a : CallAttempt}
    {Q : CompletionResult → Protocol.Assertion Db LockKey ω}
    (h : ∀ res, replay dispositions a = some res → Q res l p s) :
    P.wp (completionResult a (retryAtOf dispositions a)) Q l p s := by
  unfold completionResult
  simp only [wp_bind, wp_expect, wp_pure]
  intro step hstep
  exact h _ (by rw [replay, hstep, Option.map_some])

theorem wp_resultFromExistingAttempt {a : CallAttempt} {item : Uuid}
    {Q : CompletionResult → Protocol.Assertion Db LockKey ω} (hi : s.WellFormed)
    (hp : ∀ v, (p v).dispositions = v.dispositions)
    (h : ∀ res l' s', l'.held = l.held → discipline.Frame l.held s s' → s'.WellFormed →
      a.workItemId = item → replay s.dispositions a = some res → Q res l' p s') :
    P.wp (resultFromExistingAttempt a item) Q l p s := by
  unfold resultFromExistingAttempt
  simp only [wp_bind, wp_raiseIf]
  intro hitem
  have hitem := not_not.1 hitem
  split_ifs with hr
  · rw [wp_bind]
    refine wp_getRow fun s' hf i' => ?_
    have he : ((Table.find (p s').dispositions a.dispositionDefinitionId).bind (·.retryDelayMinutes)).map
        (fun delay => a.createdAt + minutes delay) = retryAtOf s.dispositions a := by
      rw [retryAtOf, if_pos hr, hp, hf.grows.dispositions]
    rw [he]
    exact wp_completionResult fun res => h res _ s' rfl hf i' hitem
  · have he : none = retryAtOf s.dispositions a := by rw [retryAtOf, if_neg hr]
    rw [he]
    exact wp_completionResult fun res => h res l s rfl Discipline.Frame.refl hi hitem

/-- The stored attempt stands for the retry time the branch chose. -/
theorem retryAt_eq {c : Call} {r : CompleteRequest} {d : CampaignDispositionDefinition}
    {w final : WorkItem} {cc : CampaignContact} {dispositions : List CampaignDispositionDefinition}
    (h : Disposes c r d w final) (hd : Table.find dispositions d.id = some d) :
    (if final.state = .retryWait then final.dueAt else none) =
      retryAtOf dispositions (finishAttempt (newAttempt c r w cc d) final) := by
  simp only [retryAtOf, finishAttempt, newAttempt, hd, Option.bind_some]
  cases h with
  | dnc _ => rfl
  | retryWait delay hdelay => simp [hdelay]
  | callback | review | requeue | redial | complete => rfl

theorem wp_checkedDisposition {c : Call} {r : CompleteRequest} {cc : CampaignContact}
    {Q : CampaignDispositionDefinition → Protocol.Assertion Db LockKey ω}
    (h : ∀ l' s' d, l'.held = l.held → discipline.Frame l.held s s' → s'.WellFormed →
      Table.find s'.dispositions r.dispositionId = some d → Accepts r cc.campaignId d →
      Q d l' id s') :
    P.wp (checkedDisposition c r cc) Q l id s := by
  unfold checkedDisposition
  simp only [wp_bind]
  refine wp_getRow fun s₁ h₁ i₁ => ?_
  simp only [wp_expect, wp_raiseIf, wp_bind]
  intro d hd hcamp hactive hnotes
  have haccepts : ¬(d.requiresCallbackTime && r.callbackAt.isNone) = true →
      (r.selfReportedDurationSeconds.any fun t => t < 0) = false → Accepts r cc.campaignId d := by
    intro hcb hdur
    refine ⟨not_not.1 hcamp, by simpa using hactive, fun hr => ?_, by simpa using hnotes, hdur⟩
    simpa [hr, Option.isSome_iff_ne_none] using hcb
  split_ifs with hcb
  · unfold requireEnabled
    simp only [wp_bind, wp_view, wp_raiseIf, wp_pure]
    intro s₂ hs₂ _ hcall _ hdur
    have h₂ := frame_of_later hs₂
    refine h _ s₂ d rfl (Discipline.Frame.trans h₁ h₂) (wellFormed_of_later hs₂) ?_
      (haccepts hcall (by simpa using hdur))
    rwa [h₂.grows.dispositions]
  · simp only [wp_bind, wp_raiseIf, wp_pure]
    intro hcall _ hdur
    exact h _ s₁ d rfl h₁ i₁ hd (haccepts hcall (by simpa using hdur))

/-! ## The whole operation -/

/-- The leased row of a first completion, with the attempt that records it. -/
structure CompletedRow (c : Call) (r : CompleteRequest) (x x' : Db) (a : CallAttempt) (w w' : WorkItem)
    (d : CampaignDispositionDefinition) : Prop where
  row : Table.find x.workItems r.workItemId = some w
  lease : holdsLease w r.agentId r.leaseId = true
  live : (w.leaseExpiresAt.any fun t => t ≤ c.utcnow 1) = false
  final : Table.find x'.workItems r.workItemId = some w'
  disposition : Table.find x.dispositions r.dispositionId = some d
  campaign : x.campaignOf w = some d.campaignId
  accepts : Accepts r d.campaignId d
  disposes : Disposes c r d w w'
  dispositionId : a.dispositionDefinitionId = r.dispositionId
  fresh : Table.find x.attempts a.id = none
  stored : ∃ cc, cc.id = w.campaignContactId ∧ a = finishAttempt (newAttempt c r w cc d) w'

/-- What a first completion leaves behind: the stored attempt `a`, which stands for the
answer, and the suppressions `dnc`. -/
structure Completed (c : Call) (r : CompleteRequest) (res : CompletionResult) (held : LockKey → Prop)
    (x x' : Db) (a : CallAttempt) (dnc : List SuppressionEntry) : Prop where
  effect : WorkEffect held (Completes c r) [a] dnc x x'
  first : ∀ b ∈ x.attempts, ¬(b.agentId = r.agentId ∧ b.idempotencyKey = r.idempotencyKey)
  agent : a.agentId = r.agentId
  idempotencyKey : a.idempotencyKey = r.idempotencyKey
  workItem : a.workItemId = r.workItemId
  answer : replay x.dispositions a = some res
  closed : ∀ e ∈ dnc, x'.PhoneClosed e.phoneFingerprint
  row : ∃ w w' d, CompletedRow c r x x' a w w' d

/-- The answer of a repeated completion. -/
def Repeats (r : CompleteRequest) (res : CompletionResult) (x : Db) : Prop :=
  ∃ a ∈ x.attempts, a.agentId = r.agentId ∧ a.idempotencyKey = r.idempotencyKey ∧
    a.workItemId = r.workItemId ∧ replay x.dispositions a = some res

/-- A completion repeats an earlier answer, or is the first under its key. -/
def CompleteEffect (c : Call) (r : CompleteRequest) (res : CompletionResult) (held : LockKey → Prop)
    (x x' : Db) : Prop :=
  (x' = x ∧ Repeats r res x) ∨ ∃ a dnc, Completed c r res held x x' a dnc

/-- The reads of a completion, one after the other. -/
theorem wp_completionReads {c : Call} {r : CompleteRequest} {w : WorkItem} {e₁ e₂ : Err} {β : Type}
    {f : CampaignContact → CampaignDispositionDefinition → Contact → Txn β}
    {Q : β → Protocol.Assertion Db LockKey ω}
    (h : ∀ l' s' cc d k, l'.held = l.held → discipline.Frame l.held s s' → s'.WellFormed →
      Reads r w cc d k s' → P.wp (f cc d k) Q l' id s') :
    P.wp (do
      let cc ← Prog.expect (← getRow "campaign_contact" Db.campaignContacts w.campaignContactId) e₁
      let d ← checkedDisposition c r cc
      let k ← Prog.expect (← getRow "contact" Db.contacts cc.contactId) e₂
      f cc d k) Q l id s := by
  rw [wp_bind]
  refine wp_getRow fun s₁ h₁ i₁ => ?_
  rw [wp_bind, wp_expect]
  intro cc hcc
  rw [wp_bind]
  refine wp_checkedDisposition fun l₂ s₂ d hl₂ h₂ i₂ hd hacc => ?_
  rw [wp_bind]
  refine wp_getRow fun s₃ h₃ i₃ => ?_
  rw [wp_bind, wp_expect]
  intro k hk
  have h₂₃ : discipline.Frame l.held s₂ s₃ := Discipline.Frame.mono h₃ fun j hj => hl₂ ▸ hj
  have h₁₃ : discipline.Frame l.held s₁ s₃ := Discipline.Frame.trans h₂ h₂₃
  obtain ⟨cc₃, hcc₃, -, hcontact⟩ := h₁₃.grows.campaignContact _ _ hcc
  refine h _ s₃ cc d k hl₂ (Discipline.Frame.trans h₁ h₁₃) i₃ {
    link := Table.key_of_find hcc
    contact := by rwa [show k.id = cc.contactId from Table.key_of_find hk]
    phone := Db.phoneOf_eq hcc₃ ?_
    campaign := h₁₃.grows.campaignOf rfl (?_ : s₁.campaignOf w = _)
    disposition := h₂₃.grows.dispositions ▸ hd
    accepts := { hacc with campaign := rfl } }
  · unfold Db.contact
    rwa [hcontact]
  · rw [Db.campaignOf, show s₁.campaignContact w = some cc from hcc, hacc.campaign, Option.map_some]

theorem wp_completeLeased {c : Call} {r : CompleteRequest} {w : WorkItem}
    (hl : l.held (.workItem w.id)) (hw : Table.find s.workItems r.workItemId = some w)
    (hlease : holdsLease w r.agentId r.leaseId = true)
    (hlive : (w.leaseExpiresAt.any fun t => t ≤ c.utcnow 1) = false)
    (hk : l.held (.idempotency "work.complete" r.agentId r.idempotencyKey))
    (hfirst : ∀ b ∈ s.attempts, ¬(b.agentId = r.agentId ∧ b.idempotencyKey = r.idempotencyKey)) :
    P.wp (completeLeased c r w)
      (fun res => discipline.Settles Db.WellFormed (CompleteEffect c r res)) l id s := by
  have hid : w.id = r.workItemId := Table.key_of_find hw
  unfold completeLeased
  refine wp_completionReads fun l₁ s₁ cc d k hl₁ h₁ i₁ hreads => ?_
  rw [wp_bind]
  refine wp_insertRow fun l₂ s₂ hl₂ h₂ i₂ hfree => ?_
  have hh₂ : ∀ j, l.held j → l₂.held j := fun j hj => hl₂ ▸ Or.inr (hl₁ ▸ hj)
  have hs₂ : discipline.Frame l.held s s₂ := h₁.trans (Discipline.Frame.mono h₂ fun j hj => hl₁ ▸ hj)
  have hw₂ : Table.find s₂.workItems w.id = some w := Eq.trans (hs₂.same _ hl) (hid ▸ hw)
  have hreads₂ : Reads r w cc d k s₂ := hreads.later h₂.grows
  have hdid : d.id = r.dispositionId := Table.key_of_find hreads₂.disposition
  rw [wp_bind]
  refine Protocol.wp_mono _ ?_ _ _ _ (wp_applyDisposition (Pending.start.store (hh₂ _ hk) (hl₂ ▸ held_take _))
    i₂ (hh₂ _ hl) hw₂ hid hlease hreads₂)
  rintro ⟨⟩ l₃ p₃ s₃ ⟨final, dnc, hb⟩
  rw [wp_bind]
  refine wp_getRow fun s₄ h₄ i₄ => ?_
  rw [hb.pending.find h₄ (hb.held _ (hh₂ _ hl)), hb.row, wp_bind, wp_expect]
  rintro _ ⟨⟩
  rw [wp_bind, wp_update, wp_bind, wp_recordAudit, retryAt_eq hb.disposes (hdid ▸ hreads₂.disposition)]
  refine wp_completionResult fun res hres x hx ix => Or.inr ?_
  have h₃x : discipline.Frame l₃.held s₃ x := h₄.trans hx
  have h₂x : discipline.Frame l₂.held s₂ x := hb.frame.trans (h₃x.mono hb.held)
  have hsx : discipline.Frame l.held s x := hs₂.trans (h₂x.mono hh₂)
  have hreadsx : Reads r w cc d k x := hreads₂.later h₂x.grows
  have hnone : Table.find x.attempts (newAttempt c r w cc d).id = none :=
    Eq.trans (h₂x.same (.attempt _) (hl₂ ▸ held_take _)) hfree
  refine ⟨finishAttempt (newAttempt c r w cc d) final, dnc, ?_⟩
  exact {
    effect := ((hb.pending.effect x h₃x ix).finish (g := fun a => finishAttempt a final) hnone rfl rfl rfl).log _
    first := fun b hb hbr => hfirst b (hsx.same _ hk rfl b hb hbr.1 hbr.2) hbr
    agent := rfl
    idempotencyKey := rfl
    workItem := hid
    answer := h₂x.grows.dispositions ▸ hres
    closed := fun e he => hb.closed e he x h₃x ix
    row := ⟨w, final, d, {
      row := hid ▸ Eq.trans (hsx.same _ hl) (hid ▸ hw)
      lease := hlease
      live := hlive
      final := hid ▸ (hb.pending.find h₃x (hb.held _ (hh₂ _ hl))).trans hb.row
      disposition := hreadsx.disposition
      campaign := hreadsx.campaign
      accepts := hreadsx.accepts
      disposes := hb.disposes
      dispositionId := hdid
      fresh := hnone
      stored := ⟨cc, hreads.link, rfl⟩ }⟩ }

theorem completeWorkItem_effect (c : Call) (r : CompleteRequest) :
    P.wp (completeWorkItem c r)
      (fun res => discipline.Settles Db.WellFormed (CompleteEffect c r res)) l id s := by
  unfold completeWorkItem existingAttempt
  simp only [wp_bind, wp_acquire, wp_view, wp_pure, id_eq]
  intro s₁ hs₁ _ s₂ hs₂
  have i₂ := wellFormed_of_later hs₂
  cases ha : s₂.attempts.find? fun a => a.agentId = r.agentId && a.idempotencyKey = r.idempotencyKey with
  | some a =>
    refine wp_resultFromExistingAttempt i₂ (fun _ => rfl) fun res l' s' hl' hf' _ hitem hres => ?_
    intro x hx ix
    have hf : discipline.Frame (l.take (.idempotency "work.complete" r.agentId r.idempotencyKey)).held s₂ x :=
      hf'.trans (hx.mono fun j hj => hl' ▸ hj)
    have hfor := List.find?_some ha
    simp only [Bool.and_eq_true, decide_eq_true_eq] at hfor
    exact Or.inl ⟨rfl, a, hf.grows.attempt a (List.mem_of_find?_eq_some ha), hfor.1, hfor.2, hitem,
      hf.grows.dispositions ▸ hres⟩
  | none =>
    unfold phoneFingerprintForWorkItem
    simp only [wp_bind, wp_view, wp_pure, wp_expect, wp_acquire]
    intro s₃ hs₃ phone _ s₄ hs₄ _
    refine wp_loadLeasedItem fun l₅ s₅ w hl₅ h₅ i₅ hw hlease hlive => ?_
    have hid : w.id = r.workItemId := Table.key_of_find hw
    have hkey : l₅.held (.idempotency "work.complete" r.agentId r.idempotencyKey) :=
      hl₅ ▸ Or.inr (Or.inr (Or.inl rfl))
    have h₂₅ : discipline.Frame (l.take (.idempotency "work.complete" r.agentId r.idempotencyKey)).held
        s₂ s₅ :=
      (frame_of_later hs₃).trans ((frame_of_later hs₄).trans (frame_of_take h₅))
    refine wp_completeLeased (by rw [hid, hl₅]; exact held_take _) hw hlease hlive hkey fun b hb hbr => ?_
    have hb₂ := h₂₅.same _ (held_take _) rfl b hb hbr.1 hbr.2
    have := List.find?_eq_none.1 ha b hb₂
    simp [hbr.1, hbr.2] at this

end Work

end OmniDB
