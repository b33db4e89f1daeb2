import OmniDB.Proofs.LeaseOrder
import OmniDB.Proofs.Staffing

/-! One lease for each agent. The partial unique index on the leased rows is checked by a statement
that sees committed rows only; that no two leases of one agent are committed is due to the advisory
lock of the agent. A lease that has expired, or whose campaign is not active, still counts: an agent
that owns one is refused the next. -/

namespace OmniDB.Work

open Tx
open Protocol (wp_bind wp_view wp_acquire wp_raiseIf wp_expect wp_pure)

/-- The row is leased to the agent. -/
def LeasedTo (agent : Uuid) (w : WorkItem) : Prop := w.state = .leased ∧ w.leaseOwnerId = some agent

instance (agent : Uuid) (w : WorkItem) : Decidable (LeasedTo agent w) := inferInstanceAs (Decidable (_ ∧ _))

/-- The advisory lock under which an agent is given a lease. -/
def agentKey (agent : Uuid) : LockKey := .idempotency "work.lease.agent" agent "single-active"

/-- No row is leased to the agent that was not before. -/
def NoMore (agent : Uuid) (x x' : Db) : Prop := ∀ id w', Table.find x'.workItems id = some w' → LeasedTo agent w' →
  ∃ w, Table.find x.workItems id = some w ∧ LeasedTo agent w

/-- No two rows are leased to one agent. -/
def OneLease (x : Db) : Prop := ∀ agent id id' w w', Table.find x.workItems id = some w → LeasedTo agent w →
  Table.find x.workItems id' = some w' → LeasedTo agent w' → id = id'

/-- The condition as it is checked on a concrete database. -/
theorem OneLease.of_mem {x : Db} (h : ∀ w ∈ x.workItems, ∀ w' ∈ x.workItems, w.state = .leased → w'.state = .leased →
    w.leaseOwnerId = w'.leaseOwnerId → w.id = w'.id) : OneLease x := by
  intro agent id id' w w' hw hl hw' hl'
  have hid := h w (Table.mem_of_find hw) w' (Table.mem_of_find hw') hl.1 hl'.1 (hl.2.trans hl'.2.symm)
  exact (Table.key_of_find hw).symm.trans (hid.trans (Table.key_of_find hw'))

/-- Leases are added under the lock of the agent. -/
def leasing : Discipline Db LockKey where
  grows _ _ := True
  same k x x' := ∀ agent, k = agentKey agent → NoMore agent x x'
  grows_refl _ := trivial
  grows_trans _ _ _ _ _ := trivial
  same_refl _ _ _ _ _ w hw hl := ⟨w, hw, hl⟩
  same_trans _ _ _ _ h h' agent hk id w'' hw'' hl'' := by
    obtain ⟨w', hw', hl'⟩ := h' agent hk id w'' hw'' hl''
    exact h agent hk id w' hw' hl'

section Leasing

variable {α ω : Type} {P : Protocol Db LockKey Err α ω} [hP : Disciplined P] [hL : P.Respects leasing Db.WellFormed]
variable {l : Stand Db LockKey ω} {x x' : Db} {agent : Uuid}

omit hP hL in
theorem otherLease_eq_false {id : Uuid} (hu : Table.Unique x.workItems) : otherLease x agent id = false ↔
    ∀ i w, Table.find x.workItems i = some w → LeasedTo agent w → i = id := by
  unfold otherLease LeasedTo
  rw [List.any_eq_false]
  constructor
  · intro h i w hw hl
    have hid : w.id = i := Table.key_of_find hw
    rw [← hid]
    simpa [hl.1, hl.2] using h w (Table.mem_of_find hw)
  · intro h w hw
    simp only [Bool.and_eq_true, decide_eq_true_eq, not_and, not_not]
    exact fun hl => h w.id w (hu.find_of_mem hw) hl

/-- What the search and the new lease do to the rows. -/
def Moves (c : Call) (agent : Uuid) (w : WorkItem) (src : Source) (assignment : Uuid) (v v' : WorkItem) : Prop :=
  ClosesAtLease (c.utcnow 0) v v' ∨ (v = w ∧ v' = leaseTo c agent src assignment w)

section Moves

variable {c : Call} {held : LockKey → Prop} {w w' : WorkItem} {src : Source} {assignment id : Uuid}

omit hP hL in
/-- Another row that is leased after them was leased before. -/
theorem leased_back_of_moves (h : WorkEffect held (Moves c agent w src assignment) [] [] x x')
    (hw' : Table.find x'.workItems id = some w') (hl : w'.state = .leased) (hid : id ≠ w.id) :
    Table.find x.workItems id = some w' := by
  obtain ⟨v, hv, -, rfl | ⟨-, ⟨-, rfl⟩ | ⟨rfl, -⟩⟩⟩ := h.workItem_back hw'
  · exact hv
  · cases hl
  · exact absurd (Table.key_of_find hv).symm hid

omit hP hL in
/-- Another row that is leased before them is leased after. -/
theorem leased_forth_of_moves (h : WorkEffect held (Moves c agent w src assignment) [] [] x x')
    (hw' : Table.find x.workItems id = some w') (hl : w'.state = .leased) (hid : id ≠ w.id) :
    Table.find x'.workItems id = some w' := by
  obtain ⟨v, hv, -, rfl | ⟨-, ⟨hn, -⟩ | ⟨rfl, -⟩⟩⟩ := h.workItem_forth hw'
  · exact hv
  · exact absurd hl hn
  · exact absurd (Table.key_of_find hw').symm hid

end Moves

/-- At a commit that hands out a lease, the lock of the agent is held and no other row is leased to it. -/
def HandedAlone (agent : Uuid) (res : Option LeaseResult) (held : LockKey → Prop) (x x' : Db) : Prop :=
  held (agentKey agent) ∧ ∀ lease, res = some lease → x' = x ∨ otherLease x' agent lease.workItemId = false

theorem leaseNext_handedAlone (c : Call) (agent : Uuid) (l : Stand Db LockKey ω) (s : Db) :
    P.wp (leaseNext c agent) (fun res => (discipline.meet leasing).Settles Db.WellFormed (HandedAlone agent res))
      l id s := by
  unfold leaseNext
  simp only [wp_bind, wp_acquire]
  intro s₁ hs₁ _
  have hkey : (l.take (agentKey agent)).held (agentKey agent) := held_take _
  refine Protocol.wp_mono _ ?_ _ _ _ wp_getActiveLeaseLocked
  rintro (_ | lease) l₂ p₂ s₂ ⟨rfl, hh₂, -, i₂, -⟩
  rotate_left
  · exact fun x hx ix => ⟨hh₂ _ hkey, fun _ _ => Or.inl rfl⟩
  unfold requireEnabled
  simp only [wp_bind, wp_view, wp_raiseIf]
  intro s₃ hs₃ _ _ s₄ hs₄
  refine Protocol.wp_mono _ ?_ _ _ _ (wp_chooseWorkItem ⟨Pending.start.mono fun _ _ => False.elim,
    wellFormed_of_later hs₄, fun _ => rfl⟩)
  rintro (_ | chosen) l₅ p₅ s₅ ⟨h₅, hr⟩
  · exact fun x hx ix => ⟨h₅.held _ (hh₂ _ hkey), by simp⟩
  obtain ⟨hready, -, -⟩ := hr chosen rfl
  obtain ⟨w, cc, k, a, src⟩ := chosen
  dsimp only at hready ⊢
  have hopen := open_of_conditions hready.condition
  have hp : Pending (Moves c agent w src a.id) [] [] l₅ (Db.modifyWorkItem w.id (leaseTo c agent src a.id) ∘ p₅) s₅ := by
    refine h₅.here.pending.modify (leaseTo c agent src a.id) hready.locked hready.row (fun _ h => h) rfl
      hopen rfl (fun _ _ => Or.inl) (Or.inr ⟨rfl, rfl⟩) ?_
    rintro v ⟨-, rfl⟩
    cases hopen
  unfold flushLease getRow
  simp only [wp_setWorkItem, wp_view, wp_raiseIf, wp_bind, wp_pure]
  intro s₆ hs₆ hflush s₇ hs₇
  simp only [wp_expect, wp_bind, wp_recordAudit]
  intro campaign _
  refine wp_leaseResult fun res hresid hlease => ?_
  rw [wp_pure]
  intro x hx ix
  have hkey₅ : l₅.held (agentKey agent) := h₅.held _ (hh₂ _ hkey)
  have h₆ : discipline.Frame l₅.held s₅ s₆ := frame_of_later hs₆
  have h₆x : discipline.Frame l₅.held s₆ x := (frame_of_later hs₇).trans hx.left
  have i₆ := wellFormed_of_later hs₆
  have hmore : NoMore agent s₆ x :=
    (Discipline.Frame.trans (hL.frame _ _ _ hs₇.1) hx.right).same _ hkey₅ agent rfl
  have he₆ := hp.effect s₆ h₆ i₆
  have hex := hp.effect x (h₆.trans h₆x) ix
  refine ⟨hkey₅, fun lease h => Or.inr ?_⟩
  obtain rfl : res = lease := by simpa using h
  have hitem : res.workItemId = w.id := hresid
  rw [hitem]
  refine (otherLease_eq_false (hex.wellFormed ix).workItems).2 fun id w' hw' hl' => ?_
  by_contra hid
  -- the row was there when the index was checked
  obtain ⟨v, hv, hlv⟩ := hmore id w' (leased_back_of_moves hex hw' hl'.1 hid) hl'
  have hseen := leased_forth_of_moves he₆ hv hlv.1 hid
  refine hid ((otherLease_eq_false (he₆.wellFormed i₆).workItems).1 ?_ id v hseen hlv)
  simpa using hflush

end Leasing

/-! ## The agent whose lease has gone stale -/

section Stale

open Tx.Prog

variable {c : Call} {x : Db} {agent : Uuid} {t : Time} {w : WorkItem} {cc : CampaignContact} {k : Contact}

theorem leasedTo_of_activeLease (h : activeLease agent t w = true) : LeasedTo agent w := by
  simp only [activeLease, Bool.and_eq_true, decide_eq_true_eq] at h
  exact h.1

/-- A row that meets the condition is not passed over for nothing. -/
theorem firstCandidate_isSome {β : Type} [LinearOrder β] (order : WorkItem → β) {p : WorkItem → Bool}
    (hw : w ∈ x.workItems) (hp : p w = true) (hcc : x.campaignContact w = some cc) (hk : x.contact cc = some k) :
    (firstCandidate x order fun w _ _ => p w).isSome = true := by
  rw [Option.isSome_iff_ne_none]
  intro hnone
  unfold firstCandidate at hnone
  cases hmin : (x.workItems.filter fun w => ((x.campaignContact w).bind fun cc =>
      (x.contact cc).map fun _ => p w).getD false).argmin order with
  | none =>
    rw [List.argmin_eq_none] at hmin
    exact List.filter_eq_nil_iff.1 hmin w hw (by simp [hcc, hk, hp])
  | some v =>
    have hv := (List.mem_filter.1 (List.argmin_mem hmin)).2
    rw [hmin, Option.bind_eq_bind, Option.bind_some] at hnone
    cases hvcc : x.campaignContact v with
    | none => simp [hvcc] at hv
    | some cc' =>
      cases hvk : x.contact cc' with
      | none => simp [hvcc, hvk] at hv
      | some k' => simp [hvcc, hvk] at hnone

/-- The live lease of the agent is what it is looked up by. -/
theorem activeLeaseCandidate_runs (hx : x.WellFormed) (hone : OneLease x) (hw : Table.find x.workItems w.id = some w)
    (hactive : activeLease agent t w = true) (hcc : x.campaignContact w = some cc) (hk : x.contact cc = some k) :
    (activeLeaseCandidate c agent t).Runs x (some ⟨w.id, k.phoneFingerprint, cc.campaignId⟩) x := by
  unfold activeLeaseCandidate
  refine runs_bind.2 ⟨x, x, runs_view.2 ⟨rfl, rfl⟩, runs_pure.2 ⟨?_, rfl⟩⟩
  cases hc : firstCandidate x (fun w => c.rank w.id) (fun w _ _ => activeLease agent t w) with
  | none =>
    have := firstCandidate_isSome (fun w => c.rank w.id) (Table.mem_of_find hw) hactive hcc hk
    rw [hc] at this
    cases this
  | some candidate =>
    obtain ⟨w', cc', k', hw', hcc', hk', hactive', rfl⟩ := firstCandidate_some hc
    have hfind : Table.find x.workItems w'.id = some w' := hx.workItems.find_of_mem hw'
    have hid : w'.id = w.id :=
      hone agent w'.id w.id w' w hfind (leasedTo_of_activeLease hactive') hw (leasedTo_of_activeLease hactive)
    obtain rfl : w' = w := Option.some.inj (hfind.symm.trans (hid ▸ hw))
    obtain rfl := Option.some.inj (hcc'.symm.trans hcc)
    obtain rfl := Option.some.inj (hk'.symm.trans hk)
    rfl

/-- The agent has no lease that could be resumed: none that is live is of an active campaign. -/
def Idle (x : Db) (agent : Uuid) (t : Time) : Prop := ∀ id w, Table.find x.workItems id = some w →
  activeLease agent t w = true → ∀ k, x.campaignOf w = some k → activeCampaign x k = false

/-- The rest of the look, when the row is locked. -/
def resume (c : Call) (w : WorkItem) (cc : CampaignContact) (contact : Contact) : Txn (Option LeaseResult) := do
  match ← getRow "campaign" Db.campaigns cc.campaignId with
  | none => return none
  | some campaign =>
    if campaign.status = .active then
      if ← activeSuppressionExists contact.phoneFingerprint then
        raise (.workItemError "active lease references a suppressed contact")
      else return some (← leaseResult c w cc contact campaign)
    else return none

theorem getActiveLeaseLocked_exec (hx : x.WellFormed) (hone : OneLease x)
    (hw : Table.find x.workItems w.id = some w) (hactive : activeLease agent t w = true)
    (hcc : x.campaignContact w = some cc) (hk : x.contact cc = some k) :
    (getActiveLeaseLocked c agent t).exec x = (resume c w cc k).exec x := by
  have hcand : (activeLeaseCandidate c agent t).Runs x (some ⟨w.id, k.phoneFingerprint, cc.campaignId⟩) x :=
    activeLeaseCandidate_runs hx hone hw hactive hcc hk
  have hphone : (acquire (.phone k.phoneFingerprint) : Txn Unit).Runs x () x := runs_acquire.2 rfl
  have hlock : (selectForUpdate "_get_active_lease_locked" .workItem Db.workItems (activeLease agent t) w.id).Runs x
      (some w) x := runs_selectForUpdate.2 ⟨by simp [hw, hactive, Option.filter], rfl⟩
  have hrow : (getRow "campaign_contact" Db.campaignContacts w.campaignContactId).Runs x (some cc) x :=
    runs_getRow.2 ⟨hcc.symm, rfl⟩
  have hrow' : (getRow "contact" Db.contacts cc.contactId).Runs x (some k) x := runs_getRow.2 ⟨hk.symm, rfl⟩
  unfold getActiveLeaseLocked
  rw [hcand.exec_bind]
  dsimp only
  rw [hphone.exec_bind, hlock.exec_bind]
  dsimp only
  rw [hrow.exec_bind]
  exact hrow'.exec_bind _

theorem resume_inactive (h : activeCampaign x cc.campaignId ≠ true) : (resume c w cc k).Runs x none x := by
  unfold resume
  refine runs_bind.2 ⟨_, x, runs_getRow.2 ⟨rfl, rfl⟩, ?_⟩
  cases hc : Table.find x.campaigns cc.campaignId with
  | none => exact runs_pure.2 ⟨rfl, rfl⟩
  | some campaign =>
    dsimp only
    rw [if_neg fun hst => h (by simp [activeCampaign, hc, hst])]
    exact runs_pure.2 ⟨rfl, rfl⟩

/-- A live lease of an active campaign is resumed, or the look fails; it is not passed over. -/
theorem resume_active (h : activeCampaign x cc.campaignId = true) :
    (∃ lease, (resume c w cc k).Runs x (some lease) x) ∨ ∃ msg, (resume c w cc k).Fails x (.workItemError msg) x := by
  obtain ⟨campaign, hc, hst⟩ := Option.map_eq_some_iff.1 (of_decide_eq_true h)
  have hrow : (getRow "campaign" Db.campaigns cc.campaignId).Runs x (some campaign) x := runs_getRow.2 ⟨hc.symm, rfl⟩
  have hsup : (activeSuppressionExists k.phoneFingerprint).Runs x (x.suppressed k.phoneFingerprint) x :=
    runs_bind.2 ⟨x, x, runs_view.2 ⟨rfl, rfl⟩, runs_pure.2 ⟨rfl, rfl⟩⟩
  have hexec : (resume c w cc k).exec x = (if x.suppressed k.phoneFingerprint = true then
      raise (.workItemError "active lease references a suppressed contact")
      else some <$> leaseResult c w cc k campaign : Txn (Option LeaseResult)).exec x := by
    unfold resume
    rw [hrow.exec_bind]
    dsimp only
    rw [if_pos hst, hsup.exec_bind]
    simp only [map_eq_pure_bind]
  unfold Runs Fails
  rw [hexec]
  cases x.suppressed k.phoneFingerprint with
  | true => exact Or.inr ⟨_, rfl⟩
  | false =>
    unfold leaseResult
    cases w.leaseId with
    | none => exact Or.inr ⟨_, rfl⟩
    | some id =>
      cases w.leaseExpiresAt with
      | none => exact Or.inr ⟨_, rfl⟩
      | some e => exact Or.inl ⟨_, rfl⟩

/-- The look for a lease finds none exactly if the agent is idle. -/
theorem getActiveLeaseLocked_outcome (c : Call) (agent : Uuid) (t : Time) (hx : x.WellFormed) (hone : OneLease x) :
    (Idle x agent t ∧ (getActiveLeaseLocked c agent t).Runs x none x) ∨
    (¬Idle x agent t ∧ ((∃ lease, (getActiveLeaseLocked c agent t).Runs x (some lease) x) ∨
      ∃ msg, (getActiveLeaseLocked c agent t).Fails x (.workItemError msg) x)) := by
  by_cases hlive : ∃ w ∈ x.workItems, activeLease agent t w = true
  · obtain ⟨w, hw, hactive⟩ := hlive
    have hrow := hx.workItems.find_of_mem hw
    obtain ⟨cc, hcc⟩ := hx.campaignContact _ w hrow
    obtain ⟨k, hk⟩ := hx.contact _ cc hcc
    have hcampaign : x.campaignOf w = some cc.campaignId := by rw [Db.campaignOf, hcc, Option.map_some]
    unfold Runs Fails
    rw [getActiveLeaseLocked_exec hx hone hrow hactive hcc hk]
    by_cases hk' : activeCampaign x cc.campaignId = true
    · refine Or.inr ⟨fun hidle => ?_, resume_active hk'⟩
      rw [hidle _ w hrow hactive _ hcampaign] at hk'
      cases hk'
    · refine Or.inl ⟨fun id v hv hvactive i hi => ?_, resume_inactive hk'⟩
      obtain rfl : id = w.id := hone agent _ _ v w hv (leasedTo_of_activeLease hvactive) hrow
        (leasedTo_of_activeLease hactive)
      obtain rfl : v = w := Option.some.inj (hv.symm.trans hrow)
      rw [Option.some.inj (hi.symm.trans hcampaign)]
      simpa using hk'
  · have hnone : ∀ w ∈ x.workItems, activeLease agent t w = false := by simpa using hlive
    refine Or.inl ⟨fun id w hw hactive => ?_, getActiveLeaseLocked_none hnone⟩
    rw [hnone w (Table.mem_of_find hw)] at hactive
    cases hactive

/-- Past the look for a lease, the call is gated by the flag and by the limiter. -/
theorem leaseNext_gated {e : Err} {x' : Db} (hres : (getActiveLeaseLocked c agent (c.utcnow 0)).Runs x none x)
    (h : (leaseNext c agent).Fails x e x') (he : ∀ f, e ≠ .featureDisabled f) (hr : ∀ msg, e ≠ .leaseRateLimited msg) :
    x.flag sharedPoolEnabled = true ∧ c.leaseRateAllows = true := by
  have hlock : (acquire (.idempotency "work.lease.agent" agent "single-active") : Txn Unit).Runs x () x :=
    runs_acquire.2 rfl
  unfold Fails leaseNext at h
  rw [hlock.exec_bind, hres.exec_bind] at h
  dsimp only at h
  cases hflag : x.flag sharedPoolEnabled with
  | false =>
    have hoff : (requireEnabled sharedPoolEnabled).Fails x (.featureDisabled sharedPoolEnabled) x :=
      fails_bind.2 (Or.inr ⟨x, x, runs_view.2 ⟨rfl, rfl⟩, fails_raiseIf.2 ⟨hflag, rfl, rfl⟩⟩)
    cases (fails_bind.2 (Or.inl hoff) : Fails _ x _ x).symm.trans h
    exact absurd rfl (he _)
  | true =>
    have hgate : (requireEnabled sharedPoolEnabled).Runs x () x := runs_requireEnabled.2 ⟨hflag, rfl⟩
    rw [hgate.exec_bind] at h
    cases hrate : c.leaseRateAllows with
    | false =>
      have hlimit : (raiseIf (!c.leaseRateAllows)
          (.leaseRateLimited "you are leasing contacts too quickly; wait a moment") : Txn Unit).Fails x _ x :=
        fails_raiseIf.2 ⟨by simp [hrate], rfl, rfl⟩
      cases (fails_bind.2 (Or.inl hlimit) : Fails _ x _ x).symm.trans h
      exact absurd rfl (hr _)
    | true => exact ⟨rfl, rfl⟩

/-- Of the errors of the call, that of the index is raised exactly for a stale lease that is in the way. -/
theorem leaseNext_refused_iff (hx : x.WellFormed) (hua : Table.Unique x.userAssignments) (hone : OneLease x)
    (ht : ∀ n, c.utcnow n = t) : (∃ x', (leaseNext c agent).Fails x oneActiveLease x') ↔
      (∃ id w, Table.find x.workItems id = some w ∧ LeasedTo agent w) ∧ Idle x agent t ∧
        x.flag sharedPoolEnabled = true ∧ c.leaseRateAllows = true ∧ ¬Exhausted c x agent t := by
  have hnow : c.utcnow 0 = t := ht 0
  have hlock : (acquire (.idempotency "work.lease.agent" agent "single-active") : Txn Unit).Runs x () x :=
    runs_acquire.2 rfl
  obtain ⟨o, ho, hpick, hfound⟩ : ∃ o, (chooseWorkItem c agent (c.utcnow 0) (c.fuel + x.workItems.length + 1)).Runs x o x ∧
      o.map Chosen.workItem = pick c x agent (c.utcnow 0) ∧ ∀ ch, o = some ch → Found x agent (c.utcnow 0) ch :=
    chooseWorkItem_runs hx.workItems hua (by omega)
  rw [hnow] at hpick hfound
  constructor
  · rintro ⟨x', hf⟩
    rcases getActiveLeaseLocked_outcome c agent (c.utcnow 0) hx hone with
      ⟨hidle, hres⟩ | ⟨-, ⟨lease, hres⟩ | ⟨msg, hres⟩⟩
    · obtain ⟨hflag, hrate⟩ := leaseNext_gated hres hf (by simp [oneActiveLease]) (by simp [oneActiveLease])
      have hexec := leaseNext_exec hres hflag hrate ho
      rw [hnow] at hidle
      cases o with
      | none => cases hexec.symm.trans hf
      | some ch =>
        cases hone' : otherLease x agent ch.workItem.id with
        | false =>
          obtain ⟨lease, y, hr, -⟩ := handOut_runs (hfound ch rfl) hone'
          cases (hexec.trans hr).symm.trans hf
        | true =>
          obtain ⟨w, hw, hlw⟩ := List.any_eq_true.1 hone'
          simp only [Bool.and_eq_true, decide_eq_true_eq] at hlw
          refine ⟨⟨w.id, w, hx.workItems.find_of_mem hw, hlw.1⟩, hidle, hflag, hrate, fun hnone => ?_⟩
          rw [(pick_eq_none ht).2 hnone] at hpick
          cases hpick
    · have hrun : (leaseNext c agent).Runs x (some lease) x :=
        runs_bind.2 ⟨(), x, hlock, runs_bind.2 ⟨_, x, hres, runs_pure.2 ⟨rfl, rfl⟩⟩⟩
      exact absurd hrun hf.not_runs
    · have hfail : (leaseNext c agent).Fails x (.workItemError msg) x :=
        fails_bind.2 (Or.inr ⟨(), x, hlock, fails_bind.2 (Or.inl hres)⟩)
      cases hfail.symm.trans hf
  · rintro ⟨⟨id, w, hw, hl⟩, hidle, hflag, hrate, hsome⟩
    rcases getActiveLeaseLocked_outcome c agent (c.utcnow 0) hx hone with ⟨-, hres⟩ | ⟨hbusy, -⟩
    · have hexec := leaseNext_exec hres hflag hrate ho
      cases o with
      | none => exact absurd ((pick_eq_none ht).1 hpick.symm) hsome
      | some ch =>
        have hone' : otherLease x agent ch.workItem.id = true := by
          refine List.any_eq_true.2 ⟨w, Table.mem_of_find hw, ?_⟩
          have hid : w.id ≠ ch.workItem.id := by
            intro hid
            have hfind : Table.find x.workItems ch.workItem.id = some ch.workItem :=
              hx.workItems.find_of_mem (hfound ch rfl).row
            have hsame : w = ch.workItem := by
              have hkey : w.id = id := Table.key_of_find hw
              rw [← hid, hkey, hw] at hfind
              exact Option.some.inj hfind
            exact not_leased_of_conditions (hsame ▸ (hfound ch rfl).condition) hl.1
          simp [hl.1, hl.2, hid]
        obtain ⟨x', hf⟩ := handOut_fails (c := c) hone'
        exact ⟨x', hexec.trans hf⟩
    · exact absurd (hnow ▸ hidle) hbusy

end Stale

end OmniDB.Work

namespace OmniDB.Queue

open Tx
open OmniDB.Work (OneLease LeasedTo NoMore HandedAlone agentKey leasing)

section Effects

variable {op : Op} {a : Result} {held : LockKey → Prop} {x x' : Db}

/-- What a lease that is handed out leaves to be shown. -/
def Op.Alone : Op → Result → (LockKey → Prop) → Db → Db → Prop
  | .leaseNext _ agent, .lease res => HandedAlone agent res
  | _, _ => fun _ _ _ => True

/-- The row that a commit adds to the leased ones. -/
structure Adds (op : Op) (a : Result) (x x' : Db) (c : Call) (agent : Uuid) (lease : Work.LeaseResult) : Prop where
  op : op = .leaseNext c agent
  result : a = .lease (some lease)
  others : ∀ id w', Table.find x'.workItems id = some w' → w'.state = .leased → id ≠ lease.workItemId →
    Table.find x.workItems id = some w'
  owner : ∀ w', Table.find x'.workItems lease.workItemId = some w' → w'.leaseOwnerId = some agent

/-- A commit adds one leased row, or none. -/
theorem Op.Effect.adds (h : op.Effect a held x x') :
    (∃ c agent lease, Adds op a x x' c agent lease) ∨ ∀ agent, NoMore agent x x' := by
  by_cases hq : ∃ c agent, op = .leaseNext c agent
  · obtain ⟨c, agent, rfl⟩ := hq
    cases a
    case lease res =>
      cases res with
      | none =>
        refine Or.inr fun agent id w' hw' hl => ?_
        obtain ⟨w, hw, -, rfl | ⟨-, -, rfl⟩⟩ := h.1.workItem_back hw'
        · exact ⟨_, hw, hl⟩
        · cases hl.1
      | some lease =>
        obtain ⟨rfl, -⟩ | ⟨w, src, b, f, hout⟩ := h
        · exact Or.inr fun agent id w hw hl => ⟨w, hw, hl⟩
        · refine Or.inl ⟨c, agent, lease, rfl, rfl, fun id w' hw' hl hid => ?_, fun w' hw' => ?_⟩
          · have hid : id ≠ w.id := fun hid' => hid (hid'.trans (Table.key_of_find hout.row))
            exact Work.leased_back_of_moves hout.effect hw' hl hid
          · rw [Option.some.inj (hw'.symm.trans hout.leased)]
            rfl
    all_goals exact h.elim
  · refine Or.inr fun agent id w' hw' hl => ?_
    obtain ⟨w, hw, rfl | ⟨-, hc⟩⟩ | hnew := h.row_back hw'
    · exact ⟨_, hw, hl⟩
    · obtain ⟨hwl, howner, -⟩ := Service.sameLease_of_change hc (fun c agent he => hq ⟨c, agent, he⟩) hl.1
      exact ⟨w, hw, hwl, howner.symm.trans hl.2⟩
    · have hstate := hl.1
      rw [hnew] at hstate
      cases hstate

/-- The lease of an agent whose lock is not held is not the one that is handed out. -/
theorem Op.Effect.leasing_within (h : op.Effect a held x x') (halone : op.Alone a held x x') :
    leasing.Within held x x' := by
  refine ⟨trivial, fun k hk agent hka id w' hw' hl => ?_⟩
  subst hka
  rcases h.adds with ⟨c, agent', lease, hadds⟩ | hno
  · obtain ⟨rfl, rfl, hothers, howner⟩ := hadds
    have hid : id ≠ lease.workItemId := by
      rintro rfl
      obtain rfl : agent' = agent := Option.some.inj ((howner w' hw').symm.trans hl.2)
      exact hk halone.1
    exact ⟨w', hothers id w' hw' hl.1 hid, hl⟩
  · exact hno agent id w' hw' hl

/-- Commits that add leases alone keep one lease for each agent. -/
theorem oneLease_step (hx : x.WellFormed) (h : op.Effect a held x x') (halone : op.Alone a held x x')
    (hone : OneLease x) : OneLease x' := by
  intro agent id id' w w' hw hl hw' hl'
  rcases h.adds with ⟨c, owner, lease, hadds⟩ | hno
  · obtain ⟨rfl, rfl, hothers, howner⟩ := hadds
    rcases halone.2 lease rfl with rfl | hnone
    · exact hone agent id id' w w' hw hl hw' hl'
    by_cases hagent : agent = owner
    · subst hagent
      have hlast := (Work.otherLease_eq_false (h.wellFormed hx).workItems).1 hnone
      rw [hlast id w hw hl, hlast id' w' hw' hl']
    · have hback : ∀ i v, Table.find x'.workItems i = some v → LeasedTo agent v → i ≠ lease.workItemId := by
        intro i v hv hlv hi
        subst hi
        exact hagent (Option.some.inj (hlv.2.symm.trans (howner v hv)))
      exact hone agent id id' w w' (hothers id w hw hl.1 (hback id w hw hl)) hl
        (hothers id' w' hw' hl'.1 (hback id' w' hw' hl')) hl'
  · obtain ⟨v, hv, hlv⟩ := hno agent id w hw hl
    obtain ⟨v', hv', hlv'⟩ := hno agent id' w' hw' hl'
    exact hone agent id id' v v' hv hlv hv' hlv'

end Effects

/-- The queue's transactions, under the locks of the rows and of the agents. -/
abbrev leaseProtocol : Protocol Db LockKey Err Result Op :=
  (discipline.meet leasing).protocol body Db.WellFormed fun op a x x' =>
    ∃ held, op.Effect a held x x' ∧ op.Alone a held x x'

theorem body_alone (op : Op) (l : Stand Db LockKey Op) (s : Db) :
    leaseProtocol.wp (body op) (fun a => (discipline.meet leasing).Settles Db.WellFormed (op.Alone a)) l id s := by
  cases op with
  | leaseNext c agent => exact wp_map.2 (Work.leaseNext_handedAlone c agent l s)
  | _ => exact Protocol.wp_mono _ (fun _ _ _ _ _ _ _ _ => trivial) _ _ _ (body_effect _ l s)

theorem leaseProtocol_valid : leaseProtocol.Valid System.Any := by
  refine Discipline.protocol_valid fun op s _ => ?_
  refine Protocol.wp_mono _ (fun a l p s h x hx ix => ?_) _ _ _
    (Protocol.wp_and _ (body_effect op _ s) (body_alone op _ s))
  have he := h.1 x hx.left ix
  have halone := h.2 x hx ix
  exact ⟨(he.within ix).meet (he.leasing_within halone), he.wellFormed ix, l.held, he, halone⟩

section Reaches

variable {v : Db} {s s' : System Db LockKey Err Result Op}

theorem oneLease_of_reaches (hv : v.WellFormed) (hone : OneLease v) (h : Reaches v s) : OneLease s.committed :=
  Protocol.invariant_of_commits leaseProtocol_valid hv hone
    (fun _ _ _ _ hx ⟨_, he, halone⟩ ho => oneLease_step hx he halone ho) h

/-- A lease is handed out to an agent who owns none. -/
theorem free_of_commit {c : Call} {agent : Uuid} {lease : Work.LeaseResult} {x x' : Db} {held : LockKey → Prop}
    (hx : x.WellFormed) (h : Op.Effect (.leaseNext c agent) (.lease (some lease)) held x x')
    (halone : Op.Alone (.leaseNext c agent) (.lease (some lease)) held x x') : x' = x ∨
      (∀ id w, Table.find x.workItems id = some w → ¬LeasedTo agent w) ∧
        ∃ w, Table.find x'.workItems lease.workItemId = some w ∧ LeasedTo agent w := by
  rcases halone.2 lease rfl with hsame | hnone
  · exact Or.inl hsame
  have hlast := (Work.otherLease_eq_false (h.wellFormed hx).workItems).1 hnone
  obtain ⟨rfl, -⟩ | ⟨w, src, b, f, hout⟩ := h
  · exact Or.inl rfl
  refine Or.inr ⟨fun id u hu hl => ?_, _, hout.leased, rfl, rfl⟩
  by_cases hid : id = w.id
  · have hitem : lease.workItemId = w.id := (Table.key_of_find hout.row).symm
    obtain rfl : u = w := Option.some.inj (hu.symm.trans (hid ▸ hitem ▸ hout.row))
    exact Work.not_leased_of_conditions hout.condition hl.1
  · have hstill := Work.leased_forth_of_moves hout.effect hu hl.1 hid
    exact hid ((hlast id u hstill hl).trans (Table.key_of_find hout.row).symm)

/-- In every interleaving of the queue's transactions, no agent owns two leased rows, and a lease is
handed out only to an agent who owns none, live or not. -/
theorem one_lease_per_agent (hv : v.WellFormed) (hone : OneLease v) (h : Reaches v s) : OneLease s.committed ∧
    ∀ i c agent lease s', System.Step body s i (.committed (.leaseNext c agent) (.lease (some lease))) s' →
      s'.committed = s.committed ∨
      (∀ id w, Table.find s.committed.workItems id = some w → ¬LeasedTo agent w) ∧
        ∃ w, Table.find s'.committed.workItems lease.workItemId = some w ∧ LeasedTo agent w := by
  refine ⟨oneLease_of_reaches hv hone h, fun i c agent lease s' hs => ?_⟩
  obtain ⟨-, held, he, halone⟩ := Protocol.commit_of_reaches leaseProtocol_valid hv h hs
  exact free_of_commit (wellFormed_of_reaches hv h) he halone

/-- From any state that an interleaving leaves, a lone call is refused by the index exactly if the agent
owns a stale lease, and there is something to be leased. -/
theorem lease_refused_by_index (hv : v.WellFormed) (hone : OneLease v) (hua : Table.Unique v.userAssignments)
    (h : Reaches v s) {c : Call} {agent : Uuid} {t : Time} (ht : ∀ n, c.utcnow n = t) :
    (∃ x', (Work.leaseNext c agent).Fails s.committed Work.oneActiveLease x') ↔
      (∃ id w, Table.find s.committed.workItems id = some w ∧ LeasedTo agent w) ∧ Work.Idle s.committed agent t ∧
        s.committed.flag Work.sharedPoolEnabled = true ∧ c.leaseRateAllows = true ∧
        ¬Work.Exhausted c s.committed agent t := by
  have hsame : s.committed.userAssignments = v.userAssignments :=
    invariant_of_reaches hv (I := fun x => x.userAssignments = v.userAssignments) rfl
      (fun _ _ _ _ _ _ he hx => (Service.userAssignments_of_effect he).trans hx) h
  exact Work.leaseNext_refused_iff (wellFormed_of_reaches hv h) (hsame ▸ hua) (oneLease_of_reaches hv hone h) ht

end Reaches

/-- Agent 5 asks twice at once, for one of two items. -/
def Demo.twice : List (System.Turn Op) :=
  turns 1 (.leaseNext (call 1) 5) 6 ++ turns 2 (.leaseNext (call 1) 5) 6 ++
    List.replicate 20 (.next 1) ++ List.replicate 20 (.next 2)

theorem one_lease_per_agent_twice :
    OneLease (System.play body { committed := Work.Demo.shelf } Demo.twice).committed ∧
      (Table.find (System.play body { committed := Work.Demo.shelf } Demo.twice).committed.workItems 31).map
        WorkItem.leaseOwnerId = some (some 5) :=
  ⟨(one_lease_per_agent (.of_mem (by decide) (by decide) (by decide) (by decide) (by decide) (by decide))
    (.of_mem (by decide)) (System.reaches_play body Demo.twice _)).1, by decide +kernel⟩

/-- Agent 5 has leased the retry in minute 1. -/
def Demo.stale : System Db LockKey Err Result Op :=
  System.play body { committed := Work.Demo.shelf } (turns 1 (.leaseNext (call 1) 5) 40)

theorem lease_refused_by_index_stale :
    ∃ x', (Work.leaseNext (Demo.call 100) 5).Fails Demo.stale.committed Work.oneActiveLease x' := by
  refine (lease_refused_by_index (.of_mem (by decide) (by decide) (by decide) (by decide) (by decide) (by decide))
    (.of_mem (by decide)) (by decide) (System.reaches_play body _ _) (t := minutes 100) fun _ => rfl).2
    ⟨⟨31, _, rfl, by decide +kernel⟩, ?_, by decide +kernel, rfl, fun hnone => ?_⟩
  · intro id w hw hactive
    have hidle : ∀ w ∈ Demo.stale.committed.workItems, Work.activeLease 5 (minutes 100) w = false := by decide +kernel
    rw [hidle w (Table.mem_of_find hw)] at hactive
    cases hactive
  · have hqueued : Work.queued Demo.stale.committed 5 1 (minutes 100) ≠ [] := by decide +kernel
    exact hqueued (hnone.2 1 (by decide +kernel)).2

end OmniDB.Queue
