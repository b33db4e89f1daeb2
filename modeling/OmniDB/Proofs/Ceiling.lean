import OmniDB.Proofs.Queue

/-! The attempt ceiling. Only a completion looks at `max_attempts`, and only a reviewer
writes it: the new value is compared with the attempts used and not with the old ceiling,
so an item that came to review with attempts to spare can have its ceiling lowered. -/

namespace OmniDB.Queue

open Tx

/-! ## One commit -/

section Commit

variable {op : Op} {a : Result} {held : LockKey → Prop} {x x' : Db} {w w' : WorkItem}

/-- A completion that gives the item back has attempts left. -/
theorem below_ceiling {c : Call} {r : Work.CompleteRequest} (h : Work.Completes c r w w')
    (hs : w'.state = .queued ∨ w'.state = .retryWait ∨ w'.state = .leased) :
    (w'.attemptCount : ℤ) < w'.maxAttempts := by
  rcases h with ⟨-, rfl⟩ | ⟨-, -, d, hd⟩
  · simp [Work.suppressed] at hs
  cases hd with
  | requeue _ _ _ hx | retryWait _ _ hx | redial _ _ _ hx => exact_mod_cast hx
  | dnc => simp [Work.suppressed] at hs
  | callback => simp [Work.callbackFor] at hs
  | review | complete => simp at hs

/-- The item waits for a reviewer, or is done with. -/
def OutOfWork (w : WorkItem) : Prop := w.state = .review ∨ w.state.terminal = true

/-- The operation is a reviewer's decision to try the item again. -/
def Op.TriesAgain (item : Uuid) : Op → Prop
  | .rescheduleReviewItem _ id _ _ _ => id = item
  | .increaseReviewItemAttempts _ id _ _ _ => id = item
  | _ => False

theorem outOfWork_change (hw : w.state = .review) (h : op.Change w w') (hop : ¬op.TriesAgain w.id) :
    OutOfWork w' := by
  cases op
  case leaseNext =>
    rcases h with ⟨-, rfl⟩ | ⟨src, _, hc, -⟩
    · exact Or.inr rfl
    · cases src <;> simp [Work.Source.conditions, hw] at hc
  case completeWorkItem =>
    rcases h with ⟨-, rfl⟩ | ⟨-, hl, -⟩
    · exact Or.inr rfl
    · simp [Work.holdsLease, hw] at hl
  case skipWorkItem | renewLease =>
    have hl := h.lease
    simp [Work.holdsLease, hw] at hl
  case reclaimExpiredLeases | reclaimLeasesForUser =>
    have hl := h.1
    simp [hw] at hl
  case releaseCampaignWorkForAgent =>
    have hl := h.1
    simp [Work.heldBy, hw] at hl
  case rescheduleReviewItem => exact absurd h.1.symm hop
  case increaseReviewItemAttempts => exact absurd h.id.symm hop
  case closeReviewItem =>
    obtain ⟨-, -, rfl⟩ := h
    exact Or.inr rfl
  case getActiveLease | commitImport => exact h.elim

/-- The item is out of work. -/
def Db.OutOfWork (item : Uuid) (x : Db) : Prop :=
  ∃ w, Table.find x.workItems item = some w ∧ Queue.OutOfWork w

theorem outOfWork_step {item : Uuid} (h : op.Effect a held x x') (hop : ¬op.TriesAgain item)
    (ho : Db.OutOfWork item x) : Db.OutOfWork item x' := by
  obtain ⟨w, hw, ho⟩ := ho
  obtain ⟨w', hw', rfl | ⟨ht, hc⟩⟩ := h.row_forth hw
  · exact ⟨_, hw', ho⟩
  · rcases ho with hr | hterm
    · obtain rfl : w.id = item := Table.key_of_find hw
      exact ⟨w', hw', outOfWork_change hr hc hop⟩
    · simp [hterm] at ht

/-- The new maximum of a reviewer is below the present one. -/
def Op.LowersCeiling (x : Db) : Op → Prop
  | .increaseReviewItemAttempts _ id _ newMaxAttempts _ =>
    ∃ w, Table.find x.workItems id = some w ∧ newMaxAttempts < w.maxAttempts
  | _ => False

theorem ceiling_change (hw : Table.find x.workItems w.id = some w) (h : op.Change w w')
    (hop : ¬op.LowersCeiling x) : w.maxAttempts ≤ w'.maxAttempts := by
  cases op
  case leaseNext => rcases h with ⟨-, rfl⟩ | ⟨src, _, -, rfl⟩ <;> exact le_rfl
  case completeWorkItem =>
    rcases h with ⟨-, rfl⟩ | ⟨-, -, d, hd⟩
    · exact le_rfl
    · cases hd <;> exact le_rfl
  case skipWorkItem | renewLease => rw [h.eq]; exact le_rfl
  case reclaimExpiredLeases | reclaimLeasesForUser | rescheduleReviewItem | closeReviewItem =>
    obtain ⟨-, -, rfl⟩ := h
    exact le_rfl
  case releaseCampaignWorkForAgent =>
    obtain ⟨-, rfl⟩ := h
    exact le_rfl
  case increaseReviewItemAttempts =>
    rw [h.eq]
    exact not_lt.1 fun hlt => hop ⟨w, h.id ▸ hw, hlt⟩
  case getActiveLease | commitImport => exact h.elim

/-- No ceiling is lower than before. -/
def CeilingsKept (x x' : Db) : Prop :=
  ∀ id w, Table.find x.workItems id = some w →
    ∃ w', Table.find x'.workItems id = some w' ∧ w.maxAttempts ≤ w'.maxAttempts

theorem ceilingsKept_step (h : op.Effect a held x x') (hop : ¬op.LowersCeiling x) : CeilingsKept x x' := by
  intro id w hw
  obtain ⟨w', hw', rfl | ⟨-, hc⟩⟩ := h.row_forth hw
  · exact ⟨_, hw', le_rfl⟩
  · obtain rfl : w.id = id := Table.key_of_find hw
    exact ⟨w', hw', ceiling_change hw hc hop⟩

theorem CeilingsKept.trans {y : Db} (h : CeilingsKept x y) (h' : CeilingsKept y x') : CeilingsKept x x' := by
  intro id w hw
  obtain ⟨u, hu, hwu⟩ := h id w hw
  obtain ⟨w', hw', huw⟩ := h' id u hu
  exact ⟨w', hw', hwu.trans huw⟩

end Commit

/-! ## Runs -/

/-- No step of the run commits an operation for which `bad` holds. -/
def Without (bad : Db → Op → Prop) (s : System Db LockKey Err Result Op) (_ : ℕ) :
    Event LockKey Err Result Op → Prop
  | .committed op _ => ¬bad s.committed op
  | _ => True

/-- In any run: a completion gives an item back only below its ceiling, an item in review
is out of work until a reviewer tries it again, and while no reviewer enters a new maximum
below the present one no ceiling is lowered. -/
theorem attempt_ceiling {v : Db} (hv : v.WellFormed) {s : System Db LockKey Err Result Op}
    (h : Reaches v s) :
    (∀ i c r res s', System.Step body s i (.committed (.completeWorkItem c r) (.completion res)) s' →
      ∀ item w w', Table.find s.committed.workItems item = some w →
        Table.find s'.committed.workItems item = some w' → w' ≠ w →
        w'.state = .queued ∨ w'.state = .retryWait ∨ w'.state = .leased →
        (w'.attemptCount : ℤ) < w'.maxAttempts) ∧
    (∀ item t, System.Reaches body (Without fun _ op => op.TriesAgain item) s t →
      Db.OutOfWork item s.committed → Db.OutOfWork item t.committed) ∧
    ∀ t, System.Reaches body (Without fun x op => op.LowersCeiling x) s t →
      CeilingsKept s.committed t.committed := by
  refine ⟨fun i c r res s' hs item w w' hw hw' hne hstate => ?_, fun item t hr => ?_, fun t hr => ?_⟩
  · obtain ⟨held, he⟩ := effect_of_commit hv h hs
    obtain ⟨u, hu, rfl | ⟨-, hc⟩⟩ := he.row_forth hw
    · exact absurd (Option.some.inj (hw'.symm.trans hu)) hne
    · obtain rfl : w' = u := Option.some.inj (hw'.symm.trans hu)
      exact below_ceiling hc hstate
  · refine relates_of_reaches (R := fun x y => Db.OutOfWork item x → Db.OutOfWork item y)
      (fun _ h => h) (fun _ _ _ h h' ho => h' (h ho)) hv h (fun t t' i op a held hop he => ?_) hr
    exact outOfWork_step he hop
  · refine relates_of_reaches (fun x id w hw => ⟨w, hw, le_rfl⟩) (fun _ _ _ h h' => h.trans h') hv h
      (fun t t' i op a held hop he => ?_) hr
    exact ceilingsKept_step he hop

/-- Agent 5 leases the contact and completes it as unclear: one attempt of five is used. -/
def Demo.inReview : System Db LockKey Err Result Op :=
  Demo.run (Demo.turns 1 (.leaseNext (Demo.call 1) 5) 40 ++ Demo.turns 1 (Demo.complete 2 1 5 56) 40)

/-- Agent 6 asks for a lease and the expired leases are reclaimed. -/
def Demo.afterReview : List (System.Turn Op) :=
  Demo.turns 1 (.leaseNext (Demo.call 3) 6) 40 ++ Demo.turns 1 (.reclaimExpiredLeases (Demo.call 90)) 20

instance (item : Uuid) (op : Op) : Decidable (op.TriesAgain item) := by
  unfold Op.TriesAgain
  split <;> infer_instance

instance (bad : Db → Op → Prop) [∀ x op, Decidable (bad x op)] (s : System Db LockKey Err Result Op)
    (i : ℕ) (e : Event LockKey Err Result Op) : Decidable (Without bad s i e) := by
  unfold Without
  split <;> infer_instance

theorem attempt_ceiling_inReview :
    Db.OutOfWork 30 (System.play body Demo.inReview Demo.afterReview).committed :=
  (attempt_ceiling Demo.db_wellFormed (Demo.reaches_run _)).2.1 30 _
    ((System.reaches_of_permits Demo.afterReview Demo.inReview (by decide +kernel :
        System.permits body (fun s i e => decide (Without (fun _ op => op.TriesAgain 30) s i e)) _ _ = true)).mono
      fun _ _ _ => of_decide_eq_true)
    ⟨_, rfl, Or.inl rfl⟩

/-- A reviewer "allows more attempts" for it: two in all. -/
def Demo.raised : System Db LockKey Err Result Op :=
  System.play body Demo.inReview
    (Demo.turns 1 (.increaseReviewItemAttempts (Demo.call 3) 30 9 2 "good number") 20)

theorem increase_lowers_ceiling : Reaches Demo.db Demo.inReview ∧
    System.Reaches body System.Any Demo.inReview Demo.raised ∧
    (Table.find Demo.inReview.committed.workItems 30).map WorkItem.maxAttempts = some 5 ∧
    (Table.find Demo.raised.committed.workItems 30).map WorkItem.maxAttempts = some 2 ∧
    ¬CeilingsKept Demo.inReview.committed Demo.raised.committed := by
  have h5 : (Table.find Demo.inReview.committed.workItems 30).map WorkItem.maxAttempts = some 5 := by
    decide +kernel
  have h2 : (Table.find Demo.raised.committed.workItems 30).map WorkItem.maxAttempts = some 2 := by
    decide +kernel
  refine ⟨Demo.reaches_run _, System.reaches_play body _ _, h5, h2, fun h => ?_⟩
  obtain ⟨w, hw, hmax⟩ := Option.map_eq_some_iff.1 h5
  obtain ⟨w', hw', hle⟩ := h 30 w hw
  rw [hw', Option.map_some, Option.some.injEq] at h2
  omega

end OmniDB.Queue
