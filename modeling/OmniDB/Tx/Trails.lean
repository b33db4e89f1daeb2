import OmniDB.Tx.Writes

/-! Runs of transactions, one after the other, that keep a record of every commit, newest first. A
fact about the state is often a fact about the newest commit of some kind and about those after it. -/

namespace Tx

/-- A commit: the request, its result, and the state before and after. -/
structure Deed (σ ω α : Type) where
  op : ω
  result : α
  before : σ
  after : σ

section Trail

variable {σ κ ε α ω : Type}

/-- `hist` are the commits of a run from `v` to the state. Which requests come may depend on what was
committed before; one that fails leaves nothing behind. -/
inductive Trail (body : ω → Prog σ κ ε α) (fits : List (Deed σ ω α) → ω → Prop) (v : σ) :
    List (Deed σ ω α) → σ → Prop where
  | init : Trail body fits v [] v
  | step {hist : List (Deed σ ω α)} {s s' : σ} {op : ω} {a : α} (h : Trail body fits v hist s)
      (hop : fits hist op) (hr : (body op).Runs s a s') : Trail body fits v (⟨op, a, s, s'⟩ :: hist) s'

variable {body : ω → Prog σ κ ε α} {fits : List (Deed σ ω α) → ω → Prop} {v s : σ} {hist : List (Deed σ ω α)}

/-- What every commit preserves, the record growing by it, holds of every run. -/
theorem Trail.invariant {I : List (Deed σ ω α) → σ → Prop} (hv : I [] v)
    (step : ∀ hist op a s s', fits hist op → (body op).Runs s a s' → I hist s → I (⟨op, a, s, s'⟩ :: hist) s')
    (h : Trail body fits v hist s) : I hist s := by
  induction h with
  | init => exact hv
  | step _ hop hr ih => exact step _ _ _ _ _ hop hr ih

/-- A commit of the run starts in a state that the run had reached before. -/
theorem Trail.split {k : Deed σ ω α} (h : Trail body fits v hist s) (hk : k ∈ hist) :
    ∃ newer older, hist = newer ++ k :: older ∧ Trail body fits v older k.before ∧ fits older k.op ∧
      (body k.op).Runs k.before k.result k.after := by
  induction h with
  | init => cases hk
  | @step hist s s' op a h hop hr ih =>
    rcases List.mem_cons.1 hk with rfl | hk
    · exact ⟨[], hist, rfl, h, hop, hr⟩
    · obtain ⟨newer, older, rfl, h'⟩ := ih hk
      exact ⟨_ :: newer, older, rfl, h'⟩

/-- From a commit on, what every later commit preserves still holds at the end. -/
theorem Trail.since {I : σ → Prop} {newer older : List (Deed σ ω α)} {k : Deed σ ω α}
    (step : ∀ hist op a s s', Trail body fits v hist s → fits hist op → (body op).Runs s a s' → I s → I s')
    (h : Trail body fits v (newer ++ k :: older) s) (hk : I k.after) : I s := by
  induction newer generalizing s with
  | nil =>
    cases h with
    | step h hop hr => exact hk
  | cons k' newer ih =>
    cases h with
    | step h hop hr => exact step _ _ _ _ _ h hop hr (ih h)

/-- Play a list of requests, the oldest first; one that does not fit or fails is passed over. -/
def Trail.play (body : ω → Prog σ κ ε α) (fits : List (Deed σ ω α) → ω → Prop) [∀ hist op, Decidable (fits hist op)] :
    List (Deed σ ω α) → σ → List ω → List (Deed σ ω α) × σ
  | hist, s, [] => (hist, s)
  | hist, s, op :: ops =>
    if fits hist op then
      match (body op).transact s with
      | (.ok a, s') => Trail.play body fits (⟨op, a, s, s'⟩ :: hist) s' ops
      | (.error _, _) => Trail.play body fits hist s ops
    else Trail.play body fits hist s ops

theorem trail_play [∀ hist op, Decidable (fits hist op)] (ops : List ω) (h : Trail body fits v hist s) :
    Trail body fits v (Trail.play body fits hist s ops).1 (Trail.play body fits hist s ops).2 := by
  induction ops generalizing hist s with
  | nil => exact h
  | cons op ops ih =>
    unfold Trail.play
    split_ifs with hop
    · split
      · next a s' heq => exact ih (h.step hop (Prog.transact_ok.1 heq))
      · exact ih h
    · exact ih h

end Trail

/-! ## The newest of its kind -/

section Newest

variable {τ β : Type} (f : τ → Option β)

/-- The newest entry that is one, and what it says. -/
def newestOf (hist : List τ) : Option β := hist.findSome? f

/-- The entries that came after it. -/
def sinceNewest (hist : List τ) : List τ := hist.takeWhile fun t => (f t).isNone

variable {f} {hist : List τ} {t : τ} {b : β}

theorem newestOf_cons_of_some (h : f t = some b) : newestOf f (t :: hist) = some b := by
  simp [newestOf, h]

theorem newestOf_cons_of_none (h : f t = none) : newestOf f (t :: hist) = newestOf f hist := by
  simp [newestOf, h]

theorem sinceNewest_cons_of_some (h : f t = some b) : sinceNewest f (t :: hist) = [] := by
  simp [sinceNewest, h]

theorem sinceNewest_cons_of_none (h : f t = none) : sinceNewest f (t :: hist) = t :: sinceNewest f hist := by
  simp [sinceNewest, h]

theorem newestOf_mem (h : newestOf f hist = some b) : ∃ t ∈ hist, f t = some b :=
  List.exists_of_findSome?_eq_some h

end Newest

end Tx
