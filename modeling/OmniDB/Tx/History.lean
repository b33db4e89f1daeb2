import OmniDB.Tx.RelyGuarantee

/-! Runs that keep their history. Transactions interleave; a request that is not one of
them runs while no transaction does. The commits so far are listed newest first. -/

namespace Tx

/-- A commit: the request, and the committed state before and after. -/
structure Commit (σ Ω : Type) where
  op : Ω
  before : σ
  after : σ

/-- The newest entry of a history for which `p` holds. -/
inductive Latest {τ : Type} (p : τ → Prop) : List τ → τ → Prop where
  | here {t : τ} {older : List τ} (h : p t) : Latest p (t :: older) t
  | there {u t : τ} {older : List τ} (hu : ¬p u) (h : Latest p older t) : Latest p (u :: older) t

theorem Latest.holds {τ : Type} {p : τ → Prop} {hist : List τ} {t : τ} (h : Latest p hist t) : p t := by
  induction h with
  | here h => exact h
  | there _ _ ih => exact ih

/-- An entry for which `p` fails makes no difference. -/
theorem Latest.cons_iff {τ : Type} {p : τ → Prop} {hist : List τ} {u t : τ} (hu : ¬p u) :
    Latest p (u :: hist) t ↔ Latest p hist t := by
  constructor
  · intro h
    cases h with
    | here h => exact absurd h hu
    | there _ h => exact h
  · exact Latest.there hu

section Runs

variable {σ κ ε α ω Ω : Type} [DecidableEq κ]

/-- What a step adds to the history: its commit, if it is one. -/
def Event.record (embed : ω → Ω) (x x' : σ) : Event κ ε α ω → List (Commit σ Ω)
  | .committed op _ => [⟨embed op, x, x'⟩]
  | _ => []

/-- `hist` are the commits of a run from `v` to `s`. The transactions `body` interleave; a
request of `requests` changes the committed state while none of them runs. -/
inductive Recorded (body : ω → Prog σ κ ε α) (embed : ω → Ω) (requests : Ω → σ → σ → Prop) (v : σ) :
    System σ κ ε α ω → List (Commit σ Ω) → Prop where
  | init : Recorded body embed requests v { committed := v } []
  | step {s s' : System σ κ ε α ω} {hist : List (Commit σ Ω)} {i : ℕ} {e : Event κ ε α ω}
      (h : Recorded body embed requests v s hist) (hs : System.Step body s i e s') :
      Recorded body embed requests v s' (e.record embed s.committed s'.committed ++ hist)
  | request {s : System σ κ ε α ω} {hist : List (Commit σ Ω)} {op : Ω} {x' : σ}
      (h : Recorded body embed requests v s hist) (idle : ∀ i, s.threads i = none)
      (hr : requests op s.committed x') :
      Recorded body embed requests v { committed := x' } (⟨op, s.committed, x'⟩ :: hist)

/-- A run goes on by any steps of the transactions. -/
theorem Recorded.reaches {body : ω → Prog σ κ ε α} {embed : ω → Ω} {requests : Ω → σ → σ → Prop} {v : σ}
    {s s' : System σ κ ε α ω} {hist : List (Commit σ Ω)} (h : Recorded body embed requests v s hist)
    (hr : System.Reaches body System.Any s s') : ∃ hist', Recorded body embed requests v s' hist' := by
  induction hr with
  | refl => exact ⟨hist, h⟩
  | tail _ hs ih =>
    obtain ⟨hist', h'⟩ := ih
    obtain ⟨i, e, -, hstep⟩ := hs
    exact ⟨_, h'.step hstep⟩

variable {P : Protocol σ κ ε α ω} {embed : ω → Ω} {requests : Ω → σ → σ → Prop}

/-- What every commit and every request preserves, the history growing by it, holds along the
run, and so does the proof rule of the transactions. -/
theorem Recorded.invariant (hP : P.Valid System.Any) {I : List (Commit σ Ω) → σ → Prop}
    (inv : ∀ hist x, I hist x → P.inv x)
    (commit : ∀ hist op a x x', P.post op a x x' → I hist x → I (⟨embed op, x, x'⟩ :: hist) x')
    (request : ∀ hist op x x', requests op x x' → I hist x → I (⟨op, x, x'⟩ :: hist) x')
    {v : σ} (hv : I [] v) {s : System σ κ ε α ω} {hist : List (Commit σ Ω)}
    (h : Recorded P.body embed requests v s hist) : P.Sound s ∧ I hist s.committed := by
  induction h with
  | init => exact ⟨Protocol.sound_init (inv _ _ hv), hv⟩
  | @step s s' hist i e h hs ih =>
    obtain ⟨hsound, hI⟩ := ih
    refine ⟨hsound.step hP trivial hs, ?_⟩
    cases e with
    | committed op a => exact commit hist op a _ _ (hsound.commit hP hs).2 hI
    | _ =>
      obtain ⟨op, a, he⟩ | he := hs.committed_eq
      · cases he
      · rw [he]
        exact hI
  | request h _ hr ih =>
    have hI := request _ _ _ _ hr ih.2
    exact ⟨Protocol.sound_init (inv _ _ hI), hI⟩

end Runs

end Tx
