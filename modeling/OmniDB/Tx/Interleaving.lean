import Mathlib.Data.Nat.Notation
import Mathlib.Logic.Function.Basic
import Mathlib.Logic.Relation
import OmniDB.Tx.Program

/-! Transactions that run at the same time. Each transaction sees, statement by
statement, the committed state with its own writes on top (READ COMMITTED); its
writes reach the committed state when it commits and vanish when it fails or is
aborted. A lock has one owner, or it is shared, and is kept to the end of the transaction:
`lock` is enabled only while no other transaction owns or shares the key, `share` while
no other owns it, and `tryLock` is answered with `false` exactly when `lock` would wait. -/

namespace Tx

/-- What the statements of a transaction were answered, newest first. -/
abbrev Log (σ : Type) := List (String × σ)

structure Thread (σ κ ε α ω : Type) where
  op : ω
  prog : Prog σ κ ε α
  pending : σ → σ := id
  log : Log σ := []

structure System (σ κ ε α ω : Type) where
  committed : σ
  owner : κ → Option ℕ := fun _ => none
  sharers : κ → List ℕ := fun _ => []
  threads : ℕ → Option (Thread σ κ ε α ω) := fun _ => none

inductive Event (κ ε α ω : Type) where
  | began (op : ω)
  | ran (name : String)
  | wrote
  | granted (k : κ)
  | shared (k : κ)
  | refused (k : κ)
  | committed (op : ω) (a : α)
  | failed (op : ω) (e : ε)
  | aborted

namespace System

variable {σ κ ε α ω : Type}

/-- The locks transaction `i` owns. -/
def held (s : System σ κ ε α ω) (i : ℕ) : κ → Prop := fun k => s.owner k = some i

/-- No transaction but `i` owns `k`. -/
def Unowned (s : System σ κ ε α ω) (i : ℕ) (k : κ) : Prop := s.owner k = none ∨ s.owner k = some i

/-- No transaction but `i` owns or shares `k`. -/
def Free (s : System σ κ ε α ω) (i : ℕ) (k : κ) : Prop := s.Unowned i k ∧ ∀ j ∈ s.sharers k, j = i

instance (s : System σ κ ε α ω) (i : ℕ) (k : κ) : Decidable (s.Unowned i k) := by
  unfold Unowned; infer_instance

instance (s : System σ κ ε α ω) (i : ℕ) (k : κ) : Decidable (s.Free i k) := by
  unfold Free; infer_instance

/-- Transaction `i` now stands at `t`. -/
def resume (s : System σ κ ε α ω) (i : ℕ) (t : Thread σ κ ε α ω) : System σ κ ε α ω :=
  { s with threads := Function.update s.threads i (some t) }

def grant [DecidableEq κ] (s : System σ κ ε α ω) (i : ℕ) (k : κ) : System σ κ ε α ω :=
  { s with owner := Function.update s.owner k (some i) }

/-- Transaction `i` shares `k` from now on. -/
def join [DecidableEq κ] (s : System σ κ ε α ω) (i : ℕ) (k : κ) : System σ κ ε α ω :=
  { s with sharers := Function.update s.sharers k (i :: s.sharers k) }

/-- Transaction `i` ends: its locks are released and `v` is committed. -/
def finish (s : System σ κ ε α ω) (i : ℕ) (v : σ) : System σ κ ε α ω :=
  { committed := v
    owner := fun k => if s.owner k = some i then none else s.owner k
    sharers := fun k => (s.sharers k).filter (· ≠ i)
    threads := Function.update s.threads i none }

section Steps

variable [DecidableEq κ]

/-- The step transaction `i` can take next, if it runs and is not waiting. -/
def advance (s : System σ κ ε α ω) (i : ℕ) : Option (Event κ ε α ω × System σ κ ε α ω) :=
  match s.threads i with
  | none => none
  | some t =>
    match t.prog with
    | .done a => some (.committed t.op a, s.finish i (t.pending s.committed))
    | .fail e => some (.failed t.op e, s.finish i s.committed)
    | .stmt n next =>
      some (.ran n, s.resume i
        { t with prog := next (t.pending s.committed), log := (n, t.pending s.committed) :: t.log })
    | .write f next => some (.wrote, s.resume i { t with prog := next, pending := f ∘ t.pending })
    | .lock k next =>
      if s.Free i k then some (.granted k, (s.grant i k).resume i { t with prog := next }) else none
    | .share k next =>
      if s.Unowned i k then some (.shared k, (s.join i k).resume i { t with prog := next }) else none
    | .tryLock k next =>
      if s.Free i k then some (.granted k, (s.grant i k).resume i { t with prog := next true })
      else some (.refused k, s.resume i { t with prog := next false })

theorem advance_committed {s s' : System σ κ ε α ω} {i : ℕ} {op : ω} {a : α}
    (h : s.advance i = some (.committed op a, s')) :
    ∃ t, s.threads i = some t ∧ t.op = op ∧ t.prog = .done a ∧
      s' = s.finish i (t.pending s.committed) := by
  unfold advance at h
  cases ht : s.threads i with
  | none => simp [ht] at h
  | some t =>
    simp only [ht] at h
    cases hp : t.prog with
    | done b =>
      rw [hp] at h
      cases h
      exact ⟨t, rfl, rfl, hp, rfl⟩
    | fail | stmt | write => rw [hp] at h; cases h
    | lock | share | tryLock =>
      rw [hp] at h
      simp only at h
      split_ifs at h <;> cases h

/-- One step of transaction `i`. -/
inductive Step (body : ω → Prog σ κ ε α) :
    System σ κ ε α ω → ℕ → Event κ ε α ω → System σ κ ε α ω → Prop where
  | start {s : System σ κ ε α ω} {i : ℕ} (op : ω) (h : s.threads i = none) :
      Step body s i (.began op) (s.resume i { op := op, prog := body op })
  | run {s s' : System σ κ ε α ω} {i : ℕ} {e : Event κ ε α ω} (h : s.advance i = some (e, s')) :
      Step body s i e s'
  | abort {s : System σ κ ε α ω} {i : ℕ} {t : Thread σ κ ε α ω} (h : s.threads i = some t) :
      Step body s i .aborted (s.finish i s.committed)

/-- Only a commit changes the committed state. -/
theorem Step.committed_eq {body : ω → Prog σ κ ε α} {s s' : System σ κ ε α ω} {i : ℕ}
    {e : Event κ ε α ω} (h : Step body s i e s') :
    (∃ op a, e = .committed op a) ∨ s'.committed = s.committed := by
  cases h with
  | start | abort => exact Or.inr rfl
  | run ha =>
    unfold advance at ha
    cases ht : s.threads i with
    | none => simp [ht] at ha
    | some t =>
      simp only [ht] at ha
      cases hp : t.prog with
      | done a =>
        rw [hp] at ha
        cases ha
        exact Or.inl ⟨_, a, rfl⟩
      | fail | stmt | write =>
        rw [hp] at ha
        cases ha
        exact Or.inr rfl
      | lock | share | tryLock =>
        rw [hp] at ha
        simp only at ha
        split_ifs at ha <;> cases ha <;> exact Or.inr rfl

/-- `s'` can be reached from `s` by steps that all meet `ok`. -/
def Reaches (body : ω → Prog σ κ ε α) (ok : System σ κ ε α ω → ℕ → Event κ ε α ω → Prop) :
    System σ κ ε α ω → System σ κ ε α ω → Prop :=
  Relation.ReflTransGen fun s s' => ∃ i e, ok s i e ∧ Step body s i e s'

/-- No condition on the steps of a run. -/
def Any : System σ κ ε α ω → ℕ → Event κ ε α ω → Prop := fun _ _ _ => True

theorem Reaches.mono {body : ω → Prog σ κ ε α} {ok ok' : System σ κ ε α ω → ℕ → Event κ ε α ω → Prop}
    {s s' : System σ κ ε α ω} (hok : ∀ s i e, ok s i e → ok' s i e) (h : Reaches body ok s s') :
    Reaches body ok' s s' := by
  induction h with
  | refl => exact .refl
  | tail _ hs ih =>
    obtain ⟨i, e, he, hstep⟩ := hs
    exact ih.tail ⟨i, e, hok _ _ _ he, hstep⟩

/-- A schedule: start `op` in slot `i`, or let slot `i` take its next step. -/
inductive Turn (ω : Type) where
  | start (i : ℕ) (op : ω)
  | next (i : ℕ)

def play (body : ω → Prog σ κ ε α) : System σ κ ε α ω → List (Turn ω) → System σ κ ε α ω
  | s, [] => s
  | s, .start i op :: ts =>
    match s.threads i with
    | none => play body (s.resume i { op := op, prog := body op }) ts
    | some _ => play body s ts
  | s, .next i :: ts =>
    match s.advance i with
    | some (_, s') => play body s' ts
    | none => play body s ts

/-- Every step of the schedule meets the condition. -/
def permits (body : ω → Prog σ κ ε α) (ok : System σ κ ε α ω → ℕ → Event κ ε α ω → Bool) :
    System σ κ ε α ω → List (Turn ω) → Bool
  | _, [] => true
  | s, .start i op :: ts =>
    match s.threads i with
    | none => ok s i (.began op) && permits body ok (s.resume i { op := op, prog := body op }) ts
    | some _ => permits body ok s ts
  | s, .next i :: ts =>
    match s.advance i with
    | some (e, s') => ok s i e && permits body ok s' ts
    | none => permits body ok s ts

theorem reaches_of_permits {body : ω → Prog σ κ ε α}
    {ok : System σ κ ε α ω → ℕ → Event κ ε α ω → Bool} (ts : List (Turn ω)) (s : System σ κ ε α ω)
    (h : permits body ok s ts = true) : Reaches body (fun s i e => ok s i e = true) s (play body s ts) := by
  induction ts generalizing s with
  | nil => exact .refl
  | cons t ts ih =>
    cases t with
    | start i op =>
      simp only [play, permits] at h ⊢
      split
      · rename_i ht
        simp only [ht, Bool.and_eq_true] at h
        exact .head ⟨i, _, h.1, .start op ht⟩ (ih _ h.2)
      · rename_i ht
        simp only [ht] at h
        exact ih _ h
    | next i =>
      simp only [play, permits] at h ⊢
      split
      · rename_i ha
        simp only [ha, Bool.and_eq_true] at h
        exact .head ⟨i, _, h.1, .run ha⟩ (ih _ h.2)
      · rename_i ha
        simp only [ha] at h
        exact ih _ h

/-- Transaction `i` is about to commit, and `f` holds of its operation and result. -/
def ready (s : System σ κ ε α ω) (i : ℕ) (f : ω → α → Bool) : Bool :=
  (s.threads i).any fun t => match t.prog with
    | .done a => f t.op a
    | _ => false

theorem step_of_ready (body : ω → Prog σ κ ε α) {s : System σ κ ε α ω} {i : ℕ} {f : ω → α → Bool}
    (h : s.ready i f = true) : ∃ t a, s.threads i = some t ∧ f t.op a = true ∧
      Step body s i (.committed t.op a) (s.finish i (t.pending s.committed)) := by
  obtain ⟨t, ht, hf⟩ := (Option.any_eq_true ..).1 h
  split at hf
  · rename_i a hp
    exact ⟨t, a, ht, hf, .run (by simp [advance, ht, hp])⟩
  · cases hf

/-- The same, as a turn of a schedule. -/
theorem step_play_of_ready (body : ω → Prog σ κ ε α) {s : System σ κ ε α ω} {i : ℕ} {f : ω → α → Bool}
    (h : s.ready i f = true) : ∃ op a, f op a = true ∧ Step body s i (.committed op a) (play body s [.next i]) := by
  obtain ⟨t, ht, hf⟩ := (Option.any_eq_true ..).1 h
  split at hf
  · rename_i a hp
    have ha : s.advance i = some (.committed t.op a, s.finish i (t.pending s.committed)) := by simp [advance, ht, hp]
    refine ⟨t.op, a, hf, ?_⟩
    rw [show play body s [.next i] = s.finish i (t.pending s.committed) by simp [play, ha]]
    exact .run ha
  · cases hf

theorem permits_true (body : ω → Prog σ κ ε α) (ts : List (Turn ω)) (s : System σ κ ε α ω) :
    permits body (fun _ _ _ => true) s ts = true := by
  induction ts generalizing s with
  | nil => rfl
  | cons t ts ih =>
    cases t <;> simp only [permits, Bool.true_and] <;> split <;> exact ih _

theorem reaches_play (body : ω → Prog σ κ ε α) (ts : List (Turn ω)) (s : System σ κ ε α ω) :
    Reaches body Any s (play body s ts) :=
  (reaches_of_permits ts s (permits_true body ts s)).mono fun _ _ _ _ => trivial

end Steps

section Accessors

variable (s : System σ κ ε α ω) (i : ℕ) (t : Thread σ κ ε α ω) (k : κ) (v : σ)

@[simp] theorem resume_committed : (s.resume i t).committed = s.committed := rfl
@[simp] theorem resume_owner : (s.resume i t).owner = s.owner := rfl
@[simp] theorem resume_self : (s.resume i t).threads i = some t := Function.update_self ..
@[simp] theorem held_resume {j : ℕ} : (s.resume i t).held j = s.held j := rfl
@[simp] theorem grant_committed [DecidableEq κ] : (s.grant i k).committed = s.committed := rfl
@[simp] theorem grant_threads [DecidableEq κ] : (s.grant i k).threads = s.threads := rfl
@[simp] theorem join_committed [DecidableEq κ] : (s.join i k).committed = s.committed := rfl
@[simp] theorem join_threads [DecidableEq κ] : (s.join i k).threads = s.threads := rfl
@[simp] theorem held_join [DecidableEq κ] {j : ℕ} : (s.join i k).held j = s.held j := rfl
@[simp] theorem finish_committed : (s.finish i v).committed = v := rfl
@[simp] theorem finish_self : (s.finish i v).threads i = none := Function.update_self ..

theorem resume_ne {j : ℕ} (h : j ≠ i) : (s.resume i t).threads j = s.threads j :=
  Function.update_of_ne h _ _

theorem finish_ne {j : ℕ} (h : j ≠ i) : (s.finish i v).threads j = s.threads j :=
  Function.update_of_ne h _ _

theorem held_grant_self [DecidableEq κ] : (s.grant i k).held i = fun x => x = k ∨ s.held i x := by
  funext x
  by_cases h : x = k
  · subst h; simp [held, grant]
  · simp [held, grant, h]

theorem held_grant_ne [DecidableEq κ] {j : ℕ} (hf : s.Free i k) (h : j ≠ i) : (s.grant i k).held j = s.held j := by
  funext x
  by_cases hx : x = k
  · subst hx
    rcases hf.1 with hf | hf <;> simp [held, grant, hf, Ne.symm h]
  · simp [held, grant, Function.update_of_ne hx]

theorem held_finish_ne {j : ℕ} (h : j ≠ i) : (s.finish i v).held j = s.held j := by
  funext x
  simp only [held, finish]
  split_ifs with hx
  · simp [hx, Ne.symm h]
  · rfl

theorem held_finish_self : (s.finish i v).held i = fun _ => False := by
  funext x
  simp only [held, finish]
  split_ifs with hx
  · simp
  · simp [hx]

/-- Two transactions never own the same lock. -/
theorem held_disjoint {i j : ℕ} (h : i ≠ j) {x : κ} (hi : s.held i x) : ¬s.held j x := by
  intro hj
  exact h (Option.some.inj (hi.symm.trans hj))

end Accessors

/-- A step of transaction `i` is for the operation it began with, and leaves the others where they are. -/
theorem advance_threads [DecidableEq κ] {s s' : System σ κ ε α ω} {i : ℕ} {e : Event κ ε α ω}
    (h : s.advance i = some (e, s')) : (∀ j, j ≠ i → s'.threads j = s.threads j) ∧
      ∀ u, s'.threads i = some u → ∃ t, s.threads i = some t ∧ t.op = u.op := by
  unfold advance at h
  cases ht : s.threads i with
  | none => simp [ht] at h
  | some t =>
    have hresume {s₁ : System σ κ ε α ω} {u : Thread σ κ ε α ω} (hs : s₁.threads = s.threads) (hu : u.op = t.op) :
        (∀ j, j ≠ i → (s₁.resume i u).threads j = s.threads j) ∧
          ∀ v, (s₁.resume i u).threads i = some v → ∃ t', some t = some t' ∧ t'.op = v.op := by
      refine ⟨fun j hj => by rw [resume_ne _ _ _ hj, hs], fun v hv => ⟨t, rfl, ?_⟩⟩
      rw [resume_self] at hv
      cases hv
      exact hu.symm
    simp only [ht] at h
    cases hp : t.prog with
    | done | fail =>
      rw [hp] at h
      cases h
      exact ⟨fun j hj => finish_ne _ _ _ hj, fun u hu => by simp at hu⟩
    | stmt | write =>
      rw [hp] at h
      cases h
      exact hresume rfl rfl
    | lock | share | tryLock =>
      rw [hp] at h
      simp only at h
      split_ifs at h <;> cases h <;> exact hresume rfl rfl

/-- What is known of every operation that begins is known of every operation that runs. -/
theorem ops_of_reaches [DecidableEq κ] {body : ω → Prog σ κ ε α} {ok : System σ κ ε α ω → ℕ → Event κ ε α ω → Prop}
    {C : ω → Prop} (hC : ∀ s i op, ok s i (.began op) → C op) {v : σ} {s : System σ κ ε α ω}
    (hr : Reaches body ok { committed := v } s) : ∀ i t, s.threads i = some t → C t.op := by
  induction hr with
  | refl =>
    intro i t ht
    cases ht
  | tail _ hs ih =>
    obtain ⟨i, e, hok, hstep⟩ := hs
    intro j u hu
    by_cases hj : j = i
    · subst hj
      cases hstep with
      | start op h =>
        rw [resume_self] at hu
        cases hu
        exact hC _ _ _ hok
      | run ha =>
        obtain ⟨t, ht, hop⟩ := (advance_threads ha).2 u hu
        exact hop ▸ ih j t ht
      | abort h => simp at hu
    · refine ih j u ?_
      cases hstep with
      | start op h => rwa [resume_ne _ _ _ hj] at hu
      | run ha => rwa [(advance_threads ha).1 j hj] at hu
      | abort h => rwa [finish_ne _ _ _ hj] at hu

end System

end Tx
