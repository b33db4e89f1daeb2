import Mathlib.Logic.Relation
import Mathlib.Tactic.SplitIfs

/-! Transaction bodies. A program is the tree of what one transaction may do to a
database of type `σ`: run a statement and read its answer, write, take a lock on
a key of type `κ`, for itself or together with others, try a lock without waiting, and end
with a value or with an error. `exec` runs one body alone; the interleaved meaning is in
`OmniDB.Tx.Interleaving`. -/

namespace Tx

/-- `stmt name next` is one statement: `next` receives the state it sees. The name
is what a run condition can refer to. -/
inductive Prog (σ κ ε α : Type) where
  | done (a : α)
  | fail (e : ε)
  | stmt (name : String) (next : σ → Prog σ κ ε α)
  | write (f : σ → σ) (next : Prog σ κ ε α)
  | lock (k : κ) (next : Prog σ κ ε α)
  | share (k : κ) (next : Prog σ κ ε α)
  | tryLock (k : κ) (next : Bool → Prog σ κ ε α)

namespace Prog

variable {σ κ ε α β : Type}

def bind : Prog σ κ ε α → (α → Prog σ κ ε β) → Prog σ κ ε β
  | done a, f => f a
  | fail e, _ => fail e
  | stmt n next, f => stmt n fun v => (next v).bind f
  | write g next, f => write g (next.bind f)
  | lock k next, f => lock k (next.bind f)
  | share k next, f => share k (next.bind f)
  | tryLock k next, f => tryLock k fun b => (next b).bind f

instance : Monad (Prog σ κ ε) where
  pure := done
  bind := bind

theorem pure_eq (a : α) : (pure a : Prog σ κ ε α) = done a := rfl
theorem bind_eq (p : Prog σ κ ε α) (f : α → Prog σ κ ε β) : p >>= f = p.bind f := rfl

instance : LawfulMonad (Prog σ κ ε) := LawfulMonad.mk' _
  (fun p => by
    change p.bind (fun a => done a) = p
    induction p with
    | done | fail => rfl
    | stmt n next ih => simp only [bind, ih]
    | write g next ih => simp only [bind, ih]
    | lock k next ih => simp only [bind, ih]
    | share k next ih => simp only [bind, ih]
    | tryLock k next ih => simp only [bind, ih])
  (fun _ _ => rfl)
  (fun p f g => by
    change (p.bind f).bind g = p.bind fun a => (f a).bind g
    induction p with
    | done | fail => rfl
    | stmt n next ih => simp only [bind, ih]
    | write g next ih => simp only [bind, ih]
    | lock k next ih => simp only [bind, ih]
    | share k next ih => simp only [bind, ih]
    | tryLock k next ih => simp only [bind, ih])

/-- The statement `name`, answered with the whole state it sees. -/
def view (name : String) : Prog σ κ ε σ := stmt name done

def update (f : σ → σ) : Prog σ κ ε Unit := write f (done ())

def acquire (k : κ) : Prog σ κ ε Unit := lock k (done ())

/-- `FOR KEY SHARE`: any number of transactions may share a key that none owns. -/
def acquireShared (k : κ) : Prog σ κ ε Unit := share k (done ())

def tryAcquire (k : κ) : Prog σ κ ε Bool := tryLock k done

def raise (e : ε) : Prog σ κ ε α := fail e

/-- `if cond: raise e`. -/
def raiseIf (c : Prop) [Decidable c] (e : ε) : Prog σ κ ε Unit := if c then fail e else done ()

/-- The value of an optional row, or the error. -/
def expect (o : Option α) (e : ε) : Prog σ κ ε α :=
  match o with
  | some a => done a
  | none => fail e

/-- A pure computation that may raise. -/
def ofExcept : Except ε α → Prog σ κ ε α
  | .ok a => done a
  | .error e => fail e

/-- `try`/`except`: what was written before the error stays written. -/
def handle : Prog σ κ ε α → (ε → Prog σ κ ε α) → Prog σ κ ε α
  | done a, _ => done a
  | fail e, h => h e
  | stmt n next, h => stmt n fun v => (next v).handle h
  | write g next, h => write g (next.handle h)
  | lock k next, h => lock k (next.handle h)
  | share k next, h => share k (next.handle h)
  | tryLock k next, h => tryLock k fun b => (next b).handle h

/-- The body run with no other transaction about: every lock is granted. -/
def exec : Prog σ κ ε α → σ → Except ε α × σ
  | done a, s => (.ok a, s)
  | fail e, s => (.error e, s)
  | stmt _ next, s => exec (next s) s
  | write f next, s => exec next (f s)
  | lock _ next, s => exec next s
  | share _ next, s => exec next s
  | tryLock _ next, s => exec (next true) s

attribute [local simp] exec

/-- `p` run alone from `s` ends normally with `a` and leaves `s'`. -/
def Runs (p : Prog σ κ ε α) (s : σ) (a : α) (s' : σ) : Prop := p.exec s = (.ok a, s')

/-- A transaction that runs alone: an error rolls everything back. -/
def transact (p : Prog σ κ ε α) (s : σ) : Except ε α × σ :=
  match p.exec s with
  | (.ok a, s') => (.ok a, s')
  | (.error e, _) => (.error e, s)

theorem exec_bind (p : Prog σ κ ε α) (f : α → Prog σ κ ε β) (s : σ) :
    (p >>= f).exec s = match p.exec s with
      | (.ok a, s') => (f a).exec s'
      | (.error e, s') => (.error e, s') := by
  rw [bind_eq]
  induction p generalizing s with
  | done | fail => rfl
  | stmt n next ih => exact ih s s
  | write g next ih => exact ih (g s)
  | lock k next ih => exact ih s
  | share k next ih => exact ih s
  | tryLock k next ih => exact ih true s

theorem runs_bind {p : Prog σ κ ε α} {f : α → Prog σ κ ε β} {s : σ} {b : β} {s'' : σ} :
    (p >>= f).Runs s b s'' ↔ ∃ a s', p.Runs s a s' ∧ (f a).Runs s' b s'' := by
  unfold Runs
  rw [exec_bind]
  rcases h : p.exec s with ⟨_ | a, s'⟩
  · simp
  · constructor
    · exact fun hf => ⟨a, s', rfl, hf⟩
    · rintro ⟨b, t, hp, hf⟩
      cases hp
      exact hf

@[simp] theorem runs_pure {a b : α} {s s' : σ} :
    (pure a : Prog σ κ ε α).Runs s b s' ↔ b = a ∧ s' = s := by
  simp [Runs, pure_eq, exec, eq_comm]

@[simp] theorem runs_raise {e : ε} {s s' : σ} {b : α} :
    ¬(raise e : Prog σ κ ε α).Runs s b s' := by
  simp [Runs, raise, exec]

@[simp] theorem runs_view {n : String} {s s' v : σ} :
    (view n : Prog σ κ ε σ).Runs s v s' ↔ v = s ∧ s' = s := by
  simp [Runs, view, exec, eq_comm]

@[simp] theorem runs_update {f : σ → σ} {s s' : σ} {u : Unit} :
    (update f : Prog σ κ ε Unit).Runs s u s' ↔ s' = f s := by
  simp [Runs, update, exec, eq_comm]

@[simp] theorem runs_acquire {k : κ} {s s' : σ} {u : Unit} :
    (acquire k : Prog σ κ ε Unit).Runs s u s' ↔ s' = s := by
  simp [Runs, acquire, exec, eq_comm]

@[simp] theorem runs_acquireShared {k : κ} {s s' : σ} {u : Unit} :
    (acquireShared k : Prog σ κ ε Unit).Runs s u s' ↔ s' = s := by
  simp [Runs, acquireShared, exec, eq_comm]

@[simp] theorem runs_tryAcquire {k : κ} {s s' : σ} {b : Bool} :
    (tryAcquire k : Prog σ κ ε Bool).Runs s b s' ↔ b = true ∧ s' = s := by
  simp [Runs, tryAcquire, exec, eq_comm]

@[simp] theorem runs_raiseIf {c : Prop} [Decidable c] {e : ε} {s s' : σ} {u : Unit} :
    (raiseIf c e : Prog σ κ ε Unit).Runs s u s' ↔ ¬c ∧ s' = s := by
  unfold raiseIf
  split_ifs with h
  · simp [Runs, exec, h]
  · simp [Runs, exec, h, eq_comm]

@[simp] theorem runs_expect {o : Option α} {e : ε} {s s' : σ} {a : α} :
    (expect o e : Prog σ κ ε α).Runs s a s' ↔ o = some a ∧ s' = s := by
  cases o with
  | none => simp [expect, Runs, exec]
  | some b => simp [expect, Runs, exec, eq_comm]

@[simp] theorem runs_ofExcept {r : Except ε α} {s s' : σ} {a : α} :
    (ofExcept r : Prog σ κ ε α).Runs s a s' ↔ r = .ok a ∧ s' = s := by
  cases r with
  | error e => simp [ofExcept, Runs, exec]
  | ok b => simp [ofExcept, Runs, exec, eq_comm]

@[simp] theorem runs_map {f : α → β} {p : Prog σ κ ε α} {s s' : σ} {b : β} :
    (f <$> p).Runs s b s' ↔ ∃ a, p.Runs s a s' ∧ b = f a := by
  rw [map_eq_pure_bind, runs_bind]
  constructor
  · rintro ⟨a, t, hp, hf⟩
    obtain ⟨rfl, rfl⟩ := runs_pure.1 hf
    exact ⟨a, hp, rfl⟩
  · rintro ⟨a, hp, rfl⟩
    exact ⟨a, s', hp, runs_pure.2 ⟨rfl, rfl⟩⟩

/-- A statement that is run in one case only, before the common rest. -/
theorem runs_when {c : Prop} [Decidable c] {p : Prog σ κ ε Unit} {f : Unit → Prog σ κ ε α} {s s' : σ} {a : α} :
    (if c then p >>= f else f ()).Runs s a s' ↔
      ∃ t, (if c then p else pure ()).Runs s () t ∧ (f ()).Runs t a s' := by
  split_ifs with h
  · rw [runs_bind]
    exact ⟨fun ⟨(), h⟩ => h, fun h => ⟨(), h⟩⟩
  · simp

theorem transact_ok {p : Prog σ κ ε α} {s s' : σ} {a : α} :
    p.transact s = (.ok a, s') ↔ p.Runs s a s' := by
  unfold transact Runs
  rcases p.exec s with ⟨_ | b, s''⟩ <;> simp

/-- A transaction that fails leaves the state it started from. -/
theorem transact_error {p : Prog σ κ ε α} {s s' : σ} {e : ε}
    (h : p.transact s = (.error e, s')) : s' = s := by
  unfold transact at h
  rcases hp : p.exec s with ⟨_ | b, s''⟩
  · rw [hp] at h
    cases h
    rfl
  · rw [hp] at h
    cases h

theorem transact_eq_error {p : Prog σ κ ε α} {s : σ} {e : ε} (h : (p.transact s).1 = .error e) :
    p.transact s = (.error e, s) :=
  Prod.ext h (transact_error (Prod.ext h rfl))

/-- The loop over a list keeps an invariant of the rows already done, the
accumulator and the state. -/
theorem runs_foldlM {γ : Type} {f : α → γ → Prog σ κ ε α} {M : List γ → α → σ → Prop}
    (step : ∀ done x a s a' s', M done a s → (f a x).Runs s a' s' → M (done ++ [x]) a' s') :
    ∀ (xs done : List γ) {a : α} {s : σ} {a' : α} {s' : σ}, M done a s →
      (xs.foldlM f a : Prog σ κ ε α).Runs s a' s' → M (done ++ xs) a' s' := by
  intro xs
  induction xs with
  | nil =>
    intro done a s a' s' hM h
    rw [List.foldlM_nil, runs_pure] at h
    obtain ⟨rfl, rfl⟩ := h
    simpa using hM
  | cons x xs ih =>
    intro done a s a' s' hM h
    rw [List.foldlM_cons, runs_bind] at h
    obtain ⟨b, t, hx, hxs⟩ := h
    have := ih (done ++ [x]) (step _ _ _ _ _ _ hM hx) hxs
    simpa using this

/-- A loop whose rounds only read is a fold. -/
theorem runs_foldlM_read {γ : Type} {f : α → γ → Prog σ κ ε α} {g : α → γ → α} {s : σ}
    (hf : ∀ a x a' s', (f a x).Runs s a' s' ↔ a' = g a x ∧ s' = s) (xs : List γ) {a a' : α} {s' : σ} :
    (xs.foldlM f a : Prog σ κ ε α).Runs s a' s' ↔ a' = xs.foldl g a ∧ s' = s := by
  induction xs generalizing a with
  | nil => exact runs_pure
  | cons x xs ih =>
    rw [List.foldlM_cons, runs_bind, List.foldl_cons]
    constructor
    · rintro ⟨b, t, hx, hxs⟩
      obtain ⟨rfl, rfl⟩ := (hf ..).1 hx
      exact ih.1 hxs
    · intro h
      exact ⟨g a x, s, (hf ..).2 ⟨rfl, rfl⟩, ih.2 h⟩

/-- A loop whose rounds only read and may refuse: no round does, and it is a fold. -/
theorem runs_foldlM_checked {γ : Type} {f : α → γ → Prog σ κ ε α} {ok : α → γ → Prop} {g : α → γ → α} {s : σ}
    (hf : ∀ a x a' s', (f a x).Runs s a' s' ↔ ok a x ∧ a' = g a x ∧ s' = s) (xs : List γ) {a a' : α} {s' : σ} :
    (xs.foldlM f a : Prog σ κ ε α).Runs s a' s' ↔
      (∀ done x rest, xs = done ++ x :: rest → ok (done.foldl g a) x) ∧ a' = xs.foldl g a ∧ s' = s := by
  induction xs generalizing a with
  | nil => simp
  | cons x xs ih =>
    rw [List.foldlM_cons, runs_bind, List.foldl_cons]
    constructor
    · rintro ⟨b, t, hx, hxs⟩
      obtain ⟨hok, rfl, rfl⟩ := (hf ..).1 hx
      obtain ⟨hrest, hxs⟩ := ih.1 hxs
      refine ⟨fun done y rest hsplit => ?_, hxs⟩
      rcases List.cons_eq_append_iff.1 hsplit with ⟨rfl, hy⟩ | ⟨done', rfl, hxs'⟩
      · obtain ⟨rfl, -⟩ := List.cons.inj hy
        exact hok
      · exact hrest done' y rest hxs'
    · rintro ⟨hok, hxs⟩
      exact ⟨g a x, s, (hf ..).2 ⟨hok [] x xs rfl, rfl, rfl⟩,
        ih.2 ⟨fun done y rest hsplit => hok (x :: done) y rest (congrArg (x :: ·) hsplit), hxs⟩⟩

theorem not_runs_of_error {p : Prog σ κ ε α} {s s' : σ} {a : α} {e : ε} (h : (p.transact s).1 = .error e) :
    ¬p.Runs s a s' := by
  intro hr
  rw [transact_ok.2 hr] at h
  cases h

/-- A loop whose rounds check the element and then update the state. -/
theorem runs_forM {γ : Type} {f : γ → Prog σ κ ε PUnit} {ok : γ → Prop} {g : γ → σ → σ}
    (hf : ∀ x s u s', (f x).Runs s u s' ↔ ok x ∧ s' = g x s) (xs : List γ) {s s' : σ} {u : PUnit} :
    (xs.forM f).Runs s u s' ↔ (∀ x ∈ xs, ok x) ∧ s' = xs.foldl (fun s x => g x s) s := by
  induction xs generalizing s with
  | nil => simp [List.forM]
  | cons x xs ih =>
    have hcons : (List.forM (x :: xs) f).Runs s u s' ↔ ∃ a t, (f x).Runs s a t ∧ (xs.forM f).Runs t u s' := runs_bind
    rw [hcons, List.forall_mem_cons, List.foldl_cons]
    constructor
    · rintro ⟨_, _, hx, hxs⟩
      obtain ⟨hok, rfl⟩ := (hf _ _ _ _).1 hx
      obtain ⟨hall, rfl⟩ := ih.1 hxs
      exact ⟨⟨hok, hall⟩, rfl⟩
    · rintro ⟨⟨hok, hall⟩, rfl⟩
      exact ⟨⟨⟩, _, (hf _ _ _ _).2 ⟨hok, rfl⟩, ih.2 ⟨hall, rfl⟩⟩

/-- The state a transaction that runs alone leaves is the old one, or that of a normal end. -/
theorem transact_cases {p : Prog σ κ ε α} {s s' : σ} (h : (p.transact s).2 = s') :
    s' = s ∨ ∃ a, p.Runs s a s' := by
  rcases ht : p.transact s with ⟨e | a, t⟩
  · rw [ht] at h
    exact Or.inl (h ▸ transact_error ht)
  · rw [ht] at h
    exact Or.inr ⟨a, h ▸ transact_ok.1 ht⟩

/-- `s'` can be reached from `s` by transactions that run one after the other, each started
in a state where `ok` allows it. -/
def Serial {ω : Type} (body : ω → Prog σ κ ε α) (ok : σ → ω → Prop) : σ → σ → Prop :=
  Relation.ReflTransGen fun s s' => ∃ op, ok s op ∧ ((body op).transact s).2 = s'

/-- What every transaction preserves holds after any number of them. -/
theorem Serial.invariant {ω : Type} {body : ω → Prog σ κ ε α} {ok : σ → ω → Prop} {I : σ → Prop}
    (step : ∀ op s a s', I s → ok s op → (body op).Runs s a s' → I s') {s s' : σ}
    (h : Serial body ok s s') (hs : I s) : I s' := by
  induction h with
  | refl => exact hs
  | tail _ ht ih =>
    obtain ⟨op, hok, heq⟩ := ht
    rcases transact_cases heq with rfl | ⟨a, hr⟩
    · exact ih
    · exact step op _ a _ ih hok hr

/-- The states of a list of transactions, one after the other. -/
def serially {ω : Type} (body : ω → Prog σ κ ε α) (s : σ) (ops : List ω) : σ :=
  ops.foldl (fun s op => ((body op).transact s).2) s

theorem serial_serially {ω : Type} {body : ω → Prog σ κ ε α} {ok : σ → ω → Prop} {ops : List ω}
    (hok : ∀ op ∈ ops, ∀ s, ok s op) (s : σ) : Serial body ok s (serially body s ops) := by
  induction ops generalizing s with
  | nil => exact .refl
  | cons op ops ih =>
    exact .head ⟨op, hok op (List.mem_cons_self ..) s, rfl⟩
      (ih (fun op h => hok op (List.mem_cons_of_mem _ h)) _)

/-- Whether each of the transactions is allowed in the state it starts from. -/
def allowed {ω : Type} (body : ω → Prog σ κ ε α) (ok : σ → ω → Bool) : σ → List ω → Bool
  | _, [] => true
  | s, op :: ops => ok s op && allowed body ok ((body op).transact s).2 ops

theorem serial_of_allowed {ω : Type} {body : ω → Prog σ κ ε α} {ok : σ → ω → Prop}
    [∀ s op, Decidable (ok s op)] {ops : List ω} {s : σ}
    (h : allowed body (fun s op => decide (ok s op)) s ops = true) : Serial body ok s (serially body s ops) := by
  induction ops generalizing s with
  | nil => exact .refl
  | cons op ops ih =>
    rw [allowed, Bool.and_eq_true, decide_eq_true_eq] at h
    exact .head ⟨op, h.1, rfl⟩ (ih h.2)

theorem runs_transact {p : Prog σ κ ε α} {s : σ} {a : α} (h : (p.transact s).1 = .ok a) :
    p.Runs s a (p.transact s).2 := transact_ok.1 (Prod.ext h rfl)

end Prog

end Tx
