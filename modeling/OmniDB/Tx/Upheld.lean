import OmniDB.Tx.RelyGuarantee
import OmniDB.Tx.Writes

/-! Assertions that a body upholds. `ends` is `wp` with a postcondition for errors as well, which
is what a handler goes on from. A body upholds an assertion if that holds again at its end, however
the body ends; instances follow the text of a body. -/

namespace Tx

namespace Protocol

variable {σ κ ε α β γ ω : Type} (P : Protocol σ κ ε α ω)

/-- The weakest precondition for `Q` at a result and `E` at an error. -/
def ends : Prog σ κ ε β → (β → Assertion σ κ ω) → (ε → Assertion σ κ ω) → Assertion σ κ ω
  | .done a, Q, _ => Q a
  | .fail e, _, E => E e
  | .stmt n next, Q, E => fun l p s => ∀ s', P.Later l s s' → ends (next (p s')) Q E (l.saw n (p s')) p s'
  | .write f next, Q, E => fun l p s => ends next Q E l (f ∘ p) s
  | .lock k next, Q, E => fun l p s =>
      ∀ s', P.Later l s s' → P.granted l k s' → ends next Q E (l.take k) p s'
  | .share _ next, Q, E => fun l p s => ∀ s', P.Later l s s' → ends next Q E l p s'
  | .tryLock k next, Q, E => fun l p s =>
      ∀ s', P.Later l s s' → (P.granted l k s' → ends (next true) Q E (l.take k) p s') ∧
        (P.refused l k s' → ends (next false) Q E l p s')

section Rules

variable {P} {Q Q' : β → Assertion σ κ ω} {E E' : ε → Assertion σ κ ω}
variable {l : Stand σ κ ω} {p : σ → σ} {s : σ}

@[simp] theorem ends_pure (a : β) : P.ends (pure a : Prog σ κ ε β) Q E l p s ↔ Q a l p s := Iff.rfl

@[simp] theorem ends_raise (e : ε) : P.ends (Prog.raise e : Prog σ κ ε β) Q E l p s ↔ E e l p s := Iff.rfl

@[simp] theorem ends_view (n : String) (Q : σ → Assertion σ κ ω) :
    P.ends (Prog.view n : Prog σ κ ε σ) Q E l p s ↔
      ∀ s', P.Later l s s' → Q (p s') (l.saw n (p s')) p s' := Iff.rfl

@[simp] theorem ends_update (f : σ → σ) (Q : Unit → Assertion σ κ ω) :
    P.ends (Prog.update f : Prog σ κ ε Unit) Q E l p s ↔ Q () l (f ∘ p) s := Iff.rfl

theorem ends_acquire (k : κ) (Q : Unit → Assertion σ κ ω) :
    P.ends (Prog.acquire k : Prog σ κ ε Unit) Q E l p s ↔
      ∀ s', P.Later l s s' → P.granted l k s' → Q () (l.take k) p s' := Iff.rfl

theorem ends_acquireShared (k : κ) (Q : Unit → Assertion σ κ ω) :
    P.ends (Prog.acquireShared k : Prog σ κ ε Unit) Q E l p s ↔ ∀ s', P.Later l s s' → Q () l p s' := Iff.rfl

@[simp] theorem ends_raiseIf (c : Prop) [Decidable c] (e : ε) (Q : Unit → Assertion σ κ ω) :
    P.ends (Prog.raiseIf c e : Prog σ κ ε Unit) Q E l p s ↔ (c → E e l p s) ∧ (¬c → Q () l p s) := by
  unfold Prog.raiseIf
  split_ifs with h
  · simp [h, ends]
  · simp [h, ends]

@[simp] theorem ends_expect (o : Option β) (e : ε) :
    P.ends (Prog.expect o e : Prog σ κ ε β) Q E l p s ↔
      (o = none → E e l p s) ∧ ∀ a, o = some a → Q a l p s := by
  cases o with
  | none => simp [Prog.expect, ends]
  | some b => simp [Prog.expect, ends]

theorem ends_bind (x : Prog σ κ ε γ) (f : γ → Prog σ κ ε β) (l : Stand σ κ ω) (p : σ → σ) (s : σ) :
    P.ends (x >>= f) Q E l p s ↔ P.ends x (fun a => P.ends (f a) Q E) E l p s := by
  rw [Prog.bind_eq]
  induction x generalizing l p s with
  | done | fail => exact Iff.rfl
  | stmt n next ih => simp only [Prog.bind, ends, ih]
  | write g next ih => simp only [Prog.bind, ends, ih]
  | lock k next ih => simp only [Prog.bind, ends, ih]
  | share k next ih => simp only [Prog.bind, ends, ih]
  | tryLock k next ih => simp only [Prog.bind, ends, ih]

/-- A handler goes on where the body has failed. -/
theorem ends_handle (x : Prog σ κ ε β) (h : ε → Prog σ κ ε β) (l : Stand σ κ ω) (p : σ → σ) (s : σ) :
    P.ends (x.handle h) Q E l p s ↔ P.ends x Q (fun e => P.ends (h e) Q E) l p s := by
  induction x generalizing l p s with
  | done | fail => exact Iff.rfl
  | stmt n next ih => simp only [Prog.handle, ends, ih]
  | write g next ih => simp only [Prog.handle, ends, ih]
  | lock k next ih => simp only [Prog.handle, ends, ih]
  | share k next ih => simp only [Prog.handle, ends, ih]
  | tryLock k next ih => simp only [Prog.handle, ends, ih]

theorem ends_mono (x : Prog σ κ ε β) (hQ : ∀ a l p s, Q a l p s → Q' a l p s)
    (hE : ∀ e l p s, E e l p s → E' e l p s) (l : Stand σ κ ω) (p : σ → σ) (s : σ)
    (h : P.ends x Q E l p s) : P.ends x Q' E' l p s := by
  induction x generalizing l p s with
  | done a => exact hQ a l p s h
  | fail e => exact hE e l p s h
  | stmt n next ih => exact fun s' hs => ih _ _ _ _ (h s' hs)
  | write g next ih => exact ih _ _ _ h
  | lock k next ih => exact fun s' hs hg => ih _ _ _ (h s' hs hg)
  | share k next ih => exact fun s' hs => ih _ _ _ (h s' hs)
  | tryLock k next ih =>
    exact fun s' hs => ⟨fun hg => ih _ _ _ _ ((h s' hs).1 hg), fun hr => ih _ _ _ _ ((h s' hs).2 hr)⟩

/-- A transaction that fails is rolled back: its error needs no postcondition. -/
theorem wp_of_ends (x : Prog σ κ ε β) (l : Stand σ κ ω) (p : σ → σ) (s : σ) (h : P.ends x Q E l p s) :
    P.wp x Q l p s := by
  induction x generalizing l p s with
  | done a => exact h
  | fail e => trivial
  | stmt n next ih => exact fun s' hs => ih _ _ _ _ (h s' hs)
  | write g next ih => exact ih _ _ _ h
  | lock k next ih => exact fun s' hs hg => ih _ _ _ (h s' hs hg)
  | share k next ih => exact fun s' hs => ih _ _ _ (h s' hs)
  | tryLock k next ih =>
    exact fun s' hs => ⟨fun hg => ih _ _ _ _ ((h s' hs).1 hg), fun hr => ih _ _ _ _ ((h s' hs).2 hr)⟩

end Rules

/-- An assertion that neither the commits of others nor a step without a write can spoil. -/
class Steady (J : Assertion σ κ ω) : Prop where
  later : ∀ {l p s s'}, J l p s → P.Later l s s' → J l p s'
  saw : ∀ {l p s} n v, J l p s → J (l.saw n v) p s
  take : ∀ {l p s} k, J l p s → J (l.take k) p s

/-- The assertion holds at the end of `x` if it holds at the start. -/
class Upholds (J : Assertion σ κ ω) (x : Prog σ κ ε β) : Prop where
  ends : ∀ l p s, J l p s → P.ends x (fun _ => J) (fun _ => J) l p s

section Instances

variable {P} {J : Assertion σ κ ω}

instance (a : β) : P.Upholds J (pure a : Prog σ κ ε β) := ⟨fun _ _ _ h => h⟩

instance (e : ε) : P.Upholds J (Prog.raise e : Prog σ κ ε β) := ⟨fun _ _ _ h => h⟩

instance [hJ : P.Steady J] (n : String) : P.Upholds J (Prog.view n : Prog σ κ ε σ) :=
  ⟨fun _ _ _ h _ hs => hJ.saw _ _ (hJ.later h hs)⟩

instance [hJ : P.Steady J] (k : κ) : P.Upholds J (Prog.acquire k : Prog σ κ ε Unit) :=
  ⟨fun _ _ _ h _ hs _ => hJ.take k (hJ.later h hs)⟩

instance [hJ : P.Steady J] (k : κ) : P.Upholds J (Prog.acquireShared k : Prog σ κ ε Unit) :=
  ⟨fun _ _ _ h _ hs => hJ.later h hs⟩

instance (c : Prop) [Decidable c] (e : ε) : P.Upholds J (Prog.raiseIf c e : Prog σ κ ε Unit) :=
  ⟨fun _ _ _ h => ends_raiseIf .. |>.2 ⟨fun _ => h, fun _ => h⟩⟩

instance (o : Option β) (e : ε) : P.Upholds J (Prog.expect o e : Prog σ κ ε β) :=
  ⟨fun _ _ _ h => ends_expect .. |>.2 ⟨fun _ => h, fun _ _ => h⟩⟩

instance Upholds.bind {x : Prog σ κ ε γ} [hx : P.Upholds J x] {f : γ → Prog σ κ ε β} [hf : ∀ a, P.Upholds J (f a)] :
    P.Upholds J (x >>= f) :=
  ⟨fun l p s h => (ends_bind ..).2 (ends_mono _ (fun a => (hf a).ends) (fun _ _ _ _ h => h) _ _ _ (hx.ends l p s h))⟩

theorem Upholds.then {x : Prog σ κ ε γ} (hx : P.Upholds J x) {f : γ → Prog σ κ ε β} (hf : ∀ a, P.Upholds J (f a)) :
    P.Upholds J (x >>= f) := Upholds.bind

instance {x : Prog σ κ ε γ} [P.Upholds J x] (f : γ → β) : P.Upholds J (f <$> x) := by
  rw [map_eq_pure_bind]
  infer_instance

theorem Upholds.catch {x : Prog σ κ ε β} {h : ε → Prog σ κ ε β} (hx : P.Upholds J x) (hh : ∀ e, P.Upholds J (h e)) :
    P.Upholds J (x.handle h) :=
  ⟨fun l p s hJ => (ends_handle ..).2
    (ends_mono _ (fun _ _ _ _ h => h) (fun e => (hh e).ends) _ _ _ (hx.ends l p s hJ))⟩

instance (c : Prop) [Decidable c] (x y : Prog σ κ ε β) [P.Upholds J x] [P.Upholds J y] :
    P.Upholds J (if c then x else y) := by
  split_ifs <;> assumption

instance {f : β → γ → Prog σ κ ε β} [hf : ∀ a x, P.Upholds J (f a x)] (xs : List γ) (a : β) :
    P.Upholds J (xs.foldlM f a) := by
  induction xs generalizing a with
  | nil => exact ⟨fun _ _ _ h => h⟩
  | cons x xs ih =>
    rw [List.foldlM_cons]
    exact (hf a x).then ih

/-- The commits of others, and writes that leave `π` alone, do not spoil the assertion. -/
theorem Upholds.of_leaves [hJ : P.Steady J] {τ : Type} {π : σ → τ} {x : Prog σ κ ε β} [hx : x.Leaves π]
    (hw : ∀ {l p s} f, Prog.Keeps π f → J l p s → J l (f ∘ p) s) : P.Upholds J x := by
  refine ⟨fun l p s h => ?_⟩
  have hx := hx.writes
  induction x generalizing l p s with
  | done | fail => exact h
  | stmt n next ih => exact fun s' hs => ih _ _ _ _ (hJ.saw _ _ (hJ.later h hs)) (hx _)
  | write f next ih => exact ih _ _ _ (hw f hx.1 h) hx.2
  | lock k next ih => exact fun s' hs _ => ih _ _ _ (hJ.take k (hJ.later h hs)) hx
  | share k next ih => exact fun s' hs => ih _ _ _ (hJ.later h hs) hx
  | tryLock k next ih =>
    exact fun s' hs => ⟨fun _ => ih true _ _ _ (hJ.take k (hJ.later h hs)) (hx true),
      fun _ => ih false _ _ _ (hJ.later h hs) (hx false)⟩

/-- At the end of a body that commits. -/
theorem Upholds.wp {x : Prog σ κ ε β} (hx : P.Upholds J x) {l : Stand σ κ ω} {p : σ → σ} {s : σ} (h : J l p s) :
    P.wp x (fun _ => J) l p s := wp_of_ends _ _ _ _ (hx.ends l p s h)

end Instances

end Protocol

end Tx
