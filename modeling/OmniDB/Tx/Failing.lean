import OmniDB.Tx.Program

/-! Bodies that end with an error when they run alone. `Fails` is to errors what `Runs` is to
normal ends: every body does one of the two, and a handler turns the first into the second. -/

namespace Tx.Prog

variable {σ κ ε α β : Type} {p : Prog σ κ ε α} {s s' : σ} {e : ε}

/-- `p` run alone from `s` ends with the error `e`, having written `s'` by then. -/
def Fails (p : Prog σ κ ε α) (s : σ) (e : ε) (s' : σ) : Prop := p.exec s = (.error e, s')

theorem runs_or_fails (p : Prog σ κ ε α) (s : σ) : (∃ a s', p.Runs s a s') ∨ ∃ e s', p.Fails s e s' := by
  rcases h : p.exec s with ⟨e | a, s'⟩
  · exact Or.inr ⟨e, s', h⟩
  · exact Or.inl ⟨a, s', h⟩

theorem Fails.not_runs (h : p.Fails s e s') {a : α} {t : σ} : ¬p.Runs s a t := by
  intro hr
  have := h.symm.trans hr
  cases this

/-- After a part that has ended, the rest goes on. -/
theorem Runs.exec_bind {a : α} (h : p.Runs s a s') (f : α → Prog σ κ ε β) : (p >>= f).exec s = (f a).exec s' := by
  rw [Prog.exec_bind, show p.exec s = (.ok a, s') from h]

theorem fails_bind {f : α → Prog σ κ ε β} :
    (p >>= f).Fails s e s' ↔ p.Fails s e s' ∨ ∃ a t, p.Runs s a t ∧ (f a).Fails t e s' := by
  unfold Fails Runs
  rw [exec_bind]
  rcases h : p.exec s with ⟨d | a, t⟩
  · simp
  · constructor
    · exact fun hf => Or.inr ⟨a, t, rfl, hf⟩
    · rintro (hp | ⟨b, u, hp, hf⟩)
      · cases hp
      · cases hp
        exact hf

@[simp] theorem fails_pure {a : α} : ¬(pure a : Prog σ κ ε α).Fails s e s' := by
  simp [Fails, pure_eq, exec]

@[simp] theorem fails_raise {d : ε} : (raise d : Prog σ κ ε α).Fails s e s' ↔ e = d ∧ s' = s := by
  simp [Fails, raise, exec, eq_comm]

@[simp] theorem fails_view {n : String} : ¬(view n : Prog σ κ ε σ).Fails s e s' := by
  simp [Fails, view, exec]

@[simp] theorem fails_update {f : σ → σ} : ¬(update f : Prog σ κ ε Unit).Fails s e s' := by
  simp [Fails, update, exec]

@[simp] theorem fails_acquire {k : κ} : ¬(acquire k : Prog σ κ ε Unit).Fails s e s' := by
  simp [Fails, acquire, exec]

@[simp] theorem fails_acquireShared {k : κ} : ¬(acquireShared k : Prog σ κ ε Unit).Fails s e s' := by
  simp [Fails, acquireShared, exec]

@[simp] theorem fails_tryAcquire {k : κ} : ¬(tryAcquire k : Prog σ κ ε Bool).Fails s e s' := by
  simp [Fails, tryAcquire, exec]

@[simp] theorem fails_raiseIf {c : Prop} [Decidable c] {d : ε} :
    (raiseIf c d : Prog σ κ ε Unit).Fails s e s' ↔ c ∧ e = d ∧ s' = s := by
  unfold raiseIf
  split_ifs with h <;> simp [Fails, exec, h, eq_comm]

@[simp] theorem fails_expect {o : Option α} {d : ε} :
    (expect o d : Prog σ κ ε α).Fails s e s' ↔ o = none ∧ e = d ∧ s' = s := by
  cases o <;> simp [expect, Fails, exec, eq_comm]

@[simp] theorem fails_map {f : α → β} : (f <$> p).Fails s e s' ↔ p.Fails s e s' := by
  rw [map_eq_pure_bind, fails_bind]
  simp

/-- A loop whose rounds cannot fail cannot fail. -/
theorem not_fails_foldlM {γ : Type} {f : β → γ → Prog σ κ ε β} (hf : ∀ b x s e s', ¬(f b x).Fails s e s')
    (xs : List γ) {b : β} : ¬(xs.foldlM f b : Prog σ κ ε β).Fails s e s' := by
  induction xs generalizing b s with
  | nil => exact fails_pure
  | cons x xs ih =>
    rw [List.foldlM_cons, fails_bind]
    rintro (h | ⟨b', t, -, h⟩)
    · exact hf b x _ _ _ h
    · exact ih h

theorem exec_handle (p : Prog σ κ ε α) (h : ε → Prog σ κ ε α) (s : σ) :
    (p.handle h).exec s = match p.exec s with
      | (.ok a, s') => (.ok a, s')
      | (.error e, s') => (h e).exec s' := by
  induction p generalizing s with
  | done | fail => rfl
  | stmt n next ih => exact ih s s
  | write g next ih => exact ih (g s)
  | lock k next ih => exact ih s
  | share k next ih => exact ih s
  | tryLock k next ih => exact ih true s

theorem runs_handle {h : ε → Prog σ κ ε α} {a : α} :
    (p.handle h).Runs s a s' ↔ p.Runs s a s' ∨ ∃ e t, p.Fails s e t ∧ (h e).Runs t a s' := by
  unfold Runs Fails
  rw [exec_handle]
  rcases hp : p.exec s with ⟨d | b, t⟩ <;> simp [and_assoc]

end Tx.Prog
