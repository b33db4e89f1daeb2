import OmniDB.Tx.Writes

/-! Bodies whose every write respects a relation between the states before and after it. -/

namespace Tx.Prog

variable {σ κ ε α β γ τ : Type} {R : σ → σ → Prop} {p : Prog σ κ ε α}

/-- Each write of `p` respects `R`. Instances follow the text of a body. -/
class Abides (R : σ → σ → Prop) (p : Prog σ κ ε α) : Prop where
  writes : Writes (fun f => ∀ s, R s (f s)) p fun _ => True

instance (a : α) : Abides R (pure a : Prog σ κ ε α) := ⟨trivial⟩
instance (e : ε) : Abides R (raise e : Prog σ κ ε α) := ⟨trivial⟩
instance (n : String) : Abides R (view n : Prog σ κ ε σ) := ⟨fun _ => trivial⟩
instance (k : κ) : Abides R (acquire k : Prog σ κ ε Unit) := ⟨trivial⟩
instance (c : Prop) [Decidable c] (e : ε) : Abides R (raiseIf c e : Prog σ κ ε Unit) :=
  ⟨(writes_raiseIf ..).2 fun _ => trivial⟩
instance (o : Option α) (e : ε) : Abides R (expect o e : Prog σ κ ε α) :=
  ⟨(writes_expect ..).2 fun _ _ => trivial⟩

instance Abides.bind [hp : Abides R p] {f : α → Prog σ κ ε β} [hf : ∀ a, Abides R (f a)] : Abides R (p >>= f) :=
  ⟨(writes_bind ..).2 (hp.writes.weaken fun a _ => (hf a).writes)⟩

theorem Abides.then (hp : Abides R p) {f : α → Prog σ κ ε β} (hf : ∀ a, Abides R (f a)) : Abides R (p >>= f) :=
  Abides.bind

theorem Abides.update {f : σ → σ} (h : ∀ s, R s (f s)) : Abides R (update f : Prog σ κ ε Unit) := ⟨h, trivial⟩

instance [hp : Abides R p] (f : α → β) : Abides R (f <$> p) := ⟨(writes_map ..).2 hp.writes⟩

instance (c : Prop) [Decidable c] (q : Prog σ κ ε α) [hp : Abides R p] [hq : Abides R q] :
    Abides R (if c then p else q) :=
  ⟨(writes_ite ..).2 ⟨fun _ => hp.writes, fun _ => hq.writes⟩⟩

instance {h : ε → Prog σ κ ε α} [hp : Abides R p] [hh : ∀ e, Abides R (h e)] : Abides R (p.handle h) :=
  ⟨hp.writes.handle fun e => (hh e).writes⟩

theorem Abides.catch {h : ε → Prog σ κ ε α} (hp : Abides R p) (hh : ∀ e, Abides R (h e)) : Abides R (p.handle h) :=
  inferInstance

instance {f : α → γ → Prog σ κ ε α} [hf : ∀ a x, Abides R (f a x)] (xs : List γ) (a : α) :
    Abides R (xs.foldlM f a) :=
  ⟨Writes.foldlM (fun a x _ => (hf a x).writes) xs trivial⟩

instance {f : γ → Prog σ κ ε PUnit} [hf : ∀ x, Abides R (f x)] (xs : List γ) : Abides R (xs.forM f) :=
  ⟨Writes.forM xs fun x _ => (hf x).writes⟩

/-- A body that leaves alone the part of the state that `R` is about. -/
theorem Abides.of_leaves {π : σ → τ} [h : Leaves π p] (hR : ∀ s s', π s' = π s → R s s') : Abides R p :=
  ⟨h.writes.mono (fun f hf s => hR s (f s) (hf s)) fun _ => id⟩

theorem Abides.runs [h : Abides R p] (refl : ∀ s, R s s) (trans : ∀ s s' s'', R s s' → R s' s'' → R s s'')
    {s s' : σ} {a : α} (hp : p.Runs s a s') : R s s' :=
  (h.writes.runs refl trans hp).1

end Tx.Prog
