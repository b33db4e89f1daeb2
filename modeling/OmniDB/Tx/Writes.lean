import OmniDB.Tx.Program

/-! What a body may write, whatever its statements are answered. `Writes W p Q`: every
write of `p` is one of `W`, and every result meets `Q`. It speaks of no state, so it
holds of a body alone and of the same body among others. -/

namespace Tx.Prog

variable {σ κ ε α β γ : Type} {W W' : (σ → σ) → Prop} {p : Prog σ κ ε α} {Q Q' : α → Prop}

def Writes (W : (σ → σ) → Prop) : Prog σ κ ε α → (α → Prop) → Prop
  | done a, Q => Q a
  | fail _, _ => True
  | stmt _ next, Q => ∀ v, Writes W (next v) Q
  | write f next, Q => W f ∧ Writes W next Q
  | lock _ next, Q => Writes W next Q
  | share _ next, Q => Writes W next Q
  | tryLock _ next, Q => ∀ b, Writes W (next b) Q

@[simp] theorem writes_pure (a : α) : Writes W (pure a : Prog σ κ ε α) Q ↔ Q a := Iff.rfl

@[simp] theorem writes_raise (e : ε) : Writes W (raise e : Prog σ κ ε α) Q ↔ True := Iff.rfl

@[simp] theorem writes_view (n : String) (Q : σ → Prop) :
    Writes W (view n : Prog σ κ ε σ) Q ↔ ∀ v, Q v := Iff.rfl

@[simp] theorem writes_update (f : σ → σ) (Q : Unit → Prop) :
    Writes W (update f : Prog σ κ ε Unit) Q ↔ W f ∧ Q () := Iff.rfl

@[simp] theorem writes_acquire (k : κ) (Q : Unit → Prop) :
    Writes W (acquire k : Prog σ κ ε Unit) Q ↔ Q () := Iff.rfl

@[simp] theorem writes_acquireShared (k : κ) (Q : Unit → Prop) :
    Writes W (acquireShared k : Prog σ κ ε Unit) Q ↔ Q () := Iff.rfl

@[simp] theorem writes_tryAcquire (k : κ) (Q : Bool → Prop) :
    Writes W (tryAcquire k : Prog σ κ ε Bool) Q ↔ ∀ b, Q b := Iff.rfl

@[simp] theorem writes_raiseIf (c : Prop) [Decidable c] (e : ε) (Q : Unit → Prop) :
    Writes W (raiseIf c e : Prog σ κ ε Unit) Q ↔ (¬c → Q ()) := by
  unfold raiseIf
  split_ifs with h
  · simp [h, Writes]
  · simp [h, Writes]

@[simp] theorem writes_expect (o : Option α) (e : ε) :
    Writes W (expect o e : Prog σ κ ε α) Q ↔ ∀ a, o = some a → Q a := by
  cases o with
  | none => simp [expect, Writes]
  | some b => simp [expect, Writes]

@[simp] theorem writes_ofExcept (r : Except ε α) :
    Writes W (ofExcept r : Prog σ κ ε α) Q ↔ ∀ a, r = .ok a → Q a := by
  cases r with
  | error e => simp [ofExcept, Writes]
  | ok b => simp [ofExcept, Writes]

@[simp] theorem writes_bind (f : α → Prog σ κ ε β) (Q : β → Prop) :
    Writes W (p >>= f) Q ↔ Writes W p fun a => Writes W (f a) Q := by
  rw [bind_eq]
  induction p with
  | done | fail => exact Iff.rfl
  | stmt n next ih => simp only [bind, Writes, ih]
  | write g next ih => simp only [bind, Writes, ih]
  | lock k next ih => simp only [bind, Writes, ih]
  | share k next ih => simp only [bind, Writes, ih]
  | tryLock k next ih => simp only [bind, Writes, ih]

@[simp] theorem writes_map (f : α → β) (Q : β → Prop) :
    Writes W (f <$> p) Q ↔ Writes W p fun a => Q (f a) := by
  rw [map_eq_pure_bind, writes_bind]
  simp only [writes_pure]

@[simp] theorem writes_ite (c : Prop) [Decidable c] (q : Prog σ κ ε α) :
    Writes W (if c then p else q) Q ↔ (c → Writes W p Q) ∧ (¬c → Writes W q Q) := by
  split_ifs with h <;> simp [h]

theorem Writes.mono (h : Writes W p Q) (hW : ∀ f, W f → W' f) (hQ : ∀ a, Q a → Q' a) : Writes W' p Q' := by
  induction p with
  | done a => exact hQ a h
  | fail => trivial
  | stmt n next ih => exact fun v => ih v (h v)
  | write f next ih => exact ⟨hW f h.1, ih h.2⟩
  | lock k next ih => exact ih h
  | share k next ih => exact ih h
  | tryLock k next ih => exact fun b => ih b (h b)

theorem Writes.weaken (h : Writes W p Q) (hQ : ∀ a, Q a → Q' a) : Writes W p Q' := h.mono (fun _ => id) hQ

/-- `p` writes something and ends with something. -/
theorem writes_any (p : Prog σ κ ε α) : Writes (fun _ => True) p fun _ => True := by
  induction p with
  | done | fail => trivial
  | stmt n next ih => exact ih
  | write f next ih => exact ⟨trivial, ih⟩
  | lock k next ih => exact ih
  | share k next ih => exact ih
  | tryLock k next ih => exact ih

/-- A result depends on the end of a body only. -/
theorem Writes.last {f : α → Prog σ κ ε β} {Q : β → Prop} (h : ∀ a, Writes (fun _ => True) (f a) Q) :
    Writes (fun _ => True) (p >>= f) Q :=
  (writes_bind ..).2 ((writes_any p).weaken fun a _ => h a)

/-- A handler sees an error and may go on from there. -/
theorem Writes.handle {h : ε → Prog σ κ ε α} (hp : Writes W p Q) (hh : ∀ e, Writes W (h e) Q) :
    Writes W (p.handle h) Q := by
  induction p with
  | done a => exact hp
  | fail e => exact hh e
  | stmt n next ih => exact fun v => ih v (hp v)
  | write f next ih => exact ⟨hp.1, ih hp.2⟩
  | lock k next ih => exact ih hp
  | share k next ih => exact ih hp
  | tryLock k next ih => exact fun b => ih b (hp b)

/-- A loop: what every round keeps of the accumulator holds at the end. -/
theorem Writes.foldlM {f : α → γ → Prog σ κ ε α} (step : ∀ a x, Q a → Writes W (f a x) Q) (xs : List γ)
    {a : α} (ha : Q a) : Writes W (xs.foldlM f a) Q := by
  induction xs generalizing a with
  | nil => exact ha
  | cons x xs ih =>
    rw [List.foldlM_cons, writes_bind]
    exact (step a x ha).weaken fun b hb => ih hb

theorem Writes.forM {f : γ → Prog σ κ ε PUnit} (xs : List γ) (step : ∀ x ∈ xs, Writes W (f x) fun _ => True) :
    Writes W (xs.forM f) fun _ => True := by
  induction xs with
  | nil => trivial
  | cons x xs ih =>
    change Writes W (f x >>= fun _ => xs.forM f) _
    rw [writes_bind]
    exact (step x List.mem_cons_self).weaken fun _ _ => ih fun y hy => step y (List.mem_cons_of_mem _ hy)

/-- A relation that every write respects relates the states before and after. -/
theorem Writes.runs {R : σ → σ → Prop} (refl : ∀ s, R s s) (trans : ∀ s s' s'', R s s' → R s' s'' → R s s'')
    (h : Writes (fun f => ∀ s, R s (f s)) p Q) {s s' : σ} {a : α} (hp : p.Runs s a s') : R s s' ∧ Q a := by
  induction p generalizing s with
  | done b =>
    obtain ⟨rfl, rfl⟩ : b = a ∧ s = s' := by simpa [Runs, exec] using hp
    exact ⟨refl s, h⟩
  | fail e => simp [Runs, exec] at hp
  | stmt n next ih => exact ih s (h s) hp
  | write f next ih =>
    obtain ⟨hR, hQ⟩ := ih h.2 hp
    exact ⟨trans _ _ _ (h.1 s) hR, hQ⟩
  | lock k next ih => exact ih h hp
  | share k next ih => exact ih h hp
  | tryLock k next ih => exact ih true (h true) hp

/-- Every write leaves `π` of the state as it is. -/
def Keeps {τ : Type} (π : σ → τ) (f : σ → σ) : Prop := ∀ s, π (f s) = π s

theorem Writes.keeps {τ : Type} {π : σ → τ} (h : Writes (Keeps π) p Q) {s s' : σ} {a : α}
    (hp : p.Runs s a s') : π s' = π s ∧ Q a :=
  Writes.runs (R := fun s s' => π s' = π s) (fun _ => rfl) (fun _ _ _ h h' => h'.trans h) h hp

/-! ## Bodies that leave a part of the state alone -/

section Leaves

variable {τ : Type} {π : σ → τ}

/-- `p` leaves `π` of the state alone. Instances follow the text of a body. -/
class Leaves (π : σ → τ) (p : Prog σ κ ε α) : Prop where
  writes : Writes (Keeps π) p fun _ => True

instance (a : α) : Leaves π (pure a : Prog σ κ ε α) := ⟨trivial⟩
instance (e : ε) : Leaves π (raise e : Prog σ κ ε α) := ⟨trivial⟩
instance (n : String) : Leaves π (view n : Prog σ κ ε σ) := ⟨fun _ => trivial⟩
instance (k : κ) : Leaves π (acquire k : Prog σ κ ε Unit) := ⟨trivial⟩
instance (k : κ) : Leaves π (acquireShared k : Prog σ κ ε Unit) := ⟨trivial⟩
instance (k : κ) : Leaves π (tryAcquire k : Prog σ κ ε Bool) := ⟨fun _ => trivial⟩
instance (c : Prop) [Decidable c] (e : ε) : Leaves π (raiseIf c e : Prog σ κ ε Unit) :=
  ⟨(writes_raiseIf ..).2 fun _ => trivial⟩
instance (o : Option α) (e : ε) : Leaves π (expect o e : Prog σ κ ε α) :=
  ⟨(writes_expect ..).2 fun _ _ => trivial⟩

instance (r : Except ε α) : Leaves π (ofExcept r : Prog σ κ ε α) :=
  ⟨(writes_ofExcept ..).2 fun _ _ => trivial⟩

instance Leaves.bind [hp : Leaves π p] {f : α → Prog σ κ ε β} [hf : ∀ a, Leaves π (f a)] :
    Leaves π (p >>= f) :=
  ⟨(writes_bind ..).2 (hp.writes.weaken fun a _ => (hf a).writes)⟩

theorem Leaves.then (hp : Leaves π p) {f : α → Prog σ κ ε β} (hf : ∀ a, Leaves π (f a)) : Leaves π (p >>= f) :=
  Leaves.bind

/-- What is known of the result helps with the rest. -/
theorem Leaves.seq {τ : Type} {π : σ → τ} {R : α → Prop} [hp : Leaves π p] (hR : Writes (fun _ => True) p R)
    {f : α → Prog σ κ ε β} (hf : ∀ a, R a → Leaves π (f a)) : Leaves π (p >>= f) := by
  refine ⟨(writes_bind ..).2 ?_⟩
  have hw := hp.writes
  clear hp
  induction p with
  | done a => exact (hf a hR).writes
  | fail => trivial
  | stmt n next ih => exact fun v => ih v (hR v) (hw v)
  | write g next ih => exact ⟨hw.1, ih hR.2 hw.2⟩
  | lock k next ih => exact ih hR hw
  | share k next ih => exact ih hR hw
  | tryLock k next ih => exact fun b => ih b (hR b) (hw b)

theorem Leaves.update {f : σ → σ} (h : Keeps π f) : Leaves π (update f : Prog σ κ ε Unit) := ⟨h, trivial⟩

instance [hp : Leaves π p] (f : α → β) : Leaves π (f <$> p) := ⟨(writes_map ..).2 hp.writes⟩

instance (c : Prop) [Decidable c] (q : Prog σ κ ε α) [hp : Leaves π p] [hq : Leaves π q] :
    Leaves π (if c then p else q) :=
  ⟨(writes_ite ..).2 ⟨fun _ => hp.writes, fun _ => hq.writes⟩⟩

instance {h : ε → Prog σ κ ε α} [hp : Leaves π p] [hh : ∀ e, Leaves π (h e)] : Leaves π (p.handle h) :=
  ⟨hp.writes.handle fun e => (hh e).writes⟩

instance {f : α → γ → Prog σ κ ε α} [hf : ∀ a x, Leaves π (f a x)] (xs : List γ) (a : α) :
    Leaves π (xs.foldlM f a) :=
  ⟨Writes.foldlM (fun a x _ => (hf a x).writes) xs trivial⟩

instance {f : γ → Prog σ κ ε PUnit} [hf : ∀ x, Leaves π (f x)] (xs : List γ) : Leaves π (xs.forM f) :=
  ⟨Writes.forM xs fun x _ => (hf x).writes⟩

theorem Leaves.catch {h : ε → Prog σ κ ε α} (hp : Leaves π p) (hh : ∀ e, Leaves π (h e)) : Leaves π (p.handle h) :=
  inferInstance

theorem Leaves.runs [h : Leaves π p] {s s' : σ} {a : α} (hp : p.Runs s a s') : π s' = π s :=
  (h.writes.keeps hp).1

/-- What is computed from an untouched part is untouched. -/
theorem Leaves.part {υ : Type} [h : Leaves π p] (g : τ → υ) : Leaves (fun s => g (π s)) p :=
  ⟨h.writes.mono (fun _ hf s => congrArg g (hf s)) fun _ => id⟩

end Leaves

end Tx.Prog
