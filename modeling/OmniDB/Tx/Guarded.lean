import OmniDB.Tx.Discipline

/-! Bodies that write under the right locks. A body minds a discipline if each of its writes
stays within the locks that it has taken by then, whatever its statements are answered. -/

namespace Tx

namespace Discipline

variable {σ κ : Type} {D : Discipline σ κ} {held held' : κ → Prop} {s s' s'' : σ}

theorem Within.trans (h : D.Within held s s') (h' : D.Within held s' s'') : D.Within held s s'' :=
  ⟨D.grows_trans _ _ _ h.grows h'.grows, fun k hk => D.same_trans k _ _ _ (h.same k hk) (h'.same k hk)⟩

theorem Within.mono (h : D.Within held s s') (hh : ∀ k, held k → held' k) : D.Within held' s s' :=
  ⟨h.grows, fun k hk => h.same k fun hk' => hk (hh k hk')⟩

end Discipline

namespace Prog

variable {σ κ ε α β γ : Type} {D : Discipline σ κ} {held held' : κ → Prop} {p : Prog σ κ ε α}

/-- Every write of the body, started with `held`, stays within the locks it has by then. -/
def Guarded (D : Discipline σ κ) : Prog σ κ ε α → (κ → Prop) → Prop
  | done _, _ => True
  | fail _, _ => True
  | stmt _ next, held => ∀ v, Guarded D (next v) held
  | write f next, held => (∀ s, D.Within held s (f s)) ∧ Guarded D next held
  | lock k next, held => Guarded D next fun x => x = k ∨ held x
  | share _ next, held => Guarded D next held
  | tryLock k next, held => Guarded D (next true) (fun x => x = k ∨ held x) ∧ Guarded D (next false) held

/-- More locks do no harm. -/
theorem Guarded.mono (h : Guarded D p held) (hh : ∀ k, held k → held' k) : Guarded D p held' := by
  have hor (k : κ) : ∀ x, x = k ∨ held x → x = k ∨ held' x := fun x hx => hx.imp id (hh x)
  induction p generalizing held held' with
  | done | fail => trivial
  | stmt n next ih => exact fun v => ih v (h v) hh hor
  | write f next ih => exact ⟨fun s => (h.1 s).mono hh, ih h.2 hh hor⟩
  | lock k next ih => exact ih h (hor k) fun _ x hx => hx.imp id (hor k x)
  | share k next ih => exact ih h hh hor
  | tryLock k next ih => exact ⟨ih true h.1 (hor k) fun _ x hx => hx.imp id (hor k x), ih false h.2 hh hor⟩

theorem Guarded.bind {f : α → Prog σ κ ε β} (h : Guarded D p held) (hf : ∀ a, Guarded D (f a) held) :
    Guarded D (p >>= f) held := by
  rw [bind_eq]
  induction p generalizing held with
  | done a => exact hf a
  | fail e => trivial
  | stmt n next ih => exact fun v => ih v (h v) hf
  | write g next ih => exact ⟨h.1, ih h.2 hf⟩
  | lock k next ih => exact ih h fun a => (hf a).mono fun _ => Or.inr
  | share k next ih => exact ih h hf
  | tryLock k next ih => exact ⟨ih true h.1 fun a => (hf a).mono fun _ => Or.inr, ih false h.2 hf⟩

/-- `p` minds the discipline. Instances follow the text of a body. -/
class Minds (D : Discipline σ κ) (p : Prog σ κ ε α) : Prop where
  guarded : ∀ held, Guarded D p held

instance (a : α) : Minds D (pure a : Prog σ κ ε α) := ⟨fun _ => trivial⟩
instance (e : ε) : Minds D (raise e : Prog σ κ ε α) := ⟨fun _ => trivial⟩
instance (n : String) : Minds D (view n : Prog σ κ ε σ) := ⟨fun _ _ => trivial⟩
instance (k : κ) : Minds D (acquire k : Prog σ κ ε Unit) := ⟨fun _ => trivial⟩
instance (k : κ) : Minds D (acquireShared k : Prog σ κ ε Unit) := ⟨fun _ => trivial⟩
instance (k : κ) : Minds D (tryAcquire k : Prog σ κ ε Bool) := ⟨fun _ => ⟨trivial, trivial⟩⟩

instance (c : Prop) [Decidable c] (e : ε) : Minds D (raiseIf c e : Prog σ κ ε Unit) := by
  unfold raiseIf
  exact ⟨fun _ => by split_ifs <;> trivial⟩

instance (o : Option α) (e : ε) : Minds D (expect o e : Prog σ κ ε α) := by
  cases o <;> exact ⟨fun _ => trivial⟩

instance (r : Except ε α) : Minds D (ofExcept r : Prog σ κ ε α) := by
  cases r <;> exact ⟨fun _ => trivial⟩

instance Minds.bind [hp : Minds D p] {f : α → Prog σ κ ε β} [hf : ∀ a, Minds D (f a)] : Minds D (p >>= f) :=
  ⟨fun held => (hp.guarded held).bind fun a => (hf a).guarded held⟩

theorem Minds.then (hp : Minds D p) {f : α → Prog σ κ ε β} (hf : ∀ a, Minds D (f a)) : Minds D (p >>= f) :=
  Minds.bind

/-- A write under the lock that guards what it changes. -/
theorem Minds.locked {k : κ} {f : σ → σ} (h : ∀ s, D.Within (fun x => x = k) s (f s)) :
    Minds D (acquire k >>= fun _ => update f : Prog σ κ ε Unit) :=
  ⟨fun _ => ⟨fun s => (h s).mono fun _ => Or.inl, trivial⟩⟩

/-- A write that changes nothing that is guarded. -/
theorem Minds.update {f : σ → σ} (h : ∀ held s, D.Within held s (f s)) : Minds D (update f : Prog σ κ ε Unit) :=
  ⟨fun held => ⟨h held, trivial⟩⟩

instance [hp : Minds D p] (f : α → β) : Minds D (f <$> p) := by
  rw [map_eq_pure_bind]
  infer_instance

instance (c : Prop) [Decidable c] (q : Prog σ κ ε α) [hp : Minds D p] [hq : Minds D q] :
    Minds D (if c then p else q) := by
  split_ifs <;> assumption

instance {f : α → γ → Prog σ κ ε α} [hf : ∀ a x, Minds D (f a x)] (xs : List γ) (a : α) :
    Minds D (xs.foldlM f a) := by
  induction xs generalizing a with
  | nil => exact ⟨fun _ => trivial⟩
  | cons x xs ih =>
    rw [List.foldlM_cons]
    exact (hf a x).then ih

instance {f : γ → Prog σ κ ε PUnit} [hf : ∀ x, Minds D (f x)] (xs : List γ) : Minds D (xs.forM f) := by
  induction xs with
  | nil => exact ⟨fun _ => trivial⟩
  | cons x xs ih => exact (hf x).then fun _ => ih

/-- A body that leaves alone everything the discipline speaks of. -/
theorem Minds.of_leaves {τ : Type} {π : σ → τ} [hp : Leaves π p]
    (h : ∀ s s', π s' = π s → D.grows s s' ∧ ∀ k, D.same k s s') : Minds D p := by
  refine ⟨fun held => ?_⟩
  have hw := hp.writes
  clear hp
  induction p generalizing held with
  | done | fail => trivial
  | stmt n next ih => exact fun v => ih v held (hw v)
  | write f next ih => exact ⟨fun s => ⟨(h s _ (hw.1 s)).1, fun k _ => (h s _ (hw.1 s)).2 k⟩, ih held hw.2⟩
  | lock k next ih => exact ih _ hw
  | share k next ih => exact ih held hw
  | tryLock k next ih => exact ⟨ih true _ (hw true), ih false held (hw false)⟩

end Prog

section Bodies

variable {σ κ ε α β ω : Type} {P : Protocol σ κ ε α ω} {D : Discipline σ κ} {I : σ → Prop}

/-- What a body that minds the discipline has done by its end. -/
theorem Protocol.wp_minds [hP : P.Respects D I] (x : Prog σ κ ε β) [hx : x.Minds D] (l : Stand σ κ ω)
    (p : σ → σ) (s : σ) (hp : ∀ v, D.Within l.held v (p v)) :
    P.wp x (fun _ l' p' s' => l.Onward l' ∧ (∀ v, D.Within l'.held v (p' v)) ∧ D.Frame l.held s s') l p s := by
  have hg := hx.guarded l.held
  clear hx
  induction x generalizing l p s with
  | done a => exact ⟨.refl l, hp, .refl⟩
  | fail => trivial
  | stmt n next ih =>
    intro s₁ h₁
    refine wp_mono _ (fun a l' p' s' h => ?_) _ _ _ (ih _ (l.saw n (p s₁)) p s₁ hp (hg _))
    exact ⟨(l.onward_saw ..).trans h.1, h.2.1, (hP.frame _ _ _ h₁.1).trans h.2.2⟩
  | write f next ih => exact ih l (f ∘ p) s (fun v => (hp v).trans (hg.1 _)) hg.2
  | lock k next ih =>
    intro s₁ h₁ _
    refine wp_mono _ (fun a l' p' s' h => ?_) _ _ _
      (ih (l.take k) p s₁ (fun v => (hp v).mono fun _ => Or.inr) hg)
    exact ⟨(l.onward_take k).trans h.1, h.2.1, (hP.frame _ _ _ h₁.1).trans (h.2.2.mono fun _ => Or.inr)⟩
  | share k next ih =>
    intro s₁ h₁
    refine wp_mono _ (fun a l' p' s' h => ?_) _ _ _ (ih l p s₁ hp hg)
    exact ⟨h.1, h.2.1, (hP.frame _ _ _ h₁.1).trans h.2.2⟩
  | tryLock k next ih =>
    intro s₁ h₁
    constructor
    · intro _
      refine wp_mono _ (fun a l' p' s' h => ?_) _ _ _
        (ih true (l.take k) p s₁ (fun v => (hp v).mono fun _ => Or.inr) hg.1)
      exact ⟨(l.onward_take k).trans h.1, h.2.1, (hP.frame _ _ _ h₁.1).trans (h.2.2.mono fun _ => Or.inr)⟩
    · intro _
      refine wp_mono _ (fun a l' p' s' h => ?_) _ _ _ (ih false l p s₁ hp hg.2)
      exact ⟨h.1, h.2.1, (hP.frame _ _ _ h₁.1).trans h.2.2⟩

end Bodies

end Tx
