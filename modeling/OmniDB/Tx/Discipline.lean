import OmniDB.Tx.RelyGuarantee
import OmniDB.Tx.Writes

/-! Lock disciplines. A discipline says which part of the state each lock guards and
what every commit keeps anyway. A transaction may rely on the parts it has locked and
must keep within them; transactions never own the same lock, so the two fit together. -/

namespace Tx

structure Discipline (σ κ : Type) where
  /-- What every commit keeps. -/
  grows : σ → σ → Prop
  /-- The part that `k` guards is the same in both states. -/
  same : κ → σ → σ → Prop
  grows_refl : ∀ s, grows s s
  grows_trans : ∀ s s' s'', grows s s' → grows s' s'' → grows s s''
  same_refl : ∀ k s, same k s s
  same_trans : ∀ k s s' s'', same k s s' → same k s' s'' → same k s s''

namespace Discipline

variable {σ κ ε α β ω : Type} (D : Discipline σ κ)

/-- What the commits of others can do to the owner of `held`. -/
structure Frame (held : κ → Prop) (s s' : σ) : Prop where
  grows : D.grows s s'
  same : ∀ k, held k → D.same k s s'

/-- What a commit under the locks `held` may do. -/
structure Within (held : κ → Prop) (s s' : σ) : Prop where
  grows : D.grows s s'
  same : ∀ k, ¬held k → D.same k s s'

variable {D} {held held' : κ → Prop} {s s' s'' : σ}

theorem Frame.refl : D.Frame held s s := ⟨D.grows_refl s, fun k _ => D.same_refl k s⟩

theorem Frame.trans (h : D.Frame held s s') (h' : D.Frame held s' s'') : D.Frame held s s'' :=
  ⟨D.grows_trans _ _ _ h.grows h'.grows, fun k hk => D.same_trans k _ _ _ (h.same k hk) (h'.same k hk)⟩

theorem Frame.mono (h : D.Frame held' s s') (hh : ∀ k, held k → held' k) : D.Frame held s s' :=
  ⟨h.grows, fun k hk => h.same k (hh k hk)⟩

theorem Within.refl : D.Within held s s := ⟨D.grows_refl s, fun k _ => D.same_refl k s⟩

/-- Commits under disjoint locks are what the others may rely on. -/
theorem Within.frame (h : D.Within held s s') (hd : ∀ k, held' k → ¬held k) : D.Frame held' s s' :=
  ⟨h.grows, fun k hk => h.same k (hd k hk)⟩

variable (D)

/-- Transactions that follow the discipline and keep `inv`, with effect `post`. -/
def protocol (body : ω → Prog σ κ ε α) (inv : σ → Prop) (post : ω → α → σ → σ → Prop) :
    Protocol σ κ ε α ω where
  body := body
  inv := inv
  rely l := D.Frame l.held
  guar l := D.Within l.held
  post := post

/-- From now on, whatever others commit, committing here has effect `E`. -/
def Settles (inv : σ → Prop) (E : (κ → Prop) → σ → σ → Prop) : Protocol.Assertion σ κ ω :=
  fun l p s => ∀ s', D.Frame l.held s s' → inv s' → E l.held s' (p s')

variable {D} {body : ω → Prog σ κ ε α} {inv : σ → Prop} {post : ω → α → σ → σ → Prop}

/-- It is enough to prove of each body what its own commit does. -/
theorem protocol_valid [DecidableEq κ]
    (h : ∀ op s, inv s → (D.protocol body inv post).wp (body op)
      (fun a => D.Settles inv fun held c x => D.Within held c x ∧ inv x ∧ post op a c x)
      { op := op } id s) :
    (D.protocol body inv post).Valid System.Any where
  rely_refl _ _ := Frame.refl
  rely_trans _ _ _ _ h h' := h.trans h'
  start op s hs := by
    refine Protocol.wp_mono_op _ _ ?_ _ _ (h op s hs)
    intro a l p s hop hq s' hs'
    rw [hop]
    exact hq s' hs'.1 hs'.2
  granted _ _ _ _ _ _ := trivial
  refused _ _ _ _ _ _ _ := trivial
  compat s i t a j u hij _ _ _ _ hg :=
    hg.frame fun _ hj hi => System.held_disjoint s hij hi hj

end Discipline

/-- The states others leave respect the discipline `D` and satisfy `I`. -/
class Protocol.Respects {σ κ ε α ω : Type} (P : Protocol σ κ ε α ω) (D : Discipline σ κ)
    (I : σ → Prop) : Prop where
  frame : ∀ l s s', P.rely l s s' → D.Frame l.held s s'
  inv : ∀ s, P.inv s → I s

instance {σ κ ε α ω : Type} (D : Discipline σ κ) (body : ω → Prog σ κ ε α) (I : σ → Prop)
    (post : ω → α → σ → σ → Prop) : (D.protocol body I post).Respects D I :=
  ⟨fun _ _ _ h => h, fun _ h => h⟩

instance {σ κ ε α : Type} (D : Discipline σ κ) (I : σ → Prop) :
    (Protocol.alone I : Protocol σ κ ε α (Prog σ κ ε α)).Respects D I :=
  ⟨fun _ s s' h => by
    obtain rfl : s' = s := h
    exact Discipline.Frame.refl, fun _ h => h⟩

/-- Two disciplines at once. -/
def Discipline.meet {σ κ : Type} (D D' : Discipline σ κ) : Discipline σ κ where
  grows s s' := D.grows s s' ∧ D'.grows s s'
  same k s s' := D.same k s s' ∧ D'.same k s s'
  grows_refl s := ⟨D.grows_refl s, D'.grows_refl s⟩
  grows_trans _ _ _ h h' := ⟨D.grows_trans _ _ _ h.1 h'.1, D'.grows_trans _ _ _ h.2 h'.2⟩
  same_refl k s := ⟨D.same_refl k s, D'.same_refl k s⟩
  same_trans k _ _ _ h h' := ⟨D.same_trans k _ _ _ h.1 h'.1, D'.same_trans k _ _ _ h.2 h'.2⟩

section Meet

variable {σ κ ε α ω : Type} {D D' : Discipline σ κ} {held : κ → Prop} {s s' : σ}

theorem Discipline.Frame.left (h : (D.meet D').Frame held s s') : D.Frame held s s' :=
  ⟨h.grows.1, fun k hk => (h.same k hk).1⟩

theorem Discipline.Frame.right (h : (D.meet D').Frame held s s') : D'.Frame held s s' :=
  ⟨h.grows.2, fun k hk => (h.same k hk).2⟩

theorem Discipline.Within.meet (h : D.Within held s s') (h' : D'.Within held s s') : (D.meet D').Within held s s' :=
  ⟨⟨h.grows, h'.grows⟩, fun k hk => ⟨h.same k hk, h'.same k hk⟩⟩

/-- Who follows both disciplines follows each. -/
instance (body : ω → Prog σ κ ε α) (I : σ → Prop) (post : ω → α → σ → σ → Prop) :
    ((D.meet D').protocol body I post).Respects D I :=
  ⟨fun _ _ _ h => h.left, fun _ h => h⟩

instance (body : ω → Prog σ κ ε α) (I : σ → Prop) (post : ω → α → σ → σ → Prop) :
    ((D.meet D').protocol body I post).Respects D' I :=
  ⟨fun _ _ _ h => h.right, fun _ h => h⟩

end Meet

/-- What a body does under the discipline it also does alone. -/
theorem Discipline.effect_of_runs {σ κ ε α : Type} {D : Discipline σ κ} {I : σ → Prop}
    {x : Prog σ κ ε α} {E : α → (κ → Prop) → σ → σ → Prop} {v t : σ} {a : α} (hv : I v)
    (h : (Protocol.alone I : Protocol σ κ ε α (Prog σ κ ε α)).wp x (fun a => D.Settles I (E a))
      { op := x } id v)
    (hx : x.Runs v a t) : ∃ held, E a held v t := by
  obtain ⟨l, p, rfl, hq⟩ := Protocol.wp_runs _ (fun _ _ => rfl) (fun _ _ _ => trivial) hv x _ _ h hx
  exact ⟨l.held, hq v Discipline.Frame.refl hv⟩

section Bodies

variable {σ κ ε α β ω : Type} {P : Protocol σ κ ε α ω} {D : Discipline σ κ} {I : σ → Prop}

/-- `l'` is a later stand of the same transaction. -/
structure Stand.Onward (l l' : Stand σ κ ω) : Prop where
  op : l'.op = l.op
  held : ∀ k, l.held k → l'.held k
  log : ∀ e ∈ l.log, e ∈ l'.log

theorem Stand.Onward.refl (l : Stand σ κ ω) : l.Onward l := ⟨rfl, fun _ => id, fun _ => id⟩

theorem Stand.Onward.trans {l l' l'' : Stand σ κ ω} (h : l.Onward l') (h' : l'.Onward l'') : l.Onward l'' :=
  ⟨h'.op.trans h.op, fun k hk => h'.held k (h.held k hk), fun e he => h'.log e (h.log e he)⟩

theorem Stand.onward_saw (l : Stand σ κ ω) (n : String) (v : σ) : l.Onward (l.saw n v) :=
  ⟨rfl, fun _ => id, fun _ => List.mem_cons_of_mem _⟩

theorem Stand.onward_take (l : Stand σ κ ω) (k : κ) : l.Onward (l.take k) :=
  ⟨rfl, fun _ => Or.inr, fun _ => id⟩

/-- Whatever a body is answered, it keeps what its writes keep of the uncommitted ones. -/
theorem Protocol.wp_writes [hP : P.Respects D I] {W : (σ → σ) → Prop} {R : β → Prop} {M : (σ → σ) → Prop}
    (hM : ∀ f p, W f → M p → M (f ∘ p)) {x : Prog σ κ ε β} (hx : x.Writes W R) (l : Stand σ κ ω) (p : σ → σ)
    (s : σ) (hp : M p) :
    P.wp x (fun a l' p' s' => R a ∧ l.Onward l' ∧ M p' ∧ D.Frame l.held s s') l p s := by
  induction x generalizing l p s with
  | done a => exact ⟨hx, .refl l, hp, .refl⟩
  | fail => trivial
  | stmt n next ih =>
    intro s₁ h₁
    refine wp_mono _ ?_ _ _ _ (ih _ (hx _) (l.saw n (p s₁)) p s₁ hp)
    intro a l' p' s' ⟨ha, hl, hp', hf⟩
    exact ⟨ha, (l.onward_saw ..).trans hl, hp', (hP.frame _ _ _ h₁.1).trans hf⟩
  | write f next ih => exact ih hx.2 l (f ∘ p) s (hM f p hx.1 hp)
  | lock k next ih =>
    intro s₁ h₁ _
    refine wp_mono _ ?_ _ _ _ (ih hx (l.take k) p s₁ hp)
    intro a l' p' s' ⟨ha, hl, hp', hf⟩
    exact ⟨ha, (l.onward_take k).trans hl, hp', (hP.frame _ _ _ h₁.1).trans (hf.mono fun _ => Or.inr)⟩
  | share k next ih =>
    intro s₁ h₁
    refine wp_mono _ ?_ _ _ _ (ih hx l p s₁ hp)
    intro a l' p' s' ⟨ha, hl, hp', hf⟩
    exact ⟨ha, hl, hp', (hP.frame _ _ _ h₁.1).trans hf⟩
  | tryLock k next ih =>
    intro s₁ h₁
    constructor
    · intro _
      refine wp_mono _ ?_ _ _ _ (ih true (hx true) (l.take k) p s₁ hp)
      intro a l' p' s' ⟨ha, hl, hp', hf⟩
      exact ⟨ha, (l.onward_take k).trans hl, hp', (hP.frame _ _ _ h₁.1).trans (hf.mono fun _ => Or.inr)⟩
    · intro _
      refine wp_mono _ ?_ _ _ _ (ih false (hx false) l p s₁ hp)
      intro a l' p' s' ⟨ha, hl, hp', hf⟩
      exact ⟨ha, hl, hp', (hP.frame _ _ _ h₁.1).trans hf⟩

/-- A body that leaves a part of the state alone, among others. -/
theorem Protocol.wp_leaves [P.Respects D I] {τ : Type} {π : σ → τ} (x : Prog σ κ ε β) [hx : x.Leaves π]
    (l : Stand σ κ ω) (p : σ → σ) (s : σ) (hp : Prog.Keeps π p) :
    P.wp x (fun _ l' p' s' => l.Onward l' ∧ Prog.Keeps π p' ∧ D.Frame l.held s s') l p s :=
  wp_mono _ (fun _ _ _ _ h => h.2) _ _ _
    (wp_writes (I := I) (fun _ _ hf hp v => (hf _).trans (hp v)) hx.writes l p s hp)

end Bodies

end Tx
