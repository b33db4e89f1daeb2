import OmniDB.Tx.Interleaving

/-! Rely-guarantee reasoning for interleaved transactions. A `Protocol` says, for
a transaction that holds given locks, what the commits of others may do to the
committed state (`rely`) and what its own commit does (`guar`). `wp` is the
weakest precondition of a transaction body under that interference, and
`Protocol.sound` is the one induction over runs: if every body meets its
guarantee, every committed state satisfies the invariant. -/

namespace Tx

/-- Where a running transaction stands, as far as interference is concerned. -/
structure Stand (σ κ ω : Type) where
  op : ω
  held : κ → Prop := fun _ => False
  log : Log σ := []

def Stand.take {σ κ ω : Type} (l : Stand σ κ ω) (k : κ) : Stand σ κ ω :=
  { l with held := fun x => x = k ∨ l.held x }

def Stand.saw {σ κ ω : Type} (l : Stand σ κ ω) (n : String) (v : σ) : Stand σ κ ω :=
  { l with log := (n, v) :: l.log }

structure Protocol (σ κ ε α ω : Type) where
  body : ω → Prog σ κ ε α
  inv : σ → Prop
  rely : Stand σ κ ω → σ → σ → Prop
  guar : Stand σ κ ω → σ → σ → Prop
  /-- What a result says about the committed state before and after the commit. -/
  post : ω → α → σ → σ → Prop := fun _ _ _ _ => True
  /-- What the condition on runs promises when a lock is granted or refused. -/
  granted : Stand σ κ ω → κ → σ → Prop := fun _ _ _ => True
  refused : Stand σ κ ω → κ → σ → Prop := fun _ _ _ => True

namespace Protocol

variable {σ κ ε α ω β : Type} (P : Protocol σ κ ε α ω)

/-- An assertion about a transaction: where it stands, its uncommitted writes and
the committed state. -/
abbrev Assertion (σ κ ω : Type) := Stand σ κ ω → (σ → σ) → σ → Prop

/-- `s'` is a committed state others may have produced from `s`. -/
def Later (l : Stand σ κ ω) (s s' : σ) : Prop := P.rely l s s' ∧ P.inv s'

def wp : Prog σ κ ε β → (β → Assertion σ κ ω) → Assertion σ κ ω
  | .done a, Q => Q a
  | .fail _, _ => fun _ _ _ => True
  | .stmt n next, Q => fun l p s => ∀ s', P.Later l s s' → wp (next (p s')) Q (l.saw n (p s')) p s'
  | .write f next, Q => fun l p s => wp next Q l (f ∘ p) s
  | .lock k next, Q => fun l p s =>
      ∀ s', P.Later l s s' → P.granted l k s' → wp next Q (l.take k) p s'
  | .share _ next, Q => fun l p s => ∀ s', P.Later l s s' → wp next Q l p s'
  | .tryLock k next, Q => fun l p s =>
      ∀ s', P.Later l s s' → (P.granted l k s' → wp (next true) Q (l.take k) p s') ∧
        (P.refused l k s' → wp (next false) Q l p s')

/-- The commit with result `a` is good from every state others may leave. -/
def Commits (a : α) : Assertion σ κ ω := fun l p s =>
  ∀ s', P.Later l s s' → P.guar l s' (p s') ∧ P.inv (p s') ∧ P.post l.op a s' (p s')

/-- The side conditions of the rule, `ok` being the condition on the steps of a run. -/
structure Valid [DecidableEq κ] (ok : System σ κ ε α ω → ℕ → Event κ ε α ω → Prop) : Prop where
  rely_refl : ∀ l s, P.rely l s s
  rely_trans : ∀ l s s' s'', P.rely l s s' → P.rely l s' s'' → P.rely l s s''
  start : ∀ op s, P.inv s → P.wp (P.body op) P.Commits { op := op } id s
  granted : ∀ s i t k, s.threads i = some t → ok s i (.granted k) →
    P.granted ⟨t.op, s.held i, t.log⟩ k s.committed
  refused : ∀ s i t k, s.threads i = some t → ok s i (.refused k) → ¬s.Free i k →
    P.refused ⟨t.op, s.held i, t.log⟩ k s.committed
  compat : ∀ s i t a j u, i ≠ j → s.threads i = some t → s.threads j = some u →
    t.prog = .done a → ok s i (.committed t.op a) →
    P.guar ⟨t.op, s.held i, t.log⟩ s.committed (t.pending s.committed) →
    P.rely ⟨u.op, s.held j, u.log⟩ s.committed (t.pending s.committed)

/-- Every running transaction is where the rule allows it to be. -/
structure Sound (s : System σ κ ε α ω) : Prop where
  inv : P.inv s.committed
  idle : ∀ i, s.threads i = none → s.held i = fun _ => False
  threads : ∀ i t, s.threads i = some t →
    P.wp t.prog P.Commits ⟨t.op, s.held i, t.log⟩ t.pending s.committed

section Rules

variable {P} {Q Q' : β → Assertion σ κ ω} {l : Stand σ κ ω} {p : σ → σ} {s s' : σ}

@[simp] theorem wp_pure (a : β) : P.wp (pure a : Prog σ κ ε β) Q l p s ↔ Q a l p s := Iff.rfl

@[simp] theorem wp_raise (e : ε) : P.wp (Prog.raise e : Prog σ κ ε β) Q l p s ↔ True := Iff.rfl

theorem wp_bind {γ : Type} (x : Prog σ κ ε γ) (f : γ → Prog σ κ ε β) (l : Stand σ κ ω)
    (p : σ → σ) (s : σ) :
    P.wp (x >>= f) Q l p s ↔ P.wp x (fun a => P.wp (f a) Q) l p s := by
  rw [Prog.bind_eq]
  induction x generalizing l p s with
  | done | fail => exact Iff.rfl
  | stmt n next ih => simp only [Prog.bind, wp, ih]
  | write g next ih => simp only [Prog.bind, wp, ih]
  | lock k next ih => simp only [Prog.bind, wp, ih]
  | share k next ih => simp only [Prog.bind, wp, ih]
  | tryLock k next ih => simp only [Prog.bind, wp, ih]

@[simp] theorem wp_view (n : String) (Q : σ → Assertion σ κ ω) :
    P.wp (Prog.view n : Prog σ κ ε σ) Q l p s ↔
      ∀ s', P.Later l s s' → Q (p s') (l.saw n (p s')) p s' := Iff.rfl

@[simp] theorem wp_update (f : σ → σ) (Q : Unit → Assertion σ κ ω) :
    P.wp (Prog.update f : Prog σ κ ε Unit) Q l p s ↔ Q () l (f ∘ p) s := Iff.rfl

theorem wp_acquire (k : κ) (Q : Unit → Assertion σ κ ω) :
    P.wp (Prog.acquire k : Prog σ κ ε Unit) Q l p s ↔
      ∀ s', P.Later l s s' → P.granted l k s' → Q () (l.take k) p s' := Iff.rfl

theorem wp_tryAcquire (k : κ) (Q : Bool → Assertion σ κ ω) :
    P.wp (Prog.tryAcquire k : Prog σ κ ε Bool) Q l p s ↔
      ∀ s', P.Later l s s' → (P.granted l k s' → Q true (l.take k) p s') ∧
        (P.refused l k s' → Q false l p s') := Iff.rfl

@[simp] theorem wp_raiseIf (c : Prop) [Decidable c] (e : ε) (Q : Unit → Assertion σ κ ω) :
    P.wp (Prog.raiseIf c e : Prog σ κ ε Unit) Q l p s ↔ (¬c → Q () l p s) := by
  unfold Prog.raiseIf
  split_ifs with h
  · simp [h, wp]
  · simp [h, wp]

@[simp] theorem wp_expect (o : Option β) (e : ε) (Q : β → Assertion σ κ ω) :
    P.wp (Prog.expect o e : Prog σ κ ε β) Q l p s ↔ ∀ a, o = some a → Q a l p s := by
  cases o with
  | none => simp [Prog.expect, wp]
  | some b => simp [Prog.expect, wp]

theorem wp_mono (x : Prog σ κ ε β) (hQ : ∀ a l p s, Q a l p s → Q' a l p s) (l : Stand σ κ ω)
    (p : σ → σ) (s : σ) (h : P.wp x Q l p s) : P.wp x Q' l p s := by
  induction x generalizing l p s with
  | done a => exact hQ a l p s h
  | fail => trivial
  | stmt n next ih => exact fun s' hs => ih _ _ _ _ (h s' hs)
  | write g next ih => exact ih _ _ _ h
  | lock k next ih => exact fun s' hs hg => ih _ _ _ (h s' hs hg)
  | share k next ih => exact fun s' hs => ih _ _ _ (h s' hs)
  | tryLock k next ih =>
    exact fun s' hs => ⟨fun hg => ih _ _ _ _ ((h s' hs).1 hg), fun hr => ih _ _ _ _ ((h s' hs).2 hr)⟩

/-- A transaction keeps the operation it was started for. -/
theorem wp_mono_op (x : Prog σ κ ε β) (l : Stand σ κ ω)
    (hQ : ∀ a l' p s, l'.op = l.op → Q a l' p s → Q' a l' p s)
    (p : σ → σ) (s : σ) (h : P.wp x Q l p s) : P.wp x Q' l p s := by
  induction x generalizing l p s with
  | done a => exact hQ a l p s rfl h
  | fail => trivial
  | stmt n next ih => exact fun s' hs => ih _ (l.saw n (p s')) hQ _ _ (h s' hs)
  | write g next ih => exact ih l hQ _ _ h
  | lock k next ih => exact fun s' hs hg => ih (l.take k) hQ _ _ (h s' hs hg)
  | share k next ih => exact fun s' hs => ih l hQ _ _ (h s' hs)
  | tryLock k next ih =>
    exact fun s' hs => ⟨fun hg => ih _ (l.take k) hQ _ _ ((h s' hs).1 hg),
      fun hr => ih _ l hQ _ _ ((h s' hs).2 hr)⟩

/-- A fold over a list: one step from any point of the loop is enough. -/
theorem wp_foldlM {γ : Type} {f : β → γ → Prog σ κ ε β} {M : List γ → β → Assertion σ κ ω}
    (step : ∀ done x a l p s, M done a l p s → P.wp (f a x) (M (done ++ [x])) l p s) :
    ∀ (xs done : List γ) (a : β) (l : Stand σ κ ω) (p : σ → σ) (s : σ), M done a l p s →
      P.wp (xs.foldlM f a : Prog σ κ ε β) (M (done ++ xs)) l p s := by
  intro xs
  induction xs with
  | nil => intro done a l p s h; simpa using h
  | cons x xs ih =>
    intro done a l p s h
    rw [List.foldlM_cons, wp_bind]
    refine wp_mono _ ?_ _ _ _ (step done x a l p s h)
    intro a' l' p' s' h'
    simpa using ih (done ++ [x]) a' l' p' s' h'

/-- The same where a round may use that its element is in the list. -/
theorem wp_foldlM_mem {γ : Type} {f : β → γ → Prog σ κ ε β} {M : β → Assertion σ κ ω} (xs : List γ)
    (step : ∀ x ∈ xs, ∀ a l p s, M a l p s → P.wp (f a x) M l p s) (a : β) (l : Stand σ κ ω) (p : σ → σ) (s : σ)
    (h : M a l p s) : P.wp (xs.foldlM f a : Prog σ κ ε β) M l p s := by
  induction xs generalizing a l p s with
  | nil => exact h
  | cons x xs ih =>
    rw [List.foldlM_cons, wp_bind]
    refine wp_mono _ ?_ _ _ _ (step x List.mem_cons_self a l p s h)
    exact fun a' l' p' s' h' => ih (fun y hy => step y (List.mem_cons_of_mem _ hy)) a' l' p' s' h'

theorem wp_and (x : Prog σ κ ε β) (h : P.wp x Q l p s) (h' : P.wp x Q' l p s) :
    P.wp x (fun a l p s => Q a l p s ∧ Q' a l p s) l p s := by
  induction x generalizing l p s with
  | done a => exact ⟨h, h'⟩
  | fail => trivial
  | stmt n next ih => exact fun s' hs => ih _ (h s' hs) (h' s' hs)
  | write g next ih => exact ih h h'
  | lock k next ih => exact fun s' hs hg => ih (h s' hs hg) (h' s' hs hg)
  | share k next ih => exact fun s' hs => ih (h s' hs) (h' s' hs)
  | tryLock k next ih =>
    exact fun s' hs => ⟨fun hg => ih _ ((h s' hs).1 hg) ((h' s' hs).1 hg),
      fun hr => ih _ ((h s' hs).2 hr) ((h' s' hs).2 hr)⟩

end Rules

/-- A body that meets its precondition, run with no other transaction about. -/
theorem wp_runs (hr : ∀ l s, P.rely l s s) (hg : ∀ l k s, P.granted l k s) {v : σ} (hi : P.inv v)
    {Q : β → Assertion σ κ ω} (x : Prog σ κ ε β) (l : Stand σ κ ω) (p : σ → σ) {a : β} {t : σ}
    (h : P.wp x Q l p v) (hx : x.Runs (p v) a t) : ∃ l' p', p' v = t ∧ Q a l' p' v := by
  have hl : ∀ l, P.Later l v v := fun l => ⟨hr l v, hi⟩
  induction x generalizing l p with
  | done b =>
    obtain ⟨rfl, rfl⟩ : b = a ∧ p v = t := by simpa [Prog.Runs, Prog.exec] using hx
    exact ⟨l, p, rfl, h⟩
  | fail e => simp [Prog.Runs, Prog.exec] at hx
  | stmt n next ih => exact ih _ _ _ (h v (hl l)) hx
  | write f next ih => exact ih _ (f ∘ p) h hx
  | lock k next ih => exact ih _ _ (h v (hl l) (hg l k v)) hx
  | share k next ih => exact ih _ _ (h v (hl l)) hx
  | tryLock k next ih => exact ih _ _ _ ((h v (hl l)).1 (hg l k v)) hx

theorem Later.trans [DecidableEq κ] {P : Protocol σ κ ε α ω} {ok} (hP : P.Valid ok)
    {l : Stand σ κ ω} {s s' s'' : σ} (h : P.rely l s s') (h' : P.Later l s' s'') :
    P.Later l s s'' := ⟨hP.rely_trans _ _ _ _ h h'.1, h'.2⟩

/-- Interference before the next step of a transaction cannot spoil it. -/
theorem wp_stable [DecidableEq κ] {P : Protocol σ κ ε α ω} {ok} (hP : P.Valid ok)
    (x : Prog σ κ ε α) (l : Stand σ κ ω) (p : σ → σ) {s s' : σ} (hs : P.rely l s s')
    (h : P.wp x P.Commits l p s) : P.wp x P.Commits l p s' := by
  induction x generalizing p with
  | done a => exact fun s'' hs' => h s'' (Later.trans hP hs hs')
  | fail => trivial
  | stmt n next ih => exact fun s'' hs' => h s'' (Later.trans hP hs hs')
  | write g next ih => exact ih _ h
  | lock k next ih => exact fun s'' hs' => h s'' (Later.trans hP hs hs')
  | share k next ih => exact fun s'' hs' => h s'' (Later.trans hP hs hs')
  | tryLock k next ih => exact fun s'' hs' => h s'' (Later.trans hP hs hs')

variable {P}

/-- Replacing one thread, with the locks of the others unchanged, keeps `Sound`. -/
theorem Sound.resume {s s₁ : System σ κ ε α ω} {i : ℕ} {t : Thread σ κ ε α ω} (h : P.Sound s)
    (hc : s₁.committed = s.committed) (hi : s₁.threads i = some t)
    (hj : ∀ j, j ≠ i → s₁.threads j = s.threads j) (hh : ∀ j, j ≠ i → s₁.held j = s.held j)
    (ht : P.wp t.prog P.Commits ⟨t.op, s₁.held i, t.log⟩ t.pending s.committed) : P.Sound s₁ := by
  refine ⟨hc ▸ h.inv, fun j hn => ?_, fun j u hu => ?_⟩
  · by_cases hji : j = i
    · subst hji; simp [hi] at hn
    · rw [hh j hji]
      exact h.idle j (hj j hji ▸ hn)
  rw [hc]
  by_cases hji : j = i
  · subst hji
    obtain rfl : t = u := Option.some.inj (hi.symm.trans hu)
    exact ht
  · rw [hh j hji]
    exact h.threads j u (hj j hji ▸ hu)

variable [DecidableEq κ] {ok : System σ κ ε α ω → ℕ → Event κ ε α ω → Prop}

theorem Sound.later (hP : P.Valid ok) {s : System σ κ ε α ω} (h : P.Sound s) (l : Stand σ κ ω) :
    P.Later l s.committed s.committed := ⟨hP.rely_refl _ _, h.inv⟩

theorem Sound.finish (hP : P.Valid ok) {s : System σ κ ε α ω} {i : ℕ} {v : σ} (h : P.Sound s)
    (hv : P.inv v) (hr : ∀ j u, i ≠ j → s.threads j = some u →
      P.rely ⟨u.op, s.held j, u.log⟩ s.committed v) : P.Sound (s.finish i v) := by
  refine ⟨hv, fun j hn => ?_, fun j u hu => ?_⟩
  · by_cases hji : j = i
    · subst hji; exact System.held_finish_self ..
    · rw [System.held_finish_ne _ _ _ hji]
      exact h.idle j (System.finish_ne _ _ _ hji ▸ hn)
  by_cases hji : j = i
  · subst hji; simp at hu
  · rw [System.finish_ne _ _ _ hji] at hu
    rw [System.held_finish_ne _ _ _ hji]
    exact wp_stable hP _ _ _ (hr j u (Ne.symm hji) hu) (h.threads j u hu)

theorem Sound.advance (hP : P.Valid ok) {s s' : System σ κ ε α ω} {i : ℕ} {e : Event κ ε α ω}
    (h : P.Sound s) (hok : ok s i e) (hs : s.advance i = some (e, s')) : P.Sound s' := by
  unfold System.advance at hs
  cases ht : s.threads i with
  | none => simp [ht] at hs
  | some t =>
    have hw := h.threads i t ht
    have hl := h.later hP ⟨t.op, s.held i, t.log⟩
    simp only [ht] at hs
    cases hp : t.prog with
    | done a =>
      rw [hp] at hs hw
      cases hs
      obtain ⟨hg, hi, -⟩ := hw _ hl
      exact h.finish hP hi fun j u hij hu => hP.compat s i t a j u hij ht hu hp hok hg
    | fail e =>
      rw [hp] at hs
      cases hs
      exact h.finish hP h.inv fun j u _ _ => hP.rely_refl _ _
    | stmt n next =>
      rw [hp] at hs hw
      cases hs
      exact h.resume rfl (System.resume_self ..) (fun j hj => System.resume_ne _ _ _ hj)
        (fun _ _ => rfl) (hw _ hl)
    | write f next =>
      rw [hp] at hs hw
      cases hs
      exact h.resume rfl (System.resume_self ..) (fun j hj => System.resume_ne _ _ _ hj)
        (fun _ _ => rfl) hw
    | lock k next =>
      rw [hp] at hs hw
      simp only at hs
      split_ifs at hs with hf
      cases hs
      refine h.resume rfl (System.resume_self ..) (fun j hj => System.resume_ne _ _ _ hj)
        (fun j hj => System.held_grant_ne _ _ _ hf hj) ?_
      have hnext := hw _ hl (hP.granted s i t k ht hok)
      rwa [Stand.take, ← System.held_grant_self] at hnext
    | share k next =>
      rw [hp] at hs hw
      simp only at hs
      split_ifs at hs with hf
      cases hs
      exact h.resume rfl (System.resume_self ..) (fun j hj => System.resume_ne _ _ _ hj)
        (fun _ _ => rfl) (hw _ hl)
    | tryLock k next =>
      rw [hp] at hs hw
      simp only at hs
      split_ifs at hs with hf
      · cases hs
        refine h.resume rfl (System.resume_self ..) (fun j hj => System.resume_ne _ _ _ hj)
          (fun j hj => System.held_grant_ne _ _ _ hf hj) ?_
        have hnext := (hw _ hl).1 (hP.granted s i t k ht hok)
        rwa [Stand.take, ← System.held_grant_self] at hnext
      · cases hs
        exact h.resume rfl (System.resume_self ..) (fun j hj => System.resume_ne _ _ _ hj)
          (fun _ _ => rfl) ((hw _ hl).2 (hP.refused s i t k ht hok hf))

theorem Sound.step (hP : P.Valid ok) {s s' : System σ κ ε α ω} {i : ℕ} {e : Event κ ε α ω}
    (h : P.Sound s) (hok : ok s i e) (hs : System.Step P.body s i e s') : P.Sound s' := by
  cases hs with
  | start op hn =>
    refine h.resume rfl (System.resume_self ..) (fun j hj => System.resume_ne _ _ _ hj)
      (fun _ _ => rfl) ?_
    rw [System.held_resume, h.idle i hn]
    exact hP.start op s.committed h.inv
  | run ha => exact h.advance hP hok ha
  | abort ht => exact h.finish hP h.inv fun j u _ _ => hP.rely_refl _ _

theorem Sound.reaches (hP : P.Valid ok) {s s' : System σ κ ε α ω} (h : P.Sound s)
    (hr : System.Reaches P.body ok s s') : P.Sound s' := by
  induction hr with
  | refl => exact h
  | tail _ hs ih =>
    obtain ⟨i, e, hok, hstep⟩ := hs
    exact ih.step hP hok hstep

omit [DecidableEq κ] in
/-- No transaction has started yet. -/
theorem sound_init {v : σ} (hv : P.inv v) : P.Sound { committed := v } :=
  ⟨hv, fun _ _ => by funext k; simp [System.held], fun i t ht => by simp at ht⟩

/-- The rule: every committed state of every run satisfies the invariant. -/
theorem inv_of_reaches (hP : P.Valid ok) {v : σ} (hv : P.inv v) {s : System σ κ ε α ω}
    (hr : System.Reaches P.body ok { committed := v } s) : P.inv s.committed :=
  ((sound_init hv).reaches hP hr).inv

/-- What a commit does where every transaction is as the rule says. -/
theorem Sound.commit (hP : P.Valid ok) {s s' : System σ κ ε α ω} (h : P.Sound s) {i : ℕ} {op : ω} {a : α}
    (hs : System.Step P.body s i (.committed op a) s') :
    P.guar ⟨op, s.held i, ((s.threads i).map Thread.log).getD []⟩ s.committed s'.committed ∧
      P.post op a s.committed s'.committed := by
  cases hs with
  | run ha =>
    obtain ⟨t, ht, rfl, hp, rfl⟩ := System.advance_committed ha
    have hw := h.threads i t ht
    rw [hp] at hw
    obtain ⟨hg, -, hpost⟩ := hw _ (h.later hP _)
    exact ⟨by simpa [ht] using hg, hpost⟩

/-- What a commit does, in any run that meets the condition so far. -/
theorem commit_of_reaches (hP : P.Valid ok) {v : σ} (hv : P.inv v) {s s' : System σ κ ε α ω}
    (hr : System.Reaches P.body ok { committed := v } s) {i : ℕ} {op : ω} {a : α}
    (hs : System.Step P.body s i (.committed op a) s') :
    P.guar ⟨op, s.held i, ((s.threads i).map Thread.log).getD []⟩ s.committed s'.committed ∧
      P.post op a s.committed s'.committed := ((sound_init hv).reaches hP hr).commit hP hs

/-- What every commit preserves holds of every committed state. -/
theorem invariant_of_commits (hP : P.Valid ok) {v : σ} (hv : P.inv v) {I : σ → Prop} (hI : I v)
    (step : ∀ op a x x', P.inv x → P.post op a x x' → I x → I x') {s : System σ κ ε α ω}
    (hr : System.Reaches P.body ok { committed := v } s) : I s.committed := by
  induction hr with
  | refl => exact hI
  | tail hr hs ih =>
    obtain ⟨i, e, hok, hstep⟩ := hs
    rcases hstep.committed_eq with ⟨op, a, rfl⟩ | he
    · exact step op a _ _ (inv_of_reaches hP hv hr) (commit_of_reaches hP hv hr hstep).2 ih
    · rwa [he]

/-- A transaction that runs with no other about. -/
def alone (I : σ → Prop) : Protocol σ κ ε α (Prog σ κ ε α) where
  body := id
  inv := I
  rely _ s s' := s' = s
  guar _ _ _ := True

end Protocol

end Tx
