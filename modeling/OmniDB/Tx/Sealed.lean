import OmniDB.Tx.Guarded

/-! Records that are sealed once. Each record has a lock, and whoever owns it may seal the record;
what is kept of a sealed record never changes again, provided that a transaction which loaded a
record before it got the lock is granted the lock only while the record is not sealed behind
its back. -/

namespace Tx

structure Register (σ κ ι ρ τ : Type) where
  lock : ι → κ
  /-- The record that a key is the lock of. -/
  record : κ → Option ι
  record_eq : ∀ {k i}, record k = some i ↔ k = lock i
  /-- The part of a record that only the owner of its lock changes. -/
  row : σ → ι → ρ
  /-- The part that stays once the record is sealed. -/
  kept : σ → ι → τ
  isSealed : τ → Bool
  sealed_congr : ∀ {s s' i}, row s' i = row s i → isSealed (kept s' i) = isSealed (kept s i)
  /-- The statements whose answers a transaction goes on with under the lock. -/
  loads : List String

namespace Register

variable {σ κ ε α β ω ι ρ τ : Type} (R : Register σ κ ι ρ τ)

def Sealed (s : σ) (i : ι) : Prop := R.isSealed (R.kept s i) = true

def locks : Discipline σ κ where
  grows s s' := ∀ i, R.Sealed s i → R.kept s' i = R.kept s i
  same k s s' := ∀ i, k = R.lock i → R.row s' i = R.row s i
  grows_refl _ _ _ := rfl
  grows_trans s s' s'' h h' i hs := by
    have hs' : R.Sealed s' i := by rwa [Sealed, h i hs]
    exact (h' i hs').trans (h i hs)
  same_refl _ _ _ _ := rfl
  same_trans _ _ _ _ h h' i hk := (h' i hk).trans (h i hk)

/-- A transaction gets the lock of a sealed record only if the record was sealed whenever it loaded it. -/
def current (s : System σ κ ε α ω) (i : ℕ) : Event κ ε α ω → Bool
  | .granted k => (R.record k).all fun r => !R.isSealed (R.kept s.committed r) ||
      (s.threads i).all fun t => t.log.all fun e => !R.loads.contains e.1 || R.isSealed (R.kept e.2 r)
  | _ => true

def protocol (body : ω → Prog σ κ ε α) (inv : σ → Prop) (post : ω → α → σ → σ → Prop) : Protocol σ κ ε α ω where
  body := body
  inv := inv
  rely l := R.locks.Frame l.held
  guar l := R.locks.Within l.held
  post := post
  granted l k s := ∀ r, k = R.lock r → R.Sealed s r → ∀ e ∈ l.log, e.1 ∈ R.loads → R.Sealed e.2 r

instance (body : ω → Prog σ κ ε α) (inv : σ → Prop) (post : ω → α → σ → σ → Prop) :
    (R.protocol body inv post).Respects R.locks inv := ⟨fun _ _ _ h => h, fun _ h => h⟩

/-- What the writes of a transaction do to a record: they keep what is kept of it, or its owner
has found it open. -/
structure Sofar (l : Stand σ κ ω) (p : σ → σ) (s : σ) : Prop where
  kept : ∀ i, (∀ x, R.kept (p x) i = R.kept x i) ∨ (l.held (R.lock i) ∧ ¬R.Sealed s i)
  row : ∀ i, l.held (R.lock i) ∨ ∀ x, R.row (p x) i = R.row x i

variable {R} {l l' : Stand σ κ ω} {p f : σ → σ} {s s' : σ} {i : ι}

theorem Sofar.init : R.Sofar l id s := ⟨fun _ => Or.inl fun _ => rfl, fun _ => Or.inr fun _ => rfl⟩

theorem not_sealed_of_frame (h : ¬R.Sealed s i) (hk : l.held (R.lock i)) (hf : R.locks.Frame l.held s s') :
    ¬R.Sealed s' i := by
  rwa [Sealed, R.sealed_congr (hf.same _ hk i rfl)]

theorem Sofar.later (h : R.Sofar l p s) (hl : l.Onward l') (hf : R.locks.Frame l.held s s') : R.Sofar l' p s' where
  kept i := (h.kept i).imp_right fun ho => ⟨hl.held _ ho.1, not_sealed_of_frame ho.2 ho.1 hf⟩
  row i := (h.row i).imp_left (hl.held _)

variable (R) in
/-- What is to be seen of the other records. -/
def others (i : ι) (s : σ) : {j // j ≠ i} → τ × ρ := fun j => (R.kept s j, R.row s j)

theorem others_congr (hk : ∀ j, j ≠ i → R.kept s' j = R.kept s j) (hr : ∀ j, j ≠ i → R.row s' j = R.row s j) :
    R.others i s' = R.others i s := funext fun j => Prod.ext (hk j j.2) (hr j j.2)

/-- A write of the owner of the record `i`, which has found it open or keeps what is kept of it. -/
theorem Sofar.write (h : R.Sofar l p s) (hk : l.held (R.lock i))
    (hi : ¬R.Sealed s i ∨ ∀ x, R.kept (f x) i = R.kept x i) (ho : Prog.Keeps (R.others i) f) :
    R.Sofar l (f ∘ p) s where
  kept j := by
    by_cases hj : j = i
    · subst hj
      rcases h.kept j with hp | hp
      · exact hi.symm.imp (fun hf x => (hf _).trans (hp x)) fun hs => ⟨hk, hs⟩
      · exact Or.inr hp
    · exact (h.kept j).imp_left fun hp x => (congrArg Prod.fst (congrFun (ho _) ⟨j, hj⟩)).trans (hp x)
  row j := by
    by_cases hj : j = i
    · exact Or.inl (hj ▸ hk)
    · exact (h.row j).imp_right fun hp x => (congrArg Prod.snd (congrFun (ho _) ⟨j, hj⟩)).trans (hp x)

theorem Sofar.within (h : R.Sofar l p s) {x : σ} (hf : R.locks.Frame l.held s x) : R.locks.Within l.held x (p x) where
  grows i hs := by
    rcases h.kept i with hp | ⟨hk, ho⟩
    · exact hp x
    · exact absurd hs (not_sealed_of_frame ho hk hf)
  same k hk i hki := by
    rcases h.row i with hh | hp
    · exact absurd (hki ▸ hh) hk
    · exact hp x

/-- A body that only touches a record which is open under its lock. -/
theorem wp_open {P : Protocol σ κ ε α ω} {I : σ → Prop} [P.Respects R.locks I] (x : Prog σ κ ε β)
    [x.Leaves (R.others i)] (h : R.Sofar l p s) (hk : l.held (R.lock i)) (hi : ¬R.Sealed s i) :
    P.wp x (fun _ l' p' s' => l.Onward l' ∧ R.Sofar l' p' s' ∧ R.locks.Frame l.held s s') l p s := by
  refine Protocol.wp_mono _ (fun a l' p' s' h => ⟨h.2.1, h.2.2.1.later h.2.1 h.2.2.2, h.2.2.2⟩) _ _ _
    (Protocol.wp_writes (D := R.locks) (I := I) (M := fun q => R.Sofar l q s) (fun f q hq hs => ?_)
      (Prog.Leaves.writes (π := R.others i) (p := x)) l p s h)
  exact hs.write hk (Or.inl hi) hq

/-! ## Runs -/

variable [DecidableEq κ] {body : ω → Prog σ κ ε α} {υ : Type} {π : σ → υ} {I : υ → Prop}
  {post : ω → α → σ → σ → Prop}

/-- What is assumed of the state is about a part that no body touches. -/
theorem protocol_valid [hπ : ∀ op, (body op).Leaves π]
    (h : ∀ op s, I (π s) → (R.protocol body (fun s => I (π s)) post).wp (body op) (fun a l p s =>
      R.Sofar l p s ∧ ∀ x, R.locks.Frame l.held s x → I (π x) → post op a x (p x)) { op := op } id s) :
    (R.protocol body (fun s => I (π s)) post).Valid fun s i e => R.current s i e = true where
  rely_refl _ _ := .refl
  rely_trans _ _ _ _ h h' := h.trans h'
  start op s hs := by
    have hleaves := Protocol.wp_leaves (P := R.protocol body (fun s => I (π s)) post) (D := R.locks)
      (I := fun s => I (π s)) (π := π) (body op) { op := op } id s fun _ => rfl
    refine Protocol.wp_mono _ ?_ _ _ _ (Protocol.wp_and _ (h op s hs) hleaves)
    intro a l p s h x hx
    obtain ⟨⟨hsofar, hend⟩, hl, hkeeps, _⟩ := h
    have hI : I (π (p x)) := by
      rw [hkeeps x]
      exact hx.2
    rw [show l.op = op from hl.op]
    exact ⟨hsofar.within hx.1, hI, hend x hx.1 hx.2⟩
  granted s i t k ht hok r hk hs e he hload := by
    simp only [current, R.record_eq.2 hk, Option.all_some, ht] at hok
    rw [show R.isSealed (R.kept s.committed r) = true from hs, Bool.not_true, Bool.false_or,
      List.all_eq_true] at hok
    have := hok e he
    rwa [List.contains_iff_mem.2 hload, Bool.not_true, Bool.false_or] at this
  refused _ _ _ _ _ _ _ := trivial
  compat s i t a j u hij _ _ _ _ hg := hg.frame fun _ hj hi => System.held_disjoint s hij hi hj

/-- What is kept of a sealed record is the same at the end of a run. -/
theorem kept_of_reaches {inv : σ → Prop}
    (hP : (R.protocol body inv post).Valid fun s i e => R.current s i e = true) {v : σ} (hv : inv v)
    {s s' : System σ κ ε α ω}
    (hr : System.Reaches body (fun s i e => R.current s i e = true) { committed := v } s)
    (hr' : System.Reaches body (fun s i e => R.current s i e = true) s s') (hs : R.Sealed s.committed i) :
    R.kept s'.committed i = R.kept s.committed i := by
  induction hr' with
  | refl => rfl
  | tail hr' hstep ih =>
    obtain ⟨j, e, hok, hstep⟩ := hstep
    rcases hstep.committed_eq with ⟨op, a, rfl⟩ | he
    · have hg := (Protocol.commit_of_reaches hP hv (hr.trans hr') hstep).1
      exact (hg.grows i (by rwa [Sealed, ih])).trans ih
    · rw [he, ih]

end Register

end Tx
