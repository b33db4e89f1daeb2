import OmniDB.Tx.Interleaving

/-! What holds on every path of a body. A path is one way through a body, with what it was answered
on the way: the states its statements saw, and whether a lock it tried was free. Every run of the
body, alone or among others, follows one of its paths. -/

namespace Tx

inductive Answer (σ κ : Type) where
  | read (name : String) (v : σ)
  | tried (k : κ) (granted : Bool)

namespace Prog

variable {σ κ ε α β γ : Type}

/-- `Q` holds of the answers and the result, on every path. -/
def Along : Prog σ κ ε α → (List (Answer σ κ) → Except ε α → Prop) → Prop
  | done a, Q => Q [] (.ok a)
  | fail e, Q => Q [] (.error e)
  | stmt n next, Q => ∀ v, Along (next v) fun as r => Q (.read n v :: as) r
  | write _ next, Q => Along next Q
  | lock _ next, Q => Along next Q
  | share _ next, Q => Along next Q
  | tryLock k next, Q => ∀ b, Along (next b) fun as r => Q (.tried k b :: as) r

variable {p : Prog σ κ ε α} {Q Q' : List (Answer σ κ) → Except ε α → Prop}

@[simp] theorem along_pure (a : α) : Along (pure a : Prog σ κ ε α) Q ↔ Q [] (.ok a) := Iff.rfl

@[simp] theorem along_raise (e : ε) : Along (raise e : Prog σ κ ε α) Q ↔ Q [] (.error e) := Iff.rfl

@[simp] theorem along_view (n : String) (Q : List (Answer σ κ) → Except ε σ → Prop) :
    Along (view n : Prog σ κ ε σ) Q ↔ ∀ v, Q [.read n v] (.ok v) := Iff.rfl

@[simp] theorem along_update (f : σ → σ) (Q : List (Answer σ κ) → Except ε Unit → Prop) :
    Along (update f : Prog σ κ ε Unit) Q ↔ Q [] (.ok ()) := Iff.rfl

@[simp] theorem along_acquire (k : κ) (Q : List (Answer σ κ) → Except ε Unit → Prop) :
    Along (acquire k : Prog σ κ ε Unit) Q ↔ Q [] (.ok ()) := Iff.rfl

@[simp] theorem along_tryAcquire (k : κ) (Q : List (Answer σ κ) → Except ε Bool → Prop) :
    Along (tryAcquire k : Prog σ κ ε Bool) Q ↔ ∀ b, Q [.tried k b] (.ok b) := Iff.rfl

@[simp] theorem along_raiseIf (c : Prop) [Decidable c] (e : ε) (Q : List (Answer σ κ) → Except ε Unit → Prop) :
    Along (raiseIf c e : Prog σ κ ε Unit) Q ↔ (c → Q [] (.error e)) ∧ (¬c → Q [] (.ok ())) := by
  unfold raiseIf
  split_ifs with h <;> simp [h, Along]

@[simp] theorem along_expect (o : Option α) (e : ε) :
    Along (expect o e : Prog σ κ ε α) Q ↔ (o = none → Q [] (.error e)) ∧ ∀ a, o = some a → Q [] (.ok a) := by
  cases o <;> simp [expect, Along]

theorem Along.mono (h : p.Along Q) (hQ : ∀ as r, Q as r → Q' as r) : p.Along Q' := by
  induction p generalizing Q Q' with
  | done a => exact hQ _ _ h
  | fail e => exact hQ _ _ h
  | stmt n next ih => exact fun v => ih v (h v) fun as r => hQ _ r
  | write f next ih => exact ih h hQ
  | lock k next ih => exact ih h hQ
  | share k next ih => exact ih h hQ
  | tryLock k next ih => exact fun b => ih b (h b) fun as r => hQ _ r

theorem along_bind (f : α → Prog σ κ ε β) (Q : List (Answer σ κ) → Except ε β → Prop) :
    Along (p >>= f) Q ↔ p.Along fun as r => match r with
      | .ok a => (f a).Along fun as' => Q (as ++ as')
      | .error e => Q as (.error e) := by
  rw [bind_eq]
  induction p generalizing Q with
  | done | fail => exact Iff.rfl
  | stmt n next ih => exact forall_congr' fun v => ih v _
  | write g next ih => exact ih Q
  | lock k next ih => exact ih Q
  | share k next ih => exact ih Q
  | tryLock k next ih => exact forall_congr' fun b => ih b _

@[simp] theorem along_map (f : α → β) (Q : List (Answer σ κ) → Except ε β → Prop) :
    Along (f <$> p) Q ↔ p.Along fun as r => Q as (r.map f) := by
  rw [map_eq_pure_bind, along_bind]
  constructor <;> intro h <;> refine h.mono fun as r hr => ?_
  · cases r with
    | error e => exact hr
    | ok a => simpa [Except.map] using hr
  · cases r with
    | error e => exact hr
    | ok a => simpa [Except.map] using hr

theorem along_ite (c : Prop) [Decidable c] (q : Prog σ κ ε α) :
    Along (if c then p else q) Q ↔ (c → p.Along Q) ∧ (¬c → q.Along Q) := by
  split_ifs with h <;> simp [h]

theorem along_true (p : Prog σ κ ε α) : p.Along fun _ _ => True := by
  induction p with
  | done | fail => trivial
  | stmt n next ih => exact ih
  | write f next ih => exact ih
  | lock k next ih => exact ih
  | share k next ih => exact ih
  | tryLock k next ih => exact ih

/-! ## What a body ensures while the states are as expected -/

/-- While every state that is read satisfies `I`, the result satisfies `R`. -/
def Ensures (I : σ → Prop) (p : Prog σ κ ε α) (R : Except ε α → Prop) : Prop :=
  p.Along fun as r => (∀ n v, Answer.read n v ∈ as → I v) → R r

section Ensures

variable {I : σ → Prop} {R R' : Except ε α → Prop}

theorem Ensures.of_along (h : p.Along fun _ r => R r) : p.Ensures I R := h.mono fun _ _ hR _ => hR

theorem Ensures.mono (h : p.Ensures I R) (hR : ∀ r, R r → R' r) : p.Ensures I R' :=
  Along.mono h fun _ r hr hI => hR r (hr hI)

@[simp] theorem ensures_pure (a : α) : Ensures I (pure a : Prog σ κ ε α) R ↔ R (.ok a) := by
  simp [Ensures]

@[simp] theorem ensures_raise (e : ε) : Ensures I (raise e : Prog σ κ ε α) R ↔ R (.error e) := by
  simp [Ensures]

@[simp] theorem ensures_view (n : String) (R : Except ε σ → Prop) :
    Ensures I (view n : Prog σ κ ε σ) R ↔ ∀ v, I v → R (.ok v) := by
  simp [Ensures]

theorem Ensures.bind {f : α → Prog σ κ ε β} {R : Except ε β → Prop}
    (h : p.Ensures I fun r => match r with
      | .ok a => (f a).Ensures I R
      | .error e => R (.error e)) : (p >>= f).Ensures I R := by
  refine (along_bind ..).2 (Along.mono h fun as r hr => ?_)
  cases r with
  | error e => exact hr
  | ok a =>
    by_cases hI : ∀ n v, Answer.read n v ∈ as → I v
    · refine Along.mono (hr hI) fun as' r hr' hI' => hr' fun n v hv => hI' n v (List.mem_append_right _ hv)
    · refine (along_true (f a)).mono fun as' r _ hI' => ?_
      exact absurd (fun n v hv => hI' n v (List.mem_append_left _ hv)) hI

end Ensures

end Prog

/-! ## Runs among others -/

section Runs

variable {σ κ ε α ω : Type}

/-- The statements among the answers, as a transaction logs them. -/
def reads (as : List (Answer σ κ)) : Log σ :=
  as.filterMap fun
    | .read n v => some (n, v)
    | .tried .. => none

theorem mem_reads {as : List (Answer σ κ)} {n : String} {v : σ} : (n, v) ∈ reads as ↔ Answer.read n v ∈ as := by
  unfold reads
  rw [List.mem_filterMap]
  constructor
  · rintro ⟨a, ha, h⟩
    cases a with
    | read => cases h; exact ha
    | tried => cases h
  · exact fun h => ⟨_, h, rfl⟩

/-- The transaction has come along a path of its body, and what is left of the body goes on from there. -/
def OnPath (body : ω → Prog σ κ ε α) (t : Thread σ κ ε α ω) : Prop :=
  ∃ as, t.log = (reads as).reverse ∧
    ∀ Q, (body t.op).Along Q → t.prog.Along fun as' r => Q (as ++ as') r

theorem OnPath.answer {body : ω → Prog σ κ ε α} {t u : Thread σ κ ε α ω} (h : OnPath body t) (a : Answer σ κ)
    (hop : u.op = t.op) (hlog : u.log = reads [a] ++ t.log)
    (hprog : ∀ Q, t.prog.Along Q → u.prog.Along fun as r => Q (a :: as) r) : OnPath body u := by
  obtain ⟨as, hl, hp⟩ := h
  refine ⟨as ++ [a], ?_, fun Q hQ => ?_⟩
  · rw [hlog, hl, reads, reads, reads, List.filterMap_append, List.reverse_append]
    cases a <;> rfl
  · rw [hop] at hQ
    simpa using hprog _ (hp Q hQ)

theorem OnPath.silent {body : ω → Prog σ κ ε α} {t u : Thread σ κ ε α ω} (h : OnPath body t)
    (hop : u.op = t.op) (hlog : u.log = t.log) (hprog : ∀ Q, t.prog.Along Q → u.prog.Along Q) : OnPath body u := by
  obtain ⟨as, hl, hp⟩ := h
  exact ⟨as, hlog.trans hl, fun Q hQ => hprog _ (hp Q (hop ▸ hQ))⟩

variable [DecidableEq κ] {body : ω → Prog σ κ ε α}

theorem onPath_advance {s s' : System σ κ ε α ω} {i : ℕ} {e : Event κ ε α ω} {t u : Thread σ κ ε α ω}
    (h : s.advance i = some (e, s')) (ht : s.threads i = some t) (hp : OnPath body t) (hu : s'.threads i = some u) :
    OnPath body u := by
  unfold System.advance at h
  simp only [ht] at h
  cases hprog : t.prog with
  | done | fail =>
    rw [hprog] at h
    cases h
    simp at hu
  | stmt n next =>
    rw [hprog] at h
    cases h
    rw [System.resume_self] at hu
    cases hu
    exact hp.answer (.read n (t.pending s.committed)) rfl rfl fun Q hQ => by
      rw [hprog] at hQ
      exact hQ _
  | write f next =>
    rw [hprog] at h
    cases h
    rw [System.resume_self] at hu
    cases hu
    exact hp.silent rfl rfl fun Q hQ => by rwa [hprog] at hQ
  | lock k next =>
    rw [hprog] at h
    simp only at h
    split_ifs at h
    cases h
    rw [System.resume_self] at hu
    cases hu
    exact hp.silent rfl rfl fun Q hQ => by rwa [hprog] at hQ
  | share k next =>
    rw [hprog] at h
    simp only at h
    split_ifs at h
    cases h
    rw [System.resume_self] at hu
    cases hu
    exact hp.silent rfl rfl fun Q hQ => by rwa [hprog] at hQ
  | tryLock k next =>
    rw [hprog] at h
    simp only at h
    split_ifs at h
    · cases h
      rw [System.resume_self] at hu
      cases hu
      exact hp.answer (.tried k true) rfl rfl fun Q hQ => by
        rw [hprog] at hQ
        exact hQ _
    · cases h
      rw [System.resume_self] at hu
      cases hu
      exact hp.answer (.tried k false) rfl rfl fun Q hQ => by
        rw [hprog] at hQ
        exact hQ _

/-- Every transaction of every run is on a path of its body. -/
theorem onPath_of_reaches {ok : System σ κ ε α ω → ℕ → Event κ ε α ω → Prop} {v : σ} {s : System σ κ ε α ω}
    (hr : System.Reaches body ok { committed := v } s) : ∀ i t, s.threads i = some t → OnPath body t := by
  induction hr with
  | refl =>
    intro i t ht
    cases ht
  | tail _ hs ih =>
    obtain ⟨i, e, -, hstep⟩ := hs
    intro j u hu
    by_cases hj : j = i
    · subst hj
      cases hstep with
      | start op h =>
        rw [System.resume_self] at hu
        cases hu
        exact ⟨[], rfl, fun Q hQ => hQ⟩
      | run ha =>
        obtain ⟨t, ht, -⟩ := (System.advance_threads ha).2 u hu
        exact onPath_advance ha ht (ih j t ht) hu
      | abort h => simp at hu
    · refine ih j u ?_
      cases hstep with
      | start op h => rwa [System.resume_ne _ _ _ hj] at hu
      | run ha => rwa [(System.advance_threads ha).1 j hj] at hu
      | abort h => rwa [System.finish_ne _ _ _ hj] at hu

/-- How a transaction of a run ended, it ended along a path of its body. -/
theorem Prog.Along.of_reaches {ok : System σ κ ε α ω → ℕ → Event κ ε α ω → Prop} {v : σ} {s : System σ κ ε α ω}
    (hr : System.Reaches body ok { committed := v } s) {i : ℕ} {t : Thread σ κ ε α ω} (ht : s.threads i = some t)
    {Q : List (Answer σ κ) → Except ε α → Prop} (h : (body t.op).Along Q) : ∃ as, t.log = (reads as).reverse ∧
      (∀ a, t.prog = .done a → Q as (.ok a)) ∧ ∀ e, t.prog = .fail e → Q as (.error e) := by
  obtain ⟨as, hlog, hp⟩ := onPath_of_reaches hr i t ht
  have hQ := hp _ h
  refine ⟨as, hlog, fun a hdone => ?_, fun e hfail => ?_⟩
  · rw [hdone] at hQ
    simpa [Prog.Along] using hQ
  · rw [hfail] at hQ
    simpa [Prog.Along] using hQ

/-- What a body ensures holds of the error a transaction of a run ends with. -/
theorem Prog.Ensures.of_reaches {I : σ → Prop} {R : Except ε α → Prop}
    {ok : System σ κ ε α ω → ℕ → Event κ ε α ω → Prop} {v : σ} {s : System σ κ ε α ω}
    (hr : System.Reaches body ok { committed := v } s) {i : ℕ} {t : Thread σ κ ε α ω} (ht : s.threads i = some t)
    (h : (body t.op).Ensures I R) (hI : ∀ e ∈ t.log, I e.2) {e : ε} (hfail : t.prog = .fail e) : R (.error e) := by
  obtain ⟨as, hlog, -, hend⟩ := Prog.Along.of_reaches hr ht h
  refine hend e hfail fun n v hv => hI (n, v) ?_
  rw [hlog, List.mem_reverse]
  exact mem_reads.2 hv

end Runs

end Tx
