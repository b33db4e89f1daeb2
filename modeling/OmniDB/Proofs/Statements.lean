import OmniDB.Spec.Db
import OmniDB.Tx.Discipline

/-! The statements of `Db` under any lock discipline: what is known after a row was read,
locked or inserted, and what the transaction has seen by then. -/

namespace OmniDB

open Tx

section Statements

variable {α ω β : Type} {P : Protocol Db LockKey Err α ω} {D : Discipline Db LockKey} {I : Db → Prop}
  [hP : P.Respects D I] {l : Stand Db LockKey ω} {p : Db → Db} {s : Db}
  {ρ : Type} [Keyed ρ Uuid] {table : Db → List ρ} {key : Uuid → LockKey}

include hP

theorem wp_readRow {n : String} {id : Uuid} {Q : Option ρ → Protocol.Assertion Db LockKey ω}
    (h : ∀ s', D.Frame l.held s s' → I s' → Q (Table.find (table (p s')) id) (l.saw n (p s')) p s') :
    P.wp (getRow n table id) Q l p s := by
  unfold getRow
  rw [Protocol.wp_bind, Protocol.wp_view]
  intro s' hs
  exact h s' (hP.frame _ _ _ hs.1) (hP.inv _ hs.2)

/-- `FOR UPDATE` on one row: the lock is granted in a state `s₁`, and the answer is the row
the transaction reads under its lock in a state `s'`. -/
theorem wp_forUpdate_granted {n : String} {cond : ρ → Bool} {id : Uuid}
    {Q : Option ρ → Protocol.Assertion Db LockKey ω}
    (hnone : ∀ l' s', l.Onward l' → D.Frame l.held s s' → I s' → Q none l' p s')
    (hsome : ∀ l₁ l' s₁ s' r, l.Onward l₁ → (l₁.take (key id)).Onward l' → P.granted l₁ (key id) s₁ →
      (n ++ " (locked)", p s') ∈ l'.log → D.Frame l.held s s₁ → D.Frame (l₁.take (key id)).held s₁ s' → I s' →
      Table.find (table (p s')) id = some r → cond r = true → Q (some r) l' p s') :
    P.wp (selectForUpdate n key table cond id) Q l p s := by
  unfold selectForUpdate
  rw [Protocol.wp_bind]
  refine wp_readRow (D := D) (I := I) fun s₁ h₁ i₁ => ?_
  cases Table.find (table (p s₁)) id with
  | none => exact hnone _ _ (l.onward_saw ..) h₁ i₁
  | some r =>
    dsimp only
    split_ifs with hc
    · rw [Protocol.wp_bind, Protocol.wp_acquire]
      intro s₂ hs₂ hg
      rw [Protocol.wp_bind]
      refine wp_readRow (D := D) (I := I) fun s₃ h₃ i₃ => ?_
      have hl₁ := l.onward_saw n (p s₁)
      have hl := Stand.onward_saw ((l.saw n (p s₁)).take (key id)) (n ++ " (locked)") (p s₃)
      have hf : D.Frame l.held s s₂ := h₁.trans (hP.frame (l.saw n (p s₁)) _ _ hs₂.1)
      rw [Protocol.wp_pure]
      cases ho : (Table.find (table (p s₃)) id).filter cond with
      | none => exact hnone _ _ ((hl₁.trans (Stand.onward_take ..)).trans hl) (hf.trans (h₃.mono fun _ => Or.inr)) i₃
      | some r' =>
        obtain ⟨hr, hcr⟩ := Option.filter_eq_some_iff.1 ho
        exact hsome _ _ _ _ _ hl₁ hl hg List.mem_cons_self hf h₃ i₃ hr hcr
    · exact hnone _ _ (l.onward_saw ..) h₁ i₁

theorem wp_forUpdate {n : String} {cond : ρ → Bool} {id : Uuid} {Q : Option ρ → Protocol.Assertion Db LockKey ω}
    (hnone : ∀ l' s', l.Onward l' → D.Frame l.held s s' → I s' → Q none l' p s')
    (hsome : ∀ l' s' r, l.Onward l' → l'.held (key id) → (n ++ " (locked)", p s') ∈ l'.log →
      D.Frame l.held s s' → I s' → Table.find (table (p s')) id = some r → cond r = true → Q (some r) l' p s') :
    P.wp (selectForUpdate n key table cond id) Q l p s := by
  refine wp_forUpdate_granted (D := D) (I := I) hnone fun l₁ l' s₁ s' r hl₁ hl _ hlog hf hf' hi hr hc => ?_
  have hl' : l.Onward l' := (hl₁.trans (l₁.onward_take _)).trans hl
  have hheld : ∀ k, l.held k → (l₁.take (key id)).held k := fun k hk => Or.inr (hl₁.held k hk)
  exact hsome l' s' r hl' (hl.held _ (Or.inl rfl)) hlog (hf.trans (hf'.mono hheld)) hi hr hc

/-- `FOR UPDATE` on a row that must be there. -/
theorem wp_expectLocked {n : String} {cond : ρ → Bool} {id : Uuid} {e : Err} {f : ρ → Txn β}
    {Q : β → Protocol.Assertion Db LockKey ω}
    (h : ∀ l' s' r, l.Onward l' → l'.held (key id) → (n ++ " (locked)", p s') ∈ l'.log →
      D.Frame l.held s s' → I s' → Table.find (table (p s')) id = some r → cond r = true → P.wp (f r) Q l' p s') :
    P.wp (do let r ← Prog.expect (← selectForUpdate n key table cond id) e; f r) Q l p s := by
  rw [Protocol.wp_bind]
  refine wp_forUpdate (D := D) (I := I) (fun l' s' _ _ _ => ?_) fun l' s' r hl hk hlog hf hi hr hc => ?_
  · rw [Protocol.wp_bind, Protocol.wp_expect]
    intro r hr
    cases hr
  · rw [Protocol.wp_bind, Protocol.wp_expect]
    rintro _ ⟨⟩
    exact h l' s' r hl hk hlog hf hi hr hc

end Statements

end OmniDB
