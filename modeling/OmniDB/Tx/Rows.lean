import Mathlib.Data.Finset.Card
import Mathlib.Data.List.Dedup
import Mathlib.Data.List.Forall2

/-! Lists as the results of queries: two of them paired row by row, a fallible function applied to
every row, and a list cut into pages. Pairing is Mathlib's `List.Forall₂`; a row's partner is the row
at its place in the other list. -/

namespace Tx.Rows

/-! ## Two lists, row by row -/

section Partners

variable {α β γ : Type} {R : α → β → Prop} {l : List α} {l' : List β} {a : α} {b : β}

theorem partner_left (h : List.Forall₂ R l l') (hb : b ∈ l') : ∃ a ∈ l, R a b := by
  induction h with
  | nil => cases hb
  | cons hr _ ih =>
    rcases List.mem_cons.1 hb with rfl | hb
    · exact ⟨_, List.mem_cons_self, hr⟩
    · obtain ⟨a, ha, hab⟩ := ih hb
      exact ⟨a, List.mem_cons_of_mem _ ha, hab⟩

theorem partner_right (h : List.Forall₂ R l l') (ha : a ∈ l) : ∃ b ∈ l', R a b := by
  obtain ⟨b, hb, hab⟩ := partner_left h.flip ha
  exact ⟨b, hb, hab⟩

theorem partners_mem (h : List.Forall₂ R l l') : List.Forall₂ (fun a b => a ∈ l ∧ b ∈ l' ∧ R a b) l l' := by
  induction h with
  | nil => exact .nil
  | cons hr _ ih =>
    refine .cons ⟨List.mem_cons_self, List.mem_cons_self, hr⟩ (ih.imp fun a b h => ?_)
    exact ⟨List.mem_cons_of_mem _ h.1, List.mem_cons_of_mem _ h.2.1, h.2.2⟩

/-- The partner of a partner. -/
theorem partners_comp {l'' : List γ} {R' : β → γ → Prop} {T : α → γ → Prop} (h : List.Forall₂ R l l')
    (h' : List.Forall₂ R' l' l'') (hT : ∀ a b c, R a b → R' b c → T a c) : List.Forall₂ T l l'' := by
  induction h generalizing l'' with
  | nil =>
    cases h'
    exact .nil
  | cons hr _ ih =>
    cases h' with
    | cons hr' h' => exact .cons (hT _ _ _ hr hr') (ih h')

/-- What two partners agree on is the same list. -/
theorem map_partners {f : α → γ} {g : β → γ} (h : List.Forall₂ R l l') (hR : ∀ a b, R a b → g b = f a) :
    l'.map g = l.map f := by
  rw [← List.forall₂_eq_eq_eq, List.forall₂_map_left_iff, List.forall₂_map_right_iff]
  exact (h.imp hR).flip

/-- A choice of one partner for each row. -/
theorem exists_partners (h : ∀ a ∈ l, ∃ b ∈ l', R a b) : ∃ rows, List.Forall₂ R l rows ∧ ∀ b ∈ rows, b ∈ l' := by
  induction l with
  | nil => exact ⟨[], .nil, by simp⟩
  | cons a l ih =>
    obtain ⟨b, hb, hab⟩ := h a List.mem_cons_self
    obtain ⟨rows, hrows, hin⟩ := ih fun a ha => h a (List.mem_cons_of_mem _ ha)
    refine ⟨b :: rows, .cons hab hrows, fun b' hb' => ?_⟩
    rcases List.mem_cons.1 hb' with rfl | hb'
    · exact hb
    · exact hin b' hb'

end Partners

/-! ## Traversals -/

section Traversal

variable {α β ε : Type}

/-- A traversal gives all its values, or the error of one of them. -/
theorem mapM_cases (f : α → Except ε β) (xs : List α) :
    (∃ ys, xs.mapM f = .ok ys ∧ List.Forall₂ (fun x y => f x = .ok y) xs ys) ∨
      ∃ x ∈ xs, ∃ e, f x = .error e ∧ xs.mapM f = .error e := by
  induction xs with
  | nil => exact Or.inl ⟨[], rfl, .nil⟩
  | cons x xs ih =>
    rw [List.mapM_cons]
    cases hx : f x with
    | error e => exact Or.inr ⟨x, List.mem_cons_self, e, hx, rfl⟩
    | ok y =>
      rcases ih with ⟨ys, hys, hall⟩ | ⟨x', hx', e, he, herror⟩
      · exact Or.inl ⟨y :: ys, by rw [hys]; rfl, .cons hx hall⟩
      · exact Or.inr ⟨x', List.mem_cons_of_mem _ hx', e, he, by rw [herror]; rfl⟩

theorem mapM_error {f : α → Except ε β} {xs : List α} {e : ε} (h : xs.mapM f = .error e) :
    ∃ x ∈ xs, f x = .error e := by
  rcases mapM_cases f xs with ⟨ys, hys, -⟩ | ⟨x, hx, e', he', herror⟩
  · rw [hys] at h
    cases h
  · rw [herror] at h
    obtain rfl : e' = e := Except.error.inj h
    exact ⟨x, hx, he'⟩

end Traversal

/-! ## Pages -/

section Pages

variable {α β : Type}

theorem pages_take (xs : List α) (size count : ℕ) :
    ((List.range count).flatMap fun i => (xs.drop (i * size)).take size) = xs.take (count * size) := by
  induction count with
  | zero => simp
  | succ count ih =>
    rw [List.range_succ, List.flatMap_append, ih, List.flatMap_singleton, Nat.succ_mul, List.take_add]

/-- The pages of a list, one after the other, are the list. -/
theorem pages_eq (xs : List α) {size : ℕ} (hsize : 0 < size) :
    ((List.range ((xs.length + size - 1) / size)).flatMap fun i => (xs.drop (i * size)).take size) = xs := by
  rw [pages_take, List.take_of_length_le]
  have hdiv := Nat.div_add_mod (xs.length + size - 1) size
  have hmod := Nat.mod_lt (xs.length + size - 1) hsize
  rw [Nat.mul_comm]
  omega

/-- Distinct values are as many as distinct elements, when the values tell these apart. -/
theorem length_dedup_map [DecidableEq α] [DecidableEq β] {f : α → β} {xs : List α}
    (hf : ∀ x ∈ xs, ∀ y ∈ xs, f x = f y → x = y) : (xs.map f).dedup.length = xs.dedup.length := by
  have himage : (xs.map f).toFinset = xs.toFinset.image f := by
    ext b
    simp
  rw [← List.card_toFinset, ← List.card_toFinset, himage]
  refine Finset.card_image_of_injOn fun x hx y hy => hf x ?_ y ?_
  · exact List.mem_toFinset.1 hx
  · exact List.mem_toFinset.1 hy

end Pages

end Tx.Rows
