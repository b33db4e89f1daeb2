import Mathlib.Data.List.MinMax
import Mathlib.Data.List.Sort
import Mathlib.Data.Prod.Lex

/-! Selecting by a key. A loop that takes the least element again and again, leaving out those
it has taken, goes through the list in its stable order. -/

namespace Tx

variable {α β : Type} [LinearOrder β]

/-- The list in the order of `key`; elements with one key stay in their order. -/
def sortedBy (key : α → β) (xs : List α) : List α := xs.insertionSort fun a b => key a ≤ key b

section Order

variable {key : α → β} {xs : List α}

@[simp] theorem mem_sortedBy {a : α} : a ∈ sortedBy key xs ↔ a ∈ xs := List.mem_insertionSort _

theorem perm_sortedBy (key : α → β) (xs : List α) : (sortedBy key xs).Perm xs := List.perm_insertionSort _ xs

theorem pairwise_sortedBy (key : α → β) (xs : List α) : (sortedBy key xs).Pairwise fun a b => key a ≤ key b := by
  have : Std.Total fun a b : α => key a ≤ key b := ⟨fun a b => le_total (key a) (key b)⟩
  have : IsTrans α fun a b : α => key a ≤ key b := ⟨fun _ _ _ => le_trans⟩
  exact List.pairwise_insertionSort _ xs

/-- The first of the order is the least element. -/
theorem head?_sortedBy (key : α → β) (xs : List α) : (sortedBy key xs).head? = xs.argmin key := by
  induction xs with
  | nil => rfl
  | cons a xs ih =>
    unfold sortedBy at ih ⊢
    rw [List.insertionSort_cons, List.argmin_cons, ← ih]
    cases xs.insertionSort fun a b => key a ≤ key b with
    | nil => rfl
    | cons b ys =>
      by_cases h : key a ≤ key b
      · rw [List.orderedInsert_cons_of_le _ ys h]
        simp [not_lt.2 h]
      · rw [List.orderedInsert_of_not_le _ ys h]
        simp [not_le.1 h]

theorem filter_orderedInsert (p : α → Bool) (a : α) {ys : List α} (h : ys.Pairwise fun a b => key a ≤ key b) :
    (ys.orderedInsert (fun a b => key a ≤ key b) a).filter p =
      if p a then (ys.filter p).orderedInsert (fun a b => key a ≤ key b) a else ys.filter p := by
  induction ys with
  | nil => cases hp : p a <;> simp [hp]
  | cons b ys ih =>
    obtain ⟨hb, hys⟩ := List.pairwise_cons.1 h
    by_cases hab : key a ≤ key b
    · rw [List.orderedInsert_cons_of_le _ ys hab, List.filter_cons]
      split_ifs with hp
      · have hle : ∀ c ∈ (b :: ys).filter p, key a ≤ key c := by
          intro c hc
          rcases List.mem_cons.1 (List.mem_filter.1 hc).1 with rfl | hc
          · exact hab
          · exact hab.trans (hb c hc)
        cases hf : (b :: ys).filter p with
        | nil => rfl
        | cons c zs => rw [List.orderedInsert_cons_of_le _ zs (hle c (hf ▸ List.mem_cons_self))]
      · rfl
    · rw [List.orderedInsert_of_not_le _ ys hab, List.filter_cons, List.filter_cons, ih hys]
      cases hb : p b <;> cases ha : p a <;> simp [hab]

/-- The order of some of the elements is that of all. -/
theorem filter_sortedBy (key : α → β) (p : α → Bool) (xs : List α) :
    (sortedBy key xs).filter p = sortedBy key (xs.filter p) := by
  induction xs with
  | nil => rfl
  | cons a xs ih =>
    have hcons : sortedBy key (a :: xs) = (sortedBy key xs).orderedInsert (fun a b => key a ≤ key b) a := rfl
    rw [hcons, filter_orderedInsert p a (pairwise_sortedBy key xs), List.filter_cons, ih]
    split_ifs with hp <;> rfl

/-- Without those already taken, the least element is the next in the order. -/
theorem argmin_rest {taken rest : List α} (h : sortedBy key xs = taken ++ rest) {p : α → Bool}
    (htaken : ∀ a ∈ taken, p a = false) (hrest : ∀ a ∈ rest, p a = true) :
    (xs.filter p).argmin key = rest.head? := by
  rw [← head?_sortedBy, ← filter_sortedBy, h, List.filter_append, List.filter_eq_nil_iff.2 fun a ha => ?_,
    List.filter_eq_self.2 hrest, List.nil_append]
  rw [htaken a ha]
  decide

end Order

/-- The last part of a key only breaks ties. -/
theorem toLex_le_of_tie {γ δ ε : Type} [PartialOrder γ] [PartialOrder δ] [LE ε] {a a' : γ} {b b' : δ} {e e' : ε}
    (h : toLex (a, toLex (b, e)) ≤ toLex (a', toLex (b', e'))) : toLex (a, b) ≤ toLex (a', b') := by
  rcases Prod.Lex.toLex_le_toLex.1 h with h | ⟨ha, h⟩
  · exact Prod.Lex.toLex_le_toLex.2 (Or.inl h)
  · exact Prod.Lex.toLex_le_toLex.2 (Or.inr ⟨ha, Prod.Lex.monotone_fst _ _ h⟩)

end Tx
