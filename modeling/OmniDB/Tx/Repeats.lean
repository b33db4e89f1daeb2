import Mathlib.Data.List.Induction
import Mathlib.Tactic.SplitIfs

/-! Marking what repeats. Items are read in order; an item is marked when its key was seen
before, and its key is seen from then on. Marks are about keys. They are about the items
themselves exactly when no two items of the list share a key. -/

namespace Tx

variable {ι α κ : Type}

/-- `mark` marks exactly the items that came before. -/
def MarksRepeats (mark : List α → α → Prop) (xs : List α) : Prop :=
  ∀ before x after, xs = before ++ x :: after → (mark before x ↔ x ∈ before)

/-- The key of the item was seen among those before. -/
def KeySeen (key : α → κ) (before : List α) (x : α) : Prop := ∃ y ∈ before, key y = key x

theorem MarksRepeats.init {mark : List α → α → Prop} {xs ys : List α} (h : MarksRepeats mark (xs ++ ys)) :
    MarksRepeats mark xs := by
  intro before x after he
  refine h before x (after ++ ys) ?_
  rw [he, List.append_assoc, List.cons_append]

theorem marksRepeats_iff {key : α → κ} {xs : List α} :
    MarksRepeats (KeySeen key) xs ↔ ∀ x ∈ xs, ∀ y ∈ xs, key x = key y → x = y := by
  constructor
  · intro h
    induction xs using List.reverseRecOn with
    | nil => simp
    | append_singleton xs z ih =>
      -- an item with the key of the last one makes the last one a repeat
      have hz : ∀ x ∈ xs, key x = key z → x = z := by
        intro x hx he
        exact ih h.init x hx z ((h xs z [] rfl).1 ⟨x, hx, he⟩) he
      intro x hx y hy he
      simp only [List.mem_append, List.mem_singleton] at hx hy
      rcases hx with hx | rfl
      · rcases hy with hy | rfl
        · exact ih h.init x hx y hy he
        · exact hz x hx he
      · rcases hy with hy | rfl
        · exact (hz y hy he.symm).symm
        · rfl
  · rintro h before x after rfl
    constructor
    · rintro ⟨y, hy, he⟩
      exact h y (List.mem_append_left _ hy) x (List.mem_append_right _ List.mem_cons_self) he ▸ hy
    · exact fun hx => ⟨x, hx, rfl⟩

/-! ## Lists of which only some entries are items -/

section Some

variable {item : ι → Option α}

theorem append_filterMap {entries : List ι} {before after : List α} {x : α}
    (h : entries.filterMap item = before ++ x :: after) :
    ∃ l e r, entries = l ++ e :: r ∧ item e = some x ∧ l.filterMap item = before := by
  induction entries generalizing before with
  | nil => simp at h
  | cons e entries ih =>
    cases he : item e with
    | none =>
      rw [List.filterMap_cons_none he] at h
      obtain ⟨l, e', r, rfl, he', hl⟩ := ih h
      exact ⟨e :: l, e', r, rfl, he', by rw [List.filterMap_cons_none he, hl]⟩
    | some y =>
      rw [List.filterMap_cons_some he] at h
      cases before with
      | nil =>
        obtain ⟨rfl, -⟩ := List.cons.inj h
        exact ⟨[], e, entries, rfl, he, rfl⟩
      | cons b before =>
        rw [List.cons_append] at h
        obtain ⟨rfl, htail⟩ := List.cons.inj h
        obtain ⟨l, e', r, rfl, he', hl⟩ := ih htail
        exact ⟨e :: l, e', r, rfl, he', by rw [List.filterMap_cons_some he, hl]⟩

/-- What is said of each entry that is an item is said of the list of items. -/
theorem marksRepeats_filterMap {mark : List α → α → Prop} {entries : List ι} :
    MarksRepeats mark (entries.filterMap item) ↔
      ∀ before e after, entries = before ++ e :: after → ∀ x, item e = some x →
        (mark (before.filterMap item) x ↔ x ∈ before.filterMap item) := by
  constructor
  · rintro h before e after rfl x hx
    refine h _ x (after.filterMap item) ?_
    rw [List.filterMap_append, List.filterMap_cons_some hx]
  · intro h before x after he
    obtain ⟨l, e, r, rfl, hx, rfl⟩ := append_filterMap he
    exact h l e r rfl x hx

end Some

/-! ## Texts joined by a separator -/

section Joined

variable {a a' b b' : List α} {sep : α}

theorem joined_inj_left (h : sep ∉ a) (h' : sep ∉ a') (he : a ++ sep :: b = a' ++ sep :: b') : a = a' ∧ b = b' := by
  induction a generalizing a' with
  | nil =>
    cases a' with
    | nil => exact ⟨rfl, (List.cons.inj he).2⟩
    | cons x a' => exact absurd ((List.cons.inj he).1 ▸ List.mem_cons_self) h'
  | cons x a ih =>
    cases a' with
    | nil => exact absurd ((List.cons.inj he).1 ▸ List.mem_cons_self) h
    | cons y a' =>
      obtain ⟨rfl, htail⟩ := List.cons.inj he
      obtain ⟨rfl, rfl⟩ := ih (fun hm => h (List.mem_cons_of_mem _ hm))
        (fun hm => h' (List.mem_cons_of_mem _ hm)) htail
      exact ⟨rfl, rfl⟩

theorem joined_inj_right (h : sep ∉ b) (h' : sep ∉ b') (he : a ++ sep :: b = a' ++ sep :: b') : a = a' ∧ b = b' := by
  have hrev : b.reverse ++ sep :: a.reverse = b'.reverse ++ sep :: a'.reverse := by
    have := congrArg List.reverse he
    simpa only [List.reverse_append, List.reverse_cons, List.append_assoc, List.cons_append, List.nil_append]
      using this
  obtain ⟨hb, ha⟩ := joined_inj_left (fun hm => h (List.mem_reverse.1 hm)) (fun hm => h' (List.mem_reverse.1 hm)) hrev
  exact ⟨List.reverse_inj.1 ha, List.reverse_inj.1 hb⟩

end Joined

end Tx
