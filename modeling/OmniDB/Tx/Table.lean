import Mathlib.Data.List.Basic
import Mathlib.Data.List.Nodup

/-! Keyed tables: a table is the list of its rows, and a row knows its own key.
Only what a program can observe is fixed here, so `modify` changes every
row that carries the key, and uniqueness of keys is a separate predicate. -/

namespace Tx

/-- A row type with its primary key. -/
class Keyed (ρ : Type) (κ : outParam Type) where
  key : ρ → κ

export Keyed (key)

namespace Table

variable {ρ κ : Type} [Keyed ρ κ] [DecidableEq κ]

/-- Primary-key lookup. -/
def find (t : List ρ) (k : κ) : Option ρ := t.find? fun r => key r = k

/-- Column update of one row. -/
def modify (t : List ρ) (k : κ) (f : ρ → ρ) : List ρ := t.map fun r => if key r = k then f r else r

def Unique (t : List ρ) : Prop := (t.map key).Nodup

instance (t : List ρ) : Decidable (Unique t) := inferInstanceAs (Decidable (t.map key).Nodup)

theorem mem_of_find {t : List ρ} {k : κ} {r : ρ} (h : find t k = some r) : r ∈ t :=
  List.mem_of_find?_eq_some h

theorem key_of_find {t : List ρ} {k : κ} {r : ρ} (h : find t k = some r) : key r = k := by
  simpa using List.find?_some h

theorem find_eq_none {t : List ρ} {k : κ} : find t k = none ↔ ∀ r ∈ t, key r ≠ k := by
  simp [find, List.find?_eq_none]

theorem find_isSome {t : List ρ} {k : κ} : (find t k).isSome ↔ ∃ r ∈ t, key r = k := by
  simp [find]

theorem exists_find {t : List ρ} {r : ρ} (h : r ∈ t) : ∃ r', find t (key r) = some r' :=
  Option.isSome_iff_exists.1 (find_isSome.2 ⟨r, h, rfl⟩)

@[simp] theorem mem_modify {t : List ρ} {k : κ} {f : ρ → ρ} {r : ρ} :
    r ∈ modify t k f ↔ (∃ s ∈ t, key s = k ∧ r = f s) ∨ (r ∈ t ∧ key r ≠ k) := by
  simp only [modify, List.mem_map]
  constructor
  · rintro ⟨s, hs, rfl⟩
    split_ifs with he
    · exact Or.inl ⟨s, hs, he, rfl⟩
    · exact Or.inr ⟨hs, he⟩
  · rintro (⟨s, hs, he, rfl⟩ | ⟨hr, he⟩)
    · exact ⟨s, hs, if_pos he⟩
    · exact ⟨r, hr, if_neg he⟩

theorem keys_modify (t : List ρ) (k : κ) {f : ρ → ρ} (hf : ∀ r, key r = k → key (f r) = k) :
    (modify t k f).map key = t.map key := by
  simp only [modify, List.map_map]
  refine List.map_congr_left fun r _ => ?_
  simp only [Function.comp]
  split_ifs with hk
  · exact (hf r hk).trans hk.symm
  · rfl

theorem Unique.modify {t : List ρ} (h : Unique t) (k : κ) {f : ρ → ρ}
    (hf : ∀ r, key r = k → key (f r) = k) : Unique (modify t k f) := by
  unfold Unique
  rw [keys_modify t k hf]
  exact h

theorem Unique.append {t : List ρ} (h : Unique t) {r : ρ} (hr : find t (key r) = none) :
    Unique (t ++ [r]) := by
  unfold Unique
  rw [List.map_append, List.map_singleton, List.nodup_append]
  refine ⟨h, List.nodup_singleton _, ?_⟩
  intro a ha b hb hab
  obtain ⟨s, hs, rfl⟩ := List.mem_map.1 ha
  exact find_eq_none.1 hr s hs (hab.trans (List.mem_singleton.1 hb))

omit [DecidableEq κ] in
theorem Unique.filter {t : List ρ} (h : Unique t) (p : ρ → Bool) : Unique (t.filter p) :=
  h.sublist (List.filter_sublist.map _)

omit [DecidableEq κ] in
theorem Unique.eq {t : List ρ} (h : Unique t) {r s : ρ} (hr : r ∈ t) (hs : s ∈ t)
    (he : key r = key s) : r = s :=
  List.inj_on_of_nodup_map h hr hs he

theorem Unique.find_of_mem {t : List ρ} (h : Unique t) {r : ρ} (hr : r ∈ t) :
    find t (key r) = some r := by
  obtain ⟨s, hs⟩ := exists_find hr
  rw [hs, h.eq (mem_of_find hs) hr (key_of_find hs)]

theorem find_modify {t : List ρ} {k k' : κ} {f : ρ → ρ} (hf : ∀ r, key r = k → key (f r) = k) :
    find (modify t k f) k' = if k' = k then (find t k').map f else find t k' := by
  induction t with
  | nil => simp [find, modify]
  | cons r t ih =>
    simp only [find, modify, List.map_cons, List.find?_cons] at ih ⊢
    by_cases hr : key r = k
    · by_cases hk : k' = k
      · subst hk; simp [hr, hf r hr]
      · simp [hr, hf r hr, hk, Ne.symm hk, ih]
    · by_cases hk : k' = k
      · subst hk; simp [hr, ih]
      · simp only [hr, hk, if_false] at ih ⊢
        rw [ih]

theorem find_modify_self {t : List ρ} {k : κ} {f : ρ → ρ} {r : ρ} (hf : ∀ r, key r = k → key (f r) = k)
    (h : find t k = some r) : find (modify t k f) k = some (f r) := by
  rw [find_modify hf, if_pos rfl, h, Option.map_some]

theorem find_modify_ne {t : List ρ} {k k' : κ} {f : ρ → ρ} (hf : ∀ r, key r = k → key (f r) = k)
    (h : k' ≠ k) : find (modify t k f) k' = find t k' := by
  rw [find_modify hf, if_neg h]

theorem find_eq_none_of_modify {t : List ρ} {k k' : κ} {f : ρ → ρ} (hf : ∀ r, key r = k → key (f r) = k)
    (h : find (modify t k f) k' = none) : find t k' = none := by
  rw [find_modify hf] at h
  split_ifs at h
  · exact Option.map_eq_none_iff.1 h
  · exact h

/-- Two column updates of one row. -/
theorem modify_modify {t : List ρ} {k : κ} {f g : ρ → ρ} (hf : ∀ r, key r = k → key (f r) = k) :
    modify (modify t k f) k g = modify t k (g ∘ f) := by
  unfold modify
  rw [List.map_map]
  refine List.map_congr_left fun r _ => ?_
  by_cases hr : key r = k <;> simp [hr, hf]

theorem find_append {t u : List ρ} {k : κ} : find (t ++ u) k = (find t k).or (find u k) :=
  List.find?_append ..

theorem find_append_of_some {t u : List ρ} {k : κ} {r : ρ} (h : find t k = some r) :
    find (t ++ u) k = some r := by
  rw [find_append, h, Option.some_or]

theorem find_append_congr {t t' u : List ρ} {k : κ} (h : find t' k = find t k) :
    find (t' ++ u) k = find (t ++ u) k := by
  rw [find_append, find_append, h]

theorem find_append_of_ne {t u : List ρ} {k : κ} (h : ∀ r ∈ u, key r ≠ k) : find (t ++ u) k = find t k := by
  rw [find_append, find_eq_none.2 h, Option.or_none]

/-- A row found after an insertion was there before or is the new one. -/
theorem find_append_singleton {t : List ρ} {k : κ} {r r' : ρ} (h : find (t ++ [r]) k = some r') :
    find t k = some r' ∨ r' = r := by
  rw [find_append] at h
  cases ht : find t k with
  | some r₁ =>
    rw [ht, Option.some_or] at h
    exact Or.inl h
  | none =>
    rw [ht, Option.none_or] at h
    exact Or.inr (List.mem_singleton.1 (mem_of_find h))

theorem find_singleton {r : ρ} {k : κ} : find [r] k = if key r = k then some r else none := by
  by_cases h : key r = k <;> simp [find, h]

/-- A modification of a key that no row has. -/
theorem modify_eq_self {t : List ρ} {k : κ} {f : ρ → ρ} (h : find t k = none) : modify t k f = t := by
  unfold modify
  rw [List.map_congr_left (g := id), List.map_id]
  intro r hr
  simp [find_eq_none.1 h r hr]

theorem modify_append {t u : List ρ} {k : κ} {f : ρ → ρ} :
    modify (t ++ u) k f = modify t k f ++ modify u k f := List.map_append ..

/-! ### Selections of a modified table -/

section Filter

variable {t : List ρ} {k : κ} {f : ρ → ρ} {p : ρ → Bool}

theorem filter_modify_of_not (h : ∀ r ∈ t, key r = k → p r = false ∧ p (f r) = false) :
    (modify t k f).filter p = t.filter p := by
  induction t with
  | nil => rfl
  | cons r t ih =>
    have hrest := ih fun r hr => h r (List.mem_cons_of_mem _ hr)
    unfold modify at hrest ⊢
    rw [List.map_cons]
    by_cases hk : key r = k
    · obtain ⟨hr, hf⟩ := h r List.mem_cons_self hk
      rw [if_pos hk, List.filter_cons_of_neg (by simp [hf]), List.filter_cons_of_neg (by simp [hr]), hrest]
    · rw [if_neg hk, List.filter_cons, List.filter_cons, hrest]

theorem filter_modify_comm (h : ∀ r, p (f r) = p r) : (modify t k f).filter p = modify (t.filter p) k f := by
  unfold modify
  rw [List.filter_map]
  congr 1
  refine List.filter_congr fun r _ => ?_
  simp only [Function.comp]
  split_ifs
  · exact h r
  · rfl

/-- A modified row leaves the selection. -/
theorem filter_modify_drop (h : ∀ r, p (f r) = false) :
    (modify t k f).filter p = (t.filter p).filter fun r => key r ≠ k := by
  induction t with
  | nil => rfl
  | cons r t ih =>
    unfold modify at ih ⊢
    rw [List.map_cons]
    by_cases hk : key r = k
    · rw [if_pos hk, List.filter_cons_of_neg (by simp [h]), ih, List.filter_cons]
      split_ifs
      · rw [List.filter_cons_of_neg (by simp [hk])]
      · rfl
    · rw [if_neg hk, List.filter_cons, List.filter_cons]
      split_ifs
      · rw [List.filter_cons_of_pos (by simp [hk]), ih]
      · exact ih

/-- A modified row enters an empty selection. -/
theorem filter_modify_new (hu : Unique t) {r : ρ} (hr : r ∈ t) (hnone : t.filter p = []) (hp : p (f r) = true) :
    (modify t (key r) f).filter p = [f r] := by
  obtain ⟨before, after, rfl⟩ := List.append_of_mem hr
  have hne : ∀ r' ∈ before ++ after, key r' ≠ key r := by
    unfold Unique at hu
    rw [List.map_append, List.map_cons, List.nodup_middle, ← List.map_append, List.nodup_cons] at hu
    exact fun r' hr' he => hu.1 (he ▸ List.mem_map_of_mem hr')
  have hother : (modify (before ++ after) (key r) f).filter p = [] := by
    rw [modify_eq_self (find_eq_none.2 hne), List.filter_append]
    rw [List.filter_append, List.append_eq_nil_iff] at hnone
    have htail := List.filter_eq_nil_iff.1 hnone.2
    rw [hnone.1, List.filter_eq_nil_iff.2 fun r' hr' => htail r' (List.mem_cons_of_mem _ hr')]
    rfl
  unfold modify at hother ⊢
  rw [List.map_append, List.filter_append, List.append_eq_nil_iff] at hother
  rw [List.map_append, List.map_cons, if_pos rfl, List.filter_append, List.filter_cons_of_pos hp, hother.1, hother.2]
  rfl

end Filter

/-- Column update of several rows, one after the other. -/
def modifyAll (t : List ρ) (ks : List κ) (f : ρ → ρ) : List ρ :=
  ks.foldl (fun t k => modify t k f) t

theorem modifyAll_append {t : List ρ} {ks : List κ} {k : κ} {f : ρ → ρ} :
    modifyAll t (ks ++ [k]) f = modify (modifyAll t ks f) k f := by
  simp [modifyAll]

/-- Keys without repetition: every row that has one is changed once. -/
theorem modifyAll_eq_map {t : List ρ} {ks : List κ} {f : ρ → ρ} (hf : ∀ r, key (f r) = key r)
    (hn : ks.Nodup) : modifyAll t ks f = t.map fun r => if key r ∈ ks then f r else r := by
  induction ks generalizing t with
  | nil => simp [modifyAll]
  | cons k ks ih =>
    rw [List.nodup_cons] at hn
    change modifyAll (modify t k f) ks f = _
    rw [ih hn.2]
    unfold modify
    rw [List.map_map]
    refine List.map_congr_left fun r _ => ?_
    by_cases hr : key r = k
    · subst hr
      simp [hf, hn.1]
    · simp [hr]

theorem keys_modifyAll (t : List ρ) (ks : List κ) {f : ρ → ρ} (hf : ∀ r, key (f r) = key r) :
    (modifyAll t ks f).map key = t.map key := by
  induction ks generalizing t with
  | nil => rfl
  | cons k ks ih => exact (ih _).trans (keys_modify t k fun r hr => (hf r).trans hr)

theorem find_eq_none_of_modifyAll {t : List ρ} {ks : List κ} {f : ρ → ρ} {k : κ} (hf : ∀ r, key (f r) = key r)
    (h : find (modifyAll t ks f) k = none) : find t k = none := by
  rw [find_eq_none] at h ⊢
  intro r hr
  have hkey : key r ∈ (modifyAll t ks f).map key := by
    rw [keys_modifyAll t ks hf]
    exact List.mem_map_of_mem hr
  obtain ⟨r', hr', he⟩ := List.mem_map.1 hkey
  exact he ▸ h r' hr'

end Table

end Tx
