import Mathlib.Data.List.Pairwise
import Mathlib.Order.Basic
import Mathlib.Tactic.Order
import OmniDB.Tx.Table

/-! Effective-dated tables. A row is in force from its start up to its stop, if it has one.
Two rows for the same slot are never in force together. An operation may end rows that are
in force and add a row that starts now; it never touches a row that has ended. -/

namespace Tx

/-- Rows that are in force for a time. A row without a slot may overlap with any other. -/
class Dated (ρ : Type) (τ ι : outParam Type) where
  start : ρ → τ
  stop : ρ → Option τ
  ended : ρ → Bool
  slot : ρ → Option ι

namespace Dated

variable {ρ κ τ ι : Type} [Keyed ρ κ] [Dated ρ τ ι] {t t' t'' : List ρ} {r s : ρ} {now : τ} {f : ρ → ρ}

/-- A row that has ended has the same stop ever after. -/
def Frozen (t t' : List ρ) : Prop :=
  ∀ r ∈ t, ended r = true → ∃ r' ∈ t', key r' = key r ∧ ended r' = true ∧ stop r' = stop r

/-- `r'` is `r` as far as its dates go, or `r` ended now. -/
structure Keeps (now : τ) (r r' : ρ) : Prop where
  key : key r' = key r
  start : start r' = start r
  slot : slot r' = slot r
  stop : (ended r' = ended r ∧ stop r' = stop r) ∨ (stop r = none ∧ stop r' = some now ∧ ended r' = true)

theorem Keeps.refl (now : τ) (r : ρ) : Keeps now r r := ⟨rfl, rfl, rfl, Or.inl ⟨rfl, rfl⟩⟩

theorem Frozen.refl (t : List ρ) : Frozen t t := fun r hr he => ⟨r, hr, rfl, he, rfl⟩

theorem Frozen.trans (h : Frozen t t') (h' : Frozen t' t'') : Frozen t t'' := by
  intro r hr he
  obtain ⟨r', hr', hk, he', hs⟩ := h r hr he
  obtain ⟨r'', hr'', hk', he'', hs'⟩ := h' r' hr' he'
  exact ⟨r'', hr'', hk'.trans hk, he'', hs'.trans hs⟩

theorem frozen_map (h : ∀ r ∈ t, ended r = true → (stop r).isSome = true) (hf : ∀ r ∈ t, Keeps now r (f r)) :
    Frozen t (t.map f) := by
  intro r hr he
  refine ⟨f r, List.mem_map_of_mem hr, (hf r hr).key, ?_⟩
  rcases (hf r hr).stop with ⟨he', hs⟩ | ⟨hn, -, -⟩
  · exact ⟨he'.trans he, hs⟩
  · have hsome := h r hr he
    rw [hn] at hsome
    cases hsome

theorem frozen_push (t : List ρ) (r : ρ) : Frozen t (t ++ [r]) :=
  fun s hs he => ⟨s, List.mem_append_left _ hs, rfl, he, rfl⟩

section Operations

variable [DecidableEq κ]

/-- What an operation may do to a table now: end rows that have not ended, and add a row
for a slot that no row is left in force for. -/
structure Revises (now : τ) (t t' : List ρ) : Prop where
  change : ∃ (f : ρ → ρ) (new : List ρ), t' = t.map f ++ new ∧ (∀ r ∈ t, Keeps now r (f r)) ∧
    (new = [] ∨ ∃ r, new = [r] ∧ Table.find t (key r) = none ∧ start r = now ∧ ended r = false ∧ stop r = none ∧
      ∀ s ∈ t, ∀ i, slot r = some i → slot s = some i → ended (f s) = true)

theorem Revises.map (hf : ∀ r ∈ t, Keeps now r (f r)) : Revises now t (t.map f) :=
  ⟨f, [], (List.append_nil _).symm, hf, Or.inl rfl⟩

theorem Revises.of_eq (h : t' = t) : Revises now t t' :=
  ⟨id, [], by simp [h], fun r _ => .refl now r, Or.inl rfl⟩

/-- One row ends now, or it has ended now already. -/
theorem Revises.modify {k : κ} (hf : ∀ r ∈ t, key r = k → Keeps now r (f r)) :
    Revises now t (Table.modify t k f) := by
  refine .map fun r hr => ?_
  split_ifs with hk
  · exact hf r hr hk
  · exact .refl now r

/-- A new row supersedes the rows that are still in force for its slot. -/
theorem Revises.supersede (hu : Table.Unique t) {p : ρ → Bool} {rows : List ρ} (hrows : rows.Perm (t.filter p))
    (hkey : ∀ r, key (f r) = key r) (hkeep : ∀ r ∈ t, p r = true → Keeps now r (f r))
    (hend : ∀ r, ended (f r) = true) (hfree : Table.find t (key s) = none) (hstart : start s = now)
    (hopen : ended s = false) (hstop : stop s = none)
    (hslot : ∀ r ∈ t, ∀ i, slot s = some i → slot r = some i → ended r = false → p r = true) :
    Revises now t (Table.modifyAll t (rows.map key) f ++ [s]) := by
  have hmem {r : ρ} (hr : r ∈ t) : key r ∈ rows.map key ↔ p r = true := by
    constructor
    · intro h
      obtain ⟨r', hr', he⟩ := List.mem_map.1 h
      obtain ⟨hr', hp⟩ := List.mem_filter.1 (hrows.mem_iff.1 hr')
      rwa [hu.eq hr hr' he.symm]
    · intro h
      exact List.mem_map_of_mem (hrows.mem_iff.2 (List.mem_filter.2 ⟨hr, h⟩))
  have hnodup : (rows.map key).Nodup := (hrows.map key).nodup_iff.2 (hu.filter p)
  refine ⟨fun r => if key r ∈ rows.map key then f r else r, [s], ?_, fun r hr => ?_, Or.inr
    ⟨s, rfl, hfree, hstart, hopen, hstop, fun r hr i hi hri => ?_⟩⟩
  · rw [Table.modifyAll_eq_map hkey hnodup]
  · dsimp only
    split_ifs with h
    · exact hkeep r hr ((hmem hr).1 h)
    · exact .refl now r
  · dsimp only
    cases he : ended r with
    | true =>
      split_ifs
      · exact hend r
      · exact he
    | false =>
      rw [if_pos ((hmem hr).2 (hslot r hr i hi hri he))]
      exact hend r

/-- A row that starts now, for a slot that no row is in force for. -/
theorem Revises.insert (hfree : Table.find t (key s) = none) (hstart : start s = now)
    (hopen : ended s = false) (hstop : stop s = none)
    (hslot : ∀ r ∈ t, ∀ i, slot s = some i → slot r = some i → ended r = true) : Revises now t (t ++ [s]) :=
  ⟨id, [s], by simp, fun r _ => .refl now r, Or.inr ⟨s, rfl, hfree, hstart, hopen, hstop, hslot⟩⟩

end Operations

section Order

variable [LinearOrder τ]

/-- The row is in force at `x`. -/
def InForce (r : ρ) (x : τ) : Prop := start r ≤ x ∧ ∀ e, stop r = some e → x < e

/-- Two rows for the same slot are never in force together. -/
def Apart (r s : ρ) : Prop := ∀ i, slot r = some i → slot s = some i → ∀ x, ¬(InForce r x ∧ InForce s x)

/-- The table is a history: a row has ended exactly where it has a stop. -/
structure Ledger (t : List ρ) : Prop where
  unique : Table.Unique t
  stopped : ∀ r ∈ t, ended r = true ↔ (stop r).isSome = true
  apart : t.Pairwise Apart

/-- Every end in the table has come by now. -/
def Past (t : List ρ) (now : τ) : Prop := ∀ r ∈ t, ∀ e, stop r = some e → e ≤ now

instance (t : List ρ) (now : τ) : Decidable (Past t now) :=
  decidable_of_iff (∀ r ∈ t, (stop r).all fun e => e ≤ now) (by simp [Past, Option.all_eq_true])

/-- A row that was not in force does not become so. -/
theorem Keeps.inForce (h : Keeps now r s) {x : τ} (hx : InForce s x) : InForce r x := by
  refine ⟨h.start ▸ hx.1, fun e he => ?_⟩
  rcases h.stop with ⟨-, hs⟩ | ⟨hn, -, -⟩
  · exact hx.2 e (hs.trans he)
  · rw [hn] at he
    cases he

theorem Keeps.apart {r' s' : ρ} (hr : Keeps now r r') (hs : Keeps now s s') (h : Apart r s) : Apart r' s' := by
  intro i hi hj x hx
  exact h i (hr.slot ▸ hi) (hs.slot ▸ hj) x ⟨hr.inForce hx.1, hs.inForce hx.2⟩

theorem Ledger.stop_eq_none (h : Ledger t) (hr : r ∈ t) (he : ended r = false) : stop r = none := by
  cases hs : stop r with
  | none => rfl
  | some e => simp [(h.stopped r hr).2 (by simp [hs])] at he

/-- For each slot there is one row at most that has not ended. -/
theorem Ledger.eq_of_open (h : Ledger t) (hr : r ∈ t) (hs : s ∈ t) (her : ended r = false) (hes : ended s = false)
    {i : ι} (hri : slot r = some i) (hsi : slot s = some i) : r = s := by
  by_contra hne
  have : Std.Symm (Apart : ρ → ρ → Prop) := ⟨fun r s h i hi hj x hx => h i hj hi x hx.symm⟩
  have hapart : Apart r s := h.apart.forall hr hs hne
  refine hapart i hri hsi (max (start r) (start s)) ⟨⟨le_max_left .., fun e he => ?_⟩, le_max_right .., fun e he => ?_⟩
  · simp [h.stop_eq_none hr her] at he
  · simp [h.stop_eq_none hs hes] at he

theorem Ledger.map (h : Ledger t) (hf : ∀ r ∈ t, Keeps now r (f r)) : Ledger (t.map f) where
  unique := by
    have hkeys : t.map (key ∘ f) = t.map key := List.map_congr_left fun r hr => (hf r hr).key
    unfold Table.Unique
    rw [List.map_map, hkeys]
    exact h.unique
  stopped := by
    intro r' hr'
    obtain ⟨r, hr, rfl⟩ := List.mem_map.1 hr'
    rcases (hf r hr).stop with ⟨he, hs⟩ | ⟨-, hs, he⟩
    · rw [he, hs]
      exact h.stopped r hr
    · simp [he, hs]
  apart := by
    rw [List.pairwise_map]
    exact h.apart.imp_of_mem fun hr hs hrs => (hf _ hr).apart (hf _ hs) hrs

variable [DecidableEq κ]

/-- A row that starts now, for a slot that no row is in force for. -/
theorem Ledger.push (h : Ledger t) (hpast : Past t now) (hfree : Table.find t (key r) = none)
    (hstart : start r = now) (hopen : ended r = false) (hstop : stop r = none)
    (hslot : ∀ s ∈ t, ∀ i, slot r = some i → slot s = some i → ended s = true) : Ledger (t ++ [r]) where
  unique := h.unique.append hfree
  stopped := by
    intro s hs
    rcases List.mem_append.1 hs with hs | hs
    · exact h.stopped s hs
    · obtain rfl := List.mem_singleton.1 hs
      simp [hopen, hstop]
  apart := by
    rw [List.pairwise_append]
    refine ⟨h.apart, List.pairwise_singleton .., fun s hs r' hr' => ?_⟩
    obtain rfl := List.mem_singleton.1 hr'
    intro i hsi hri x hboth
    obtain ⟨hx, hx'⟩ := hboth
    obtain ⟨e, he⟩ := Option.isSome_iff_exists.1 ((h.stopped s hs).1 (hslot s hs i hri hsi))
    have hlt : x < e := hx.2 e he
    have hle : e ≤ now := hpast s hs e he
    have hnow : now ≤ x := hstart ▸ hx'.1
    order

/-- A row ends and a new one takes its slot. -/
theorem Ledger.replace (h : Ledger t) (hr : r ∈ t) (hopen : ended r = false) (hf : Keeps now r (f r))
    (hend : ended (f r) = true) (hslot : slot s = slot r) (hfree : Table.find t (key s) = none)
    (hstart : start s = now) (hopens : ended s = false) (hstop : stop s = none) :
    Revises now t (Table.modify t (key r) f ++ [s]) := by
  refine ⟨fun r' => if key r' = key r then f r' else r', [s], rfl, fun r' hr' => ?_, Or.inr
    ⟨s, rfl, hfree, hstart, hopens, hstop, fun r' hr' i hi hri => ?_⟩⟩
  · dsimp only
    split_ifs with hk
    · obtain rfl := h.unique.eq hr' hr hk
      exact hf
    · exact .refl now r'
  · dsimp only
    split_ifs with hk
    · obtain rfl := h.unique.eq hr' hr hk
      exact hend
    · by_contra he
      exact hk (congrArg key (h.eq_of_open hr' hr (Bool.not_eq_true _ ▸ he) hopen hri (hslot ▸ hi)))

/-- Operations keep a history a history, and what has ended. -/
theorem Ledger.revises (h : Ledger t) (hpast : Past t now) (ht : Revises now t t') :
    Ledger t' ∧ Frozen t t' := by
  obtain ⟨f, new, rfl, hf, hnew⟩ := ht.change
  have hmap := h.map hf
  have hfrozen := frozen_map (fun r hr => (h.stopped r hr).1) hf
  rcases hnew with rfl | ⟨r, rfl, hfree, hstart, hopen, hstop, hslot⟩
  · rw [List.append_nil]
    exact ⟨hmap, hfrozen⟩
  refine ⟨hmap.push (?_ : Past _ now) ?_ hstart hopen hstop ?_, hfrozen.trans (frozen_push _ r)⟩
  · intro s' hs' e he
    obtain ⟨s, hs, rfl⟩ := List.mem_map.1 hs'
    rcases (hf s hs).stop with ⟨-, hs'⟩ | ⟨-, hs', -⟩
    · exact hpast s hs e (hs' ▸ he)
    · rw [hs'] at he
      exact (Option.some.inj he).symm.le
  · rw [Table.find_eq_none] at hfree ⊢
    intro s' hs'
    obtain ⟨s, hs, rfl⟩ := List.mem_map.1 hs'
    rw [(hf s hs).key]
    exact hfree s hs
  · intro s' hs' i hi hsi
    obtain ⟨s, hs, rfl⟩ := List.mem_map.1 hs'
    exact hslot s hs i hi ((hf s hs).slot ▸ hsi)

end Order

end Dated

end Tx
