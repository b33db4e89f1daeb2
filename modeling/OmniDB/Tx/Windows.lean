import Mathlib.Algebra.Order.Group.Defs
import Mathlib.Data.List.Basic
import Mathlib.Tactic.Abel
import OmniDB.Tx.Requests

/-! Counters that expire. A counter starts with the first hit of its key, counts the hits for a fixed
time, its window, and is then forgotten. In any stretch of time as long as a window there are hits of
at most two windows. -/

namespace Tx

/-- When a deadline is over. What holds at the deadline itself is left open. -/
structure Expiry (τ : Type) [LinearOrder τ] where
  passed : τ → τ → Bool
  passed_of_lt : ∀ {now deadline}, deadline < now → passed now deadline = true
  not_passed_of_lt : ∀ {now deadline}, now < deadline → passed now deadline = false

structure Counter (τ : Type) where
  count : ℕ
  deadline : Option τ

/-- A request to the store of counters. -/
inductive Command (κ τ : Type) where
  | hit (k : κ) (window : τ)
  | clear (k : κ)
deriving DecidableEq

abbrev Counters (κ τ : Type) := κ → Option (Counter τ)

namespace Counters

variable {κ τ : Type} [DecidableEq κ] [LinearOrder τ] (E : Expiry τ)

/-- A counter whose deadline is over is gone. -/
def get (now : τ) (k : κ) (s : Counters κ τ) : Option (Counter τ) :=
  (s k).filter fun c => !c.deadline.any (E.passed now)

/-- `INCR`: a counter that is not there starts at zero, and has no deadline. -/
def incr (now : τ) (k : κ) (s : Counters κ τ) : ℕ × Counters κ τ :=
  let c := (s.get E now k).getD ⟨0, none⟩
  (c.count + 1, Function.update s k (some { c with count := c.count + 1 }))

/-- `EXPIRE`. -/
def expire [Add τ] (now : τ) (k : κ) (window : τ) (s : Counters κ τ) : Counters κ τ :=
  Function.update s k ((s.get E now k).map fun c => { c with deadline := some (now + window) })

/-- One more; the first sets the deadline. -/
def hit [Add τ] (now : τ) (k : κ) (window : τ) (s : Counters κ τ) : ℕ × Counters κ τ :=
  let (count, s) := s.incr E now k
  (count, if count = 1 then s.expire E now k window else s)

/-- The server: it answers a hit with the count. -/
def answer [Add τ] (now : τ) : Command κ τ → Counters κ τ → ℕ × Counters κ τ
  | .hit k window, s => s.hit E now k window
  | .clear k, s => ((s.get E now k).toList.length, Function.update s k none)

variable {E} {now : τ} {k : κ} {s : Counters κ τ}

/-- Every counter has counted something, and has a deadline. -/
def Timed (s : Counters κ τ) : Prop := ∀ k c, s k = some c → 0 < c.count ∧ c.deadline.isSome = true

/-- The first hit of a window sets its deadline. -/
theorem hit_of_none [Add τ] (window : τ) (h : s.get E now k = none) :
    s.hit E now k window = (1, Function.update s k (some ⟨1, some (now + window)⟩)) := by
  have hincr : s.incr E now k = (1, Function.update s k (some ⟨1, none⟩)) := by simp [incr, h]
  unfold hit
  rw [hincr]
  simp [expire, get, Option.filter]

theorem hit_of_some [Add τ] (window : τ) {c : Counter τ} (h : s.get E now k = some c) (hc : 0 < c.count) :
    s.hit E now k window = (c.count + 1, Function.update s k (some { c with count := c.count + 1 })) := by
  have hincr : s.incr E now k = (c.count + 1, Function.update s k (some { c with count := c.count + 1 })) := by
    simp [incr, h]
  have hne : c.count + 1 ≠ 1 := by omega
  unfold hit
  rw [hincr]
  exact congrArg (Prod.mk _) (if_neg hne)

/-- A hit counts in the window that is open, or opens one. -/
theorem hit_cases [Add τ] (now window : τ) (hs : s.Timed) :
    (∃ n d, s k = some ⟨n, some d⟩ ∧ E.passed now d = false ∧
      s.hit E now k window = (n + 1, Function.update s k (some ⟨n + 1, some d⟩))) ∨
    ((∀ n d, s k = some ⟨n, some d⟩ → E.passed now d = true) ∧
      s.hit E now k window = (1, Function.update s k (some ⟨1, some (now + window)⟩))) := by
  cases hg : s.get E now k with
  | none =>
    refine Or.inr ⟨fun n d hk => ?_, hit_of_none window hg⟩
    by_contra hover
    simp [get, hk, hover] at hg
  | some c =>
    obtain ⟨hk, hover⟩ := Option.filter_eq_some_iff.1 hg
    obtain ⟨hpos, hdead⟩ := hs k c hk
    have hhit := hit_of_some window hg hpos
    obtain ⟨n, _ | d⟩ := c
    · cases hdead
    · exact Or.inl ⟨n, d, hk, by simpa using hover, hhit⟩

theorem timed_hit [Add τ] (window : τ) (hs : s.Timed) : (s.hit E now k window).2.Timed := by
  intro j c hj
  rcases hit_cases now window hs with ⟨n, d, -, -, h⟩ | ⟨-, h⟩
  all_goals
    rw [h] at hj
    by_cases hjk : j = k
    · subst hjk
      obtain rfl : _ = c := by simpa using hj
      exact ⟨Nat.succ_pos _, rfl⟩
    · exact hs j c (by simpa [hjk] using hj)

theorem timed_answer [Add τ] (hs : s.Timed) (c : Command κ τ) : (answer E now c s).2.Timed := by
  cases c with
  | hit k window => exact timed_hit window hs
  | clear k =>
    intro j c hj
    by_cases hjk : j = k
    · subst hjk
      simp [answer] at hj
    · exact hs j c (by simpa [answer, hjk] using hj)

end Counters

/-! ## Runs -/

section Runs

variable {κ τ α ω : Type} [DecidableEq κ] [LinearOrder τ] [AddCommGroup τ]
variable {E : Expiry τ} {body : ω → Talk (Command κ τ) ℕ α} {s : Exchange (Counters κ τ) τ (Command κ τ) ℕ α ω}
variable {k : κ} {window a t₀ : τ} {limit : ℕ}

/-- The requests to a store of counters. -/
abbrev Hits (κ τ : Type) := List (Entry τ (Command κ τ) ℕ)

/-- The entry is a hit of `k`. -/
def Entry.hits (k : κ) (window : τ) (e : Entry τ (Command κ τ) ℕ) : Bool :=
  e.request = .hit k window && e.answer.isSome

/-- The hits of `k` that were answered with at most `limit`, from `a` on for the time of a window. -/
def admitted (k : κ) (window : τ) (limit : ℕ) (a : τ) (log : Hits κ τ) : Hits κ τ :=
  log.filter fun e => e.hits k window && e.answer.any (· ≤ limit) && (a ≤ e.time && e.time < a + window)

/-- The hits of `k` in the time of a window up to `t`. -/
def recent (k : κ) (window t : τ) (log : Hits κ τ) : Hits κ τ :=
  log.filter fun e => e.hits k window && (t - window ≤ e.time && e.time ≤ t)

/-- All hits of `k` are for this window. -/
def OneWindow (k : κ) (window : τ) (log : Hits κ τ) : Prop := ∀ e ∈ log, ∀ w, e.request = .hit k w → w = window

/-- The key is not cleared from `a` on for the time of a window. -/
def Uncleared (k : κ) (window a : τ) (log : Hits κ τ) : Prop :=
  ∀ e ∈ log, e.request = .clear k → ¬(a ≤ e.time ∧ e.time < a + window)

/-- Among the hits so far, those admitted since `a` are of the window that is open, or that window has
begun since and the others are of the one before. -/
def TwoWindows (limit : ℕ) (deadline : τ) (o : Option (Counter τ)) (n : ℕ) : Prop :=
  n ≤ min (o.elim 0 Counter.count) limit ∨
    ∃ m d, o = some ⟨m, some d⟩ ∧ deadline ≤ d ∧ n ≤ limit + min m limit

omit [AddCommGroup τ] in
theorem TwoWindows.le {deadline : τ} {o : Option (Counter τ)} {n : ℕ} (h : TwoWindows limit deadline o n) :
    n ≤ 2 * limit := by
  rcases h with h | ⟨m, d, -, -, h⟩ <;> omega

/-- One more hit, within the time. -/
theorem TwoWindows.hit [IsOrderedAddMonoid τ] {x : Counters κ τ} {t : τ} {n : ℕ} (hx : x.Timed) (h : TwoWindows limit (a + window) (x k) n)
    (ha : a ≤ t) (ht : t < a + window) :
    TwoWindows limit (a + window) ((x.hit E t k window).2 k) (n + if (x.hit E t k window).1 ≤ limit then 1 else 0) := by
  rcases Counters.hit_cases (E := E) t window hx with ⟨m, d, hk, hopen, hhit⟩ | ⟨hover, hhit⟩
  · rw [hk] at h
    rw [hhit]
    simp only [Function.update_self]
    rcases h with h | ⟨m', d', hm, hd, h⟩
    · left
      simp only [Option.elim_some] at h ⊢
      split_ifs <;> omega
    · cases hm
      refine Or.inr ⟨m + 1, d, rfl, hd, ?_⟩
      split_ifs <;> omega
  · rw [hhit]
    simp only [Function.update_self]
    refine Or.inr ⟨1, t + window, rfl, add_le_add_left ha window, ?_⟩
    rcases h with h | ⟨m', d', hm, hd, h⟩
    · split_ifs <;> omega
    · have hsooner := E.not_passed_of_lt (ht.trans_le hd)
      rw [hover m' d' hm] at hsooner
      cases hsooner

theorem admitted_cons (e : Entry τ (Command κ τ) ℕ) (log : Hits κ τ) :
    (admitted k window limit a (e :: log)).length = (admitted k window limit a log).length +
      if (e.hits k window && e.answer.any (· ≤ limit) && (a ≤ e.time && e.time < a + window)) = true then 1 else 0 := by
  unfold admitted
  rw [List.filter_cons]
  split_ifs <;> rfl

/-- An entry that is no hit of `k`, or not of the time, is not counted. -/
theorem admitted_skip {e : Entry τ (Command κ τ) ℕ} (log : Hits κ τ)
    (h : e.hits k window = true → ¬(a ≤ e.time ∧ e.time < a + window)) :
    (admitted k window limit a (e :: log)).length = (admitted k window limit a log).length := by
  rw [admitted_cons, if_neg fun hc => ?_, Nat.add_zero]
  simp only [Bool.and_eq_true, decide_eq_true_eq] at hc
  exact h hc.1.1 hc.2

/-- What holds of the hits since `a`, throughout a run. -/
structure Counted (k : κ) (window : τ) (limit : ℕ) (a : τ) (x : Counters κ τ) (now : τ) (log : Hits κ τ) : Prop where
  timed : x.Timed
  past : ∀ e ∈ log, e.time ≤ now
  bound : OneWindow k window log → Uncleared k window a log →
    (admitted k window limit a log).length ≤ 2 * limit ∧ (now < a + window → TwoWindows limit (a + window) (x k)
      (admitted k window limit a log).length)

theorem admitted_eq_zero {log : Hits κ τ} {now : τ} (h : ∀ e ∈ log, e.time ≤ now) (ha : now < a) :
    (admitted k window limit a log).length = 0 := by
  rw [List.length_eq_zero_iff, admitted, List.filter_eq_nil_iff]
  intro e he hc
  simp only [Bool.and_eq_true, decide_eq_true_eq] at hc
  exact absurd (hc.2.1.trans (h e he)) (not_le.2 ha)

/-- An entry that leaves the counter of `k` alone, and is not counted itself. -/
theorem Counted.skip {x x' : Counters κ τ} {now : τ} {log : Hits κ τ} {e : Entry τ (Command κ τ) ℕ}
    (h : Counted k window limit a x now log) (ht : now ≤ e.time) (hx : x'.Timed) (hk : x' k = x k)
    (he : e.hits k window = true → ¬(a ≤ e.time ∧ e.time < a + window)) :
    Counted k window limit a x' e.time (e :: log) := by
  refine ⟨hx, fun d hd => ?_, fun hw hc => ?_⟩
  · rcases List.mem_cons.1 hd with rfl | hd
    · exact le_rfl
    · exact (h.past d hd).trans ht
  · obtain ⟨hle, hphase⟩ := h.bound (fun d hd => hw d (List.mem_cons_of_mem _ hd))
      fun d hd => hc d (List.mem_cons_of_mem _ hd)
    rw [admitted_skip log he, hk]
    exact ⟨hle, fun hnow => hphase (ht.trans_lt hnow)⟩

/-- An entry outside the time. -/
theorem Counted.outside {x x' : Counters κ τ} {now : τ} {log : Hits κ τ} {e : Entry τ (Command κ τ) ℕ}
    (h : Counted k window limit a x now log) (ht : now ≤ e.time) (hx : x'.Timed)
    (he : ¬(a ≤ e.time ∧ e.time < a + window)) : Counted k window limit a x' e.time (e :: log) := by
  refine ⟨hx, fun d hd => ?_, fun hw hc => ?_⟩
  · rcases List.mem_cons.1 hd with rfl | hd
    · exact le_rfl
    · exact (h.past d hd).trans ht
  · obtain ⟨hle, -⟩ := h.bound (fun d hd => hw d (List.mem_cons_of_mem _ hd))
      fun d hd => hc d (List.mem_cons_of_mem _ hd)
    rw [admitted_skip log fun _ => he]
    refine ⟨hle, fun hnow => ?_⟩
    have ha : e.time < a := lt_of_not_ge fun ha => he ⟨ha, hnow⟩
    rw [admitted_eq_zero h.past (ht.trans_lt ha)]
    exact Or.inl (Nat.zero_le _)

theorem Counted.served [IsOrderedAddMonoid τ] {x : Counters κ τ} {now : τ} {log : Hits κ τ}
    (h : Counted k window limit a x now log) {t : τ} (ht : now ≤ t) (i : ℕ) (c : Command κ τ) (received : Bool) :
    Counted k window limit a (Counters.answer E t c x).2 t
      (⟨i, t, c, some (Counters.answer E t c x).1, received⟩ :: log) := by
  have hx : (Counters.answer E t c x).2.Timed := Counters.timed_answer h.timed c
  let e : Entry τ (Command κ τ) ℕ := ⟨i, t, c, some (Counters.answer E t c x).1, received⟩
  have hpast : ∀ d ∈ e :: log, d.time ≤ t := fun d hd => by
    rcases List.mem_cons.1 hd with rfl | hd
    · exact le_rfl
    · exact (h.past d hd).trans ht
  by_cases hin : a ≤ t ∧ t < a + window
  swap
  · exact h.outside (e := e) ht hx hin
  cases c with
  | clear j =>
    by_cases hj : j = k
    · subst hj
      exact ⟨hx, hpast, fun _ hc => absurd hin (hc _ List.mem_cons_self rfl)⟩
    · exact h.skip (e := e) ht hx (Function.update_of_ne (Ne.symm hj) ..) fun hh => by simp [e, Entry.hits] at hh
  | hit j w =>
    by_cases hj : j = k
    · subst hj
      refine ⟨hx, hpast, fun hw hc => ?_⟩
      obtain rfl : w = window := hw _ List.mem_cons_self w rfl
      obtain ⟨-, hphase⟩ := h.bound (fun d hd => hw d (List.mem_cons_of_mem _ hd))
        fun d hd => hc d (List.mem_cons_of_mem _ hd)
      have hnext := (hphase (ht.trans_lt hin.2)).hit (E := E) h.timed hin.1 hin.2
      have hcount : (admitted j w limit a (e :: log)).length = (admitted j w limit a log).length +
          if (x.hit E t j w).1 ≤ limit then 1 else 0 := by
        rw [admitted_cons]
        simp [e, Entry.hits, hin.1, hin.2, Counters.answer]
      rw [hcount]
      exact ⟨hnext.le, fun _ => hnext⟩
    · refine h.skip (e := e) ht hx ?_ fun hh => by simp [e, Entry.hits, hj] at hh
      rcases Counters.hit_cases (E := E) (k := j) t w h.timed with ⟨n, d, -, -, hhit⟩ | ⟨-, hhit⟩
      all_goals
        rw [Counters.answer, hhit]
        exact Function.update_of_ne (Ne.symm hj) ..

/-- In any stretch as long as a window, at most twice the limit is admitted. -/
theorem admitted_le [IsOrderedAddMonoid τ]
    (hr : Exchange.Reaches (Counters.answer E) body { store := fun _ => none, now := t₀ } s)
    (hw : OneWindow k window s.log) (hc : Uncleared k window a s.log) :
    (admitted k window limit a s.log).length ≤ 2 * limit := by
  have hcounted : Counted k window limit a s.store s.now s.log := by
    refine Exchange.invariant_of_reaches (I := Counted k window limit a) ?_ (fun x now log i t c received h ht => h.served ht i c received)
      (fun x now log i t c h ht => ?_) hr
    · exact ⟨fun k c hk => (by cases hk), fun e he => absurd he List.not_mem_nil,
        fun _ _ => ⟨Nat.zero_le _, fun _ => Or.inl (Nat.zero_le _)⟩⟩
    · exact h.skip (e := ⟨i, t, c, none, false⟩) ht h.timed rfl fun hh => by simp [Entry.hits] at hh
  exact (hcounted.bound hw hc).1

/-! ### What a count counts -/

/-- The hits of `k` since `a`. -/
def since (k : κ) (window a : τ) (log : Hits κ τ) : Hits κ τ := log.filter fun e => e.hits k window && a ≤ e.time

/-- An open window has begun in the past, and its count is of hits since then. So was every count. -/
structure Recent (k : κ) (window : τ) (x : Counters κ τ) (now : τ) (log : Hits κ τ) : Prop where
  timed : x.Timed
  past : ∀ e ∈ log, e.time ≤ now
  store : OneWindow k window log → ∀ n d, x k = some ⟨n, some d⟩ →
    d ≤ now + window ∧ n ≤ (since k window (d - window) log).length
  answers : OneWindow k window log → ∀ e ∈ log, ∀ n, e.hits k window = true → e.answer = some n →
    n ≤ (recent k window e.time log).length

theorem recent_cons_le (t : τ) (e : Entry τ (Command κ τ) ℕ) (log : Hits κ τ) :
    (recent k window t log).length ≤ (recent k window t (e :: log)).length :=
  ((List.sublist_cons_self e log).filter _).length_le

omit [AddCommGroup τ] in
theorem since_cons_le (a : τ) (e : Entry τ (Command κ τ) ℕ) (log : Hits κ τ) :
    (since k window a log).length ≤ (since k window a (e :: log)).length :=
  ((List.sublist_cons_self e log).filter _).length_le

/-- An entry that leaves the counter of `k` alone or clears it, and is no hit of `k`. -/
theorem Recent.skip [IsOrderedAddMonoid τ] {x x' : Counters κ τ} {now : τ} {log : Hits κ τ} {e : Entry τ (Command κ τ) ℕ}
    (h : Recent k window x now log) (ht : now ≤ e.time) (hx : x'.Timed) (hk : x' k = x k ∨ x' k = none)
    (he : e.hits k window = false) : Recent k window x' e.time (e :: log) := by
  refine ⟨hx, fun d hd => ?_, fun hw n d hn => ?_, fun hw d hd n hh hn => ?_⟩
  · rcases List.mem_cons.1 hd with rfl | hd
    · exact le_rfl
    · exact (h.past d hd).trans ht
  · rcases hk with hk | hk
    · obtain ⟨hd, hle⟩ := h.store (fun d hd => hw d (List.mem_cons_of_mem _ hd)) n d (hk ▸ hn)
      exact ⟨hd.trans (add_le_add_left ht window), hle.trans (since_cons_le ..)⟩
    · rw [hk] at hn
      cases hn
  · rcases List.mem_cons.1 hd with rfl | hd
    · rw [he] at hh
      cases hh
    · exact (h.answers (fun d hd => hw d (List.mem_cons_of_mem _ hd)) d hd n hh hn).trans (recent_cons_le ..)

/-- The hits since an open window began are recent. -/
theorem since_le_recent [IsOrderedAddMonoid τ] {t d : τ} {log : Hits κ τ} (hpast : ∀ e ∈ log, e.time ≤ t) (hd : t ≤ d) :
    (since k window (d - window) log).length ≤ (recent k window t log).length := by
  unfold since recent
  rw [← List.countP_eq_length_filter, ← List.countP_eq_length_filter]
  refine List.countP_mono_left fun e he hc => ?_
  simp only [Bool.and_eq_true, decide_eq_true_eq] at hc ⊢
  exact ⟨hc.1, (sub_le_sub_right hd window).trans hc.2, hpast e he⟩

omit [AddCommGroup τ] in
theorem since_cons_hit {e : Entry τ (Command κ τ) ℕ} (log : Hits κ τ) (he : e.hits k window = true) (ha : a ≤ e.time) :
    (since k window a (e :: log)).length = (since k window a log).length + 1 := by
  unfold since
  rw [List.filter_cons_of_pos (by simp [he, ha]), List.length_cons]

theorem Recent.served [IsOrderedAddMonoid τ] (hW : 0 ≤ window) {x : Counters κ τ} {now : τ} {log : Hits κ τ}
    (h : Recent k window x now log) {t : τ} (ht : now ≤ t) (i : ℕ) (c : Command κ τ) (received : Bool) :
    Recent k window (Counters.answer E t c x).2 t
      (⟨i, t, c, some (Counters.answer E t c x).1, received⟩ :: log) := by
  have hx : (Counters.answer E t c x).2.Timed := Counters.timed_answer h.timed c
  let e : Entry τ (Command κ τ) ℕ := ⟨i, t, c, some (Counters.answer E t c x).1, received⟩
  have hpast : ∀ d ∈ e :: log, d.time ≤ t := fun d hd => by
    rcases List.mem_cons.1 hd with rfl | hd
    · exact le_rfl
    · exact (h.past d hd).trans ht
  cases c with
  | clear j =>
    refine h.skip (e := e) ht hx ?_ (by simp [e, Entry.hits])
    by_cases hj : j = k
    · subst hj
      exact Or.inr (Function.update_self ..)
    · exact Or.inl (Function.update_of_ne (Ne.symm hj) ..)
  | hit j w =>
    by_cases hj : j = k
    swap
    · refine h.skip (e := e) ht hx (Or.inl ?_) (by simp [e, Entry.hits, hj])
      rcases Counters.hit_cases (E := E) (k := j) t w h.timed with ⟨n, d, -, -, hhit⟩ | ⟨-, hhit⟩
      all_goals
        rw [Counters.answer, hhit]
        exact Function.update_of_ne (Ne.symm hj) ..
    subst hj
    -- the counter after the hit, and that its count is of hits since its window began
    have hstore : OneWindow j window (e :: log) → ∃ d, (Counters.answer E t (.hit j w) x).2 j =
        some ⟨(Counters.answer E t (.hit j w) x).1, some d⟩ ∧ d ≤ t + window ∧ t ≤ d ∧
        (Counters.answer E t (.hit j w) x).1 ≤ (since j window (d - window) (e :: log)).length := by
      intro hw
      obtain rfl : w = window := hw _ List.mem_cons_self w rfl
      have hhits : e.hits j w = true := by simp [e, Entry.hits]
      rcases Counters.hit_cases (E := E) (k := j) t w h.timed with ⟨n, d, hn, hopen, hhit⟩ | ⟨-, hhit⟩
      · obtain ⟨hd, hle⟩ := h.store (fun d hd => hw d (List.mem_cons_of_mem _ hd)) n d hn
        have htd : t ≤ d := by
          by_contra hlt
          rw [E.passed_of_lt (not_le.1 hlt)] at hopen
          cases hopen
        have hlen := since_cons_hit log hhits ((sub_le_iff_le_add.2 hd).trans ht)
        rw [Counters.answer, hhit]
        exact ⟨d, Function.update_self .., hd.trans (add_le_add_left ht w), htd, hlen ▸ Nat.succ_le_succ hle⟩
      · rw [Counters.answer, hhit]
        refine ⟨t + w, Function.update_self .., le_rfl, le_add_of_nonneg_right hW, ?_⟩
        rw [since_cons_hit log hhits (by simp [e])]
        exact Nat.le_add_left ..
    refine ⟨hx, hpast, fun hw n d hn => ?_, fun hw d hd n hh hn => ?_⟩
    · obtain ⟨d', heq, hd', -, hle⟩ := hstore hw
      rw [heq] at hn
      cases hn
      exact ⟨hd', hle⟩
    · rcases List.mem_cons.1 hd with rfl | hd
      · obtain ⟨d', -, -, htd, hle⟩ := hstore hw
        obtain rfl : _ = n := Option.some.inj hn
        exact hle.trans (since_le_recent hpast htd)
      · exact (h.answers (fun d hd => hw d (List.mem_cons_of_mem _ hd)) d hd n hh hn).trans (recent_cons_le ..)

/-- A count is of hits in the time of a window before it. -/
theorem answer_le_recent [IsOrderedAddMonoid τ] (hW : 0 ≤ window)
    (hr : Exchange.Reaches (Counters.answer E) body { store := fun _ => none, now := t₀ } s)
    (hw : OneWindow k window s.log) {e : Entry τ (Command κ τ) ℕ} (he : e ∈ s.log) (hk : e.hits k window = true) {n : ℕ}
    (hn : e.answer = some n) : n ≤ (recent k window e.time s.log).length := by
  have hrecent : Recent k window s.store s.now s.log := by
    refine Exchange.invariant_of_reaches (I := Recent k window) ?_
      (fun x now log i t c received h ht => h.served hW ht i c received) (fun x now log i t c h ht => ?_) hr
    · exact ⟨fun k c hk => (by cases hk), fun e he => absurd he List.not_mem_nil, fun _ n d hd => (by cases hd),
        fun _ e he => absurd he List.not_mem_nil⟩
    · exact h.skip (e := ⟨i, t, c, none, false⟩) ht h.timed (Or.inl rfl) (by simp [Entry.hits])
  exact hrecent.answers hw e he n hk hn

end Runs

end Tx
