import Mathlib.Algebra.Order.Group.Int
import OmniDB.Spec.Limiter

/-! What the limiters promise, whatever calls run at the same time: in any quarter of an hour at most
twice the limit passes, and nobody is turned away but for requests of the last quarter of an hour. -/

namespace OmniDB.Limiter

open Tx

/-- The time a counter counts for. -/
abbrev window : Time := seconds windowSeconds

/-- The kind of call a key belongs to. -/
inductive Flow where
  | login | workLease | activation
deriving DecidableEq

def Op.flow : Op → Flow
  | .login .. | .reset _ => .login
  | .workLease _ => .workLease
  | .activation _ => .activation

/-- The keys that a call counts under, with their limits. -/
def limits (env : Env) : Op → List (String × ℕ)
  | .login account source => [(key env "account" account, accountLimit), (key env "source" (known source), sourceLimit),
      ("login_attempts:global", globalLimit)]
  | .reset _ => []
  | .workLease agentId => [(key env "agent" agentId "work_lease_attempts", workLeaseLimit)]
  | .activation source => [(key env "source" (known source) "activation_attempts", activationSourceLimit),
      ("activation_attempts:global", activationGlobalLimit)]

/-- One key after the other is counted; a request that fails ends the call. -/
def rounds (fallback : Bool) : Bool → List (String × ℕ) → Talk Request ℕ (Option Bool)
  | ok, [] => .done (some ok)
  | ok, (k, limit) :: rest => .ask (.hit k window) fun
    | some n => rounds fallback (ok && n ≤ limit) rest
    | none => .done (some fallback)

section Rounds

variable {env : Env} {op : Op} {fallback ok : Bool} {keys : List (String × ℕ)} {as : List (Request × Option ℕ)}
variable {p : Talk Request ℕ (Option Bool)}

/-- A limiter counts its keys one after the other. -/
theorem body_eq (h : ∀ account, op ≠ .reset account) : body env op = rounds (!env.production) true (limits env op) := by
  cases op with
  | reset account => exact absurd rfl (h account)
  | workLease agentId =>
    refine congrArg (Talk.ask _) (funext fun o => ?_)
    cases o <;> rfl
  | activation source =>
    refine congrArg (Talk.ask _) (funext fun o => ?_)
    cases o with
    | none => rfl
    | some n =>
      refine congrArg (Talk.ask _) (funext fun o => ?_)
      cases o <;> rfl
  | login account source =>
    refine congrArg (Talk.ask _) (funext fun o => ?_)
    cases o with
    | none => rfl
    | some n =>
      refine congrArg (Talk.ask _) (funext fun o => ?_)
      cases o with
      | none => rfl
      | some m =>
        refine congrArg (Talk.ask _) (funext fun o => ?_)
        cases o <;> rfl

/-- The keys are counted in their order. -/
theorem asked_of_goes (h : (rounds fallback ok keys).Goes as p) :
    as.map Prod.fst <+: keys.map fun k => Command.hit k.1 window := by
  induction keys generalizing ok as with
  | nil =>
    cases h
    exact List.prefix_refl _
  | cons k rest ih =>
    cases h with
    | here => exact List.nil_prefix
    | @ask _ _ o as _ h =>
      refine List.cons_prefix_cons.2 ⟨rfl, ?_⟩
      cases o with
      | none =>
        cases h
        exact List.nil_prefix
      | some n => exact ih h

/-- A call that passes has passed every limit. -/
theorem passed_of_goes (hf : fallback = false) (h : (rounds fallback ok keys).Goes as (.done (some true))) :
    ok = true ∧ ∀ k ∈ keys, ∃ n ≤ k.2, (Command.hit k.1 window, some n) ∈ as := by
  induction keys generalizing ok as with
  | nil =>
    cases h
    exact ⟨rfl, fun k hk => absurd hk List.not_mem_nil⟩
  | cons k rest ih =>
    cases h with
    | @ask _ _ o as _ h =>
      cases o with
      | none =>
        cases h
        cases hf
      | some n =>
        obtain ⟨hok, hrest⟩ := ih h
        rw [Bool.and_eq_true, decide_eq_true_iff] at hok
        refine ⟨hok.1, fun j hj => ?_⟩
        rcases List.mem_cons.1 hj with rfl | hj
        · exact ⟨n, hok.2, List.mem_cons_self⟩
        · obtain ⟨m, hm, hmem⟩ := hrest j hj
          exact ⟨m, hm, List.mem_cons_of_mem _ hmem⟩

/-- A call that is refused has failed to ask, or has met a limit that is used up. -/
theorem refused_of_goes (h : (rounds fallback ok keys).Goes as (.done (some false))) :
    (fallback = false ∧ ∃ c, (c, none) ∈ as) ∨ ok = false ∨
      ∃ k ∈ keys, ∃ n, k.2 < n ∧ (Command.hit k.1 window, some n) ∈ as := by
  induction keys generalizing ok as with
  | nil =>
    cases h
    exact Or.inr (Or.inl rfl)
  | cons k rest ih =>
    cases h with
    | @ask _ _ o as _ h =>
      cases o with
      | none =>
        cases h
        exact Or.inl ⟨rfl, _, List.mem_cons_self⟩
      | some n =>
        rcases ih h with ⟨hf, c, hc⟩ | hok | ⟨j, hj, m, hm, hmem⟩
        · exact Or.inl ⟨hf, c, List.mem_cons_of_mem _ hc⟩
        · rw [Bool.and_eq_false_iff, decide_eq_false_iff_not, not_le] at hok
          rcases hok with hok | hover
          · exact Or.inr (Or.inl hok)
          · exact Or.inr (Or.inr ⟨k, List.mem_cons_self, n, hover, List.mem_cons_self⟩)
        · exact Or.inr (Or.inr ⟨j, List.mem_cons_of_mem _ hj, m, hm, List.mem_cons_of_mem _ hmem⟩)

end Rounds

/-! ## Keys -/

section Keys

variable {env : Env} {op op' : Op} {k : String} {limit limit' : ℕ}

/-- What the prefix of a key tells of it. -/
def classify (k : String) : Flow × ℕ :=
  match k.toList[0]?, k.toList[15]?, k.toList[20]? with
  | some 'l', some 'a', _ => (.login, accountLimit)
  | some 'l', some 's', _ => (.login, sourceLimit)
  | some 'l', _, _ => (.login, globalLimit)
  | some 'w', _, _ => (.workLease, workLeaseLimit)
  | _, _, some 's' => (.activation, activationSourceLimit)
  | _, _, _ => (.activation, activationGlobalLimit)

theorem classify_of_mem (h : (k, limit) ∈ limits env op) : classify k = (op.flow, limit) := by
  cases op with
  | login account source =>
    simp only [limits, List.mem_cons, Prod.mk.injEq, List.not_mem_nil, or_false] at h
    obtain ⟨rfl, rfl⟩ | ⟨rfl, rfl⟩ | ⟨rfl, rfl⟩ := h <;> simp [classify, key, String.toList_append, Op.flow]
  | reset account => cases h
  | workLease agentId =>
    simp only [limits, List.mem_cons, Prod.mk.injEq, List.not_mem_nil, or_false] at h
    obtain ⟨rfl, rfl⟩ := h
    simp [classify, key, String.toList_append, Op.flow]
  | activation source =>
    simp only [limits, List.mem_cons, Prod.mk.injEq, List.not_mem_nil, or_false] at h
    obtain ⟨rfl, rfl⟩ | ⟨rfl, rfl⟩ := h <;> simp [classify, key, String.toList_append, Op.flow]

/-- A key has one limit, and belongs to one kind of call. -/
theorem limits_agree (h : (k, limit) ∈ limits env op) (h' : (k, limit') ∈ limits env op') :
    op'.flow = op.flow ∧ limit' = limit := by
  have heq := (classify_of_mem h').symm.trans (classify_of_mem h)
  exact ⟨congrArg Prod.fst heq, congrArg Prod.snd heq⟩

/-- No call counts under a key twice. -/
theorem limits_nodup (env : Env) (op : Op) : ((limits env op).map Prod.fst).Nodup := by
  refine List.Nodup.of_map classify ?_
  have hmap : (limits env op).map (classify ∘ Prod.fst) = (limits env op).map fun l => (op.flow, l.2) :=
    List.map_congr_left fun l hl => classify_of_mem hl
  rw [List.map_map, hmap]
  cases op <;>
    simp [limits, accountLimit, sourceLimit, globalLimit, activationSourceLimit, activationGlobalLimit]

end Keys

/-! ## Runs -/

section Runs

variable {env : Env} {E : Expiry Time} {t₀ : Time} {s : Calls} {k : String} {limit : ℕ}

theorem body_reset (account : String) :
    body env (.reset account) = .ask (.clear (key env "account" account)) fun _ => .done none := by
  refine congrArg (Talk.ask _) (funext fun o => ?_)
  cases o <;> rfl

theorem asked_of_reset {account : String} {as : List (Request × Option ℕ)} {p : Talk Request ℕ (Option Bool)}
    (h : (body env (.reset account)).Goes as p) : ∀ a ∈ as, a.1 = .clear (key env "account" account) := by
  rw [body_reset] at h
  cases h with
  | here => exact fun a ha => absurd ha List.not_mem_nil
  | ask h =>
    cases h
    intro a ha
    obtain rfl := List.mem_singleton.1 ha
    rfl

theorem reset_answers_nothing {account : String} {as : List (Request × Option ℕ)} {b : Bool}
    (h : (body env (.reset account)).Goes as (.done (some b))) : False := by
  rw [body_reset] at h
  cases h with
  | ask h => cases h

/-- Every request of a run is of a call that counts under its key, or of a reset. -/
theorem request_of_reaches (hr : Reaches env E t₀ s) {e : Entry Time Request ℕ} (he : e ∈ s.log) :
    ∃ op p, s.clients e.client = some (op, p) ∧ ((∃ l ∈ limits env op, e.request = .hit l.1 window) ∨
      ∃ account, op = .reset account ∧ e.request = .clear (key env "account" account)) := by
  have hc := Exchange.onCourse_of_reaches hr
  have hsaid : (e.request, e.heard) ∈ Exchange.said s.log e.client := Exchange.mem_said.2 ⟨e, he, rfl, rfl, rfl⟩
  cases hi : s.clients e.client with
  | none =>
    rw [hc.idle _ hi] at hsaid
    cases hsaid
  | some q =>
    obtain ⟨op, p⟩ := q
    refine ⟨op, p, rfl, ?_⟩
    have hgoes := hc.goes _ _ _ hi
    by_cases hop : ∃ account, op = .reset account
    · obtain ⟨account, rfl⟩ := hop
      exact Or.inr ⟨account, rfl, asked_of_reset hgoes _ hsaid⟩
    · rw [body_eq fun account h => hop ⟨account, h⟩] at hgoes
      have hmem := (asked_of_goes hgoes).subset (List.mem_map_of_mem hsaid)
      obtain ⟨l, hl, heq⟩ := List.mem_map.1 hmem
      exact Or.inl ⟨l, hl, heq.symm⟩

theorem oneWindow_of_reaches (hr : Reaches env E t₀ s) : OneWindow k window s.log := by
  intro e he w hw
  obtain ⟨op, p, -, ⟨l, -, heq⟩ | ⟨account, -, heq⟩⟩ := request_of_reaches hr he
  · exact (Command.hit.inj (hw.symm.trans heq)).2
  · cases hw.symm.trans heq

/-- No call asks twice for one key. -/
theorem count_of_reaches (hr : Reaches env E t₀ s) (i : ℕ) :
    ((Exchange.said s.log i).map Prod.fst).count (.hit k window) ≤ 1 := by
  have hc := Exchange.onCourse_of_reaches hr
  cases hi : s.clients i with
  | none => simp [hc.idle i hi]
  | some q =>
    obtain ⟨op, p⟩ := q
    have hgoes := hc.goes _ _ _ hi
    by_cases hop : ∃ account, op = .reset account
    · obtain ⟨account, rfl⟩ := hop
      rw [List.count_eq_zero.2 fun hmem => ?_]
      · exact Nat.zero_le 1
      · obtain ⟨a, ha, heq⟩ := List.mem_map.1 hmem
        cases heq.symm.trans (asked_of_reset hgoes a ha)
    · rw [body_eq fun account h => hop ⟨account, h⟩] at hgoes
      refine le_trans ((asked_of_goes hgoes).sublist.count_le _) (List.nodup_iff_count_le_one.1 ?_ _)
      have hmap : (limits env op).map (fun l => Command.hit l.1 window) =
          ((limits env op).map Prod.fst).map fun k => Command.hit k window := by rw [List.map_map]; rfl
      rw [hmap]
      exact (limits_nodup env op).map fun j k h => (Command.hit.inj h).1

/-- The call has ended well, and was counted under `k` in the time from `a` on. -/
def Passed (env : Env) (s : Calls) (k : String) (limit : ℕ) (a : Time) (i : ℕ) : Prop :=
  ∃ op, s.clients i = some (op, .done (some true)) ∧ (k, limit) ∈ limits env op ∧
    ∃ e ∈ s.log, e.client = i ∧ e.request = .hit k window ∧ a ≤ e.time ∧ e.time < a + window

/-- In production, in any quarter of an hour in which the account is not reset, at most twice the limit
of calls passes under any key. -/
theorem passed_le (hprod : env.production = true) (hr : Reaches env E t₀ s) {a : Time}
    (hreset : ∀ account, k = key env "account" account → Uncleared k window a s.log) {A : Finset ℕ}
    (hA : ∀ i ∈ A, Passed env s k limit a i) : A.card ≤ 2 * limit := by
  have hclear : Uncleared k window a s.log := by
    intro e he hk
    obtain ⟨op, p, -, ⟨l, -, heq⟩ | ⟨account, -, heq⟩⟩ := request_of_reaches hr he
    · cases hk.symm.trans heq
    · exact hreset account (Command.clear.inj (hk.symm.trans heq)) e he hk
  have hle : (admitted k window limit a s.log).length ≤ 2 * limit := admitted_le hr (oneWindow_of_reaches hr) hclear
  refine le_trans (Exchange.card_le_length fun i hi => ?_) hle
  obtain ⟨op, hop, hlimit, e, he, hc, hk, ha, hb⟩ := hA i hi
  have hgoes := (Exchange.onCourse_of_reaches hr).goes _ _ _ hop
  have hnot : ∀ account, op ≠ .reset account := by
    rintro account rfl
    cases hlimit
  rw [body_eq hnot] at hgoes
  obtain ⟨n, hn, hsaid⟩ := (passed_of_goes (by simp [hprod]) hgoes).2 _ hlimit
  obtain ⟨e', he', hc', hk', hheard⟩ := Exchange.mem_said.1 hsaid
  obtain rfl : e = e' := Exchange.entry_unique (count_of_reaches hr i) he hc hk he' hc' hk'
  refine ⟨e, List.mem_filter.2 ⟨he, ?_⟩, hc⟩
  simp [Entry.hits, hk, Entry.answer_of_heard hheard, hn, ha, hb]

/-- Nobody is turned away for nothing: Redis has failed the call, or has counted it beyond the limit of one
of its keys, and with it more calls of its kind than the limit in the quarter of an hour up to its own. -/
theorem refused_overused (hr : Reaches env E t₀ s) {i : ℕ} {op : Op} (hi : s.clients i = some (op, .done (some false))) :
    (env.production = true ∧ ∃ e ∈ s.log, e.client = i ∧ e.heard = none) ∨
    ∃ k limit, (k, limit) ∈ limits env op ∧ ∃ e ∈ s.log, e.client = i ∧ e.request = .hit k window ∧
      (∃ n, e.answer = some n ∧ limit < n) ∧
      ∃ A : Finset ℕ, limit < A.card ∧ ∀ j ∈ A, ∃ op' p, s.clients j = some (op', p) ∧ op'.flow = op.flow ∧
        (k, limit) ∈ limits env op' ∧ ∃ e' ∈ s.log, e'.client = j ∧ e'.request = .hit k window ∧
          e'.answer.isSome = true ∧ e.time - window ≤ e'.time ∧ e'.time ≤ e.time := by
  have hgoes := (Exchange.onCourse_of_reaches hr).goes _ _ _ hi
  have hnot : ∀ account, op ≠ .reset account := by
    rintro account rfl
    exact reset_answers_nothing hgoes
  rw [body_eq hnot] at hgoes
  rcases refused_of_goes hgoes with ⟨hprod, c, hc⟩ | hok | ⟨⟨k, limit⟩, hl, n, hn, hsaid⟩
  · obtain ⟨e, he, hc, -, hheard⟩ := Exchange.mem_said.1 hc
    exact Or.inl ⟨by simpa using hprod, e, he, hc, hheard⟩
  · cases hok
  · obtain ⟨e, he, hc, hk, hheard⟩ := Exchange.mem_said.1 hsaid
    have hans := Entry.answer_of_heard hheard
    have hle : n ≤ (recent k window e.time s.log).length :=
      answer_le_recent (by decide) hr (oneWindow_of_reaches hr) he (by simp [Entry.hits, hk, hans]) hans
    have hhit : ∀ e' : Entry Time Request ℕ, (e'.hits k window && (e.time - window ≤ e'.time && e'.time ≤ e.time)) = true →
        e'.request = .hit k window ∧ e'.answer.isSome = true ∧ e.time - window ≤ e'.time ∧ e'.time ≤ e.time := by
      intro e' he'
      simp only [Entry.hits, Bool.and_eq_true, decide_eq_true_eq] at he'
      exact ⟨he'.1.1, he'.1.2, he'.2⟩
    obtain ⟨A, hcard, hA⟩ := Exchange.exists_clients (fun e' he' => (hhit e' he').1) (count_of_reaches hr)
    refine Or.inr ⟨k, limit, hl, e, he, hc, hk, ⟨n, hans, hn⟩, A, hcard ▸ lt_of_lt_of_le hn hle, fun j hj => ?_⟩
    obtain ⟨e', he', hp, hj⟩ := hA j hj
    obtain ⟨hk', hserved, hafter, hbefore⟩ := hhit e' hp
    obtain ⟨op', p, hop', ⟨⟨k', limit'⟩, hl', heq⟩ | ⟨account, -, heq⟩⟩ := request_of_reaches hr he'
    · obtain rfl : k = k' := (Command.hit.inj (hk'.symm.trans heq)).1
      obtain ⟨hflow, rfl⟩ := limits_agree hl hl'
      exact ⟨op', p, hj ▸ hop', hflow, hl', e', he', hj, hk', hserved, hafter, hbefore⟩
    · cases hk'.symm.trans heq

end Runs

namespace Demo

/-- Production; a deadline is over when it is reached. -/
def env : Env := ⟨id, true⟩

def expiry : Expiry Time where
  passed now deadline := decide (deadline ≤ now)
  passed_of_lt h := decide_eq_true h.le
  not_passed_of_lt h := decide_eq_false (not_le.2 h)

/-- Login number `i` for the account "a" from nowhere known, in second `t`. -/
def login (t : ℤ) (i : ℕ) : List (Exchange.Turn Time Op) :=
  [.start i (.login "a" none), .serve i (seconds t) true, .serve i (seconds t) true, .serve i (seconds t) true]

/-- Eleven logins in a row. -/
def guesses : Calls :=
  Exchange.play (Counters.answer expiry) (body env) { store := fun _ => none, now := 0 }
    ((List.range 11).flatMap (login 1))

theorem reaches_guesses : Reaches env expiry 0 guesses := Exchange.reaches_play _ _

/-- What the call has answered. -/
def result (s : Calls) (i : ℕ) : Option (Op × Bool) :=
  match s.clients i with
  | some (op, .done (some b)) => some (op, b)
  | _ => none

theorem ended_of_result {s : Calls} {i : ℕ} {op : Op} {b : Bool} (h : result s i = some (op, b)) :
    s.clients i = some (op, .done (some b)) := by
  unfold result at h
  split at h
  · rename_i op c hi
    cases h
    exact hi
  · cases h

end Demo

theorem refused_overused_guesses : ∃ k limit, ∃ A : Finset ℕ, limit < A.card ∧ ∀ j ∈ A, ∃ op p,
    Demo.guesses.clients j = some (op, p) ∧ op.flow = .login ∧ (k, limit) ∈ limits Demo.env op ∧
      ∃ e ∈ Demo.guesses.log, e.client = j ∧ e.answer.isSome = true := by
  have hresult : Demo.result Demo.guesses 10 = some (.login "a" none, false) := by decide +kernel
  rcases refused_overused Demo.reaches_guesses (Demo.ended_of_result hresult) with
    ⟨-, e, he, -, hlost⟩ | ⟨k, limit, -, e, he, -, -, -, A, hA, hall⟩
  · have hheard : ∀ e ∈ Demo.guesses.log, e.heard ≠ none := by decide +kernel
    exact absurd hlost (hheard e he)
  · refine ⟨k, limit, A, hA, fun j hj => ?_⟩
    obtain ⟨op', p, hop', hflow, hl, e', he', hc, -, hserved, -⟩ := hall j hj
    exact ⟨op', p, hop', hflow, hl, e', he', hc, hserved⟩

/-- A login opens a window; nine follow in its last second, and ten more when the next one opens. -/
def Demo.boundary : Calls :=
  Exchange.play (Counters.answer Demo.expiry) (body Demo.env) { store := fun _ => none, now := 0 }
    (Demo.login 1 19 ++ (List.range 19).flatMap fun i => Demo.login (if i < 9 then 900 else 901) i)

/-- Nineteen logins pass within two seconds; one more would be twice the limit. -/
theorem passed_le_boundary : (∀ i ∈ Finset.range 19, Passed Demo.env Demo.boundary (key Demo.env "account" "a")
    accountLimit (seconds 900) i) ∧ (Finset.range 19).card ≤ 2 * accountLimit := by
  have hresult : ∀ i ∈ Finset.range 19, Demo.result Demo.boundary i = some (.login "a" none, true) := by
    decide +kernel
  have hhit : ∀ i ∈ Finset.range 19, ∃ e ∈ Demo.boundary.log, e.client = i ∧
      e.request = .hit (key Demo.env "account" "a") window ∧ seconds 900 ≤ e.time ∧ e.time < seconds 900 + window := by
    decide +kernel
  have hpassed : ∀ i ∈ Finset.range 19, Passed Demo.env Demo.boundary (key Demo.env "account" "a") accountLimit
      (seconds 900) i :=
    fun i hi => ⟨.login "a" none, Demo.ended_of_result (hresult i hi), List.mem_cons_self, hhit i hi⟩
  have hclear : ∀ e ∈ Demo.boundary.log, e.request ≠ .clear (key Demo.env "account" "a") := by decide +kernel
  exact ⟨hpassed, passed_le rfl (Exchange.reaches_play _ _) (fun _ _ e he hc => absurd hc (hclear e he)) hpassed⟩

end OmniDB.Limiter
