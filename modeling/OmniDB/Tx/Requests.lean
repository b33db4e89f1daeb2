import Mathlib.Data.Finset.Card
import Mathlib.Data.Nat.Notation
import Mathlib.Logic.Function.Basic
import Mathlib.Logic.Relation
import Mathlib.Order.Defs.LinearOrder
import Mathlib.Tactic.SplitIfs

/-! Programs that talk to one server. A client sends one request after the other, and the server
answers the requests of all clients one at a time. A request may be lost, before or after the server
has served it; the client then learns no answer. -/

namespace Tx

/-- What a client does: it ends, or it sends a request and goes on with the answer, or with none. -/
inductive Talk (ι ο α : Type) where
  | done (a : α)
  | ask (c : ι) (next : Option ο → Talk ι ο α)

namespace Talk

variable {ι ο α β : Type}

def bind : Talk ι ο α → (α → Talk ι ο β) → Talk ι ο β
  | done a, f => f a
  | ask c next, f => ask c fun o => (next o).bind f

instance : Monad (Talk ι ο) where
  pure := done
  bind := bind

/-- Send a request; one that is lost raises. -/
def send (c : ι) : ExceptT Unit (Talk ι ο) ο :=
  ask c fun
    | some o => done (.ok o)
    | none => done (.error ())

/-- `try: return p; except Exception: return a`. -/
def rescue (a : α) (p : ExceptT Unit (Talk ι ο) α) : Talk ι ο α :=
  Talk.bind p fun
    | .ok b => done b
    | .error _ => done a

/-- The client has sent these requests, heard these answers, and goes on from `q`. -/
inductive Goes : Talk ι ο α → List (ι × Option ο) → Talk ι ο α → Prop
  | here (p : Talk ι ο α) : Goes p [] p
  | ask {c : ι} {next : Option ο → Talk ι ο α} {o : Option ο} {as : List (ι × Option ο)} {q : Talk ι ο α}
      (h : Goes (next o) as q) : Goes (.ask c next) ((c, o) :: as) q

theorem Goes.snoc {p : Talk ι ο α} {as : List (ι × Option ο)} {c : ι} {next : Option ο → Talk ι ο α}
    (h : Goes p as (.ask c next)) (o : Option ο) : Goes p (as ++ [(c, o)]) (next o) := by
  generalize hq : Talk.ask c next = q at h
  induction h with
  | here p =>
    subst hq
    exact .ask (.here _)
  | ask _ ih => exact .ask (ih hq)

end Talk

/-- A request that was sent: `answer` is what the server answered, if it has served the request, and
`received` whether the client got to know it. -/
structure Entry (τ ι ο : Type) where
  client : ℕ
  time : τ
  request : ι
  answer : Option ο
  received : Bool

/-- What the client heard. -/
def Entry.heard {τ ι ο : Type} (e : Entry τ ι ο) : Option ο := if e.received then e.answer else none

theorem Entry.answer_of_heard {τ ι ο : Type} {e : Entry τ ι ο} {o : ο} (h : e.heard = some o) : e.answer = some o := by
  unfold Entry.heard at h
  split_ifs at h
  exact h

/-- The server's store and clock, the clients with what they were started for, and all requests,
newest first. -/
structure Exchange (σ τ ι ο α ω : Type) where
  store : σ
  now : τ
  log : List (Entry τ ι ο) := []
  clients : ℕ → Option (ω × Talk ι ο α) := fun _ => none

namespace Exchange

variable {σ τ ι ο α ω : Type}

/-- Client `i`, started for `op`, now stands at `p`. -/
def resume (s : Exchange σ τ ι ο α ω) (i : ℕ) (op : ω) (p : Talk ι ο α) : Exchange σ τ ι ο α ω :=
  { s with clients := Function.update s.clients i (some (op, p)) }

/-- The entry is logged at time `t`, and leaves `v`. -/
def record (s : Exchange σ τ ι ο α ω) (t : τ) (v : σ) (e : Entry τ ι ο) : Exchange σ τ ι ο α ω :=
  { s with store := v, now := t, log := e :: s.log }

@[simp] theorem clients_resume_self (s : Exchange σ τ ι ο α ω) (i : ℕ) (op : ω) (p : Talk ι ο α) :
    (s.resume i op p).clients i = some (op, p) := Function.update_self ..

theorem clients_resume_ne (s : Exchange σ τ ι ο α ω) {i j : ℕ} (op : ω) (p : Talk ι ο α) (h : i ≠ j) :
    (s.resume i op p).clients j = s.clients j := Function.update_of_ne (Ne.symm h) ..

/-- One step, of a server that answers by `answer`. -/
inductive Step [LE τ] (answer : τ → ι → σ → ο × σ) (body : ω → Talk ι ο α) :
    Exchange σ τ ι ο α ω → Exchange σ τ ι ο α ω → Prop
  | start {s : Exchange σ τ ι ο α ω} (i : ℕ) (op : ω) (h : s.clients i = none) :
      Step answer body s (s.resume i op (body op))
  | served {s : Exchange σ τ ι ο α ω} {i : ℕ} {op : ω} {c : ι} {next : Option ο → Talk ι ο α} (t : τ) (received : Bool)
      (h : s.clients i = some (op, .ask c next)) (ht : s.now ≤ t) :
      Step answer body s ((s.record t (answer t c s.store).2 ⟨i, t, c, some (answer t c s.store).1, received⟩).resume i op
        (next (Entry.heard ⟨i, t, c, some (answer t c s.store).1, received⟩)))
  | lost {s : Exchange σ τ ι ο α ω} {i : ℕ} {op : ω} {c : ι} {next : Option ο → Talk ι ο α} (t : τ)
      (h : s.clients i = some (op, .ask c next)) (ht : s.now ≤ t) :
      Step answer body s ((s.record t s.store ⟨i, t, c, none, false⟩).resume i op (next none))

/-! ## Schedules -/

/-- A turn of a schedule: client `i` starts, or the request it has ready is served or lost at time `t`. -/
inductive Turn (τ ω : Type) where
  | start (i : ℕ) (op : ω)
  | serve (i : ℕ) (t : τ) (received : Bool)
  | lose (i : ℕ) (t : τ)

/-- Play a schedule; turns that cannot be taken are passed over. -/
def play [LE τ] [DecidableLE τ] (answer : τ → ι → σ → ο × σ) (body : ω → Talk ι ο α) :
    Exchange σ τ ι ο α ω → List (Turn τ ω) → Exchange σ τ ι ο α ω
  | s, [] => s
  | s, .start i op :: ts =>
    match s.clients i with
    | none => play answer body (s.resume i op (body op)) ts
    | some _ => play answer body s ts
  | s, .serve i t received :: ts =>
    match s.clients i with
    | some (op, .ask c next) =>
      if s.now ≤ t then
        let e : Entry τ ι ο := ⟨i, t, c, some (answer t c s.store).1, received⟩
        play answer body ((s.record t (answer t c s.store).2 e).resume i op (next e.heard)) ts
      else play answer body s ts
    | _ => play answer body s ts
  | s, .lose i t :: ts =>
    match s.clients i with
    | some (op, .ask c next) =>
      if s.now ≤ t then
        play answer body ((s.record t s.store ⟨i, t, c, none, false⟩).resume i op (next none)) ts
      else play answer body s ts
    | _ => play answer body s ts

section Runs

variable [LE τ] {answer : τ → ι → σ → ο × σ} {body : ω → Talk ι ο α} {s s' : Exchange σ τ ι ο α ω} {v : σ} {t₀ : τ}

def Reaches (answer : τ → ι → σ → ο × σ) (body : ω → Talk ι ο α) (s s' : Exchange σ τ ι ο α ω) : Prop :=
  Relation.ReflTransGen (Step answer body) s s'

/-- What every request keeps of the store, the clock and the log holds in every state of a run. -/
theorem invariant_of_reaches {I : σ → τ → List (Entry τ ι ο) → Prop} (hI : I v t₀ [])
    (served : ∀ x now log i t c received, I x now log → now ≤ t →
      I (answer t c x).2 t (⟨i, t, c, some (answer t c x).1, received⟩ :: log))
    (lost : ∀ x now log i t c, I x now log → now ≤ t → I x t (⟨i, t, c, none, false⟩ :: log))
    (h : Reaches answer body { store := v, now := t₀ } s) : I s.store s.now s.log := by
  induction h with
  | refl => exact hI
  | tail _ hs ih =>
    cases hs with
    | start => exact ih
    | served t received _ ht => exact served _ _ _ _ t _ received ih ht
    | lost t _ ht => exact lost _ _ _ _ t _ ih ht

/-- What client `i` has sent and heard, oldest first. -/
def said (log : List (Entry τ ι ο)) (i : ℕ) : List (ι × Option ο) :=
  ((log.filter fun e => e.client = i).map fun e => (e.request, e.heard)).reverse

omit [LE τ] in
theorem said_cons_self (log : List (Entry τ ι ο)) (e : Entry τ ι ο) :
    said (e :: log) e.client = said log e.client ++ [(e.request, e.heard)] := by
  simp [said]

omit [LE τ] in
theorem said_cons_ne {log : List (Entry τ ι ο)} {e : Entry τ ι ο} {i : ℕ} (h : e.client ≠ i) :
    said (e :: log) i = said log i := by
  simp [said, h]

/-- A client that has not started has sent nothing, and the others are where their answers lead. -/
structure OnCourse (body : ω → Talk ι ο α) (s : Exchange σ τ ι ο α ω) : Prop where
  idle : ∀ i, s.clients i = none → said s.log i = []
  goes : ∀ i op p, s.clients i = some (op, p) → (body op).Goes (said s.log i) p

omit [LE τ] in
theorem OnCourse.record {i : ℕ} {op : ω} {c : ι} {next : Option ο → Talk ι ο α} (h : OnCourse body s)
    (hi : s.clients i = some (op, .ask c next)) {t : τ} {x : σ} {e : Entry τ ι ο} (he : e.client = i)
    (hc : e.request = c) : OnCourse body ((s.record t x e).resume i op (next e.heard)) := by
  subst he hc
  refine ⟨fun j hj => ?_, fun j op' p hj => ?_⟩ <;> by_cases hji : e.client = j
  · subst hji
    simp at hj
  · rw [clients_resume_ne _ _ _ hji] at hj
    exact (said_cons_ne hji).trans (h.idle j hj)
  · subst hji
    simp only [clients_resume_self, Option.some.injEq, Prod.mk.injEq] at hj
    obtain ⟨rfl, rfl⟩ := hj
    exact (said_cons_self ..).symm ▸ (h.goes _ _ _ hi).snoc _
  · rw [clients_resume_ne _ _ _ hji] at hj
    exact (said_cons_ne hji).symm ▸ h.goes j op' p hj

/-- Every client of every run is where its answers lead. -/
theorem onCourse_of_reaches (h : Reaches answer body { store := v, now := t₀ } s) : OnCourse body s := by
  induction h with
  | refl => exact ⟨fun _ _ => rfl, fun i op p hi => by cases hi⟩
  | tail _ hs ih =>
    cases hs with
    | start i op hi =>
      refine ⟨fun j hj => ?_, fun j op' p hj => ?_⟩ <;> by_cases hij : i = j
      · subst hij
        simp at hj
      · rw [clients_resume_ne _ _ _ hij] at hj
        exact ih.idle j hj
      · subst hij
        simp only [clients_resume_self, Option.some.injEq, Prod.mk.injEq] at hj
        obtain ⟨rfl, rfl⟩ := hj
        exact (ih.idle i hi).symm ▸ .here _
      · rw [clients_resume_ne _ _ _ hij] at hj
        exact ih.goes j op' p hj
    | served t received hi _ => exact ih.record hi rfl rfl
    | lost t hi _ => exact ih.record hi rfl rfl

omit [LE τ] in
theorem mem_said {log : List (Entry τ ι ο)} {i : ℕ} {c : ι} {o : Option ο} :
    (c, o) ∈ said log i ↔ ∃ e ∈ log, e.client = i ∧ e.request = c ∧ e.heard = o := by
  simp [said, and_assoc]

omit [LE τ] in
/-- Clients with an entry each are at most as many as the entries. -/
theorem card_le_length {log : List (Entry τ ι ο)} {A : Finset ℕ} (h : ∀ i ∈ A, ∃ e ∈ log, e.client = i) :
    A.card ≤ log.length := by
  have hsub : A ⊆ (log.map Entry.client).toFinset := fun i hi => by
    obtain ⟨e, he, hc⟩ := h i hi
    exact List.mem_toFinset.2 (List.mem_map.2 ⟨e, he, hc⟩)
  calc A.card ≤ (log.map Entry.client).toFinset.card := Finset.card_le_card hsub
    _ ≤ (log.map Entry.client).length := List.toFinset_card_le _
    _ = log.length := List.length_map ..

omit [LE τ] in
/-- The requests `c` of a client, in what it has sent. -/
theorem count_said [DecidableEq ι] (log : List (Entry τ ι ο)) (i : ℕ) (c : ι) :
    ((said log i).map Prod.fst).count c = log.countP fun e => e.client = i && e.request = c := by
  simp only [said, List.map_reverse, List.map_map, List.count, List.countP_reverse, List.countP_map, List.countP_filter]
  refine List.countP_congr fun e _ => ?_
  simp [and_comm]

omit [LE τ] in
/-- A request that the client sends once has one entry. -/
theorem entry_unique [DecidableEq ι] {log : List (Entry τ ι ο)} {i : ℕ} {c : ι}
    (h : ((said log i).map Prod.fst).count c ≤ 1) {e e' : Entry τ ι ο} (he : e ∈ log) (hi : e.client = i)
    (hc : e.request = c) (he' : e' ∈ log) (hi' : e'.client = i) (hc' : e'.request = c) : e = e' := by
  rw [count_said, List.countP_eq_length_filter] at h
  have hmem : e ∈ log.filter fun e => e.client = i && e.request = c := List.mem_filter.2 ⟨he, by simp [hi, hc]⟩
  have hmem' : e' ∈ log.filter fun e => e.client = i && e.request = c := List.mem_filter.2 ⟨he', by simp [hi', hc']⟩
  obtain ⟨d, hd⟩ := List.length_eq_one_iff.1 (le_antisymm h (List.length_pos_of_mem hmem))
  rw [hd] at hmem hmem'
  exact (List.mem_singleton.1 hmem).trans (List.mem_singleton.1 hmem').symm

omit [LE τ] in
/-- Entries for one request, which no client sends twice, are of as many clients. -/
theorem exists_clients [DecidableEq ι] {log : List (Entry τ ι ο)} {c : ι} {p : Entry τ ι ο → Bool}
    (hp : ∀ e, p e = true → e.request = c) (h : ∀ i, ((said log i).map Prod.fst).count c ≤ 1) :
    ∃ A : Finset ℕ, A.card = (log.filter p).length ∧ ∀ i ∈ A, ∃ e ∈ log, p e = true ∧ e.client = i := by
  have hnodup : ((log.filter p).map Entry.client).Nodup := by
    refine List.nodup_iff_count_le_one.2 fun i => le_trans ?_ (h i)
    rw [count_said, List.count, List.countP_map, List.countP_filter]
    refine List.countP_mono_left fun e _ he => ?_
    simp only [Function.comp_apply, Bool.and_eq_true, beq_iff_eq] at he
    simp [hp e he.2, he.1]
  refine ⟨((log.filter p).map Entry.client).toFinset, ?_, fun i hi => ?_⟩
  · rw [List.toFinset_card_of_nodup hnodup, List.length_map]
  · obtain ⟨e, he, hc⟩ := List.mem_map.1 (List.mem_toFinset.1 hi)
    obtain ⟨he, hpe⟩ := List.mem_filter.1 he
    exact ⟨e, he, hpe, hc⟩

theorem reaches_play [DecidableLE τ] (ts : List (Turn τ ω)) (s : Exchange σ τ ι ο α ω) :
    Reaches answer body s (play answer body s ts) := by
  induction ts generalizing s with
  | nil => exact .refl
  | cons turn ts ih =>
    cases turn with
    | start i op =>
      unfold play
      split
      · rename_i h
        exact (ih _).head (.start i op h)
      · exact ih s
    | serve i t received =>
      unfold play
      split
      · rename_i op c next h
        split_ifs with ht
        · exact (ih _).head (.served t received h ht)
        · exact ih s
      · exact ih s
    | lose i t =>
      unfold play
      split
      · rename_i op c next h
        split_ifs with ht
        · exact (ih _).head (.lost t h ht)
        · exact ih s
      · exact ih s

end Runs

end Exchange

end Tx
