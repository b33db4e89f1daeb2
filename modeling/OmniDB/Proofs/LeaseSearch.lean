import Mathlib.Data.Finset.Card
import OmniDB.Proofs.LeaseOrder
import OmniDB.Tx.Paths

/-! The search for work while other transactions hold locks and commit. Each round of a loop
takes the least row that is left; a row is passed over for a reason, and once; and the search
ends. -/

namespace OmniDB.Work

open Tx
open Tx.Prog

/-- The answers a body of the service is given on its way. -/
abbrev Answers := List (Answer Db LockKey)

/-- One of the statements saw a state like this. -/
def Saw (as : Answers) (P : Db → Prop) : Prop := ∃ n v, Answer.read n v ∈ as ∧ P v

section Statements

variable {ρ : Type} [Keyed ρ Uuid] {n : String} {key : Uuid → LockKey} {table : Db → List ρ}

@[simp] theorem along_getRow {id : Uuid} {Q : Answers → Except Err (Option ρ) → Prop} :
    (getRow n table id).Along Q ↔ ∀ v, Q [.read n v] (.ok (Table.find (table v) id)) := by
  unfold getRow
  rw [along_bind]
  exact Iff.rfl

@[simp] theorem along_activeSuppressionExists {phone : Fingerprint} {Q : Answers → Except Err Bool → Prop} :
    (activeSuppressionExists phone).Along Q ↔
      ∀ v, Q [.read "_active_suppression_exists" v] (.ok (v.suppressed phone)) := by
  unfold activeSuppressionExists
  rw [along_bind]
  exact Iff.rfl

@[simp] theorem along_selectSkipLocked {cond : ρ → Bool} {id : Uuid} {Q : Answers → Except Err (Option ρ) → Prop} :
    (selectSkipLocked n key table cond id).Along Q ↔ ∀ v,
      ((Table.find (table v) id).filter cond = none → Q [.read n v] (.ok none)) ∧
      ∀ r, (Table.find (table v) id).filter cond = some r →
        Q [.read n v, .tried (key id) false] (.ok none) ∧
        ∀ v', Q [.read n v, .tried (key id) true, .read (n ++ " (locked)") v']
          (.ok ((Table.find (table v') id).filter cond)) := by
  unfold selectSkipLocked
  simp only [along_bind, along_getRow]
  refine forall_congr' fun v => ?_
  cases hr : Table.find (table v) id with
  | none => simp
  | some r =>
    cases hc : cond r
    · simp [hc, Option.filter]
    · simp [hc, along_bind]
      exact fun _ => Iff.rfl

section Saw

variable {as as' : Answers} {P : Db → Prop}

@[simp] theorem saw_read {n : String} {v : Db} : Saw (.read n v :: as) P ↔ P v ∨ Saw as P := by
  unfold Saw
  constructor
  · rintro ⟨m, u, hu, hP⟩
    rcases List.mem_cons.1 hu with h | hu
    · cases h
      exact Or.inl hP
    · exact Or.inr ⟨m, u, hu, hP⟩
  · rintro (hP | ⟨m, u, hu, hP⟩)
    · exact ⟨n, v, List.mem_cons_self, hP⟩
    · exact ⟨m, u, List.mem_cons_of_mem _ hu, hP⟩

@[simp] theorem saw_tried {k : LockKey} {b : Bool} : Saw (.tried k b :: as) P ↔ Saw as P := by
  simp [Saw]

theorem Saw.append_right (h : Saw as' P) : Saw (as ++ as') P := by
  obtain ⟨n, v, hv, hP⟩ := h
  exact ⟨n, v, List.mem_append_right _ hv, hP⟩

end Saw

/-- The rows that `FOR UPDATE` locks one after the other: each was seen to meet the condition, and one
that is missing at the end was seen not to. -/
theorem along_lockRows {cond : Db → ρ → Bool} {sort : List ρ → List ρ} (hsort : ∀ rows, (sort rows).Perm rows) :
    (lockRows n false key table cond sort).Along fun as r => ∃ rows, r = .ok rows ∧
      Saw as fun v =>
        (∀ a ∈ rows, Saw as fun v' => Table.find (table v') (Tx.key a) = some a ∧ cond v a = true) ∧
        (rows = [] → ∀ a ∈ table v, cond v a = true →
          Saw as fun v' => (Table.find (table v') (Tx.key a)).filter (cond v) = none) := by
  have hloop : ∀ (v : Db) (rs acc : List ρ), (rs.foldlM (lockRow n false key table (cond v)) acc).Along fun as r =>
      ∃ rows, r = .ok rows ∧
        (∀ a ∈ rows, a ∈ acc ∨ Saw as fun v' => Table.find (table v') (Tx.key a) = some a ∧ cond v a = true) ∧
        (rows = [] → acc = [] ∧ ∀ a ∈ rs,
          Saw as fun v' => (Table.find (table v') (Tx.key a)).filter (cond v) = none) := by
    intro v rs
    induction rs with
    | nil =>
      intro acc
      exact (along_pure acc).2 ⟨acc, rfl, fun a ha => Or.inl ha, fun h => ⟨h, fun a ha => absurd ha List.not_mem_nil⟩⟩
    | cons b rs ih =>
      intro acc
      rw [List.foldlM_cons, along_bind]
      unfold lockRow
      simp only [Bool.false_eq_true, if_false, along_bind, along_acquire, along_pure, if_true, along_getRow,
        List.append_nil, List.nil_append]
      intro v'
      refine (ih _).mono fun as r h => ?_
      obtain ⟨rows, hr, hrows, hend⟩ := h
      refine ⟨rows, hr, fun a ha => ?_, fun hnil => ?_⟩
      · rcases hrows a ha with hacc | hseen
        · rcases List.mem_append.1 hacc with hacc | hrow
          · exact Or.inl hacc
          · obtain ⟨hfind, hcond⟩ := Option.filter_eq_some_iff.1 (Option.mem_toList.1 hrow)
            have hkey : Tx.key a = Tx.key b := Table.key_of_find hfind
            exact Or.inr (saw_read.2 (Or.inl ⟨hkey ▸ hfind, hcond⟩))
        · exact Or.inr hseen.append_right
      · obtain ⟨hacc, hrest⟩ := hend hnil
        rw [List.append_eq_nil_iff, Option.toList_eq_nil_iff] at hacc
        refine ⟨hacc.1, fun a ha => ?_⟩
        rcases List.mem_cons.1 ha with rfl | ha
        · exact saw_read.2 (Or.inl hacc.2)
        · exact (hrest a ha).append_right
  unfold lockRows
  rw [along_bind]
  intro v
  refine (hloop v _ []).mono fun as r h => ?_
  obtain ⟨rows, hr, hrows, hend⟩ := h
  refine ⟨rows, hr, saw_read.2 (Or.inl ⟨fun a ha => ?_, fun hnil a ha hc => ?_⟩)⟩
  · rcases hrows a ha with hacc | hseen
    · exact absurd hacc List.not_mem_nil
    · exact saw_read.2 (Or.inr hseen)
  · exact ((hend hnil).2 a ((hsort _).mem_iff.2 (List.mem_filter.2 ⟨ha, hc⟩))).append_right

end Statements

/-! ## Why a candidate is passed over -/

/-- The item was seen to be of this campaign contact. -/
structure SawContact (as : Answers) (item : Uuid) (w : WorkItem) (cc : CampaignContact) : Prop where
  row : Saw as fun v => Table.find v.workItems item = some w
  contact : Saw as fun v => v.campaignContact w = some cc

/-- A reason to pass over a candidate: its phone or its row is held by another transaction, the row
has changed, or the campaign or the suppression of the phone has. -/
inductive PassedOver (agent : Uuid) (now : Time) (src : Source) (l : LeaseCandidate) (as : Answers) : Prop
  | phoneHeld (h : Answer.tried (.phone l.phoneFingerprint) false ∈ as)
  | rowHeld (h : Answer.tried (.workItem l.workItemId) false ∈ as)
  | changed (h : Saw as fun v => (Table.find v.workItems l.workItemId).filter (fun w => src.conditions agent now w) = none)
  | inactive {w : WorkItem} {cc : CampaignContact} (hs : SawContact as l.workItemId w cc)
      (h : Saw as fun v => activeCampaign v cc.campaignId = false)
  | suppressed {w : WorkItem} {cc : CampaignContact} {k : Contact} (hs : SawContact as l.workItemId w cc)
      (hk : Saw as fun v => v.contact cc = some k) (h : Saw as fun v => v.suppressed k.phoneFingerprint = true)

/-- Every assignment that was effective was seen to be so no longer when its row was free. -/
def Unassigned (agent : Uuid) (t : Time) (campaign : Uuid) (as : Answers) : Prop :=
  Saw as fun v => ∀ a ∈ v.userAssignments, agentAssignment agent t a = true → a.campaignId = campaign →
    Saw as fun v' => (Table.find v'.userAssignments a.id).filter
      (fun a => agentAssignment agent t a && a.campaignId = campaign) = none

/-- The same of the primary assignments. -/
def NoPrimary (agent : Uuid) (t : Time) (as : Answers) : Prop :=
  Saw as fun v => ∀ a ∈ v.userAssignments, agentAssignment agent t a = true → a.assignmentType = "primary" →
    Saw as fun v' => (Table.find v'.userAssignments a.id).filter
      (fun a => agentAssignment agent t a && a.assignmentType = "primary") = none

/-- The row of the primary assignment, when it was locked. -/
def Primary (agent : Uuid) (t : Time) (a : CampaignUserAssignment) (as : Answers) : Prop :=
  Saw as fun v => Table.find v.userAssignments a.id = some a ∧ agentAssignment agent t a = true ∧
    a.assignmentType = "primary"

theorem PassedOver.mono {agent : Uuid} {now : Time} {src : Source} {l : LeaseCandidate} {as as' : Answers}
    (h : PassedOver agent now src l as) : PassedOver agent now src l (as' ++ as) := by
  cases h with
  | phoneHeld h => exact .phoneHeld (List.mem_append_right _ h)
  | rowHeld h => exact .rowHeld (List.mem_append_right _ h)
  | changed h => exact .changed h.append_right
  | inactive hs h => exact .inactive ⟨hs.row.append_right, hs.contact.append_right⟩ h.append_right
  | suppressed hs hk h =>
    exact .suppressed ⟨hs.row.append_right, hs.contact.append_right⟩ hk.append_right h.append_right

section Attempts

variable {c : Call} {agent : Uuid} {now : Time} {src : Source} {l : LeaseCandidate}

/-- How an attempt ends: with the row of the candidate, or with a reason; and it is never out of fuel. -/
structure Attempted (l : LeaseCandidate) (dismissed : Answers → Prop) (as : Answers)
    (r : Except Err (Option Chosen)) : Prop where
  fuel : r ≠ .error .fuelExhausted
  reason : r = .ok none → dismissed as
  item : ∀ ch, r = .ok (some ch) → ch.workItem.id = l.workItemId

/-- How the lock of a candidate ends. -/
structure Locked (agent : Uuid) (now : Time) (src : Source) (l : LeaseCandidate) (as : Answers)
    (r : Except Err (Option (WorkItem × CampaignContact × Contact))) : Prop where
  fuel : r ≠ .error .fuelExhausted
  reason : r = .ok none → PassedOver agent now src l as
  item : ∀ w cc k, r = .ok (some (w, cc, k)) → w.id = l.workItemId

theorem Locked.passed {as : Answers} (h : PassedOver agent now src l as) : Locked agent now src l as (.ok none) :=
  ⟨by simp, fun _ => h, by simp⟩

theorem Locked.raised {as : Answers} (msg : String) : Locked agent now src l as (.error (.workItemError msg)) :=
  ⟨by simp, by simp, by simp⟩

theorem lockLeaseCandidate_along : (lockLeaseCandidate l agent now src).Along (Locked agent now src l) := by
  unfold lockLeaseCandidate
  rw [along_bind, along_tryAcquire]
  intro b
  cases b with
  | false => exact .passed (.phoneHeld List.mem_cons_self)
  | true =>
    dsimp only
    rw [if_pos rfl, along_bind, along_selectSkipLocked]
    intro v
    refine ⟨fun hnone => .passed (.changed ?_), fun w _ => ⟨.passed (.rowHeld ?_), fun v' => ?_⟩⟩
    · exact saw_tried.2 (saw_read.2 (Or.inl hnone))
    · exact List.mem_cons_of_mem _ (List.mem_cons_of_mem _ List.mem_cons_self)
    cases hw : (Table.find v'.workItems l.workItemId).filter (fun w => src.conditions agent now w) with
    | none => exact .passed (.changed (saw_tried.2 (saw_read.2 (Or.inr (saw_tried.2 (saw_read.2 (Or.inl hw)))))))
    | some w =>
      have hrow := (Option.filter_eq_some_iff.1 hw).1
      have hid : w.id = l.workItemId := Table.key_of_find hrow
      dsimp only
      rw [along_bind, along_getRow]
      intro v₁
      dsimp only
      rw [along_bind, along_expect]
      refine ⟨fun _ => .raised _, fun cc hcc => ?_⟩
      dsimp only
      rw [along_bind, along_getRow]
      intro v₂
      dsimp only
      rw [along_bind, along_expect]
      refine ⟨fun _ => .raised _, fun k hk => ?_⟩
      dsimp only
      rw [along_bind, along_getRow]
      intro v₃
      dsimp only
      rw [along_ite]
      have hs : ∀ as, SawContact (.tried (.phone l.phoneFingerprint) true :: ([.read "_lock_lease_candidate" v,
          .tried (.workItem l.workItemId) true, .read ("_lock_lease_candidate" ++ " (locked)") v'] ++
            (.read "campaign_contact" v₁ :: as))) l.workItemId w cc := fun as =>
        ⟨by simp [hrow], by simp [Db.campaignContact, hcc]⟩
      refine ⟨fun _ => ?_, fun hactive => ?_⟩
      · rw [along_bind, along_activeSuppressionExists]
        intro v₄
        dsimp only
        rw [along_ite]
        refine ⟨fun hsup => ?_, fun _ => ⟨by simp, by simp, fun w' cc' k' h => ?_⟩⟩
        · exact .passed (.suppressed (k := k) (hs _) (by simp [Db.contact, hk]) (by simp [hsup]))
        · simp only [Except.ok.injEq, Option.some.injEq, Prod.mk.injEq] at h
          exact h.1 ▸ hid
      · have hinactive : activeCampaign v₃ cc.campaignId = false := decide_eq_false hactive
        exact .passed (.inactive (hs _) (by simp [hinactive]))

theorem tryShared_along {a : CampaignUserAssignment} {skipped : List Uuid} :
    (tryShared agent now a src skipped l).Along (Attempted l (PassedOver agent now src l)) := by
  unfold tryShared
  rw [along_bind]
  refine lockLeaseCandidate_along.mono fun as r hr => ?_
  cases r with
  | error e => exact ⟨fun h => hr.fuel (by simpa using h), by simp, by simp⟩
  | ok o =>
    dsimp only
    cases o with
    | none => exact ⟨by simp, fun _ => by simpa using hr.reason rfl, by simp⟩
    | some found =>
      refine ⟨by simp, by simp, fun ch h => ?_⟩
      obtain rfl : _ = ch := by simpa using h
      exact hr.item _ _ _ rfl

theorem activeAssignmentForCampaign_along {campaign : Uuid} {t : Time} :
    (activeAssignmentForCampaign c agent campaign t).Along fun as r => ∃ o, r = .ok o ∧
      (o = none → Unassigned agent t campaign as) := by
  unfold activeAssignmentForCampaign
  rw [along_bind]
  refine (along_lockRows perm_newestFirst).mono fun as r hr => ?_
  obtain ⟨rows, rfl, n, v, hv, -, hend⟩ := hr
  refine ⟨rows.head?, rfl, fun hnone => ?_⟩
  rw [List.append_nil]
  exact ⟨n, v, hv, fun a ha hagent hcampaign =>
    hend (List.head?_eq_none_iff.1 hnone) a ha (by simp [hagent, hcampaign])⟩

/-- Why a callback is passed over. -/
def CallbackPassed (c : Call) (agent : Uuid) (now : Time) (skipped : List Uuid) (l : LeaseCandidate) (as : Answers) :
    Prop :=
  PassedOver agent now .callback l as ∨ Unassigned agent (c.utcnow (skipped.length + 2)) l.campaignId as

theorem tryCallback_along {skipped : List Uuid} :
    (tryCallback c agent now skipped l).Along (Attempted l (CallbackPassed c agent now skipped l)) := by
  unfold tryCallback
  rw [along_bind]
  refine activeAssignmentForCampaign_along.mono fun as r hr => ?_
  obtain ⟨o, rfl, hnone⟩ := hr
  cases o with
  | none => exact ⟨by simp, fun _ => Or.inr (by simpa using hnone rfl), by simp⟩
  | some a =>
    dsimp only
    rw [along_bind]
    refine lockLeaseCandidate_along.mono fun as' r hr => ?_
    cases r with
    | error e => exact ⟨fun h => hr.fuel (by simpa using h), by simp, by simp⟩
    | ok o =>
      dsimp only
      cases o with
      | none => exact ⟨by simp, fun _ => Or.inl (by simpa using (hr.reason rfl).mono), by simp⟩
      | some found =>
        refine ⟨by simp, by simp, fun ch h => ?_⟩
        obtain rfl : _ = ch := by simpa using h
        exact hr.item _ _ _ rfl

end Attempts

/-! ## The rounds of a loop -/

/-- The rounds of a loop that has passed over `skipped`, on one path: `next` is the candidate of a
round, `dismissed` holds of the answers of an attempt that was passed over. -/
inductive Rounds (next : List Uuid → Db → Option LeaseCandidate)
    (dismissed : List Uuid → LeaseCandidate → Answers → Prop) : List Uuid → Answers → Option Chosen → Prop
  | exhausted {skipped : List Uuid} {n : String} {v : Db} (h : next skipped v = none) :
      Rounds next dismissed skipped [.read n v] none
  | taken {skipped : List Uuid} {n : String} {v : Db} {l : LeaseCandidate} {as : Answers} {ch : Chosen}
      (h : next skipped v = some l) (hid : ch.workItem.id = l.workItemId) :
      Rounds next dismissed skipped (.read n v :: as) (some ch)
  | passed {skipped : List Uuid} {n : String} {v : Db} {l : LeaseCandidate} {as as' : Answers} {o : Option Chosen}
      (h : next skipped v = some l) (hdismissed : dismissed skipped l as)
      (hrest : Rounds next dismissed (l.workItemId :: skipped) as' o) :
      Rounds next dismissed skipped (.read n v :: (as ++ as')) o

section Loops

variable {n : String} {next : List Uuid → Db → Option LeaseCandidate} {candidates : List Uuid → Txn (Option LeaseCandidate)}
  {attempt : List Uuid → LeaseCandidate → Txn (Option Chosen)} {dismissed : List Uuid → LeaseCandidate → Answers → Prop}

theorem leaseLoop_along (hcand : ∀ skipped, candidates skipped = next skipped <$> view n)
    (hattempt : ∀ skipped l, (attempt skipped l).Along (Attempted l (dismissed skipped l))) (fuel : ℕ) (skipped : List Uuid) :
    (leaseLoop candidates attempt fuel skipped).Along fun as r => ∀ o, r = .ok o → Rounds next dismissed skipped as o := by
  induction fuel generalizing skipped with
  | zero => exact (along_raise _).2 (by simp)
  | succ fuel ih =>
    unfold leaseLoop
    rw [along_bind, hcand, along_map, along_view]
    intro v
    dsimp only [Except.map]
    cases hnext : next skipped v with
    | none =>
      intro o ho
      cases ho
      exact .exhausted hnext
    | some l =>
      dsimp only
      rw [along_bind]
      refine (hattempt skipped l).mono fun as r hr => ?_
      cases r with
      | error e => exact fun o ho => by cases ho
      | ok o =>
        dsimp only
        cases o with
        | none =>
          refine (ih (l.workItemId :: skipped)).mono fun as' r hrest o ho => ?_
          have hround : Rounds next dismissed skipped (.read n v :: (as ++ as')) o :=
            .passed hnext (hr.reason rfl) (hrest o ho)
          exact hround
        | some ch =>
          intro o ho
          cases ho
          exact .taken hnext (hr.item ch rfl)

/-- A loop whose candidates are all of `S`, and none of them passed over before, ends in time. -/
theorem leaseLoop_ends (hcand : ∀ skipped, candidates skipped = next skipped <$> view n)
    (hattempt : ∀ skipped l, (attempt skipped l).Along (Attempted l (dismissed skipped l))) {S : Finset Uuid} {I : Db → Prop}
    (hnext : ∀ skipped v l, I v → next skipped v = some l → l.workItemId ∈ S ∧ l.workItemId ∉ skipped)
    {fuel : ℕ} {skipped : List Uuid} (hnodup : skipped.Nodup) (hsub : ∀ id ∈ skipped, id ∈ S)
    (hfuel : S.card < fuel + skipped.length) :
    (leaseLoop candidates attempt fuel skipped).Ensures I fun r => r ≠ .error .fuelExhausted := by
  induction fuel generalizing skipped with
  | zero =>
    have hle : skipped.length ≤ S.card := by
      rw [← List.toFinset_card_of_nodup hnodup]
      exact Finset.card_le_card fun id hid => hsub id (List.mem_toFinset.1 hid)
    omega
  | succ fuel ih =>
    unfold leaseLoop
    refine Ensures.bind ?_
    rw [hcand, Ensures, along_map, along_view]
    intro v hI
    have hv : I v := hI n v List.mem_cons_self
    dsimp only [Except.map]
    cases hl : next skipped v with
    | none => exact (ensures_pure _).2 (by simp)
    | some l =>
      obtain ⟨hS, hfresh⟩ := hnext skipped v l hv hl
      refine Ensures.bind (Ensures.of_along ((hattempt skipped l).mono fun as r hr => ?_))
      cases r with
      | error e => exact hr.fuel
      | ok o =>
        cases o with
        | none =>
          refine ih (List.nodup_cons.2 ⟨hfresh, hnodup⟩) (fun id hid => ?_) (by rw [List.length_cons]; omega)
          rcases List.mem_cons.1 hid with rfl | hid
          · exact hS
          · exact hsub id hid
        | some ch => exact (ensures_pure _).2 (by simp)

end Loops

/-! ## The whole call -/

section Call

variable {c : Call} {agent : Uuid} {now : Time} {S : Finset Uuid}

/-- Every work item of the state is one of `S`. -/
def Within (S : Finset Uuid) (x : Db) : Prop := ∀ w ∈ x.workItems, w.id ∈ S

theorem activePrimaryAssignment_along {t : Time} :
    (activePrimaryAssignment c agent t).Along fun as r => ∃ o, r = .ok o ∧
      (o = none → NoPrimary agent t as) ∧ ∀ a, o = some a → Primary agent t a as := by
  unfold activePrimaryAssignment
  rw [along_bind]
  refine (along_lockRows perm_newestFirst).mono fun as r hr => ?_
  obtain ⟨rows, rfl, n, v, hv, hrows, hend⟩ := hr
  refine ⟨rows.head?, rfl, fun hnone => ?_, fun a ha => ?_⟩ <;> rw [List.append_nil]
  · exact ⟨n, v, hv, fun a ha hagent hprimary =>
      hend (List.head?_eq_none_iff.1 hnone) a ha (by simp [hagent, hprimary])⟩
  · obtain ⟨m, u, hu, hfind, hcond⟩ := hrows a (List.mem_of_head? ha)
    rw [Bool.and_eq_true, decide_eq_true_iff] at hcond
    exact ⟨m, u, hu, hfind, hcond⟩

/-- The candidate of a round is a row of the state that has not been passed over. -/
theorem leastCandidate_fresh {β : Type} [LinearOrder β] {key : WorkItem → β} {x : Db} {rows : List WorkItem}
    {skipped : List Uuid} {l : LeaseCandidate} (hrows : ∀ w ∈ rows, w ∈ x.workItems) (hx : Within S x)
    (h : leastCandidate x key (remaining skipped rows) = some l) : l.workItemId ∈ S ∧ l.workItemId ∉ skipped := by
  obtain ⟨w, hw, hl⟩ := Option.bind_eq_some_iff.1 h
  obtain ⟨hw, hfresh⟩ := List.mem_filter.1 (List.argmin_mem hw)
  have hid : l.workItemId = w.id := by
    unfold candidateOf at hl
    obtain ⟨cc, -, hl⟩ := Option.bind_eq_some_iff.1 hl
    obtain ⟨k, -, hl⟩ := Option.bind_eq_some_iff.1 hl
    rw [← Option.some.inj hl]
  rw [hid]
  exact ⟨hx w (hrows w hw), by simpa using hfresh⟩

/-- A loop over the rows of `rows`, least key first, ends in time. -/
theorem candidateLoop_ends {n : String} {β : Type} [LinearOrder β] {key : WorkItem → β} {cond : Db → WorkItem → Bool}
    {candidates : List Uuid → Txn (Option LeaseCandidate)} {attempt : List Uuid → LeaseCandidate → Txn (Option Chosen)}
    {dismissed : List Uuid → LeaseCandidate → Answers → Prop}
    (hcand : ∀ skipped, candidates skipped =
      (fun v => leastCandidate v key (remaining skipped (v.workItems.filter (cond v)))) <$> view n)
    (hattempt : ∀ skipped l, (attempt skipped l).Along (Attempted l (dismissed skipped l))) {fuel : ℕ} (hfuel : S.card < fuel) :
    (leaseLoop candidates attempt fuel []).Ensures (Within S) fun r => r ≠ .error .fuelExhausted :=
  leaseLoop_ends hcand hattempt
    (fun _ _ _ hv h => leastCandidate_fresh (fun _ hw => (List.mem_filter.1 hw).1) hv h)
    List.nodup_nil (fun _ h => absurd h List.not_mem_nil) hfuel

theorem chooseWorkItem_ends {fuel : ℕ} (hfuel : S.card < fuel) :
    (chooseWorkItem c agent now fuel).Ensures (Within S) fun r => r ≠ .error .fuelExhausted := by
  have hqueue : ∀ campaign excluded, nextQueueCandidate c campaign excluded = _ :=
    @nextQueueCandidate_eq c agent now
  have hretry : ∀ campaign excluded, nextDueRetryCandidate c campaign now excluded = _ :=
    @nextDueRetryCandidate_eq c agent now
  unfold chooseWorkItem
  refine Ensures.bind ((candidateLoop_ends nextCallbackCandidate_eq (fun _ _ => tryCallback_along) hfuel).mono fun r hr => ?_)
  cases r with
  | error e => exact hr
  | ok o =>
    cases o with
    | some ch => exact (ensures_pure _).2 (by simp)
    | none =>
      refine Ensures.bind (Ensures.of_along (activePrimaryAssignment_along.mono fun as r hr => ?_))
      obtain ⟨o, rfl, -, -⟩ := hr
      cases o with
      | none => exact (ensures_pure _).2 (by simp)
      | some a =>
        refine Ensures.bind (Ensures.of_along (along_getRow.2 fun v => ?_))
        cases Table.find v.campaigns a.campaignId with
        | none => exact (ensures_pure _).2 (by simp)
        | some k =>
          dsimp only
          split_ifs with hactive
          · refine Ensures.bind ((candidateLoop_ends (hretry k.id) (fun _ _ => tryShared_along) hfuel).mono fun r hr => ?_)
            cases r with
            | error e => exact hr
            | ok o =>
              cases o with
              | some ch => exact (ensures_pure _).2 (by simp)
              | none => exact candidateLoop_ends (hqueue k.id) (fun _ _ => tryShared_along) hfuel
          · exact (ensures_pure _).2 (by simp)

end Call

/-! ### What was searched -/

section Search

variable (c : Call) (agent : Uuid) (now : Time)

/-- The rounds over the callbacks of the agent. -/
abbrev CallbackRounds : List Uuid → Answers → Option Chosen → Prop :=
  Rounds (fun skipped x => leastCandidate x (callbackKey c) (remaining skipped (dueCallbacks x agent now)))
    (CallbackPassed c agent now)

/-- The rounds over the due retries of a campaign. -/
abbrev RetryRounds (campaign : Uuid) : List Uuid → Answers → Option Chosen → Prop :=
  Rounds (fun skipped x => leastCandidate x (retryKey c) (remaining skipped (dueRetries x agent campaign now)))
    fun _ => PassedOver agent now .dueRetry

/-- The rounds over the queue of a campaign. -/
abbrev QueueRounds (campaign : Uuid) : List Uuid → Answers → Option Chosen → Prop :=
  Rounds (fun skipped x => leastCandidate x (queueKey c) (remaining skipped (queued x agent campaign now)))
    fun _ => PassedOver agent now .queue

/-- A search for a work item: callbacks before due retries, and due retries before the queue. One
source is given up for the next only when a statement has found no candidate that is left. -/
inductive Searched : Answers → Option Chosen → Prop
  | callback {as : Answers} {ch : Chosen} (h : CallbackRounds c agent now [] as (some ch)) : Searched as (some ch)
  | unassigned {as as' : Answers} (h : CallbackRounds c agent now [] as none)
      (hnone : NoPrimary agent (c.utcnow 1) as') : Searched (as ++ as') none
  | inactive {as as₁ as₂ : Answers} {a : CampaignUserAssignment} (h : CallbackRounds c agent now [] as none)
      (ha : Primary agent (c.utcnow 1) a as₁) (hk : Saw as₂ fun v => activeCampaign v a.campaignId = false) :
      Searched (as ++ (as₁ ++ as₂)) none
  | dueRetry {as as₁ as₂ : Answers} {a : CampaignUserAssignment} {n : String} {v : Db} {ch : Chosen}
      (h : CallbackRounds c agent now [] as none) (ha : Primary agent (c.utcnow 1) a as₁)
      (hr : RetryRounds c agent now a.campaignId [] as₂ (some ch)) :
      Searched (as ++ (as₁ ++ .read n v :: as₂)) (some ch)
  | queue {as as₁ as₂ as₃ : Answers} {a : CampaignUserAssignment} {n : String} {v : Db} {o : Option Chosen}
      (h : CallbackRounds c agent now [] as none) (ha : Primary agent (c.utcnow 1) a as₁)
      (hr : RetryRounds c agent now a.campaignId [] as₂ none) (hq : QueueRounds c agent now a.campaignId [] as₃ o) :
      Searched (as ++ (as₁ ++ .read n v :: (as₂ ++ as₃))) o

variable {c agent now}

theorem chooseWorkItem_along (fuel : ℕ) : (chooseWorkItem c agent now fuel).Along fun as r =>
    ∀ o, r = .ok o → Searched c agent now as o := by
  have hretry : ∀ campaign excluded, nextDueRetryCandidate c campaign now excluded = _ :=
    @nextDueRetryCandidate_eq c agent now
  have hqueue : ∀ campaign excluded, nextQueueCandidate c campaign excluded = _ :=
    @nextQueueCandidate_eq c agent now
  unfold chooseWorkItem
  rw [along_bind]
  refine (leaseLoop_along nextCallbackCandidate_eq (fun _ _ => tryCallback_along) fuel []).mono fun as r hcb => ?_
  cases r with
  | error e => simp
  | ok o =>
    dsimp only
    have hcb : CallbackRounds c agent now [] as o := hcb o rfl
    cases o with
    | some ch =>
      rw [along_pure, List.append_nil]
      intro o ho
      cases ho
      exact .callback hcb
    | none =>
      dsimp only
      rw [along_bind]
      refine activePrimaryAssignment_along.mono fun as' r hr => ?_
      obtain ⟨o, rfl, hnone, hprimary⟩ := hr
      cases o with
      | none =>
        dsimp only
        rw [along_pure, List.append_nil]
        intro o ho
        cases ho
        exact .unassigned hcb (hnone rfl)
      | some a =>
        have ha : Primary agent (c.utcnow 1) a as' := hprimary a rfl
        dsimp only
        rw [along_bind, along_getRow]
        intro v
        cases hk : Table.find v.campaigns a.campaignId with
        | none =>
          dsimp only
          rw [along_pure]
          intro o ho
          cases ho
          have hinactive : activeCampaign v a.campaignId = false := by simp [activeCampaign, hk]
          exact .inactive hcb ha (saw_read.2 (Or.inl hinactive))
        | some k =>
          have hid : k.id = a.campaignId := Table.key_of_find hk
          dsimp only
          rw [along_ite]
          refine ⟨fun _ => ?_, fun hactive => ?_⟩
          · rw [along_bind]
            refine (leaseLoop_along (hretry k.id) (fun _ _ => tryShared_along) fuel []).mono fun as₂ r hr => ?_
            cases r with
            | error e => simp
            | ok o =>
              have hr : RetryRounds c agent now a.campaignId [] as₂ o := hid ▸ hr o rfl
              cases o with
              | some ch =>
                dsimp only
                rw [along_pure, List.append_nil]
                intro o ho
                cases ho
                exact .dueRetry hcb ha hr
              | none =>
                dsimp only
                refine (leaseLoop_along (hqueue k.id) (fun _ _ => tryShared_along) fuel []).mono fun as₃ r hq o ho => ?_
                have hq : QueueRounds c agent now a.campaignId [] as₃ o := hid ▸ hq o ho
                have hsearched : Searched c agent now (as ++ (as' ++ .read "campaign" v :: (as₂ ++ as₃))) o :=
                  .queue hcb ha hr hq
                exact hsearched
          · rw [along_pure]
            intro o ho
            cases ho
            have hinactive : activeCampaign v a.campaignId = false := by simp [activeCampaign, hk, hactive]
            exact .inactive hcb ha (saw_read.2 (Or.inl hinactive))

/-! ### The call -/

/-- The agent was seen to hold this lease. -/
def Resumed (agent : Uuid) (now : Time) (id : Uuid) (as : Answers) : Prop :=
  Saw as fun v => ∃ w, Table.find v.workItems id = some w ∧ activeLease agent now w = true

/-- What is behind the answer of a call: a lease that was held, or a search. -/
def Behind (c : Call) (agent : Uuid) (as : Answers) : Option LeaseResult → Prop
  | none => ∃ as₁ as₂, as = as₁ ++ as₂ ∧ Searched c agent (c.utcnow 0) as₂ none
  | some r => Resumed agent (c.utcnow 0) r.workItemId as ∨
    ∃ as₁ as₂ as₃ ch, as = as₁ ++ (as₂ ++ as₃) ∧ Searched c agent (c.utcnow 0) as₂ (some ch) ∧
      ch.workItem.id = r.workItemId

theorem along_leaseResult {w : WorkItem} {cc : CampaignContact} {k : Contact} {campaign : Campaign} :
    (leaseResult c w cc k campaign).Along fun as r => r ≠ .error .fuelExhausted ∧ as = [] ∧
      ∀ l, r = .ok l → l.workItemId = w.id := by
  unfold leaseResult
  cases w.leaseId with
  | none => simp
  | some id =>
    cases w.leaseExpiresAt with
    | none => simp
    | some t => simp

theorem along_selectForUpdate {ρ : Type} [Keyed ρ Uuid] {n : String} {key : Uuid → LockKey} {table : Db → List ρ}
    {cond : ρ → Bool} {id : Uuid} {Q : Answers → Except Err (Option ρ) → Prop} :
    (selectForUpdate n key table cond id).Along Q ↔ ∀ v,
      ((Table.find (table v) id).filter cond = none → Q [.read n v] (.ok none)) ∧
      ∀ r, (Table.find (table v) id).filter cond = some r → ∀ v',
        Q [.read n v, .read (n ++ " (locked)") v'] (.ok ((Table.find (table v') id).filter cond)) := by
  unfold selectForUpdate
  simp only [along_bind, along_getRow]
  refine forall_congr' fun v => ?_
  cases hr : Table.find (table v) id with
  | none => simp
  | some r =>
    cases hc : cond r
    · simp [hc, Option.filter]
    · simp [hc, along_bind]
      exact Iff.rfl

/-- How the look for a held lease ends. -/
structure LookedUp (agent : Uuid) (now : Time) (as : Answers) (r : Except Err (Option LeaseResult)) : Prop where
  fuel : r ≠ .error .fuelExhausted
  held : ∀ l, r = .ok (some l) → Resumed agent now l.workItemId as

theorem LookedUp.nothing {as : Answers} : LookedUp agent now as (.ok none) := ⟨by simp, by simp⟩

theorem LookedUp.raised {as : Answers} (msg : String) : LookedUp agent now as (.error (.workItemError msg)) :=
  ⟨by simp, by simp⟩

theorem getActiveLeaseLocked_along : (getActiveLeaseLocked c agent now).Along (LookedUp agent now) := by
  unfold getActiveLeaseLocked activeLeaseCandidate
  rw [along_bind, along_bind, along_view]
  intro v₀
  dsimp only
  rw [along_pure]
  cases hl : firstCandidate v₀ (fun w => c.rank w.id) fun w _ _ => activeLease agent now w with
  | none => exact .nothing
  | some l =>
    dsimp only
    rw [along_bind, along_acquire]
    dsimp only
    rw [along_bind, along_selectForUpdate]
    intro v
    refine ⟨fun _ => .nothing, fun _ _ v' => ?_⟩
    cases hw : (Table.find v'.workItems l.workItemId).filter (activeLease agent now) with
    | none => exact .nothing
    | some w =>
      obtain ⟨hrow, hactive⟩ := Option.filter_eq_some_iff.1 hw
      have hid : w.id = l.workItemId := Table.key_of_find hrow
      dsimp only
      rw [along_bind, along_getRow]
      intro v₁
      dsimp only
      rw [along_bind, along_expect]
      refine ⟨fun _ => .raised _, fun cc _ => ?_⟩
      dsimp only
      rw [along_bind, along_getRow]
      intro v₂
      dsimp only
      rw [along_bind, along_expect]
      refine ⟨fun _ => .raised _, fun k _ => ?_⟩
      dsimp only
      rw [along_bind, along_getRow]
      intro v₃
      cases Table.find v₃.campaigns cc.campaignId with
      | none => exact .nothing
      | some campaign =>
        dsimp only
        rw [along_ite]
        refine ⟨fun _ => ?_, fun _ => .nothing⟩
        rw [along_bind, along_activeSuppressionExists]
        intro v₄
        dsimp only
        rw [along_ite]
        refine ⟨fun _ => .raised _, fun _ => ?_⟩
        rw [along_bind]
        refine along_leaseResult.mono fun as r ⟨hfuel, _, hitem⟩ => ?_
        cases r with
        | error e => exact ⟨fun h => hfuel (by simpa using h), by simp⟩
        | ok res =>
          refine ⟨by simp, fun l' h => ?_⟩
          obtain rfl : res = l' := by simpa using h
          have hres : Table.find v'.workItems res.workItemId = some w := by rw [hitem res rfl, hid, hrow]
          exact ⟨"_get_active_lease_locked" ++ " (locked)", v', by simp, w, hres, hactive⟩

theorem handOut_along {ch : Chosen} : (handOut c agent ch).Along fun _ r =>
    r ≠ .error .fuelExhausted ∧ ∀ o, r = .ok o → ∃ l, o = some l ∧ l.workItemId = ch.workItem.id := by
  unfold handOut setWorkItem flushLease recordAudit
  rw [along_bind, along_update]
  dsimp only
  rw [along_bind, along_bind, along_view]
  intro v
  dsimp only
  rw [along_raiseIf]
  refine ⟨fun _ => by simp [oneActiveLease], fun _ => ?_⟩
  dsimp only
  rw [along_bind, along_getRow]
  intro v₁
  dsimp only
  rw [along_bind, along_expect]
  refine ⟨fun _ => by simp, fun campaign _ => ?_⟩
  dsimp only
  rw [along_bind, along_update]
  dsimp only
  rw [along_bind]
  refine along_leaseResult.mono fun as r ⟨hfuel, _, hitem⟩ => ?_
  cases r with
  | error e => exact ⟨fun h => hfuel (by simpa using h), by simp⟩
  | ok res =>
    refine ⟨by simp, fun o h => ?_⟩
    obtain rfl : some res = o := by simpa using h
    exact ⟨res, rfl, hitem res rfl⟩

theorem leaseNext_along : (leaseNext c agent).Along fun as r => ∀ o, r = .ok o → Behind c agent as o := by
  unfold leaseNext requireEnabled
  rw [along_bind, along_acquire]
  dsimp only
  rw [along_bind]
  refine getActiveLeaseLocked_along.mono fun as r hr => ?_
  cases r with
  | error e => simp
  | ok o =>
    cases o with
    | some l =>
      dsimp only
      rw [along_pure]
      intro o ho
      cases ho
      exact Or.inl (by simpa [Resumed] using hr.held l rfl)
    | none =>
      dsimp only
      rw [along_bind, along_bind, along_view]
      intro v₁
      dsimp only
      rw [along_raiseIf]
      refine ⟨fun _ => by simp, fun _ => ?_⟩
      dsimp only
      rw [along_bind, along_raiseIf]
      refine ⟨fun _ => by simp, fun _ => ?_⟩
      dsimp only
      rw [along_bind, along_view]
      intro v₂
      dsimp only
      rw [along_bind]
      refine (chooseWorkItem_along _).mono fun as' r hs => ?_
      cases r with
      | error e => simp
      | ok found =>
        have hs : Searched c agent (c.utcnow 0) as' found := hs found rfl
        cases found with
        | none =>
          dsimp only
          rw [along_pure]
          intro o ho
          cases ho
          exact ⟨as ++ [.read "is_enabled" v₁, .read "work items" v₂], as', by simp, hs⟩
        | some ch =>
          refine handOut_along.mono fun as'' r hr o ho => ?_
          obtain ⟨l, rfl, hid⟩ := hr.2 o ho
          exact Or.inr ⟨as ++ [.read "is_enabled" v₁, .read "work items" v₂], as', as'', ch, by simp, hs, hid.symm⟩

theorem leaseNext_ends {S : Finset Uuid} (hS : S.card ≤ c.fuel) :
    (leaseNext c agent).Ensures (Within S) fun r => r ≠ .error .fuelExhausted := by
  unfold leaseNext requireEnabled
  refine Ensures.bind (Ensures.of_along ((along_acquire _ _).2 ?_))
  refine Ensures.bind (Ensures.of_along (getActiveLeaseLocked_along.mono fun as r hr => ?_))
  cases r with
  | error e => exact fun h => hr.fuel (by simpa using h)
  | ok o =>
    cases o with
    | some l => exact (ensures_pure _).2 (by simp)
    | none =>
      refine Ensures.bind (Ensures.of_along ?_)
      rw [along_bind, along_view]
      intro v₁
      dsimp only
      rw [along_raiseIf]
      refine ⟨fun _ => by simp, fun _ => Ensures.bind (Ensures.of_along ?_)⟩
      rw [along_raiseIf]
      refine ⟨fun _ => by simp, fun _ => Ensures.bind (Ensures.of_along ((along_view _ _).2 fun v₂ => ?_))⟩
      have hfuel : S.card < c.fuel + v₂.workItems.length + 1 := by omega
      refine Ensures.bind ((chooseWorkItem_ends hfuel).mono fun r hr => ?_)
      cases r with
      | error e => exact fun h => hr (by simpa using h)
      | ok found =>
        cases found with
        | none => exact (ensures_pure _).2 (by simp)
        | some ch => exact Ensures.of_along (handOut_along.mono fun _ _ h => h.1)

end Search

/-- In every interleaving, the search of a call ends, and what it answers has been searched for. As long as
the work items seen are those of a finite set, no loop takes more than one round for each of them and one more. -/
theorem leaseNext_search {v : Db} {s : System Db LockKey Err Queue.Result Queue.Op} (hr : Queue.Reaches v s)
    {i : ℕ} {t : Thread Db LockKey Err Queue.Result Queue.Op} (ht : s.threads i = some t) {c : Call} {agent : Uuid}
    (hop : t.op = .leaseNext c agent) :
    (∀ S : Finset Uuid, S.card ≤ c.fuel → (∀ e ∈ t.log, Within S e.2) → t.prog ≠ .fail .fuelExhausted) ∧
    (∀ (S : Finset Uuid) now,
      (chooseWorkItem c agent now (S.card + 1)).Ensures (Within S) fun r => r ≠ .error .fuelExhausted) ∧
    ∀ o, t.prog = .done (.lease o) → ∃ as, t.log = (reads as).reverse ∧ Behind c agent as o := by
  refine ⟨fun S hS hI hfail => ?_, fun S now => chooseWorkItem_ends (Nat.lt_succ_self _), fun o hdone => ?_⟩
  · have hends : (Queue.body t.op).Ensures (Within S) fun r => r ≠ .error .fuelExhausted := by
      rw [hop]
      refine (along_map _ _).2 ((leaseNext_ends hS).mono fun r hr => ?_)
      cases r with
      | error e => exact fun h => hr (by simpa [Except.map] using h)
      | ok o => simp [Except.map]
    exact Prog.Ensures.of_reaches hr ht hends hI hfail rfl
  · have hbehind : (Queue.body t.op).Along fun as r => ∀ o, r = .ok (.lease o) → Behind c agent as o := by
      rw [hop]
      refine (along_map _ _).2 (leaseNext_along.mono fun as r hr o ho => hr o ?_)
      cases r with
      | error e => cases ho
      | ok o' =>
        obtain rfl : o' = o := by simpa [Except.map] using ho
        rfl
    obtain ⟨as, hlog, hend, -⟩ := Prog.Along.of_reaches hr ht hbehind
    exact ⟨as, hlog, hend _ hdone o rfl⟩

/-- Agent 5 has locked the only item; agent 6 then looks for one. -/
def Demo.contested : List (System.Turn Queue.Op) :=
  Queue.Demo.turns 1 (.leaseNext (Queue.Demo.call 1) 5) 20 ++
    Queue.Demo.turns 2 (.leaseNext { Queue.Demo.call 1 with fuel := 1 } 6) 13

theorem leaseNext_search_contested : ∃ t, (Queue.Demo.run Demo.contested).threads 2 = some t ∧
    t.prog ≠ .fail .fuelExhausted ∧
    ∃ as, t.log = (reads as).reverse ∧ Behind { Queue.Demo.call 1 with fuel := 1 } 6 as none := by
  have hsearch := leaseNext_search (Queue.Demo.reaches_run Demo.contested) (i := 2) rfl rfl
  exact ⟨_, rfl, hsearch.1 {30} (by decide) (by unfold Within; decide +kernel), hsearch.2.2 none rfl⟩

end OmniDB.Work
