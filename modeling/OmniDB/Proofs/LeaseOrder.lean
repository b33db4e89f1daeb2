import OmniDB.Proofs.Service
import OmniDB.Tx.Selection

/-! The order in which `lease_next` hands out work while no other transaction is about. -/

namespace OmniDB.Work

open Tx
open Tx.Prog

/-! ## What can be leased -/

/-- The phone behind the item is not suppressed. -/
def callable (x : Db) (w : WorkItem) : Bool := (x.phoneOf w).any fun f => !x.suppressed f

def activeCampaign (x : Db) (campaign : Uuid) : Bool :=
  (Table.find x.campaigns campaign).map Campaign.status = some .active

/-- An effective agent assignment of the agent to the campaign. -/
def assignedTo (x : Db) (agent : Uuid) (t : Time) (campaign : Uuid) : Bool :=
  x.userAssignments.any fun a => agentAssignment agent t a && a.campaignId = campaign

/-- The callbacks of the agent that are due. -/
def dueCallbacks (x : Db) (agent : Uuid) (t : Time) : List WorkItem :=
  x.workItems.filter fun w => Source.callback.conditions agent t w && callable x w &&
    (x.campaignOf w).any fun k => activeCampaign x k && assignedTo x agent t k

/-- The delayed retries of the campaign that are due. -/
def dueRetries (x : Db) (agent campaign : Uuid) (t : Time) : List WorkItem :=
  x.workItems.filter fun w => Source.dueRetry.conditions agent t w && callable x w && x.campaignOf w = some campaign

/-- The queue of the campaign. -/
def queued (x : Db) (agent campaign : Uuid) (t : Time) : List WorkItem :=
  x.workItems.filter fun w => Source.queue.conditions agent t w && callable x w && x.campaignOf w = some campaign

/-- The campaign of the effective primary assignment, if it is active. -/
def primaryCampaign (c : Call) (x : Db) (agent : Uuid) (t : Time) : Option Uuid :=
  ((newestFirst c (x.userAssignments.filter fun a => agentAssignment agent t a && a.assignmentType = "primary")).head?.map
    CampaignUserAssignment.campaignId).filter (activeCampaign x)

def callbackKey (c : Call) (w : WorkItem) : Time ×ₗ ℕ := toLex (dueKey w, c.rank w.id)

def retryKey (c : Call) (w : WorkItem) : Time ×ₗ ℤ ×ₗ Time ×ₗ ℕ :=
  toLex (dueKey w, toLex (-w.priority, toLex (w.createdAt, c.rank w.id)))

def queueKey (c : Call) (w : WorkItem) : ℤ ×ₗ Time ×ₗ ℕ := toLex (-w.priority, toLex (w.createdAt, c.rank w.id))

/-- The first of the callbacks whose assignment is still effective when its turn comes; the search
reads the clock anew for each. -/
def inTurn (c : Call) (x : Db) (agent : Uuid) : ℕ → List WorkItem → Option WorkItem
  | _, [] => none
  | n, w :: ws =>
    if (x.campaignOf w).any (assignedTo x agent (c.utcnow (n + 2))) then some w else inTurn c x agent (n + 1) ws

section Search

variable {c : Call} {x x' : Db} {agent : Uuid} {now t : Time} {w : WorkItem} {src : Source}

/-- What the search has found: a row of the source with its contact, in an active campaign. -/
structure Found (x : Db) (agent : Uuid) (now : Time) (ch : Chosen) : Prop where
  row : ch.workItem ∈ x.workItems
  condition : ch.source.conditions agent now ch.workItem = true
  campaignContact : x.campaignContact ch.workItem = some ch.campaignContact
  contact : x.contact ch.campaignContact = some ch.contact
  active : activeCampaign x ch.campaignContact.campaignId = true
  clear : x.suppressed ch.contact.phoneFingerprint = false

/-- The candidate that names the item. -/
def candidateOf (x : Db) (w : WorkItem) : Option LeaseCandidate := do
  let cc ← x.campaignContact w
  let contact ← x.contact cc
  return ⟨w.id, contact.phoneFingerprint, cc.campaignId⟩

theorem firstCandidate_eq {β : Type} [LinearOrder β] {order : WorkItem → β}
    {eligible : WorkItem → CampaignContact → Contact → Bool} {p : WorkItem → Bool}
    (h : ∀ w, ((x.campaignContact w).bind fun cc => (x.contact cc).map (eligible w cc)).getD false = p w) :
    firstCandidate x order eligible = ((x.workItems.filter p).argmin order).bind (candidateOf x) := by
  rw [← funext h]
  rfl

/-- The contact of a callable item. -/
theorem callable_links (h : callable x w = true) : ∃ cc k, x.campaignContact w = some cc ∧ x.contact cc = some k ∧
    x.suppressed k.phoneFingerprint = false := by
  obtain ⟨f, hf, hs⟩ := (Option.any_eq_true ..).1 h
  obtain ⟨k, hk, rfl⟩ := Option.map_eq_some_iff.1 hf
  obtain ⟨cc, hcc, hk⟩ := Option.bind_eq_some_iff.1 hk
  exact ⟨cc, k, hcc, hk, by simpa using hs⟩

@[simp] theorem runs_selectSkipLocked {ρ : Type} [Keyed ρ Uuid] {n : String} {key : Uuid → LockKey}
    {table : Db → List ρ} {cond : ρ → Bool} {id : Uuid} {o : Option ρ} :
    (selectSkipLocked n key table cond id).Runs x o x' ↔ o = (Table.find (table x) id).filter cond ∧ x' = x := by
  unfold selectSkipLocked
  simp only [runs_bind, runs_getRow, and_assoc]
  cases hr : Table.find (table x) id with
  | none => simp
  | some r => cases hc : cond r <;> simp [hr, hc, runs_bind, Option.filter, and_comm]

theorem perm_newestFirst (rows : List CampaignUserAssignment) : (newestFirst c rows).Perm rows :=
  List.perm_insertionSort _ _

/-- A candidate that meets the conditions of its statement is locked. -/
theorem lockLeaseCandidate_runs (hu : Table.Unique x.workItems) {a : CampaignUserAssignment} {cc : CampaignContact}
    {k : Contact} (h : Found x agent now ⟨w, cc, k, a, src⟩) :
    (lockLeaseCandidate ⟨w.id, k.phoneFingerprint, cc.campaignId⟩ agent now src).Runs x (some (w, cc, k)) x := by
  have hrow : Table.find x.workItems w.id = some w := hu.find_of_mem h.row
  have hcc : Table.find x.campaignContacts w.campaignContactId = some cc := h.campaignContact
  have hk : Table.find x.contacts cc.contactId = some k := h.contact
  obtain ⟨campaign, hcampaign, hactive⟩ := Option.map_eq_some_iff.1 (of_decide_eq_true h.active)
  have hcond : src.conditions agent now w = true := h.condition
  have hclear : x.suppressed k.phoneFingerprint = false := h.clear
  unfold lockLeaseCandidate activeSuppressionExists
  simp [runs_bind, hrow, hcond, hcc, hk, hcampaign, hactive, hclear, Option.filter]

/-! ### The candidates -/

/-- The rows that have not been passed over. -/
def remaining (excluded : List Uuid) (rows : List WorkItem) : List WorkItem :=
  rows.filter fun w => !excluded.contains w.id

@[simp] theorem remaining_nil (rows : List WorkItem) : remaining [] rows = rows := List.filter_true rows

/-- The candidate that names the least row. -/
def leastCandidate {β : Type} [LinearOrder β] (x : Db) (key : WorkItem → β) (rows : List WorkItem) :
    Option LeaseCandidate := (rows.argmin key).bind (candidateOf x)

theorem nextCallbackCandidate_eq (excluded : List Uuid) : nextCallbackCandidate c agent now excluded =
    (fun x => leastCandidate x (callbackKey c) (remaining excluded (dueCallbacks x agent now))) <$>
      view "_next_callback_candidate" := by
  unfold nextCallbackCandidate leastCandidate remaining dueCallbacks
  rw [map_eq_pure_bind]
  congr 1
  funext x
  rw [List.filter_filter, firstCandidate_eq fun w => ?_]
  · rfl
  unfold callable Db.phoneOf Db.contactOf Db.campaignOf activeCampaign assignedTo
  cases hcc : x.campaignContact w with
  | none => simp
  | some cc =>
    cases hk : x.contact cc with
    | none => simp [hk]
    | some k => simp [hk, Source.conditions, Bool.and_assoc, Bool.and_comm, Bool.and_left_comm]

theorem nextDueRetryCandidate_eq (campaign : Uuid) (excluded : List Uuid) :
    nextDueRetryCandidate c campaign now excluded =
    (fun x => leastCandidate x (retryKey c) (remaining excluded (dueRetries x agent campaign now))) <$>
      view "_next_due_retry_candidate" := by
  unfold nextDueRetryCandidate leastCandidate remaining dueRetries
  rw [map_eq_pure_bind]
  congr 1
  funext x
  rw [List.filter_filter, firstCandidate_eq fun w => ?_]
  · rfl
  unfold callable Db.phoneOf Db.contactOf Db.campaignOf
  cases hcc : x.campaignContact w with
  | none => simp
  | some cc =>
    cases hk : x.contact cc with
    | none => simp [hk]
    | some k => simp [hk, Source.conditions, Bool.and_assoc, Bool.and_comm, Bool.and_left_comm]

theorem nextQueueCandidate_eq (campaign : Uuid) (excluded : List Uuid) :
    nextQueueCandidate c campaign excluded =
    (fun x => leastCandidate x (queueKey c) (remaining excluded (queued x agent campaign now))) <$>
      view "_next_queue_candidate" := by
  unfold nextQueueCandidate leastCandidate remaining queued
  rw [map_eq_pure_bind]
  congr 1
  funext x
  rw [List.filter_filter, firstCandidate_eq fun w => ?_]
  · rfl
  unfold callable Db.phoneOf Db.contactOf Db.campaignOf
  cases hcc : x.campaignContact w with
  | none => simp
  | some cc =>
    cases hk : x.contact cc with
    | none => simp [hk]
    | some k => simp [hk, Source.conditions, Bool.and_assoc, Bool.and_comm, Bool.and_left_comm]

theorem runs_map_view {γ : Type} {n : String} {f : Db → γ} {o : γ} :
    (f <$> view n : Txn γ).Runs x o x' ↔ o = f x ∧ x' = x := by
  simp [and_comm]

/-! ### The loops -/

section Loops

variable {γ : Type} {candidates : List Uuid → Txn (Option LeaseCandidate)}
  {attempt : List Uuid → LeaseCandidate → Txn (Option γ)} {fuel : ℕ} {skipped : List Uuid} {l : LeaseCandidate}

theorem leaseLoop_none (h : (candidates skipped).Runs x none x) :
    (leaseLoop candidates attempt (fuel + 1) skipped).Runs x none x :=
  runs_bind.2 ⟨none, x, h, runs_pure.2 ⟨rfl, rfl⟩⟩

theorem leaseLoop_some {r : γ} (h : (candidates skipped).Runs x (some l) x) (ha : (attempt skipped l).Runs x (some r) x) :
    (leaseLoop candidates attempt (fuel + 1) skipped).Runs x (some r) x :=
  runs_bind.2 ⟨some l, x, h, runs_bind.2 ⟨some r, x, ha, runs_pure.2 ⟨rfl, rfl⟩⟩⟩

theorem leaseLoop_next {o : Option γ} (h : (candidates skipped).Runs x (some l) x) (ha : (attempt skipped l).Runs x none x)
    (hn : (leaseLoop candidates attempt fuel (l.workItemId :: skipped)).Runs x o x) :
    (leaseLoop candidates attempt (fuel + 1) skipped).Runs x o x :=
  runs_bind.2 ⟨some l, x, h, runs_bind.2 ⟨none, x, ha, hn⟩⟩

end Loops

/-- What makes a row of a source a candidate that is found. -/
structure Leasable (x : Db) (agent : Uuid) (now : Time) (src : Source) (w : WorkItem) : Prop where
  row : w ∈ x.workItems
  condition : src.conditions agent now w = true
  callable : callable x w = true
  active : ∃ k, x.campaignOf w = some k ∧ activeCampaign x k = true

theorem Leasable.found (h : Leasable x agent now src w) : ∃ cc k,
    candidateOf x w = some ⟨w.id, k.phoneFingerprint, cc.campaignId⟩ ∧ x.campaignOf w = some cc.campaignId ∧
      ∀ a, Found x agent now ⟨w, cc, k, a, src⟩ := by
  obtain ⟨cc, k, hcc, hk, hclear⟩ := callable_links h.callable
  obtain ⟨campaign, hcamp, hactive⟩ := h.active
  have hcamp' : x.campaignOf w = some cc.campaignId := by rw [Db.campaignOf, hcc, Option.map_some]
  obtain rfl : campaign = cc.campaignId := Option.some.inj (hcamp.symm.trans hcamp')
  refine ⟨cc, k, ?_, hcamp', fun a => ⟨h.row, h.condition, hcc, hk, hactive, hclear⟩⟩
  simp [candidateOf, hcc, hk]

/-- The retry loop and the queue loop take the least row of their source. -/
theorem sharedLoop_runs (hu : Table.Unique x.workItems) {β : Type} [LinearOrder β] {key : WorkItem → β}
    {rows : List WorkItem} (hrows : ∀ w ∈ rows, Leasable x agent now src w)
    {candidates : List Uuid → Txn (Option LeaseCandidate)}
    (hcand : (candidates []).Runs x (leastCandidate x key rows) x) (a : CampaignUserAssignment) (fuel : ℕ) :
    ∃ o, (leaseLoop candidates (tryShared agent now a src) (fuel + 1) []).Runs x o x ∧
      o.map Chosen.workItem = rows.argmin key ∧ ∀ ch, o = some ch → Found x agent now ch := by
  unfold leastCandidate at hcand
  cases hmin : rows.argmin key with
  | none =>
    rw [hmin, Option.bind_none] at hcand
    exact ⟨none, leaseLoop_none hcand, rfl, fun ch h => by cases h⟩
  | some w =>
    obtain ⟨cc, k, hc, -, hf⟩ := (hrows w (List.argmin_mem hmin)).found
    rw [hmin, Option.bind_some, hc] at hcand
    refine ⟨some ⟨w, cc, k, a, src⟩, leaseLoop_some hcand ?_, rfl, fun ch h => ?_⟩
    · unfold tryShared
      rw [runs_bind]
      exact ⟨some (w, cc, k), x, lockLeaseCandidate_runs hu (hf a), runs_pure.2 ⟨rfl, rfl⟩⟩
    · obtain rfl := Option.some.inj h
      exact hf a

theorem activeAssignmentForCampaign_runs (hua : Table.Unique x.userAssignments) (campaign : Uuid) :
    ∃ o, (activeAssignmentForCampaign c agent campaign t).Runs x o x ∧
      o.isSome = assignedTo x agent t campaign := by
  refine ⟨_, runs_bind.2 ⟨_, x, lockRows_total hua perm_newestFirst, runs_pure.2 ⟨rfl, rfl⟩⟩, ?_⟩
  unfold assignedTo
  rw [Bool.eq_iff_iff, List.isSome_head?, List.any_eq_true]
  constructor
  · intro h
    obtain ⟨a, ha⟩ := List.exists_mem_of_ne_nil _ h
    exact ⟨a, List.mem_filter.1 ((perm_newestFirst _).mem_iff.1 ha)⟩
  · rintro ⟨a, ha⟩
    exact List.ne_nil_of_mem ((perm_newestFirst _).mem_iff.2 (List.mem_filter.2 ha))

theorem leasable_callback (h : w ∈ dueCallbacks x agent now) : Leasable x agent now .callback w := by
  unfold dueCallbacks at h
  simp only [List.mem_filter, Bool.and_eq_true, Option.any_eq_true] at h
  obtain ⟨hw, ⟨hcond, hcall⟩, k, hk, hactive, -⟩ := h
  exact ⟨hw, hcond, hcall, k, hk, hactive⟩

/-- After the callbacks `taken`, the statement finds the next in the order. -/
theorem nextCallbackCandidate_rest (hu : Table.Unique x.workItems) {taken rest : List WorkItem}
    (horder : sortedBy (callbackKey c) (dueCallbacks x agent now) = taken ++ rest) :
    (nextCallbackCandidate c agent now (taken.map WorkItem.id).reverse).Runs x (rest.head?.bind (candidateOf x)) x := by
  have hids : ((taken ++ rest).map WorkItem.id).Nodup := by
    rw [← horder, ((perm_sortedBy _ _).map WorkItem.id).nodup_iff]
    exact hu.filter _
  rw [List.map_append] at hids
  rw [nextCallbackCandidate_eq, runs_map_view, leastCandidate, remaining,
    argmin_rest horder (fun w hw => ?_) fun w hw => ?_]
  · exact ⟨rfl, rfl⟩
  · simpa using ⟨w, hw, rfl⟩
  · have hnot : w.id ∉ taken.map WorkItem.id := fun h =>
      List.disjoint_of_nodup_append hids h (List.mem_map_of_mem hw)
    simpa using hnot

/-- The callback loop, when it has passed over the callbacks `taken` without a write. -/
theorem callbackLoop_runs (hu : Table.Unique x.workItems) (hua : Table.Unique x.userAssignments) {taken rest : List WorkItem}
    (horder : sortedBy (callbackKey c) (dueCallbacks x agent now) = taken ++ rest) {fuel : ℕ} (hfuel : rest.length < fuel) :
    ∃ o, (leaseLoop (nextCallbackCandidate c agent now) (tryCallback c agent now) fuel (taken.map WorkItem.id).reverse).Runs
        x o x ∧ o.map Chosen.workItem = inTurn c x agent taken.length rest ∧ ∀ ch, o = some ch → Found x agent now ch := by
  induction rest generalizing taken fuel with
  | nil =>
    obtain ⟨fuel, rfl⟩ := Nat.exists_eq_succ_of_ne_zero (Nat.ne_of_gt hfuel)
    exact ⟨none, leaseLoop_none (nextCallbackCandidate_rest hu horder), rfl, fun ch h => by cases h⟩
  | cons w rest ih =>
    obtain ⟨fuel, rfl⟩ := Nat.exists_eq_succ_of_ne_zero (Nat.ne_of_gt (Nat.zero_lt_of_lt hfuel))
    have hsorted : w ∈ sortedBy (callbackKey c) (dueCallbacks x agent now) :=
      horder ▸ List.mem_append_right _ List.mem_cons_self
    have hw : w ∈ dueCallbacks x agent now := mem_sortedBy.1 hsorted
    obtain ⟨cc, k, hc, hcamp, hf⟩ := (leasable_callback hw).found
    have hcand := nextCallbackCandidate_rest hu horder
    rw [List.head?_cons, Option.bind_some, hc] at hcand
    have hlen : ((taken.map WorkItem.id).reverse).length = taken.length := by simp
    obtain ⟨o, ho, hsome⟩ : ∃ o, (activeAssignmentForCampaign c agent cc.campaignId
        (c.utcnow (taken.length + 2))).Runs x o x ∧
        o.isSome = assignedTo x agent (c.utcnow (taken.length + 2)) cc.campaignId :=
      activeAssignmentForCampaign_runs hua cc.campaignId
    have hturn : (x.campaignOf w).any (assignedTo x agent (c.utcnow (taken.length + 2))) = o.isSome := by
      rw [hcamp, Option.any_some, hsome]
    cases o with
    | some a =>
      refine ⟨some ⟨w, cc, k, a, .callback⟩, leaseLoop_some hcand ?_, ?_, fun ch h => ?_⟩
      · unfold tryCallback
        rw [hlen, runs_bind]
        refine ⟨some a, x, ho, ?_⟩
        rw [runs_bind]
        exact ⟨some (w, cc, k), x, lockLeaseCandidate_runs hu (hf a), runs_pure.2 ⟨rfl, rfl⟩⟩
      · rw [inTurn, hturn]
        rfl
      · obtain rfl := Option.some.inj h
        exact hf a
    | none =>
      have hnext : sortedBy (callbackKey c) (dueCallbacks x agent now) = (taken ++ [w]) ++ rest := by
        rw [horder, List.append_assoc, List.singleton_append]
      obtain ⟨o, hr, hmap, hfound⟩ := ih hnext (Nat.lt_of_succ_lt_succ hfuel)
      refine ⟨o, leaseLoop_next hcand ?_ ?_, ?_, hfound⟩
      · unfold tryCallback
        rw [hlen, runs_bind]
        exact ⟨none, x, ho, runs_pure.2 ⟨rfl, rfl⟩⟩
      · simpa using hr
      · rw [hmap, inTurn, hturn, List.length_append]
        rfl

theorem leasable_retry {campaign : Uuid} (hk : activeCampaign x campaign = true) (h : w ∈ dueRetries x agent campaign now) :
    Leasable x agent now .dueRetry w := by
  unfold dueRetries at h
  simp only [List.mem_filter, Bool.and_eq_true, decide_eq_true_eq] at h
  obtain ⟨hw, ⟨hcond, hcall⟩, hcamp⟩ := h
  exact ⟨hw, hcond, hcall, campaign, hcamp, hk⟩

theorem leasable_queued {campaign : Uuid} (hk : activeCampaign x campaign = true) (h : w ∈ queued x agent campaign now) :
    Leasable x agent now .queue w := by
  unfold queued at h
  simp only [List.mem_filter, Bool.and_eq_true, decide_eq_true_eq] at h
  obtain ⟨hw, ⟨hcond, hcall⟩, hcamp⟩ := h
  exact ⟨hw, hcond, hcall, campaign, hcamp, hk⟩

theorem activePrimaryAssignment_runs (hua : Table.Unique x.userAssignments) :
    (activePrimaryAssignment c agent t).Runs x
      (newestFirst c (x.userAssignments.filter fun a => agentAssignment agent t a && a.assignmentType = "primary")).head? x :=
  runs_bind.2 ⟨_, x, lockRows_total hua perm_newestFirst, runs_pure.2 ⟨rfl, rfl⟩⟩

/-- The least due retry of the campaign, or the head of its queue. -/
def pickShared (c : Call) (x : Db) (agent : Uuid) (now : Time) (campaign : Uuid) : Option WorkItem :=
  (sortedBy (retryKey c) (dueRetries x agent campaign now)).head?.or
    (sortedBy (queueKey c) (queued x agent campaign now)).head?

/-- The search in the campaign of the primary assignment `a`. -/
theorem sharedSearch_runs (hu : Table.Unique x.workItems) (a : CampaignUserAssignment) (fuel : ℕ) : ∃ o, (do
      match ← getRow "campaign" Db.campaigns a.campaignId with
      | none => return none
      | some campaign =>
        if campaign.status = .active then
          match ← leaseLoop (nextDueRetryCandidate c campaign.id now)
              (tryShared agent now a .dueRetry) (fuel + 1) [] with
          | some chosen => return some chosen
          | none => leaseLoop (nextQueueCandidate c campaign.id) (tryShared agent now a .queue) (fuel + 1) []
        else return none : Txn (Option Chosen)).Runs x o x ∧
      o.map Chosen.workItem = (if activeCampaign x a.campaignId then pickShared c x agent now a.campaignId else none) ∧
      ∀ ch, o = some ch → Found x agent now ch := by
  by_cases hactive : activeCampaign x a.campaignId = true
  · rw [if_pos hactive]
    obtain ⟨k, hk, hst⟩ := Option.map_eq_some_iff.1 (of_decide_eq_true hactive)
    have hid : k.id = a.campaignId := Table.key_of_find hk
    have hretry : (nextDueRetryCandidate c k.id now []).Runs x
        (leastCandidate x (retryKey c) (dueRetries x agent k.id now)) x := by
      rw [nextDueRetryCandidate_eq, runs_map_view, remaining_nil]
      exact ⟨rfl, rfl⟩
    have hqueue : (nextQueueCandidate c k.id []).Runs x
        (leastCandidate x (queueKey c) (queued x agent k.id now)) x := by
      rw [nextQueueCandidate_eq, runs_map_view, remaining_nil]
      exact ⟨rfl, rfl⟩
    rw [← hid] at hk hactive ⊢
    obtain ⟨o, hloop, hmap, hfound⟩ := sharedLoop_runs hu (fun w hw => leasable_retry hactive hw) hretry a fuel
    obtain ⟨o', hloop', hmap', hfound'⟩ := sharedLoop_runs hu (fun w hw => leasable_queued hactive hw) hqueue a fuel
    unfold pickShared
    rw [head?_sortedBy, head?_sortedBy, ← hmap, ← hmap']
    refine ⟨o.or o', runs_bind.2 ⟨some k, x, runs_getRow.2 ⟨hk.symm, rfl⟩, ?_⟩, ?_, ?_⟩
    · dsimp only
      rw [if_pos hst, runs_bind]
      refine ⟨o, x, hloop, ?_⟩
      cases o with
      | some ch => exact runs_pure.2 ⟨rfl, rfl⟩
      | none => exact hloop'
    · cases o <;> rfl
    · cases o with
      | some ch => exact hfound
      | none => exact hfound'
  · rw [if_neg hactive]
    refine ⟨none, runs_bind.2 ⟨_, x, runs_getRow.2 ⟨rfl, rfl⟩, ?_⟩, rfl, fun ch h => by cases h⟩
    cases hk : Table.find x.campaigns a.campaignId with
    | none => exact runs_pure.2 ⟨rfl, rfl⟩
    | some k =>
      have hst : k.status ≠ .active := fun hst => hactive (by simp [activeCampaign, hk, hst])
      dsimp only
      rw [if_neg hst]
      exact runs_pure.2 ⟨rfl, rfl⟩

/-- The item that the search finds with no other transaction about. -/
def pick (c : Call) (x : Db) (agent : Uuid) (now : Time) : Option WorkItem :=
  (inTurn c x agent 0 (sortedBy (callbackKey c) (dueCallbacks x agent now))).or
    ((primaryCampaign c x agent (c.utcnow 1)).bind (pickShared c x agent now))

/-- With no other transaction about, the search finds the item that is to be picked. -/
theorem chooseWorkItem_runs (hu : Table.Unique x.workItems) (hua : Table.Unique x.userAssignments) {fuel : ℕ}
    (hfuel : x.workItems.length < fuel) : ∃ o, (chooseWorkItem c agent now fuel).Runs x o x ∧
      o.map Chosen.workItem = pick c x agent now ∧ ∀ ch, o = some ch → Found x agent now ch := by
  have hlen : (sortedBy (callbackKey c) (dueCallbacks x agent now)).length < fuel := by
    rw [(perm_sortedBy _ _).length_eq]
    exact lt_of_le_of_lt (List.length_filter_le _ _) hfuel
  have horder : sortedBy (callbackKey c) (dueCallbacks x agent now) =
      [] ++ sortedBy (callbackKey c) (dueCallbacks x agent now) := rfl
  obtain ⟨o, hloop, hmap, hfound⟩ := callbackLoop_runs hu hua horder hlen
  have hmap : o.map Chosen.workItem = inTurn c x agent 0 (sortedBy (callbackKey c) (dueCallbacks x agent now)) := hmap
  unfold chooseWorkItem pick
  rw [← hmap]
  cases o with
  | some ch => exact ⟨some ch, runs_bind.2 ⟨some ch, x, hloop, runs_pure.2 ⟨rfl, rfl⟩⟩, rfl, hfound⟩
  | none =>
    rw [Option.map_none, Option.none_or]
    obtain ⟨fuel, rfl⟩ := Nat.exists_eq_succ_of_ne_zero (Nat.ne_of_gt (Nat.zero_lt_of_lt hfuel))
    have hprimary : (activePrimaryAssignment c agent (c.utcnow 1)).Runs x _ x := activePrimaryAssignment_runs hua
    unfold primaryCampaign
    cases hp : (newestFirst c (x.userAssignments.filter fun a =>
        agentAssignment agent (c.utcnow 1) a && a.assignmentType = "primary")).head? with
    | none =>
      rw [hp] at hprimary
      refine ⟨none, ?_, rfl, fun ch h => by cases h⟩
      exact runs_bind.2 ⟨none, x, hloop, runs_bind.2 ⟨none, x, hprimary, runs_pure.2 ⟨rfl, rfl⟩⟩⟩
    | some a =>
      rw [hp] at hprimary
      obtain ⟨o, hr, hmap, hfound⟩ := sharedSearch_runs hu a fuel
      refine ⟨o, runs_bind.2 ⟨none, x, hloop, runs_bind.2 ⟨some a, x, hprimary, hr⟩⟩, ?_, hfound⟩
      rw [hmap, Option.map_some, Option.filter_some]
      split_ifs <;> rfl

end Search

/-! ## The whole call -/

section Call

variable {c : Call} {x x' : Db} {agent : Uuid} {t : Time} {ch : Chosen}

/-- The lease that the call hands out, and what it leaves: one row is leased, one view is recorded. -/
structure Lends (c : Call) (agent : Uuid) (src : Source) (w : WorkItem) (lease : LeaseResult) (x x' : Db) : Prop where
  item : lease.workItemId = w.id
  token : lease.leaseId = c.uuid4 0
  reason : lease.leaseReason = src.reason
  after : ∃ assignment, x' = Db.log
    { action := "work.view", actorUserId := agent, targetType := "work_item", targetId := w.id }
    (x.modifyWorkItem w.id (leaseTo c agent src assignment))

/-- An agent without a live lease has none to resume. -/
theorem getActiveLeaseLocked_none (h : ∀ w ∈ x.workItems, activeLease agent t w = false) :
    (getActiveLeaseLocked c agent t).Runs x none x := by
  have hnone : firstCandidate x (fun w => c.rank w.id) (fun w _ _ => activeLease agent t w) = none := by
    unfold firstCandidate
    rw [List.filter_eq_nil_iff.2 fun w hw => ?_]
    · rfl
    · cases x.campaignContact w with
      | none => simp
      | some cc => cases hk : x.contact cc <;> simp [hk, h w hw]
  unfold getActiveLeaseLocked activeLeaseCandidate
  exact runs_bind.2 ⟨none, x, runs_bind.2 ⟨x, x, runs_view.2 ⟨rfl, rfl⟩, runs_pure.2 ⟨hnone.symm, rfl⟩⟩,
    runs_pure.2 ⟨rfl, rfl⟩⟩

/-- The end of `lease_next`, when an item has been chosen. -/
def handOut (c : Call) (agent : Uuid) (ch : Chosen) : Txn (Option LeaseResult) := do
  setWorkItem ch.workItem.id (leaseTo c agent ch.source ch.assignment.id)
  flushLease agent ch.workItem.id
  let campaign ← expect (← getRow "campaign" Db.campaigns ch.campaignContact.campaignId)
    (.workItemError "campaign contact references a missing campaign")
  recordAudit { action := "work.view", actorUserId := agent, targetType := "work_item", targetId := ch.workItem.id }
  return some (← leaseResult c (leaseTo c agent ch.source ch.assignment.id ch.workItem) ch.campaignContact ch.contact campaign)

/-- An agent with nothing to resume, whom the flag and the limiter let pass, gets what the search finds. -/
theorem leaseNext_exec {o : Option Chosen} (hres : (getActiveLeaseLocked c agent (c.utcnow 0)).Runs x none x)
    (hflag : x.flag sharedPoolEnabled = true) (hrate : c.leaseRateAllows = true)
    (h : (chooseWorkItem c agent (c.utcnow 0) (c.fuel + x.workItems.length + 1)).Runs x o x) :
    (leaseNext c agent).exec x = (match o with
      | none => pure none
      | some ch => handOut c agent ch : Txn (Option LeaseResult)).exec x := by
  have hlock : (acquire (.idempotency "work.lease.agent" agent "single-active") : Txn Unit).Runs x () x :=
    runs_acquire.2 rfl
  have hgate : (requireEnabled sharedPoolEnabled).Runs x () x := runs_requireEnabled.2 ⟨hflag, rfl⟩
  have hlimit : (raiseIf (!c.leaseRateAllows)
      (.leaseRateLimited "you are leasing contacts too quickly; wait a moment") : Txn Unit).Runs x () x :=
    runs_raiseIf.2 ⟨by simp [hrate], rfl⟩
  have hview : (view "work items" : Txn Db).Runs x x x := runs_view.2 ⟨rfl, rfl⟩
  unfold leaseNext
  rw [hlock.exec_bind, hres.exec_bind]
  dsimp only
  rw [hgate.exec_bind, hlimit.exec_bind, hview.exec_bind, h.exec_bind]
  cases o <;> rfl

/-- Leasing a row does not change which other rows are leased. -/
theorem otherLease_modify {id : Uuid} {f : WorkItem → WorkItem} (hf : ∀ w, (f w).id = w.id) :
    otherLease (x.modifyWorkItem id f) agent id = otherLease x agent id := by
  unfold otherLease Db.modifyWorkItem Table.modify
  rw [List.any_map]
  congr 1
  funext w
  dsimp only [Function.comp]
  split_ifs with hid
  · have hid : w.id = id := hid
    rw [hf, hid]
    simp
  · rfl

/-- The answer to an agent whose lease has just been written. -/
theorem leaseResult_leaseTo (src : Source) (assignment : Uuid) (w : WorkItem) (cc : CampaignContact) (k : Contact)
    (campaign : Campaign) : ∃ lease, leaseResult c (leaseTo c agent src assignment w) cc k campaign = pure lease ∧
      lease.workItemId = w.id ∧ lease.leaseId = c.uuid4 0 ∧ lease.leaseReason = src.reason :=
  ⟨_, rfl, rfl, rfl, rfl⟩

/-- The item that is found is leased. -/
theorem handOut_runs (hf : Found x agent t ch) (hone : otherLease x agent ch.workItem.id = false) :
    ∃ lease x', (handOut c agent ch).Runs x (some lease) x' ∧ Lends c agent ch.source ch.workItem lease x x' := by
  obtain ⟨k, hk, -⟩ := Option.map_eq_some_iff.1 (of_decide_eq_true hf.active)
  let y := x.modifyWorkItem ch.workItem.id (leaseTo c agent ch.source ch.assignment.id)
  have hflush : otherLease y agent ch.workItem.id = false :=
    (otherLease_modify (f := leaseTo c agent ch.source ch.assignment.id) fun _ => rfl).trans hone
  have hcampaign : Table.find y.campaigns ch.campaignContact.campaignId = some k := hk
  obtain ⟨lease, hlease, hitem, htoken, hreason⟩ :=
    leaseResult_leaseTo ch.source ch.assignment.id ch.workItem ch.campaignContact ch.contact k
  refine ⟨lease, _, ?_, ⟨hitem, htoken, hreason, ch.assignment.id, rfl⟩⟩
  unfold handOut flushLease
  simp only [runs_bind, runs_view, runs_raiseIf, runs_getRow, runs_expect, runs_recordAudit]
  refine ⟨(), y, runs_update.2 rfl, (), y, ⟨y, y, ⟨rfl, rfl⟩, by simp [hflush], rfl⟩, _, y, ⟨rfl, rfl⟩, k, y,
    ⟨hcampaign, rfl⟩, (), _, rfl, lease, _, ?_, runs_pure.2 ⟨rfl, rfl⟩⟩
  rw [hlease]
  exact runs_pure.2 ⟨rfl, rfl⟩

/-- Another row that is leased to the agent stands in the way. -/
theorem handOut_fails (hone : otherLease x agent ch.workItem.id = true) :
    ∃ x', (handOut c agent ch).Fails x oneActiveLease x' := by
  let y := x.modifyWorkItem ch.workItem.id (leaseTo c agent ch.source ch.assignment.id)
  have hflush : otherLease y agent ch.workItem.id = true :=
    (otherLease_modify (f := leaseTo c agent ch.source ch.assignment.id) fun _ => rfl).trans hone
  refine ⟨y, fails_bind.2 (Or.inr ⟨(), y, runs_update.2 rfl, fails_bind.2 (Or.inl ?_)⟩)⟩
  exact fails_bind.2 (Or.inr ⟨y, y, runs_view.2 ⟨rfl, rfl⟩, fails_raiseIf.2 ⟨hflush, rfl, rfl⟩⟩)

end Call

/-! ## At one moment -/

section Order

variable {c : Call} {x : Db} {agent : Uuid} {t : Time} {w : WorkItem} {src : Source}

/-- What the agent is to be given next: a due callback; else a due retry of the campaign of the
primary assignment; else an item of its queue. -/
inductive Next (c : Call) (x : Db) (agent : Uuid) (t : Time) : Source → WorkItem → Prop
  | callback {w : WorkItem} (h : w ∈ dueCallbacks x agent t) (least : ∀ v ∈ dueCallbacks x agent t, dueKey w ≤ dueKey v) :
      Next c x agent t .callback w
  | dueRetry {w : WorkItem} {k : Uuid} (none : dueCallbacks x agent t = []) (hk : primaryCampaign c x agent t = some k)
      (h : w ∈ dueRetries x agent k t)
      (least : ∀ v ∈ dueRetries x agent k t, toLex (dueKey w, toLex (-w.priority, w.createdAt)) ≤
        toLex (dueKey v, toLex (-v.priority, v.createdAt))) : Next c x agent t .dueRetry w
  | queue {w : WorkItem} {k : Uuid} (none : dueCallbacks x agent t = []) (hk : primaryCampaign c x agent t = some k)
      (noRetry : dueRetries x agent k t = []) (h : w ∈ queued x agent k t)
      (least : ∀ v ∈ queued x agent k t, toLex (-w.priority, w.createdAt) ≤ toLex (-v.priority, v.createdAt)) :
      Next c x agent t .queue w

/-- There is nothing that the agent could be given. -/
def Exhausted (c : Call) (x : Db) (agent : Uuid) (t : Time) : Prop :=
  dueCallbacks x agent t = [] ∧
    ∀ k, primaryCampaign c x agent t = some k → dueRetries x agent k t = [] ∧ queued x agent k t = []

/-- While the clock stands still, the assignment behind a due callback is still effective. -/
theorem inTurn_eq (ht : ∀ n, c.utcnow n = t) {n : ℕ} {rows : List WorkItem}
    (hrows : ∀ w ∈ rows, w ∈ dueCallbacks x agent t) : inTurn c x agent n rows = rows.head? := by
  cases rows with
  | nil => rfl
  | cons w rows =>
    have hw := (List.mem_filter.1 (hrows w List.mem_cons_self)).2
    have hassigned : (x.campaignOf w).any (assignedTo x agent (c.utcnow (n + 2))) = true := by
      rw [Bool.and_eq_true] at hw
      obtain ⟨k, hk, hassigned⟩ := (Option.any_eq_true ..).1 hw.2
      rw [Bool.and_eq_true] at hassigned
      rw [hk, Option.any_some, ht]
      exact hassigned.2
    rw [inTurn, if_pos hassigned]
    rfl

theorem pick_eq (ht : ∀ n, c.utcnow n = t) : pick c x agent t =
    (sortedBy (callbackKey c) (dueCallbacks x agent t)).head?.or
      ((primaryCampaign c x agent t).bind (pickShared c x agent t)) := by
  unfold pick
  rw [inTurn_eq ht fun w hw => mem_sortedBy.1 hw, ht]

/-- Nothing is picked only if there is nothing. -/
theorem pick_eq_none (ht : ∀ n, c.utcnow n = t) : pick c x agent t = none ↔ Exhausted c x agent t := by
  rw [pick_eq ht, Option.or_eq_none_iff, head?_sortedBy, List.argmin_eq_none]
  refine and_congr_right fun _ => ?_
  cases primaryCampaign c x agent t with
  | none => simp
  | some k => simp [pickShared, head?_sortedBy, Option.or_eq_none_iff]

/-- The state in which an item waits for its source. -/
def Source.waiting : Source → WorkState
  | .callback => .callbackWait
  | .dueRetry => .retryWait
  | .queue => .queued

/-- The state of an item tells which source it is leased from. -/
theorem source_eq {src src' : Source} {now : Time} (h : src.conditions agent now w = true)
    (h' : src'.conditions agent now w = true) : src = src' := by
  have hstate : ∀ src : Source, src.conditions agent now w = true → w.state = src.waiting := by
    intro src hsrc
    cases src <;> simp [Source.conditions] at hsrc <;> simp [hsrc, Source.waiting]
  have hs := (hstate src h).symm.trans (hstate src' h')
  cases src <;> cases src' <;> first | rfl | cases hs

theorem dueRetries_condition {k : Uuid} (h : w ∈ dueRetries x agent k t) :
    Source.dueRetry.conditions agent t w = true := by
  unfold dueRetries at h
  simp only [List.mem_filter, Bool.and_eq_true] at h
  exact h.2.1.1

theorem queued_condition {k : Uuid} (h : w ∈ queued x agent k t) : Source.queue.conditions agent t w = true := by
  unfold queued at h
  simp only [List.mem_filter, Bool.and_eq_true] at h
  exact h.2.1.1

/-- What is picked comes next. -/
theorem next_of_pick (ht : ∀ n, c.utcnow n = t) (h : pick c x agent t = some w) : ∃ src, Next c x agent t src w ∧
    src.conditions agent t w = true := by
  rw [pick_eq ht, head?_sortedBy, Option.or_eq_some_iff] at h
  rcases h with h | ⟨hnone, h⟩
  · have hw := List.argmin_mem h
    refine ⟨.callback, .callback hw fun v hv => ?_, (leasable_callback hw).condition⟩
    exact Prod.Lex.monotone_fst _ _ (List.le_of_mem_argmin hv h)
  rw [List.argmin_eq_none] at hnone
  obtain ⟨k, hk, h⟩ := Option.bind_eq_some_iff.1 h
  unfold pickShared at h
  rw [head?_sortedBy, head?_sortedBy, Option.or_eq_some_iff] at h
  rcases h with h | ⟨hretry, h⟩
  · have hw := List.argmin_mem h
    refine ⟨.dueRetry, .dueRetry hnone hk hw fun v hv => ?_, dueRetries_condition hw⟩
    have hle : retryKey c w ≤ retryKey c v := List.le_of_mem_argmin hv h
    rcases Prod.Lex.toLex_le_toLex.1 hle with hlt | ⟨heq, hle⟩
    · exact Prod.Lex.toLex_le_toLex.2 (Or.inl hlt)
    · exact Prod.Lex.toLex_le_toLex.2 (Or.inr ⟨heq, toLex_le_of_tie hle⟩)
  · rw [List.argmin_eq_none] at hretry
    have hw := List.argmin_mem h
    refine ⟨.queue, .queue hnone hk hretry hw fun v hv => ?_, queued_condition hw⟩
    have hle : queueKey c w ≤ queueKey c v := List.le_of_mem_argmin hv h
    exact toLex_le_of_tie hle

/-- An agent who owns no leased row is given what comes next, and nothing only if there is nothing. -/
theorem leaseNext_order (hu : Table.Unique x.workItems) (hua : Table.Unique x.userAssignments)
    (ht : ∀ n, c.utcnow n = t) (hflag : x.flag sharedPoolEnabled = true) (hrate : c.leaseRateAllows = true)
    (hfree : ∀ w ∈ x.workItems, ¬(w.state = .leased ∧ w.leaseOwnerId = some agent)) :
    ∃ o x', (leaseNext c agent).Runs x o x' ∧ (o = none ↔ Exhausted c x agent t) ∧ (o = none → x' = x) ∧
      ∀ lease, o = some lease → ∃ src w, Next c x agent t src w ∧ Lends c agent src w lease x x' := by
  have hnow : c.utcnow 0 = t := ht 0
  have hres : (getActiveLeaseLocked c agent (c.utcnow 0)).Runs x none x := by
    refine getActiveLeaseLocked_none fun w hw => ?_
    have := hfree w hw
    by_contra hactive
    simp only [activeLease, Bool.not_eq_false, Bool.and_eq_true, decide_eq_true_eq] at hactive
    exact this hactive.1
  obtain ⟨o, ho, hpick, hfound⟩ : ∃ o, (chooseWorkItem c agent (c.utcnow 0) (c.fuel + x.workItems.length + 1)).Runs x o x ∧
      o.map Chosen.workItem = pick c x agent (c.utcnow 0) ∧ ∀ ch, o = some ch → Found x agent (c.utcnow 0) ch :=
    chooseWorkItem_runs hu hua (by omega)
  have hexec := leaseNext_exec hres hflag hrate ho
  rw [hnow] at hpick hfound
  cases o with
  | none =>
    refine ⟨none, x, hexec.trans rfl, ⟨fun _ => (pick_eq_none ht).1 hpick.symm, fun _ => rfl⟩, fun _ => rfl, ?_⟩
    exact fun lease h => by cases h
  | some ch =>
    have hpick : pick c x agent t = some ch.workItem := hpick.symm
    have hf := hfound ch rfl
    have hone : otherLease x agent ch.workItem.id = false := by
      refine List.any_eq_false.2 fun w hw => ?_
      have := hfree w hw
      simp only [Bool.and_eq_true, decide_eq_true_eq]
      exact fun h => this h.1
    obtain ⟨lease, x', hr, hlends⟩ := handOut_runs hf hone
    refine ⟨some lease, x', hexec.trans hr, ⟨(by intro h; cases h), fun h => ?_⟩, (by intro h; cases h), fun l hl => ?_⟩
    · rw [(pick_eq_none ht).2 h] at hpick
      cases hpick
    · obtain rfl := Option.some.inj hl
      obtain ⟨src, hnext, hsrc⟩ := next_of_pick ht hpick
      obtain rfl := source_eq hsrc hf.condition
      exact ⟨_, _, hnext, hlends⟩

end Order

namespace Demo

/-- The campaign of agent 5 with a queued contact, and one whose retry is due. -/
def shelf : Db := { Queue.Demo.db with
  contacts := Queue.Demo.db.contacts ++ [{ id := 11, phoneCiphertext := "d", phoneFingerprint := "g" }]
  campaignContacts := Queue.Demo.db.campaignContacts ++ [{ id := 21, campaignId := 1, contactId := 11 }]
  workItems := [
    { id := 30, campaignContactId := 20, priority := 9 },
    { id := 31, campaignContactId := 21, state := .retryWait, dueAt := some 0 }] }

end Demo

theorem leaseNext_order_shelf : Next (Queue.Demo.call 1) Demo.shelf 5 (minutes 1) .dueRetry
      { id := 31, campaignContactId := 21, state := .retryWait, dueAt := some 0 } ∧
    ∃ o x', (leaseNext (Queue.Demo.call 1) 5).Runs Demo.shelf o x' ∧
      (o = none ↔ Exhausted (Queue.Demo.call 1) Demo.shelf 5 (minutes 1)) ∧ (o = none → x' = Demo.shelf) ∧
      ∀ lease, o = some lease → ∃ src w, Next (Queue.Demo.call 1) Demo.shelf 5 (minutes 1) src w ∧
        Lends (Queue.Demo.call 1) 5 src w lease Demo.shelf x' :=
  ⟨.dueRetry (by decide) rfl (by decide) (by decide),
    leaseNext_order (by decide) (by decide) (fun _ => rfl) (by decide) rfl (by decide)⟩

end OmniDB.Work
