import OmniDB.Proofs.Deletion
import OmniDB.Tx.History

/-! Attempts and the leases they were made under. A work item counts its stored attempts,
and each attempt carries the reason of the latest lease of its item, in every run with its
history: the transactions of the work queue interleave, the other requests come between
them. -/

namespace OmniDB

open Tx

namespace Service

open Work (Source)

/-- A commit of a run of the service. -/
abbrev Commit := Tx.Commit Db Op

namespace Commit

/-- The commit stores the attempt. -/
def Stores (t : Commit) (a : CallAttempt) : Prop := a ∈ t.after.attempts ∧ a ∉ t.before.attempts

/-- The commit stores an attempt of the item. -/
def StoresFor (item : Uuid) (t : Commit) : Prop := ∃ a, Stores t a ∧ a.workItemId = item

/-- The item goes into `leased`; a completion that stores an attempt may lease it again. -/
def Leases (item : Uuid) (t : Commit) : Prop :=
  ∃ w w', Table.find t.before.workItems item = some w ∧ Table.find t.after.workItems item = some w' ∧
    w'.state = .leased ∧ (w.state ≠ .leased ∨ StoresFor item t)

end Commit

/-- The number of stored attempts of a work item. -/
def attemptsOf (x : Db) (item : Uuid) : ℕ := (x.attempts.filter fun a => a.workItemId = item).length

/-- The latest lease of the item is one of the agent for this reason, and the reason is that
of the state the item was leased from, or of the attempt that leased it again. -/
def LeaseFrom (hist : List Commit) (item agent : Uuid) (reason : Option LeaseReason) : Prop :=
  ∃ t w w', Latest (Commit.Leases item) hist t ∧ Table.find t.before.workItems item = some w ∧
    Table.find t.after.workItems item = some w' ∧ w'.leaseOwnerId = some agent ∧ w'.leaseReason = reason ∧
    (reason = some .normal ↔ w.state = .queued) ∧
    (reason = some .delayedRetry ↔ w.state = .retryWait) ∧
    (reason = some .scheduledCallback ↔ w.state = .callbackWait ∧ w.assignedAgentId = some agent) ∧
    (reason = some .immediateRedial ↔
      ∃ p, Commit.Stores t p ∧ p.workItemId = item ∧ p.agentId = agent ∧ Latest (Commit.StoresFor item) hist t)

/-- The attempt was stored by a commit of the history, under the latest lease before it. -/
def MadeUnderLease (hist : List Commit) (a : CallAttempt) : Prop :=
  ∃ later t earlier, hist = later ++ t :: earlier ∧ Commit.Stores t a ∧
    LeaseFrom earlier a.workItemId a.agentId a.sourceLeaseReason

/-! ## What a commit of the queue does to a row -/

section Rows

variable {x x' : Db} {w w' : WorkItem} {op : Queue.Op} {a : Queue.Result} {held : LockKey → Prop} {id : Uuid}

/-- An agent takes a waiting item. -/
def Takes (agent : Uuid) (w w' : WorkItem) : Prop :=
  ∃ (src : Source) (now : Time), src.conditions agent now w = true ∧ w'.leaseOwnerId = some agent ∧
    w'.leaseReason = some src.reason

/-- The row changes without an attempt: a lease it has is the one it had, or taken by an agent. -/
structure Keeps (w w' : WorkItem) : Prop where
  contact : w'.campaignContactId = w.campaignContactId
  count : w'.attemptCount = w.attemptCount
  lease : w'.state = .leased →
    (w.state = .leased ∧ w'.leaseOwnerId = w.leaseOwnerId ∧ w'.leaseReason = w.leaseReason) ∨ ∃ agent, Takes agent w w'

theorem Keeps.refl (w : WorkItem) : Keeps w w := ⟨rfl, rfl, fun h => Or.inl ⟨h, rfl, rfl⟩⟩

theorem Keeps.of_notLeased (hc : w'.campaignContactId = w.campaignContactId)
    (hn : w'.attemptCount = w.attemptCount) (hs : w'.state ≠ .leased) : Keeps w w' :=
  ⟨hc, hn, fun h => absurd h hs⟩

/-- Only the completion of the item itself counts an attempt. -/
theorem keeps_of_change (h : op.Change w w')
    (hop : ∀ c r, op = .completeWorkItem c r → w.id ≠ r.workItemId) : Keeps w w' := by
  cases op
  case leaseNext c agent =>
    rcases h with ⟨-, rfl⟩ | ⟨src, b, hc, rfl⟩
    · exact .of_notLeased rfl rfl nofun
    · exact ⟨rfl, rfl, fun _ => Or.inr ⟨agent, src, _, hc, rfl, rfl⟩⟩
  case completeWorkItem c r =>
    rcases h with ⟨-, rfl⟩ | ⟨hid, -⟩
    · exact .of_notLeased rfl rfl nofun
    · exact absurd hid (hop c r rfl)
  case renewLease =>
    rw [h.eq]
    exact ⟨rfl, rfl, fun hs => Or.inl ⟨hs, rfl, rfl⟩⟩
  case skipWorkItem =>
    rw [h.eq]
    refine .of_notLeased rfl rfl ?_
    unfold Work.skipped Work.unlease
    dsimp only
    split_ifs <;> exact nofun
  case reclaimExpiredLeases | reclaimLeasesForUser =>
    obtain ⟨-, -, rfl⟩ := h
    refine .of_notLeased ?_ ?_ (Work.reclaimed_not_leased w)
    all_goals
      unfold Work.reclaimed
      split_ifs <;> rfl
  case releaseCampaignWorkForAgent =>
    obtain ⟨-, rfl⟩ := h
    exact .of_notLeased rfl rfl nofun
  case rescheduleReviewItem | closeReviewItem =>
    obtain ⟨-, -, rfl⟩ := h
    exact .of_notLeased rfl rfl nofun
  case increaseReviewItemAttempts =>
    rw [h.eq]
    exact .of_notLeased rfl rfl nofun
  case getActiveLease | commitImport => exact h.elim

/-- Row `id` of the new state is an old one without a further attempt, or a new one. -/
def RowKept (x x' : Db) (id : Uuid) : Prop :=
  ∀ w', Table.find x'.workItems id = some w' →
    (∃ w, Table.find x.workItems id = some w ∧ Keeps w w') ∨
      (Table.find x.workItems id = none ∧ w'.attemptCount = 0 ∧ w'.state = .queued)

theorem RowKept.of_eq (h : x'.workItems = x.workItems) (id : Uuid) : RowKept x x' id := fun w' hw =>
  Or.inl ⟨w', h ▸ hw, Keeps.refl w'⟩

theorem rowKept_of_effect (h : op.Effect a held x x')
    (hop : ∀ c r, op = .completeWorkItem c r → id ≠ r.workItemId) : RowKept x x' id := by
  intro w' hw'
  cases hx : Table.find x.workItems id with
  | none =>
    obtain ⟨w, hw, -⟩ | hnew := h.row_back hw'
    · rw [hx] at hw
      cases hw
    · exact Or.inr ⟨rfl, by rw [hnew], by rw [hnew]⟩
  | some w =>
    obtain ⟨u, hu, hd⟩ := h.row_forth hx
    obtain rfl : w' = u := Option.some.inj (hw'.symm.trans hu)
    refine Or.inl ⟨w, rfl, ?_⟩
    obtain rfl | ⟨-, hc⟩ := hd
    · exact .refl _
    · obtain rfl : w.id = id := Table.key_of_find hx
      exact keeps_of_change hc hop

/-- A commit of the queue stores no attempt, or the one of the completion. -/
theorem stores_of_effect (h : op.Effect a held x x') :
    (x'.attempts = x.attempts ∧ ∀ id, RowKept x x' id) ∨
      ∃ c r t w w' d, x'.attempts = x.attempts ++ [t] ∧ Work.CompletedRow c r x x' t w w' d ∧
        ∀ id, id ≠ r.workItemId → RowKept x x' id := by
  by_cases hop : ∃ c r, op = .completeWorkItem c r
  · obtain ⟨c, r, rfl⟩ := hop
    cases a
    case completion res =>
      have hkept (id : Uuid) (hid : id ≠ r.workItemId) : RowKept x x' id :=
        rowKept_of_effect h fun c' r' he => by cases he; exact hid
      obtain ⟨rfl, -⟩ | ⟨t, dnc, ht⟩ := h
      · exact Or.inl ⟨rfl, RowKept.of_eq rfl⟩
      · obtain ⟨w, w', d, hrow⟩ := ht.row
        exact Or.inr ⟨c, r, t, w, w', d, ht.effect.attempts, hrow, hkept⟩
    all_goals exact h.elim
  · refine Or.inl ⟨?_, fun id => rowKept_of_effect h fun c r hr => absurd ⟨c, r, hr⟩ hop⟩
    rcases h.cases with ⟨new, dnc, hw, -, hnew⟩ | ⟨-, -, -, job, campaign, ks, ccs, ws, hi⟩
    · have hnil : new = [] := List.eq_nil_iff_forall_not_mem.2 fun t ht => by
        obtain ⟨c, r, hr, -⟩ := hnew t ht
        exact hop ⟨c, r, hr⟩
      rw [hw.attempts, hnil, List.append_nil]
    · exact hi.attempts

end Rows

/-! ## The accounts of a run -/

section Accounts

variable {hist : List Commit} {x x' : Db} {op : Op} {item agent : Uuid} {reason : Option LeaseReason}

/-- What is kept along a run: the attempts belong to items and are counted there, a leased
item has its lease in the history, and so has every attempt. -/
structure Accounted (hist : List Commit) (x : Db) : Prop where
  items : ∀ a ∈ x.attempts, ∃ w, Table.find x.workItems a.workItemId = some w ∧
    w.campaignContactId = a.campaignContactId
  counts : ∀ id w, Table.find x.workItems id = some w → w.attemptCount = attemptsOf x id
  leases : ∀ id w, Table.find x.workItems id = some w → w.state = .leased →
    ∃ agent, w.leaseOwnerId = some agent ∧ LeaseFrom hist id agent w.leaseReason
  attempts : ∀ a ∈ x.attempts, MadeUnderLease hist a

theorem MadeUnderLease.cons {a : CallAttempt} (h : MadeUnderLease hist a) (t : Commit) :
    MadeUnderLease (t :: hist) a := by
  obtain ⟨later, c, earlier, rfl, h⟩ := h
  exact ⟨t :: later, c, earlier, rfl, h⟩

/-- The latest lease stays the latest until the item is leased or completed again. -/
theorem LeaseFrom.cons {u : Commit} (h : LeaseFrom hist item agent reason)
    (hl : ¬Commit.Leases item u) (hs : ¬Commit.StoresFor item u) : LeaseFrom (u :: hist) item agent reason := by
  obtain ⟨t, w, w', ht, hw, hw', ho, hr, hn, hd, hc, hi⟩ := h
  refine ⟨t, w, w', .there hl ht, hw, hw', ho, hr, hn, hd, hc, ?_⟩
  simpa only [Latest.cons_iff hs] using hi

/-- An agent takes a waiting item: the reason of the lease tells where from. -/
theorem leaseFrom_of_takes {w w' : WorkItem} (hs : ¬Commit.StoresFor item ⟨op, x, x'⟩)
    (hw : Table.find x.workItems item = some w) (hw' : Table.find x'.workItems item = some w')
    (hl : w'.state = .leased) (ht : Takes agent w w') :
    LeaseFrom (⟨op, x, x'⟩ :: hist) item agent w'.leaseReason := by
  obtain ⟨src, now, hc, ho, hr⟩ := ht
  have hne : w.state ≠ .leased := Work.not_leased_of_conditions hc
  have hredial : ¬∃ p, Commit.Stores ⟨op, x, x'⟩ p ∧ p.workItemId = item ∧ p.agentId = agent ∧
      Latest (Commit.StoresFor item) (⟨op, x, x'⟩ :: hist) ⟨op, x, x'⟩ :=
    fun ⟨p, hp, hi, _⟩ => hs ⟨p, hp, hi⟩
  refine ⟨_, w, w', .here ⟨w, w', hw, hw', hl, Or.inl hne⟩, hw, hw', ho, rfl, ?_⟩
  rw [hr]
  cases src <;> simp only [Source.conditions, Bool.and_eq_true, decide_eq_true_eq] at hc <;>
    simp [Source.reason, hc, hredial]

/-- A leased row that was kept has its lease in the longer history. -/
theorem Accounted.leased (h : Accounted hist x) (hk : RowKept x x' item)
    (hs : ¬Commit.StoresFor item ⟨op, x, x'⟩) {w' : WorkItem} (hw' : Table.find x'.workItems item = some w')
    (hl : w'.state = .leased) :
    ∃ agent, w'.leaseOwnerId = some agent ∧ LeaseFrom (⟨op, x, x'⟩ :: hist) item agent w'.leaseReason := by
  obtain ⟨w, hw, hkeep⟩ | ⟨-, -, hq⟩ := hk w' hw'
  · obtain ⟨hwl, ho, hr⟩ | ⟨agent, ht⟩ := hkeep.lease hl
    · obtain ⟨agent, hagent, hfrom⟩ := h.leases item w hw hwl
      refine ⟨agent, ho.trans hagent, hr ▸ hfrom.cons ?_ hs⟩
      rintro ⟨u, u', hu, -, -, hne | hst⟩
      · obtain rfl : u = w := Option.some.inj (hu.symm.trans hw)
        exact hne hwl
      · exact hs hst
    · exact ⟨agent, ht.choose_spec.choose_spec.2.1, leaseFrom_of_takes hs hw hw' hl ht⟩
  · rw [hq] at hl
    cases hl

/-- The count of a row that was kept. -/
theorem Accounted.count (h : Accounted hist x) (hk : RowKept x x' item) {w' : WorkItem}
    (hw' : Table.find x'.workItems item = some w') : w'.attemptCount = attemptsOf x item := by
  obtain ⟨w, hw, hkeep⟩ | ⟨hnone, hzero, -⟩ := hk w' hw'
  · exact hkeep.count.trans (h.counts item w hw)
  · rw [hzero, attemptsOf, eq_comm, List.length_eq_zero_iff, List.filter_eq_nil_iff]
    intro a ha hid
    obtain ⟨w, hw, -⟩ := h.items a ha
    rw [of_decide_eq_true hid, hnone] at hw
    cases hw

/-- A commit that stores no attempt. -/
theorem Accounted.keep (h : Accounted hist x) (hk : ∀ id, RowKept x x' id)
    (hmem : ∀ a ∈ x'.attempts, a ∈ x.attempts ∧ ∃ w, Table.find x'.workItems a.workItemId = some w)
    (hcount : ∀ id w, Table.find x'.workItems id = some w → attemptsOf x' id = attemptsOf x id) :
    Accounted (⟨op, x, x'⟩ :: hist) x' where
  items a ha := by
    obtain ⟨ha, w', hw'⟩ := hmem a ha
    obtain ⟨w, hw, hcc⟩ := h.items a ha
    obtain ⟨u, hu, hkeep⟩ | ⟨hnone, -⟩ := hk _ w' hw'
    · obtain rfl : u = w := Option.some.inj (hu.symm.trans hw)
      exact ⟨w', hw', hkeep.contact.trans hcc⟩
    · rw [hnone] at hw
      cases hw
  counts id w hw := (h.count (hk id) hw).trans (hcount id w hw).symm
  leases id w hw hl := h.leased (hk id) (fun ⟨a, ⟨ha, hna⟩, _⟩ => hna (hmem a ha).1) hw hl
  attempts a ha := (h.attempts a (hmem a ha).1).cons _

theorem attemptsOf_append {t : CallAttempt} (ha : x'.attempts = x.attempts ++ [t]) (id : Uuid) :
    attemptsOf x' id = attemptsOf x id + if t.workItemId = id then 1 else 0 := by
  unfold attemptsOf
  rw [ha, List.filter_append, List.length_append]
  split_ifs with hid <;> simp [hid]

theorem counted_of_disposes {c : Call} {r : Work.CompleteRequest} {d : CampaignDispositionDefinition}
    {w w' : WorkItem} (h : Work.Disposes c r d w w') :
    w'.campaignContactId = w.campaignContactId ∧ w'.attemptCount = w.attemptCount + 1 := by
  cases h <;> exact ⟨rfl, rfl⟩

/-- A commit that stores the attempt of a completion. -/
theorem Accounted.complete (h : Accounted hist x) {c : Call} {r : Work.CompleteRequest} {t : CallAttempt}
    {w w' : WorkItem} {d : CampaignDispositionDefinition} (ha : x'.attempts = x.attempts ++ [t])
    (hrow : Work.CompletedRow c r x x' t w w' d) (hk : ∀ id, id ≠ r.workItemId → RowKept x x' id)
    (hrows : ∀ id w, Table.find x.workItems id = some w → ∃ w', Table.find x'.workItems id = some w') :
    Accounted (⟨op, x, x'⟩ :: hist) x' := by
  have hid : w.id = r.workItemId := Table.key_of_find hrow.row
  obtain ⟨hcc, hn⟩ := counted_of_disposes hrow.disposes
  obtain ⟨cc, hccid, rfl⟩ := hrow.stored
  have hlease := hrow.lease
  simp only [Work.holdsLease, Bool.and_eq_true, decide_eq_true_eq] at hlease
  obtain ⟨⟨hleased, howner⟩, -⟩ := hlease
  obtain ⟨agent, hagent, hfrom⟩ := h.leases _ w hrow.row hleased
  obtain rfl : agent = r.agentId := Option.some.inj (hagent.symm.trans howner)
  set t := Work.finishAttempt (Work.newAttempt c r w cc d) w' with ht
  have htid : t.workItemId = r.workItemId := hid
  have hstores : Commit.Stores ⟨op, x, x'⟩ t := by
    refine ⟨?_, fun hmem => ?_⟩
    · rw [ha]
      exact List.mem_append_right _ (List.mem_singleton_self t)
    · exact Table.find_eq_none.1 hrow.fresh t hmem rfl
  have hother (id : Uuid) (hne : id ≠ r.workItemId) : ¬Commit.StoresFor id ⟨op, x, x'⟩ := by
    rintro ⟨b, ⟨hb, hnb⟩, rfl⟩
    rw [ha, List.mem_append, List.mem_singleton] at hb
    obtain hb | rfl := hb
    · exact hnb hb
    · exact hne htid
  refine ⟨fun b hb => ?_, fun id v hv => ?_, fun id v hv hl => ?_, fun b hb => ?_⟩
  · rw [ha, List.mem_append, List.mem_singleton] at hb
    obtain hb | rfl := hb
    · obtain ⟨v, hv, hvc⟩ := h.items b hb
      by_cases hne : b.workItemId = r.workItemId
      · obtain rfl : v = w := Option.some.inj (hv.symm.trans (hne ▸ hrow.row))
        exact ⟨w', hne ▸ hrow.final, hcc.trans hvc⟩
      · obtain ⟨v', hv'⟩ := hrows _ v hv
        obtain ⟨u, hu, hkeep⟩ | ⟨hnone, -⟩ := hk _ hne v' hv'
        · obtain rfl : u = v := Option.some.inj (hu.symm.trans hv)
          exact ⟨v', hv', hkeep.contact.trans hvc⟩
        · rw [hnone] at hv
          cases hv
    · exact ⟨w', htid ▸ hrow.final, hcc.trans hccid.symm⟩
  · rw [attemptsOf_append ha, htid]
    by_cases hne : r.workItemId = id
    · subst hne
      obtain rfl : v = w' := Option.some.inj (hv.symm.trans hrow.final)
      rw [if_pos rfl, hn, h.counts _ w hrow.row]
    · rw [if_neg hne]
      exact h.count (hk id (Ne.symm hne)) hv
  · by_cases hne : id = r.workItemId
    · subst hne
      obtain rfl : v = w' := Option.some.inj (hv.symm.trans hrow.final)
      obtain rfl := hrow.disposes.redialled hl
      have hfor : Commit.StoresFor r.workItemId ⟨op, x, x'⟩ := ⟨t, hstores, htid⟩
      refine ⟨r.agentId, rfl, _, w, _, .here ⟨w, _, hrow.row, hv, hl, Or.inr hfor⟩, hrow.row, hv, rfl, rfl, ?_⟩
      simp only [Work.redialled, hleased, reduceCtorEq, Option.some.injEq, false_and, true_iff, true_and]
      exact ⟨t, hstores, htid, rfl, .here hfor⟩
    · exact h.leased (hk id hne) (hother id hne) hv hl
  · rw [ha, List.mem_append, List.mem_singleton] at hb
    obtain hb | rfl := hb
    · exact (h.attempts b hb).cons _
    · exact ⟨[], _, hist, rfl, hstores, htid ▸ hfrom⟩

end Accounts

/-! ## The other requests -/

section Requests

variable {x y x' : Db}

/-- Every attempt belongs to a work item, and to its contact. -/
def Linked (x : Db) : Prop := ∀ a ∈ x.attempts, ∃ w, Table.find x.workItems a.workItemId = some w ∧
  w.campaignContactId = a.campaignContactId

/-- No attempt is stored, no item is leased, and an item that is still there keeps its attempts. -/
structure Quiet (x x' : Db) : Prop where
  rows : ∀ id w', Table.find x'.workItems id = some w' → ∃ w, Table.find x.workItems id = some w ∧
    w'.campaignContactId = w.campaignContactId ∧ w'.attemptCount = w.attemptCount ∧
    (w' = w ∨ w'.state ≠ .leased)
  attempts : ∀ a ∈ x'.attempts, a ∈ x.attempts ∧ ∃ w, Table.find x'.workItems a.workItemId = some w
  counts : ∀ id w, Table.find x'.workItems id = some w → attemptsOf x' id = attemptsOf x id

theorem Quiet.of_items (hl : Linked x) (hw : x'.workItems = x.workItems) (ha : x'.attempts = x.attempts) :
    Quiet x x' where
  rows id w' hw' := ⟨w', hw ▸ hw', rfl, rfl, Or.inl rfl⟩
  attempts a hin := by
    rw [ha] at hin
    obtain ⟨w, hfind, -⟩ := hl a hin
    exact ⟨hin, w, hw ▸ hfind⟩
  counts id w _ := by rw [attemptsOf, ha, attemptsOf]

theorem Quiet.trans (h : Quiet x y) (h' : Quiet y x') : Quiet x x' where
  rows id w'' hw'' := by
    obtain ⟨w', hw', hc', hn', hs'⟩ := h'.rows id w'' hw''
    obtain ⟨w, hw, hc, hn, hs⟩ := h.rows id w' hw'
    refine ⟨w, hw, hc'.trans hc, hn'.trans hn, ?_⟩
    obtain rfl | hs' := hs'
    · exact hs
    · exact Or.inr hs'
  attempts a ha := ⟨(h.attempts a (h'.attempts a ha).1).1, (h'.attempts a ha).2⟩
  counts id w hw := by
    obtain ⟨w', hw', -⟩ := h'.rows id w hw
    exact (h'.counts id w hw).trans (h.counts id w' hw')

theorem Quiet.linked (h : Quiet x x') (hl : Linked x) : Linked x' := by
  intro a ha
  obtain ⟨hin, w', hw'⟩ := h.attempts a ha
  obtain ⟨w, hw, hcc⟩ := hl a hin
  obtain ⟨u, hu, hc, -⟩ := h.rows _ w' hw'
  obtain rfl : u = w := Option.some.inj (hu.symm.trans hw)
  exact ⟨w', hw', hc.trans hcc⟩

theorem quiet_released (hl : Linked x) {agent campaign : Uuid} (hw : x'.workItems = releasedRows x agent campaign)
    (ha : x'.attempts = x.attempts) : Quiet x x' where
  rows id w' hw' := by
    rw [hw, find_released] at hw'
    obtain ⟨w, hfind, rfl⟩ := Option.map_eq_some_iff.1 hw'
    refine ⟨w, hfind, ?_⟩
    split_ifs
    · exact ⟨rfl, rfl, Or.inr nofun⟩
    · exact ⟨rfl, rfl, Or.inl rfl⟩
  attempts a hin := by
    rw [ha] at hin
    obtain ⟨w, hfind, -⟩ := hl a hin
    refine ⟨hin, ?_⟩
    rw [hw, find_released, hfind, Option.map_some]
    exact ⟨_, rfl⟩
  counts id w _ := by rw [attemptsOf, ha, attemptsOf]

/-- What is left by a purge: items and attempts go by the same contacts. -/
theorem quiet_purged (hu : Table.Unique x.workItems) (hl : Linked x) (campaign : Uuid) :
    Quiet x (purged campaign x) where
  rows id w' hw' := by
    have hmem := (List.mem_filter.1 (Table.mem_of_find hw')).1
    obtain rfl : w'.id = id := Table.key_of_find hw'
    exact ⟨w', hu.find_of_mem hmem, rfl, rfl, Or.inl rfl⟩
  attempts a ha := by
    obtain ⟨ha, hkeep⟩ := List.mem_filter.1 ha
    obtain ⟨w, hw, hcc⟩ := hl a ha
    rw [← hcc] at hkeep
    obtain hid : w.id = a.workItemId := Table.key_of_find hw
    exact ⟨ha, w, hid ▸ (hu.filter _).find_of_mem (List.mem_filter.2 ⟨Table.mem_of_find hw, hkeep⟩)⟩
  counts id w' hw' := by
    obtain ⟨hmem, hkeep⟩ := List.mem_filter.1 (Table.mem_of_find hw')
    obtain rfl : w'.id = id := Table.key_of_find hw'
    change ((x.attempts.filter _).filter _).length = (x.attempts.filter _).length
    rw [List.filter_filter]
    congr 1
    refine List.filter_congr fun a ha => ?_
    by_cases hid : a.workItemId = w'.id
    · obtain ⟨w, hw, hcc⟩ := hl a ha
      obtain rfl : w = w' := Option.some.inj (hw.symm.trans (hid ▸ hu.find_of_mem hmem))
      rw [← hcc, hkeep, Bool.and_true]
    · rw [decide_eq_false hid, Bool.false_and]

theorem Tidies.quiet (hu : Table.Unique x.workItems) (hl : Linked x) (h : Tidies x x') :
    Quiet x x' ∧ Table.Unique x'.workItems := by
  cases h with
  | frame hw hcc ha hk => exact ⟨.of_items hl hw ha, hw ▸ hu⟩
  | release agent campaign hw hcc ha hk =>
    exact ⟨quiet_released hl hw ha, hw ▸ unique_of_keys (releasedRows_keys x agent campaign) hu⟩
  | complete h =>
    obtain ⟨row, f, ns, e, rfl, -⟩ := h
    exact ⟨.of_items hl rfl rfl, hu⟩
  | purge campaign h =>
    obtain ⟨k, e, rfl, -⟩ := h
    exact ⟨{ quiet_purged hu hl campaign with }, hu.filter _⟩

theorem quiet_of_tidies (hu : Table.Unique x.workItems) (hl : Linked x) (h : Relation.ReflTransGen Tidies x x') :
    Quiet x x' := by
  have hall : Quiet x x' ∧ Table.Unique x'.workItems := by
    induction h with
    | refl => exact ⟨.of_items hl rfl rfl, hu⟩
    | tail _ hs ih =>
      obtain ⟨hq, hy⟩ := ih
      obtain ⟨hq', hy'⟩ := hs.quiet hy (hq.linked hl)
      exact ⟨hq.trans hq', hy'⟩
  exact hall.1

/-- A request outside the work queue. -/
theorem Accounted.quiet {hist : List Commit} {op : Op} (h : Accounted hist x) (hq : Quiet x x') :
    Accounted (⟨op, x, x'⟩ :: hist) x' := by
  refine h.keep (fun id w' hw' => Or.inl ?_) hq.attempts hq.counts
  obtain ⟨w, hw, hc, hn, hs⟩ := hq.rows id w' hw'
  refine ⟨w, hw, ?_⟩
  obtain rfl | hs := hs
  · exact .refl _
  · exact .of_notLeased hc hn hs

/-- A commit of the work queue. -/
theorem Accounted.work {hist : List Commit} {op : Op} {q : Queue.Op} {a : Queue.Result} {held : LockKey → Prop}
    (h : Accounted hist x) (he : q.Effect a held x x') : Accounted (⟨op, x, x'⟩ :: hist) x' := by
  have hrows (id : Uuid) (w : WorkItem) (hw : Table.find x.workItems id = some w) :
      ∃ w', Table.find x'.workItems id = some w' := by
    obtain ⟨w', hw', -⟩ := he.row_forth hw
    exact ⟨w', hw'⟩
  obtain ⟨ha, hk⟩ | ⟨c, r, t, w, w', d, ha, hrow, hk⟩ := stores_of_effect he
  · refine h.keep hk (fun b hb => ?_) fun id w _ => by rw [attemptsOf, ha, attemptsOf]
    rw [ha] at hb
    obtain ⟨w, hw, -⟩ := h.items b hb
    exact ⟨hb, hrows _ w hw⟩
  · exact h.complete ha hrow hk hrows

end Requests

/-! ## Runs -/

/-- The transactions of the work queue interleave; each other request runs between them. -/
abbrev Recorded (v : Db) : System Db LockKey Err Queue.Result Queue.Op → List Commit → Prop :=
  Tx.Recorded Queue.body Op.work (fun op x x' => ∃ a, (body op).Runs x a x') v

/-- The work queue before the first lease. -/
structure Untouched (v : Db) : Prop where
  attempts : v.attempts = []
  workItems : ∀ w ∈ v.workItems, w.attemptCount = 0 ∧ w.state ≠ .leased

theorem accounted_of_recorded {v : Db} (hv : Valid v) (hn : Untouched v)
    {s : System Db LockKey Err Queue.Result Queue.Op} {hist : List Commit} (h : Recorded v s hist) :
    Valid s.committed ∧ Accounted hist s.committed := by
  refine (Tx.Recorded.invariant Queue.protocol_valid (I := fun hist x => Valid x ∧ Accounted hist x)
    (fun _ _ hI => hI.1.wellFormed) ?commit ?request ⟨hv, ?init⟩ h).2
  case commit =>
    intro hist op a x x' ⟨held, he⟩ ⟨hx, hI⟩
    exact ⟨⟨he.wellFormed hx.wellFormed, unique_of_keys he.importKeys hx.importJobs⟩, hI.work he⟩
  case request =>
    intro hist op x x' ⟨a, hr⟩ ⟨hx, hI⟩
    have he := hx.effect hr
    refine ⟨hx.step he, ?_⟩
    obtain ⟨q, rfl⟩ | ht := he.tidies
    · obtain ⟨b, hb, -⟩ := Prog.runs_map.1 hr
      obtain ⟨held, hq⟩ := Queue.effect_of_runs hx.wellFormed hb
      exact hI.work hq
    · exact hI.quiet (quiet_of_tidies hx.wellFormed.workItems hI.items ht)
  case init =>
    refine ⟨by simp [hn.attempts], fun id w hw => ?_, fun id w hw hl => ?_, by simp [hn.attempts]⟩
    · rw [(hn.workItems w (Table.mem_of_find hw)).1, attemptsOf, hn.attempts]
      rfl
    · exact absurd hl (hn.workItems w (Table.mem_of_find hw)).2

/-- In any run, a work item counts its stored attempts, and an attempt carries the reason of
the latest lease of its item before it. -/
theorem attempt_accounting {v : Db} (hv : Valid v) (hn : Untouched v)
    {s : System Db LockKey Err Queue.Result Queue.Op} {hist : List Commit} (h : Recorded v s hist) :
    (∀ w ∈ s.committed.workItems, w.attemptCount = attemptsOf s.committed w.id) ∧
      ∀ a ∈ s.committed.attempts, MadeUnderLease hist a := by
  obtain ⟨hx, hI⟩ := accounted_of_recorded hv hn h
  exact ⟨fun w hw => hI.counts _ w (hx.wellFormed.workItems.find_of_mem hw), hI.attempts⟩

theorem untouched_demo : Untouched Queue.Demo.db := ⟨rfl, by decide⟩

theorem valid_demo : Valid Queue.Demo.db := ⟨Queue.Demo.db_wellFormed, by decide⟩

/-- Agent 5 leases the contact, loses the line, gets the contact again and completes it. -/
def Demo.redialled : System Db LockKey Err Queue.Result Queue.Op :=
  Queue.Demo.run (Queue.Demo.turns 1 (.leaseNext (Queue.Demo.call 1) 5) 40 ++
    Queue.Demo.turns 1 (Queue.Demo.complete 2 1 5 54) 40 ++
    Queue.Demo.turns 1 (.completeWorkItem (Queue.Demo.call 3) {
      workItemId := 30, agentId := 5, leaseId := 201, dispositionId := 50, idempotencyKey := "again" }) 40)

theorem attempt_accounting_redialled : ∃ hist, Recorded Queue.Demo.db Demo.redialled hist ∧
    Demo.redialled.committed.attempts.map CallAttempt.sourceLeaseReason = [some .normal, some .immediateRedial] ∧
    (∀ w ∈ Demo.redialled.committed.workItems, w.attemptCount = attemptsOf Demo.redialled.committed w.id) ∧
    ∀ a ∈ Demo.redialled.committed.attempts, MadeUnderLease hist a := by
  obtain ⟨hist, h⟩ := Tx.Recorded.reaches Tx.Recorded.init (Queue.Demo.reaches_run _)
  exact ⟨hist, h, by decide +kernel, attempt_accounting valid_demo untouched_demo h⟩

end Service

end OmniDB
