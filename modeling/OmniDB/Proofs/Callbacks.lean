import OmniDB.Proofs.Queue

/-! Who owns a callback. `assigned_agent_id` is written when a callback is scheduled and
read when a lease is taken back; in between, a skip, a requeue and an immediate redial
leave it on the row. As long as none of them acts on the lease of a callback, the agent
on the row is the owner of the callback and of its lease. -/

namespace OmniDB.Queue

open Tx
open Work (Accepts CompleteRequest CompletedRow holdsLease)

/-- The agent on the row is that of the callback, and only of a callback. -/
structure Owned (w : WorkItem) : Prop where
  shared : w.state = .queued ∨ w.state = .retryWait → w.assignedAgentId = none
  leased : w.state = .leased →
    (w.assignedAgentId = none ∧ w.leaseReason ≠ some .scheduledCallback) ∨
    (w.assignedAgentId = w.leaseOwnerId ∧ w.leaseOwnerId.isSome = true ∧
      w.leaseReason = some .scheduledCallback)

def CallbackOwnership (db : Db) : Prop := ∀ w ∈ db.workItems, Owned w

/-- A state in which the agent on the row does not matter. -/
theorem owned_of_state {w : WorkItem} (hq : w.state ≠ .queued) (hr : w.state ≠ .retryWait)
    (hl : w.state ≠ .leased) : Owned w :=
  ⟨fun h => (h.elim hq hr).elim, fun h => (hl h).elim⟩

theorem owned_of_none {w : WorkItem} (ha : w.assignedAgentId = none) (hl : w.state ≠ .leased) : Owned w :=
  ⟨fun _ => ha, fun h => (hl h).elim⟩

/-- The lease of the row is live at `now` and comes from a callback. -/
def FromCallback (w : WorkItem) (agent leaseId : Uuid) (now : Time) : Prop :=
  holdsLease w agent leaseId = true ∧ (w.leaseExpiresAt.any fun t => t ≤ now) = false ∧
    w.assignedAgentId.isSome = true

/-- The operation takes a branch that leaves the agent of a callback on the row: a skip
back to the queue, or a first completion that requeues or redials below the ceiling. -/
def Forgets (db : Db) : Op → Prop
  | .skipWorkItem c id agent leaseId reason => blank reason = false ∧
      ∃ w, Table.find db.workItems id = some w ∧ FromCallback w agent leaseId (c.utcnow 0) ∧
        w.skipCount + 1 < c.settings.maxSkipsBeforeReview
  | .completeWorkItem c r =>
      (∀ b ∈ db.attempts, ¬(b.agentId = r.agentId ∧ b.idempotencyKey = r.idempotencyKey)) ∧
      ∃ w d, Table.find db.workItems r.workItemId = some w ∧
        FromCallback w r.agentId r.leaseId (c.utcnow 1) ∧
        Table.find db.dispositions r.dispositionId = some d ∧ db.campaignOf w = some d.campaignId ∧
        Accepts r d.campaignId d ∧ d.causesDnc = false ∧ d.requiresCallbackTime = false ∧
        (d.nextAction = some .requeue ∨ d.nextAction = some .immediateRedial) ∧
        (w.attemptCount : ℤ) + 1 < w.maxAttempts
  | _ => False

/-! ## One commit -/

theorem owned_leaseTo {c : Call} {agent assignment : Uuid} {src : Work.Source} {now : Time} {w : WorkItem}
    (ho : Owned w) (hc : src.conditions agent now w = true) :
    Owned (Work.leaseTo c agent src assignment w) := by
  refine ⟨by simp [Work.leaseTo], fun _ => ?_⟩
  cases src with
  | callback =>
    simp only [Work.Source.conditions, Bool.and_eq_true, decide_eq_true_eq] at hc
    exact Or.inr ⟨hc.1.2, rfl, rfl⟩
  | dueRetry =>
    simp only [Work.Source.conditions, Bool.and_eq_true, decide_eq_true_eq] at hc
    exact Or.inl ⟨ho.shared (Or.inr hc.1), by simp [Work.leaseTo, Work.Source.reason]⟩
  | queue =>
    simp only [Work.Source.conditions, decide_eq_true_eq] at hc
    exact Or.inl ⟨ho.shared (Or.inl hc), by simp [Work.leaseTo, Work.Source.reason]⟩

theorem owned_reclaimed (w : WorkItem) : Owned (Work.reclaimed w) := by
  cases ha : w.assignedAgentId with
  | none => exact owned_of_none ha (Work.reclaimed_not_leased w)
  | some agent =>
    have hs : (Work.reclaimed w).state = .callbackWait := by
      rw [Work.reclaimed_state, if_pos (by rw [ha]; rfl)]
    exact owned_of_state (by simp [hs]) (by simp [hs]) (by simp [hs])

theorem owned_skipped {c : Call} {w : WorkItem}
    (h : w.skipCount + 1 < c.settings.maxSkipsBeforeReview → w.assignedAgentId = none) :
    Owned (Work.skipped c w) := by
  by_cases hx : w.skipCount + 1 < c.settings.maxSkipsBeforeReview
  · have hs : (Work.skipped c w).state = .queued := if_neg (not_le.2 hx)
    exact owned_of_none (h hx) (by simp [hs])
  · have hs : (Work.skipped c w).state = .review := if_pos (not_lt.1 hx)
    exact owned_of_state (by simp [hs]) (by simp [hs]) (by simp [hs])

/-- The branches of a completion, one by one. -/
theorem owned_disposed {c : Call} {r : CompleteRequest} {d : CampaignDispositionDefinition}
    {w w' : WorkItem} (hd : Work.Disposes c r d w w')
    (h : d.causesDnc = false → d.requiresCallbackTime = false →
      d.nextAction = some .requeue ∨ d.nextAction = some .immediateRedial →
      (w.attemptCount : ℤ) + 1 < w.maxAttempts → w.assignedAgentId = none) : Owned w' := by
  cases hd with
  | dnc | callback | review | complete => exact owned_of_state nofun nofun nofun
  | requeue ha hn hc hx => exact owned_of_none (h hn hc (Or.inl ha) hx) nofun
  | retryWait => exact owned_of_none rfl nofun
  | redial ha hn hc hx =>
    exact ⟨fun hs => hs.elim nofun nofun, fun _ => Or.inl ⟨h hn hc (Or.inr ha) hx, nofun⟩⟩

/-- The rows after a commit are owned if the changed ones are. -/
theorem ownership_of_work {held : LockKey → Prop} {Δ : WorkItem → WorkItem → Prop}
    {new : List CallAttempt} {dnc : List SuppressionEntry} {x x' : Db} (hx : x.WellFormed)
    (h : WorkEffect held Δ new dnc x x') (ho : CallbackOwnership x)
    (hΔ : ∀ id w w', Table.find x.workItems id = some w → Table.find x'.workItems id = some w' →
      Owned w → Δ w w' → Owned w') : CallbackOwnership x' := by
  intro w' hw'
  have hfind := (h.wellFormed hx).workItems.find_of_mem hw'
  obtain ⟨w, hw, -, rfl | ⟨-, hd⟩⟩ := h.workItem_back hfind
  · exact ho _ (Table.mem_of_find hw)
  · exact hΔ _ w w' hw hfind (ho w (Table.mem_of_find hw)) hd

theorem ownership_of_lease {c : Call} {agent : Uuid} {res : Option Work.LeaseResult}
    {held : LockKey → Prop} {x x' : Db} (hx : x.WellFormed) (h : Work.LeaseEffect c agent res held x x')
    (ho : CallbackOwnership x) : CallbackOwnership x' := by
  have closes : ∀ {w w'}, Work.ClosesAtLease (c.utcnow 0) w w' → Owned w' := by
    rintro w w' ⟨-, rfl⟩
    exact owned_of_state nofun nofun nofun
  cases res with
  | none => exact ownership_of_work hx h.1 ho fun _ _ _ _ _ _ hd => closes hd
  | some lease =>
    rcases h with ⟨rfl, -⟩ | ⟨w, src, a, f, h⟩
    · exact ho
    · refine ownership_of_work hx h.effect ho fun _ v v' _ _ hv hd => ?_
      rcases hd with hd | ⟨rfl, rfl⟩
      · exact closes hd
      · exact owned_leaseTo hv h.condition

theorem ownership_of_completion {c : Call} {r : CompleteRequest} {res : Work.CompletionResult}
    {held : LockKey → Prop} {x x' : Db} (hx : x.WellFormed) (hf : ¬Forgets x (.completeWorkItem c r))
    (h : Work.CompleteEffect c r res held x x') (ho : CallbackOwnership x) : CallbackOwnership x' := by
  rcases h with ⟨rfl, -⟩ | ⟨a, dnc, h⟩
  · exact ho
  obtain ⟨w, w', d, hrow⟩ := h.row
  refine ownership_of_work hx h.effect ho fun id v v' hv hv' _ hd => ?_
  rcases hd with ⟨-, rfl⟩ | ⟨hid, -⟩
  · exact owned_of_state nofun nofun nofun
  -- the leased row
  obtain rfl : id = r.workItemId := (Table.key_of_find hv).symm.trans hid
  obtain rfl : w' = v' := Option.some.inj (hrow.final.symm.trans hv')
  refine owned_disposed hrow.disposes fun hdnc hcb ha hx => ?_
  by_contra hassigned
  exact hf ⟨h.first, w, d, hrow.row, ⟨hrow.lease, hrow.live, Option.isSome_iff_ne_none.2 hassigned⟩,
    hrow.disposition, hrow.campaign, hrow.accepts, hdnc, hcb, ha, hx⟩

/-- One commit keeps the owners of callbacks. -/
theorem ownership_step {op : Op} {a : Result} {held : LockKey → Prop} {x x' : Db} (hx : x.WellFormed)
    (hf : ¬Forgets x op) (h : op.Effect a held x x') (ho : CallbackOwnership x) :
    CallbackOwnership x' := by
  cases op <;> cases a
  case leaseNext.lease => exact ownership_of_lease hx h ho
  case getActiveLease.lease => exact h.1 ▸ ho
  case completeWorkItem.completion => exact ownership_of_completion hx hf h ho
  case skipWorkItem.item c id agent leaseId reason w₀ =>
    refine ownership_of_work hx h ho fun i w w' hw _ _ hd => ?_
    obtain rfl : i = id := (Table.key_of_find hw).symm.trans hd.id
    rw [hd.eq]
    refine owned_skipped fun hskip => ?_
    by_contra hassigned
    exact hf ⟨hd.reason, w, hw, ⟨hd.lease, hd.live, Option.isSome_iff_ne_none.2 hassigned⟩, hskip⟩
  case renewLease.item =>
    refine ownership_of_work hx h ho fun _ w w' _ _ hw hd => ?_
    rw [hd.eq]
    exact ⟨hw.shared, hw.leased⟩
  case reclaimExpiredLeases.count | reclaimLeasesForUser.count =>
    refine ownership_of_work hx h ho fun _ w w' _ _ _ ⟨_, _, hd⟩ => ?_
    rw [hd]
    exact owned_reclaimed w
  case releaseCampaignWorkForAgent.count =>
    refine ownership_of_work hx h ho fun _ w w' _ _ _ ⟨_, hd⟩ => ?_
    rw [hd]
    exact owned_of_none rfl nofun
  case rescheduleReviewItem.item =>
    refine ownership_of_work hx h ho fun _ w w' _ _ _ ⟨_, _, hd⟩ => ?_
    rw [hd]
    exact owned_of_none rfl nofun
  case increaseReviewItemAttempts.item =>
    refine ownership_of_work hx h ho fun _ w w' _ _ _ hd => ?_
    rw [hd.eq]
    exact owned_of_none rfl nofun
  case closeReviewItem.item =>
    refine ownership_of_work hx h ho fun _ w w' _ _ _ ⟨_, _, hd⟩ => ?_
    rw [hd]
    exact owned_of_state nofun nofun nofun
  case commitImport.imported =>
    obtain ⟨job, campaign, ks, ccs, ws, h⟩ := h
    intro w hw
    rcases h.workItem_back (h.wellFormed.workItems.find_of_mem hw) with hw | hw
    · exact ho w (Table.mem_of_find hw)
    · rw [(h.workItem w hw).2.2]
      exact owned_of_none rfl nofun
  all_goals exact h.elim

/-! ## Runs -/

/-- The agent on a row is null in the shared pool, and null or the owner of the lease on a
leased row. -/
def AgentsInPlace (db : Db) : Prop :=
  ∀ w ∈ db.workItems, (w.state = .queued ∨ w.state = .retryWait → w.assignedAgentId = none) ∧
    (w.state = .leased → w.assignedAgentId = none ∨ w.assignedAgentId = w.leaseOwnerId)

theorem agentsInPlace {db : Db} (h : CallbackOwnership db) : AgentsInPlace db := by
  refine fun w hw => ⟨(h w hw).shared, fun hl => ?_⟩
  rcases (h w hw).leased hl with ⟨ha, -⟩ | ⟨ha, -⟩
  · exact Or.inl ha
  · exact Or.inr ha

/-- Both operations that take leases back. -/
def Op.TakesBack : Op → Prop
  | .reclaimExpiredLeases _ | .reclaimLeasesForUser .. => True
  | _ => False

/-- A lease that is taken back goes to the agent's callbacks if it came from them, and to
the shared pool otherwise. -/
def ReturnsToPool (w w' : WorkItem) : Prop :=
  (∀ agent, (w'.state = .callbackWait ∧ w'.assignedAgentId = some agent) ↔
    (w.leaseOwnerId = some agent ∧ w.leaseReason = some .scheduledCallback)) ∧
  (w.leaseReason ≠ some .scheduledCallback → w'.state = .queued ∧ w'.assignedAgentId = none)

theorem returnsToPool_reclaimed {w : WorkItem} (ho : Owned w) (hl : w.state = .leased) :
    ReturnsToPool w (Work.reclaimed w) := by
  have hassigned : (Work.reclaimed w).assignedAgentId = w.assignedAgentId := rfl
  unfold ReturnsToPool
  rw [Work.reclaimed_state, hassigned]
  rcases ho.leased hl with ⟨ha, hr⟩ | ⟨ha, hsome, hr⟩
  · simp [ha, hr]
  · simp [ha, hsome, hr]

theorem taken_back {op : Op} {a : Result} {held : LockKey → Prop} {x x' : Db} (hop : op.TakesBack)
    (h : op.Effect a held x x') {id : Uuid} {w w' : WorkItem} (hw : Table.find x.workItems id = some w)
    (hw' : Table.find x'.workItems id = some w') (hl : w.state = .leased) (hl' : w'.state ≠ .leased) :
    w' = Work.reclaimed w := by
  have work : ∀ {cond}, WorkEffect held (Work.Reclaims cond) [] [] x x' → w' = Work.reclaimed w := by
    intro cond h
    obtain ⟨v, hv, -, hd⟩ := h.workItem_back hw'
    obtain rfl : w = v := Option.some.inj (hw.symm.trans hv)
    rcases hd with rfl | ⟨-, -, -, hd⟩
    · exact absurd hl hl'
    · exact hd
  cases op <;> cases a
  case reclaimExpiredLeases.count => exact work h
  case reclaimLeasesForUser.count => exact work h
  all_goals first | exact h.elim | exact hop.elim

/-- In a run in which no operation forgets a callback's agent, agents are in place in every
state, and leases that are taken back return to where they came from. -/
theorem callback_ownership {v db : Db} (hv : v.WellFormed) (ho : CallbackOwnership v)
    (h : Prog.Serial body (fun db op => ¬Forgets db op) v db) :
    AgentsInPlace db ∧ ∀ op db', op.TakesBack → ((body op).transact db).2 = db' →
      ∀ id w w', Table.find db.workItems id = some w → Table.find db'.workItems id = some w' →
        w.state = .leased → w'.state ≠ .leased → ReturnsToPool w w' := by
  obtain ⟨hdb, ho⟩ := invariant_of_serial
    (fun op a held x x' hx hf he ho => ownership_step hx hf he ho) hv ho h
  refine ⟨agentsInPlace ho, fun op db' hop hrun id w w' hw hw' hl hl' => ?_⟩
  rcases Prog.transact_cases hrun with rfl | ⟨a, hrun⟩
  · exact absurd (Option.some.inj (hw.symm.trans hw') ▸ hl) hl'
  · obtain ⟨held, he⟩ := effect_of_runs hdb hrun
    rw [taken_back hop he hw hw' hl hl']
    exact returnsToPool_reclaimed (ho w (Table.mem_of_find hw)) hl

/-- The small database with a due callback of agent 5. -/
def Demo.callbackDb : Db := { Demo.db with
  workItems := [{
    id := 30, campaignContactId := 20, state := .callbackWait, assignedAgentId := some 5
    dueAt := some 0 }] }

theorem callback_ownership_reclaimed : AgentsInPlace (Prog.serially body Demo.callbackDb
    [.leaseNext (Demo.call 1) 5, .reclaimExpiredLeases (Demo.call 60)]) :=
  (callback_ownership
    (.of_mem (by decide) (by decide) (by decide) (by decide) (by decide) (by decide))
    (by simp [CallbackOwnership, Demo.callbackDb, owned_of_state])
    (Prog.serial_serially (by simp [Forgets]) _)).1

/-- Agent 5 skips a due callback; agent 6 then leases the item from the shared pool and lets
the lease expire. -/
def Demo.skippedCallback : List Op :=
  [.leaseNext (Demo.call 1) 5, .skipWorkItem (Demo.call 2) 30 5 100 "wrong person"]

/-- The item is back in the shared pool with the agent of the callback on it, and the lease
that agent 6 takes of it returns to agent 5. -/
theorem skip_keeps_callback_agent :
    CallbackOwnership Demo.callbackDb ∧
    Prog.Serial body (fun _ _ => True) Demo.callbackDb
      (Prog.serially body Demo.callbackDb Demo.skippedCallback) ∧
    ¬AgentsInPlace (Prog.serially body Demo.callbackDb Demo.skippedCallback) ∧
    (Prog.serially body Demo.callbackDb (Demo.skippedCallback ++
      [.leaseNext (Demo.call 10) 6, .reclaimExpiredLeases (Demo.call 60)])).workItems.map
        (fun w => (w.state, w.assignedAgentId)) = [(.callbackWait, some 5)] := by
  refine ⟨by simp [CallbackOwnership, Demo.callbackDb, owned_of_state],
    Prog.serial_serially (fun _ _ _ => trivial) _, ?_, by decide +kernel⟩
  unfold AgentsInPlace
  decide +kernel

end OmniDB.Queue
