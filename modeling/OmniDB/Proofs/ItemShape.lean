import OmniDB.Proofs.Queue

/-! The shape of a work item. Seven columns of a row hold its lease and its schedule, and
every branch writes its own subset of them by hand. All of them together keep the row in
one of the shapes below and count each change in `version`. -/

namespace OmniDB.Queue

open Tx
open Work (holdsLease)

/-- The columns of the lease are set on a leased row and null on any other; a row that
waits knows for what. -/
structure Shaped (w : WorkItem) : Prop where
  leased : w.state = .leased → w.leaseOwnerId.isSome = true ∧ w.leaseId.isSome = true ∧
    w.leaseExpiresAt.isSome = true ∧ w.leaseReason.isSome = true
  unleased : w.state ≠ .leased → w.leaseOwnerId = none ∧ w.leaseId = none ∧ w.leaseExpiresAt = none
  callbackWait : w.state = .callbackWait → w.assignedAgentId.isSome = true
  retryWait : w.state = .retryWait → w.dueAt.isSome = true
  /-- A lease of a callback that is taken back finds its due time again. -/
  assigned : w.assignedAgentId.isSome = true → w.dueAt.isSome = true

/-! ## One row -/

section Rows

variable {w w' : WorkItem}

/-- A queued row that no operation has touched. -/
theorem shaped_new (id cc : Uuid) (createdAt : Time) :
    Shaped { id := id, campaignContactId := cc, createdAt := createdAt } :=
  ⟨by simp, fun _ => ⟨rfl, rfl, rfl⟩, by simp, by simp, by simp⟩

/-- The columns of the lease are cleared. -/
theorem shaped_unlease {state : WorkState} (h : Shaped w) (hl : state ≠ .leased)
    (hc : state = .callbackWait → w.assignedAgentId.isSome = true) (hr : state ≠ .retryWait) :
    Shaped (Work.unlease w state) :=
  ⟨fun hs => (hl hs).elim, fun _ => ⟨rfl, rfl, rfl⟩, hc, fun hs => (hr hs).elim, h.assigned⟩

theorem shaped_counted (h : Shaped w) : Shaped (Work.counted w) :=
  ⟨h.leased, h.unleased, h.callbackWait, h.retryWait, h.assigned⟩

theorem shaped_reclaimed (h : Shaped w) : Shaped (Work.reclaimed w) := by
  unfold Work.reclaimed
  split_ifs with ha
  · exact shaped_unlease h (by simp) (fun _ => ha) (by simp)
  · exact shaped_unlease h (by simp) (by simp) (by simp)

theorem shaped_skipped {c : Call} (h : Shaped w) : Shaped (Work.skipped c w) := by
  have hs : Shaped (Work.unlease w
      (if c.settings.maxSkipsBeforeReview ≤ w.skipCount + 1 then .review else .queued)) := by
    split_ifs
    · exact shaped_unlease h (by simp) (by simp) (by simp)
    · exact shaped_unlease h (by simp) (by simp) (by simp)
  exact ⟨hs.leased, hs.unleased, hs.callbackWait, hs.retryWait, hs.assigned⟩

theorem shaped_suppressed {now : Time} (h : Shaped w) : Shaped (Work.suppressed now w) := by
  have hs : Shaped (Work.unlease w .suppressed) := shaped_unlease h (by simp) (by simp) (by simp)
  exact ⟨hs.leased, hs.unleased, hs.callbackWait, hs.retryWait, hs.assigned⟩

theorem shaped_disposed {c : Call} {r : Work.CompleteRequest} {d : CampaignDispositionDefinition}
    (hd : Work.Disposes c r d w w') (h : Shaped w) : Shaped w' := by
  have hc := shaped_counted h
  cases hd with
  | dnc => exact shaped_suppressed hc
  | callback hn hcb hs =>
    exact ⟨by simp [Work.callbackFor], fun _ => ⟨rfl, rfl, rfl⟩, fun _ => rfl,
      by simp [Work.callbackFor], fun _ => hs⟩
  | review | requeue => exact shaped_unlease hc (by simp) (by simp) (by simp)
  | retryWait => exact ⟨by simp, fun _ => ⟨rfl, rfl, rfl⟩, by simp, fun _ => rfl, fun _ => rfl⟩
  | redial => exact ⟨fun _ => ⟨rfl, rfl, rfl, rfl⟩, by simp, by simp, by simp, hc.assigned⟩
  | complete =>
    have hs : Shaped (Work.unlease (Work.counted w) .completed) :=
      shaped_unlease hc (by simp) (by simp) (by simp)
    exact ⟨hs.leased, hs.unleased, hs.callbackWait, hs.retryWait, hs.assigned⟩

/-- A row that is not leased moves to a state that needs no schedule. -/
theorem shaped_moved {state : WorkState} {now : Time} (h : Shaped w) (hl : w.state ≠ .leased)
    (hs : state.terminal = true) :
    Shaped { w with state := state, completedAt := some now, version := w.version + 1 } where
  leased := by rintro rfl; cases hs
  unleased _ := h.unleased hl
  callbackWait := by rintro rfl; cases hs
  retryWait := by rintro rfl; cases hs
  assigned := h.assigned

theorem shaped_rescheduled (dueAt : Time) (h : Shaped w) (hr : w.state = .review) :
    Shaped (Work.rescheduled dueAt w) :=
  ⟨by simp [Work.rescheduled], fun _ => h.unleased (by simp [hr]), by simp [Work.rescheduled],
    fun _ => rfl, fun _ => rfl⟩

/-- Every change of a row keeps its shape. -/
theorem shaped_change {op : Op} (hc : op.Change w w') (h : Shaped w) : Shaped w' := by
  cases op
  case leaseNext =>
    rcases hc with ⟨hl, rfl⟩ | ⟨src, a, -, rfl⟩
    · exact shaped_moved h hl rfl
    · exact ⟨fun _ => ⟨rfl, rfl, rfl, rfl⟩, by simp [Work.leaseTo], by simp [Work.leaseTo],
        by simp [Work.leaseTo], h.assigned⟩
  case completeWorkItem =>
    rcases hc with ⟨-, rfl⟩ | ⟨-, -, d, hd⟩
    · exact shaped_suppressed h
    · exact shaped_disposed hd h
  case skipWorkItem => exact hc.eq ▸ shaped_skipped h
  case renewLease =>
    rw [hc.eq]
    have hl := (Work.holdsLease_iff.1 hc.lease).1
    obtain ⟨ho, hi, -, hr⟩ := h.leased hl
    exact ⟨fun _ => ⟨ho, hi, rfl, hr⟩, fun hn => (hn hl).elim, h.callbackWait, h.retryWait, h.assigned⟩
  case reclaimExpiredLeases | reclaimLeasesForUser =>
    obtain ⟨-, -, rfl⟩ := hc
    exact shaped_reclaimed h
  case releaseCampaignWorkForAgent =>
    obtain ⟨-, rfl⟩ := hc
    exact ⟨by simp [Work.released, Work.unlease], fun _ => ⟨rfl, rfl, rfl⟩,
      by simp [Work.released, Work.unlease], by simp [Work.released, Work.unlease], nofun⟩
  case rescheduleReviewItem =>
    obtain ⟨-, hr, rfl⟩ := hc
    exact shaped_rescheduled _ h hr
  case increaseReviewItemAttempts c _ _ _ _ =>
    rw [hc.eq]
    have hs := shaped_rescheduled (c.utcnow 0) h hc.review
    exact ⟨hs.leased, hs.unleased, hs.callbackWait, hs.retryWait, hs.assigned⟩
  case closeReviewItem =>
    obtain ⟨-, hr, rfl⟩ := hc
    exact shaped_moved h (by simp [hr]) rfl
  case getActiveLease | commitImport => exact hc.elim

/-- Every change of a row is counted once. -/
theorem version_change {op : Op} (hc : op.Change w w') : w'.version = w.version + 1 := by
  cases op
  case leaseNext => rcases hc with ⟨-, rfl⟩ | ⟨src, a, -, rfl⟩ <;> rfl
  case completeWorkItem =>
    rcases hc with ⟨-, rfl⟩ | ⟨-, -, d, hd⟩
    · rfl
    · cases hd <;> rfl
  case skipWorkItem | renewLease | increaseReviewItemAttempts => rw [hc.eq]; rfl
  case reclaimExpiredLeases | reclaimLeasesForUser | rescheduleReviewItem | closeReviewItem =>
    obtain ⟨-, -, rfl⟩ := hc
    rfl
  case releaseCampaignWorkForAgent =>
    obtain ⟨-, rfl⟩ := hc
    rfl
  case getActiveLease | commitImport => exact hc.elim

end Rows

/-! ## One commit -/

section Commit

variable {op : Op} {a : Result} {held : LockKey → Prop} {x x' : Db}

def AllShaped (db : Db) : Prop := ∀ w ∈ db.workItems, Shaped w

theorem shaped_step (hx : x.WellFormed) (h : op.Effect a held x x') (hs : AllShaped x) : AllShaped x' := by
  intro w' hw'
  rcases h.row_back ((h.wellFormed hx).workItems.find_of_mem hw') with ⟨w, hw, rfl | ⟨-, hc⟩⟩ | hnew
  · exact hs _ (Table.mem_of_find hw)
  · exact shaped_change hc (hs w (Table.mem_of_find hw))
  · rw [hnew]
    exact shaped_new _ _ _

/-- The operation presents a lease: the item, the agent, the lease and the time of the check. -/
def Op.presents : Op → Option (Uuid × Uuid × Uuid × Time)
  | .completeWorkItem c r => some (r.workItemId, r.agentId, r.leaseId, c.utcnow 1)
  | .skipWorkItem c id agent leaseId _ => some (id, agent, leaseId, c.utcnow 0)
  | .renewLease c id agent leaseId => some (id, agent, leaseId, c.utcnow 0)
  | _ => none

/-- The current, unexpired lease of the row. -/
def CurrentLease (w : WorkItem) (agent leaseId : Uuid) (now : Time) : Prop :=
  holdsLease w agent leaseId = true ∧ ∃ t, w.leaseExpiresAt = some t ∧ now < t

theorem currentLease_of_live {agent leaseId : Uuid} {now : Time} {w : WorkItem} (hs : Shaped w)
    (h : holdsLease w agent leaseId = true) (hl : (w.leaseExpiresAt.any fun t => t ≤ now) = false) :
    CurrentLease w agent leaseId now := by
  obtain ⟨t, ht⟩ := Option.isSome_iff_exists.1 (hs.leased (Work.holdsLease_iff.1 h).1).2.2.1
  rw [ht, Option.any_some, decide_eq_false_iff_not, not_le] at hl
  exact ⟨h, t, ht, hl⟩

/-- Only the current lease of a row lets its item be completed, skipped or renewed. -/
theorem unchanged_of_stale (hs : AllShaped x) (h : op.Effect a held x x')
    {item agent leaseId : Uuid} {now : Time} {w : WorkItem}
    (hp : op.presents = some (item, agent, leaseId, now)) (hw : Table.find x.workItems item = some w)
    (hstale : ¬CurrentLease w agent leaseId now) : Table.find x'.workItems item = some w := by
  have hshape := hs w (Table.mem_of_find hw)
  have hid : w.id = item := Table.key_of_find hw
  obtain ⟨w', hw', rfl | ⟨-, hc⟩⟩ := h.row_forth hw
  · exact hw'
  refine absurd ?_ hstale
  cases op <;> simp only [Op.presents, Option.some.injEq, Prod.mk.injEq, reduceCtorEq] at hp
  case completeWorkItem c r =>
    obtain ⟨rfl, rfl, rfl, rfl⟩ := hp
    cases a with
    | completion res =>
      rcases h with ⟨rfl, -⟩ | ⟨b, dnc, h⟩
      · obtain rfl : w = w' := Option.some.inj (hw.symm.trans hw')
        exact absurd (version_change hc) (by omega)
      · obtain ⟨v, v', d, hrow⟩ := h.row
        obtain rfl : w = v := Option.some.inj (hw.symm.trans hrow.row)
        exact currentLease_of_live hshape hrow.lease hrow.live
    | lease | item | count | imported => exact h.elim
  case skipWorkItem =>
    obtain ⟨rfl, rfl, rfl, rfl⟩ := hp
    exact currentLease_of_live hshape hc.lease hc.live
  case renewLease =>
    obtain ⟨rfl, rfl, rfl, rfl⟩ := hp
    refine ⟨hc.lease, ?_⟩
    simpa [Option.any_eq_true] using hc.live

end Commit

/-! ## Runs -/

theorem allShaped_of_reaches {v : Db} (hv : v.WellFormed) (hs : AllShaped v)
    {s : System Db LockKey Err Result Op} (h : Reaches v s) : AllShaped s.committed :=
  invariant_of_reaches hv hs (fun _ _ _ _ _ hx he => shaped_step hx he) h

/-- The row after a step: the same, or open before and counted once more. -/
def Advances (w w' : WorkItem) : Prop :=
  w' = w ∨ (w.state.terminal = false ∧ w'.version = w.version + 1)

/-- In every reachable state every row is in shape; a step leaves a row as it was or counts
one change of an open row; and only the current lease of a row lets its item be completed,
skipped or renewed. -/
theorem work_item_well_formed {v : Db} (hv : v.WellFormed) (hs : AllShaped v)
    {s : System Db LockKey Err Result Op} (h : Reaches v s) :
    AllShaped s.committed ∧
    (∀ i e s', System.Step body s i e s' → ∀ id w, Table.find s.committed.workItems id = some w →
      ∃ w', Table.find s'.committed.workItems id = some w' ∧ Advances w w') ∧
    ∀ i op a s', System.Step body s i (.committed op a) s' →
      ∀ item agent leaseId now w, op.presents = some (item, agent, leaseId, now) →
        Table.find s.committed.workItems item = some w → ¬CurrentLease w agent leaseId now →
        Table.find s'.committed.workItems item = some w := by
  have hshape := allShaped_of_reaches hv hs h
  refine ⟨hshape, fun i e s' hstep id w hw => ?_, fun i op a s' hstep item agent leaseId now w hp hw hst => ?_⟩
  · rcases hstep.committed_eq with ⟨op, a, rfl⟩ | he
    · obtain ⟨held, he⟩ := effect_of_commit hv h hstep
      obtain ⟨w', hw', hd⟩ := he.row_forth hw
      exact ⟨w', hw', hd.imp_right fun hc => ⟨hc.1, version_change hc.2⟩⟩
    · exact ⟨w, he ▸ hw, Or.inl rfl⟩
  · obtain ⟨held, he⟩ := effect_of_commit hv h hstep
    exact unchanged_of_stale hshape he hp hw hst

theorem allShaped_demo : AllShaped Demo.db := by
  intro w hw
  obtain rfl := List.mem_singleton.1 hw
  exact shaped_new 30 20 0

/-- Agent 5 leases the contact and completes it with a redial while agent 6 asks for a lease. -/
def Demo.redialRace : List (System.Turn Op) :=
  Demo.turns 1 (.leaseNext (Demo.call 1) 5) 40 ++
    [.start 1 (Demo.complete 2 1 5 54), .start 2 (.leaseNext (Demo.call 3) 6)] ++
    (List.replicate 40 [.next 1, .next 2]).flatten

theorem work_item_well_formed_redial : AllShaped (Demo.run Demo.redialRace).committed ∧
    (Demo.run Demo.redialRace).committed.workItems.map (fun w => (w.state, w.leaseId, w.version)) =
      [(.leased, some 201, 2)] :=
  ⟨(work_item_well_formed Demo.db_wellFormed allShaped_demo (Demo.reaches_run Demo.redialRace)).1,
    by decide +kernel⟩

end OmniDB.Queue
