import OmniDB.Proofs.BulkCommitRace
import OmniDB.Proofs.CommitRace

/-! Committed import jobs against parsing and the expiry cleanup, for both importers. -/

namespace OmniDB.AbsorbingJobs

open Tx

/-- In a run in which neither a request nor the cleanup gets the row lock of a job that was committed
since it loaded it, a job whose commit is through stays committed under its key, with its result
and its rows. -/
theorem committed_jobs_stay (v : Db) :
    (∀ s i c r res s' s'', Table.Unique v.importJobs →
      System.Reaches CommitRace.body (fun s i e => CommitRace.jobs.current s i e = true) { committed := v } s →
      System.Step CommitRace.body s i (.committed (.commit c r) (.imported res)) s' →
      System.Reaches CommitRace.body (fun s i e => CommitRace.jobs.current s i e = true) s' s'' →
      CommitRace.Holds s''.committed r.jobId r.idempotencyKey res ∧
        CommitRace.rowsOf s''.committed r.jobId = CommitRace.rowsOf s'.committed r.jobId) ∧
    (∀ s i c r res s' s'', Table.Unique v.workforceJobs →
      System.Reaches BulkCommitRace.body (fun s i e => BulkCommitRace.jobs.current s i e = true) { committed := v } s →
      System.Step BulkCommitRace.body s i (.committed (.commit c r) (.applied res)) s' →
      System.Reaches BulkCommitRace.body (fun s i e => BulkCommitRace.jobs.current s i e = true) s' s'' →
      BulkCommitRace.Holds s''.committed r.jobId r.idempotencyKey res.outcomes ∧
        BulkCommitRace.parsedRows s''.committed r.jobId = BulkCommitRace.parsedRows s'.committed r.jobId) := by
  constructor
  · intro s i c r res s' s'' hv hr hs hr'
    have hholds := (CommitRace.effect_of_commit hv hr hs).1
    have hkept := Register.kept_of_reaches CommitRace.protocol_valid hv (hr.tail ⟨i, _, rfl, hs⟩) hr' hholds.sealed
    exact ⟨hholds.congr hkept, congrArg Prod.snd hkept⟩
  · intro s i c r res s' s'' hv hr hs hr'
    have hholds := (BulkCommitRace.effect_of_commit hv hr hs).1
    have hkept := Register.kept_of_reaches BulkCommitRace.protocol_valid hv (hr.tail ⟨i, _, rfl, hs⟩) hr' hholds.sealed
    exact ⟨hholds.congr hkept, congrArg Prod.snd hkept⟩

namespace Demo

/-- The import of a campaign, which expires in minute 0. -/
def campaignDb : Db :=
  { Queue.Demo.importDb with
    importJobs := Queue.Demo.importDb.importJobs.map fun j => { j with expiresAt := some 0 } }

def workforceDb : Db :=
  { BulkCommitRace.Demo.db with
    workforceJobs := BulkCommitRace.Demo.db.workforceJobs.map fun j => { j with expiresAt := some 0 } }

def campaign (schedule : List (System.Turn CommitRace.Op)) : System Db LockKey Err CommitRace.Result CommitRace.Op :=
  System.play CommitRace.body { committed := campaignDb } schedule

def workforce (schedule : List (System.Turn BulkCommitRace.Op)) :
    System Db LockKey Err BulkCommitRace.Result BulkCommitRace.Op :=
  System.play BulkCommitRace.body { committed := workforceDb } schedule

/-- A cleanup in minute 3, `n` steps long. -/
def cleanup (n : ℕ) : List (System.Turn CommitRace.Op) :=
  CommitRace.Demo.turns 2 (.cleanup (Queue.Demo.call 3)) n

def workforceCleanup (n : ℕ) : List (System.Turn BulkCommitRace.Op) :=
  BulkCommitRace.Demo.turns 2 (.cleanup (Queue.Demo.call 3)) n

end Demo

theorem committed_jobs_stay_expiring :
    (∃ s s' c r res, System.Step CommitRace.body s 1 (.committed (.commit c r) (.imported res)) s' ∧
      CommitRace.Holds (System.play CommitRace.body s' (Demo.cleanup 5)).committed r.jobId r.idempotencyKey res) ∧
    ∃ s s' c r res, System.Step BulkCommitRace.body s 1 (.committed (.commit c r) (.applied res)) s' ∧
      BulkCommitRace.Holds (System.play BulkCommitRace.body s' (Demo.workforceCleanup 5)).committed r.jobId
        r.idempotencyKey res.outcomes := by
  constructor
  · let s := Demo.campaign (CommitRace.Demo.turns 1 (CommitRace.Demo.commit 1 "k") 26)
    obtain ⟨op, a, ha, hs⟩ := System.step_play_of_ready CommitRace.body (by decide +kernel :
      s.ready 1 (CommitRace.Demo.answers "k" 1) = true)
    obtain ⟨c, r, rfl, rfl, -, -⟩ := CommitRace.Demo.eq_of_answers ha
    refine ⟨s, _, c, r, _, hs, ((committed_jobs_stay Demo.campaignDb).1 s 1 c r _ _ _ (by decide) ?_ hs ?_).1⟩
    · exact System.reaches_of_permits _ _ (by decide +kernel)
    · exact System.reaches_of_permits _ _ (by decide +kernel)
  · let s := Demo.workforce (BulkCommitRace.Demo.turns 1 (BulkCommitRace.Demo.commit 1 "k") 20)
    obtain ⟨op, a, ha, hs⟩ := System.step_play_of_ready BulkCommitRace.body (by decide +kernel :
      s.ready 1 (BulkCommitRace.Demo.answers "k") = true)
    obtain ⟨c, r, res, rfl, rfl, -, -⟩ := BulkCommitRace.Demo.eq_of_answers ha
    refine ⟨s, _, c, r, res, hs, ((committed_jobs_stay Demo.workforceDb).2 s 1 c r res _ _ (by decide) ?_ hs ?_).1⟩
    · exact System.reaches_of_permits _ _ (by decide +kernel)
    · exact System.reaches_of_permits _ _ (by decide +kernel)

/-- The cleanup reads the job before its commit and marks it expired after it: the state is lost, and
so are the rows. -/
theorem cleanup_overtakes :
    (∃ s s' s'' c r, System.Reaches CommitRace.body System.Any { committed := Demo.campaignDb } s ∧
      System.Step CommitRace.body s 1 (.committed (.commit c r) (.imported ⟨60, 1, 0⟩)) s' ∧ r.jobId = 60 ∧
      System.Reaches CommitRace.body System.Any s' s'' ∧
      s'.committed.importJobs.map ImportJob.state = [.committed] ∧
      s''.committed.importJobs.map ImportJob.state = [.expired] ∧ s''.committed.importRows = []) ∧
    ∃ s s' s'' c r res, System.Reaches BulkCommitRace.body System.Any { committed := Demo.workforceDb } s ∧
      System.Step BulkCommitRace.body s 1 (.committed (.commit c r) (.applied res)) s' ∧ r.jobId = 60 ∧
      System.Reaches BulkCommitRace.body System.Any s' s'' ∧
      s'.committed.workforceJobs.map WorkforceImportJob.state = [.committed] ∧
      s''.committed.workforceJobs.map WorkforceImportJob.state = [.expired] ∧ s''.committed.workforceRows = [] := by
  constructor
  · let s := Demo.campaign (Demo.cleanup 1 ++ CommitRace.Demo.turns 1 (CommitRace.Demo.commit 1 "k") 26)
    obtain ⟨op, a, ha, hs⟩ := System.step_play_of_ready CommitRace.body (by decide +kernel :
      s.ready 1 (CommitRace.Demo.answers "k" 1) = true)
    obtain ⟨c, r, rfl, rfl, hjob, -⟩ := CommitRace.Demo.eq_of_answers ha
    exact ⟨s, _, _, c, r, System.reaches_play .., hs, hjob,
      System.reaches_play CommitRace.body (List.replicate 4 (.next 2)) _, by decide +kernel, by decide +kernel,
      by decide +kernel⟩
  · let s := Demo.workforce (Demo.workforceCleanup 1 ++ BulkCommitRace.Demo.turns 1 (BulkCommitRace.Demo.commit 1 "k") 20)
    obtain ⟨op, a, ha, hs⟩ := System.step_play_of_ready BulkCommitRace.body (by decide +kernel :
      s.ready 1 (BulkCommitRace.Demo.answers "k") = true)
    obtain ⟨c, r, res, rfl, rfl, hjob, -⟩ := BulkCommitRace.Demo.eq_of_answers ha
    exact ⟨s, _, _, c, r, res, System.reaches_play .., hs, hjob,
      System.reaches_play BulkCommitRace.body (List.replicate 4 (.next 2)) _, by decide +kernel, by decide +kernel,
      by decide +kernel⟩

end OmniDB.AbsorbingJobs
