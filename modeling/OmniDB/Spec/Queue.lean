import OmniDB.Spec.Imports
import OmniDB.Spec.Work

/-! The transactions that act on the work queue: every operation of `app/work/service.py`
and the commit of a campaign import. -/

namespace OmniDB.Queue

inductive Op where
  | leaseNext (c : Call) (agent : Uuid)
  | getActiveLease (c : Call) (agent : Uuid)
  | completeWorkItem (c : Call) (r : Work.CompleteRequest)
  | skipWorkItem (c : Call) (id agent leaseId : Uuid) (reason : String)
  | renewLease (c : Call) (id agent leaseId : Uuid)
  | reclaimExpiredLeases (c : Call)
  | reclaimLeasesForUser (c : Call) (agent : Uuid)
  | releaseCampaignWorkForAgent (c : Call) (agent campaign : Uuid)
  | rescheduleReviewItem (c : Call) (id actor : Uuid) (retryAt : Time) (reason : String)
  | increaseReviewItemAttempts (c : Call) (id actor : Uuid) (newMaxAttempts : ℤ) (reason : String)
  | closeReviewItem (c : Call) (id actor : Uuid) (reason : String)
  | commitImport (c : Call) (r : Imports.CommitRequest)

inductive Result where
  | lease (lease : Option Work.LeaseResult)
  | completion (res : Work.CompletionResult)
  | item (w : WorkItem)
  | count (n : ℕ)
  | imported (res : ImportResult)

def body : Op → Txn Result
  | .leaseNext c agent => Result.lease <$> Work.leaseNext c agent
  | .getActiveLease c agent => Result.lease <$> Work.getActiveLease c agent
  | .completeWorkItem c r => Result.completion <$> Work.completeWorkItem c r
  | .skipWorkItem c id agent leaseId reason => Result.item <$> Work.skipWorkItem c id agent leaseId reason
  | .renewLease c id agent leaseId => Result.item <$> Work.renewLease c id agent leaseId
  | .reclaimExpiredLeases c => Result.count <$> Work.reclaimExpiredLeases c
  | .reclaimLeasesForUser c agent => Result.count <$> Work.reclaimLeasesForUser c agent
  | .releaseCampaignWorkForAgent c agent campaign =>
    Result.count <$> Work.releaseCampaignWorkForAgent c agent campaign
  | .rescheduleReviewItem c id actor retryAt reason =>
    Result.item <$> Work.rescheduleReviewItem c id actor retryAt reason
  | .increaseReviewItemAttempts c id actor newMaxAttempts reason =>
    Result.item <$> Work.increaseReviewItemAttempts c id actor newMaxAttempts reason
  | .closeReviewItem c id actor reason => Result.item <$> Work.closeReviewItem c id actor reason
  | .commitImport c r => Result.imported <$> Imports.commitImport c r

end OmniDB.Queue
