import OmniDB.Tx.Table
import OmniDB.Tx.Rows
import OmniDB.Tx.Program
import OmniDB.Tx.Interleaving
import OmniDB.Tx.RelyGuarantee
import OmniDB.Tx.Discipline
import OmniDB.Tx.History
import OmniDB.Tx.Writes
import OmniDB.Tx.Dated
import OmniDB.Tx.Guarded
import OmniDB.Tx.Failing
import OmniDB.Tx.Selection
import OmniDB.Tx.Paths
import OmniDB.Tx.Requests
import OmniDB.Tx.Windows
import OmniDB.Spec.Rows
import OmniDB.Spec.Db
import OmniDB.Spec.Work
import OmniDB.Spec.Authz
import OmniDB.Spec.Imports
import OmniDB.Spec.Queue
import OmniDB.Spec.Campaigns
import OmniDB.Spec.Retention
import OmniDB.Spec.Service
import OmniDB.Spec.Setup
import OmniDB.Spec.Workforce
import OmniDB.Spec.Auth
import OmniDB.Spec.Directory
import OmniDB.Spec.AuditTrail
import OmniDB.Spec.WorkforceRows
import OmniDB.Spec.WorkforceImports
import OmniDB.Spec.Uploads
import OmniDB.Spec.System
import OmniDB.Spec.Limiter
import OmniDB.Proofs.Statements
import OmniDB.Proofs.Locking
import OmniDB.Proofs.WorkEffect
import OmniDB.Proofs.WorkSpecs
import OmniDB.Proofs.Completion
import OmniDB.Proofs.Leasing
import OmniDB.Proofs.ImportEffect
import OmniDB.Proofs.ImportCommit
import OmniDB.Proofs.Queue
import OmniDB.Proofs.DoNotCall
import OmniDB.Proofs.ItemShape
import OmniDB.Proofs.Ceiling
import OmniDB.Proofs.Bookkeeping
import OmniDB.Proofs.Callbacks
import OmniDB.Proofs.Service
import OmniDB.Proofs.ImportApproval
import OmniDB.Proofs.Deletion
import OmniDB.Proofs.LeaseHistory
import OmniDB.Proofs.Staffing
import OmniDB.Proofs.Eligibility
import OmniDB.Proofs.People
import OmniDB.Proofs.WorkforceFrame
import OmniDB.Proofs.WorkforceRuns
import OmniDB.Proofs.Delegation
import OmniDB.Proofs.BulkAuthority
import OmniDB.Proofs.ParsedJobs
import OmniDB.Proofs.Footprint
import OmniDB.Proofs.JobList
import OmniDB.Proofs.DecisionRace
import OmniDB.Proofs.EffectiveDates
import OmniDB.Proofs.CredentialRace
import OmniDB.Proofs.Directory
import OmniDB.Proofs.Duplicates
import OmniDB.Proofs.Erasure
import OmniDB.Proofs.ImportOutcome
import OmniDB.Proofs.StandardPolicy
import OmniDB.Proofs.ReviewRequests
import OmniDB.Proofs.LifecycleRace
import OmniDB.Proofs.WiderGrant
import OmniDB.Proofs.Paging
import OmniDB.Proofs.AbsorbingJobs
import OmniDB.Proofs.StaffingReversal
import OmniDB.Proofs.LeaseOrder
import OmniDB.Proofs.LeaseSearch
import OmniDB.Proofs.OneLease
import OmniDB.Proofs.Limiter
import OmniDB.Tx.Upheld
import OmniDB.Proofs.ActivationCodes
import OmniDB.Proofs.Accounts
import OmniDB.Proofs.Vouched
