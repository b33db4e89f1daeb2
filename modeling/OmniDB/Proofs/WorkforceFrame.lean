import OmniDB.Proofs.People

/-! Which requests touch roles, teams, delegations and bulk imports. Everything else leaves
these tables alone. -/

namespace OmniDB

open Tx
open Tx.Prog

/-- Where authority comes from, apart from the roles themselves. -/
structure Grounds where
  teams : List Team
  delegations : List Delegation

/-- The tables of the bulk imports. -/
structure ImportTables where
  jobs : List WorkforceImportJob
  rows : List WorkforceImportRow
  decisions : List WorkforceImportDecision

/-- Authority and bulk imports. -/
structure Core where
  grounds : Grounds
  roles : List RoleAssignment
  imports : ImportTables

def Db.core (db : Db) : Core where
  grounds := { teams := db.teams, delegations := db.delegations }
  roles := db.roleAssignments
  imports := { jobs := db.workforceJobs, rows := db.workforceRows, decisions := db.workforceDecisions }

def Db.grounds (db : Db) : Grounds := db.core.grounds

def Db.imports (db : Db) : ImportTables := db.core.imports

/-- Roles, teams and delegations. -/
def Db.authority (db : Db) : Grounds × List RoleAssignment := (db.core.grounds, db.core.roles)

/-- Roles and delegations. -/
def Db.granted (db : Db) : List RoleAssignment × List Delegation := (db.roleAssignments, db.delegations)

/-- Roles and teams. -/
def Db.staffed (db : Db) : List RoleAssignment × List Team := (db.roleAssignments, db.teams)

section Parts

variable {α : Type} {p : Txn α}

instance (priority := low) leaves_core [h : Leaves Db.people p] : Leaves Db.core p :=
  h.part fun x : People => ({
    grounds := { teams := x.teams, delegations := x.delegations }
    roles := x.roleAssignments
    imports := { jobs := x.workforceJobs, rows := x.workforceRows, decisions := x.workforceDecisions } } : Core)

instance (priority := low) [h : Leaves Db.core p] : Leaves Db.grounds p := h.part Core.grounds

instance (priority := low) [h : Leaves Db.core p] : Leaves Db.imports p := h.part Core.imports

instance (priority := low) [h : Leaves Db.core p] : Leaves Db.authority p :=
  h.part fun x => (x.grounds, x.roles)

instance (priority := low) [h : Leaves Db.authority p] : Leaves Db.grounds p := h.part Prod.fst

instance (priority := low) [h : Leaves Db.authority p] : Leaves Db.granted p :=
  h.part fun x => (x.2, x.1.delegations)

instance (priority := low) [h : Leaves Db.authority p] : Leaves Db.staffed p :=
  h.part fun x => (x.2, x.1.teams)

instance (priority := low) [h : Leaves Db.granted p] : Leaves Db.roleAssignments p := h.part Prod.fst

instance (priority := low) [h : Leaves Db.granted p] : Leaves Db.delegations p := h.part Prod.snd

instance (priority := low) [h : Leaves Db.staffed p] : Leaves Db.roleAssignments p := h.part Prod.fst

instance (priority := low) [h : Leaves Db.staffed p] : Leaves Db.teams p := h.part Prod.snd

instance (priority := low) [h : Leaves Db.grounds p] : Leaves Db.delegations p := h.part Grounds.delegations

instance (priority := low) [h : Leaves Db.grounds p] : Leaves Db.teams p := h.part Grounds.teams

end Parts

instance (e : AuditEvent) : Leaves Db.core (recordAudit e) := leaves_core
instance (n : Notification) : Leaves Db.core (notify n) := leaves_core

instance (id : Uuid) (f : UserSession → UserSession) : Leaves Db.core (Authz.setSession id f) :=
  .then inferInstance fun _ => .update fun _ => rfl

instance (now : Time) (user : Uuid) : Leaves Db.core (Authz.revokeAllForUser now user) := by
  unfold Authz.revokeAllForUser; infer_instance

instance (now : Time) (user : Uuid) : Leaves Db.core (Authz.invalidateDelegateSessionsForDelegator now user) := by
  unfold Authz.invalidateDelegateSessionsForDelegator; infer_instance

instance (c : Call) (k : Campaign) (r : Campaigns.AssignRequest) (actor : Uuid) :
    Leaves Db.core (Campaigns.assignAgentToCampaign c k r actor) := leaves_core

instance (c : Call) (a : CampaignUserAssignment) (actor : Uuid) (reason : Option String) :
    Leaves Db.core (Campaigns.endUserAssignment c a actor reason) := leaves_core

/-! ## Users, memberships, reporting lines -/

namespace Workforce

instance (a b : Uuid) : Leaves Db.core (assertNotSelf a b) := by unfold assertNotSelf; infer_instance

instance (id : Uuid) (f : User → User) : Leaves Db.core (setUser id f) :=
  .then inferInstance fun _ => .update fun _ => rfl

instance (u : User) (f : User → User) : Leaves Db.core (flushUser u f) := by unfold flushUser; infer_instance

instance (id : Uuid) (f : ActivationToken → ActivationToken) : Leaves Db.core (setActivationToken id f) :=
  .then inferInstance fun _ => .update fun _ => rfl

instance (id : Uuid) (f : TeamMembership → TeamMembership) : Leaves Db.core (setMembership id f) :=
  .then inferInstance fun _ => .update fun _ => rfl

instance (id : Uuid) (f : ReportingAssignment → ReportingAssignment) :
    Leaves Db.core (setReportingAssignment id f) :=
  .then inferInstance fun _ => .update fun _ => rfl

instance (c : Call) (user actor : Uuid) : Leaves Db.core (issueActivationToken c user actor) := by
  have insert (t : ActivationToken) : Leaves Db.core
      (insertRow "activation_tokens" .activationToken Db.activationTokens
        (fun t db => { db with activationTokens := db.activationTokens ++ [t] }) t) :=
    leaves_insertRow fun _ => rfl
  unfold issueActivationToken
  exact .then inferInstance fun _ => .then inferInstance fun _ => .then inferInstance fun _ =>
    .then inferInstance fun _ => .then (insert _) fun _ => inferInstance

instance (c : Call) (email name : String) (workforceId : Option String) (actor : Uuid) (issue : Bool) :
    Leaves Db.core (createUser c email name workforceId actor issue) := by
  have (u : User) : Leaves Db.core
      (insertRow "users" .user Db.users (fun u db => { db with users := db.users ++ [u] }) u) :=
    leaves_insertRow fun _ => rfl
  unfold createUser; infer_instance

instance (u : User) (ch : UserChanges) (actor : Uuid) (reason : Option String) :
    Leaves Db.core (updateUser u ch actor reason) := by
  unfold updateUser; infer_instance

instance (c : Call) (u : User) (actor : Uuid) (reason : String) : Leaves Db.core (disableUser c u actor reason) := by
  have : Leaves Db.core (Work.reclaimLeasesForUser c u.id) := leaves_core
  unfold disableUser; infer_instance

instance (u : User) (actor : Uuid) (reason : String) : Leaves Db.core (reactivateUser u actor reason) := by
  unfold reactivateUser; infer_instance

instance (c : Call) (team user actor : Uuid) : Leaves Db.core (addTeamMembership c team user actor) := by
  have (m : TeamMembership) : Leaves Db.core (insertRow "team_memberships" .membership Db.memberships
      (fun m db => { db with memberships := db.memberships ++ [m] }) m) := leaves_insertRow fun _ => rfl
  unfold addTeamMembership
  repeat' first | infer_instance | split | refine .then inferInstance fun _ => ?_

instance (c : Call) (m : TeamMembership) (actor : Uuid) (reason : Option String) :
    Leaves Db.core (endTeamMembership c m actor reason) := by
  unfold endTeamMembership; infer_instance

instance (c : Call) (r : ReportingRequest) (actor : Uuid) : Leaves Db.core (setReportingLine c r actor) := by
  have (l : ReportingAssignment) : Leaves Db.core
      (insertRow "reporting_assignments" .reportingAssignment Db.reportingAssignments
        (fun l db => { db with reportingAssignments := db.reportingAssignments ++ [l] }) l) :=
    leaves_insertRow fun _ => rfl
  unfold setReportingLine; infer_instance

instance (c : Call) (l : ReportingAssignment) (actor : Uuid) (reason : Option String) :
    Leaves Db.core (endReportingLine c l actor reason) := by
  unfold endReportingLine; infer_instance

/-! ## Roles and teams -/

instance (id : Uuid) (f : RoleAssignment → RoleAssignment) : Leaves Db.grounds (setRoleAssignment id f) :=
  .then inferInstance fun _ => .update fun _ => rfl

instance (id : Uuid) (f : RoleAssignment → RoleAssignment) : Leaves Db.imports (setRoleAssignment id f) :=
  .then inferInstance fun _ => .update fun _ => rfl

instance (ra : RoleAssignment) : Leaves Db.grounds (insertRoleAssignment ra) := leaves_insertRow fun _ => rfl

instance (ra : RoleAssignment) : Leaves Db.imports (insertRoleAssignment ra) := leaves_insertRow fun _ => rfl

instance (c : Call) (r : RoleRequest) (actor : Uuid) : Leaves Db.grounds (assignRole c r actor) := by
  unfold assignRole
  dsimp only
  repeat' first | infer_instance | split | refine .then inferInstance fun _ => ?_

instance (c : Call) (r : RoleRequest) (actor : Uuid) : Leaves Db.imports (assignRole c r actor) := by
  unfold assignRole
  dsimp only
  repeat' first | infer_instance | split | refine .then inferInstance fun _ => ?_

instance (c : Call) (ra : RoleAssignment) (actor : Uuid) (reason : String) :
    Leaves Db.grounds (endRoleAssignment c ra actor reason) := by
  unfold endRoleAssignment; infer_instance

instance (c : Call) (ra : RoleAssignment) (actor : Uuid) (reason : String) :
    Leaves Db.imports (endRoleAssignment c ra actor reason) := by
  unfold endRoleAssignment; infer_instance

end Workforce

/-! ## The rows of an import -/

namespace WorkforceImports

instance {α : Type} {τ : Type} {π : Db → τ} (p : Txn α) [Leaves π p] : Leaves π (orSelf p) :=
  .catch inferInstance fun e => by split <;> infer_instance

instance (c : Call) (k : Campaign) (agent : Uuid) (team : Option Uuid) (actor : Uuid) :
    Leaves Db.core (tryAssign c k agent team actor) :=
  .catch inferInstance fun e => by split <;> infer_instance

instance {ρ : Type} {τ : Type} {π : Db → τ} (rows : List ρ) : Leaves π (oneOrNone rows) := by
  unfold oneOrNone; split <;> infer_instance

instance (id : Uuid) : Leaves Db.core (lockUser id) := by unfold lockUser; infer_instance

instance (c : Call) (row : WorkforceImportRow) (values : ParsedValues) (actor : Uuid) :
    Leaves Db.core (createRowUser c row values actor) := by
  unfold createRowUser
  refine .then inferInstance fun db => .then inferInstance fun email => .then inferInstance fun displayName =>
    .then (.catch inferInstance fun e => by split <;> infer_instance) fun created => ?_
  split <;> infer_instance

instance (c : Call) (row : WorkforceImportRow) (actor : Uuid) : Leaves Db.core (commitUsersRow c row actor) := by
  unfold commitUsersRow
  repeat' first | infer_instance | split

instance (c : Call) (row : WorkforceImportRow) (actor : Uuid) :
    Leaves Db.core (commitDeactivationRow c row actor) := by
  unfold commitDeactivationRow
  repeat' first | infer_instance | split | refine .then inferInstance fun _ => ?_

instance (c : Call) (row : WorkforceImportRow) (actor : Uuid) :
    Leaves Db.core (commitTeamMembershipRow c row actor) := by
  unfold commitTeamMembershipRow
  repeat' first | infer_instance | split | refine .then inferInstance fun _ => ?_

instance (c : Call) (row : WorkforceImportRow) (actor : Uuid) :
    Leaves Db.core (commitReportingAssignmentRow c row actor) := by
  unfold commitReportingAssignmentRow
  dsimp only
  repeat' first | infer_instance | split | refine .then ?_ fun _ => ?_ | refine .catch inferInstance fun _ => ?_

instance (c : Call) (row : WorkforceImportRow) (actor : Uuid) :
    Leaves Db.core (commitCampaignAssignmentRow c row actor) := by
  unfold commitCampaignAssignmentRow
  repeat' first | infer_instance | split | refine .then inferInstance fun _ => ?_

section Grounds

variable (c : Call) (row : WorkforceImportRow) (id actor : Uuid)

instance : Leaves Db.grounds (commitRoleAssignmentRow c row actor) := by
  unfold commitRoleAssignmentRow
  dsimp only
  repeat' first | infer_instance | split | refine .then inferInstance fun _ => ?_

instance (t : ImportType) : Leaves Db.grounds (commitRow t c row actor) := by
  cases t <;> unfold commitRow <;> infer_instance

instance : Leaves Db.core (reverseUserRow c row id actor) := by
  unfold reverseUserRow; infer_instance

instance : Leaves Db.core (reverseTeamMembershipRow c row id actor) := by
  unfold reverseTeamMembershipRow; infer_instance

instance : Leaves Db.grounds (reverseRoleAssignmentRow c row id actor) := by
  unfold reverseRoleAssignmentRow; infer_instance

instance : Leaves Db.core (reverseReportingAssignmentRow c row id actor) := by
  unfold reverseReportingAssignmentRow
  repeat' first | infer_instance | split

instance : Leaves Db.core (reverseCampaignAssignmentRow c row id actor) := by
  unfold reverseCampaignAssignmentRow
  dsimp only
  repeat' first | infer_instance | split | refine .then inferInstance fun _ => ?_

instance (e : EntityType) : Leaves Db.grounds (reverseRow e c row id actor) := by
  cases e <;> unfold reverseRow <;> infer_instance

end Grounds

instance (id : Uuid) (f : WorkforceImportJob → WorkforceImportJob) : Leaves Db.authority (setWorkforceJob id f) :=
  .then inferInstance fun _ => .update fun _ => rfl

instance (id : Uuid) (f : WorkforceImportRow → WorkforceImportRow) : Leaves Db.authority (setWorkforceRow id f) :=
  .update fun _ => rfl

instance (rows : List WorkforceImportRow) : Leaves Db.authority (addWorkforceRows rows) :=
  .update fun _ => rfl

section Access

variable (now : Time) (job : WorkforceImportJob) (actor : Uuid) (risk : RiskLevel)

instance : Leaves Db.core (assertRowsAuthorized now job actor risk) := by
  unfold assertRowsAuthorized; infer_instance

instance : Leaves Db.core (assertJobAccessible now job actor) := by
  unfold assertJobAccessible; infer_instance

instance : Leaves Db.core (assertQualifiedHighRiskApprover now job actor) := by
  unfold assertQualifiedHighRiskApprover; infer_instance

end Access

section Runs

variable (c : Call) (job : WorkforceImportJob)

instance : Leaves Db.core (notifyPendingApprovers c job) := by
  unfold notifyPendingApprovers; infer_instance

instance (action : String) (row : WorkforceImportRow) (actor : Uuid) (o : Outcome) :
    Leaves Db.core (recordRow action job row actor o) := by
  unfold recordRow; split <;> infer_instance

instance : Leaves Db.core (standardApprover c job) := by unfold standardApprover; infer_instance

instance : Leaves Db.core (highRiskApprover c job) := by unfold highRiskApprover; infer_instance

instance (standard : Uuid) (highRisk : Option Uuid) (acc : Committed) (row : WorkforceImportRow) :
    Leaves Db.grounds (commitStep c job standard highRisk acc row) := by
  unfold commitStep
  dsimp only
  repeat' first | infer_instance | split | refine .then inferInstance fun _ => ?_

instance (r : CommitRequest) : Leaves Db.grounds (commitParsed c r job) := by
  unfold commitParsed; infer_instance

instance (r : CommitRequest) (loaded : Option WorkforceImportJob) : Leaves Db.grounds (commitJob c r loaded) := by
  unfold commitJob; infer_instance

instance (actor : Uuid) (now : Time) (acc : Reversed) (row : WorkforceImportRow) :
    Leaves Db.grounds (reverseStep c job actor now acc row) := by
  unfold reverseStep
  repeat' first | infer_instance | split | refine .then inferInstance fun _ => ?_

instance (id actor : Uuid) (loaded : Option WorkforceImportJob) : Leaves Db.grounds (reverseJob c id actor loaded) := by
  unfold reverseJob
  dsimp only
  repeat' first | infer_instance | split | refine .then inferInstance fun _ => ?_

instance (lower : String → String) (t : Tally) (row : Imports.ParsedRow) :
    Leaves Db.authority (parseRow c lower job t row) := by
  unfold parseRow; infer_instance

instance (error : String) : Leaves Db.authority (failParse job error) := by
  unfold failParse; infer_instance

instance (lower : String → String) (file : Imports.SourceFile) (id : Uuid) :
    Leaves Db.authority (parseJob c lower file id) := by
  unfold parseJob
  dsimp only
  repeat' first | infer_instance | split | refine .then inferInstance fun _ => ?_

instance (r : DecisionRequest) : Leaves Db.core (assertApprovable (c.utcnow 1) job r) := by
  unfold assertApprovable
  split <;> infer_instance

instance (r : DecisionRequest) : Leaves Db.authority (recordDecision c r) := by
  have (d : WorkforceImportDecision) : Leaves Db.authority
      (insertRow "workforce_import_decisions" .workforceDecision Db.workforceDecisions
        (fun d db => { db with workforceDecisions := db.workforceDecisions ++ [d] }) d) :=
    leaves_insertRow fun _ => rfl
  unfold recordDecision
  dsimp only
  repeat' first | infer_instance | split | refine .then inferInstance fun _ => ?_

instance : Leaves Db.authority (cleanupExpiredJobs c) := by
  have (id : Uuid) : Leaves Db.authority (update fun db => { db with
      workforceRows := db.workforceRows.filter fun r => r.importJobId ≠ id } : Txn Unit) := .update fun _ => rfl
  unfold cleanupExpiredJobs; infer_instance

instance (uploader : Uuid) (importType : ImportType) (filename fileHash : String) (size : ℤ) :
    Leaves Db.authority (createImportJob c importType uploader filename fileHash size) := by
  have (j : WorkforceImportJob) : Leaves Db.authority
      (insertRow "workforce_import_jobs" .workforceJob Db.workforceJobs
        (fun j db => { db with workforceJobs := db.workforceJobs ++ [j] }) j) :=
    leaves_insertRow fun _ => rfl
  unfold createImportJob; infer_instance

end Runs

end WorkforceImports

/-! ## Requests -/

namespace Workforce

section Requests

variable (c : Call) (now : Time) (actor id : Uuid)

instance (caps : List Capability) (user : Uuid) : Leaves Db.core (requireAnyCapability now caps user) := by
  unfold requireAnyCapability; infer_instance

instance : Leaves Db.core (loadUser id) := by unfold loadUser; infer_instance

instance (target : Uuid) : Leaves Db.core (requireCanManage now actor target) := by
  unfold requireCanManage; infer_instance

instance (role : Role) (scopeType : ScopeType) (scopeId : Option Uuid) :
    Leaves Db.core (requireAppointment now actor role scopeType scopeId) := by
  unfold requireAppointment; infer_instance

instance : Leaves Db.core (loadTeam now actor id) := by unfold loadTeam; infer_instance

instance : Leaves Db.authority (getOrCreateDefaultOrganization c actor) := by
  have (o : Organization) : Leaves Db.authority (update fun db => { db with
      organizations := db.organizations ++ [o] } : Txn Unit) := .update fun _ => rfl
  unfold getOrCreateDefaultOrganization
  repeat' first | infer_instance | split | refine .then inferInstance fun _ => ?_

instance (r : TeamRequest) : Leaves Db.granted (createTeam c r actor) := by
  have (t : Team) : Leaves Db.granted (update fun db => { db with teams := db.teams ++ [t] } : Txn Unit) :=
    .update fun _ => rfl
  unfold createTeam; infer_instance

instance (r : DelegationRequest) : Leaves Db.staffed (createDelegation c actor r) := by
  have (d : Delegation) : Leaves Db.staffed (update fun db => { db with
      delegations := db.delegations ++ [d] } : Txn Unit) := .update fun _ => rfl
  unfold createDelegation
  dsimp only
  repeat' first | infer_instance | refine .then inferInstance fun _ => ?_

instance : Leaves Db.staffed (revokeDelegation c id actor) := by
  have (f : Delegation → Delegation) : Leaves Db.staffed (update fun db => { db with
      delegations := Table.modify db.delegations id f } : Txn Unit) := .update fun _ => rfl
  unfold revokeDelegation; infer_instance

namespace Request

instance (email name : String) (workforceId : Option String) :
    Leaves Db.core (createUser c actor email name workforceId) := by
  unfold createUser; infer_instance

instance (reason : String) : Leaves Db.core (disableUser c actor id reason) := by
  unfold disableUser; infer_instance

instance (reason : String) : Leaves Db.core (reactivateUser c actor id reason) := by
  unfold reactivateUser; infer_instance

instance (r : RoleRequest) : Leaves Db.grounds (assignRole c actor r) := by
  unfold assignRole
  repeat' first | infer_instance | split

instance (reason : String) : Leaves Db.grounds (endRoleAssignment c actor id reason) := by
  unfold endRoleAssignment; infer_instance

instance (r : TeamRequest) : Leaves Db.granted (createTeam c actor r) := by
  unfold createTeam; infer_instance

instance (user : Uuid) : Leaves Db.core (addTeamMember c actor id user) := by
  unfold addTeamMember; infer_instance

instance : Leaves Db.core (endTeamMembership c actor id) := by
  unfold endTeamMembership; infer_instance

instance (r : ReportingRequest) : Leaves Db.core (setReportingLine c actor r) := by
  unfold setReportingLine; infer_instance

instance (r : DelegationRequest) : Leaves Db.staffed (createDelegation c actor r) := by
  unfold createDelegation; infer_instance

end Request

end Requests

end Workforce

namespace WorkforceImports.Request

instance (c : Call) (user : Uuid) (importType : ImportType) (filename fileHash : String) (size : ℤ) :
    Leaves Db.authority (upload c user importType filename fileHash size) := by
  unfold upload; infer_instance

instance (c : Call) (r : DecisionRequest) : Leaves Db.authority (decide c r) := by
  unfold decide; infer_instance

instance (c : Call) (r : CommitRequest) : Leaves Db.grounds (commit c r) := by
  unfold commit; infer_instance

instance (c : Call) (id actor : Uuid) : Leaves Db.grounds (reverse c id actor) := by
  unfold reverse; infer_instance

end WorkforceImports.Request

instance {α τ : Type} {π : Db → τ} (p : Txn α) [Leaves π p] : Leaves π (App.silent p) := by
  unfold App.silent; infer_instance

end OmniDB
