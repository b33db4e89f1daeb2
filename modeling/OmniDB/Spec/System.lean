import OmniDB.Spec.WorkforceImports

/-! The whole application: the requests on people, roles, teams and delegations, the bulk
imports, and the campaign service. -/

namespace OmniDB.App

open Tx

inductive Op where
  | service (op : Service.Op)
  | createUser (c : Call) (actor : Uuid) (email displayName : String) (workforceId : Option String)
  | disableUser (c : Call) (actor id : Uuid) (reason : String)
  | reactivateUser (c : Call) (actor id : Uuid) (reason : String)
  | assignRole (c : Call) (actor : Uuid) (r : Workforce.RoleRequest)
  | endRoleAssignment (c : Call) (actor id : Uuid) (reason : String)
  | createTeam (c : Call) (actor : Uuid) (r : Workforce.TeamRequest)
  | addTeamMember (c : Call) (actor id user : Uuid)
  | endTeamMembership (c : Call) (actor id : Uuid)
  | setReportingLine (c : Call) (actor : Uuid) (r : Workforce.ReportingRequest)
  | createDelegation (c : Call) (user : Uuid) (r : Workforce.DelegationRequest)
  | revokeDelegation (c : Call) (id actor : Uuid)
  | uploadWorkforceImport (c : Call) (user : Uuid) (importType : ImportType) (filename fileHash : String)
      (size : ℤ)
  | parseWorkforceImport (c : Call) (lower : String → String) (file : Imports.SourceFile) (id : Uuid)
  | decideWorkforceImport (c : Call) (r : WorkforceImports.DecisionRequest)
  | commitWorkforceImport (c : Call) (r : WorkforceImports.CommitRequest)
  | reverseWorkforceImport (c : Call) (id actor : Uuid)
  | cleanupWorkforceImports (c : Call)

inductive Result where
  | service (res : Service.Result)
  | committed (res : WorkforceImports.CommitResult)
  | reversed (res : WorkforceImports.ReverseResult)
  | done

/-- A request whose answer is not kept. -/
def silent {α : Type} (p : Txn α) : Txn Result := (fun _ => .done) <$> p

def body : Op → Txn Result
  | .service op => Result.service <$> Service.body op
  | .createUser c actor email name workforceId =>
    silent (Workforce.Request.createUser c actor email name workforceId)
  | .disableUser c actor id reason => silent (Workforce.Request.disableUser c actor id reason)
  | .reactivateUser c actor id reason => silent (Workforce.Request.reactivateUser c actor id reason)
  | .assignRole c actor r => silent (Workforce.Request.assignRole c actor r)
  | .endRoleAssignment c actor id reason => silent (Workforce.Request.endRoleAssignment c actor id reason)
  | .createTeam c actor r => silent (Workforce.Request.createTeam c actor r)
  | .addTeamMember c actor id user => silent (Workforce.Request.addTeamMember c actor id user)
  | .endTeamMembership c actor id => silent (Workforce.Request.endTeamMembership c actor id)
  | .setReportingLine c actor r => silent (Workforce.Request.setReportingLine c actor r)
  | .createDelegation c user r => silent (Workforce.Request.createDelegation c user r)
  | .revokeDelegation c id actor => silent (Workforce.revokeDelegation c id actor)
  | .uploadWorkforceImport c user importType filename fileHash size =>
    silent (WorkforceImports.Request.upload c user importType filename fileHash size)
  | .parseWorkforceImport c lower file id => silent (WorkforceImports.parseJob c lower file id)
  | .decideWorkforceImport c r => silent (WorkforceImports.Request.decide c r)
  | .commitWorkforceImport c r => Result.committed <$> WorkforceImports.Request.commit c r
  | .reverseWorkforceImport c id actor => Result.reversed <$> WorkforceImports.Request.reverse c id actor
  | .cleanupWorkforceImports c => silent (WorkforceImports.cleanupExpiredJobs c)

end OmniDB.App
