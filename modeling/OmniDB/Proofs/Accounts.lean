import OmniDB.Proofs.WorkforceFrame
import OmniDB.Spec.Sessions
import OmniDB.Tx.Abides
import OmniDB.Tx.Rows

/-! What the requests of the application do to sessions and second factors: they revoke sessions, and
nothing else. -/

namespace OmniDB

open Tx
open Tx.Prog

/-- The session stays as it is, or is revoked. -/
def Lapses (s s' : UserSession) : Prop := s' = s ∨ ∃ now, s' = Authz.revoked now s

/-- The second factor is the same. -/
def SameFactor (u u' : User) : Prop :=
  u'.totpSecretCiphertext = u.totpSecretCiphertext ∧ u'.totpEnrolled = u.totpEnrolled

/-- The second factor of a user: the secret, and whether a code of it was shown. Nobody else has one. -/
def Db.factor (x : Db) (id : Uuid) : Option String × Bool :=
  ((Table.find x.users id).map fun u => (u.totpSecretCiphertext, u.totpEnrolled)).getD (none, false)

def SameFactors (x x' : Db) : Prop := ∀ id, x'.factor id = x.factor id

structure Calm (x x' : Db) : Prop where
  sessions : List.Forall₂ Lapses x.sessions x'.sessions
  users : SameFactors x x'

/-- The two tables. -/
def Db.identities (x : Db) : List UserSession × List User := (x.sessions, x.users)

section Calm

variable {x x' x'' : Db} {s s' s'' : UserSession} {u u' u'' : User}

theorem Lapses.refl (s : UserSession) : Lapses s s := Or.inl rfl

theorem Lapses.trans (h : Lapses s s') (h' : Lapses s' s'') : Lapses s s'' := by
  rcases h with rfl | ⟨now, rfl⟩
  · exact h'
  · rcases h' with rfl | ⟨now', rfl⟩
    · exact Or.inr ⟨now, rfl⟩
    · exact Or.inr ⟨now', rfl⟩

theorem Lapses.id (h : Lapses s s') : s'.id = s.id := by rcases h with rfl | ⟨now, rfl⟩ <;> rfl

theorem Lapses.user (h : Lapses s s') : s'.userId = s.userId := by rcases h with rfl | ⟨now, rfl⟩ <;> rfl

/-- What is revoked stays revoked. -/
theorem Lapses.stays (h : Lapses s s') (hs : s.revokedAt ≠ none) : s'.revokedAt ≠ none := by
  rcases h with rfl | ⟨now, rfl⟩
  · exact hs
  · exact fun hn => by cases hn

theorem sameFactors_of_users (h : x'.users = x.users) : SameFactors x x' := by
  intro id
  unfold Db.factor
  rw [h]

theorem Calm.of_identities (h : x'.identities = x.identities) : Calm x x' := by
  obtain ⟨hs, hu⟩ := Prod.mk.inj h
  constructor
  · rw [hs]
    exact List.forall₂_same.2 fun s _ => Lapses.refl s
  · exact sameFactors_of_users hu

theorem Calm.refl (x : Db) : Calm x x := .of_identities rfl

theorem Calm.trans (h : Calm x x') (h' : Calm x' x'') : Calm x x'' where
  sessions := Rows.partners_comp h.sessions h'.sessions fun _ _ _ => Lapses.trans
  users id := (h'.users id).trans (h.users id)

theorem calm_modifySession {id : Uuid} {now : Time} :
    Calm x { x with sessions := Table.modify x.sessions id (Authz.revoked now) } where
  sessions := by
    refine List.forall₂_map_right_iff.2 (List.forall₂_same.2 fun s _ => ?_)
    split_ifs
    · exact Or.inr ⟨now, rfl⟩
    · exact Lapses.refl s
  users _ := rfl

/-- An update of users that leaves the second factor as it is. -/
theorem calm_modifyUser {id : Uuid} {f : User → User} (hid : ∀ u, (f u).id = u.id) (hf : ∀ u, SameFactor u (f u)) :
    Calm x { x with users := Table.modify x.users id f } where
  sessions := List.forall₂_same.2 fun s _ => Lapses.refl s
  users j := by
    unfold Db.factor
    rw [Table.find_modify fun r hr => (hid r).trans hr]
    split_ifs
    · rw [Option.map_map]
      exact congrArg (Option.getD · _) (Option.map_congr fun u _ => Prod.ext (hf u).1 (hf u).2)
    · rfl

theorem sameFactor_merge {loaded new row : User} (h : SameFactor loaded new) :
    SameFactor row (Workforce.User.merge loaded new row) :=
  ⟨if_pos h.1, if_pos h.2⟩

end Calm

/-! ## Statements -/

section Statements

variable {α : Type} {y : Txn α} {ρ : Type} [Keyed ρ Uuid]

instance (priority := low) leaves_identities [h : Leaves Db.people y] : Leaves Db.identities y :=
  h.part fun p => (p.sessions, p.users)

/-- What touches neither of the two tables. -/
instance (priority := low) calm_leaves [Leaves Db.identities y] : Abides Calm y := .of_leaves fun _ _ => .of_identities

instance (e : AuditEvent) : Leaves Db.identities (recordAudit e) := .update fun _ => rfl

instance (n : Notification) : Leaves Db.identities (notify n) := .then inferInstance fun _ => .update fun _ => rfl

instance (n : Uuid) (now : Time) : Abides Calm (Authz.setSession n (Authz.revoked now)) :=
  .then inferInstance fun _ => .update fun _ => calm_modifySession

instance (now : Time) (user : Uuid) : Abides Calm (Authz.revokeAllForUser now user) := by
  unfold Authz.revokeAllForUser; infer_instance

instance (now : Time) (user : Uuid) : Abides Calm (Authz.invalidateDelegateSessionsForDelegator now user) := by
  unfold Authz.invalidateDelegateSessionsForDelegator; infer_instance

theorem calm_setUser {n : Uuid} {f : User → User} (hid : ∀ u, (f u).id = u.id) (hf : ∀ u, SameFactor u (f u)) :
    Abides Calm (Workforce.setUser n f) :=
  .then inferInstance fun _ => .update fun _ => calm_modifyUser hid hf

theorem calm_flushUser (loaded : User) (f : User → User) (h : SameFactor loaded (f loaded)) :
    Abides Calm (Workforce.flushUser loaded f) := by
  have := calm_setUser (n := loaded.id) (f := Workforce.User.merge loaded (f loaded)) (fun _ => rfl) fun _ =>
    sameFactor_merge h
  unfold Workforce.flushUser; infer_instance

end Statements

/-! ## Users, roles, teams -/

namespace Workforce

variable (c : Call) (now : Time) (actor id : Uuid)

instance (a b : Uuid) : Leaves Db.identities (assertNotSelf a b) := by unfold assertNotSelf; infer_instance

instance (n : Uuid) (f : ActivationToken → ActivationToken) : Leaves Db.identities (setActivationToken n f) :=
  .then inferInstance fun _ => .update fun _ => rfl

instance (user : Uuid) : Leaves Db.identities (issueActivationToken c user actor) := by
  have insert (t : ActivationToken) : Leaves Db.identities
      (insertRow "activation_tokens" .activationToken Db.activationTokens
        (fun t db => { db with activationTokens := db.activationTokens ++ [t] }) t) :=
    leaves_insertRow fun _ => rfl
  unfold issueActivationToken
  exact .then inferInstance fun _ => .then inferInstance fun _ => .then inferInstance fun _ =>
    .then inferInstance fun _ => .then (insert _) fun _ => inferInstance

theorem calm_insertUser (u : User) (hu : u.totpSecretCiphertext = none) (he : u.totpEnrolled = false) :
    Abides Calm (insertRow "users" .user Db.users (fun u db => { db with users := db.users ++ [u] }) u) := by
  have : Abides Calm (update fun db => { db with users := db.users ++ [u] } : Txn Unit) := by
    refine .update fun x => ⟨List.forall₂_same.2 fun s _ => Lapses.refl s, fun id => ?_⟩
    unfold Db.factor
    rw [Table.find_append]
    cases hfind : Table.find x.users id with
    | some r => rfl
    | none =>
      -- the new user, or nobody
      rw [Option.none_or, Table.find_singleton]
      split_ifs
      · simp [hu, he]
      · rfl
  unfold insertRow; infer_instance

instance (email name : String) (workforceId : Option String) (issue : Bool) :
    Abides Calm (createUser c email name workforceId actor issue) := by
  have (id : Uuid) (workforceId : String) (now : Time) := calm_insertUser
    { id := id, workforceId := workforceId, email := email, displayName := name, createdAt := now } rfl rfl
  unfold createUser; infer_instance

instance (u : User) (ch : UserChanges) (reason : Option String) : Abides Calm (updateUser u ch actor reason) := by
  have := calm_flushUser u ch.apply ⟨rfl, rfl⟩
  unfold updateUser; infer_instance

instance (u : User) (reason : String) : Abides Calm (disableUser c u actor reason) := by
  have := calm_flushUser u (disabled (c.utcnow 0)) ⟨rfl, rfl⟩
  unfold disableUser; infer_instance

instance (u : User) (reason : String) : Abides Calm (reactivateUser u actor reason) := by
  have := calm_flushUser u reactivated ⟨rfl, rfl⟩
  unfold reactivateUser; infer_instance

instance (n : Uuid) (f : TeamMembership → TeamMembership) : Leaves Db.identities (setMembership n f) :=
  .then inferInstance fun _ => .update fun _ => rfl

instance (n : Uuid) (f : ReportingAssignment → ReportingAssignment) :
    Leaves Db.identities (setReportingAssignment n f) :=
  .then inferInstance fun _ => .update fun _ => rfl

instance (n : Uuid) (f : RoleAssignment → RoleAssignment) : Leaves Db.identities (setRoleAssignment n f) :=
  .then inferInstance fun _ => .update fun _ => rfl

instance (team user : Uuid) : Leaves Db.identities (addTeamMembership c team user actor) := by
  have (m : TeamMembership) : Leaves Db.identities (insertRow "team_memberships" .membership Db.memberships
      (fun m db => { db with memberships := db.memberships ++ [m] }) m) := leaves_insertRow fun _ => rfl
  unfold addTeamMembership
  repeat' first | infer_instance | split | refine .then inferInstance fun _ => ?_

instance (m : TeamMembership) (reason : Option String) : Leaves Db.identities (endTeamMembership c m actor reason) := by
  unfold endTeamMembership; infer_instance

instance (r : ReportingRequest) : Leaves Db.identities (setReportingLine c r actor) := by
  have (l : ReportingAssignment) : Leaves Db.identities
      (insertRow "reporting_assignments" .reportingAssignment Db.reportingAssignments
        (fun l db => { db with reportingAssignments := db.reportingAssignments ++ [l] }) l) :=
    leaves_insertRow fun _ => rfl
  unfold setReportingLine; infer_instance

instance (l : ReportingAssignment) (reason : Option String) :
    Leaves Db.identities (endReportingLine c l actor reason) := by
  unfold endReportingLine; infer_instance

instance (ra : RoleAssignment) : Leaves Db.identities (insertRoleAssignment ra) := leaves_insertRow fun _ => rfl

instance (r : RoleRequest) : Abides Calm (assignRole c r actor) := by
  unfold assignRole
  dsimp only
  repeat' first | infer_instance | split | refine .then inferInstance fun _ => ?_

instance (ra : RoleAssignment) (reason : String) : Abides Calm (endRoleAssignment c ra actor reason) := by
  unfold endRoleAssignment; infer_instance

instance (caps : List Capability) (user : Uuid) : Leaves Db.identities (requireAnyCapability now caps user) := by
  unfold requireAnyCapability; infer_instance

instance : Leaves Db.identities (loadUser id) := by unfold loadUser; infer_instance

instance (target : Uuid) : Leaves Db.identities (requireCanManage now actor target) := by
  unfold requireCanManage; infer_instance

instance (role : Role) (scopeType : ScopeType) (scopeId : Option Uuid) :
    Leaves Db.identities (requireAppointment now actor role scopeType scopeId) := by
  unfold requireAppointment; infer_instance

instance : Leaves Db.identities (loadTeam now actor id) := by unfold loadTeam; infer_instance

instance : Leaves Db.identities (getOrCreateDefaultOrganization c actor) := by
  have (o : Organization) : Leaves Db.identities (update fun db => { db with
      organizations := db.organizations ++ [o] } : Txn Unit) := .update fun _ => rfl
  unfold getOrCreateDefaultOrganization
  repeat' first | infer_instance | split | refine .then inferInstance fun _ => ?_

instance (r : TeamRequest) : Leaves Db.identities (createTeam c r actor) := by
  have (t : Team) : Leaves Db.identities (update fun db => { db with teams := db.teams ++ [t] } : Txn Unit) :=
    .update fun _ => rfl
  unfold createTeam; infer_instance

instance (r : DelegationRequest) : Abides Calm (createDelegation c actor r) := by
  have (d : Delegation) : Leaves Db.identities (update fun db => { db with
      delegations := db.delegations ++ [d] } : Txn Unit) := .update fun _ => rfl
  unfold createDelegation
  dsimp only
  repeat' first | infer_instance | refine .then inferInstance fun _ => ?_

instance : Abides Calm (revokeDelegation c id actor) := by
  have (f : Delegation → Delegation) : Leaves Db.identities (update fun db => { db with
      delegations := Table.modify db.delegations id f } : Txn Unit) := .update fun _ => rfl
  unfold revokeDelegation; infer_instance

namespace Request

instance (email name : String) (workforceId : Option String) :
    Abides Calm (createUser c actor email name workforceId) := by
  unfold createUser; infer_instance

instance (reason : String) : Abides Calm (disableUser c actor id reason) := by unfold disableUser; infer_instance

instance (reason : String) : Abides Calm (reactivateUser c actor id reason) := by unfold reactivateUser; infer_instance

instance (r : RoleRequest) : Abides Calm (assignRole c actor r) := by
  unfold assignRole
  repeat' first | infer_instance | split

instance (reason : String) : Abides Calm (endRoleAssignment c actor id reason) := by
  unfold endRoleAssignment; infer_instance

instance (r : TeamRequest) : Leaves Db.identities (createTeam c actor r) := by unfold createTeam; infer_instance

instance (user : Uuid) : Leaves Db.identities (addTeamMember c actor id user) := by unfold addTeamMember; infer_instance

instance : Leaves Db.identities (endTeamMembership c actor id) := by unfold endTeamMembership; infer_instance

instance (r : ReportingRequest) : Leaves Db.identities (setReportingLine c actor r) := by
  unfold setReportingLine; infer_instance

instance (r : DelegationRequest) : Abides Calm (createDelegation c actor r) := by
  unfold createDelegation; infer_instance

end Request

end Workforce

/-! ## Imports -/

namespace WorkforceImports

variable (c : Call) (row : WorkforceImportRow) (id actor : Uuid)

instance {α : Type} (p : Txn α) [Abides Calm p] : Abides Calm (orSelf p) :=
  .catch inferInstance fun e => by split <;> infer_instance

instance (k : Campaign) (agent : Uuid) (team : Option Uuid) : Abides Calm (tryAssign c k agent team actor) :=
  .catch inferInstance fun e => by split <;> infer_instance

instance (n : Uuid) : Leaves Db.identities (lockUser n) := by unfold lockUser; infer_instance

instance (values : ParsedValues) : Abides Calm (createRowUser c row values actor) := by
  have hset (id : Uuid) : Abides Calm (Workforce.setUser id fun u => { u with
      startDate := values.startDate.orElse fun _ => u.startDate
      endDate := values.endDate.orElse fun _ => u.endDate }) := calm_setUser (fun _ => rfl) fun _ => ⟨rfl, rfl⟩
  unfold createRowUser
  refine .then inferInstance fun db => .then inferInstance fun email => .then inferInstance fun displayName =>
    .then (.catch inferInstance fun e => by split <;> infer_instance) fun created => ?_
  split
  · infer_instance
  · exact .then (hset _) fun _ => inferInstance

instance : Abides Calm (commitUsersRow c row actor) := by
  unfold commitUsersRow
  repeat' first | infer_instance | split

instance : Abides Calm (commitDeactivationRow c row actor) := by
  unfold commitDeactivationRow
  repeat' first | infer_instance | split | refine .then inferInstance fun _ => ?_

instance : Abides Calm (commitTeamMembershipRow c row actor) := by
  unfold commitTeamMembershipRow
  repeat' first | infer_instance | split | refine .then inferInstance fun _ => ?_

instance : Abides Calm (commitReportingAssignmentRow c row actor) := by
  unfold commitReportingAssignmentRow
  dsimp only
  repeat' first | infer_instance | split | refine .then ?_ fun _ => ?_ | refine .catch inferInstance fun _ => ?_

instance : Abides Calm (commitCampaignAssignmentRow c row actor) := by
  unfold commitCampaignAssignmentRow
  repeat' first | infer_instance | split | refine .then inferInstance fun _ => ?_

instance : Abides Calm (commitRoleAssignmentRow c row actor) := by
  unfold commitRoleAssignmentRow
  dsimp only
  repeat' first | infer_instance | split | refine .then inferInstance fun _ => ?_

instance (t : ImportType) : Abides Calm (commitRow t c row actor) := by
  cases t <;> unfold commitRow <;> infer_instance

instance : Abides Calm (reverseUserRow c row id actor) := by
  unfold reverseUserRow; infer_instance

instance : Abides Calm (reverseTeamMembershipRow c row id actor) := by
  unfold reverseTeamMembershipRow; infer_instance

instance : Abides Calm (reverseRoleAssignmentRow c row id actor) := by
  unfold reverseRoleAssignmentRow; infer_instance

instance : Abides Calm (reverseReportingAssignmentRow c row id actor) := by
  unfold reverseReportingAssignmentRow
  repeat' first | infer_instance | split

instance : Abides Calm (reverseCampaignAssignmentRow c row id actor) := by
  unfold reverseCampaignAssignmentRow
  dsimp only
  repeat' first | infer_instance | split | refine .then inferInstance fun _ => ?_

instance (e : EntityType) : Abides Calm (reverseRow e c row id actor) := by
  cases e <;> unfold reverseRow <;> infer_instance

instance (n : Uuid) (f : WorkforceImportJob → WorkforceImportJob) : Leaves Db.identities (setWorkforceJob n f) :=
  .then inferInstance fun _ => .update fun _ => rfl

instance (n : Uuid) (f : WorkforceImportRow → WorkforceImportRow) : Leaves Db.identities (setWorkforceRow n f) :=
  .update fun _ => rfl

instance (rows : List WorkforceImportRow) : Leaves Db.identities (addWorkforceRows rows) := .update fun _ => rfl

variable (now : Time) (job : WorkforceImportJob) (risk : RiskLevel)

instance : Leaves Db.identities (assertRowsAuthorized now job actor risk) := by
  unfold assertRowsAuthorized; infer_instance

instance : Leaves Db.identities (assertJobAccessible now job actor) := by unfold assertJobAccessible; infer_instance

instance : Leaves Db.identities (assertQualifiedHighRiskApprover now job actor) := by
  unfold assertQualifiedHighRiskApprover; infer_instance

instance : Leaves Db.identities (notifyPendingApprovers c job) := by unfold notifyPendingApprovers; infer_instance

instance (action : String) (o : Outcome) : Leaves Db.identities (recordRow action job row actor o) := by
  unfold recordRow; split <;> infer_instance

instance : Leaves Db.identities (standardApprover c job) := by unfold standardApprover; infer_instance

instance : Leaves Db.identities (highRiskApprover c job) := by unfold highRiskApprover; infer_instance

instance (standard : Uuid) (highRisk : Option Uuid) (acc : Committed) :
    Abides Calm (commitStep c job standard highRisk acc row) := by
  unfold commitStep
  dsimp only
  repeat' first | infer_instance | split | refine .then inferInstance fun _ => ?_

instance (r : CommitRequest) : Abides Calm (commitParsed c r job) := by unfold commitParsed; infer_instance

instance (r : CommitRequest) (loaded : Option WorkforceImportJob) : Abides Calm (commitJob c r loaded) := by
  unfold commitJob; infer_instance

instance (acc : Reversed) : Abides Calm (reverseStep c job actor now acc row) := by
  unfold reverseStep
  repeat' first | infer_instance | split | refine .then inferInstance fun _ => ?_

instance (loaded : Option WorkforceImportJob) : Abides Calm (reverseJob c id actor loaded) := by
  unfold reverseJob
  dsimp only
  repeat' first | infer_instance | split | refine .then inferInstance fun _ => ?_

instance (lower : String → String) (t : Tally) (r : Imports.ParsedRow) :
    Leaves Db.identities (parseRow c lower job t r) := by
  unfold parseRow; infer_instance

instance (error : String) : Leaves Db.identities (failParse job error) := by unfold failParse; infer_instance

instance (lower : String → String) (file : Imports.SourceFile) : Leaves Db.identities (parseJob c lower file id) := by
  unfold parseJob
  dsimp only
  repeat' first | infer_instance | split | refine .then inferInstance fun _ => ?_

instance (r : DecisionRequest) : Leaves Db.identities (assertApprovable (c.utcnow 1) job r) := by
  unfold assertApprovable
  split <;> infer_instance

instance (r : DecisionRequest) : Leaves Db.identities (recordDecision c r) := by
  have (d : WorkforceImportDecision) : Leaves Db.identities
      (insertRow "workforce_import_decisions" .workforceDecision Db.workforceDecisions
        (fun d db => { db with workforceDecisions := db.workforceDecisions ++ [d] }) d) :=
    leaves_insertRow fun _ => rfl
  unfold recordDecision
  dsimp only
  repeat' first | infer_instance | split | refine .then inferInstance fun _ => ?_

instance : Leaves Db.identities (cleanupExpiredJobs c) := by
  have (id : Uuid) : Leaves Db.identities (update fun db => { db with
      workforceRows := db.workforceRows.filter fun r => r.importJobId ≠ id } : Txn Unit) := .update fun _ => rfl
  unfold cleanupExpiredJobs; infer_instance

instance (uploader : Uuid) (importType : ImportType) (filename fileHash : String) (size : ℤ) :
    Leaves Db.identities (createImportJob c importType uploader filename fileHash size) := by
  have (j : WorkforceImportJob) : Leaves Db.identities
      (insertRow "workforce_import_jobs" .workforceJob Db.workforceJobs
        (fun j db => { db with workforceJobs := db.workforceJobs ++ [j] }) j) :=
    leaves_insertRow fun _ => rfl
  unfold createImportJob; infer_instance

namespace Request

instance (user : Uuid) (importType : ImportType) (filename fileHash : String) (size : ℤ) :
    Leaves Db.identities (upload c user importType filename fileHash size) := by
  unfold upload; infer_instance

instance (r : DecisionRequest) : Leaves Db.identities (decide c r) := by unfold decide; infer_instance

instance (r : CommitRequest) : Abides Calm (commit c r) := by unfold commit; infer_instance

instance : Abides Calm (reverse c id actor) := by unfold reverse; infer_instance

end Request

end WorkforceImports

/-! ## The application -/

instance {α : Type} (p : Txn α) [Abides Calm p] : Abides Calm (App.silent p) := by unfold App.silent; infer_instance

instance (op : App.Op) : Abides Calm (App.body op) := by
  cases op <;> unfold App.body <;> infer_instance

end OmniDB
