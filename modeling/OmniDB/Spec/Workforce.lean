import OmniDB.Spec.Service

/-! Users, roles, teams, reporting lines and delegations: `app/workforce/service.py`,
`app/authz/delegations.py` and the requests of `app/api/workforce.py` and
`app/api/delegations.py`. -/

namespace OmniDB.Workforce

open Tx
open Tx.Prog (view update acquire acquireShared raise raiseIf expect)

/-- `ROLE_APPOINTMENT_CAPABILITY`: the capability that gates appointing a user into the role. -/
def roleAppointmentCapability : Role → Option Capability
  | .manager => some .createManager
  | .teamLeader => some .appointTeamLeader
  | .teamCaptain => some .appointTeamCaptain
  | .agent => some .createAgent
  | .viewer => some .manageRoles
  | .superAdmin | .other _ => none

/-- `ROLE_APPOINTMENT_CAPABILITY.values()`. -/
def appointmentCapabilities : List Capability :=
  [.createManager, .appointTeamLeader, .appointTeamCaptain, .createAgent, .manageRoles]

def viewerEnabled : String := "viewer_enabled"

def roleName : Role → String
  | .superAdmin => "super_admin"
  | .manager => "manager"
  | .teamLeader => "team_leader"
  | .teamCaptain => "team_captain"
  | .agent => "agent"
  | .viewer => "viewer"
  | .other text => text

def scopeTypeName : ScopeType → String
  | .installation => "installation"
  | .organization => "organization"
  | .team => "team"
  | .campaign => "campaign"
  | .other text => text

/-- `str(scope_id) if scope_id else None`. -/
def idValue : Option Uuid → MetaValue
  | some id => .uuid id
  | none => .text "None"

/-- An audit event of the workforce service. -/
def workforceEvent (action : String) (actor : Uuid) (targetType : String) (target : Uuid)
    (reason : Option String) (details : List (String × MetaValue)) : AuditEvent where
  action := action
  actorUserId := some actor
  targetType := some targetType
  targetId := some target
  reasonCode := reason
  eventMetadata := details

def selfAuthorization : Err := .selfApproval "a user may not authorize this action on themselves"

/-- `assert_not_self`. -/
def assertNotSelf (requester subject : Uuid) : Txn Unit :=
  raiseIf (requester = subject) selfAuthorization

def setUser (id : Uuid) (f : User → User) : Txn Unit := do
  acquire (.user id)
  update fun db => { db with users := Table.modify db.users id f }

/-- The value an `UPDATE` leaves: it sets a column only where the object was changed. -/
def changed {α : Type} [DecidableEq α] (loaded new row : α) : α := if new = loaded then row else new

def User.merge (loaded new row : User) : User where
  id := row.id
  workforceId := changed loaded.workforceId new.workforceId row.workforceId
  email := changed loaded.email new.email row.email
  displayName := changed loaded.displayName new.displayName row.displayName
  passwordHash := changed loaded.passwordHash new.passwordHash row.passwordHash
  totpSecretCiphertext := changed loaded.totpSecretCiphertext new.totpSecretCiphertext row.totpSecretCiphertext
  totpEnrolled := changed loaded.totpEnrolled new.totpEnrolled row.totpEnrolled
  workforceStatus := changed loaded.workforceStatus new.workforceStatus row.workforceStatus
  active := changed loaded.active new.active row.active
  startDate := changed loaded.startDate new.startDate row.startDate
  endDate := changed loaded.endDate new.endDate row.endDate
  lastLoginAt := changed loaded.lastLoginAt new.lastLoginAt row.lastLoginAt
  disabledAt := changed loaded.disabledAt new.disabledAt row.disabledAt
  createdAt := changed loaded.createdAt new.createdAt row.createdAt

/-- The flush of a user the session has loaded and changed; without a change there is no `UPDATE`. -/
def flushUser (loaded : User) (f : User → User) : Txn Unit :=
  if f loaded = loaded then pure () else setUser loaded.id (User.merge loaded (f loaded))

def setMembership (id : Uuid) (f : TeamMembership → TeamMembership) : Txn Unit := do
  acquire (.membership id)
  update fun db => { db with memberships := Table.modify db.memberships id f }

def setRoleAssignment (id : Uuid) (f : RoleAssignment → RoleAssignment) : Txn Unit := do
  acquire (.roleAssignment id)
  update fun db => { db with roleAssignments := Table.modify db.roleAssignments id f }

def setReportingAssignment (id : Uuid) (f : ReportingAssignment → ReportingAssignment) : Txn Unit := do
  acquire (.reportingAssignment id)
  update fun db => { db with reportingAssignments := Table.modify db.reportingAssignments id f }

/-! ## Users -/

/-- `can_manage_user`. -/
def canManageUser (db : Db) (now : Time) (actor target : Uuid) : Bool :=
  let targetRoles := Authz.effectiveRoleAssignments db now target
  if targetRoles.isEmpty then appointmentCapabilities.any (Authz.hasAssignedCapability db now actor)
  else targetRoles.any fun ra => (roleAppointmentCapability ra.roleCode).any fun capability =>
    Authz.hasScopeCapability db now actor capability ra.scopeType ra.scopeId

def setActivationToken (id : Uuid) (f : ActivationToken → ActivationToken) : Txn Unit := do
  acquire (.activationToken id)
  update fun db => { db with activationTokens := Table.modify db.activationTokens id f }

def used (now : Time) (t : ActivationToken) : ActivationToken := { t with usedAt := some now }

/-- `issue_activation_token`: every prior unused token of the user is used up. The foreign key
`created_by` of the new row takes the key share lock of that user. -/
def issueActivationToken (c : Call) (user createdBy : Uuid) : Txn String := do
  let _ ← expect (← selectForUpdate "activation user" .user Db.users (fun _ => true) user)
    (.valueError "activation user does not exist")
  let now := c.utcnow 0
  let db ← view "prior tokens"
  (orderBy (fun t t' => t.id ≤ t'.id) (db.activationTokens.filter fun t =>
    t.userId = user && t.usedAt.isNone)).forM fun t => setActivationToken t.id (used now)
  insertRow "activation_tokens" .activationToken Db.activationTokens
    (fun t db => { db with activationTokens := db.activationTokens ++ [t] })
    { id := c.uuid4 1, userId := user, tokenHash := c.hashToken (c.token 0)
      createdBy := some createdBy, expiresAt := now + hours 24 }
  acquireShared (.user createdBy)
  return c.token 0

/-- `email.split("@")[0]`. -/
def localPart (email : String) : String := String.ofList (email.toList.takeWhile (· ≠ '@'))

/-- `create_user`. -/
def createUser (c : Call) (email displayName : String) (workforceId : Option String) (createdBy : Uuid)
    (issueActivation : Bool) : Txn (User × Option String) := do
  let derivedId := match workforceId with
    | some id => if id = "" then localPart email else id
    | none => localPart email
  let db ← view "existing user"
  raiseIf (db.users.any fun u => u.email = email || u.workforceId = derivedId)
    (.duplicateIdentity "a user with this email or workforce ID already exists")
  let user : User := {
    id := c.uuid4 0, workforceId := derivedId, email := email, displayName := displayName
    createdAt := c.utcnow 3 }
  insertRow "users" .user Db.users (fun u db => { db with users := db.users ++ [u] }) user
  recordAudit (workforceEvent "workforce.user.create" createdBy "user" user.id none [])
  if issueActivation then
    let token ← issueActivationToken c user.id createdBy
    recordAudit (workforceEvent "workforce.user.activation_issued" createdBy "user" user.id none [])
    return (user, some token)
  else return (user, none)

/-- The fields `update_user` may set; an absent one is left as it is. -/
structure UserChanges where
  displayName : Option String := none
  startDate : Option (Option Date) := none
  endDate : Option (Option Date) := none

/-- `sorted(changes)`. -/
def UserChanges.fields (ch : UserChanges) : List String :=
  (if ch.displayName.isSome then ["display_name"] else []) ++
    (if ch.endDate.isSome then ["end_date"] else []) ++
    (if ch.startDate.isSome then ["start_date"] else [])

def UserChanges.apply (ch : UserChanges) (u : User) : User :=
  { u with
    displayName := ch.displayName.getD u.displayName
    startDate := ch.startDate.getD u.startDate
    endDate := ch.endDate.getD u.endDate }

/-- `update_user`. -/
def updateUser (target : User) (changes : UserChanges) (actor : Uuid) (reason : Option String) :
    Txn Unit := do
  flushUser target changes.apply
  recordAudit (workforceEvent "workforce.user.update" actor "user" target.id reason
    (changes.fields.map fun f => ("fields", .text f)))

def disabled (now : Time) (u : User) : User :=
  { u with active := false, workforceStatus := .ended, disabledAt := some now }

def reactivated (u : User) : User :=
  { u with active := true, workforceStatus := .active, disabledAt := none }

/-- `disable_user`. -/
def disableUser (c : Call) (target : User) (actor : Uuid) (reason : String) : Txn Unit := do
  assertNotSelf actor target.id
  flushUser target (disabled (c.utcnow 0))
  Authz.revokeAllForUser (c.utcnow 1) target.id
  let reclaimed ← Work.reclaimLeasesForUser c target.id
  recordAudit (workforceEvent "workforce.user.disable" actor "user" target.id (some reason)
    [("leases_reclaimed", .num reclaimed)])

/-- `reactivate_user`. -/
def reactivateUser (target : User) (actor : Uuid) (reason : String) : Txn Unit := do
  flushUser target reactivated
  recordAudit (workforceEvent "workforce.user.reactivate" actor "user" target.id (some reason) [])

/-! ## Roles -/

/-- `status == "active" and effective_to is None`. -/
def currentRole (ra : RoleAssignment) : Bool := ra.status = .active && ra.effectiveTo.isNone

/-- The current assignments of one role at one scope. -/
def isGrant (user : Uuid) (role : Role) (scopeType : ScopeType) (scopeId : Option Uuid)
    (ra : RoleAssignment) : Bool :=
  ra.userId = user && ra.roleCode = role && ra.scopeType = scopeType && ra.scopeId = scopeId &&
    currentRole ra

def endedRole (now : Time) (ra : RoleAssignment) : RoleAssignment :=
  { ra with status := .ended, effectiveTo := some now, endedAt := some now }

structure RoleRequest where
  targetUserId : Uuid
  roleCode : Role
  scopeType : ScopeType
  scopeId : Option Uuid := none
  reasonCode : Option String := none

def insertRoleAssignment (ra : RoleAssignment) : Txn Unit :=
  insertRow "role_assignments" .roleAssignment Db.roleAssignments
    (fun ra db => { db with roleAssignments := db.roleAssignments ++ [ra] }) ra

/-- `assign_role`: a grant of the same role at the same scope is superseded. -/
def assignRole (c : Call) (r : RoleRequest) (appointedBy : Uuid) : Txn RoleAssignment := do
  raiseIf (roleAppointmentCapability r.roleCode).isNone
    (.unknownRole (roleName r.roleCode ++ " is not an appointable role"))
  if r.roleCode = .viewer then requireEnabled viewerEnabled
  assertNotSelf appointedBy r.targetUserId
  let now := c.utcnow 0
  let db ← view "prior grants"
  (scan c (db.roleAssignments.filter (isGrant r.targetUserId r.roleCode r.scopeType r.scopeId))).forM
    fun ra => setRoleAssignment ra.id (endedRole now)
  let assignment : RoleAssignment := {
    id := c.uuid4 0
    userId := r.targetUserId
    roleCode := r.roleCode
    scopeType := r.scopeType
    scopeId := r.scopeId
    effectiveFrom := now
    appointedBy := some appointedBy
    reasonCode := r.reasonCode }
  insertRoleAssignment assignment
  Authz.revokeAllForUser (c.utcnow 1) r.targetUserId
  recordAudit (workforceEvent "workforce.role.assign" appointedBy "user" r.targetUserId r.reasonCode
    [("role_code", .text (roleName r.roleCode)), ("scope_type", .text (scopeTypeName r.scopeType)),
      ("scope_id", idValue r.scopeId)])
  return assignment

/-- `end_role_assignment`. -/
def endRoleAssignment (c : Call) (ra : RoleAssignment) (endedBy : Uuid) (reason : String) : Txn Unit := do
  assertNotSelf endedBy ra.userId
  setRoleAssignment ra.id (endedRole (c.utcnow 0))
  Authz.revokeAllForUser (c.utcnow 1) ra.userId
  Authz.invalidateDelegateSessionsForDelegator (c.utcnow 2) ra.userId
  recordAudit (workforceEvent "workforce.role.end" endedBy "user" ra.userId (some reason)
    [("role_code", .text (roleName ra.roleCode))])

/-! ## Teams -/

def defaultOrganizationName : String := "Default organization"

/-- `_get_or_create_default_organization`. -/
def getOrCreateDefaultOrganization (c : Call) (createdBy : Uuid) : Txn Organization := do
  let db ← view "organization"
  match (scan c db.organizations).head? with
  | some o => return o
  | none =>
    let o : Organization := { id := c.uuid4 0, name := defaultOrganizationName }
    let db ← view "organizations"
    raiseIf ((Table.find db.organizations o.id).isSome) (.integrityError "pk_organizations")
    update fun db => { db with organizations := db.organizations ++ [o] }
    recordAudit (workforceEvent "workforce.organization.create" createdBy "organization" o.id none [])
    return o

structure TeamRequest where
  name : String
  externalCode : String
  parentTeamId : Option Uuid := none

/-- `create_team`. -/
def createTeam (c : Call) (r : TeamRequest) (createdBy : Uuid) : Txn Team := do
  let organization ← getOrCreateDefaultOrganization c createdBy
  let team : Team := {
    id := c.uuid4 1
    organizationId := organization.id
    name := r.name
    externalCode := r.externalCode
    parentTeamId := r.parentTeamId }
  let db ← view "teams"
  raiseIf ((Table.find db.teams team.id).isSome) (.integrityError "pk_teams")
  raiseIf (db.teams.any fun t => t.organizationId = team.organizationId && t.externalCode = team.externalCode)
    (.integrityError "uq_teams_org_external_code")
  update fun db => { db with teams := db.teams ++ [team] }
  recordAudit (workforceEvent "workforce.team.create" createdBy "team" team.id none [])
  return team

/-- An active membership of the user in the team. -/
def isMembership (team user : Uuid) (m : TeamMembership) : Bool :=
  m.teamId = team && m.userId = user && m.membershipStatus = .active && m.effectiveTo.isNone

def endedMembership (now : Time) (m : TeamMembership) : TeamMembership :=
  { m with membershipStatus := .ended, effectiveTo := some now, endedAt := some now }

/-- `add_team_membership`: an active membership is returned as it is. -/
def addTeamMembership (c : Call) (team user addedBy : Uuid) : Txn TeamMembership := do
  let db ← view "existing membership"
  match (scan c (db.memberships.filter (isMembership team user))).head? with
  | some m => return m
  | none =>
    let m : TeamMembership := {
      id := c.uuid4 0, teamId := team, userId := user, effectiveFrom := c.utcnow 0
      createdBy := some addedBy }
    insertRow "team_memberships" .membership Db.memberships
      (fun m db => { db with memberships := db.memberships ++ [m] }) m
    recordAudit (workforceEvent "workforce.team.add_member" addedBy "team" team none
      [("user_id", .uuid user)])
    return m

/-- `end_team_membership`. -/
def endTeamMembership (c : Call) (m : TeamMembership) (endedBy : Uuid) (reason : Option String) :
    Txn Unit := do
  setMembership m.id (endedMembership (c.utcnow 0))
  recordAudit (workforceEvent "workforce.team.end_member" endedBy "team" m.teamId reason
    [("user_id", .uuid m.userId)])

/-! ## Reporting lines -/

structure ReportingRequest where
  subordinateUserId : Uuid
  supervisorUserId : Uuid
  contextType : String := "organization"
  contextId : Option Uuid := none
  assignmentType : String := "primary"
  reasonCode : Option String := none

/-- The current primary line of the user in the context. -/
def isPrimaryLine (subordinate : Uuid) (contextType : String) (contextId : Option Uuid)
    (l : ReportingAssignment) : Bool :=
  l.subordinateUserId = subordinate && l.contextType = contextType && l.contextId = contextId &&
    l.assignmentType = "primary" && l.status = .active && l.effectiveTo.isNone

def endedLine (now : Time) (l : ReportingAssignment) : ReportingAssignment :=
  { l with status := .ended, effectiveTo := some now, endedAt := some now }

/-- `set_reporting_line`: a primary line supersedes the one before. -/
def setReportingLine (c : Call) (r : ReportingRequest) (assignedBy : Uuid) : Txn ReportingAssignment := do
  raiseIf (r.subordinateUserId = r.supervisorUserId) (.selfSupervision "a user may not supervise themselves")
  let now := c.utcnow 0
  if r.assignmentType = "primary" then
    let db ← view "prior lines"
    (scan c (db.reportingAssignments.filter
      (isPrimaryLine r.subordinateUserId r.contextType r.contextId))).forM
      fun l => setReportingAssignment l.id (endedLine now)
  let line : ReportingAssignment := {
    id := c.uuid4 0
    subordinateUserId := r.subordinateUserId
    supervisorUserId := r.supervisorUserId
    contextType := r.contextType
    contextId := r.contextId
    assignmentType := r.assignmentType
    effectiveFrom := now
    assignedBy := some assignedBy
    reasonCode := r.reasonCode }
  insertRow "reporting_assignments" .reportingAssignment Db.reportingAssignments
    (fun l db => { db with reportingAssignments := db.reportingAssignments ++ [l] }) line
  recordAudit (workforceEvent "workforce.reporting_line.set" assignedBy "user" r.subordinateUserId
    r.reasonCode [("supervisor_user_id", .uuid r.supervisorUserId)])
  return line

/-- `end_reporting_line`. -/
def endReportingLine (c : Call) (l : ReportingAssignment) (endedBy : Uuid) (reason : Option String) :
    Txn Unit := do
  setReportingAssignment l.id (endedLine (c.utcnow 0))
  recordAudit (workforceEvent "workforce.reporting_line.end" endedBy "user" l.subordinateUserId reason
    [("supervisor_user_id", .uuid l.supervisorUserId)])

/-! ## Delegations -/

def capabilityName : Capability → String
  | .technicalConfig => "technical_config"
  | .resetUserAuth => "reset_user_auth"
  | .viewAudit => "view_audit"
  | .createManager => "create_manager"
  | .manageRoles => "manage_roles"
  | .appointTeamLeader => "appoint_team_leader"
  | .appointTeamCaptain => "appoint_team_captain"
  | .createAgent => "create_agent"
  | .createCampaign => "create_campaign"
  | .viewCampaign => "view_campaign"
  | .manageCampaign => "manage_campaign"
  | .pauseCampaign => "pause_campaign"
  | .launchCampaign => "launch_campaign"
  | .archiveCampaign => "archive_campaign"
  | .workQueue => "work_queue"
  | .assignCampaignAgent => "assign_campaign_agent"
  | .viewCampaignReports => "view_campaign_reports"
  | .exportCompletedCampaign => "export_completed_campaign"

/-- `ALL_CAPABILITIES`: every capability is granted to at least one role. -/
def allCapabilities : List Capability :=
  [Role.superAdmin, .manager, .teamLeader, .teamCaptain, .agent, .viewer].flatMap Authz.roleCapabilities

def capabilityOf (name : String) : Option Capability :=
  allCapabilities.find? fun c => capabilityName c = name

/-- `NON_DELEGABLE`. -/
def nonDelegable : List Capability := [.technicalConfig, .resetUserAuth, .createManager, .manageRoles]

/-- `", ".join(sorted(names))`. -/
def joinSorted (names : List String) : String := String.intercalate ", " (names.insertionSort (· ≤ ·))

structure DelegationRequest where
  delegateId : Uuid
  capabilitySet : List String
  scopeType : ScopeType
  scopeId : Option Uuid := none
  effectiveFrom : Time
  effectiveTo : Option Time := none
  reasonCode : Option String := none

/-- `create_delegation`. The error class of a rejected one is `DelegationError` or one below it. -/
def createDelegation (c : Call) (delegator : Uuid) (r : DelegationRequest) : Txn Delegation := do
  raiseIf (r.delegateId = delegator) (.valueError "a user cannot delegate to themselves")
  raiseIf (r.scopeType ∉ [.installation, .organization, .team, .campaign])
    (.valueError ("unknown scope type: " ++ scopeTypeName r.scopeType))
  raiseIf (r.scopeType ∈ [.team, .campaign] ∧ r.scopeId = none)
    (.valueError ("a " ++ scopeTypeName r.scopeType ++ "-scoped delegation requires a scope id"))
  let names := r.capabilitySet.eraseDups
  raiseIf (names = []) (.valueError "a delegation must grant at least one capability")
  let unknown := names.filter fun n => (capabilityOf n).isNone
  raiseIf (unknown ≠ []) (.valueError ("unknown capability: " ++ joinSorted unknown))
  let caps := names.filterMap capabilityOf
  let forbidden := caps.filter nonDelegable.contains
  raiseIf (forbidden ≠ []) (.valueError
    ("these capabilities may not be delegated: " ++ joinSorted (forbidden.map capabilityName)))
  raiseIf (r.effectiveTo.any fun t => t ≤ r.effectiveFrom)
    (.valueError "effective_to must be after effective_from")
  let db ← view "has_scope_capability_via_role"
  let lacking := caps.filter fun cap =>
    !Authz.hasScopeCapabilityViaRole db (c.utcnow 0) delegator cap r.scopeType r.scopeId
  raiseIf (lacking ≠ []) (.insufficientApprovalAuthority
    ("you do not hold these capabilities at this scope: " ++ joinSorted (lacking.map capabilityName)))
  let delegation : Delegation := {
    id := c.uuid4 0
    delegatorUserId := delegator
    delegateUserId := r.delegateId
    capabilitySet := caps
    scopeType := r.scopeType
    scopeId := r.scopeId
    effectiveFrom := r.effectiveFrom
    effectiveTo := r.effectiveTo
    reasonCode := r.reasonCode }
  let db ← view "delegations"
  raiseIf ((Table.find db.delegations delegation.id).isSome) (.integrityError "pk_delegations")
  update fun db => { db with delegations := db.delegations ++ [delegation] }
  recordAudit (workforceEvent "delegation.create" delegator "delegation" delegation.id r.reasonCode
    ([("delegate_user_id", .uuid r.delegateId)] ++
      caps.map (fun cap => ("capabilities", .text (capabilityName cap))) ++
      [("scope_type", .text (scopeTypeName r.scopeType)), ("scope_id", idValue r.scopeId)]))
  Authz.revokeAllForUser (c.utcnow 1) r.delegateId
  return delegation

/-- `revoke_delegation`. -/
def revokeDelegation (c : Call) (id actor : Uuid) : Txn Unit := do
  let d ← expect (← getRow "delegation" Db.delegations id) (.http 404 "delegation not found")
  raiseIf (d.delegatorUserId ≠ actor) (.http 403 "only the delegator may revoke this delegation")
  if d.revokedAt.isNone then
    update fun db => { db with delegations := Table.modify db.delegations id fun d =>
      { d with revokedAt := some (c.utcnow 0) } }
    recordAudit (workforceEvent "delegation.revoke" actor "delegation" id none
      [("delegate_user_id", .uuid d.delegateUserId)])
    Authz.revokeAllForUser (c.utcnow 1) d.delegateUserId

/-! ## Requests -/

def notAuthorized : Err := .http 403 "not authorized"

/-- `_require_any_appointment_capability`. -/
def requireAnyCapability (now : Time) (caps : List Capability) (user : Uuid) : Txn Unit := do
  let db ← view "has_assigned_capability"
  raiseIf (!caps.any (Authz.hasAssignedCapability db now user)) notAuthorized

/-- `_load_user_or_404`. -/
def loadUser (id : Uuid) : Txn User := do
  expect (← getRow "user" Db.users id) (.http 404 "user not found")

/-- `_require_can_manage`. -/
def requireCanManage (now : Time) (actor target : Uuid) : Txn Unit := do
  let db ← view "can_manage_user"
  raiseIf (!canManageUser db now actor target) notAuthorized

/-- The appointment capability for the role, held at the scope. -/
def requireAppointment (now : Time) (actor : Uuid) (role : Role) (scopeType : ScopeType)
    (scopeId : Option Uuid) : Txn Unit := do
  let db ← view "has_scope_capability"
  raiseIf (!(roleAppointmentCapability role).any fun capability =>
    Authz.hasScopeCapability db now actor capability scopeType scopeId) notAuthorized

/-- `_load_team_or_404`, then `_require_team_capability`. -/
def loadTeam (now : Time) (actor id : Uuid) : Txn Team := do
  let team ← expect (← getRow "team" Db.teams id) (.http 404 "team not found")
  let db ← view "has_scope_capability"
  raiseIf (!Authz.hasScopeCapability db now actor .appointTeamCaptain .team (some team.id)) notAuthorized
  return team

namespace Request

/-- `POST /workforce/users`. -/
def createUser (c : Call) (actor : Uuid) (email displayName : String) (workforceId : Option String) :
    Txn Unit := do
  requireAnyCapability (c.utcnow 1) appointmentCapabilities actor
  let _ ← Workforce.createUser c email displayName workforceId actor true

/-- `POST /workforce/users/{user_id}/disable`. -/
def disableUser (c : Call) (actor id : Uuid) (reason : String) : Txn Unit := do
  let target ← loadUser id
  requireCanManage (c.utcnow 2) actor target.id
  Workforce.disableUser c target actor reason

/-- `POST /workforce/users/{user_id}/reactivate`. -/
def reactivateUser (c : Call) (actor id : Uuid) (reason : String) : Txn Unit := do
  let target ← loadUser id
  requireCanManage (c.utcnow 0) actor target.id
  Workforce.reactivateUser target actor reason

/-- `POST /workforce/users/{user_id}/roles`. -/
def assignRole (c : Call) (actor : Uuid) (r : RoleRequest) : Txn Unit := do
  let target ← loadUser r.targetUserId
  requireAppointment (c.utcnow 2) actor r.roleCode r.scopeType r.scopeId
  if r.scopeType = .team then
    let team ← match r.scopeId with
      | some id => getRow "team" Db.teams id
      | none => pure none
    raiseIf (!team.any Team.active) (.http 400 "invalid scope team")
  let _ ← Workforce.assignRole c { r with targetUserId := target.id } actor

/-- `POST /workforce/roles/{role_assignment_id}/end`. -/
def endRoleAssignment (c : Call) (actor id : Uuid) (reason : String) : Txn Unit := do
  let ra ← expect (← getRow "role assignment" Db.roleAssignments id)
    (.http 404 "role assignment not found")
  requireAppointment (c.utcnow 3) actor ra.roleCode ra.scopeType ra.scopeId
  Workforce.endRoleAssignment c ra actor reason

/-- `POST /workforce/teams`. -/
def createTeam (c : Call) (actor : Uuid) (r : TeamRequest) : Txn Unit := do
  requireAnyCapability (c.utcnow 0) [.manageRoles] actor
  let _ ← Workforce.createTeam c r actor

/-- `POST /workforce/teams/{team_id}/members`. -/
def addTeamMember (c : Call) (actor id user : Uuid) : Txn Unit := do
  let team ← loadTeam (c.utcnow 1) actor id
  let _ ← loadUser user
  let _ ← Workforce.addTeamMembership c team.id user actor

/-- `POST /workforce/memberships/{membership_id}/end`. -/
def endTeamMembership (c : Call) (actor id : Uuid) : Txn Unit := do
  let m ← expect (← getRow "membership" Db.memberships id) (.http 404 "membership not found")
  let _ ← loadTeam (c.utcnow 1) actor m.teamId
  Workforce.endTeamMembership c m actor none

/-- `POST /workforce/users/{user_id}/reporting-line`. -/
def setReportingLine (c : Call) (actor : Uuid) (r : ReportingRequest) : Txn Unit := do
  let target ← loadUser r.subordinateUserId
  requireCanManage (c.utcnow 1) actor target.id
  let _ ← loadUser r.supervisorUserId
  let _ ← Workforce.setReportingLine c { r with subordinateUserId := target.id } actor

/-- `POST /delegations`. -/
def createDelegation (c : Call) (user : Uuid) (r : DelegationRequest) : Txn Unit := do
  let _ ← Workforce.createDelegation c user r

end Request

end OmniDB.Workforce
