import OmniDB.Spec.Workforce

/-! The user listings of `app/workforce/service.py` and their scope. -/

namespace OmniDB.Directory

open Tx
open Authz Workforce

/-- `visible_team_ids`: whether the actor sees everyone, and the teams that the actor sees. -/
def visibleTeamIds (db : Db) (now : Time) (actor : Uuid) : Bool × List Uuid :=
  let grants := (effectiveRoleAssignments db now actor).filter fun ra =>
    appointmentCapabilities.any (roleCapabilities ra.roleCode).contains
  let seesEveryone := grants.any fun ra =>
    ra.scopeType = .installation || (ra.scopeType = .organization && ra.scopeId.isNone)
  let organizationIds := grants.filterMap fun ra => if ra.scopeType = .organization then ra.scopeId else none
  let teamIds := grants.filterMap fun ra => if ra.scopeType = .team then ra.scopeId else none
  let inherited := if seesEveryone || organizationIds.isEmpty then []
    else (db.teams.filter fun t => organizationIds.contains t.organizationId && t.active).map Team.id
  (seesEveryone, teamIds ++ inherited)

/-- The user is an active member of one of the teams. -/
def memberOfAny (db : Db) (teams : List Uuid) (user : Uuid) : Bool :=
  db.memberships.any fun m => m.userId = user && teams.contains m.teamId && m.membershipStatus = .active

/-- `list_visible_users` before its order and its limit; the join and `DISTINCT` keep each user once. -/
def visibleUsers (db : Db) (now : Time) (actor : Uuid) : List User :=
  let scope := visibleTeamIds db now actor
  if scope.1 then db.users else db.users.filter fun u => memberOfAny db scope.2 u.id

/-- `_directory_scope`. -/
def directoryScope (db : Db) (now : Time) (actor : Uuid) : Bool × List Uuid :=
  let scope := visibleTeamIds db now actor
  (scope.1 || hasAssignedCapability db now actor .resetUserAuth, scope.2)

/-- `user_in_admin_scope`. -/
def userInAdminScope (db : Db) (now : Time) (actor target : Uuid) : Bool :=
  let scope := directoryScope db now actor
  scope.1 || memberOfAny db scope.2 target

/-! ## The administrative directory -/

/-- The states of `ACTIVATION_STATE_LABELS`. -/
inductive ActivationState where
  | disabled | activationNotIssued | activationCodeActive | activationCodeExpired | mfaSetupRequired | ready
deriving DecidableEq

def ActivationState.name : ActivationState → String
  | .disabled => "disabled"
  | .activationNotIssued => "activation_not_issued"
  | .activationCodeActive => "activation_code_active"
  | .activationCodeExpired => "activation_code_expired"
  | .mfaSetupRequired => "mfa_setup_required"
  | .ready => "ready"

/-- `_activation_state_expression`. -/
def activationState (db : Db) (now : Time) (u : User) : ActivationState :=
  let unused := db.activationTokens.filter fun t => t.userId = u.id && t.usedAt.isNone
  let unusedTokenExpiry := (orderBy (fun t t' => t'.expiresAt ≤ t.expiresAt) unused).head?.map ActivationToken.expiresAt
  if u.active = false then .disabled
  else if u.passwordHash.isSome && u.totpEnrolled then .ready
  else if u.passwordHash.isSome then .mfaSetupRequired
  else match unusedTokenExpiry with
    | none => .activationNotIssued
    | some expiry => if now < expiry then .activationCodeActive else .activationCodeExpired

/-- `LIKE`, with `\` as its escape character. -/
def like : List Char → List Char → Bool
  | [], text => text.isEmpty
  | ch :: pattern, text =>
    if ch = '%' then text.tails.any (like pattern)
    else match text with
      | [] => false
      | t :: text =>
        if ch = '_' then like pattern text
        else if ch = '\\' then
          match pattern with
          | [] => false
          | escaped :: pattern => t = escaped && like pattern text
        else t = ch && like pattern text

/-- What the database server decides: the order of texts under its collation, and the lower case
in which `ILIKE` compares. -/
structure Server (κ : Type) where
  collate : String → κ
  lower : String → String

/-- The filters and the order of `list_user_directory`. -/
structure DirectoryQuery where
  search : Option String := none
  status : Option String := none
  activationState : Option String := none
  role : Option String := none
  teamId : Option Uuid := none
  sort : String := "name"

structure DirectoryRow where
  user : User
  roles : List String
  teams : List String
  activationState : ActivationState

structure DirectoryPage where
  rows : List DirectoryRow
  totalCount : ℕ
  seesEveryone : Bool

/-- `DIRECTORY_PAGE_SIZE_MAX`. -/
def directoryPageSizeMax : ℕ := 100

section Listing

variable {κ : Type} [LinearOrder κ] (srv : Server κ) (c : Call) (db : Db) (now : Time)

/-- `FROM users`, joined with the memberships in the teams of the scope unless it is everyone: a user
comes once for each membership. -/
def scopeRows (scope : Bool × List Uuid) : List User :=
  if scope.1 then scan c db.users
  else (scan c db.users).flatMap fun u =>
    ((scan c db.memberships).filter fun m => m.userId = u.id && scope.2.contains m.teamId &&
      m.membershipStatus = .active).map fun _ => u

/-- The pattern of a search; a blank text does not search. -/
def searchPattern (search : Option String) : Option String :=
  search.bind fun text =>
    if Imports.strip text = "" then none else some ("%" ++ Imports.strip text ++ "%")

/-- The search text occurs in one of the names of the user. -/
def searchMatches (search : Option String) (u : User) : Bool :=
  match searchPattern search with
  | none => true
  | some pattern => [u.displayName, u.email, u.workforceId].any fun name =>
      like (srv.lower pattern).toList (srv.lower name).toList

def statusMatches (status : Option String) (u : User) : Bool :=
  if status = some "active" then u.active else if status = some "inactive" then !u.active else true

/-- A role that is none of `ROLE_CAPABILITIES` does not filter. -/
def roleMatches (role : Option String) (u : User) : Bool :=
  match role.bind fun text =>
    [Role.superAdmin, .manager, .teamLeader, .teamCaptain, .agent, .viewer].find? fun r => roleName r = text with
  | none => true
  | some r => db.roleAssignments.any fun ra => ra.userId = u.id && ra.roleCode = r && ra.status = .active &&
    effectiveAt ra.effectiveFrom ra.effectiveTo now

def teamMatches (team : Option Uuid) (u : User) : Bool :=
  team.all fun id => db.memberships.any fun m => m.userId = u.id && m.teamId = id && m.membershipStatus = .active

/-- A state that is none of `ACTIVATION_STATE_LABELS` does not filter. -/
def stateMatches (state : Option String) (u : User) : Bool :=
  match state.bind fun text =>
    [ActivationState.disabled, .activationNotIssued, .activationCodeActive, .activationCodeExpired,
      .mfaSetupRequired, .ready].find? fun s => s.name = text with
  | none => true
  | some s => activationState db now u = s

/-- The `WHERE` of the filters. -/
def satisfies (q : DirectoryQuery) (u : User) : Bool :=
  searchMatches srv q.search u && statusMatches q.status u && roleMatches db now q.role u &&
    teamMatches db q.teamId u && stateMatches db now q.activationState u

/-- `(created_at DESC, id DESC)` or `(display_name, id)`. -/
def directoryBefore (sort : String) (a b : User) : Prop :=
  if sort = "recent" then toLex (-a.createdAt, -(a.id : ℤ)) ≤ toLex (-b.createdAt, -(b.id : ℤ))
  else toLex (srv.collate a.displayName, a.id) ≤ toLex (srv.collate b.displayName, b.id)

instance (sort : String) : DecidableRel (directoryBefore srv sort) := fun a b => by
  unfold directoryBefore; infer_instance

/-- `_roles_for_users`, for one user of the page. -/
def rolesForUser (user : Uuid) : List String :=
  (scan c (effectiveRoleAssignments db now user)).map fun ra =>
    match ra.scopeType, ra.scopeId with
    | .team, some id => roleName ra.roleCode ++ " (" ++
        ((Table.find db.teams id).map Team.name).getD "unknown team" ++ ")"
    | .organization, some _ => roleName ra.roleCode ++ " (org-scoped)"
    | _, _ => roleName ra.roleCode

/-- `_teams_for_users`, for one user of the page. -/
def teamsForUser (user : Uuid) : List String :=
  orderBy (fun a b => srv.collate a ≤ srv.collate b)
    ((scan c (db.memberships.filter fun m => m.userId = user && m.membershipStatus = .active)).filterMap
      fun m => (Table.find db.teams m.teamId).map Team.name)

/-- `list_user_directory`. -/
def listUserDirectory (actor : Uuid) (q : DirectoryQuery) (page pageSize : ℤ) : Except Err DirectoryPage :=
  let scope := directoryScope db now actor
  if !scope.1 && scope.2.isEmpty then .ok { rows := [], totalCount := 0, seesEveryone := false }
  else if (searchPattern q.search).any hasNul then .error nulRefused
  else
    let page := max page 1
    let pageSize := min (max pageSize 1) directoryPageSizeMax
    let stmt := (scopeRows c db scope).filter (satisfies srv db now q)
    let ids := stmt.map User.id
    let totalCount := (if scope.1 then ids else ids.dedup).length
    let users := stmt.map fun u => (u, activationState db now u)
    let ordered := orderBy (fun a b => directoryBefore srv q.sort a.1 b.1) (if scope.1 then users else users.dedup)
    let pageRows := (ordered.drop ((page - 1) * pageSize).toNat).take pageSize.toNat
    let rows := pageRows.map fun row =>
      { user := row.1, roles := rolesForUser c db now row.1.id, teams := teamsForUser srv c db row.1.id
        activationState := row.2 }
    .ok { rows := rows, totalCount := totalCount, seesEveryone := scope.1 }

end Listing

structure DirectorySummary where
  total : ℕ := 0
  active : ℕ := 0
  inactive : ℕ := 0
  awaitingActivation : ℕ := 0
  mfaSetupRequired : ℕ := 0
  neverLoggedIn : ℕ := 0

/-- `_AWAITING_ACTIVATION_STATES`. -/
def awaitingActivationStates : List ActivationState :=
  [.activationNotIssued, .activationCodeActive, .activationCodeExpired]

/-- A row of the query that `directory_summary` aggregates. -/
structure SummaryRow where
  id : Uuid
  active : Bool
  lastLoginAt : Option Time
  state : ActivationState
deriving DecidableEq

def summaryRow (db : Db) (now : Time) (u : User) : SummaryRow :=
  ⟨u.id, u.active, u.lastLoginAt, activationState db now u⟩

/-- `directory_summary`. -/
def directorySummary (c : Call) (db : Db) (now : Time) (actor : Uuid) : DirectorySummary :=
  let scope := directoryScope db now actor
  if !scope.1 && scope.2.isEmpty then {}
  else
    let sub := ((scopeRows c db scope).map (summaryRow db now)).dedup
    { total := sub.length
      active := sub.countP fun r => r.active
      inactive := sub.countP fun r => !r.active
      awaitingActivation := sub.countP fun r => awaitingActivationStates.contains r.state
      mfaSetupRequired := sub.countP fun r => r.state = .mfaSetupRequired
      neverLoggedIn := sub.countP fun r => r.lastLoginAt.isNone }

end OmniDB.Directory
