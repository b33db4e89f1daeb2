import OmniDB.Spec.Workforce

/-! Sessions, logins and activation codes: `app/auth/sessions.py`, `app/auth/service.py` and
the requests of `app/auth/router.py`, `app/api/admin.py` and `app/web/admin_users.py`. -/

namespace OmniDB.Auth

open Tx
open Tx.Prog (view acquireShared raiseIf expect)
open Authz (setSession)
open Workforce (flushUser setActivationToken used issueActivationToken workforceEvent notAuthorized)

def mfaEnrollmentRequired : String := "enrollment_required"
def mfaSatisfied : String := "satisfied"

/-! ## Sessions -/

/-- `create_session`, started at `now`. The foreign key `user_id` takes the key share lock of
the user. -/
def createSession (c : Call) (now : Time) (user : Uuid) (source : Option String) (mfaState : String)
    (recentlyReauthenticated : Bool) : Txn (UserSession × String) := do
  let row : UserSession := {
    id := c.uuid4 0
    userId := user
    tokenHash := c.hashToken (c.token 0)
    lastSeenAt := some now
    idleExpiresAt := now + minutes c.settings.sessionIdleMinutes
    absoluteExpiresAt := now + hours c.settings.sessionAbsoluteHours
    sourceSummary := source
    mfaState := mfaState
    reauthenticatedAt := if recentlyReauthenticated then some now else none }
  let db ← view "sessions by token hash"
  raiseIf (db.sessions.any fun s => s.tokenHash = row.tokenHash) (.integrityError "sessions_token_hash_key")
  insertRow "sessions" .session Db.sessions (fun s db => { db with sessions := db.sessions ++ [s] }) row
  acquireShared (.user user)
  return (row, c.token 0)

/-- The row is seen at `now`: its idle window slides, never past `absolute`. -/
def slid (c : Call) (now absolute : Time) (s : UserSession) : UserSession :=
  { s with
    lastSeenAt := some now
    idleExpiresAt := min (now + minutes c.settings.sessionIdleMinutes) absolute }

/-- `load_session`. -/
def loadSession (c : Call) (token : Option String) : Txn (Option UserSession) := do
  match token.filter (· ≠ "") with
  | none => return none
  | some token =>
    let db ← view "session by token"
    match db.sessions.find? fun s => s.tokenHash = c.hashToken token with
    | none => return none
    | some row =>
      let now := c.utcnow 0
      if row.revokedAt.isSome ∨ row.idleExpiresAt ≤ now ∨ row.absoluteExpiresAt ≤ now then return none
      else
        setSession row.id (slid c now row.absoluteExpiresAt)
        return some (slid c now row.absoluteExpiresAt row)

/-- `revoke_session`. -/
def revokeSession (now : Time) (row : UserSession) : Txn Unit :=
  if row.revokedAt.isNone then setSession row.id (Authz.revoked now) else pure ()

/-! ## Login -/

/-- `normalize_email`; `lower` is `str.lower`. -/
def normalizeEmail (lower : String → String) (email : String) : String := lower (Imports.strip email)

/-- The second factor of an enrolled user. -/
def secondFactor (c : Call) (user : User) (totpCode : Option String) : Except String Unit :=
  match totpCode.filter (· ≠ "") with
  | none => .error "second factor required"
  | some code =>
    let secret := (user.totpSecretCiphertext.filter (· ≠ "")).map c.decrypt
    if (secret.filter (· ≠ "")).any fun s => c.verifyCode s code then .ok ()
    else .error "invalid credentials"

/-- `authenticate` on the state its select sees; the error is the text of the `AuthError`. -/
def authenticate (c : Call) (lower : String → String) (db : Db) (email password : String)
    (totpCode : Option String) : Except String User :=
  match db.users.find? fun u => u.email = normalizeEmail lower email with
  | none => .error "invalid credentials"
  | some user =>
    if !user.active || !user.passwordHash.any (c.verifyPassword password) then .error "invalid credentials"
    else if user.totpEnrolled then (secondFactor c user totpCode).map fun _ => user
    else .ok user

structure LoginRequest where
  email : String
  password : String
  totpCode : Option String := none
  source : String := ""

/-- What a request of a person who is not signed in yet answers; also a denied one commits. -/
inductive Answer (α : Type) where
  | accepted (a : α)
  | denied (status : ℕ) (detail : String)

def loginEvent (action : String) (actor : Option Uuid) (reason : Option String) (session : Option Uuid) : AuditEvent where
  action := action
  actorUserId := actor
  targetType := session.map fun _ => "session"
  targetId := session
  reasonCode := reason

/-- `POST /auth/login`. -/
def login (c : Call) (lower : String → String) (r : LoginRequest) : Txn (Answer (UserSession × String)) := do
  if !c.loginRateAllows then
    recordAudit (loginEvent "auth.login" none (some "rate_limited") none)
    return .denied 429 "too many attempts"
  else
    let db ← view "user by email"
    match authenticate c lower db r.email r.password r.totpCode with
    | .error reason =>
      recordAudit (loginEvent "auth.login" none (some reason) none)
      return .denied 401 (if reason = "second factor required" then "totp_required" else "invalid credentials")
    | .ok user =>
      let created ← createSession c (c.utcnow 0) user.id (some r.source)
        (if user.totpEnrolled then mfaSatisfied else mfaEnrollmentRequired) user.totpEnrolled
      flushUser user fun u => { u with lastLoginAt := some (c.utcnow 1) }
      recordAudit (loginEvent "auth.login" (some user.id) none (some created.1.id))
      return .accepted created

/-! ## Credentials -/

/-- `_lock_user`: the row is locked, and the object is the one the request has loaded. -/
def lockUser (target : User) : Txn User := do
  let row ← expect (← selectForUpdate "lock user" .user Db.users (fun _ => true) target.id)
    (.valueError "user does not exist")
  return Imports.identityMap (some target) row

def accountDisabled : Err := .accountNotEligible "this account is disabled"

def withoutPassword (u : User) : User := { u with passwordHash := none }

def withoutTotp (u : User) : User := { u with totpSecretCiphertext := none, totpEnrolled := false }

/-- `reset_password`; the token and its expiry. -/
def resetPassword (c : Call) (target : User) (actor : Uuid) : Txn (String × Time) := do
  let locked ← lockUser target
  raiseIf (!locked.active) accountDisabled
  flushUser locked withoutPassword
  Authz.revokeAllForUser (c.utcnow 1) locked.id
  let token ← issueActivationToken c locked.id actor
  recordAudit (workforceEvent "admin.reset_password" actor "user" locked.id none [])
  return (token, c.utcnow 2 + hours 24)

/-- `reset_mfa`. -/
def resetMfa (c : Call) (target : User) (actor : Uuid) : Txn Unit := do
  let locked ← lockUser target
  raiseIf (!locked.active) accountDisabled
  flushUser locked withoutTotp
  Authz.revokeAllForUser (c.utcnow 0) locked.id
  recordAudit (workforceEvent "admin.reset_2fa" actor "user" locked.id none [])

/-- `issue_or_replace_activation_code`. -/
def issueOrReplaceActivationCode (c : Call) (target : User) (actor : Uuid) : Txn (String × Time) := do
  let locked ← lockUser target
  raiseIf (!locked.active) accountDisabled
  raiseIf locked.passwordHash.isSome (.accountNotEligible "this account has already been activated")
  let token ← issueActivationToken c locked.id actor
  recordAudit (workforceEvent "admin.issue_activation_code" actor "user" locked.id none [])
  return (token, c.utcnow 2 + hours 24)

/-- The token has this hash, is not used up and has not expired. -/
def usable (hash : String) (now : Time) (t : ActivationToken) : Bool :=
  t.tokenHash = hash && t.usedAt.isNone && now < t.expiresAt

/-- `consume_activation_token`: the user of the token. -/
def consumeActivationToken (c : Call) (token : String) : Txn (Option Uuid) := do
  let now := c.utcnow 0
  let hash := c.hashToken token
  let db ← view "candidate token"
  match db.activationTokens.find? (usable hash now) with
  | none => return none
  | some candidate =>
    match ← selectForUpdate "activating user" .user Db.users (fun _ => true) candidate.userId with
    | none => return none
    | some user =>
      let rows ← lockRows "activation token" false .activationToken Db.activationTokens
        (fun _ t => usable hash now t && t.userId = user.id) (scan c)
      match rows.head? with
      | none => return none
      | some row =>
        setActivationToken row.id (used now)
        return some row.userId

/-- `activate_user_password`. -/
def activateUserPassword (c : Call) (token newPassword : String) : Txn (Option User) := do
  match ← consumeActivationToken c token with
  | none => return none
  | some id =>
    match ← getRow "user" Db.users id with
    | none => return none
    | some user =>
      let hashed : User := { user with passwordHash := some (c.hashPassword newPassword) }
      flushUser user fun _ => hashed
      return some hashed

/-- `COMMON_PASSWORDS`. -/
def commonPasswords : List String := [
  "password", "password1", "password123", "passw0rd", "p@ssw0rd", "p@ssword",
  "123456", "1234567", "12345678", "123456789", "1234567890", "12345",
  "qwerty", "qwerty123", "qwertyuiop", "letmein", "letmein123",
  "welcome", "welcome1", "welcome123",
  "admin", "administrator", "changeme", "changeme123",
  "iloveyou", "monkey", "dragon", "football", "baseball", "basketball",
  "master", "superman", "batman", "trustno1", "shadow",
  "abc123", "abc12345", "123123", "111111", "000000", "666666",
  "sunshine", "princess", "flower", "hunter2", "starwars", "solo",
  "correcthorsebatterystaple"]

/-- `validate_password_strength` without a context, as the activation calls it. -/
def validatePasswordStrength (lower : String → String) (password : String) : Except Err Unit :=
  if password.length < 12 then .error (.http 400 "password must be at least 12 characters")
  else if lower (Imports.strip password) ∈ commonPasswords then
    .error (.http 400 "that password is too common; choose something less guessable")
  else .ok ()

/-! ## Requests -/

namespace Request

/-- The target of a credential request: loaded after the authority was checked, and not the
administrator. -/
def loadTarget (now : Time) (actor id : Uuid) : Txn User := do
  let db ← view "has_capability"
  raiseIf (!Authz.hasCapability db now actor .resetUserAuth none none) notAuthorized
  let target ← expect (← getRow "user" Db.users id) (.http 404 "not found")
  raiseIf (actor = target.id) (.http 403 "self-service credential reset is not allowed here")
  return target

/-- `POST /admin/users/{user_id}/reset-password`. -/
def resetPassword (c : Call) (actor id : Uuid) : Txn Unit := do
  let target ← loadTarget (c.utcnow 3) actor id
  let _ ← Auth.resetPassword c target actor

/-- `POST /admin/users/{user_id}/reset-2fa`. -/
def resetMfa (c : Call) (actor id : Uuid) : Txn Unit := do
  let target ← loadTarget (c.utcnow 3) actor id
  Auth.resetMfa c target actor

/-- `POST /admin/users/{user_id}/activation-code`. -/
def issueActivationCode (c : Call) (actor id : Uuid) : Txn Unit := do
  let target ← loadTarget (c.utcnow 3) actor id
  let _ ← issueOrReplaceActivationCode c target actor

/-- `POST /auth/activate`. -/
def activate (c : Call) (lower : String → String) (token newPassword : String) : Txn (Answer Uuid) := do
  if !c.activationRateAllows then
    recordAudit (loginEvent "auth.activate" none (some "rate_limited") none)
    return .denied 429 "too many attempts"
  else
    Prog.ofExcept (validatePasswordStrength lower newPassword)
    match ← activateUserPassword c token newPassword with
    | none =>
      recordAudit (loginEvent "auth.activate" none (some "invalid_or_expired_token") none)
      return .denied 400 "invalid or expired token"
    | some user =>
      Authz.revokeAllForUser (c.utcnow 1) user.id
      recordAudit (loginEvent "auth.activate" (some user.id) none none)
      return .accepted user.id

end Request

end OmniDB.Auth
