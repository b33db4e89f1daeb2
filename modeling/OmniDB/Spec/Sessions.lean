import OmniDB.Spec.Auth
import OmniDB.Spec.Setup
import OmniDB.Spec.System

/-! Requests of a person who is signed in: `app/auth/dependencies.py`, `app/auth/router.py` and
`app/web/auth_pages.py`. A request loads its session in a transaction of its own and goes on with
the row as it was loaded; other requests may commit in between. -/

namespace OmniDB.Sessions

open Tx
open Tx.Prog (view raise raiseIf expect)
open Authz (setSession)
open Auth

/-- The environment of a request on a session. -/
structure Visit extends Call where
  stepUpMinutes : ℤ := 10
  /-- Answers of the Redis limiter under the keys `reauth:` and `totp-enrollment:`. -/
  reauthRateAllows : Bool := true
  totpRateAllows : Bool := true
  /-- `totp.new_secret`. -/
  newSecret : String := "secret"
  /-- `str.isdigit` on one character. -/
  isdigit : Char → Bool := Char.isDigit

/-! ## Dependencies -/

/-- `get_authenticated_user`. -/
def getAuthenticatedUser (session : UserSession) : Txn User := do
  let user ← expect (← getRow "user" Db.users session.userId) (.http 401 "account unavailable")
  raiseIf (!user.active) (.http 401 "account unavailable")
  return user

/-- `get_current_user`. -/
def getCurrentUser (session : UserSession) : Txn User := do
  let user ← getAuthenticatedUser session
  raiseIf (!user.totpEnrolled ∨ session.mfaState ≠ mfaSatisfied) (.http 403 "mfa_enrollment_required")
  return user

/-- `is_recently_reauthenticated`. -/
def isRecentlyReauthenticated (v : Visit) (session : UserSession) : Bool :=
  session.reauthenticatedAt.any fun t => v.utcnow 0 - minutes v.stepUpMinutes ≤ t

/-- `require_recent_reauthentication`. -/
def requireRecentReauthentication (v : Visit) (session : UserSession) : Txn Unit :=
  raiseIf (!isRecentlyReauthenticated v session) (.http 403 "reauthentication_required")

/-- What a page for visitors finds: no session, one whose account is gone, or one that goes on. -/
inductive Arrival where
  | unknown
  | dropped (row : UserSession)
  | known (row : UserSession) (target : String)

/-- `_redirect_for_existing_session`. -/
def redirectForExistingSession (c : Call) (token : Option String) : Txn Arrival := do
  match ← loadSession c token with
  | none => return .unknown
  | some row =>
    let user := (← getRow "user" Db.users row.userId).filter User.active
    match user with
    | none =>
      revokeSession (c.utcnow 1) row
      return .dropped row
    | some user =>
      return .known row (if user.totpEnrolled ∧ row.mfaState = mfaSatisfied then "/dashboard" else "/security/mfa")

/-! ## Sessions of the signed-in user -/

/-- `POST /auth/logout`. -/
def logout (c : Call) (session : UserSession) : Txn Unit := do
  Auth.revokeSession (c.utcnow 0) session
  recordAudit (loginEvent "auth.logout" (some session.userId) none (some session.id))

/-- `GET /auth/sessions`. -/
def listSessions (session : UserSession) : Txn (List UserSession) := do
  let user ← getCurrentUser session
  let db ← view "sessions of user"
  return db.sessions.filter fun s => s.userId = user.id && s.revokedAt.isNone

/-- `db.get(SessionModel, id)`: the session of the request is there already. -/
def getSession (session : UserSession) (id : Uuid) : Txn (Option UserSession) :=
  if id = session.id then pure (some session) else getRow "session" Db.sessions id

/-- `DELETE /auth/sessions/{session_id}`. -/
def revokeSession (c : Call) (session : UserSession) (id : Uuid) : Txn Unit := do
  let user ← getCurrentUser session
  let row ← expect ((← getSession session id).filter fun s => s.userId = user.id) (.http 404 "not found")
  Auth.revokeSession (c.utcnow 0) row
  recordAudit (loginEvent "auth.session.revoke" (some user.id) none (some row.id))

/-- The columns that a request sets on its own session. -/
def restated (session : UserSession) (mfaState : String) (reauthenticatedAt : Option Time) (row : UserSession) :
    UserSession :=
  { row with
    mfaState := Workforce.changed session.mfaState mfaState row.mfaState
    reauthenticatedAt := Workforce.changed session.reauthenticatedAt reauthenticatedAt row.reauthenticatedAt }

/-- `POST /auth/reauthenticate`. -/
def reauthenticate (v : Visit) (lower : String → String) (session : UserSession) (password : String)
    (totpCode : Option String) : Txn (Answer Unit) := do
  let user ← getAuthenticatedUser session
  if !v.reauthRateAllows then
    recordAudit (loginEvent "auth.reauthenticate" (some user.id) (some "rate_limited") none)
    return .denied 429 "too many attempts"
  else
    let db ← view "user by email"
    match authenticate v.toCall lower db user.email password totpCode with
    | .error _ =>
      recordAudit (loginEvent "auth.reauthenticate" (some user.id) none none)
      return .denied 401 "invalid credentials"
    | .ok _ =>
      setSession session.id (restated session (if user.totpEnrolled then mfaSatisfied else mfaEnrollmentRequired)
        (some (v.utcnow 0)))
      recordAudit (loginEvent "auth.reauthenticate" (some user.id) none none)
      return .accepted ()

/-! ## The second factor -/

/-- The user of an enrollment, locked and as the session has loaded it; the error is the text of the
`TotpEnrollmentError`. -/
def enrolling (user : User) : Txn (Except String User) := do
  let row ← selectForUpdate "lock user" .user Db.users (fun _ => true) user.id
  match row.map (Imports.identityMap (some user)) with
  | none => return .error "account unavailable"
  | some locked =>
    if !locked.active then return .error "account unavailable"
    else if locked.totpEnrolled then return .error "already enrolled"
    else return .ok locked

def withSecret (v : Visit) (u : User) : User := { u with totpSecretCiphertext := some (v.encrypt v.newSecret) }

def enrolled (u : User) : User := { u with totpEnrolled := true }

/-- `begin_totp_enrollment`: the secret. -/
def beginTotpEnrollment (v : Visit) (user : User) : Txn (Except String String) := do
  match ← enrolling user with
  | .error reason => return .error reason
  | .ok locked =>
    Workforce.flushUser locked (withSecret v)
    return .ok v.newSecret

/-- `code.strip().replace(" ", "")`. -/
def normalizedCode (code : String) : String := String.ofList ((Imports.strip code).toList.filter (· ≠ ' '))

/-- The six digits are what the pending secret shows now. -/
def acceptsCode (v : Visit) (ciphertext code : String) : Bool :=
  (normalizedCode code).length = 6 && (normalizedCode code).toList.all v.isdigit &&
    v.verifyCode (v.decrypt ciphertext) (normalizedCode code)

/-- `complete_totp_enrollment`. -/
def completeTotpEnrollment (v : Visit) (user : User) (code : String) : Txn (Except String User) := do
  match ← enrolling user with
  | .error reason => return .error reason
  | .ok locked =>
    match locked.totpSecretCiphertext.filter (· ≠ "") with
    | none => return .error "no enrollment in progress"
    | some ciphertext =>
      if acceptsCode v ciphertext code then
        Workforce.flushUser locked enrolled
        return .ok (enrolled locked)
      else return .error "invalid code"

def enrollmentStatus (reason : String) : ℕ := if reason = "already enrolled" then 409 else 400

/-- `POST /auth/totp/enroll`. -/
def totpEnroll (v : Visit) (session : UserSession) : Txn String := do
  requireRecentReauthentication v session
  let user ← getAuthenticatedUser session
  match ← beginTotpEnrollment v user with
  | .error reason => raise (.http (enrollmentStatus reason) reason)
  | .ok secret =>
    setSession session.id (restated session mfaEnrollmentRequired session.reauthenticatedAt)
    recordAudit (loginEvent "auth.totp.enroll_start" (some user.id) none none)
    return secret

/-- `POST /auth/totp/verify`. -/
def totpVerify (v : Visit) (session : UserSession) (code : String) : Txn (Answer (UserSession × String)) := do
  requireRecentReauthentication v session
  let user ← getAuthenticatedUser session
  if !v.totpRateAllows then
    recordAudit (loginEvent "auth.totp.verify" (some user.id) (some "rate_limited") none)
    return .denied 429 "too many attempts"
  else
    match ← completeTotpEnrollment v user code with
    | .error reason =>
      let text := String.ofList (reason.toList.map fun ch => if ch = ' ' then '_' else ch)
      recordAudit (loginEvent "auth.totp.verify" (some user.id) (some text) none)
      return .denied (enrollmentStatus reason) reason
    | .ok locked =>
      Authz.revokeAllForUser (v.utcnow 1) locked.id
      let created ← createSession v.toCall (v.utcnow 2) locked.id session.sourceSummary mfaSatisfied true
      recordAudit (loginEvent "auth.totp.verify" (some locked.id) none (some created.1.id))
      return .accepted created

/-! ## All requests -/

inductive Op where
  | load (c : Call) (token : Option String)
  | arrive (c : Call) (token : Option String)
  | login (c : Call) (lower : String → String) (r : LoginRequest)
  | logout (c : Call) (session : UserSession)
  | listSessions (session : UserSession)
  | revokeSession (c : Call) (session : UserSession) (id : Uuid)
  | reauthenticate (v : Visit) (lower : String → String) (session : UserSession) (password : String)
      (totpCode : Option String)
  | totpEnroll (v : Visit) (session : UserSession)
  | totpVerify (v : Visit) (session : UserSession) (code : String)
  | activate (c : Call) (lower : String → String) (token newPassword : String)
  | issueActivationCode (c : Call) (actor id : Uuid)
  | resetPassword (c : Call) (actor id : Uuid)
  | resetMfa (c : Call) (actor id : Uuid)
  | setup (op : Setup.Op)
  | app (op : App.Op)

/-- The session that the request has loaded. -/
def Op.session : Op → Option UserSession
  | .logout _ s | .listSessions s | .revokeSession _ s _ | .reauthenticate _ _ s _ _ | .totpEnroll _ s
  | .totpVerify _ s _ => some s
  | _ => none

inductive Result where
  | loaded (row : Option UserSession)
  | arrived (a : Arrival)
  | opened (created : UserSession × String)
  | activated (user : Uuid)
  | denied (status : ℕ) (detail : String)
  | done

def signedIn : Answer (UserSession × String) → Result
  | .accepted created => .opened created
  | .denied status detail => .denied status detail

def activated : Answer Uuid → Result
  | .accepted user => .activated user
  | .denied status detail => .denied status detail

def confirmed : Answer Unit → Result
  | .accepted _ => .done
  | .denied status detail => .denied status detail

def silent {α : Type} (p : Txn α) : Txn Result := (fun _ => .done) <$> p

def body : Op → Txn Result
  | .load c token => Result.loaded <$> loadSession c token
  | .arrive c token => Result.arrived <$> redirectForExistingSession c token
  | .login c lower r => signedIn <$> Auth.login c lower r
  | .logout c session => silent (logout c session)
  | .listSessions session => silent (listSessions session)
  | .revokeSession c session id => silent (revokeSession c session id)
  | .reauthenticate v lower session password totpCode =>
    confirmed <$> reauthenticate v lower session password totpCode
  | .totpEnroll v session => silent (totpEnroll v session)
  | .totpVerify v session code => signedIn <$> totpVerify v session code
  | .activate c lower token newPassword => activated <$> Auth.Request.activate c lower token newPassword
  | .issueActivationCode c actor id => silent (Auth.Request.issueActivationCode c actor id)
  | .resetPassword c actor id => silent (Auth.Request.resetPassword c actor id)
  | .resetMfa c actor id => silent (Auth.Request.resetMfa c actor id)
  | .setup op => silent (Setup.body op)
  | .app op => silent (App.body op)

end OmniDB.Sessions
