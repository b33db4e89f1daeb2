import Mathlib.Data.List.Sort
import Mathlib.Data.Prod.Lex
import OmniDB.Tx.Program
import OmniDB.Spec.Rows

/-! The database, the lock keys, the errors, and what one call takes from its
environment: the clock, fresh identifiers, settings, encryption and the order in
which the server happens to return rows that an `ORDER BY` leaves tied. -/

namespace OmniDB

open Tx (Prog)

structure Db where
  workItems : List WorkItem := []
  attempts : List CallAttempt := []
  contacts : List Contact := []
  campaignContacts : List CampaignContact := []
  suppressions : List SuppressionEntry := []
  campaigns : List Campaign := []
  teamAssignments : List CampaignTeamAssignment := []
  userAssignments : List CampaignUserAssignment := []
  dispositions : List CampaignDispositionDefinition := []
  importJobs : List ImportJob := []
  importRows : List ImportRow := []
  importDecisions : List ImportDecision := []
  users : List User := []
  organizations : List Organization := []
  teams : List Team := []
  memberships : List TeamMembership := []
  roleAssignments : List RoleAssignment := []
  reportingAssignments : List ReportingAssignment := []
  delegations : List Delegation := []
  sessions : List UserSession := []
  activationTokens : List ActivationToken := []
  workforceJobs : List WorkforceImportJob := []
  workforceRows : List WorkforceImportRow := []
  workforceDecisions : List WorkforceImportDecision := []
  flags : List FeatureFlag := []
  audit : List AuditEvent := []
  notifications : List Notification := []

/-- What a transaction can lock: an advisory key, or a row of a table. -/
inductive LockKey where
  | phone (fingerprint : Fingerprint)
  | idempotency (space : String) (actor : Uuid) (key : String)
  | workItem (id : Uuid)
  | contact (id : Uuid)
  | campaignContact (id : Uuid)
  | suppression (id : Uuid)
  | attempt (id : Uuid)
  | campaign (id : Uuid)
  | teamAssignment (id : Uuid)
  | userAssignment (id : Uuid)
  | importJob (id : Uuid)
  | user (id : Uuid)
  | membership (id : Uuid)
  | roleAssignment (id : Uuid)
  | reportingAssignment (id : Uuid)
  | session (id : Uuid)
  | activationToken (id : Uuid)
  | workforceJob (id : Uuid)
  | workforceDecision (id : Uuid)
deriving DecidableEq

/-- The exception classes of the services, with their messages. -/
inductive Err where
  | workItemError (msg : String)
  | leaseConflict (msg : String)
  | dispositionMismatch (msg : String)
  | missingRequiredField (msg : String)
  | idempotencyConflict (msg : String)
  | reviewStateError (msg : String)
  | leaseRateLimited (msg : String)
  | featureDisabled (flagKey : String)
  | campaignStateError (msg : String)
  | campaignAssignmentError (msg : String)
  | dispositionPolicyError (msg : String)
  | campaignNotDeletable (msg : String)
  | importNotReady (msg : String)
  | staleDecisionVersion (msg : String)
  | missingProvenance (msg : String)
  | selfApproval (msg : String)
  | insufficientApprovalAuthority (msg : String)
  | unresolvedBlockingErrors (msg : String)
  | warningsNotAcknowledged (msg : String)
  | duplicateIdentity (msg : String)
  | unknownRole (msg : String)
  | authError (msg : String)
  | accountNotEligible (msg : String)
  | selfSupervision (msg : String)
  | valueError (msg : String)
  | keyError (key : String)
  | noResultFound
  | multipleResultsFound
  | integrityError (constraint : String)
  | http (status : ℕ) (detail : String)
  | dataError (msg : String)
  | uncaught (kind msg : String)
  | fuelExhausted
deriving DecidableEq

structure Settings where
  leaseDurationMinutes : ℤ := 15
  maxSkipsBeforeReview : ℕ := 3
  phoneFingerprintKeyVersion : ℤ := 1
  importExpiryHours : ℤ := 24
  uploadMaxRows : ℕ := 100000
  uploadMaxColumns : ℕ := 50
  uploadMaxCellLength : ℕ := 500
  sessionIdleMinutes : ℤ := 30
  sessionAbsoluteHours : ℤ := 8

/-- The environment of one call. `utcnow n` is its `n`-th reading of the clock,
`uuid4 n` the `n`-th identifier it draws. -/
structure Call where
  utcnow : ℕ → Time
  uuid4 : ℕ → Uuid
  rank : Uuid → ℕ := id
  settings : Settings := {}
  /-- Answer of the Redis limiter `check_and_increment_work_lease`. -/
  leaseRateAllows : Bool := true
  /-- How many more rounds than there are work items the leasing loops may take. -/
  fuel : ℕ := 0
  encrypt : String → String := id
  decrypt : String → String := id
  /-- `generate_token` and `hash_token`. -/
  token : ℕ → String := toString
  hashToken : String → String := id
  /-- Answer of the Redis limiter of the login form. -/
  loginRateAllows : Bool := true
  /-- Answer of the Redis limiter of the activation form. -/
  activationRateAllows : Bool := true
  /-- `hash_password` with the salt of this call, and `verify_password`. -/
  hashPassword : String → String := id
  verifyPassword : String → String → Bool := fun password hash => password = hash
  /-- `totp.verify_code`. -/
  verifyCode : String → String → Bool := fun _ _ => true

/-- The environment of the `n`-th row of a loop: eight readings and identifiers of its own. -/
def Call.block (c : Call) (n : ℕ) : Call :=
  { c with
    utcnow := fun k => c.utcnow (8 * n + k)
    uuid4 := fun k => c.uuid4 (8 * n + k)
    token := fun k => c.token (8 * n + k) }

/-- `str.isspace` on one character, as `str.strip` uses it. -/
def isSpace (ch : Char) : Bool :=
  let n := ch.toNat
  (9 ≤ n && n ≤ 13) || (28 ≤ n && n ≤ 32) || n = 0x85 || n = 0xA0 || n = 0x1680 ||
    (0x2000 ≤ n && n ≤ 0x200A) || n = 0x2028 || n = 0x2029 || n = 0x202F || n = 0x205F || n = 0x3000

/-- `not reason or not reason.strip()`. -/
def blank (reason : String) : Bool := reason.toList.all isSpace

/-- `text[:n]`. -/
def truncate (text : String) (n : ℕ) : String := String.ofList (text.toList.take n)

abbrev Txn (α : Type) := Prog Db LockKey Err α

/-- `utcnow() <= t`-style comparison with a nullable column: `NULL` is never due. -/
def dueBy (t : Option Time) (now : Time) : Bool := t.any fun d => d ≤ now

/-- `effective_from <= now AND (effective_to IS NULL OR effective_to > now)`. -/
def effectiveAt (start : Time) (stop : Option Time) (now : Time) : Bool :=
  start ≤ now && stop.all fun t => now < t

namespace Db

/-- A `SuppressionEntry` for the phone has status `active`. -/
def suppressed (db : Db) (f : Fingerprint) : Bool :=
  db.suppressions.any fun s => s.phoneFingerprint = f && s.status = .active

def campaignContact (db : Db) (w : WorkItem) : Option CampaignContact :=
  Tx.Table.find db.campaignContacts w.campaignContactId

def contact (db : Db) (cc : CampaignContact) : Option Contact :=
  Tx.Table.find db.contacts cc.contactId

/-- The contact behind a work item. -/
def contactOf (db : Db) (w : WorkItem) : Option Contact :=
  (db.campaignContact w).bind db.contact

/-- The phone behind a work item. -/
def phoneOf (db : Db) (w : WorkItem) : Option Fingerprint :=
  (db.contactOf w).map Contact.phoneFingerprint

def campaignOf (db : Db) (w : WorkItem) : Option Uuid :=
  (db.campaignContact w).map CampaignContact.campaignId

/-- The campaign of the item is active. -/
def ActiveCampaign (db : Db) (w : WorkItem) : Prop :=
  ∃ k, db.campaignOf w = some k ∧ (Tx.Table.find db.campaigns k).map Campaign.status = some .active

/-- Column update of one work item. -/
def modifyWorkItem (id : Uuid) (f : WorkItem → WorkItem) (db : Db) : Db :=
  { db with workItems := Tx.Table.modify db.workItems id f }

def modifyCampaignContact (id : Uuid) (f : CampaignContact → CampaignContact) (db : Db) : Db :=
  { db with campaignContacts := Tx.Table.modify db.campaignContacts id f }

def modifyAttempt (id : Uuid) (f : CallAttempt → CallAttempt) (db : Db) : Db :=
  { db with attempts := Tx.Table.modify db.attempts id f }

def addWorkItem (w : WorkItem) (db : Db) : Db := { db with workItems := db.workItems ++ [w] }

def addContact (k : Contact) (db : Db) : Db := { db with contacts := db.contacts ++ [k] }

def addCampaignContact (cc : CampaignContact) (db : Db) : Db :=
  { db with campaignContacts := db.campaignContacts ++ [cc] }

def addAttempt (a : CallAttempt) (db : Db) : Db := { db with attempts := db.attempts ++ [a] }

def addSuppression (s : SuppressionEntry) (db : Db) : Db :=
  { db with suppressions := db.suppressions ++ [s] }

def flag (db : Db) (key : String) : Bool := db.flags.any fun f => f.flagKey = key && f.enabled

end Db

section Statements

variable {ρ : Type} [Tx.Keyed ρ Uuid]

/-- `db.get(Model, id)`, or a select by primary key. -/
def getRow (name : String) (table : Db → List ρ) (id : Uuid) : Txn (Option ρ) := do
  let db ← Prog.view name
  return Tx.Table.find (table db) id

/-- `SELECT ... WHERE id = :id AND cond FOR UPDATE`: a row outside the statement's
snapshot is not locked; after the wait the condition is checked again. -/
def selectForUpdate (name : String) (key : Uuid → LockKey) (table : Db → List ρ)
    (cond : ρ → Bool) (id : Uuid) : Txn (Option ρ) := do
  match ← getRow name table id with
  | none => return none
  | some r =>
    if cond r then
      Prog.acquire (key id)
      return (← getRow (name ++ " (locked)") table id).filter cond
    else return none

/-- The same with `SKIP LOCKED`: a row another transaction holds is passed over. -/
def selectSkipLocked (name : String) (key : Uuid → LockKey) (table : Db → List ρ)
    (cond : ρ → Bool) (id : Uuid) : Txn (Option ρ) := do
  match ← getRow name table id with
  | none => return none
  | some r =>
    if cond r then
      if ← Prog.tryAcquire (key id) then
        return (← getRow (name ++ " (locked)") table id).filter cond
      else return none
    else return none

/-- The rows of a statement, in the order of `before`. -/
def orderBy (before : ρ → ρ → Prop) [DecidableRel before] (rows : List ρ) : List ρ :=
  rows.insertionSort before

/-- The rows of a statement without `ORDER BY`, as the server returns them. -/
def scan (c : Call) : List ρ → List ρ :=
  orderBy fun a b => c.rank (Tx.key a) ≤ c.rank (Tx.key b)

/-- `ORDER BY created_at DESC LIMIT 1`. -/
def newest (c : Call) (createdAt : ρ → Time) (rows : List ρ) : Option ρ :=
  (orderBy (fun a b => toLex (-createdAt a, c.rank (Tx.key a)) ≤ toLex (-createdAt b, c.rank (Tx.key b)))
    rows).head?

/-- Lock one row of a multi-row `FOR UPDATE`, waiting or (`skipLocked`) passing over,
and check its condition again under the lock. -/
def lockRow (name : String) (skipLocked : Bool) (key : Uuid → LockKey) (table : Db → List ρ)
    (cond : ρ → Bool) (acc : List ρ) (r : ρ) : Txn (List ρ) := do
  let locked ← if skipLocked then Prog.tryAcquire (key (Tx.key r))
    else (do Prog.acquire (key (Tx.key r)); return true)
  if locked then
    let row ← getRow (name ++ " (locked)") table (Tx.key r)
    return acc ++ (row.filter cond).toList
  else return acc

/-- A multi-row `FOR UPDATE`: the rows of the snapshot, sorted by the statement, are
locked one after the other. Joined rows stay those of the snapshot when a condition is
checked again. -/
def lockRows (name : String) (skipLocked : Bool) (key : Uuid → LockKey) (table : Db → List ρ)
    (cond : Db → ρ → Bool) (sort : List ρ → List ρ) : Txn (List ρ) := do
  let db ← Prog.view name
  (sort ((table db).filter (cond db))).foldlM (lockRow name skipLocked key table (cond db)) []

/-- `INSERT`: the new row is locked by its transaction, and a duplicate primary key
is an integrity error. -/
def insertRow (name : String) (key : Uuid → LockKey) (table : Db → List ρ)
    (push : ρ → Db → Db) (r : ρ) : Txn Unit := do
  Prog.acquire (key (Tx.key r))
  let db ← Prog.view name
  Prog.raiseIf ((Tx.Table.find (table db) (Tx.key r)).isSome) (.integrityError ("pk_" ++ name))
  Prog.update (push r)

end Statements

/-- `flags.require_enabled`. -/
def requireEnabled (flagKey : String) : Txn Unit := do
  let db ← Prog.view "is_enabled"
  Prog.raiseIf (db.flag flagKey = false) (.featureDisabled flagKey)

def Db.log (e : AuditEvent) (db : Db) : Db := { db with audit := db.audit ++ [e] }

/-- `record_audit`. -/
def recordAudit (e : AuditEvent) : Txn Unit := Prog.update (Db.log e)

/-- Text with a NUL character is no PostgreSQL text. -/
def hasNul (text : String) : Bool := text.toList.contains (Char.ofNat 0)

def nulRefused : Err := .dataError "PostgreSQL text fields cannot contain NUL (0x00) bytes"

def refuseNul (texts : List String) : Txn Unit := Prog.raiseIf (texts.any hasNul) nulRefused

/-- The refusal of a text that its `String(n)` column has no room for. -/
def tooLong (n : ℕ) : Err := .dataError ("value too long for type character varying(" ++ toString n ++ ")")

/-- `notifications.notify`: the title is a `String(200)`; the email channel is dormant. -/
def notify (n : Notification) : Txn Unit := do
  Prog.raiseIf (200 < n.title.length) (tooLong 200)
  Prog.update fun db => { db with notifications := db.notifications ++ [n] }

end OmniDB
