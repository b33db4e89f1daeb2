import Mathlib.Data.Nat.Digits.Defs
import OmniDB.Spec.Workforce

/-! The rows of a bulk workforce file: the six classifiers of `app/workforce_imports/classify.py`
and the authority a row's effect needs (`_row_requirement`). -/

namespace OmniDB.WorkforceImports

open Tx

/-! ## `date.fromisoformat` -/

section Dates

def digits (cs : List Char) : Option ℤ :=
  cs.foldlM (fun n ch => if ch.isDigit then some (10 * n + (ch.toNat - 48 : ℕ)) else none) 0

def isLeap (year : ℤ) : Bool := year % 4 = 0 && (year % 100 ≠ 0 || year % 400 = 0)

def daysInMonth (year : ℤ) (month : ℕ) : ℤ :=
  if month = 2 then if isLeap year then 29 else 28
  else if month ∈ [4, 6, 9, 11] then 30 else 31

/-- `date(year, month, day).toordinal()`. -/
def toOrdinal (year : ℤ) (month : ℕ) (day : ℤ) : Date :=
  365 * (year - 1) + (year - 1) / 4 - (year - 1) / 100 + (year - 1) / 400 +
    ((List.range (month - 1)).map fun m => daysInMonth year (m + 1)).sum + day

def maxOrdinal : Date := toOrdinal 9999 12 31

def ymdDate (year month day : Option ℤ) : Option Date := do
  let y ← year
  let m ← month
  let d ← day
  if 1 ≤ y ∧ 1 ≤ m ∧ m ≤ 12 ∧ 1 ≤ d ∧ d ≤ daysInMonth y m.toNat then some (toOrdinal y m.toNat d)
  else none

/-- A date by ISO year, week and day. -/
def isoWeekDate (year week day : Option ℤ) : Option Date := do
  let y ← year
  let w ← week
  let d ← day
  let first := toOrdinal y 1 1
  let weekday := (first + 6) % 7
  let lastWeek : ℤ := if weekday = 3 ∨ (weekday = 2 ∧ isLeap y) then 53 else 52
  let monday := if 3 < weekday then first - weekday + 7 else first - weekday
  let ordinal := monday + 7 * (w - 1) + (d - 1)
  if 1 ≤ y ∧ 1 ≤ w ∧ w ≤ lastWeek ∧ 1 ≤ d ∧ d ≤ 7 ∧ ordinal ≤ maxOrdinal then some ordinal else none

def dateFromIsoformat (text : String) : Option Date :=
  match text.toList with
  | [a, b, c, d, '-', 'W', e, f, '-', g] =>
    isoWeekDate (digits [a, b, c, d]) (digits [e, f]) (digits [g])
  | [a, b, c, d, '-', e, f, '-', g, h] => ymdDate (digits [a, b, c, d]) (digits [e, f]) (digits [g, h])
  | [a, b, c, d, '-', 'W', e, f] => isoWeekDate (digits [a, b, c, d]) (digits [e, f]) (some 1)
  | [a, b, c, d, 'W', e, f, g] => isoWeekDate (digits [a, b, c, d]) (digits [e, f]) (digits [g])
  | [a, b, c, d, e, f, g, h] => ymdDate (digits [a, b, c, d]) (digits [e, f]) (digits [g, h])
  | [a, b, c, d, 'W', e, f] => isoWeekDate (digits [a, b, c, d]) (digits [e, f]) (some 1)
  | _ => none

example : dateFromIsoformat "2026-01-31" = some 739647 := by decide +kernel

/-- `_parse_date`; the outer `Option` is the `ValueError`. -/
def parseDate (text : String) : Option (Option Date) :=
  if text = "" then some none else (dateFromIsoformat text).map some

end Dates

/-! ## Cells -/

/-- `_clean(row.values.get(column))`. -/
def clean (row : Imports.ParsedRow) (column : String) : String :=
  Imports.sanitizeText (Imports.strip ((Imports.lookup row.values column).getD ""))

/-- `text or None`. -/
def orNone (text : String) : Option String := if text = "" then none else some text

/-- `_valid_workforce_id`. -/
def validWorkforceId (value : String) : Bool :=
  value ≠ "" && value.length ≤ 150 && !value.toList.any isSpace

/-- `_valid_email`. -/
def validEmail (value : String) : Bool :=
  value ≠ "" && value.length ≤ 320 && !value.toList.any isSpace &&
    match value.toList.span (· ≠ '@') with
    | (localPart, _ :: domain) => !localPart.isEmpty && !domain.isEmpty && domain.contains '.'
    | _ => false

/-- `_valid_reason_code`. -/
def validReasonCode (value : String) : Bool :=
  value ≠ "" && value.length ≤ 50 &&
    value.toList.all fun ch => ('a' ≤ ch && ch ≤ 'z') || ('0' ≤ ch && ch ≤ '9') || ch = '_'

def maxDisplayNameLen : ℕ := 200

/-! ## Lookups -/

def lookupUserId (db : Db) (workforceId : String) : Option Uuid :=
  (db.users.find? fun u => u.workforceId = workforceId).map User.id

def lookupUserActive (db : Db) (user : Uuid) : Bool := (Table.find db.users user).any User.active

def lookupTeam (c : Call) (db : Db) (code : String) : Option Team :=
  (scan c (db.teams.filter fun t => t.externalCode = code && t.active)).head?

def lookupCampaign (c : Call) (db : Db) (code : String) : Option Campaign :=
  (scan c (db.campaigns.filter fun k => k.externalCode = code)).head?

/-- The current primary line of the user in the organization. -/
def isOrganizationLine (subordinate : Uuid) : ReportingAssignment → Bool :=
  Workforce.isPrimaryLine subordinate "organization" none

def currentSupervisor (c : Call) (db : Db) (subordinate : Uuid) : Option Uuid :=
  ((scan c (db.reportingAssignments.filter (isOrganizationLine subordinate))).head?).map
    ReportingAssignment.supervisorUserId

/-- The active primary campaign assignment of the user. -/
def isPrimaryAssignment (user : Uuid) (a : CampaignUserAssignment) : Bool :=
  a.userId = user && a.assignmentType = "primary" && a.status = .active && a.effectiveTo.isNone

def existingPrimary (c : Call) (db : Db) (user : Uuid) : Option Uuid :=
  ((scan c (db.userAssignments.filter (isPrimaryAssignment user))).head?).map
    CampaignUserAssignment.campaignId

/-! ## Classification -/

/-- `WorkforceRowClassification`. -/
structure Classification where
  rowNumber : ℕ
  action : Option String
  externalWorkforceId : Option String
  normalizedIdentity : Option Uuid := none
  parsedValues : Option ParsedValues := none
  validationResult : RowValidation := .valid
  validationDetail : Option String := none
  conflictType : Option String := none
  riskLevel : RiskLevel := .routine

/-- `_invalid`. -/
def invalid (row : Imports.ParsedRow) (action : Option String) (externalId detail : String)
    (conflict : Option String) : Classification where
  rowNumber := row.rowNumber
  action := action
  externalWorkforceId := orNone externalId
  validationResult := .invalid
  validationDetail := some detail
  conflictType := conflict

/-- What a classifier sees: the environment, `str.lower`, the state, and the keys of the
rows before. -/
structure Context where
  call : Call
  lower : String → String
  db : Db
  seen : List String

abbrev Classifier := Context → Imports.ParsedRow → Classification × List String

def badWorkforceId : String := "external_workforce_id is required and must not contain whitespace"
def unknownIdentityDetail : String := "no existing user matches this external_workforce_id"
def badReasonCode : String := "reason_code is required (lowercase letters, digits, underscore only)"
def badDates : String := "start_date/end_date must be YYYY-MM-DD"

/-- The `create` branch of `classify_users_row`. -/
def classifyCreate (x : Context) (row : Imports.ParsedRow) (externalId : String) : Classification :=
  let reject (detail : String) (conflict : Option String) :=
    invalid row (some "create") externalId detail conflict
  if (lookupUserId x.db externalId).isSome then
    reject "a user with this external_workforce_id already exists - use update" (some "already_exists")
  else
    let loginIdentifier := x.lower (Imports.strip (clean row "login_identifier"))
    let displayName := clean row "display_name"
    if !validEmail loginIdentifier then reject "login_identifier must be a valid email address" none
    else if displayName = "" ∨ maxDisplayNameLen < displayName.length then
      reject "display_name is required (max 200 characters)" none
    else match parseDate (clean row "start_date"), parseDate (clean row "end_date") with
      | some startDate, some endDate =>
        { rowNumber := row.rowNumber, action := some "create", externalWorkforceId := some externalId
          parsedValues := some {
            loginIdentifier := some loginIdentifier, displayName := some displayName
            startDate := startDate, endDate := endDate } }
      | _, _ => reject badDates none

/-- The `reactivate` branch of `classify_users_row`. -/
def classifyReactivate (x : Context) (row : Imports.ParsedRow) (externalId : String) (user : Uuid) :
    Classification :=
  let cl : Classification := {
    rowNumber := row.rowNumber, action := some "reactivate", externalWorkforceId := some externalId
    normalizedIdentity := some user, parsedValues := some {} }
  if lookupUserActive x.db user then
    { cl with validationResult := .warning, validationDetail := some "user is already active"
              conflictType := some "already_active" }
  else cl

/-- The `update` branch of `classify_users_row`: at least one field must change. -/
def classifyUpdate (row : Imports.ParsedRow) (externalId : String) (user : Uuid) : Classification :=
  let reject (detail : String) := invalid row (some "update") externalId detail none
  let displayName := clean row "display_name"
  match parseDate (clean row "start_date"), parseDate (clean row "end_date") with
  | some startDate, some endDate =>
    if maxDisplayNameLen < displayName.length then reject "display_name must be at most 200 characters"
    else if displayName = "" ∧ startDate = none ∧ endDate = none then
      reject "update row has no display_name, start_date, or end_date to change"
    else
      { rowNumber := row.rowNumber, action := some "update", externalWorkforceId := some externalId
        normalizedIdentity := some user
        parsedValues := some {
          displayName := orNone displayName, startDate := startDate, endDate := endDate } }
  | _, _ => reject badDates

/-- `classify_users_row`. -/
def classifyUsersRow : Classifier := fun x row =>
  let action := x.lower (clean row "action")
  let externalId := clean row "external_workforce_id"
  if !validWorkforceId externalId then (invalid row (orNone action) "" badWorkforceId none, x.seen)
  else if action ∉ ["create", "update", "reactivate"] then
    (invalid row (orNone action) externalId
      (if action = "deactivate" then
        "action must be create, update, or reactivate - use the deactivations template for deactivate"
      else "action must be create, update, or reactivate") none, x.seen)
  else if x.seen.contains externalId then
    (invalid row (some action) externalId "external_workforce_id repeated within this file"
      (some "duplicate_in_file"), x.seen)
  else
    let cl :=
      if action = "create" then classifyCreate x row externalId
      else match lookupUserId x.db externalId with
        | none => invalid row (some action) externalId unknownIdentityDetail (some "unknown_identity")
        | some user =>
          if action = "reactivate" then classifyReactivate x row externalId user
          else classifyUpdate row externalId user
    (cl, externalId :: x.seen)

/-- `classify_deactivation_row`. -/
def classifyDeactivationRow : Classifier := fun x row =>
  let externalId := clean row "external_workforce_id"
  let reasonCode := clean row "reason_code"
  let reject := invalid row (some "deactivate")
  if !validWorkforceId externalId then (reject "" badWorkforceId none, x.seen)
  else if x.seen.contains externalId then
    (reject externalId "external_workforce_id repeated within this file" (some "duplicate_in_file"), x.seen)
  else
    let cl :=
      if !validReasonCode reasonCode then reject externalId badReasonCode none
      else match lookupUserId x.db externalId with
        | none => reject externalId unknownIdentityDetail (some "unknown_identity")
        | some user =>
          let cl : Classification := {
            rowNumber := row.rowNumber, action := some "deactivate"
            externalWorkforceId := some externalId, normalizedIdentity := some user
            parsedValues := some { reasonCode := some reasonCode }, riskLevel := .highRisk }
          if lookupUserActive x.db user then cl
          else { cl with validationResult := .warning
                         validationDetail := some "user is already inactive"
                         conflictType := some "already_inactive" }
    (cl, externalId :: x.seen)

/-- `classify_team_membership_row`. -/
def classifyTeamMembershipRow : Classifier := fun x row =>
  let action := x.lower (clean row "action")
  let externalId := clean row "external_workforce_id"
  let teamCode := clean row "team_code"
  let reject := invalid row (some action) externalId
  if !validWorkforceId externalId then (invalid row (orNone action) "" badWorkforceId none, x.seen)
  else if action ∉ ["add", "end"] then
    (invalid row (orNone action) externalId "action must be add or end" none, x.seen)
  else if teamCode = "" then (reject "team_code is required" none, x.seen)
  else
    let key := externalId ++ ":" ++ teamCode
    if x.seen.contains key then
      (reject "this external_workforce_id/team_code pair repeats within this file"
        (some "duplicate_in_file"), x.seen)
    else
      let cl := match lookupTeam x.call x.db teamCode, lookupUserId x.db externalId with
        | none, _ => reject "no active team matches this team_code" (some "unknown_team")
        | some _, none => reject unknownIdentityDetail (some "unknown_identity")
        | some team, some user =>
          let member := x.db.memberships.any (Workforce.isMembership team.id user)
          let cl : Classification := {
            rowNumber := row.rowNumber, action := some action
            externalWorkforceId := some externalId, normalizedIdentity := some user
            parsedValues := some {
              teamId := some team.id, reasonCode := orNone (clean row "reason_code") } }
          if action = "add" ∧ member then
            { cl with parsedValues := some { teamId := some team.id }, validationResult := .warning
                      validationDetail := some "already an active member of this team"
                      conflictType := some "already_member" }
          else if action = "end" ∧ !member then
            reject "user is not a current active member of this team" (some "not_a_member")
          else cl
      (cl, key :: x.seen)

/-- The roles a file may name. -/
def roleOf (code : String) : Option Role :=
  [Role.manager, .teamLeader, .teamCaptain, .agent, .viewer].find? fun r => Workforce.roleName r = code

/-- `_SCOPE_TYPES`. -/
def scopeTypeOf (text : String) : Option ScopeType :=
  [ScopeType.installation, .organization, .team].find? fun t => Workforce.scopeTypeName t = text

/-- `str(scope_id)`. -/
def idText : Option Uuid → String
  | some id => toString id
  | none => "None"

/-- The scope of a role row: the organization and the installation have no id. -/
def rowScope (x : Context) (row : Imports.ParsedRow) (scopeType : ScopeType) :
    Except (String × Option String) (Option Uuid) :=
  if scopeType = .team then
    let scopeCode := clean row "scope_code"
    if scopeCode = "" then .error ("scope_code is required when scope_type is team", none)
    else match lookupTeam x.call x.db scopeCode with
      | none => .error ("no active team matches this scope_code", some "unknown_team")
      | some team => .ok (some team.id)
  else .ok none

/-- `classify_role_assignment_row`. -/
def classifyRoleAssignmentRow : Classifier := fun x row =>
  let action := x.lower (clean row "action")
  let externalId := clean row "external_workforce_id"
  let reasonCode := clean row "reason_code"
  let reject := invalid row (some action) externalId
  if !validWorkforceId externalId then (invalid row (orNone action) "" badWorkforceId none, x.seen)
  else if action ∉ ["assign", "end"] then
    (invalid row (orNone action) externalId "action must be assign or end" none, x.seen)
  else match roleOf (x.lower (clean row "role_code")), scopeTypeOf (x.lower (clean row "scope_type")) with
    | none, _ =>
      (reject "role_code must be one of: agent, manager, team_captain, team_leader, viewer"
        (some "unknown_role"), x.seen)
    | some _, none => (reject "scope_type must be installation, organization, or team" none, x.seen)
    | some role, some scopeType =>
      if !validReasonCode reasonCode then (reject badReasonCode none, x.seen)
      else match rowScope x row scopeType with
        | .error e => (reject e.1 e.2, x.seen)
        | .ok scopeId =>
          let key := externalId ++ ":" ++ Workforce.roleName role ++ ":" ++
            Workforce.scopeTypeName scopeType ++ ":" ++ idText scopeId
          if x.seen.contains key then
            (reject "this identity/role/scope combination repeats within this file"
              (some "duplicate_in_file"), x.seen)
          else
            let cl := match lookupUserId x.db externalId with
              | none => reject unknownIdentityDetail (some "unknown_identity")
              | some user =>
                let active := x.db.roleAssignments.any (Workforce.isGrant user role scopeType scopeId)
                let cl : Classification := {
                  rowNumber := row.rowNumber, action := some action
                  externalWorkforceId := some externalId, normalizedIdentity := some user
                  parsedValues := some {
                    roleCode := some role, scopeType := some scopeType, scopeId := scopeId
                    reasonCode := some reasonCode }
                  -- granting authority needs the second approver, ending it does not
                  riskLevel := if action = "assign" then .highRisk else .routine }
                if action = "assign" ∧ active then
                  { cl with validationResult := .warning
                            validationDetail := some "user already holds this exact role at this scope"
                            conflictType := some "already_granted" }
                else if action = "end" ∧ !active then
                  reject "no active assignment matches this identity/role/scope to end"
                    (some "not_assigned")
                else cl
            (cl, key :: x.seen)

/-- `classify_reporting_assignment_row`. -/
def classifyReportingAssignmentRow : Classifier := fun x row =>
  let externalId := clean row "external_workforce_id"
  let supervisorId := clean row "supervisor_workforce_id"
  let cell := match Imports.lookup row.values "action" with
    | some text => if text = "" then "set" else text
    | none => "set"
  let action := x.lower (Imports.sanitizeText (Imports.strip cell))
  let reject := invalid row (some action) externalId
  if !validWorkforceId externalId then (invalid row (orNone action) "" badWorkforceId none, x.seen)
  else if action ≠ "set" then (reject "action must be set" none, x.seen)
  else if !validWorkforceId supervisorId then
    (reject "supervisor_workforce_id is required and must not contain whitespace" none, x.seen)
  else if externalId = supervisorId then (reject "a user may not supervise themselves" none, x.seen)
  else if x.seen.contains externalId then
    (reject "external_workforce_id repeats within this file" (some "duplicate_in_file"), x.seen)
  else
    let cl := match lookupUserId x.db externalId, lookupUserId x.db supervisorId with
      | none, _ => reject unknownIdentityDetail (some "unknown_identity")
      | some _, none =>
        reject "no existing user matches supervisor_workforce_id" (some "unknown_supervisor")
      | some subordinate, some supervisor =>
        if !lookupUserActive x.db supervisor then
          reject "supervisor_workforce_id does not match an active user" (some "unknown_supervisor")
        else
          let cl : Classification := {
            rowNumber := row.rowNumber, action := some action
            externalWorkforceId := some externalId, normalizedIdentity := some subordinate
            parsedValues := some {
              supervisorUserId := some supervisor, reasonCode := orNone (clean row "reason_code") } }
          if currentSupervisor x.call x.db subordinate = some supervisor then
            { cl with validationResult := .warning
                      validationDetail := some "this is already the subordinate's active supervisor"
                      conflictType := some "already_set" }
          else cl
    (cl, externalId :: x.seen)

/-- The optional team of a campaign assignment row. -/
def rowTeam (x : Context) (row : Imports.ParsedRow) : Option (Option Uuid) :=
  let teamCode := clean row "team_code"
  if teamCode = "" then some none else (lookupTeam x.call x.db teamCode).map fun t => some t.id

/-- `classify_campaign_assignment_row`. -/
def classifyCampaignAssignmentRow : Classifier := fun x row =>
  let action := x.lower (clean row "action")
  let externalId := clean row "external_workforce_id"
  let campaignCode := clean row "campaign_code"
  let reject := invalid row (some action) externalId
  if !validWorkforceId externalId then (invalid row (orNone action) "" badWorkforceId none, x.seen)
  else if action ∉ ["assign", "end"] then
    (invalid row (orNone action) externalId "action must be assign or end" none, x.seen)
  else if campaignCode = "" then (reject "campaign_code is required" none, x.seen)
  else
    let key := externalId ++ ":" ++ campaignCode ++ ":" ++ action
    if x.seen.contains key then
      (reject "this external_workforce_id/campaign_code/action repeats within this file"
        (some "duplicate_in_file"), x.seen)
    else
      let cl := match lookupCampaign x.call x.db campaignCode, lookupUserId x.db externalId,
          rowTeam x row with
        | none, _, _ => reject "no campaign matches this campaign_code" (some "unknown_campaign")
        | some _, none, _ => reject unknownIdentityDetail (some "unknown_identity")
        | some _, some _, none => reject "no active team matches this team_code" (some "unknown_team")
        | some campaign, some user, some team =>
          let existing := existingPrimary x.call x.db user
          let cl : Classification := {
            rowNumber := row.rowNumber, action := some action
            externalWorkforceId := some externalId, normalizedIdentity := some user
            parsedValues := some {
              campaignId := some campaign.id, teamId := team
              reasonCode := orNone (clean row "reason_code") } }
          if action = "assign" then
            if existing.isSome then
              reject "agent already has an active primary assignment - use a transfer"
                (some "already_assigned")
            else cl
          else if existing ≠ some campaign.id then
            reject "agent has no active primary assignment on this campaign" (some "not_assigned")
          else cl
      (cl, key :: x.seen)

/-- `_CLASSIFIERS`. -/
def classifier : ImportType → Classifier
  | .users => classifyUsersRow
  | .explicitDeactivations => classifyDeactivationRow
  | .teamMemberships => classifyTeamMembershipRow
  | .roleAssignments => classifyRoleAssignmentRow
  | .reportingAssignments => classifyReportingAssignmentRow
  | .campaignUserAssignments => classifyCampaignAssignmentRow

/-! ## Columns -/

/-- `REQUIRED_COLUMNS`. -/
def requiredColumns : ImportType → List String
  | .users => ["action", "external_workforce_id", "login_identifier", "display_name"]
  | .explicitDeactivations => ["external_workforce_id", "reason_code"]
  | .teamMemberships => ["action", "external_workforce_id", "team_code"]
  | .roleAssignments => ["action", "external_workforce_id", "role_code", "scope_type", "reason_code"]
  | .reportingAssignments => ["external_workforce_id", "supervisor_workforce_id"]
  | .campaignUserAssignments => ["action", "external_workforce_id", "campaign_code"]

/-- `ALLOWED_COLUMNS`. -/
def allowedColumns (t : ImportType) : List String :=
  requiredColumns t ++ match t with
    | .users => ["start_date", "end_date"]
    | .explicitDeactivations => []
    | .teamMemberships => ["reason_code"]
    | .roleAssignments => ["scope_code"]
    | .reportingAssignments => ["reason_code", "action"]
    | .campaignUserAssignments => ["team_code", "reason_code"]

/-! ## The authority of a row -/

/-- `_row_requirement`; `none` is a row that needs no check. -/
def rowRequirement (t : ImportType) (row : WorkforceImportRow) : Option Requirement :=
  let values := row.parsedValues.getD {}
  let target := match row.normalizedIdentity with
    | some user => some (.user user)
    | none => some .deny
  match t with
  | .explicitDeactivations | .reportingAssignments => target
  | .users =>
    if row.action = some "create" then if row.validationResult = .valid then none else some .deny
    else if row.action = some "update" ∨ row.action = some "reactivate" then target
    else some .deny
  | .teamMemberships =>
    match values.teamId with
    | some team => some (.scope .appointTeamCaptain .team (some team))
    | none => some .deny
  | .roleAssignments =>
    match values.roleCode.bind Workforce.roleAppointmentCapability, values.scopeType with
    | some capability, some scopeType => some (.scope capability scopeType values.scopeId)
    | _, _ => some .deny
  | .campaignUserAssignments =>
    match values.campaignId with
    | some campaign => some (.campaign campaign)
    | none => some .deny

/-- One requirement, checked the way the one-row screens check it. -/
def requirementMet (db : Db) (now : Time) (actor : Uuid) : Requirement → Bool
  | .deny => false
  | .user target => Workforce.canManageUser db now actor target
  | .scope capability scopeType scopeId =>
    Authz.hasScopeCapability db now actor capability scopeType scopeId
  | .campaign campaign => Authz.hasCampaignCapability db now actor .assignCampaignAgent campaign

/-! ### The stored requirements -/

section Json

/-- The digits of `'%032x' % id`. -/
def uuidHex (id : Uuid) : List Char :=
  let digits := ((Nat.digits 16 id).map Nat.digitChar).reverse
  List.replicate (32 - digits.length) '0' ++ digits

/-- `str(id)`. -/
def uuidText (id : Uuid) : String :=
  let h := uuidHex id
  String.ofList (h.take 8 ++ '-' :: ((h.drop 8).take 4 ++ '-' :: ((h.drop 12).take 4 ++
    '-' :: ((h.drop 16).take 4 ++ '-' :: h.drop 20))))

def hexValue (ch : Char) : Option ℕ :=
  if ch.isDigit then some (ch.toNat - 48)
  else if 'a' ≤ ch ∧ ch ≤ 'f' then some (ch.toNat - 87)
  else if 'A' ≤ ch ∧ ch ≤ 'F' then some (ch.toNat - 55)
  else none

/-- `uuid.UUID(text)`; an identifier of the model may have more than 32 digits. -/
def uuidOf (text : String) : Option Uuid :=
  let h := text.toList.filter (· ≠ '-')
  if h.length < 32 then none else (h.mapM hexValue).map fun ds => Nat.ofDigits 16 ds.reverse

example : uuidText 0xABCDEF = "00000000-0000-0000-0000-000000abcdef" := by decide +kernel

/-- A scope type is the text it is named by. -/
def scopeTypeText (text : String) : ScopeType :=
  match [ScopeType.installation, .organization, .team, .campaign].find? fun t =>
    Workforce.scopeTypeName t = text with
  | some t => t
  | none => .other text

/-- `_serialize_requirement`. -/
def serializeRequirement : Requirement → List (Option String)
  | .deny => [some "deny"]
  | .user target => [some "user", some (uuidText target)]
  | .scope capability scopeType scopeId =>
    [some "scope", some (Workforce.capabilityName capability), some (Workforce.scopeTypeName scopeType),
      scopeId.map uuidText]
  | .campaign campaign => [some "campaign", some (uuidText campaign)]

/-- `_deserialize_requirement`; `none` is the error of an entry it cannot read. -/
def deserializeRequirement : List (Option String) → Option Requirement
  | some "deny" :: _ => some .deny
  | some "user" :: some target :: _ => (uuidOf target).map .user
  | some "scope" :: some capability :: some scopeType :: some scopeId :: _ => do
    return .scope (← Workforce.capabilityOf capability) (scopeTypeText scopeType) (some (← uuidOf scopeId))
  | some "scope" :: some capability :: some scopeType :: none :: _ => do
    return .scope (← Workforce.capabilityOf capability) (scopeTypeText scopeType) none
  | some "campaign" :: some campaign :: _ => (uuidOf campaign).map .campaign
  | _ => none

end Json

/-! ### The bulk check -/

/-- `_AUTHORITY_CHUNK_SIZE`. -/
def authorityChunkSize : ℕ := 1000

/-- A capability at a scope. -/
abbrev ScopeTuple := Capability × ScopeType × Option Uuid

/-- What the actor is authorized for, among what was asked; a set is the list of its elements. -/
structure SatisfiedAuthority where
  targets : List Uuid
  scopes : List ScopeTuple
  campaigns : List Uuid

/-- The effective roles of the targets, one statement for each chunk. -/
def targetRoles (chunk : ℕ) (db : Db) (now : Time) (targetIds : List Uuid) : List RoleAssignment :=
  (Authz.batched chunk targetIds).flatMap fun ids => db.roleAssignments.filter fun ra =>
    ids.contains ra.userId && ra.status = .active && effectiveAt ra.effectiveFrom ra.effectiveTo now

/-- The scopes that the roles of the targets occupy. -/
def appointmentScopes (roles : List RoleAssignment) : List ScopeTuple :=
  roles.filterMap fun ra => (Workforce.roleAppointmentCapability ra.roleCode).map fun capability =>
    (capability, ra.scopeType, ra.scopeId)

/-- `scope_ok`: the tuples that are covered, resolved capability by capability. -/
def coveredScopes (bulkChunk : ℕ) (db : Db) (now : Time) (actor : Uuid) (tuples : List ScopeTuple) :
    List ScopeTuple :=
  (tuples.map Prod.fst).dedup.flatMap fun capability =>
    let scopeRequests := (tuples.filter fun t => t.1 = capability).map Prod.snd
    let matched := Authz.scopeCapabilitiesMatched bulkChunk db now actor capability scopeRequests
    (scopeRequests.filter matched.contains).map fun r => (capability, r)

/-- `_satisfied_authority`, with the two chunk sizes. -/
def satisfiedAuthority (chunk bulkChunk : ℕ) (db : Db) (now : Time) (actor : Uuid)
    (targetIds : List Uuid) (scopeTuples : List ScopeTuple) (campaignIds : List Uuid) : SatisfiedAuthority :=
  let roles := targetRoles chunk db now targetIds.dedup
  let rolesOf := fun target => roles.filter fun ra => ra.userId = target
  let scopeOk := coveredScopes bulkChunk db now actor (scopeTuples ++ appointmentScopes roles).dedup
  let matchedCampaigns :=
    Authz.campaignIdsWithCapability bulkChunk db now actor .assignCampaignAgent campaignIds
  let noRoleFallbackOk := if targetIds.any fun t => (rolesOf t).isEmpty then
      Workforce.appointmentCapabilities.any (Authz.hasAssignedCapability db now actor)
    else false
  let targetOk := fun target => if (rolesOf target).isEmpty then noRoleFallbackOk
    else (rolesOf target).any fun ra => (Workforce.roleAppointmentCapability ra.roleCode).any fun capability =>
      scopeOk.contains (capability, ra.scopeType, ra.scopeId)
  { targets := targetIds.filter targetOk
    scopes := scopeTuples.filter scopeOk.contains
    campaigns := matchedCampaigns.filter campaignIds.contains }

/-- `_distinct_requirement_sets`. -/
def distinctTargets (requirements : List (Option Requirement)) : List Uuid :=
  (requirements.filterMap fun r => match r with
    | some (.user target) => some target
    | _ => none).dedup

def distinctScopes (requirements : List (Option Requirement)) : List ScopeTuple :=
  (requirements.filterMap fun r => match r with
    | some (.scope capability scopeType scopeId) => some (capability, scopeType, scopeId)
    | _ => none).dedup

def distinctCampaigns (requirements : List (Option Requirement)) : List Uuid :=
  (requirements.filterMap fun r => match r with
    | some (.campaign campaign) => some campaign
    | _ => none).dedup

/-- `_requirements_satisfied`. -/
def requirementsSatisfied (requirements : List (Option Requirement)) (satisfied : SatisfiedAuthority) : Bool :=
  requirements.all fun r => match r with
    | none => true
    | some .deny => false
    | some (.user target) => satisfied.targets.contains target
    | some (.scope capability scopeType scopeId) => satisfied.scopes.contains (capability, scopeType, scopeId)
    | some (.campaign campaign) => satisfied.campaigns.contains campaign

/-- `_authority_over_requirements`. -/
def authorityOverRequirements (db : Db) (now : Time) (actor : Uuid)
    (requirements : List (Option Requirement)) : Bool :=
  if requirements.any fun r => r = some .deny then false
  else requirementsSatisfied requirements (satisfiedAuthority authorityChunkSize Authz.bulkChunkSize db now actor
    (distinctTargets requirements) (distinctScopes requirements) (distinctCampaigns requirements))

end OmniDB.WorkforceImports
