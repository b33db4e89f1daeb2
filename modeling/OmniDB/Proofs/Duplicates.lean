import OmniDB.Proofs.ParsedJobs
import OmniDB.Tx.Repeats

/-! Duplicates within a file. The files that name a person and something else join the parts
to one text, and a row repeats an earlier row when the texts are the same. The identifiers and
the codes may contain the separator, so two rows about different things can look the same. -/

namespace OmniDB.WorkforceImports

open Tx
open Tx.Prog

/-- What a row of these files is about. -/
inductive Subject where
  | membership (externalId teamCode : String)
  | grant (externalId : String) (role : Role) (scopeType : ScopeType) (scopeId : Option Uuid)
  | campaign (externalId campaignCode action : String)
deriving DecidableEq

/-- `dedup_key`. -/
def Subject.key : Subject → String
  | .membership externalId teamCode => externalId ++ ":" ++ teamCode
  | .grant externalId role scopeType scopeId => externalId ++ ":" ++ Workforce.roleName role ++ ":" ++
      Workforce.scopeTypeName scopeType ++ ":" ++ idText scopeId
  | .campaign externalId campaignCode action => externalId ++ ":" ++ campaignCode ++ ":" ++ action

def membershipSubject (x : Context) (row : Imports.ParsedRow) : Option Subject :=
  if validWorkforceId (clean row "external_workforce_id") ∧ x.lower (clean row "action") ∈ ["add", "end"] ∧
      clean row "team_code" ≠ "" then
    some (.membership (clean row "external_workforce_id") (clean row "team_code"))
  else none

def grantSubject (x : Context) (row : Imports.ParsedRow) : Option Subject :=
  if validWorkforceId (clean row "external_workforce_id") ∧ x.lower (clean row "action") ∈ ["assign", "end"] ∧
      validReasonCode (clean row "reason_code") then
    match roleOf (x.lower (clean row "role_code")), scopeTypeOf (x.lower (clean row "scope_type")) with
    | some role, some scopeType => match rowScope x row scopeType with
      | .ok scopeId => some (.grant (clean row "external_workforce_id") role scopeType scopeId)
      | .error _ => none
    | _, _ => none
  else none

def campaignSubject (x : Context) (row : Imports.ParsedRow) : Option Subject :=
  if validWorkforceId (clean row "external_workforce_id") ∧ x.lower (clean row "action") ∈ ["assign", "end"] ∧
      clean row "campaign_code" ≠ "" then
    some (.campaign (clean row "external_workforce_id") (clean row "campaign_code") (x.lower (clean row "action")))
  else none

/-- The subject of a row that passes the checks made before the duplicate test. -/
def subject (t : ImportType) (x : Context) (row : Imports.ParsedRow) : Option Subject :=
  match t with
  | .teamMemberships => membershipSubject x row
  | .roleAssignments => grantSubject x row
  | .campaignUserAssignments => campaignSubject x row
  | _ => none

/-- The files whose rows have subjects. -/
def Joins (t : ImportType) : Prop :=
  t = .teamMemberships ∨ t = .roleAssignments ∨ t = .campaignUserAssignments

/-- The row is classified as a duplicate. -/
def Flagged (cl : Classification) : Prop :=
  cl.validationResult = .invalid ∧ cl.conflictType = some "duplicate_in_file"

/-- A row with a subject is flagged when its key was seen, and its key is seen after it; a row
without one leaves the seen keys. -/
structure Tests (seen : List String) (result : Classification × List String) (item : Option Subject) : Prop where
  skip : item = none → result.2 = seen
  flag : ∀ s, item = some s → (Flagged result.1 ↔ s.key ∈ seen)
  next : ∀ s, item = some s → ∀ k, k ∈ result.2 ↔ k ∈ seen ∨ s.key = k

theorem tests_none {seen : List String} {cl : Classification} : Tests seen (cl, seen) none where
  skip _ := rfl
  flag s h := by cases h
  next s h := by cases h

theorem tests_seen {seen : List String} {cl : Classification} {s : Subject} (h : s.key ∈ seen) (hcl : Flagged cl) :
    Tests seen (cl, seen) (some s) where
  skip he := by cases he
  flag s' he := by
    obtain rfl := Option.some.inj he
    exact ⟨fun _ => h, fun _ => hcl⟩
  next s' he k := by
    obtain rfl := Option.some.inj he
    constructor
    · exact Or.inl
    · rintro (hk | rfl)
      · exact hk
      · exact h

theorem tests_new {seen : List String} {cl : Classification} {s : Subject} (h : s.key ∉ seen)
    (hcl : cl.conflictType ≠ some "duplicate_in_file") : Tests seen (cl, s.key :: seen) (some s) where
  skip he := by cases he
  flag s' he := by
    obtain rfl := Option.some.inj he
    exact ⟨fun hf => absurd hf.2 hcl, fun hk => absurd hk h⟩
  next s' he k := by
    obtain rfl := Option.some.inj he
    rw [List.mem_cons, or_comm, eq_comm]

/-- The duplicate test. -/
theorem tests_key {seen : List String} {duplicate cl : Classification} {s : Subject} {key : String}
    (hkey : key = s.key) (hduplicate : Flagged duplicate) (hcl : cl.conflictType ≠ some "duplicate_in_file") :
    Tests seen (if seen.contains key then (duplicate, seen) else (cl, key :: seen)) (some s) := by
  subst hkey
  by_cases hseen : seen.contains s.key = true
  · rw [if_pos hseen]
    exact tests_seen (List.contains_iff_mem.1 hseen) hduplicate
  · rw [if_neg hseen]
    exact tests_new (fun h => hseen (List.contains_iff_mem.2 h)) hcl

variable {x : Context} {row : Imports.ParsedRow}

theorem flagged_invalid {action : Option String} {externalId detail : String} :
    Flagged (invalid row action externalId detail (some "duplicate_in_file")) := ⟨rfl, rfl⟩

theorem classifyTeamMembershipRow_tests : Tests x.seen (classifyTeamMembershipRow x row) (membershipSubject x row) := by
  unfold classifyTeamMembershipRow membershipSubject
  dsimp only
  by_cases hid : validWorkforceId (clean row "external_workforce_id") = true
  case neg =>
    rw [if_pos (by simp [hid]), if_neg fun h => hid h.1]
    exact tests_none
  by_cases haction : x.lower (clean row "action") ∈ ["add", "end"]
  case neg =>
    rw [if_neg (by simp [hid]), if_pos haction, if_neg fun h => haction h.2.1]
    exact tests_none
  by_cases hcode : clean row "team_code" = ""
  case pos =>
    rw [if_neg (by simp [hid]), if_neg (not_not.2 haction), if_pos hcode, if_neg fun h => h.2.2 hcode]
    exact tests_none
  have hs : ∀ a b : Option Subject, (if validWorkforceId (clean row "external_workforce_id") = true ∧
      x.lower (clean row "action") ∈ ["add", "end"] ∧ clean row "team_code" ≠ "" then a else b) = a := fun a b => if_pos ⟨hid, haction, hcode⟩
  rw [if_neg (by simp [hid]), if_neg (not_not.2 haction), if_neg hcode, hs]
  refine tests_key (s := .membership _ _) rfl flagged_invalid ?_
  repeat' first | simp [invalid] | split

theorem classifyRoleAssignmentRow_tests : Tests x.seen (classifyRoleAssignmentRow x row) (grantSubject x row) := by
  unfold classifyRoleAssignmentRow grantSubject
  dsimp only
  by_cases hid : validWorkforceId (clean row "external_workforce_id") = true
  case neg =>
    rw [if_pos (by simp [hid]), if_neg fun h => hid h.1]
    exact tests_none
  by_cases haction : x.lower (clean row "action") ∈ ["assign", "end"]
  case neg =>
    rw [if_neg (by simp [hid]), if_pos haction, if_neg fun h => haction h.2.1]
    exact tests_none
  rw [if_neg (by simp [hid]), if_neg (not_not.2 haction)]
  cases hrole : roleOf (x.lower (clean row "role_code")) with
  | none =>
    rw [ite_self]
    exact tests_none
  | some role =>
    cases hscope : scopeTypeOf (x.lower (clean row "scope_type")) with
    | none =>
      rw [ite_self]
      exact tests_none
    | some scopeType =>
      by_cases hreason : validReasonCode (clean row "reason_code") = true
      case neg =>
        simp only [hreason, Bool.not_false, if_true, Bool.false_eq_true, and_false, if_false]
        exact tests_none
      simp only [hid, haction, and_self, if_true, hreason, Bool.not_true, Bool.false_eq_true, if_false]
      cases hscopeId : rowScope x row scopeType with
      | error e => exact tests_none
      | ok scopeId =>
        dsimp only
        refine tests_key (s := .grant _ _ _ _) rfl flagged_invalid ?_
        repeat' first | simp [invalid] | split

theorem classifyCampaignAssignmentRow_tests : Tests x.seen (classifyCampaignAssignmentRow x row) (campaignSubject x row) := by
  unfold classifyCampaignAssignmentRow campaignSubject
  dsimp only
  by_cases hid : validWorkforceId (clean row "external_workforce_id") = true
  case neg =>
    rw [if_pos (by simp [hid]), if_neg fun h => hid h.1]
    exact tests_none
  by_cases haction : x.lower (clean row "action") ∈ ["assign", "end"]
  case neg =>
    rw [if_neg (by simp [hid]), if_pos haction, if_neg fun h => haction h.2.1]
    exact tests_none
  by_cases hcode : clean row "campaign_code" = ""
  case pos =>
    rw [if_neg (by simp [hid]), if_neg (not_not.2 haction), if_pos hcode, if_neg fun h => h.2.2 hcode]
    exact tests_none
  have hs : ∀ a b : Option Subject, (if validWorkforceId (clean row "external_workforce_id") = true ∧
      x.lower (clean row "action") ∈ ["assign", "end"] ∧ clean row "campaign_code" ≠ "" then a else b) = a := fun a b => if_pos ⟨hid, haction, hcode⟩
  rw [if_neg (by simp [hid]), if_neg (not_not.2 haction), if_neg hcode, hs]
  refine tests_key (s := .campaign _ _ _) rfl flagged_invalid ?_
  repeat' first | simp [invalid] | split

/-- What a classifier does with a row, by the row's subject. -/
theorem classifier_tests {t : ImportType} (ht : Joins t) (x : Context) (row : Imports.ParsedRow) :
    Tests x.seen (classifier t x row) (subject t x row) := by
  rcases ht with rfl | rfl | rfl <;> simp only [classifier, subject]
  · exact classifyTeamMembershipRow_tests
  · exact classifyRoleAssignmentRow_tests
  · exact classifyCampaignAssignmentRow_tests

/-! ## The rows of a file -/

section File

variable (t : ImportType) (c : Call) (lower : String → String)

/-- The subject of a row, whose statement saw the state. -/
def subjectOf (e : Db × Imports.ParsedRow) : Option Subject :=
  subject t { call := c, lower := lower, db := e.1, seen := [] } e.2

/-- A row is flagged exactly when an earlier row has the same subject. -/
def FlagsDuplicates (file : List (Db × Imports.ParsedRow)) (rows : List WorkforceImportRow) : Prop :=
  ∀ before e after, file = before ++ e :: after → ∀ s, subjectOf t c lower e = some s →
    ((∃ row, rows[before.length]? = some row ∧ row.validationResult = .invalid ∧
      row.conflictType = some "duplicate_in_file") ↔ s ∈ before.filterMap (subjectOf t c lower))

/-- No two rows about different things have the same key. -/
def SeparateKeys (file : List (Db × Imports.ParsedRow)) : Prop :=
  ∀ s ∈ file.filterMap (subjectOf t c lower), ∀ s' ∈ file.filterMap (subjectOf t c lower), s.key = s'.key → s = s'

/-- Row by row, what is stored is the classification of the row against the state that its
statement saw and the keys of the rows before. -/
def Classified (file : List (Db × Imports.ParsedRow)) (rows : List WorkforceImportRow) : Prop :=
  ∀ before e after, file = before ++ e :: after → ∃ id job seen,
    rows[before.length]? = some (importRow id job
      (classifier t { call := c, lower := lower, db := e.1, seen := seen } e.2).1) ∧
    ∀ k, k ∈ seen ↔ ∃ s ∈ before.filterMap (subjectOf t c lower), s.key = k

/-- The stored rows and the seen keys are those of the rows read so far. -/
structure Read (file : List (Db × Imports.ParsedRow)) (tally : Tally) : Prop where
  length : tally.rows.length = file.length
  stored : Classified t c lower file tally.rows
  seen : ∀ k, k ∈ tally.seen ↔ ∃ s ∈ file.filterMap (subjectOf t c lower), s.key = k
  flag : ∀ before e after, file = before ++ e :: after → ∀ s, subjectOf t c lower e = some s →
    ((∃ row, tally.rows[before.length]? = some row ∧ row.validationResult = .invalid ∧
      row.conflictType = some "duplicate_in_file") ↔ KeySeen Subject.key (before.filterMap (subjectOf t c lower)) s)

end File

section Loop

variable {t : ImportType} {c : Call} {lower : String → String} {file : List (Db × Imports.ParsedRow)} {tally : Tally}

theorem Tally.require_rows (r : Option Requirement) :
    (tally.require r).rows = tally.rows ∧ (tally.require r).seen = tally.seen := by
  unfold Tally.require
  split
  · exact ⟨rfl, rfl⟩
  · dsimp only
    split_ifs <;> exact ⟨rfl, rfl⟩

theorem Tally.add_rows (row : WorkforceImportRow) (seen : List String) :
    (tally.add t row seen).rows = tally.rows ++ [row] ∧ (tally.add t row seen).seen = seen := by
  have hcount (u : Tally) : (u.count row).rows = u.rows ∧ (u.count row).seen = u.seen := by
    unfold Tally.count
    cases row.validationResult <;> exact ⟨rfl, rfl⟩
  unfold Tally.add
  rw [(hcount _).1, (hcount _).2, (Tally.require_rows _).1, (Tally.require_rows _).2]
  exact ⟨rfl, rfl⟩

theorem last_or_before {before after : List (Db × Imports.ParsedRow)} {last e : Db × Imports.ParsedRow}
    (h : file ++ [last] = before ++ e :: after) :
    (file = before ∧ last = e) ∨ ∃ after', file = before ++ e :: after' := by
  rcases List.eq_nil_or_concat after with rfl | ⟨after', x, rfl⟩
  · obtain ⟨rfl, hlast⟩ := List.append_inj' h rfl
    exact Or.inl ⟨rfl, (List.cons.inj hlast).1⟩
  · rw [List.concat_eq_append, ← List.cons_append, ← List.append_assoc] at h
    exact Or.inr ⟨after', (List.append_inj' h rfl).1⟩

theorem Read.lt (h : Read t c lower file tally) {before after : List (Db × Imports.ParsedRow)}
    {e : Db × Imports.ParsedRow} (he : file = before ++ e :: after) : before.length < tally.rows.length := by
  rw [h.length, he, List.length_append, List.length_cons]
  omega

/-- One more row. -/
theorem Read.add (h : Read t c lower file tally) (ht : Joins t) {id job : Uuid} {db : Db} {row : Imports.ParsedRow}
    {result : Classification × List String}
    (hresult : result = classifier t { call := c, lower := lower, db := db, seen := tally.seen } row) :
    Read t c lower (file ++ [(db, row)]) (tally.add t (importRow id job result.1) result.2) := by
  have htests : Tests tally.seen result (subjectOf t c lower (db, row)) := by
    rw [hresult]
    exact classifier_tests ht { call := c, lower := lower, db := db, seen := tally.seen } row
  refine ⟨?_, fun before e after he => ?_, fun k => ?_, fun before e after he s hs => ?_⟩
  · rw [(Tally.add_rows ..).1, List.length_append, List.length_append, h.length]
    rfl
  · rw [(Tally.add_rows ..).1]
    rcases last_or_before he with ⟨rfl, rfl⟩ | ⟨after', hbefore⟩
    · refine ⟨id, job, tally.seen, ?_, h.seen⟩
      rw [← h.length, List.getElem?_concat_length, hresult]
    · rw [List.getElem?_append_left (h.lt hbefore)]
      exact h.stored before e after' hbefore
  · rw [(Tally.add_rows ..).2, List.filterMap_append]
    cases hsub : subjectOf t c lower (db, row) with
    | none => rw [htests.skip hsub, List.filterMap_cons_none hsub, List.filterMap_nil, List.append_nil, h.seen]
    | some s =>
      rw [htests.next s hsub, List.filterMap_cons_some hsub, List.filterMap_nil, h.seen]
      simp only [List.mem_append, List.mem_singleton, or_and_right, exists_or, exists_eq_left]
  · rw [(Tally.add_rows ..).1]
    rcases last_or_before he with ⟨rfl, rfl⟩ | ⟨after', hbefore⟩
    · rw [← h.length, List.getElem?_concat_length]
      simp only [Option.some.injEq, exists_eq_left']
      exact (htests.flag s hs).trans (h.seen s.key)
    · rw [List.getElem?_append_left (h.lt hbefore)]
      exact h.flag before e after' hbefore s hs

/-- Reading on from the rows read so far; `dbs` are the states that the statements see. -/
theorem Read.foldlM (ht : Joins t) {job : WorkforceImportJob} (hjob : job.importType = t) :
    ∀ (rows : List Imports.ParsedRow) {file : List (Db × Imports.ParsedRow)} {tally : Tally},
      Read t c lower file tally →
        Writes (fun _ => True) (rows.foldlM (parseRow c lower job) tally) fun tally' =>
          ∃ dbs : List Db, dbs.length = rows.length ∧ Read t c lower (file ++ dbs.zip rows) tally' := by
  intro rows
  induction rows with
  | nil =>
    intro file tally h
    exact ⟨[], rfl, by simpa using h⟩
  | cons row rows ih =>
    intro file tally h
    rw [List.foldlM_cons, writes_bind, parseRow, writes_bind, writes_view]
    intro db
    dsimp only
    rw [writes_pure, hjob]
    refine (ih (h.add ht rfl)).weaken ?_
    rintro tally' ⟨dbs, hlen, hread⟩
    refine ⟨db :: dbs, by rw [List.length_cons, List.length_cons, hlen], ?_⟩
    rwa [List.zip_cons_cons, ← List.singleton_append, ← List.append_assoc]

theorem read_nil : Read t c lower [] {} where
  length := rfl
  stored before e after he := absurd he (by simp)
  seen k := by simp
  flag before e after he := absurd he (by simp)

/-- The flags are right exactly when no two rows about different things share a key. -/
theorem Read.flagsDuplicates_iff (h : Read t c lower file tally) :
    FlagsDuplicates t c lower file tally.rows ↔ SeparateKeys t c lower file := by
  unfold SeparateKeys
  rw [← marksRepeats_iff, marksRepeats_filterMap]
  constructor
  · intro hf before e after he s hs
    exact (h.flag before e after he s hs).symm.trans (hf before e after he s hs)
  · intro hm before e after he s hs
    exact (h.flag before e after he s hs).trans (hm before e after he s hs)

end Loop

/-! ## Keys -/

section Keys

theorem joined_toList (a b : String) : (a ++ ":" ++ b).toList = a.toList ++ ':' :: b.toList := by
  simp

theorem joined_right {a a' b b' : String} (hb : ':' ∉ b.toList) (hb' : ':' ∉ b'.toList)
    (h : a ++ ":" ++ b = a' ++ ":" ++ b') : a = a' ∧ b = b' := by
  have h := congrArg String.toList h
  rw [joined_toList, joined_toList] at h
  obtain ⟨ha, hb⟩ := joined_inj_right hb hb' h
  exact ⟨String.toList_inj.1 ha, String.toList_inj.1 hb⟩

theorem joined_left {a a' b b' : String} (ha : ':' ∉ a.toList) (ha' : ':' ∉ a'.toList)
    (h : a ++ ":" ++ b = a' ++ ":" ++ b') : a = a' ∧ b = b' := by
  have h := congrArg String.toList h
  rw [joined_toList, joined_toList] at h
  obtain ⟨ha, hb⟩ := joined_inj_left ha ha' h
  exact ⟨String.toList_inj.1 ha, String.toList_inj.1 hb⟩

theorem plain_idText (id : Option Uuid) : ':' ∉ (idText id).toList := by
  cases id with
  | none => decide
  | some n =>
    intro h
    have hdigit := Nat.isDigit_of_mem_toDigits (by decide : 0 < 10) le_rfl (Nat.toList_repr (n := n) ▸ h)
    exact absurd hdigit (by decide)

theorem idText_inj {id id' : Option Uuid} (h : idText id = idText id') : id = id' := by
  have hne (n : Uuid) : idText (some n) ≠ idText none := by
    intro h
    have hmem : 'N' ∈ (idText (some n)).toList := h ▸ (by decide : 'N' ∈ (idText none).toList)
    have hdigit := Nat.isDigit_of_mem_toDigits (by decide : 0 < 10) le_rfl (Nat.toList_repr (n := n) ▸ hmem)
    exact absurd hdigit (by decide)
  cases id with
  | none =>
    cases id' with
    | none => rfl
    | some n => exact absurd h.symm (hne n)
  | some m =>
    cases id' with
    | none => exact absurd h (hne m)
    | some n =>
      have hdigits : Nat.toDigits 10 m = Nat.toDigits 10 n := by
        rw [← Nat.toList_repr, ← Nat.toList_repr]
        exact congrArg String.toList h
      have hvalue := congrArg (fun ds => Nat.ofDigitChars 10 ds 0) hdigits
      simp only [Nat.ofDigitChars_toDigits (by decide : 1 < 10) le_rfl] at hvalue
      rw [hvalue]

/-- The roles and the scopes that a row may name have plain names of their own. -/
theorem roleOf_mem {code : String} {role : Role} (h : roleOf code = some role) :
    role ∈ [Role.manager, .teamLeader, .teamCaptain, .agent, .viewer] := List.mem_of_find?_eq_some h

theorem scopeTypeOf_mem {text : String} {scopeType : ScopeType} (h : scopeTypeOf text = some scopeType) :
    scopeType ∈ [ScopeType.installation, .organization, .team] := List.mem_of_find?_eq_some h

theorem plain_roleName : ∀ role ∈ [Role.manager, .teamLeader, .teamCaptain, .agent, .viewer],
    ':' ∉ (Workforce.roleName role).toList := by decide

theorem roleName_inj : ∀ role ∈ [Role.manager, .teamLeader, .teamCaptain, .agent, .viewer],
    ∀ role' ∈ [Role.manager, .teamLeader, .teamCaptain, .agent, .viewer],
      Workforce.roleName role = Workforce.roleName role' → role = role' := by decide

theorem plain_scopeTypeName : ∀ scopeType ∈ [ScopeType.installation, .organization, .team],
    ':' ∉ (Workforce.scopeTypeName scopeType).toList := by decide

theorem scopeTypeName_inj : ∀ scopeType ∈ [ScopeType.installation, .organization, .team],
    ∀ scopeType' ∈ [ScopeType.installation, .organization, .team],
      Workforce.scopeTypeName scopeType = Workforce.scopeTypeName scopeType' → scopeType = scopeType' := by decide

variable {c : Call} {lower : String → String} {file : List (Db × Imports.ParsedRow)}

/-- What a row of a role file is about. -/
theorem mem_grantSubject {e : Db × Imports.ParsedRow} {s : Subject}
    (h : subjectOf .roleAssignments c lower e = some s) :
    ∃ externalId, ∃ role ∈ [Role.manager, .teamLeader, .teamCaptain, .agent, .viewer],
      ∃ scopeType ∈ [ScopeType.installation, .organization, .team], ∃ scopeId,
        s = .grant externalId role scopeType scopeId := by
  unfold subjectOf subject grantSubject at h
  dsimp only at h
  split at h
  · split at h
    · rename_i role scopeType hrole hscope
      split at h
      · exact ⟨_, role, roleOf_mem hrole, scopeType, scopeTypeOf_mem hscope, _, (Option.some.inj h).symm⟩
      · cases h
    · cases h
  · cases h

/-- The parts of a role key, from the last one, cannot contain the separator. -/
theorem separateKeys_roleAssignments : SeparateKeys .roleAssignments c lower file := by
  intro s hs s' hs' hkey
  obtain ⟨e, -, he⟩ := List.mem_filterMap.1 hs
  obtain ⟨e', -, he'⟩ := List.mem_filterMap.1 hs'
  obtain ⟨externalId, role, hrole, scopeType, hscope, scopeId, rfl⟩ := mem_grantSubject he
  obtain ⟨externalId', role', hrole', scopeType', hscope', scopeId', rfl⟩ := mem_grantSubject he'
  simp only [Subject.key] at hkey
  obtain ⟨hkey, hid⟩ := joined_right (plain_idText _) (plain_idText _) hkey
  obtain ⟨hkey, hname⟩ := joined_right (plain_scopeTypeName _ hscope) (plain_scopeTypeName _ hscope') hkey
  obtain ⟨rfl, hname'⟩ := joined_right (plain_roleName _ hrole) (plain_roleName _ hrole') hkey
  rw [idText_inj hid, scopeTypeName_inj _ hscope _ hscope' hname, roleName_inj _ hrole _ hrole' hname']

/-- The person of a row. -/
def Subject.externalId : Subject → String
  | .membership externalId _ => externalId
  | .grant externalId _ _ _ => externalId
  | .campaign externalId _ _ => externalId

theorem mem_membershipSubject {e : Db × Imports.ParsedRow} {s : Subject}
    (h : subjectOf .teamMemberships c lower e = some s) : ∃ externalId teamCode, s = .membership externalId teamCode := by
  unfold subjectOf subject membershipSubject at h
  dsimp only at h
  split at h
  · exact ⟨_, _, (Option.some.inj h).symm⟩
  · cases h

theorem mem_campaignSubject {e : Db × Imports.ParsedRow} {s : Subject}
    (h : subjectOf .campaignUserAssignments c lower e = some s) :
    ∃ externalId campaignCode, ∃ action ∈ ["assign", "end"], s = .campaign externalId campaignCode action := by
  unfold subjectOf subject campaignSubject at h
  dsimp only at h
  split at h
  · rename_i hchecks
    exact ⟨_, _, _, hchecks.2.1, (Option.some.inj h).symm⟩
  · cases h

theorem plain_action : ∀ action ∈ ["assign", "end"], ':' ∉ action.toList := by decide

/-- Keys are separate where no person's identifier contains the separator. -/
theorem separateKeys_of_plain {t : ImportType} (ht : Joins t)
    (h : ∀ s ∈ file.filterMap (subjectOf t c lower), ':' ∉ s.externalId.toList) : SeparateKeys t c lower file := by
  rcases ht with rfl | rfl | rfl
  · intro s hs s' hs' hkey
    have hplain := h s hs
    have hplain' := h s' hs'
    obtain ⟨e, -, he⟩ := List.mem_filterMap.1 hs
    obtain ⟨e', -, he'⟩ := List.mem_filterMap.1 hs'
    obtain ⟨externalId, teamCode, rfl⟩ := mem_membershipSubject he
    obtain ⟨externalId', teamCode', rfl⟩ := mem_membershipSubject he'
    simp only [Subject.key, Subject.externalId] at hkey hplain hplain'
    obtain ⟨rfl, rfl⟩ := joined_left hplain hplain' hkey
    rfl
  · exact separateKeys_roleAssignments
  · intro s hs s' hs' hkey
    have hplain := h s hs
    have hplain' := h s' hs'
    obtain ⟨e, -, he⟩ := List.mem_filterMap.1 hs
    obtain ⟨e', -, he'⟩ := List.mem_filterMap.1 hs'
    obtain ⟨externalId, campaignCode, action, haction, rfl⟩ := mem_campaignSubject he
    obtain ⟨externalId', campaignCode', action', haction', rfl⟩ := mem_campaignSubject he'
    simp only [Subject.key, Subject.externalId] at hkey hplain hplain'
    obtain ⟨hrest, rfl⟩ := joined_right (plain_action _ haction) (plain_action _ haction') hkey
    obtain ⟨rfl, rfl⟩ := joined_left hplain hplain' hrest
    rfl

end Keys

/-- Every parse of a file of memberships, roles or campaign assignments stores the rows
classified against the states that its statements saw, and flags exactly the duplicates if and
only if no two rows about different things have the same joined text. Role files never have. -/
theorem parse_flags_duplicates {c : Call} {lower : String → String} {job : WorkforceImportJob}
    (ht : Joins job.importType) (rows : List Imports.ParsedRow) :
    Writes (fun _ => True) (rows.foldlM (parseRow c lower job) {}) fun tally =>
      ∃ dbs : List Db, dbs.length = rows.length ∧ tally.rows.length = rows.length ∧
        Classified job.importType c lower (dbs.zip rows) tally.rows ∧
        (FlagsDuplicates job.importType c lower (dbs.zip rows) tally.rows ↔
          SeparateKeys job.importType c lower (dbs.zip rows)) ∧
        (job.importType = .roleAssignments → SeparateKeys job.importType c lower (dbs.zip rows)) := by
  refine (Read.foldlM ht rfl rows read_nil).weaken ?_
  rintro tally ⟨dbs, hlen, hread⟩
  rw [List.nil_append] at hread
  refine ⟨dbs, hlen, ?_, hread.stored, hread.flagsDuplicates_iff, fun hrole => hrole ▸ separateKeys_roleAssignments⟩
  rw [hread.length, List.length_zip, hlen, min_self]

/-! Two people and two teams: `a` joins team `b:c`, and `a:b` joins team `c`. Both rows are
joined to `a:b:c`, and the second one is rejected as a repetition of the first. -/

def membershipRow (rowNumber : ℕ) (externalId teamCode : String) : Imports.ParsedRow where
  rowNumber := rowNumber
  values := [("action", "add"), ("external_workforce_id", externalId), ("team_code", teamCode)]

def twoTeams : Db where
  users := [{ id := 1, workforceId := "a" }, { id := 2, workforceId := "a:b" }]
  teams := [{ id := 3, organizationId := 9, externalCode := "b:c" }, { id := 4, organizationId := 9, externalCode := "c" }]

def membershipJob : WorkforceImportJob := { id := 5, importType := .teamMemberships, uploaderId := 6 }

def steady : Call where
  utcnow _ := 0
  uuid4 n := 100 + n

def twoRows : List Imports.ParsedRow := [membershipRow 1 "a" "b:c", membershipRow 2 "a:b" "c"]

def twoPeople : Except Err Tally × Db :=
  Prog.exec (twoRows.foldlM (parseRow steady id membershipJob) {}) twoTeams

theorem twoPeople_flags :
    (twoPeople.1.toOption.map fun tally => tally.rows.map fun row => (row.validationResult, row.conflictType)) =
        some [(.valid, none), (.invalid, some "duplicate_in_file")] ∧
      subjectOf .teamMemberships steady id (twoTeams, membershipRow 1 "a" "b:c") = some (.membership "a" "b:c") ∧
      subjectOf .teamMemberships steady id (twoTeams, membershipRow 2 "a:b" "c") = some (.membership "a:b" "c") := by
  decide +kernel

theorem false_duplicate : ∃ tally, twoPeople.1 = .ok tally ∧
    ¬FlagsDuplicates .teamMemberships steady id (twoRows.map fun row => (twoTeams, row)) tally.rows := by
  obtain ⟨hflags, hfirst, hsecond⟩ := twoPeople_flags
  cases hrun : twoPeople.1 with
  | error e =>
    rw [hrun] at hflags
    cases hflags
  | ok tally =>
    rw [hrun] at hflags
    refine ⟨tally, rfl, fun h => ?_⟩
    have hrows : tally.rows.map (fun row => (row.validationResult, row.conflictType)) =
        [(.valid, none), (.invalid, some "duplicate_in_file")] := Option.some.inj hflags
    have hrow : (tally.rows[1]?).map (fun row => (row.validationResult, row.conflictType)) =
        some (.invalid, some "duplicate_in_file") := by
      rw [← List.getElem?_map, hrows]
      rfl
    obtain ⟨row, hget, hflag⟩ := Option.map_eq_some_iff.1 hrow
    obtain ⟨hinvalid, hconflict⟩ := Prod.mk.inj hflag
    have hmem := (h [(twoTeams, membershipRow 1 "a" "b:c")] _ [] rfl _ hsecond).1 ⟨row, hget, hinvalid, hconflict⟩
    rw [List.filterMap_cons_some hfirst, List.filterMap_nil, List.mem_singleton] at hmem
    exact absurd hmem (by decide)

/-- The two rows. -/
theorem two_rows_parsed :
    Writes (fun _ => True) (twoRows.foldlM (parseRow steady id membershipJob) {}) fun tally =>
      ∃ dbs : List Db, dbs.length = 2 ∧ tally.rows.length = 2 ∧
        Classified .teamMemberships steady id (dbs.zip twoRows) tally.rows ∧
        (FlagsDuplicates .teamMemberships steady id (dbs.zip twoRows) tally.rows ↔
          SeparateKeys .teamMemberships steady id (dbs.zip twoRows)) ∧
        (ImportType.teamMemberships = .roleAssignments →
          SeparateKeys .teamMemberships steady id (dbs.zip twoRows)) :=
  parse_flags_duplicates (Or.inl rfl) twoRows

end OmniDB.WorkforceImports
