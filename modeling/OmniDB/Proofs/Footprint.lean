import Mathlib.Data.Nat.Digits.Lemmas
import OmniDB.Proofs.BulkAuthority
import OmniDB.Proofs.ParsedJobs
import OmniDB.Proofs.WorkforceRuns

/-! The stored footprint of an import: what `parse_job` writes down about its rows, and what
`can_access_job` reads back. -/

namespace OmniDB.WorkforceImports

open Tx
open Tx.Prog

/-! ## Identifiers as text -/

theorem hexValue_digitChar : ∀ d < 16, hexValue (Nat.digitChar d) = some d ∧ Nat.digitChar d ≠ '-' := by decide

theorem uuidHex_values {id : Uuid} {ch : Char} (h : ch ∈ uuidHex id) : ∃ d < 16, ch = Nat.digitChar d := by
  rcases List.mem_append.1 h with h | h
  · exact ⟨0, by decide, List.eq_of_mem_replicate h⟩
  · obtain ⟨d, hd, rfl⟩ := List.mem_map.1 (List.mem_reverse.1 h)
    exact ⟨d, Nat.digits_lt_base (by decide) hd, rfl⟩

theorem mapM_hexValue (ds : List ℕ) (h : ∀ d ∈ ds, d < 16) :
    (ds.map Nat.digitChar).mapM hexValue = some ds := by
  induction ds with
  | nil => rfl
  | cons d ds ih =>
    rw [List.map_cons, List.mapM_cons, (hexValue_digitChar d (h d List.mem_cons_self)).1,
      ih fun d hd => h d (List.mem_cons_of_mem _ hd)]
    rfl

/-- The hyphens come out again. -/
theorem hex_of_text (id : Uuid) : (uuidText id).toList.filter (· ≠ '-') = uuidHex id := by
  have hkeep (cs : List Char) (h : cs.Sublist (uuidHex id)) : cs.filter (· ≠ '-') = cs := by
    refine List.filter_eq_self.2 fun ch hch => ?_
    obtain ⟨d, hd, rfl⟩ := uuidHex_values (h.subset hch)
    exact decide_eq_true (hexValue_digitChar d hd).2
  have hdash (cs : List Char) : ('-' :: cs).filter (· ≠ '-') = cs.filter (· ≠ '-') := rfl
  have hjoin (n : ℕ) : ((uuidHex id).drop n).take 4 ++ (uuidHex id).drop (n + 4) = (uuidHex id).drop n := by
    rw [← List.drop_drop, List.take_append_drop]
  unfold uuidText
  dsimp only
  rw [String.toList_ofList, List.filter_append, hdash, List.filter_append, hdash, List.filter_append, hdash,
    List.filter_append, hdash, hkeep _ (List.take_sublist ..), hkeep _ (List.drop_sublist ..),
    hkeep _ ((List.take_sublist ..).trans (List.drop_sublist ..)),
    hkeep _ ((List.take_sublist ..).trans (List.drop_sublist ..)),
    hkeep _ ((List.take_sublist ..).trans (List.drop_sublist ..)), hjoin 16, hjoin 12, hjoin 8,
    List.take_append_drop]

theorem uuidOf_uuidText (id : Uuid) : uuidOf (uuidText id) = some id := by
  unfold uuidOf
  dsimp only
  rw [hex_of_text]
  have hlen : ¬(uuidHex id).length < 32 := by
    simp only [uuidHex, List.length_append, List.length_replicate]
    omega
  -- the digits of the identifier, with zeros in front
  have hds : uuidHex id = (List.replicate (32 - (Nat.digits 16 id).length) 0 ++
      (Nat.digits 16 id).reverse).map Nat.digitChar := by
    simp [uuidHex, Nat.digitChar]
  rw [if_neg hlen, hds, mapM_hexValue]
  · simp [Nat.ofDigits_digits]
  · intro d hd
    rcases List.mem_append.1 hd with hd | hd
    · rw [List.eq_of_mem_replicate hd]
      decide
    · exact Nat.digits_lt_base (by decide) (List.mem_reverse.1 hd)

/-! ## Requirements as stored -/

/-- The scope type of the requirement has a name of its own. -/
def Requirement.Named : Requirement → Prop
  | .scope _ scopeType _ => scopeTypeText (Workforce.scopeTypeName scopeType) = scopeType
  | _ => True

theorem capabilityOf_capabilityName (cap : Capability) :
    Workforce.capabilityOf (Workforce.capabilityName cap) = some cap := by
  cases cap <;> decide +kernel

theorem deserialize_serialize {r : Requirement} (h : Requirement.Named r) :
    deserializeRequirement (serializeRequirement r) = some r := by
  cases r with
  | deny => rfl
  | user target => simp [serializeRequirement, deserializeRequirement, uuidOf_uuidText]
  | campaign campaign => simp [serializeRequirement, deserializeRequirement, uuidOf_uuidText]
  | scope cap scopeType scopeId =>
    have ht : scopeTypeText (Workforce.scopeTypeName scopeType) = scopeType := h
    cases scopeId with
    | none => simp [serializeRequirement, deserializeRequirement, capabilityOf_capabilityName, ht]
    | some id => simp [serializeRequirement, deserializeRequirement, capabilityOf_capabilityName, ht, uuidOf_uuidText]

/-- What was stored is read back. -/
theorem storedRequirements_serialize {requirements : List Requirement} {overCap : Bool}
    (h : ∀ r ∈ requirements, Requirement.Named r) :
    storedRequirements ⟨overCap, requirements.map serializeRequirement⟩ = .ok (requirements.map some) := by
  unfold storedRequirements
  dsimp only
  induction requirements with
  | nil => rfl
  | cons r rs ih =>
    rw [List.map_cons, List.mapM_cons, deserialize_serialize (h r List.mem_cons_self),
      ih fun r hr => h r (List.mem_cons_of_mem _ hr)]
    rfl

/-! ## The requirements of a file -/

/-- The distinct requirements of the rows. -/
def distinctRequirements (t : ImportType) (rows : List WorkforceImportRow) : List Requirement :=
  (rows.filterMap (rowRequirement t)).dedup

/-- What the parser has noted about the rows so far. -/
structure Noted (t : ImportType) (tally : Tally) : Prop where
  large : tally.overCap = true → requirementsCap < (distinctRequirements t tally.rows).length
  within : tally.overCap = false → tally.requirements.Nodup ∧
    ∀ r, r ∈ tally.requirements ↔ r ∈ tally.rows.filterMap (rowRequirement t)
  cap : tally.requirements.length ≤ requirementsCap

section Tally

variable {t : ImportType} {tally : Tally} {row : WorkforceImportRow} {seen : List String}

@[simp] theorem count_rows : (tally.count row).rows = tally.rows := by
  unfold Tally.count; cases row.validationResult <;> rfl

@[simp] theorem count_requirements : (tally.count row).requirements = tally.requirements := by
  unfold Tally.count; cases row.validationResult <;> rfl

@[simp] theorem count_overCap : (tally.count row).overCap = tally.overCap := by
  unfold Tally.count; cases row.validationResult <;> rfl

@[simp] theorem require_rows (r : Option Requirement) : (tally.require r).rows = tally.rows := by
  unfold Tally.require
  cases r with
  | none => rfl
  | some r => dsimp only; split_ifs <;> rfl

@[simp] theorem add_rows : (tally.add t row seen).rows = tally.rows ++ [row] := by
  simp [Tally.add]

theorem length_distinct_mono {rows more : List WorkforceImportRow} :
    (distinctRequirements t rows).length ≤ (distinctRequirements t (rows ++ more)).length := by
  refine (List.subperm_of_subset (List.nodup_dedup _) fun r hr => ?_).length_le
  simp only [distinctRequirements, List.mem_dedup, List.filterMap_append] at hr ⊢
  exact List.mem_append_left _ hr

/-- A list without repetition and with the same members has as many. -/
theorem length_distinct {rows : List WorkforceImportRow} {requirements : List Requirement}
    (hnodup : requirements.Nodup) (hmem : ∀ r, r ∈ requirements ↔ r ∈ rows.filterMap (rowRequirement t)) :
    (distinctRequirements t rows).length = requirements.length := by
  refine ((List.perm_ext_iff_of_nodup (List.nodup_dedup _) hnodup).2 fun r => ?_).length_eq
  rw [List.mem_dedup, hmem]

/-- The list with `r` noted in it. -/
def noteOnce (r : Requirement) (requirements : List Requirement) : List Requirement :=
  if requirements.contains r then requirements else requirements ++ [r]

theorem nodup_noteOnce {r : Requirement} {requirements : List Requirement} (h : requirements.Nodup) :
    (noteOnce r requirements).Nodup := by
  unfold noteOnce
  split_ifs with hc
  · exact h
  · refine List.nodup_append.2 ⟨h, List.nodup_singleton r, ?_⟩
    rintro q hq q' hq' rfl
    exact hc (List.contains_iff_mem.2 (List.mem_singleton.1 hq' ▸ hq))

theorem mem_noteOnce {r q : Requirement} {requirements : List Requirement} :
    q ∈ noteOnce r requirements ↔ q ∈ requirements ∨ q = r := by
  unfold noteOnce
  split_ifs with hc
  · exact ⟨Or.inl, fun h => h.elim id fun he => he ▸ List.contains_iff_mem.1 hc⟩
  · rw [List.mem_append, List.mem_singleton]

theorem require_some (r : Requirement) (ho : tally.overCap = false) : tally.require (some r) =
    if requirementsCap < (noteOnce r tally.requirements).length then
      { tally with overCap := true, requirements := [] }
    else { tally with requirements := noteOnce r tally.requirements } := by
  unfold Tally.require
  exact if_neg (by simp [ho])

theorem noted_init : Noted t {} := ⟨nofun, fun _ => ⟨List.nodup_nil, fun _ => Iff.rfl⟩, Nat.zero_le _⟩

/-- What happens to the notes does not depend on the rest of the tally. -/
theorem Noted.of_require {tally' : Tally} (h : Noted t tally)
    (hreq : tally'.requirements = tally.requirements) (hover : tally'.overCap = tally.overCap)
    (hrows : tally'.rows = tally.rows ++ [row]) : Noted t (tally'.require (rowRequirement t row)) := by
  have hkeep {q : Tally} (hq : q.requirements = tally.requirements) (ho : q.overCap = true)
      (hr : q.rows = tally.rows ++ [row]) (hwas : tally.overCap = true) : Noted t q := by
    refine ⟨fun _ => ?_, fun hno => absurd ho (by simp [hno]), hq ▸ h.cap⟩
    rw [hr]
    exact lt_of_lt_of_le (h.large hwas) length_distinct_mono
  cases ho : tally.overCap with
  | true =>
    -- nothing more is noted
    have hsame : tally'.require (rowRequirement t row) = tally' := by
      unfold Tally.require
      cases rowRequirement t row with
      | none => rfl
      | some r => exact if_pos (hover.trans ho)
    rw [hsame]
    exact hkeep hreq (hover.trans ho) hrows ho
  | false =>
    obtain ⟨hnodup, hmem⟩ := h.within ho
    cases hr : rowRequirement t row with
    | none =>
      refine ⟨fun hyes => absurd (hover.trans ho) (by simp [show tally'.overCap = true from hyes]), fun _ => ?_,
        (congrArg List.length hreq).trans_le h.cap⟩
      refine ⟨hreq ▸ hnodup, fun q => ?_⟩
      change q ∈ tally'.requirements ↔ q ∈ tally'.rows.filterMap _
      rw [hreq, hmem, hrows]
      simp [hr]
    | some r =>
      have hmem' (q : Requirement) : q ∈ noteOnce r tally.requirements ↔
          q ∈ (tally.rows ++ [row]).filterMap (rowRequirement t) := by
        rw [mem_noteOnce, hmem]
        simp [hr]
      have hnodup' := nodup_noteOnce (r := r) hnodup
      rw [require_some r (hover.trans ho), hreq]
      split_ifs with hcap
      · refine ⟨fun _ => ?_, nofun, Nat.zero_le _⟩
        change _ < (distinctRequirements t tally'.rows).length
        rw [hrows, length_distinct hnodup' hmem']
        exact hcap
      · refine ⟨fun hyes => absurd (hover.trans ho) (by simp [show tally'.overCap = true from hyes]),
          fun _ => ⟨hnodup', fun q => ?_⟩, not_lt.1 hcap⟩
        change _ ↔ q ∈ tally'.rows.filterMap _
        rw [hrows, hmem']

theorem Noted.count (h : Noted t tally) : Noted t (tally.count row) :=
  ⟨by simpa using h.large, by simpa using h.within, by simpa using h.cap⟩

/-- The parser notes the requirement of each row once, until there are too many. -/
theorem Noted.add (h : Noted t tally) : Noted t (tally.add t row seen) := by
  have hstep : Noted t (({ tally with
      rows := tally.rows ++ [row], seen := seen, total := tally.total + 1 } : Tally).require
        (rowRequirement t row)) := h.of_require rfl rfl rfl
  exact hstep.count

theorem add_warning (t : ImportType) (tally : Tally) (seen : List String) {row : WorkforceImportRow}
    (h : row.validationResult = .warning) :
    (tally.add t row seen).seen = seen ∧ (tally.add t row seen).total = tally.total + 1 ∧
      (tally.add t row seen).invalid = tally.invalid ∧ (tally.add t row seen).highRisk = tally.highRisk := by
  have hrequire (tally : Tally) (r : Option Requirement) : (tally.require r).seen = tally.seen ∧
      (tally.require r).total = tally.total ∧ (tally.require r).invalid = tally.invalid ∧
      (tally.require r).highRisk = tally.highRisk := by
    unfold Tally.require
    cases r with
    | none => exact ⟨rfl, rfl, rfl, rfl⟩
    | some r => dsimp only; split_ifs <;> exact ⟨rfl, rfl, rfl, rfl⟩
  unfold Tally.add Tally.count
  rw [h]
  dsimp only
  rw [if_neg (by simp)]
  exact hrequire _ _

end Tally

/-! ## What a successful parse leaves -/

@[simp] theorem runs_setWorkforceJob {id : Uuid} {f : WorkforceImportJob → WorkforceImportJob} {s s' : Db} {u : Unit} :
    (setWorkforceJob id f).Runs s u s' ↔ s' = { s with workforceJobs := Table.modify s.workforceJobs id f } := by
  simp [setWorkforceJob, runs_bind]

@[simp] theorem runs_setWorkforceRow {id : Uuid} {f : WorkforceImportRow → WorkforceImportRow} {s s' : Db} {u : Unit} :
    (setWorkforceRow id f).Runs s u s' ↔ s' = { s with workforceRows := Table.modify s.workforceRows id f } := by
  simp [setWorkforceRow]

@[simp] theorem runs_addWorkforceRows {rows : List WorkforceImportRow} {s s' : Db} {u : Unit} :
    (addWorkforceRows rows).Runs s u s' ↔ s' = { s with workforceRows := s.workforceRows ++ rows } := by
  simp [addWorkforceRows]

section Parse

variable {c : Call} {lower : String → String} {file : Imports.SourceFile} {id : Uuid} {db db' : Db} {u : Unit}

/-- What the parser makes of the next row, with `db` before it. -/
def parseRowIn (c : Call) (lower : String → String) (job : WorkforceImportJob) (db : Db) (t : Tally)
    (row : Imports.ParsedRow) : Tally :=
  let r := classifier job.importType { call := c, lower := lower, db := db, seen := t.seen } row
  t.add job.importType (importRow (c.uuid4 t.total) job.id r.1) r.2

def tallyOf (c : Call) (lower : String → String) (job : WorkforceImportJob) (db : Db)
    (rows : List Imports.ParsedRow) : Tally := rows.foldl (parseRowIn c lower job db) {}

theorem runs_parseRow {job : WorkforceImportJob} {t t' : Tally} {row : Imports.ParsedRow} :
    (parseRow c lower job t row).Runs db t' db' ↔ t' = parseRowIn c lower job db t row ∧ db' = db := by
  unfold parseRow
  simp only [runs_bind, runs_view, runs_pure, and_assoc, exists_and_left, exists_eq_left]
  rfl

def parsing (job : WorkforceImportJob) : WorkforceImportJob := { job with state := .parsing }

/-- The parse of the job succeeded. -/
structure Parses (c : Call) (lower : String → String) (file : Imports.SourceFile) (db : Db)
    (job : WorkforceImportJob) (db' : Db) (tally : Tally) : Prop where
  quarantined : job.state = .quarantined
  rows_read : tally = tallyOf c lower job { db with
    workforceJobs := Table.modify db.workforceJobs job.id parsing } file.rows
  nonempty : tally.total ≠ 0
  jobs : db'.workforceJobs = Table.modify db.workforceJobs job.id fun j => parsed tally (parsing j)
  rows : db'.workforceRows = db.workforceRows ++ tally.rows

theorem failParse_state {job job' : WorkforceImportJob} {error : String}
    (h : (failParse job error).Runs db u db') (hj : Table.find db'.workforceJobs job.id = some job') :
    job'.state = .failed := by
  unfold failParse at h
  simp only [runs_bind, runs_setWorkforceJob, runs_recordAudit, exists_eq_left, exists_const] at h
  subst h
  rcases Table.mem_modify.1 (Table.mem_of_find hj) with ⟨j, -, -, rfl⟩ | ⟨-, hne⟩
  · rfl
  · exact absurd (Table.key_of_find hj) hne

/-- A successful parse ends with the notifications. -/
theorem parseJob_notifies {job job' : WorkforceImportJob} (h : (parseJob c lower file id).Runs db u db')
    (hjob : Table.find db.workforceJobs id = some job) (hq : job.state = .quarantined)
    (hjob' : Table.find db'.workforceJobs id = some job') (hstate : job'.state = .parsed) :
    ∃ tally x, Parses c lower file db job x tally ∧ x.notifications = db.notifications ∧
      (notifyPendingApprovers c (parsed tally job)).Runs x u db' := by
  obtain rfl : job.id = id := Table.key_of_find hjob
  have hfail {x : Db} {error : String} (hf : (failParse job error).Runs x u db') : False := by
    rw [failParse_state hf hjob'] at hstate
    cases hstate
  unfold parseJob at h
  rw [runs_bind] at h
  obtain ⟨o, y, ho, h⟩ := h
  obtain ⟨ho, rfl⟩ := runs_selectForUpdate.1 ho
  rw [hjob, Option.filter_some, if_pos rfl] at ho
  subst ho
  dsimp only at h
  rw [if_pos hq] at h
  simp only [runs_bind, runs_setWorkforceJob, exists_eq_left, exists_const] at h
  split_ifs at h
  · exact (hfail h).elim
  · exact (hfail h).elim
  · rw [runs_bind] at h
    obtain ⟨tally, z, hz, h⟩ := h
    obtain ⟨htally, rfl⟩ := (runs_foldlM_read (fun _ _ _ _ => runs_parseRow) file.rows).1 hz
    cases hfile : file.failure with
    | some e =>
      rw [hfile] at h
      simp only [runs_bind, runs_addWorkforceRows, exists_eq_left, exists_const] at h
      exact (hfail h).elim
    | none =>
      rw [hfile] at h
      simp only [runs_bind, runs_addWorkforceRows, exists_eq_left, exists_const] at h
      split_ifs at h with hzero
      · exact (hfail h).elim
      · simp only [runs_bind, runs_setWorkforceJob, runs_recordAudit, exists_eq_left, exists_const] at h
        refine ⟨tally, _, ⟨hq, htally, hzero, ?_, ?_⟩, ?_, h⟩
        · exact Table.modify_modify (f := parsing) fun _ h => h
        · rfl
        · rfl

theorem parseJob_runs {job job' : WorkforceImportJob} (h : (parseJob c lower file id).Runs db u db')
    (hjob : Table.find db.workforceJobs id = some job) (hq : job.state = .quarantined)
    (hjob' : Table.find db'.workforceJobs id = some job') (hstate : job'.state = .parsed) :
    ∃ tally, Parses c lower file db job db' tally := by
  obtain ⟨tally, x, hp, -, hnotify⟩ := parseJob_notifies h hjob hq hjob' hstate
  have himports := Leaves.runs (π := Db.imports) hnotify
  exact ⟨tally, { hp with
    jobs := (congrArg ImportTables.jobs himports).trans hp.jobs
    rows := (congrArg ImportTables.rows himports).trans hp.rows }⟩

/-! ### The rows of the tally -/

theorem scopeType_named {text : String} {scopeType : ScopeType} (h : scopeTypeOf text = some scopeType) :
    scopeTypeText (Workforce.scopeTypeName scopeType) = scopeType := by
  have hm := List.mem_of_find?_eq_some h
  simp only [List.mem_cons, List.not_mem_nil, or_false] at hm
  rcases hm with rfl | rfl | rfl <;> decide +kernel

/-- The values of a role row, when its cells could be read. -/
theorem classifyRole_values {x : Context} {row : Imports.ParsedRow} :
    (classifyRoleAssignmentRow x row).1.parsedValues = none ∨ ∃ role scopeType scopeId,
      roleOf (x.lower (clean row "role_code")) = some role ∧
      scopeTypeOf (x.lower (clean row "scope_type")) = some scopeType ∧
      (classifyRoleAssignmentRow x row).1.parsedValues = some {
        roleCode := some role, scopeType := some scopeType, scopeId := scopeId
        reasonCode := some (clean row "reason_code") } := by
  unfold classifyRoleAssignmentRow
  dsimp only
  by_cases hid : (!validWorkforceId (clean row "external_workforce_id")) = true
  · rw [if_pos hid]
    exact Or.inl rfl
  rw [if_neg hid]
  by_cases haction : x.lower (clean row "action") ∉ ["assign", "end"]
  · rw [if_pos haction]
    exact Or.inl rfl
  rw [if_neg haction]
  cases hrole : roleOf (x.lower (clean row "role_code")) with
  | none => exact Or.inl rfl
  | some role =>
    cases hscope : scopeTypeOf (x.lower (clean row "scope_type")) with
    | none => exact Or.inl rfl
    | some scopeType =>
      dsimp only
      by_cases hreason : (!validReasonCode (clean row "reason_code")) = true
      · rw [if_pos hreason]
        exact Or.inl rfl
      rw [if_neg hreason]
      cases rowScope x row scopeType with
      | error e => exact Or.inl rfl
      | ok scopeId =>
        dsimp only
        by_cases hkey : x.seen.contains (clean row "external_workforce_id" ++ ":" ++ Workforce.roleName role ++
            ":" ++ Workforce.scopeTypeName scopeType ++ ":" ++ idText scopeId) = true
        · rw [if_pos hkey]
          exact Or.inl rfl
        rw [if_neg hkey]
        cases lookupUserId x.db (clean row "external_workforce_id") with
        | none => exact Or.inl rfl
        | some user =>
          dsimp only
          split_ifs <;> first
            | exact Or.inl rfl
            | exact Or.inr ⟨role, scopeType, scopeId, rfl, rfl, rfl⟩

theorem named_of_row {t : ImportType} {row : WorkforceImportRow} {r : Requirement}
    (hrole : t = .roleAssignments → ∀ values scopeType, row.parsedValues = some values →
      values.scopeType = some scopeType → scopeTypeText (Workforce.scopeTypeName scopeType) = scopeType)
    (h : rowRequirement t row = some r) : Requirement.Named r := by
  cases r with
  | deny | user | campaign => trivial
  | scope cap scopeType scopeId =>
    unfold rowRequirement at h
    cases t with
    | users =>
      dsimp only at h
      by_cases hcreate : row.action = some "create"
      · rw [if_pos hcreate] at h
        split_ifs at h
        cases h
      · rw [if_neg hcreate] at h
        split_ifs at h
        · split at h <;> cases h
        · cases h
    | explicitDeactivations | reportingAssignments | campaignUserAssignments =>
      dsimp only at h
      split at h <;> cases h
    | teamMemberships =>
      dsimp only at h
      split at h
      · obtain ⟨-, rfl, -⟩ := Requirement.scope.inj (Option.some.inj h)
        exact (by decide +kernel : scopeTypeText (Workforce.scopeTypeName .team) = .team)
      · cases h
    | roleAssignments =>
      dsimp only at h
      split at h
      · next hscope =>
        obtain ⟨-, rfl, -⟩ := Requirement.scope.inj (Option.some.inj h)
        cases hv : row.parsedValues with
        | none =>
          rw [hv] at hscope
          cases hscope
        | some values =>
          rw [hv] at hscope
          exact hrole rfl values _ hv hscope
      · cases h

theorem classifyRole_named {x : Context} {row : Imports.ParsedRow} {values : ParsedValues} {scopeType : ScopeType}
    (h : (classifyRoleAssignmentRow x row).1.parsedValues = some values) (ht : values.scopeType = some scopeType) :
    scopeTypeText (Workforce.scopeTypeName scopeType) = scopeType := by
  rcases classifyRole_values with hnone | ⟨role, scopeType', scopeId, -, hs, hsome⟩
  · rw [hnone] at h
    cases h
  · rw [hsome] at h
    have he := Option.some.inj h
    rw [← he] at ht
    exact Option.some.inj ht ▸ scopeType_named hs

/-- The requirement of every row of a file can be stored. -/
theorem named_of_classifier {t : ImportType} {x : Context} {row : Imports.ParsedRow} {id job : Uuid} {r : Requirement}
    (h : rowRequirement t (importRow id job (classifier t x row).1) = some r) : Requirement.Named r := by
  refine named_of_row ?_ h
  rintro rfl values scopeType hvalues hscope
  dsimp only [importRow, classifier] at hvalues
  exact classifyRole_named hvalues hscope

/-- What the parser knows at the end of a file. -/
theorem tallyOf_spec (job : WorkforceImportJob) (db : Db) (rows : List Imports.ParsedRow) :
    let tally := tallyOf c lower job db rows
    Noted job.importType tally ∧ ∀ row ∈ tally.rows, row.importJobId = job.id ∧
      ∀ r, rowRequirement job.importType row = some r → Requirement.Named r := by
  unfold tallyOf
  refine List.foldlRecOn (motive := fun tally : Tally => Noted job.importType tally ∧
    ∀ row ∈ tally.rows, row.importJobId = job.id ∧
      ∀ r, rowRequirement job.importType row = some r → Requirement.Named r) rows _ ?_ ?_
  · exact ⟨noted_init, fun row h => by cases h⟩
  · rintro tally ⟨hnoted, hrows⟩ line -
    refine ⟨hnoted.add, fun row hrow => ?_⟩
    unfold parseRowIn at hrow
    rw [add_rows, List.mem_append, List.mem_singleton] at hrow
    rcases hrow with hrow | rfl
    · exact hrows row hrow
    · exact ⟨rfl, fun r hr => named_of_classifier hr⟩

end Parse

/-! ## Reading the footprint -/

/-- The actor satisfies the requirement of the row, by the one-row checks. -/
def SatisfiesRow (db : Db) (now : Time) (actor : Uuid) (t : ImportType) (row : WorkforceImportRow) : Prop :=
  ∀ r, rowRequirement t row = some r → requirementMet db now actor r = true

section Access

variable {c : Call} {lower : String → String} {file : Imports.SourceFile} {id actor : Uuid} {now : Time}
  {before after db : Db} {job₀ job₁ job : WorkforceImportJob} {u : Unit} {tally : Tally}

theorem filterMap_asParsed {t : ImportType} {rows rows' : List WorkforceImportRow}
    (h : rows.map asParsed = rows'.map asParsed) :
    rows.filterMap (rowRequirement t) = rows'.filterMap (rowRequirement t) := by
  have hmap (rows : List WorkforceImportRow) :
      rows.filterMap (rowRequirement t) = (rows.map asParsed).filterMap (rowRequirement t) := by
    rw [List.filterMap_map]
    exact List.filterMap_congr fun row _ => rowRequirement_asParsed t row
  rw [hmap, h, ← hmap]

/-- The rows of a parsed job are those of its tally. -/
theorem Parses.jobRows (hp : Parses c lower file before job₀ after tally) (hnone : jobRows before job₀.id = []) :
    WorkforceImports.jobRows after job₀.id = tally.rows := by
  have hjob : ∀ row ∈ tally.rows, row.importJobId = job₀.id := by
    rw [hp.rows_read]
    exact fun row hrow => ((tallyOf_spec job₀ _ file.rows).2 row hrow).1
  unfold WorkforceImports.jobRows at hnone ⊢
  rw [hp.rows, List.filter_append, hnone, List.nil_append, List.filter_eq_self]
  exact fun row hrow => decide_eq_true (hjob row hrow)

theorem all_met {t : ImportType} {rows : List WorkforceImportRow} {requirements : List (Option Requirement)}
    (h : ∀ r, some r ∈ requirements ↔ r ∈ rows.filterMap (rowRequirement t)) :
    (requirements.all fun r => r.all (requirementMet db now actor)) = true ↔
      ∀ row ∈ rows, SatisfiesRow db now actor t row := by
  rw [List.all_eq_true]
  constructor
  · intro hall row hrow r hr
    exact hall (some r) ((h r).2 (List.mem_filterMap.2 ⟨row, hrow, hr⟩))
  · intro hall r hr
    cases r with
    | none => rfl
    | some r =>
      obtain ⟨row, hrow, he⟩ := List.mem_filterMap.1 ((h r).1 hr)
      exact hall row hrow r he

/-- Access by the stored requirements. -/
theorem access_stored {requirements : List Requirement} (hactor : actor ≠ job.uploaderId)
    (hfootprint : job.authorizationFootprint = some ⟨false, requirements.map serializeRequirement⟩)
    (hnamed : ∀ r ∈ requirements, Requirement.Named r) : canAccessJob db now actor job =
      .ok (authorityOverRequirements db now actor (requirements.map some)) := by
  unfold canAccessJob jobAccessRequirements
  rw [if_neg hactor, hfootprint]
  dsimp only
  rw [if_neg Bool.false_ne_true, storedRequirements_serialize hnamed]
  rfl

/-- Access by the rows, when the footprint was too large to store. -/
theorem access_rows {entries : List (List (Option String))} (hactor : actor ≠ job.uploaderId)
    (hfootprint : job.authorizationFootprint = some ⟨true, entries⟩) (hrows : jobRows db job.id ≠ []) :
    canAccessJob db now actor job = .ok (job.state = .parsed &&
      authorityOverRequirements db now actor ((jobRows db job.id).map (rowRequirement job.importType))) := by
  unfold canAccessJob jobAccessRequirements
  rw [if_neg hactor, hfootprint]
  dsimp only
  rw [if_pos rfl, if_neg hrows]
  by_cases hstate : job.state = .parsed
  · simp [hstate, Except.map]
  · simp [hstate, Except.map]

/-- The stored footprint decides like the rows, unless there were too many requirements to
store, the job is committed, and the actor has the authority. -/
theorem footprint_decides (hparse : (parseJob c lower file id).Runs before u after)
    (hbefore : Table.find before.workforceJobs id = some job₀) (hq : job₀.state = .quarantined)
    (hnone : jobRows before id = []) (hafter : Table.find after.workforceJobs id = some job₁)
    (hparsed : job₁.state = .parsed) (hkept : Kept after id db job)
    (hstate : job.state = .parsed ∨ job.state = .committed) (hteams : Table.Unique db.teams)
    (hcampaigns : Table.Unique db.campaigns) (hactor : actor ≠ job.uploaderId) (now : Time) :
    (canAccessJob db now actor job = .ok true ↔
        ∀ row ∈ jobRows db id, SatisfiesRow db now actor job.importType row) ↔
      (job.state = .parsed ∨ (distinctRequirements job.importType (jobRows db id)).length ≤ requirementsCap ∨
        ¬∀ row ∈ jobRows db id, SatisfiesRow db now actor job.importType row) := by
  obtain rfl : job₀.id = id := Table.key_of_find hbefore
  obtain ⟨tally, hp⟩ := parseJob_runs hparse hbefore hq hafter hparsed
  obtain ⟨hnoted, hnames⟩ : Noted job₀.importType tally ∧ ∀ row ∈ tally.rows, row.importJobId = job₀.id ∧
      ∀ r, rowRequirement job₀.importType row = some r → Requirement.Named r := by
    rw [hp.rows_read]
    exact tallyOf_spec job₀ _ file.rows
  obtain ⟨hfound, ⟨job₁', hjob₁, htype, huploader, hfootprint⟩, hsame⟩ := hkept
  obtain rfl : job₁' = parsed tally (parsing job₀) := by
    rw [hp.jobs, Table.find_modify_self (f := fun j => parsed tally (parsing j)) (fun _ h => h) hbefore] at hjob₁
    exact (Option.some.inj hjob₁).symm
  change job.importType = job₀.importType at htype
  have hreqs := filterMap_asParsed (t := job.importType) hsame
  rw [hp.jobRows hnone] at hreqs
  have hid : job.id = job₀.id := Table.key_of_find hfound
  rw [← htype] at hnoted hnames
  have hlen : (distinctRequirements job.importType (jobRows db job₀.id)).length =
      (distinctRequirements job.importType tally.rows).length := by
    unfold distinctRequirements
    rw [hreqs]
  cases hover : tally.overCap with
  | false =>
    obtain ⟨hnodup, hmem⟩ := hnoted.within hover
    have hnamed : ∀ r ∈ tally.requirements, Requirement.Named r := by
      intro r hr
      obtain ⟨row, hrow, he⟩ := List.mem_filterMap.1 ((hmem r).1 hr)
      exact (hnames row hrow).2 r he
    have hstored : job.authorizationFootprint = some ⟨false, tally.requirements.map serializeRequirement⟩ := by
      rw [hfootprint, ← hover]
      rfl
    have hall : (canAccessJob db now actor job = .ok true ↔
        ∀ row ∈ jobRows db job₀.id, SatisfiesRow db now actor job.importType row) := by
      rw [access_stored hactor hstored hnamed, authorityOverRequirements_eq hteams hcampaigns, Except.ok.injEq]
      refine all_met fun r => ?_
      rw [hreqs, ← hmem]
      simp
    refine iff_of_true hall (Or.inr (Or.inl ?_))
    rw [hlen, length_distinct hnodup hmem]
    exact hnoted.cap
  | true =>
    have hlarge := hnoted.large hover
    have hstored : job.authorizationFootprint = some ⟨true, tally.requirements.map serializeRequirement⟩ := by
      rw [hfootprint, ← hover]
      rfl
    have hsome : jobRows db job.id ≠ [] := by
      intro hnil
      rw [← hlen, ← hid, hnil] at hlarge
      exact Nat.not_lt_zero _ hlarge
    have hall : authorityOverRequirements db now actor
        ((jobRows db job.id).map (rowRequirement job.importType)) = true ↔
        ∀ row ∈ jobRows db job₀.id, SatisfiesRow db now actor job.importType row := by
      rw [authorityOverRequirements_eq hteams hcampaigns, ← hid]
      refine all_met fun r => ?_
      rw [List.mem_map, List.mem_filterMap]
    rw [access_rows hactor hstored hsome, Except.ok.injEq, Bool.and_eq_true, decide_eq_true_eq, hall, hlen]
    rcases hstate with hstate | hstate
    · simp [hstate]
    · have hnot : ¬(distinctRequirements job.importType tally.rows).length ≤ requirementsCap := not_le.2 hlarge
      simp [hstate, hnot]

end Access

/-- A job whose requirements were too many to store is closed once it is not parsed any more. -/
theorem access_large {db : Db} {now : Time} {actor : Uuid} {job : WorkforceImportJob}
    {entries : List (List (Option String))} (hactor : actor ≠ job.uploaderId)
    (hfootprint : job.authorizationFootprint = some ⟨true, entries⟩) (hstate : job.state ≠ .parsed) :
    canAccessJob db now actor job = .ok false := by
  unfold canAccessJob jobAccessRequirements
  rw [if_neg hactor, hfootprint]
  dsimp only
  rw [if_pos rfl, if_pos hstate]
  rfl

/-- No one is asked to approve a job without valid rows. -/
theorem notify_none {c : Call} {job : WorkforceImportJob} {db db' : Db} (hrisk : job.highRiskRows = 0)
    (hvalid : ∀ row ∈ db.workforceRows, row.validationResult ≠ .valid) (h : db' = db) :
    (notifyPendingApprovers c job).Runs db () db' := by
  have hrows : committableRows db job.id .routine = [] := by
    refine List.filter_eq_nil_iff.2 fun row hrow => ?_
    simp [hvalid row (List.mem_filter.1 hrow).1]
  have hcond : ¬(0 < job.highRiskRows ∨
      (!rowsAuthorized db (c.utcnow 0) job job.uploaderId .routine) = true) := by
    unfold rowsAuthorized
    rw [hrisk, hrows]
    simp [authorityOverRequirements, requirementsSatisfied]
  unfold notifyPendingApprovers
  rw [runs_bind]
  refine ⟨db, db, runs_view.2 ⟨rfl, rfl⟩, ?_⟩
  rw [if_neg hcond]
  exact runs_pure.2 ⟨rfl, h⟩

/-! ## A large file -/

namespace Demo

/-- The workforce id of the `n`-th user. -/
def nameOf (n : ℕ) : String := String.ofList ('w' :: (Nat.digits 10 n).map Nat.digitChar)

/-- A user who has left already. -/
def gone (n : ℕ) : User := { id := n, workforceId := nameOf n, active := false }

/-- The line of the file that deactivates the user. -/
def lineOf (n : ℕ) : Imports.ParsedRow where
  rowNumber := n + 1
  values := [("external_workforce_id", nameOf n), ("reason_code", "left")]

/-- A file of `n` lines. -/
def leavers (n : ℕ) : Imports.SourceFile where
  header := ["external_workforce_id", "reason_code"]
  rows := (List.range n).map lineOf

def upload : WorkforceImportJob where
  id := 100
  importType := .explicitDeactivations
  uploaderId := 200

/-- `n` users who have left, a manager, and the uploaded file. -/
def crowd (n : ℕ) : Db where
  users := (List.range n).map gone
  roleAssignments := [{
    id := 300, userId := 1000000, roleCode := .manager, scopeType := .installation, effectiveFrom := 0 }]
  workforceJobs := [upload]

def call : Call where
  utcnow _ := 5
  uuid4 n := n

section

variable {n k : ℕ} {db : Db}

theorem nameOf_values : ∀ ch ∈ (nameOf k).toList, isSpace ch = false := by
  intro ch hch
  rw [nameOf, String.toList_ofList] at hch
  rcases List.mem_cons.1 hch with rfl | hch
  · decide
  · obtain ⟨d, hd, rfl⟩ := List.mem_map.1 hch
    have hlt := Nat.digits_lt_base (by decide : 1 < 10) hd
    exact (by decide : ∀ d < 10, isSpace (Nat.digitChar d) = false) d hlt

theorem nameOf_injective (h : nameOf n = nameOf k) : n = k := by
  have hds := congrArg String.toList h
  rw [nameOf, nameOf, String.toList_ofList, String.toList_ofList, List.cons.injEq] at hds
  have hval (m : ℕ) : ((Nat.digits 10 m).map Nat.digitChar).mapM hexValue = some (Nat.digits 10 m) :=
    mapM_hexValue _ fun d hd => (Nat.digits_lt_base (by decide : 1 < 10) hd).trans (by decide)
  have hdigits := congrArg (List.mapM hexValue) hds.2
  rw [hval, hval, Option.some.injEq] at hdigits
  exact Nat.digits.injective 10 hdigits

theorem strip_of_values {text : String} (h : ∀ ch ∈ text.toList, isSpace ch = false) :
    Imports.strip text = text := by
  have hdrop {cs : List Char} (h : ∀ ch ∈ cs, isSpace ch = false) : cs.dropWhile isSpace = cs := by
    cases cs with
    | nil => rfl
    | cons ch cs => rw [List.dropWhile_cons, h ch List.mem_cons_self, if_neg Bool.false_ne_true]
  unfold Imports.strip
  rw [hdrop h, hdrop fun ch hch => h ch (List.mem_reverse.1 hch), List.reverse_reverse, String.ofList_toList]

theorem clean_nameOf : clean (lineOf k) "external_workforce_id" = nameOf k := by
  unfold clean
  rw [show Imports.lookup (lineOf k).values "external_workforce_id" = some (nameOf k) from rfl]
  rw [Option.getD_some, strip_of_values nameOf_values]
  unfold Imports.sanitizeText nameOf
  rw [String.toList_ofList]
  rfl

theorem clean_reason : clean (lineOf k) "reason_code" = "left" := by
  have : Imports.lookup (lineOf k).values "reason_code" = some "left" := rfl
  unfold clean
  rw [this]
  decide +kernel

theorem nameOf_valid (h : k < 10 ^ 9) : validWorkforceId (nameOf k) = true := by
  have hlen : (nameOf k).length ≤ 150 := by
    have := (Nat.digits_length_le_iff (by decide : 1 < 10) k).2 h
    rw [nameOf, String.length_ofList, List.length_cons, List.length_map]
    omega
  have hne : nameOf k ≠ "" := by
    intro h
    have := congrArg String.toList h
    rw [nameOf, String.toList_ofList] at this
    cases this
  have hspace : (nameOf k).toList.any isSpace = false := by
    rw [List.any_eq_false]
    exact fun ch hch => by simp [nameOf_values ch hch]
  simp [validWorkforceId, hlen, hne, hspace]

/-- The users of a crowd are found. -/
theorem lookup_gone (hdb : db.users = (List.range n).map gone) (hk : k < n) :
    lookupUserId db (nameOf k) = some k ∧ lookupUserActive db k = false := by
  have hmem : gone k ∈ db.users := by
    rw [hdb]
    exact List.mem_map.2 ⟨k, List.mem_range.2 hk, rfl⟩
  have hgone {u : User} (h : u ∈ db.users) : ∃ j, u = gone j := by
    rw [hdb] at h
    obtain ⟨j, -, rfl⟩ := List.mem_map.1 h
    exact ⟨j, rfl⟩
  constructor
  · unfold lookupUserId
    cases hfind : db.users.find? fun u => u.workforceId = nameOf k with
    | none => exact absurd (List.find?_eq_none.1 hfind _ hmem) (by simp [gone])
    | some u =>
      obtain ⟨j, rfl⟩ := hgone (List.mem_of_find?_eq_some hfind)
      have hname : (gone j).workforceId = nameOf k := by simpa using List.find?_some hfind
      exact congrArg some (nameOf_injective hname)
  · unfold lookupUserActive
    cases hfind : Table.find db.users k with
    | none => rfl
    | some u =>
      obtain ⟨j, rfl⟩ := hgone (Table.mem_of_find hfind)
      rfl

/-- The row of the `k`-th line. -/
def rowOf (k : ℕ) : WorkforceImportRow where
  id := k
  importJobId := 100
  rowNumber := k + 1
  action := some "deactivate"
  externalWorkforceId := some (nameOf k)
  normalizedIdentity := some k
  parsedValues := some { reasonCode := some "left" }
  validationResult := .warning
  validationDetail := some "user is already inactive"
  conflictType := some "already_inactive"
  riskLevel := .highRisk

/-- What the parser knows after `k` lines. -/
structure Left (k : ℕ) (t : Tally) : Prop where
  rows : t.rows = (List.range k).map rowOf
  seen : ∀ name, name ∈ t.seen ↔ ∃ j < k, name = nameOf j
  total : t.total = k
  invalid : t.invalid = 0
  highRisk : t.highRisk = 0

theorem Left.next {t : Tally} (h : Left k t) (hdb : db.users = (List.range n).map gone) (hk : k < n)
    (hn : n ≤ 10 ^ 9) : Left (k + 1) (parseRowIn call id upload db t (lineOf k)) := by
  obtain ⟨hfind, hactive⟩ := lookup_gone hdb hk
  have hvalid : ¬(!validWorkforceId (nameOf k)) = true := by
    simp [nameOf_valid (lt_of_lt_of_le hk hn)]
  have hseen : ¬t.seen.contains (nameOf k) = true := by
    rw [List.contains_iff_mem, h.seen]
    rintro ⟨j, hj, he⟩
    exact absurd (nameOf_injective he) (Nat.ne_of_gt hj)
  have hreason : ¬(!validReasonCode "left") = true := by decide
  have hclass : classifier .explicitDeactivations { call := call, lower := id, db := db, seen := t.seen } (lineOf k) =
      ({ rowNumber := k + 1, action := some "deactivate", externalWorkforceId := some (nameOf k),
         normalizedIdentity := some k, parsedValues := some { reasonCode := some "left" }
         validationResult := .warning, validationDetail := some "user is already inactive"
         conflictType := some "already_inactive", riskLevel := .highRisk }, nameOf k :: t.seen) := by
    unfold classifier classifyDeactivationRow
    dsimp only
    rw [clean_nameOf, clean_reason, if_neg hvalid, if_neg hseen, if_neg hreason, hfind]
    dsimp only
    rw [hactive, if_neg Bool.false_ne_true]
    rfl
  unfold parseRowIn
  rw [show upload.importType = .explicitDeactivations from rfl, hclass]
  have hrow : importRow (call.uuid4 t.total) upload.id
      { rowNumber := k + 1, action := some "deactivate", externalWorkforceId := some (nameOf k),
        normalizedIdentity := some k, parsedValues := some { reasonCode := some "left" }
        validationResult := .warning, validationDetail := some "user is already inactive"
        conflictType := some "already_inactive", riskLevel := .highRisk } = rowOf k := by
    rw [h.total]
    rfl
  dsimp only
  rw [hrow]
  obtain ⟨hseen', htotal', hinvalid', hhigh'⟩ := add_warning .explicitDeactivations t (nameOf k :: t.seen)
    (show (rowOf k).validationResult = .warning from rfl)
  refine ⟨?_, fun name => ?_, ?_, ?_, ?_⟩
  · rw [add_rows, h.rows, List.range_succ, List.map_append]
    rfl
  · rw [hseen', List.mem_cons, h.seen]
    constructor
    · rintro (rfl | ⟨j, hj, rfl⟩)
      · exact ⟨k, Nat.lt_succ_self k, rfl⟩
      · exact ⟨j, Nat.lt_succ_of_lt hj, rfl⟩
    · rintro ⟨j, hj, rfl⟩
      rcases Nat.lt_succ_iff_lt_or_eq.1 hj with hj | rfl
      · exact Or.inr ⟨j, hj, rfl⟩
      · exact Or.inl rfl
  · rw [htotal', h.total]
  · rw [hinvalid', h.invalid]
  · rw [hhigh', h.highRisk]

/-- What the parser knows at the end of the file. -/
theorem left_tallyOf (db : Db) (hdb : db.users = (List.range n).map gone) (hn : n ≤ 10 ^ 9) :
    ∀ k ≤ n, Left k (tallyOf call id upload db ((List.range k).map lineOf)) := by
  intro k
  induction k with
  | zero => exact fun _ => ⟨rfl, fun name => by simp [tallyOf], rfl, rfl, rfl⟩
  | succ k ih =>
    intro hk
    have hbefore := ih (Nat.le_of_succ_le hk)
    unfold tallyOf at hbefore ⊢
    rw [List.range_succ, List.map_append, List.foldl_append, List.map_singleton, List.foldl_cons, List.foldl_nil]
    exact hbefore.next hdb hk hn

/-- The crowd with its file parsed. -/
def read (n : ℕ) (t : Tally) : Db :=
  { crowd n with
    workforceJobs := [parsed t (parsing upload)]
    workforceRows := t.rows
    audit := [jobEvent "workforce_import.parse" 200 100 none
      [("total", .num t.total), ("valid", .num t.valid), ("invalid", .num t.invalid),
        ("high_risk", .num t.highRisk)]] }

theorem kept_read (n : ℕ) (t : Tally) : Kept (read n t) 100 (read n t) (parsed t (parsing upload)) :=
  ⟨rfl, ⟨_, rfl, rfl, rfl, rfl⟩, rfl⟩

/-- The job once it is committed; none of its rows had an effect. -/
def closed (t : Tally) : WorkforceImportJob := committed 5 "key" [] (parsed t (parsing upload))

def afterwards (n : ℕ) (t : Tally) : Db := { read n t with workforceJobs := [closed t] }

theorem kept_afterwards (n : ℕ) (t : Tally) : Kept (read n t) 100 (afterwards n t) (closed t) :=
  ⟨rfl, ⟨_, rfl, rfl, rfl, rfl⟩, rfl⟩

theorem rowOf_warning {row : WorkforceImportRow} {t : Tally} (h : Left k t) (hrow : row ∈ t.rows) :
    ∃ j < k, row = rowOf j := by
  rw [h.rows] at hrow
  obtain ⟨j, hj, rfl⟩ := List.mem_map.1 hrow
  exact ⟨j, List.mem_range.1 hj, rfl⟩

theorem parse_crowd (hn : n ≤ 10 ^ 9) (hpos : 0 < n) : ∃ t, Left n t ∧ Noted .explicitDeactivations t ∧
    (parseJob call id (leavers n) 100).Runs (crowd n) () (read n t) := by
  let started : Db := { crowd n with workforceJobs := [parsing upload] }
  have hleft := left_tallyOf started rfl hn n (Nat.le_refl n)
  have hnoted := (@tallyOf_spec call id upload started ((List.range n).map lineOf)).1
  refine ⟨_, hleft, hnoted, ?_⟩
  clear hnoted
  have hfold : (((leavers n).rows.foldlM (parseRow call id upload) {} : Txn Tally)).Runs started
      (tallyOf call id upload started ((List.range n).map lineOf)) started :=
    (runs_foldlM_read (fun _ _ _ _ => runs_parseRow) _).2 ⟨rfl, rfl⟩
  generalize tallyOf call id upload started ((List.range n).map lineOf) = t at hfold hleft ⊢
  have htotal : ¬t.total = 0 := by
    rw [hleft.total]
    exact Nat.ne_of_gt hpos
  unfold parseJob
  rw [runs_bind]
  refine ⟨some upload, crowd n, runs_selectForUpdate.2 ⟨rfl, rfl⟩, ?_⟩
  have hq : upload.state = .quarantined := rfl
  have hmissing : ¬(requiredColumns upload.importType).filter (fun k => !(leavers n).header.contains k) ≠ [] :=
    not_not.2 (show (requiredColumns .explicitDeactivations).filter (fun k =>
      !(["external_workforce_id", "reason_code"].contains k)) = [] by decide +kernel)
  have hunknown : ¬(leavers n).header.dedup.filter (fun k => !(allowedColumns upload.importType).contains k) ≠ [] :=
    not_not.2 (show (["external_workforce_id", "reason_code"].dedup).filter (fun k =>
      !(allowedColumns .explicitDeactivations).contains k) = [] by decide +kernel)
  dsimp only
  rw [if_pos hq, runs_bind]
  refine ⟨(), started, runs_setWorkforceJob.2 rfl, ?_⟩
  rw [if_neg hmissing, if_neg hunknown, runs_bind]
  refine ⟨t, started, hfold, ?_⟩
  rw [show (leavers n).failure = none from rfl]
  simp only [runs_bind, runs_addWorkforceRows, exists_eq_left, exists_const]
  rw [if_neg htotal]
  simp only [runs_bind, runs_setWorkforceJob, runs_recordAudit, exists_eq_left, exists_const]
  refine notify_none (hleft.highRisk) ?_ rfl
  intro row hrow
  obtain ⟨j, -, rfl⟩ := rowOf_warning hleft hrow
  exact (by decide : RowValidation.warning ≠ .valid)

/-- As many requirements as users. -/
theorem distinct_crowd {t : Tally} (h : Left k t) :
    (distinctRequirements .explicitDeactivations t.rows).length = k := by
  have hreqs : t.rows.filterMap (rowRequirement .explicitDeactivations) =
      (List.range k).map fun j => .user j := by
    have hrow : rowRequirement .explicitDeactivations ∘ rowOf = fun j => some (.user j) := rfl
    rw [h.rows, List.filterMap_map, hrow, List.filterMap_eq_map']
  have hinj : Function.Injective fun j : ℕ => Requirement.user j := fun i j h => Requirement.user.inj h
  unfold distinctRequirements
  rw [hreqs, List.dedup_eq_self.2 (List.nodup_range.map hinj), List.length_map, List.length_range]

end

end Demo

/-- In a file of one row the manager reaches the job by its requirement. -/
theorem footprint_decides_one : ∃ after job, Kept after 100 after job ∧
    ((canAccessJob after 5 1000000 job = .ok true ↔
        ∀ row ∈ jobRows after 100, SatisfiesRow after 5 1000000 job.importType row) ↔
      (job.state = .parsed ∨ (distinctRequirements job.importType (jobRows after 100)).length ≤ requirementsCap ∨
        ¬∀ row ∈ jobRows after 100, SatisfiesRow after 5 1000000 job.importType row)) := by
  obtain ⟨t, -, -, hruns⟩ := Demo.parse_crowd (by decide : 1 ≤ 10 ^ 9) (by decide)
  have hbefore : Table.find (Demo.crowd 1).workforceJobs 100 = some Demo.upload := rfl
  refine ⟨_, parsed t (parsing Demo.upload), Demo.kept_read 1 t, ?_⟩
  exact footprint_decides hruns hbefore rfl rfl rfl rfl (Demo.kept_read 1 t) (Or.inl rfl) List.nodup_nil
    List.nodup_nil (by decide : 1000000 ≠ Demo.upload.uploaderId) 5

/-- A manager may manage all 10,001 users of a file, and cannot reach it once it is committed. -/
theorem footprint_hides_large_file : ∃ after db job,
    (parseJob Demo.call id (Demo.leavers 10001) 100).Runs (Demo.crowd 10001) () after ∧
    Kept after 100 db job ∧ job.state = .committed ∧ 1000000 ≠ job.uploaderId ∧
    (∀ row ∈ jobRows db 100, SatisfiesRow db 5 1000000 job.importType row) ∧
    canAccessJob db 5 1000000 job = .ok false := by
  obtain ⟨t, hleft, hnoted, hruns⟩ := Demo.parse_crowd (by decide : 10001 ≤ 10 ^ 9) (by decide)
  refine ⟨_, Demo.afterwards 10001 t, Demo.closed t, hruns, Demo.kept_afterwards 10001 t, rfl,
    (by decide : 1000000 ≠ Demo.upload.uploaderId), ?_, ?_⟩
  · intro row hrow r hr
    obtain ⟨j, hj, rfl⟩ := Demo.rowOf_warning hleft (List.mem_filter.1 hrow).1
    obtain rfl : r = .user j := (Option.some.inj hr).symm
    -- the users of the file have no roles, and a manager may manage such users
    have hroles : Authz.effectiveRoleAssignments (Demo.afterwards 10001 t) 5 j = [] := by
      refine List.filter_eq_nil_iff.2 fun ra hra => ?_
      obtain rfl := List.mem_singleton.1 hra
      simp [show 1000000 ≠ j by omega]
    unfold requirementMet Workforce.canManageUser
    dsimp only
    rw [hroles]
    rfl
  · have hover : t.overCap = true := by
      by_contra hno
      obtain ⟨hnodup, hmem⟩ := hnoted.within (Bool.eq_false_iff.2 hno)
      have hcap := hnoted.cap
      rw [← length_distinct hnodup hmem, Demo.distinct_crowd hleft] at hcap
      exact absurd hcap (by decide)
    have hfootprint : (Demo.closed t).authorizationFootprint =
        some ⟨true, t.requirements.map serializeRequirement⟩ := by
      rw [← hover]
      rfl
    refine access_large ?_ hfootprint ?_
    · exact (by decide : 1000000 ≠ Demo.upload.uploaderId)
    · exact (by decide : JobState.committed ≠ .parsed)

end OmniDB.WorkforceImports
