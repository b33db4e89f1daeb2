import OmniDB.Proofs.Duplicates
import OmniDB.Proofs.StaffingRows

/-! Staffing imports, committed and reversed at once: when every agent is back where they were.
The parser lets no two rows of a file move one agent; the reversal of an `end` row makes a new
assignment with the team that the file names. -/

namespace OmniDB.WorkforceImports

open Tx
open Tx.Prog

variable {c : Call} {x y : Db} {actor user : Uuid} {row : WorkforceImportRow}

/-! ## The rows of a parsed file -/

section Parsed

variable {db : Db} {job : WorkforceImportJob} {lower : String → String} {key key' : String}
  {row' : WorkforceImportRow}

/-- A valid row as the parser found it in `db`; `key` is what tells it from a repetition. -/
def StaffingRow (c : Call) (db : Db) (key : String) (row : WorkforceImportRow) : Prop :=
  ∃ externalId code user campaign, row.normalizedIdentity = some user ∧ lookupUserId db externalId = some user ∧
    lookupCampaign c db code = some campaign ∧
    ((row.action = some "assign" ∧ existingPrimary c db user = none) ∨
      (row.action = some "end" ∧ existingPrimary c db user = some campaign.id ∧
        key = externalId ++ ":" ++ code ++ ":" ++ "end"))

theorem lookupUserId_inj (hu : Table.Unique db.users) {a b : String} (ha : lookupUserId db a = some user)
    (hb : lookupUserId db b = some user) : a = b := by
  unfold lookupUserId at ha hb
  obtain ⟨u, hu', rfl⟩ := Option.map_eq_some_iff.1 ha
  obtain ⟨v, hv, he⟩ := Option.map_eq_some_iff.1 hb
  obtain rfl := hu.eq (List.mem_of_find?_eq_some hv) (List.mem_of_find?_eq_some hu') he
  have h₁ : v.workforceId = a := by simpa using List.find?_some hu'
  have h₂ : v.workforceId = b := by simpa using List.find?_some hv
  exact h₁.symm.trans h₂

theorem lookupCampaign_inj (hu : Table.Unique db.campaigns) {a b : String} {k k' : Campaign}
    (ha : lookupCampaign c db a = some k) (hb : lookupCampaign c db b = some k') (he : k.id = k'.id) : a = b := by
  unfold lookupCampaign at ha hb
  obtain ⟨hk, hcode⟩ := List.mem_filter.1 (mem_scan.1 (List.mem_of_head? ha))
  obtain ⟨hk', hcode'⟩ := List.mem_filter.1 (mem_scan.1 (List.mem_of_head? hb))
  obtain rfl := hu.eq hk hk' he
  exact (of_decide_eq_true hcode).symm.trans (of_decide_eq_true hcode')

/-- Two valid rows of one user both assign, or the second repeats the first. -/
theorem StaffingRow.apart (hu : Table.Unique db.users) (hk : Table.Unique db.campaigns) (h : StaffingRow c db key row)
    (h' : StaffingRow c db key' row') (hne : key ≠ key') : Apart row row' := by
  obtain ⟨ext, code, v, k, hid, hext, hcode, hkind⟩ := h
  obtain ⟨ext', code', v', k', hid', hext', hcode', hkind'⟩ := h'
  intro user hu₁ hu₂
  obtain rfl := Option.some.inj (hid.symm.trans hu₁)
  obtain rfl := Option.some.inj (hid'.symm.trans hu₂)
  rcases hkind with ⟨haction, hnone⟩ | ⟨haction, hsome, rfl⟩ <;>
    rcases hkind' with ⟨haction', hnone'⟩ | ⟨haction', hsome', rfl⟩
  · exact ⟨haction, haction'⟩
  · rw [hnone] at hsome'
    cases hsome'
  · rw [hnone'] at hsome
    cases hsome
  · refine absurd ?_ hne
    rw [lookupUserId_inj hu hext hext', lookupCampaign_inj hk hcode hcode' (Option.some.inj (hsome.symm.trans hsome'))]

theorem classifyCampaignAssignmentRow_valid {x : Context} {line : Imports.ParsedRow} {id job : Uuid}
    (h : (classifyCampaignAssignmentRow x line).1.validationResult = .valid) :
    ∃ key, (classifyCampaignAssignmentRow x line).2 = key :: x.seen ∧ key ∉ x.seen ∧
      StaffingRow x.call x.db key (importRow id job (classifyCampaignAssignmentRow x line).1) := by
  unfold classifyCampaignAssignmentRow at h ⊢
  dsimp only at h ⊢
  by_cases hid : validWorkforceId (clean line "external_workforce_id") = true
  case neg => rw [if_pos (by simp [hid])] at h; cases h
  by_cases haction : x.lower (clean line "action") ∈ ["assign", "end"]
  case neg => rw [if_neg (by simp [hid]), if_pos haction] at h; cases h
  by_cases hcode : clean line "campaign_code" = ""
  case pos => rw [if_neg (by simp [hid]), if_neg (not_not.2 haction), if_pos hcode] at h; cases h
  rw [if_neg (by simp [hid]), if_neg (not_not.2 haction), if_neg hcode] at h ⊢
  split at h
  · cases h
  rename_i hseen
  rw [if_neg hseen]
  refine ⟨_, rfl, fun hmem => hseen (List.contains_iff_mem.2 hmem), ?_⟩
  dsimp only at h ⊢
  split at h
  · cases h
  · cases h
  · cases h
  rename_i campaign user team hcampaign huser hteam
  rcases List.mem_pair.1 haction with hassign | hend
  · rw [hassign, if_pos rfl] at h ⊢
    split at h
    · cases h
    rename_i hnone
    rw [if_neg hnone]
    exact ⟨_, _, user, campaign, rfl, huser, hcampaign, Or.inl ⟨rfl, by simpa using hnone⟩⟩
  · rw [hend, if_neg (by decide)] at h ⊢
    split at h
    · cases h
    rename_i hsome
    rw [if_neg hsome]
    exact ⟨_, _, user, campaign, rfl, huser, hcampaign, Or.inr ⟨rfl, not_not.1 hsome, rfl⟩⟩

/-- The rows of a file that are valid. -/
def validRows (rows : List WorkforceImportRow) : List WorkforceImportRow :=
  rows.filter fun row => row.validationResult = .valid

/-- What the parser has made of the file so far. -/
structure Told (c : Call) (db : Db) (tally : Tally) : Prop where
  rows : ∀ row ∈ validRows tally.rows, ∃ key ∈ tally.seen, StaffingRow c db key row
  apart : (validRows tally.rows).Pairwise Apart
  fresh : ∀ row ∈ tally.rows, row.committedEntityId = none ∧ row.reversedAt = none

theorem importRow_valid (id job : Uuid) (cl : Classification) :
    (importRow id job cl).validationResult = cl.validationResult := rfl

/-- One more row of the file. -/
theorem Told.add (hu : Table.Unique db.users) (hk : Table.Unique db.campaigns) {tally : Tally} (h : Told c db tally)
    {row : WorkforceImportRow} {seen : List String} (hfresh : row.committedEntityId = none ∧ row.reversedAt = none)
    (hseen : ∀ key ∈ tally.seen, key ∈ seen) (hvalid : row.validationResult = .valid →
      ∃ key ∈ seen, key ∉ tally.seen ∧ StaffingRow c db key row) :
    Told c db (tally.add .campaignUserAssignments row seen) := by
  have hadd : (tally.add .campaignUserAssignments row seen).rows = tally.rows ++ [row] ∧
      (tally.add .campaignUserAssignments row seen).seen = seen := Tally.add_rows row seen
  obtain ⟨hrows, hkeys⟩ := hadd
  refine ⟨?_, ?_, ?_⟩ <;> rw [hrows]
  · rw [hkeys, validRows, List.filter_append]
    intro r hr
    rcases List.mem_append.1 hr with hr | hr
    · obtain ⟨key, hkey, hs⟩ := h.rows r hr
      exact ⟨key, hseen key hkey, hs⟩
    · obtain ⟨hr, hv⟩ := List.mem_filter.1 hr
      obtain rfl := List.mem_singleton.1 hr
      obtain ⟨key, hkey, -, hs⟩ := hvalid (of_decide_eq_true hv)
      exact ⟨key, hkey, hs⟩
  · rw [validRows, List.filter_append]
    refine List.pairwise_append.2 ⟨h.apart, (List.pairwise_singleton ..).filter _, fun r hr r' hr' => ?_⟩
    obtain ⟨hr', hv⟩ := List.mem_filter.1 hr'
    obtain rfl := List.mem_singleton.1 hr'
    obtain ⟨key, hkey, hs⟩ := h.rows r hr
    obtain ⟨key', -, hnew, hs'⟩ := hvalid (of_decide_eq_true hv)
    exact hs.apart hu hk hs' fun he => hnew (he ▸ hkey)
  · intro r hr
    rcases List.mem_append.1 hr with hr | hr
    · exact h.fresh r hr
    · exact List.mem_singleton.1 hr ▸ hfresh

theorem told_tallyOf (hu : Table.Unique db.users) (hk : Table.Unique db.campaigns)
    (htype : job.importType = .campaignUserAssignments) (lines : List Imports.ParsedRow) :
    Told c db (tallyOf c lower job db lines) := by
  unfold tallyOf
  refine List.foldlRecOn (motive := Told c db) lines _ ⟨?_, List.Pairwise.nil, ?_⟩ fun tally h line _ => ?_
  · exact fun row hrow => by cases hrow
  · exact fun row hrow => by cases hrow
  unfold parseRowIn
  rw [htype]
  simp only [classifier]
  refine h.add hu hk ⟨rfl, rfl⟩ (fun key hkey => ?_) fun hvalid => ?_
  · let x : Context := ⟨c, lower, db, tally.seen⟩
    have htests : Tests x.seen (classifyCampaignAssignmentRow x line) (campaignSubject x line) :=
      classifyCampaignAssignmentRow_tests
    cases hs : campaignSubject x line with
    | none => exact (htests.skip hs).symm ▸ hkey
    | some subject => exact (htests.next subject hs key).2 (Or.inl hkey)
  · rw [importRow_valid] at hvalid
    obtain ⟨key, hnext, hnew, hs⟩ := classifyCampaignAssignmentRow_valid hvalid
    exact ⟨key, hnext ▸ List.mem_cons_self, hnew, hs⟩

end Parsed

/-! ## The jobs -/

section Jobs

variable {job : WorkforceImportJob} {loaded : Option WorkforceImportJob}

instance (now : Time) (actor : Uuid) (risk : RiskLevel) : Leaves (id : Db → Db) (assertRowsAuthorized now job actor risk) := by
  unfold assertRowsAuthorized; infer_instance

instance (now : Time) (actor : Uuid) : Leaves (id : Db → Db) (assertQualifiedHighRiskApprover now job actor) := by
  unfold assertQualifiedHighRiskApprover; infer_instance

instance (now : Time) (actor : Uuid) : Leaves (id : Db → Db) (assertJobAccessible now job actor) := by
  unfold assertJobAccessible; infer_instance

instance : Leaves (id : Db → Db) (standardApprover c job) := by unfold standardApprover; infer_instance

instance : Leaves (id : Db → Db) (highRiskApprover c job) := by unfold highRiskApprover; infer_instance

/-- The session has loaded the job as it is, or not at all. -/
def Fresh (db : Db) (jobId : Uuid) (loaded : Option WorkforceImportJob) : Prop :=
  ∀ j, loaded = some j → Table.find db.workforceJobs jobId = some j

theorem fresh_none {jobId : Uuid} : Fresh x jobId none := fun _ h => by cases h

theorem identityMap_fresh {jobId : Uuid} (h : Fresh x jobId loaded) (hjob : Table.find x.workforceJobs jobId = some job) :
    Imports.identityMap loaded job = job := by
  cases loaded with
  | none => rfl
  | some j =>
    obtain rfl := Option.some.inj ((h j rfl).symm.trans hjob)
    exact Imports.identityMap_self j

/-- The loop of a commit. -/
theorem commitJob_rows {r : CommitRequest} {res : CommitResult} (hjob : Table.find x.workforceJobs r.jobId = some job)
    (hparsed : job.state = .parsed) (hl : Fresh x r.jobId loaded) (h : (commitJob c r loaded).Runs x res y) :
    ∃ standard highRisk acc t, ((rowOrder c (validRows (jobRows x job.id))).foldlM
        (commitStep c job standard highRisk) {}).Runs x acc t ∧
      y.userAssignments = t.userAssignments ∧ y.workforceRows = t.workforceRows := by
  unfold commitJob at h
  simp only [runs_bind, runs_selectForUpdate, runs_expect, hjob] at h
  obtain ⟨o, _, ⟨rfl, rfl⟩, job', _, ⟨hjob', rfl⟩, _, t, hread, h⟩ := h
  obtain rfl : job = job' := Option.some.inj hjob'
  obtain rfl := Leaves.runs (π := (id : Db → Db)) hread
  rw [identityMap_fresh hl hjob, if_neg (by rw [hparsed]; decide)] at h
  simp only [runs_bind, runs_raiseIf, and_assoc, exists_and_left, exists_eq_left, exists_const] at h
  obtain ⟨-, -, -, h⟩ := h
  unfold commitParsed at h
  simp only [runs_bind, runs_view] at h
  obtain ⟨standard, _, hread, highRisk, _, hread', _, _, ⟨rfl, rfl⟩, acc, t', hloop, h⟩ := h
  obtain rfl := Leaves.runs (π := (id : Db → Db)) hread
  obtain rfl := Leaves.runs (π := (id : Db → Db)) hread'
  refine ⟨standard, highRisk, acc, t', hloop, ?_⟩
  simp only [runs_setWorkforceJob, runs_recordAudit, exists_eq_left, exists_const] at h
  split_ifs at h
  · simp only [runs_bind, runs_notify, runs_pure] at h
    obtain ⟨_, _, ⟨-, rfl⟩, -, rfl⟩ := h
    exact ⟨rfl, rfl⟩
  · rw [(runs_pure.1 h).2]
    exact ⟨rfl, rfl⟩

/-- The loop of a reversal. -/
theorem reverseJob_rows {jobId : Uuid} {res : ReverseResult} {z : Db} (hl : Fresh y jobId loaded)
    (h : (reverseJob c jobId actor loaded).Runs y res z) :
    ∃ job, Table.find y.workforceJobs jobId = some job ∧ ∃ acc t,
      ((scan c (reversible y job.id)).foldlM (reverseStep c job actor (c.utcnow 3)) {}).Runs y acc t ∧
      z.userAssignments = t.userAssignments := by
  unfold reverseJob at h
  simp only [runs_bind, runs_selectForUpdate, runs_expect] at h
  obtain ⟨o, _, ⟨rfl, rfl⟩, job, _, ⟨hjob, rfl⟩, _, t, hread, h⟩ := h
  obtain ⟨hjob, -⟩ := Option.filter_eq_some_iff.1 hjob
  obtain rfl := Leaves.runs (π := (id : Db → Db)) hread
  rw [identityMap_fresh hl hjob] at h
  simp only [runs_raiseIf] at h
  obtain ⟨_, _, ⟨-, rfl⟩, _, _, ⟨-, rfl⟩, h⟩ := h
  rw [runs_when] at h
  obtain ⟨t, hread, h⟩ := h
  obtain rfl := Leaves.runs (π := (id : Db → Db)) hread
  simp only [runs_bind, runs_view] at h
  obtain ⟨_, _, hread, _, _, ⟨rfl, rfl⟩, acc, t', hloop, h⟩ := h
  obtain rfl := Leaves.runs (π := (id : Db → Db)) hread
  refine ⟨job, hjob, acc, t', hloop, ?_⟩
  simp only [runs_setWorkforceJob, runs_recordAudit, exists_eq_left, exists_const] at h
  split_ifs at h
  · simp only [runs_bind, runs_notify, runs_pure] at h
    obtain ⟨_, _, ⟨-, rfl⟩, -, rfl⟩ := h
    rfl
  · rw [(runs_pure.1 h).2]
    rfl

/-- The life of a staffing import: a file parsed in `before`, committed in `x` as the parser left it, and
reversed in the state `y` that its commit leaves. Anything else may change between parse and commit. -/
structure Undone (before read x y z : Db) (jobId : Uuid) (parse commit reverse : Call) (actor : Uuid) : Prop where
  parses : ∃ lower file u, (parseJob parse lower file jobId).Runs before u read
  uploaded : ∃ job, Table.find before.workforceJobs jobId = some job ∧ job.state = .quarantined ∧
    job.importType = .campaignUserAssignments ∧ jobRows before jobId = []
  parsed : ∃ job, Table.find read.workforceJobs jobId = some job ∧ job.state = .parsed
  kept : ∃ job, Table.find x.workforceJobs jobId = some job ∧ job.state = .parsed ∧
    job.importType = .campaignUserAssignments ∧ jobRows x jobId = jobRows read jobId
  commits : ∃ r loaded res, r.jobId = jobId ∧ Fresh x jobId loaded ∧ (commitJob commit r loaded).Runs x res y
  reverses : ∃ loaded res, Fresh y jobId loaded ∧ (reverseJob reverse jobId actor loaded).Runs y res z
  /-- No staffing-capacity refusal. -/
  fits : ∀ job, Table.find y.workforceJobs jobId = some job → NeverRefused reverse job actor y

/-- The keys of the tables that the import reads and writes. -/
structure Constrained (before x : Db) : Prop where
  users : Table.Unique before.users
  campaigns : Table.Unique before.campaigns
  assignments : Table.Unique x.userAssignments
  rows : Table.Unique x.workforceRows
  primary : OnePrimary x

theorem Followed.congr {t : Db} {jobId : Uuid} {rows : List WorkforceImportRow} (h : Followed x t jobId user rows)
    (ha : y.userAssignments = t.userAssignments) (hr : y.workforceRows = t.workforceRows) :
    Followed x y jobId user rows := by
  have hs : staffOf y user = staffOf t user := by unfold staffOf; rw [ha]
  have hm : moved y jobId user = moved t jobId user := by unfold moved; rw [hr]
  cases h with
  | untouched h₁ h₂ h₃ => exact .untouched (hs.trans h₁) (hm.trans h₂) h₃
  | assigned row a h₁ h₂ h₃ h₄ h₅ h₆ h₇ => exact .assigned row a h₁ h₂ h₃ (hm.trans h₄) (hs.trans h₅) h₆ h₇
  | ended row a now h₁ h₂ h₃ h₄ h₅ h₆ h₇ h₈ => exact .ended row a now h₁ h₂ h₃ (hm.trans h₄) h₅ h₆ h₇ (hs.trans h₈)

/-- The commit of a parsed staffing file. -/
theorem committed_followed {before read x y z : Db} {jobId : Uuid} {parse commit reverse : Call} {actor : Uuid}
    (h : Undone before read x y z jobId parse commit reverse actor) (hk : Constrained before x) :
    ∃ rows, (∀ row, row ∈ rows ↔ row ∈ validRows (jobRows x jobId)) ∧ rows.Pairwise Apart ∧
      (∀ row ∈ rows, row.reversedAt = none) ∧ Midway y jobId [] ∧ ∀ user, Followed x y jobId user rows := by
  obtain ⟨lower, file, u, hparse⟩ := h.parses
  obtain ⟨job₀, hbefore, hq, htype₀, hnone⟩ := h.uploaded
  obtain ⟨job₁, hafter, hparsed₁⟩ := h.parsed
  obtain ⟨job, hjob, hparsed, htype, hsame⟩ := h.kept
  obtain ⟨r, loaded, res, hr, hl, hcommit⟩ := h.commits
  obtain rfl : job.id = jobId := Table.key_of_find hjob
  obtain ⟨tally, hp⟩ := parseJob_runs hparse hbefore hq hafter hparsed₁
  have hid₀ : job₀.id = job.id := Table.key_of_find hbefore
  let read₀ : Db := { before with workforceJobs := Table.modify before.workforceJobs job₀.id parsing }
  have htold : Told parse read₀ tally := by
    rw [hp.rows_read]
    have hu : Table.Unique read₀.users := hk.users
    exact told_tallyOf hu hk.campaigns htype₀ file.rows
  have hrows : jobRows x job.id = tally.rows := by
    rw [hsame, ← hid₀]
    exact hp.jobRows (hid₀ ▸ hnone)
  have hfresh : ∀ row ∈ x.workforceRows, row.importJobId = job.id → row.committedEntityId = none ∧ row.reversedAt = none := by
    intro row hrow hrjob
    refine htold.fresh row (hrows ▸ ?_)
    exact List.mem_filter.2 ⟨hrow, decide_eq_true hrjob⟩
  have hmem : ∀ row, row ∈ rowOrder commit (validRows (jobRows x job.id)) ↔ row ∈ validRows (jobRows x job.id) :=
    fun row => mem_orderBy
  have hjobRow : ∀ row ∈ validRows (jobRows x job.id), row ∈ x.workforceRows ∧ row.importJobId = job.id := by
    intro row hrow
    obtain ⟨hrow, hrjob⟩ := List.mem_filter.1 (List.mem_filter.1 hrow).1
    exact ⟨hrow, of_decide_eq_true hrjob⟩
  have hperm : (rowOrder commit (validRows (jobRows x job.id))).Perm (validRows (jobRows x job.id)) := perm_orderBy ..
  have hapart : (rowOrder commit (validRows (jobRows x job.id))).Pairwise Apart := by
    rw [hperm.pairwise_iff (fun h user hid hid' => (h user hid' hid).symm), hrows]
    exact htold.apart
  have hmidway : Midway x job.id (rowOrder commit (validRows (jobRows x job.id))) := by
    refine ⟨hk.assignments, hk.rows, fun row hrow => ?_, ?_, fun row hrow hrjob hsome => ?_⟩
    · obtain ⟨hrow, hrjob⟩ := hjobRow row ((hmem row).1 hrow)
      exact ⟨hrow, hrjob, (hfresh row hrow hrjob).1⟩
    · refine (hperm.map _).nodup_iff.2 ?_
      exact hk.rows.sublist ((List.filter_sublist.trans List.filter_sublist).map _)
    · rw [(hfresh row hrow hrjob).1] at hsome
      cases hsome
  have hstart : ∀ user, Followed x x job.id user [] := by
    refine fun user => .untouched rfl ?_ fun row hrow => by cases hrow
    refine List.filter_eq_nil_iff.2 fun row hrow => ?_
    by_cases hrjob : row.importJobId = job.id
    · simp [(hfresh row hrow hrjob).1]
    · simp [hrjob]
  obtain ⟨standard, highRisk, acc, t, hloop, ha, hr'⟩ := commitJob_rows (hr ▸ hjob) hparsed (hr ▸ hl) hcommit
  obtain ⟨hend, hfollowed⟩ := followed_rows htype hmidway hstart (by rwa [List.nil_append]) hloop
  refine ⟨_, hmem, hapart, fun row hrow => ?_, ⟨ha ▸ hend.assignments, hr' ▸ hend.rows, (fun _ h => by cases h),
    List.nodup_nil, hr' ▸ hend.known⟩, fun user => (hfollowed user).congr ha hr'⟩
  obtain ⟨hrow, hrjob⟩ := hjobRow row ((hmem row).1 hrow)
  exact (hfresh row hrow hrjob).2

theorem mem_reversible {jobId : Uuid} {r : WorkforceImportRow} : r ∈ reversible y jobId ↔
    r ∈ y.workforceRows ∧ r.importJobId = jobId ∧ r.committedEntityId.isSome = true ∧ r.reversedAt = none := by
  unfold reversible jobRows
  simp only [List.mem_filter, and_assoc, decide_eq_true_eq, Bool.and_eq_true, Option.isNone_iff_eq_none]

theorem mem_moved {jobId : Uuid} {r : WorkforceImportRow} : r ∈ moved y jobId user ↔
    r ∈ y.workforceRows ∧ r.importJobId = jobId ∧ r.committedEntityId.isSome = true ∧
      r.normalizedIdentity = some user := by
  simp [moved, List.mem_filter, and_assoc]

/-- The one row that was applied to a user, and its entity. -/
theorem Followed.owned {jobId : Uuid} {rows : List WorkforceImportRow} {r : WorkforceImportRow}
    (h : Followed x y jobId user rows) (hr : r ∈ moved y jobId user) :
    moved y jobId user = [r] ∧ Owned y r ∧ ∃ row ∈ rows, r.reversedAt = row.reversedAt := by
  cases h with
  | untouched hs hnone =>
    rw [hnone] at hr
    cases hr
  | assigned row a hrow hid haction hm hs hp =>
    rw [hm] at hr ⊢
    obtain rfl := List.mem_singleton.1 hr
    refine ⟨rfl, ⟨user, a.id, hid, rfl, rfl, a, ?_, rfl⟩, row, hrow, rfl⟩
    rw [hs]
    exact List.mem_append_right _ (List.mem_singleton_self a)
  | ended row a now hrow hid haction hm ha hp hc hs =>
    rw [hm] at hr ⊢
    obtain rfl := List.mem_singleton.1 hr
    refine ⟨rfl, ⟨user, a.id, hid, rfl, rfl, Service.ended now a, ?_, rfl⟩, row, hrow, rfl⟩
    rw [hs, Table.mem_modify]
    exact Or.inl ⟨a, List.mem_filter.2 ⟨ha, decide_eq_true (user_of_primary hp)⟩, rfl, rfl⟩

/-- A staffing import that is committed and reversed at once puts every user back exactly when each
of its rows that ends an assignment names the team of that assignment. -/
theorem reversal_restores_iff {before read x y z : Db} {jobId actor : Uuid} {parse commit reverse : Call}
    (h : Undone before read x y z jobId parse commit reverse actor) (hk : Constrained before x) :
    (∀ user, staffing z user = staffing x user) ↔ NamesTeams x (validRows (jobRows x jobId)) := by
  obtain ⟨rows, hmem, hapart, hreversed, hend, hf⟩ := committed_followed h hk
  obtain ⟨loaded, res, hl, hreverse⟩ := h.reverses
  obtain ⟨job, hjob, acc, t, hloop, hz⟩ := reverseJob_rows hl hreverse
  obtain rfl : job.id = jobId := Table.key_of_find hjob
  have hmoved : ∀ user, ∀ r ∈ scan reverse (reversible y job.id), r.normalizedIdentity = some user →
      r ∈ moved y job.id user := by
    intro user r hr hid
    obtain ⟨hr, hrjob, hsome, -⟩ := mem_reversible.1 (mem_scan.1 hr)
    exact mem_moved.2 ⟨hr, hrjob, hsome, hid⟩
  have hvisited : ∀ user, ∀ r ∈ moved y job.id user, r ∈ scan reverse (reversible y job.id) := by
    intro user r hr
    obtain ⟨-, -, row, hrow, hsame⟩ := (hf user).owned hr
    obtain ⟨hr, hrjob, hsome, -⟩ := mem_moved.1 hr
    exact mem_scan.2 (mem_reversible.2 ⟨hr, hrjob, hsome, hsame.trans (hreversed row hrow)⟩)
  have hknown : ∀ r ∈ scan reverse (reversible y job.id), ∃ user, r.normalizedIdentity = some user := by
    intro r hr
    obtain ⟨hr, hrjob, hsome, -⟩ := mem_reversible.1 (mem_scan.1 hr)
    exact hend.known r hr hrjob hsome
  have howned : ∀ r ∈ scan reverse (reversible y job.id), Owned y r := by
    intro r hr
    obtain ⟨user, hid⟩ := hknown r hr
    exact ((hf user).owned (hmoved user r hr hid)).2.1
  have hfirst : (scan reverse (reversible y job.id)).Pairwise fun r r' =>
      r.normalizedIdentity ≠ r'.normalizedIdentity := by
    have hnodup : (scan reverse (reversible y job.id)).Nodup := by
      refine (perm_scan ..).nodup_iff.2 ?_
      exact (List.Nodup.of_map _ hend.rows).sublist (List.filter_sublist.trans List.filter_sublist)
    refine hnodup.pairwise_of_forall_ne fun r hr r' hr' hne he => hne ?_
    obtain ⟨user, hid⟩ := hknown r hr
    have hin := hmoved user r' hr' (he ▸ hid)
    rw [((hf user).owned (hmoved user r hr hid)).1] at hin
    exact (List.mem_singleton.1 hin).symm
  have hret := returned_rows (h.fits job hjob) howned hfirst _ [] {} y rfl (runs_pure.2 ⟨rfl, rfl⟩) hend.assignments
    (fun user => .pending (fun _ h => by cases h) rfl) acc t hloop
  have hzt : ∀ user, staffing z user = staffing t user := fun user => staffing_congr (by unfold staffOf; rw [hz])
  have huser := fun user => staffing_returned hk.primary hapart (hf user) (hret user) (hvisited user) (hmoved user)
  constructor
  · intro hall row hrow haction user hid a ha hp hc
    exact (huser user).1 ((hzt user).symm.trans (hall user)) row ((hmem row).2 hrow) haction hid a ha hp hc
  · intro hnames user
    rw [hzt user, huser user]
    exact fun row hrow haction hid a ha hp hc => hnames row ((hmem row).1 hrow) haction user hid a ha hp hc

end Jobs

/-! ## A file that ends one assignment -/

namespace Demo

/-- A manager, and an agent who works on campaign 1 with team 5. -/
def staffed : Db where
  users := [{ id := 7, email := "root" }, { id := 9, email := "ann", workforceId := "w9" }]
  roleAssignments := [{
    id := 70, userId := 7, roleCode := .manager, scopeType := .installation, effectiveFrom := 0 }]
  teams := [{ id := 5, organizationId := 3, externalCode := "T5" }]
  campaigns := [{ id := 1, externalCode := "C1", status := .active }]
  userAssignments := [{ id := 31, campaignId := 1, userId := 9, teamId := some 5, campaignRole := "agent", effectiveFrom := 0 }]
  workforceJobs := [{ id := 60, importType := .campaignUserAssignments, uploaderId := 7 }]

/-- The file that takes the agent off the campaign, with this cell in `team_code`. -/
def ending (teamCode : String) : Imports.SourceFile where
  header := ["action", "external_workforce_id", "campaign_code", "team_code"]
  rows := [⟨1, [("action", "end"), ("external_workforce_id", "w9"), ("campaign_code", "C1"), ("team_code", teamCode)]⟩]

def minute (n : ℕ) : Call where
  utcnow _ := 60 * n
  uuid4 i := 1000 * n + i

def parsedFile (teamCode : String) : Db := ((parseJob (minute 1) id (ending teamCode) 60).transact staffed).2

def approved (teamCode : String) : Db :=
  ((recordDecision (minute 2) ⟨60, 7, .approve, .standard, none, false⟩).transact (parsedFile teamCode)).2

def ended (teamCode : String) : Db :=
  ((commitJob (minute 3) ⟨60, 7, 1, "k"⟩ none).transact (approved teamCode)).2

def reversed (teamCode : String) : Db := ((reverseJob (minute 4) 60 7 none).transact (ended teamCode)).2

theorem constrained {teamCode : String} (h : (approved teamCode).userAssignments = staffed.userAssignments)
    (hrows : Table.Unique (approved teamCode).workforceRows) : Constrained staffed (approved teamCode) := by
  refine ⟨by decide, by decide, ?_, hrows, fun user => ?_⟩ <;> rw [h]
  · decide
  · exact List.length_filter_le ..

/-- No team has a capacity, and the reversal visits one row. -/
theorem neverRefused {job : WorkforceImportJob} (hteams : y.teamAssignments = [])
    (hrows : (scan c (reversible y job.id)).length ≤ 1) : NeverRefused c job actor y := by
  intro done row rest hsplit acc t hrun id a hid ha haction hcap
  obtain rfl : done = [] := by
    rw [hsplit, List.length_append, List.length_cons] at hrows
    exact List.length_eq_zero_iff.1 (by omega)
  obtain ⟨rfl, rfl⟩ := runs_pure.1 hrun
  exact not_atCapacity hteams hcap

/-- Each of the requests succeeds. -/
def Succeeds (teamCode : String) : Prop :=
  ((parseJob (minute 1) id (ending teamCode) 60).transact staffed).1 = .ok () ∧
  ((Table.find (parsedFile teamCode).workforceJobs 60).any fun j => j.state = .parsed) ∧
  ((Table.find (approved teamCode).workforceJobs 60).any fun j =>
    j.state = .parsed && j.importType = .campaignUserAssignments) ∧
  (approved teamCode).userAssignments = staffed.userAssignments ∧
  (approved teamCode).workforceRows = (parsedFile teamCode).workforceRows ∧
  Table.Unique (approved teamCode).workforceRows ∧
  ((commitJob (minute 3) ⟨60, 7, 1, "k"⟩ none).transact (approved teamCode)).1 = .ok ⟨60, [(1, .ended)], []⟩ ∧
  ((reverseJob (minute 4) 60 7 none).transact (ended teamCode)).1 = .ok ⟨60, [(1, .assigned)], []⟩ ∧
  (ended teamCode).teamAssignments = [] ∧ (scan (minute 4) (reversible (ended teamCode) 60)).length ≤ 1

instance (teamCode : String) : Decidable (Succeeds teamCode) := by unfold Succeeds; infer_instance

theorem undone {teamCode : String} (h : Succeeds teamCode) :
    Undone staffed (parsedFile teamCode) (approved teamCode) (ended teamCode) (reversed teamCode) 60 (minute 1) (minute 3)
        (minute 4) 7 ∧ Constrained staffed (approved teamCode) := by
  obtain ⟨hparse, hparsed, hkept, hassignments, hrows, hunique, hcommit, hreverse, hteams, hone⟩ := h
  obtain ⟨job, hjob, hstate⟩ := (Option.any_eq_true ..).1 hparsed
  obtain ⟨job', hjob', hkept⟩ := (Option.any_eq_true ..).1 hkept
  rw [Bool.and_eq_true, decide_eq_true_eq, decide_eq_true_eq] at hkept
  refine ⟨⟨⟨_, _, _, runs_transact hparse⟩, ⟨_, rfl, rfl, rfl, rfl⟩, ⟨job, hjob, of_decide_eq_true hstate⟩,
    ⟨job', hjob', hkept.1, hkept.2, ?_⟩, ⟨⟨60, 7, 1, "k"⟩, none, _, rfl, fresh_none, runs_transact hcommit⟩,
    ⟨none, _, fresh_none, runs_transact hreverse⟩, fun k hk => ?_⟩, constrained hassignments hunique⟩
  · unfold jobRows
    rw [hrows]
  · have hid : k.id = 60 := Table.key_of_find hk
    exact neverRefused hteams (by rwa [hid])

end Demo

/-- The file names the team that the agent works with. -/
theorem reversal_restores_iff_named : staffing (Demo.approved "T5") 9 = [(1, some 5)] ∧
    staffing (Demo.reversed "T5") 9 = staffing (Demo.approved "T5") 9 := by
  have hsucceeds : Demo.Succeeds "T5" := by decide +kernel
  obtain ⟨h, hk⟩ := Demo.undone hsucceeds
  have hnames : ∀ row ∈ validRows (jobRows (Demo.approved "T5") 60), ∀ a ∈ (Demo.approved "T5").userAssignments,
      teamOf row = a.teamId := by decide +kernel
  refine ⟨by decide +kernel, ?_⟩
  exact (reversal_restores_iff h hk).2 (fun row hrow _ _ _ a ha _ _ => hnames row hrow a ha) 9

/-- The same file without a team: the agent is back on the campaign, but not with the team. -/
theorem reversal_loses_team : ∃ before read x y z jobId parse commit reverse actor,
    Undone before read x y z jobId parse commit reverse actor ∧ Constrained before x ∧
    staffing x 9 = [(1, some 5)] ∧ staffing z 9 = [(1, none)] := by
  have hsucceeds : Demo.Succeeds "" := by decide +kernel
  obtain ⟨h, hk⟩ := Demo.undone hsucceeds
  exact ⟨_, _, _, _, _, _, _, _, _, _, h, hk, by decide +kernel, by decide +kernel⟩

end OmniDB.WorkforceImports
