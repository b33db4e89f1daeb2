import OmniDB.Proofs.ParseOutcome

/-! The parse of a stored file and those it tells of the job. A parse that reads its file to the end
and has the job reviewed tells exactly the possible approvers, unless the name of the file makes the
title of the request too long: then the parse is rolled back, and nobody is told. -/

namespace OmniDB.WorkforceImports

open Tx
open Tx.Prog
open Authz (usersWithAnyCapability hasAssignedCapability)
open Imports (ParsedRow RawFile ReadError reading readHeader parseFile stored noDataRows)

variable {c : Call} {lower : String → String} {raw : RawFile} {x x' : Db} {job : WorkforceImportJob}

/-- The header is in order, and the rows of the file are what is read of it. -/
theorem reading_end (hread : (reading c.settings (checkHeader job.importType) raw).2 = none) : ∃ header,
    checkHeader job.importType header = none ∧ (parseFile c.settings raw).1 ≠ [] ∧
      (reading c.settings (checkHeader job.importType) raw).1 = (parseFile c.settings raw).1 := by
  unfold reading at hread ⊢
  cases hheader : readHeader c.settings raw with
  | error e => simp [hheader] at hread
  | ok header =>
    cases hcheck : checkHeader job.importType header with
    | some e => simp [hheader, hcheck] at hread
    | none =>
      simp only [hheader, hcheck] at hread ⊢
      refine ⟨header, hcheck, fun hnil => ?_, trivial⟩
      simp [hnil] at hread

theorem checkHeader_none {t : ImportType} {header : List String} (h : checkHeader t header = none) :
    (requiredColumns t).filter (fun k => !header.contains k) = [] ∧
      header.dedup.filter (fun k => !(allowedColumns t).contains k) = [] := by
  unfold checkHeader at h
  dsimp only at h
  split_ifs at h with hmissing hunknown
  exact ⟨not_not.1 hmissing, not_not.1 hunknown⟩

/-- A parse that reads the stored file to its end is the parse of the rows read. -/
theorem parseJob_of_reading (hjob : Table.find x.workforceJobs job.id = some job) (hq : job.state = .quarantined)
    (hread : (reading c.settings (checkHeader job.importType) raw).2 = none)
    (hnotify : (notifyPendingApprovers c (parsedJob c lower raw x job)).Runs (asking c lower raw x job) () x') :
    ∃ file, (parseJob c lower file job.id).Runs x () x' := by
  obtain ⟨header, hcheck, hne, hrows⟩ := reading_end hread
  obtain ⟨hmissing, hunknown⟩ := checkHeader_none hcheck
  have hstored : storedRows c lower job (started x job) raw =
      (tallyOf c lower job (started x job) (parseFile c.settings raw).1).rows := by
    unfold storedRows stored
    dsimp only
    rw [hread, hrows]
    rfl
  unfold parsedJob asking at hnotify
  rw [hstored, hrows] at hnotify
  refine ⟨{ header := header, rows := (parseFile c.settings raw).1 }, ?_⟩
  have htotal : ¬(tallyOf c lower job (started x job) (parseFile c.settings raw).1).total = 0 := by
    rw [(tallyOf_counts ..).total, ← List.length_map WorkforceImportRow.rowNumber, tallyOf_rows, List.length_map]
    exact fun h => hne (List.length_eq_zero_iff.1 h)
  unfold parseJob
  simp only [runs_bind, runs_selectForUpdate, hjob, Option.filter_some, if_true, and_assoc, exists_and_left,
    exists_eq_left, hq, runs_setWorkforceJob, exists_const, hmissing, hunknown]
  simp only [ne_eq, not_true, if_false, runs_bind]
  refine ⟨tallyOf c lower job (started x job) (parseFile c.settings raw).1, started x job,
    (runs_foldlM_read (fun _ _ _ _ => runs_parseRow) _).2 ⟨rfl, rfl⟩, ?_⟩
  simp only [runs_addWorkforceRows, exists_eq_left, exists_const]
  rw [if_neg htotal]
  simp only [runs_bind, runs_setWorkforceJob, runs_recordAudit, exists_eq_left, exists_const]
  exact hnotify

theorem needsReview_reviewing {db : Db} {users : List Uuid} {job' : WorkforceImportJob} :
    NeedsReview c (reviewing db job users) job' ↔ NeedsReview c db job' := Iff.rfl

/-- A file that is read to its end, and of which PostgreSQL takes what is looked up and stored. -/
theorem parseStored_reading (hjob : Table.find x.workforceJobs job.id = some job) (hq : job.state = .quarantined)
    (hread : (reading c.settings (checkHeader job.importType) raw).2 = none) (htaken : Taken c lower raw x job) :
    (parseStored c lower raw job.id).Runs x () x' ↔
      (notifyPendingApprovers c (parsedJob c lower raw x job)).Runs (asking c lower raw x job) () x' := by
  rw [parseStored_runs hjob hq, and_iff_right htaken, hread]
  rfl

/-- The parse of a job that someone other than its uploader has to approve notifies exactly the possible
approvers if and only if there are none or the title of the request fits; and the reverse query for the
candidates agrees with the check of one user. -/
theorem approvers_notified (hjob : Table.find x.workforceJobs job.id = some job) (hq : job.state = .quarantined)
    (hnone : jobRows x job.id = []) (hread : (reading c.settings (checkHeader job.importType) raw).2 = none)
    (htaken : Taken c lower raw x job) (hteams : Table.Unique x.teams) (hcampaigns : Table.Unique x.campaigns)
    (hneeds : NeedsReview c (asking c lower raw x job) (parsedJob c lower raw x job)) :
    ((∃ x' notified, (parseStored c lower raw job.id).Runs x () x' ∧
        NotifiesExactly c x x' (parsedJob c lower raw x job) notified) ↔
      Titled job ∨ ∀ user, ¬MayApprove c (asking c lower raw x job) (parsedJob c lower raw x job) user) ∧
    ∀ db now caps user, user ∈ usersWithAnyCapability db now caps ↔
      ∃ cap ∈ caps, hasAssignedCapability db now user cap = true := by
  refine ⟨⟨?_, fun h => ?_⟩, fun db now caps user => mem_usersWithAnyCapability⟩
  · rintro ⟨x', notified, hr, -⟩
    have hnotify := (parseStored_reading hjob hq hread htaken).1 hr
    exact ((notifyPendingApprovers_runs fun user => access_parsedJob ..).1 hnotify).1 hneeds
  · have hnotify := (notifyPendingApprovers_runs (u := ()) fun user => access_parsedJob ..).2 ⟨fun _ => h, rfl⟩
    rw [if_pos hneeds] at hnotify
    obtain ⟨file, hparse⟩ := parseJob_of_reading hjob hq hread hnotify
    have hafter : Table.find (asking c lower raw x job).workforceJobs job.id = some (parsed _ (parsing job)) :=
      Table.find_modify_self (fun _ h => h) (find_parsing hjob)
    obtain ⟨notified, hexactly⟩ := parseJob_notifiesExactly hparse hjob hq hnone hafter rfl hteams hcampaigns
      (needsReview_reviewing.2 hneeds)
    exact ⟨_, notified, (parseStored_reading hjob hq hread htaken).2 hnotify, hexactly⟩

/-! The manager 9 may approve a file that announces that user 5 leaves. -/

open Uploads

theorem approvers_notified_manager : ∃ x' notified,
    (parseStored Demo.call id Demo.leaverFile 70).Runs (Demo.staff "leavers.csv") () x' ∧
    NotifiesExactly Demo.call (Demo.staff "leavers.csv") x'
      (parsedJob Demo.call id Demo.leaverFile (Demo.staff "leavers.csv") (Demo.leaving "leavers.csv")) notified ∧
    notified = [9] := by
  have hok : ((parseStored Demo.call id Demo.leaverFile 70).transact (Demo.staff "leavers.csv")).1 = .ok () := by
    decide +kernel
  have htitled : Titled (Demo.leaving "leavers.csv") := titled_iff.2 (by decide +kernel)
  obtain ⟨x', notified, hr, hexactly⟩ := (@approvers_notified Demo.call id Demo.leaverFile (Demo.staff "leavers.csv")
    (Demo.leaving "leavers.csv") rfl rfl rfl
    (by decide +kernel) ((parseStored_runs rfl rfl).1 (runs_transact hok)).1 (by decide) (by decide)
    (Or.inl (by decide +kernel))).1.2 (Or.inl htitled)
  refine ⟨x', notified, hr, hexactly, ?_⟩
  have hlist := congrArg (List.map Notification.recipientUserId) hexactly.notifications
  rw [List.map_append, List.map_map] at hlist
  have hx' : x' = ((parseStored Demo.call id Demo.leaverFile 70).transact (Demo.staff "leavers.csv")).2 :=
    (congrArg Prod.snd (transact_ok.2 hr)).symm
  have hend : x'.notifications.map Notification.recipientUserId = [9] := by
    rw [hx']
    decide +kernel
  exact (List.map_id notified).symm.trans (hlist.symm.trans hend)

/-- Under a long name the same file is never parsed, and the manager is not told. -/
theorem long_name_untold :
    (parseStored Demo.call id Demo.leaverFile 70).transact (Demo.staff Demo.longName) =
      (.error (tooLong 200), Demo.staff Demo.longName) ∧
    NeedsReview Demo.call (asking Demo.call id Demo.leaverFile (Demo.staff Demo.longName) (Demo.leaving Demo.longName))
      (parsedJob Demo.call id Demo.leaverFile (Demo.staff Demo.longName) (Demo.leaving Demo.longName)) ∧
    MayApprove Demo.call (asking Demo.call id Demo.leaverFile (Demo.staff Demo.longName) (Demo.leaving Demo.longName))
      (parsedJob Demo.call id Demo.leaverFile (Demo.staff Demo.longName) (Demo.leaving Demo.longName)) 9 ∧
    ¬∃ x' notified, (parseStored Demo.call id Demo.leaverFile 70).Runs (Demo.staff Demo.longName) () x' ∧
      NotifiesExactly Demo.call (Demo.staff Demo.longName) x'
        (parsedJob Demo.call id Demo.leaverFile (Demo.staff Demo.longName) (Demo.leaving Demo.longName)) notified := by
  have herror : ((parseStored Demo.call id Demo.leaverFile 70).transact (Demo.staff Demo.longName)).1 =
      .error (tooLong 200) := by decide +kernel
  refine ⟨transact_eq_error herror, Or.inl (by decide +kernel), mem_approvers.1 (by decide +kernel), ?_⟩
  rintro ⟨x', notified, hr, -⟩
  exact not_runs_of_error herror hr

end OmniDB.WorkforceImports
