import OmniDB.Proofs.Footprint

/-! Who is told of an import that waits for an approval: those other than the uploader who hold an
upload capability and have access to the job. Access is over all of its rows, so it is enough for
the checks of each tier. -/

namespace OmniDB.WorkforceImports

open Tx
open Tx.Prog
open Authz (usersWithAnyCapability hasAssignedCapability capabilityGrants effectiveRoleAssignments activeDelegations)

variable {db db' : Db} {now : Time} {user : Uuid} {job : WorkforceImportJob}

/-! ## The candidates -/

/-- The reverse query finds the users for whom the forward check holds of some capability. -/
theorem mem_usersWithAnyCapability {caps : List Capability} :
    user ∈ usersWithAnyCapability db now caps ↔ ∃ cap ∈ caps, hasAssignedCapability db now user cap = true := by
  have hassigned (cap : Capability) : hasAssignedCapability db now user cap = true ↔
      (∃ ra ∈ effectiveRoleAssignments db now user, cap ∈ Authz.roleCapabilities ra.roleCode) ∨
        ∃ d ∈ activeDelegations db now user, cap ∈ d.capabilitySet ∧
          Authz.delegationStillBacked db now d cap = true := by
    simp [hasAssignedCapability, capabilityGrants, Authz.roleCapabilityGrants, List.filter_eq_nil_iff,
      or_iff_not_imp_left]
  simp only [hassigned, usersWithAnyCapability, effectiveRoleAssignments, activeDelegations, List.mem_dedup,
    List.mem_append, List.mem_map, List.mem_filter, Bool.and_eq_true, decide_eq_true_eq, List.any_eq_true,
    List.contains_iff_mem]
  constructor
  · rintro (⟨ra, ⟨hra, ⟨hactive, hnow⟩, cap, hcap, hrole⟩, rfl⟩ | ⟨d, ⟨hd, ⟨hrev, hnow⟩, cap, hcap, hset, hback⟩, rfl⟩)
    · exact ⟨cap, hcap, Or.inl ⟨ra, ⟨hra, ⟨rfl, hactive⟩, hnow⟩, hrole⟩⟩
    · exact ⟨cap, hcap, Or.inr ⟨d, ⟨hd, ⟨rfl, hrev⟩, hnow⟩, hset, hback⟩⟩
  · rintro ⟨cap, hcap, ⟨ra, ⟨hra, ⟨rfl, hactive⟩, hnow⟩, hrole⟩ | ⟨d, ⟨hd, ⟨rfl, hrev⟩, hnow⟩, hset, hback⟩⟩
    · exact Or.inl ⟨ra, ⟨hra, ⟨hactive, hnow⟩, cap, hcap, hrole⟩, rfl⟩
    · exact Or.inr ⟨d, ⟨hd, ⟨hrev, hnow⟩, cap, hcap, hset, hback⟩, rfl⟩

theorem nodup_usersWithAnyCapability (db : Db) (now : Time) (caps : List Capability) :
    (usersWithAnyCapability db now caps).Nodup := List.nodup_dedup _

/-! ## The notifications -/

/-- The candidate is told of the job. -/
def told (db : Db) (now : Time) (job : WorkforceImportJob) (candidate : Uuid) : Bool :=
  candidate ≠ job.uploaderId && canAccessJob db now candidate job = .ok true

def reviewNotification (job : WorkforceImportJob) (user : Uuid) : Notification :=
  jobNotification user "workforce_import.needs_review" (reviewTitle job) job.id

/-- The state with one notification for each of the users. -/
def reviewing (db : Db) (job : WorkforceImportJob) (users : List Uuid) : Db :=
  { db with notifications := db.notifications ++ users.map (reviewNotification job) }

/-- The title of the review request fits its column. -/
def Titled (job : WorkforceImportJob) : Prop := (reviewTitle job).length ≤ 200

/-- The title leaves 169 characters to the name of the file. -/
theorem titled_iff : Titled job ↔ job.sourceFilenameDisplay.length ≤ 169 := by
  have hbefore : "An import needs your review: “".length = 30 := by decide +kernel
  have hafter : "”".length = 1 := by decide +kernel
  unfold Titled reviewTitle
  rw [String.length_append, String.length_append, hbefore, hafter]
  omega

theorem runs_notifyCandidate {s s' : Db} {candidate : Uuid} {u : Unit}
    (haccess : ∃ b, canAccessJob db now candidate job = .ok b) :
    (do
      if candidate = job.uploaderId then return
      if ← ofExcept (canAccessJob db now candidate job) then
        notify (jobNotification candidate "workforce_import.needs_review" (reviewTitle job) job.id) : Txn Unit).Runs s u s' ↔
      (told db now job candidate = true → Titled job) ∧ s' = reviewing s job ([candidate].filter (told db now job)) := by
  obtain ⟨accessible, ha⟩ := haccess
  unfold told
  split_ifs with huploader
  · simp [huploader, reviewing]
  · simp only [runs_bind, runs_ofExcept, ha, and_assoc]
    cases accessible with
    | true => simp [huploader, ha, reviewing, reviewNotification, Titled, jobNotification]
    | false => simp [huploader, ha, reviewing]

theorem reviewing_foldl (s : Db) (p : Uuid → Bool) (candidates : List Uuid) :
    candidates.foldl (fun s candidate => reviewing s job ([candidate].filter p)) s =
      reviewing s job (candidates.filter p) := by
  induction candidates generalizing s with
  | nil => simp [reviewing]
  | cons candidate candidates ih =>
    rw [List.foldl_cons, ih]
    unfold reviewing
    simp only [List.append_assoc, ← List.map_append, ← List.filter_append]
    rfl

/-- The job waits for someone else than its uploader. -/
def NeedsReview (c : Call) (db : Db) (job : WorkforceImportJob) : Prop :=
  0 < job.highRiskRows ∨ rowsAuthorized db (c.utcnow 0) job job.uploaderId .routine = false

instance (c : Call) (db : Db) (job : WorkforceImportJob) : Decidable (NeedsReview c db job) :=
  inferInstanceAs (Decidable (_ ∨ _))

/-- The user is a possible approver. -/
structure MayApprove (c : Call) (db : Db) (job : WorkforceImportJob) (user : Uuid) : Prop where
  other : user ≠ job.uploaderId
  capable : ∃ cap ∈ uploadCapabilities, hasAssignedCapability db (c.utcnow 1) user cap = true
  access : canAccessJob db (c.utcnow 2) user job = .ok true

theorem mayApprove_reviewing {c : Call} {users : List Uuid} :
    MayApprove c (reviewing db job users) job user ↔ MayApprove c db job user :=
  ⟨fun h => ⟨h.other, h.capable, h.access⟩, fun h => ⟨h.other, h.capable, h.access⟩⟩

/-- Those who are told of the job. -/
def approvers (c : Call) (db : Db) (job : WorkforceImportJob) : List Uuid :=
  (usersWithAnyCapability db (c.utcnow 1) uploadCapabilities).filter (told db (c.utcnow 2) job)

theorem mem_approvers {c : Call} : user ∈ approvers c db job ↔ MayApprove c db job user := by
  rw [approvers, List.mem_filter, mem_usersWithAnyCapability, told, Bool.and_eq_true, decide_eq_true_eq,
    decide_eq_true_eq]
  constructor
  · rintro ⟨hcap, hother, haccess⟩
    exact ⟨hother, hcap, haccess⟩
  · rintro ⟨hother, hcap, haccess⟩
    exact ⟨hcap, hother, haccess⟩

/-- A job that waits for someone else is announced to the possible approvers, if there is one and the
title fits. -/
theorem notifyPendingApprovers_runs {c : Call} {u : Unit}
    (haccess : ∀ user, ∃ b, canAccessJob db (c.utcnow 2) user job = .ok b) :
    (notifyPendingApprovers c job).Runs db u db' ↔
      (NeedsReview c db job → Titled job ∨ ∀ user, ¬MayApprove c db job user) ∧
        db' = if NeedsReview c db job then reviewing db job (approvers c db job) else db := by
  have hcond : (0 < job.highRiskRows ∨ (!rowsAuthorized db (c.utcnow 0) job job.uploaderId .routine) = true) ↔
      NeedsReview c db job := by
    rw [NeedsReview, Bool.not_eq_true']
  unfold notifyPendingApprovers
  simp only [runs_bind, runs_view, and_assoc, exists_and_left, exists_eq_left, hcond]
  by_cases hneeds : NeedsReview c db job
  · have htitled : (∀ candidate ∈ usersWithAnyCapability db (c.utcnow 1) uploadCapabilities,
        told db (c.utcnow 2) job candidate = true → Titled job) ↔ (Titled job ∨ ∀ user, ¬MayApprove c db job user) := by
      simp only [← mem_approvers, approvers, List.mem_filter, not_and]
      constructor
      · intro h
        exact or_iff_not_imp_left.2 fun hlong user huser htold => hlong (h user huser htold)
      · rintro (h | h) user huser htold
        · exact h
        · exact absurd htold (h user huser)
    rw [if_pos hneeds, if_pos hneeds, forall_prop_of_true hneeds, ← htitled, approvers, ← reviewing_foldl]
    exact runs_forM (fun candidate _ _ _ => runs_notifyCandidate (haccess candidate)) _
  · simp [hneeds]

/-! ## The checks of a decision -/

/-- The authority and separation checks of `record_decision` for an approval at the tier. -/
def assertTierAuthority (now : Time) (job : WorkforceImportJob) (decidedBy : Uuid) : DecisionTier → Txn Unit
  | .highRisk => assertQualifiedHighRiskApprover now job decidedBy
  | .standard => assertRowsAuthorized now job decidedBy .routine

/-- They come first; what else an approval is checked for are the findings of the parser. -/
theorem assertApprovable_eq (now : Time) (job : WorkforceImportJob) (r : DecisionRequest) :
    assertApprovable now job r = (do
      assertTierAuthority now job r.decidedBy r.decisionTier
      raiseIf (0 < job.invalidRows) (.unresolvedBlockingErrors (toString job.invalidRows ++
        " row(s) have blocking errors - fix and re-upload before this import can be approved"))
      raiseIf (0 < job.warningRows ∧ !r.acknowledgeWarnings) (.warningsNotAcknowledged
        (toString job.warningRows ++ " row(s) have warnings that must be explicitly acknowledged before approval"))) := by
  unfold assertApprovable assertTierAuthority
  cases r.decisionTier <;> rfl

/-- Who satisfies the requirements of all rows may commit those of each risk level. -/
theorem rowsAuthorized_of_satisfies (hteams : Table.Unique db.teams) (hcampaigns : Table.Unique db.campaigns)
    (h : ∀ row ∈ jobRows db job.id, SatisfiesRow db now user job.importType row) (risk : RiskLevel) :
    rowsAuthorized db now job user risk = true := by
  unfold rowsAuthorized
  rw [authorityOverRequirements_eq hteams hcampaigns]
  have hrows : ∀ r, some r ∈ (committableRows db job.id risk).map (rowRequirement job.importType) ↔
      r ∈ (committableRows db job.id risk).filterMap (rowRequirement job.importType) := by
    intro r
    rw [List.mem_map, List.mem_filterMap]
  exact (all_met hrows).2 fun row hrow => h row (List.mem_filter.1 hrow).1

theorem runs_assertTierAuthority (hteams : Table.Unique db.teams) (hcampaigns : Table.Unique db.campaigns)
    (hother : user ≠ job.uploaderId)
    (h : ∀ row ∈ jobRows db job.id, SatisfiesRow db now user job.importType row) (tier : DecisionTier) {u : Unit} :
    (assertTierAuthority now job user tier).Runs db u db' ↔ db' = db := by
  have hrows (risk : RiskLevel) : (assertRowsAuthorized now job user risk).Runs db u db' ↔ db' = db := by
    unfold assertRowsAuthorized
    simp [runs_bind, rowsAuthorized_of_satisfies hteams hcampaigns h risk]
  cases tier with
  | standard => exact hrows .routine
  | highRisk =>
    unfold assertTierAuthority assertQualifiedHighRiskApprover
    simp [runs_bind, hother, hrows]

/-- Whoever passes them can approve what the parser found nothing wrong with. -/
theorem runs_assertApprovable {r : DecisionRequest} (htier : ∀ {u db'},
    (assertTierAuthority now job r.decidedBy r.decisionTier).Runs db u db' ↔ db' = db) :
    (assertApprovable now job r).Runs db () db ↔
      job.invalidRows = 0 ∧ (0 < job.warningRows → r.acknowledgeWarnings = true) := by
  rw [assertApprovable_eq]
  simp [runs_bind, htier]

theorem runs_assertJobAccessible (h : canAccessJob db now user job = .ok true) :
    (assertJobAccessible now job user).Runs db () db := by
  unfold assertJobAccessible
  simp [runs_bind, h]

/-! ## Notified users -/

/-- Everyone's access to a job just parsed can be told from what it stores. -/
theorem access_parsed (t : ImportType) {tally : Tally} (hnoted : Noted t tally)
    (hnamed : ∀ row ∈ tally.rows, ∀ r, rowRequirement t row = some r → Requirement.Named r) (db : Db) (now : Time)
    (actor : Uuid) : ∃ b, canAccessJob db now actor (parsed tally job) = .ok b := by
  unfold canAccessJob
  split_ifs with hactor
  · exact ⟨true, rfl⟩
  unfold jobAccessRequirements parsed
  dsimp only
  cases ho : tally.overCap with
  | true => exact ⟨_, rfl⟩
  | false =>
    rw [if_neg (by simp), storedRequirements_serialize]
    · exact ⟨_, rfl⟩
    · intro r hr
      obtain ⟨row, hrow, hreq⟩ := List.mem_filterMap.1 (((hnoted.within ho).2 r).1 hr)
      exact hnamed row hrow r hreq

/-- The users notified between the two states are the possible approvers, each once, and they pass the
checks of a decision. -/
structure NotifiesExactly (c : Call) (before after : Db) (job : WorkforceImportJob) (notified : List Uuid) :
    Prop where
  notifications : after.notifications = before.notifications ++ notified.map (reviewNotification job)
  nodup : notified.Nodup
  exactly : ∀ user, user ∈ notified ↔ MayApprove c after job user
  accessible : ∀ user ∈ notified, (assertJobAccessible (c.utcnow 2) job user).Runs after () after
  authorized : ∀ user ∈ notified, ∀ tier, (assertTierAuthority (c.utcnow 2) job user tier).Runs after () after
  approvable : ∀ r : DecisionRequest, r.decidedBy ∈ notified → ((assertApprovable (c.utcnow 2) job r).Runs after () after ↔
    job.invalidRows = 0 ∧ (0 < job.warningRows → r.acknowledgeWarnings = true))

/-- The parse of a job that someone other than its uploader has to approve, when it ends, has notified
the possible approvers. -/
theorem parseJob_notifiesExactly {c : Call} {lower : String → String} {file : Imports.SourceFile} {id : Uuid}
    {before after : Db} {job₀ : WorkforceImportJob} {u : Unit}
    (hparse : (parseJob c lower file id).Runs before u after)
    (hbefore : Table.find before.workforceJobs id = some job₀) (hq : job₀.state = .quarantined)
    (hnone : jobRows before id = []) (hafter : Table.find after.workforceJobs id = some job)
    (hparsed : job.state = .parsed) (hteams : Table.Unique after.teams) (hcampaigns : Table.Unique after.campaigns)
    (hneeds : NeedsReview c after job) : ∃ notified, NotifiesExactly c before after job notified := by
  obtain rfl : job.id = id := Table.key_of_find hafter
  obtain ⟨tally, x, hp, hnotifications, hnotify⟩ := parseJob_notifies hparse hbefore hq hafter hparsed
  have himports := Leaves.runs (π := Db.imports) hnotify
  have hjob : job = parsed tally job₀ := by
    have hid : job₀.id = job.id := Table.key_of_find hbefore
    have hfind := hafter
    rw [show after.workforceJobs = x.workforceJobs from congrArg ImportTables.jobs himports, hp.jobs, hid,
      Table.find_modify_self (f := fun j => parsed tally (parsing j)) (fun _ h => h) hbefore] at hfind
    exact (Option.some.inj hfind).symm
  have haccess : ∀ user, ∃ b, canAccessJob x (c.utcnow 2) user job = .ok b := by
    obtain ⟨hnoted, hnamed⟩ := @tallyOf_spec c lower job₀ { before with
      workforceJobs := Table.modify before.workforceJobs job₀.id parsing } file.rows
    rw [← hp.rows_read] at hnoted hnamed
    exact fun user => hjob ▸ access_parsed job₀.importType hnoted (fun row hrow => (hnamed row hrow).2) ..
  rw [← hjob] at hnotify
  obtain ⟨-, hends⟩ := (notifyPendingApprovers_runs haccess).1 hnotify
  have hneeds' : NeedsReview c x job := by
    by_contra hno
    rw [if_neg hno] at hends
    exact hno (hends ▸ hneeds)
  rw [if_pos hneeds'] at hends
  have hexact : ∀ user, user ∈ approvers c x job ↔ MayApprove c after job user := by
    intro user
    rw [hends, mayApprove_reviewing]
    exact mem_approvers
  have hall : ∀ user, MayApprove c after job user →
      ∀ row ∈ jobRows after job.id, SatisfiesRow after (c.utcnow 2) user job.importType row := by
    intro user h
    exact ((footprint_decides hparse hbefore hq hnone hafter hparsed ⟨hafter, ⟨job, hafter, rfl, rfl, rfl⟩, rfl⟩
      (Or.inl hparsed) hteams hcampaigns h.other _).2 (Or.inl hparsed)).1 h.access
  have htier : ∀ user ∈ approvers c x job, ∀ tier {u db'},
      (assertTierAuthority (c.utcnow 2) job user tier).Runs after u db' ↔ db' = after := by
    intro user huser tier u db'
    have hmay := (hexact user).1 huser
    exact runs_assertTierAuthority hteams hcampaigns hmay.other (hall user hmay) tier
  refine ⟨approvers c x job, ?_, ?_, hexact, ?_, ?_, ?_⟩
  · rw [hends, ← hnotifications]
    rfl
  · exact (nodup_usersWithAnyCapability ..).filter _
  · exact fun user huser => runs_assertJobAccessible ((hexact user).1 huser).access
  · exact fun user huser tier => (htier user huser tier).2 rfl
  · exact fun r hr => runs_assertApprovable (htier _ hr _)

end OmniDB.WorkforceImports
