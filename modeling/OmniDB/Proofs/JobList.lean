import OmniDB.Proofs.BulkAuthority
import OmniDB.Tx.Rows

/-! The list of imports: which jobs it shows, and where its limit is checked too late. -/

namespace OmniDB.WorkforceImports

open Tx

/-- The accessible ones among the jobs, or the error of one that cannot be read. -/
def accessibleJobs (db : Db) (now : Time) (actor : Uuid) :
    List WorkforceImportJob → Except Err (List WorkforceImportJob)
  | [] => .ok []
  | job :: jobs => do
    let accessible ← canAccessJob db now actor job
    let rest ← accessibleJobs db now actor jobs
    return if accessible then job :: rest else rest

/-- The list shows the first `limit` accessible jobs among the newest. -/
def ShowsAccessible (db : Db) (now : Time) (actor : Uuid) (limit : ℤ) (candidateLimit : ℕ)
    (shown : Except Err (List WorkforceImportJob)) : Prop :=
  ∀ newest : List WorkforceImportJob, newest.Perm db.workforceJobs →
    newest.Pairwise (fun a b => b.createdAt < a.createdAt) →
    shown = (accessibleJobs db now actor (newest.take candidateLimit)).map (List.take limit.toNat)

/-! ## The loop -/

/-- The loop lists the accessible jobs, but looks at the limit only after it has listed one. -/
theorem listJobs_eq (accessible : WorkforceImportJob → Bool) (limit : ℤ) (jobs visible : List WorkforceImportJob)
    (h : visible = [] ∨ visible.length < limit) : listJobs accessible limit jobs visible =
      (visible ++ jobs.filter accessible).take (max limit 1).toNat := by
  induction jobs generalizing visible with
  | nil =>
    rw [List.filter_nil, List.append_nil, listJobs, List.take_of_length_le]
    rcases h with rfl | h
    · exact Nat.zero_le _
    · omega
  | cons job jobs ih =>
    rw [listJobs]
    by_cases hacc : accessible job = true
    · have hcons : visible ++ (job :: jobs).filter accessible = visible ++ [job] ++ jobs.filter accessible := by
        simp [hacc]
      rw [if_pos hacc, hcons]
      dsimp only
      by_cases hlimit : limit ≤ (visible ++ [job]).length
      · rw [if_pos hlimit]
        have hlen : (max limit 1).toNat = (visible ++ [job]).length := by
          rw [List.length_append, List.length_singleton] at hlimit ⊢
          rcases h with rfl | h
          · simp at hlimit ⊢
            omega
          · omega
        rw [hlen, List.take_left]
      · rw [if_neg hlimit]
        exact ih _ (Or.inr (not_le.1 hlimit))
    · rw [if_neg hacc, ih _ h]
      simp [hacc]

section Jobs

variable {c : Call} {db : Db} {now : Time} {actor : Uuid} {limit : ℤ} {candidateLimit : ℕ}

/-! ## Jobs that cannot be read -/

/-- The only error of the access checks. -/
def unreadable : Err := .valueError "unrecognized stored requirement"

theorem storedRequirements_error {footprint : Footprint} {e : Err}
    (h : storedRequirements footprint = .error e) : e = unreadable := by
  unfold storedRequirements at h
  obtain ⟨entry, -, he⟩ := Rows.mapM_error h
  split at he
  · cases he
  · exact (Except.error.inj he).symm

theorem requirements_error {job : WorkforceImportJob} {e : Err} (h : jobAccessRequirements db job = .error e) :
    e = unreadable := by
  unfold jobAccessRequirements at h
  dsimp only at h
  split at h
  · next footprint _ =>
    split_ifs at h
    cases hs : storedRequirements footprint with
    | error e' =>
      rw [hs] at h
      obtain rfl : e' = e := Except.error.inj h
      exact storedRequirements_error hs
    | ok rs =>
      rw [hs] at h
      cases h
  · cases h

/-- A job is accessible, or not, or cannot be read. -/
theorem access_error {job : WorkforceImportJob} {e : Err} (h : canAccessJob db now actor job = .error e) :
    e = unreadable ∧ job.uploaderId ≠ actor ∧ jobAccessRequirements db job = .error unreadable := by
  unfold canAccessJob at h
  split_ifs at h with how
  cases hr : jobAccessRequirements db job with
  | error e' =>
    rw [hr] at h
    obtain rfl : e' = e := Except.error.inj h
    obtain rfl := requirements_error hr
    exact ⟨rfl, Ne.symm how, rfl⟩
  | ok rs =>
    rw [hr] at h
    cases h

/-- The actor reaches the job. -/
def reaches (db : Db) (now : Time) (actor : Uuid) (job : WorkforceImportJob) : Bool :=
  match canAccessJob db now actor job with
  | .ok accessible => accessible
  | .error _ => false

theorem accessibleJobs_ok {jobs : List WorkforceImportJob}
    (h : ∀ job ∈ jobs, ∃ accessible, canAccessJob db now actor job = .ok accessible) :
    accessibleJobs db now actor jobs = .ok (jobs.filter (reaches db now actor)) := by
  induction jobs with
  | nil => rfl
  | cons job jobs ih =>
    obtain ⟨accessible, hacc⟩ := h job List.mem_cons_self
    have hreach : reaches db now actor job = accessible := by
      unfold reaches
      rw [hacc]
    rw [accessibleJobs, hacc, ih fun j hj => h j (List.mem_cons_of_mem _ hj), List.filter_cons, hreach]
    cases accessible <;> rfl

theorem accessibleJobs_error {jobs : List WorkforceImportJob} {job : WorkforceImportJob} (hjob : job ∈ jobs)
    (h : canAccessJob db now actor job = .error unreadable) :
    accessibleJobs db now actor jobs = .error unreadable := by
  induction jobs with
  | nil => cases hjob
  | cons job' jobs ih =>
    rw [accessibleJobs]
    cases hacc : canAccessJob db now actor job' with
    | error e =>
      obtain ⟨rfl, -⟩ := access_error hacc
      rfl
    | ok accessible =>
      rcases List.mem_cons.1 hjob with rfl | hjob
      · rw [h] at hacc
        cases hacc
      · rw [ih hjob]
        rfl

/-! ## One resolution for all candidates -/

/-- What each candidate requires is found under its own identifier. -/
theorem lookup_requirements {jobs : List WorkforceImportJob} {rs : List (Uuid × Option (List (Option Requirement)))}
    (hnodup : (jobs.map WorkforceImportJob.id).Nodup)
    (h : List.Forall₂ (fun job y => (do return (job.id, ← jobAccessRequirements db job)) = Except.ok y) jobs rs)
    {job : WorkforceImportJob} (hjob : job ∈ jobs) : ∃ r, jobAccessRequirements db job = .ok r ∧
      rs.lookup job.id = some r ∧ (job.id, r) ∈ rs := by
  induction h with
  | nil => cases hjob
  | @cons job' y jobs rs hy hrest ih =>
    obtain ⟨hnot, hnodup⟩ := List.nodup_cons.1 hnodup
    cases hr : jobAccessRequirements db job' with
    | error e =>
      rw [hr] at hy
      cases hy
    | ok r =>
      rw [hr] at hy
      obtain rfl : (job'.id, r) = y := Except.ok.inj hy
      rcases List.mem_cons.1 hjob with rfl | hjob
      · exact ⟨r, hr, by simp, List.mem_cons_self⟩
      · obtain ⟨r', hr', hlookup, hmem⟩ := ih hnodup hjob
        refine ⟨r', hr', ?_, List.mem_cons_of_mem _ hmem⟩
        have hne : job.id ≠ job'.id := fun he => hnot (he ▸ List.mem_map_of_mem hjob)
        rw [List.lookup_cons, beq_false_of_ne hne]
        exact hlookup

/-- Each candidate is decided by its own requirements. -/
theorem satisfied_eq_reaches (now : Time) (hteams : Table.Unique db.teams) (hcampaigns : Table.Unique db.campaigns)
    {jobs : List WorkforceImportJob} {rs : List (Uuid × Option (List (Option Requirement)))}
    (hnodup : (jobs.map WorkforceImportJob.id).Nodup)
    (h : List.Forall₂ (fun job y => (do return (job.id, ← jobAccessRequirements db job)) = Except.ok y)
      (jobs.filter fun job => job.uploaderId ≠ actor) rs)
    {job : WorkforceImportJob} (hjob : job ∈ jobs) : ∃ accessible, canAccessJob db now actor job = .ok accessible ∧
      accessible = (job.uploaderId = actor || ((rs.lookup job.id).join).any fun r => requirementsSatisfied r
        (satisfiedAuthority authorityChunkSize Authz.bulkChunkSize db now actor
          (distinctTargets (rs.filterMap Prod.snd).flatten) (distinctScopes (rs.filterMap Prod.snd).flatten)
          (distinctCampaigns (rs.filterMap Prod.snd).flatten))) := by
  unfold canAccessJob
  by_cases how : actor = job.uploaderId
  · exact ⟨true, if_pos how, by simp [how]⟩
  · have hother : job ∈ jobs.filter fun job => job.uploaderId ≠ actor :=
      List.mem_filter.2 ⟨hjob, decide_eq_true (Ne.symm how)⟩
    have hkeys : ((jobs.filter fun job => job.uploaderId ≠ actor).map WorkforceImportJob.id).Nodup :=
      hnodup.sublist (List.filter_sublist.map _)
    obtain ⟨r, hr, hlookup, hmem⟩ := lookup_requirements hkeys h hother
    refine ⟨_, by rw [if_neg how, hr]; rfl, ?_⟩
    rw [hlookup, decide_eq_false (Ne.symm how), Bool.false_or]
    cases r with
    | none => rfl
    | some requirements =>
      have hsub : ∀ q ∈ requirements, q ∈ (rs.filterMap Prod.snd).flatten := fun q hq =>
        List.mem_flatten.2 ⟨requirements, List.mem_filterMap.2 ⟨_, hmem, rfl⟩, hq⟩
      change authorityOverRequirements db now actor requirements = requirementsSatisfied requirements _
      rw [authorityOverRequirements_eq hteams hcampaigns, requirementsSatisfied_eq hteams hcampaigns hsub]

/-- The list shows the accessible candidates up to the limit, but always the first of them. -/
theorem visibleJobs_eq (hteams : Table.Unique db.teams) (hcampaigns : Table.Unique db.campaigns)
    (hjobs : Table.Unique db.workforceJobs) : visibleJobs c db actor limit candidateLimit =
      (accessibleJobs db (c.utcnow 0) actor ((newestJobs c db.workforceJobs).take candidateLimit)).map
        (List.take (max limit 1).toNat) := by
  unfold visibleJobs
  dsimp only
  generalize hcandidates : (newestJobs c db.workforceJobs).take candidateLimit = candidates
  have hnodup : (candidates.map WorkforceImportJob.id).Nodup := by
    have hall : ((newestJobs c db.workforceJobs).map WorkforceImportJob.id).Nodup :=
      ((perm_orderBy _ _).map _).nodup_iff.2 hjobs
    rw [← hcandidates, List.map_take]
    exact hall.sublist (List.take_sublist ..)
  rcases Rows.mapM_cases (fun job => do return (job.id, ← jobAccessRequirements db job))
    (candidates.filter fun job => job.uploaderId ≠ actor) with ⟨rs, hrs, hall⟩ | ⟨job, hjob, e, he, herror⟩
  · have hdecide {job : WorkforceImportJob} (hjob : job ∈ candidates) :=
      satisfied_eq_reaches (c.utcnow 0) hteams hcampaigns hnodup hall hjob
    rw [hrs, accessibleJobs_ok fun job hjob => (hdecide hjob).imp fun _ h => h.1]
    change Except.ok _ = Except.ok _
    rw [listJobs_eq _ _ _ _ (Or.inl rfl), List.nil_append]
    refine congrArg (fun jobs => Except.ok (List.take _ jobs)) (List.filter_congr fun job hjob => ?_)
    obtain ⟨accessible, hacc, heq⟩ := hdecide hjob
    unfold reaches
    rw [hacc]
    exact heq.symm
  · obtain ⟨hjob, hother⟩ := List.mem_filter.1 hjob
    have hr : jobAccessRequirements db job = .error unreadable := by
      cases hr : jobAccessRequirements db job with
      | error e => rw [requirements_error hr]
      | ok r =>
        rw [hr] at he
        cases he
    have hacc : canAccessJob db (c.utcnow 0) actor job = .error unreadable := by
      unfold canAccessJob
      rw [if_neg (Ne.symm (of_decide_eq_true hother)), hr]
      rfl
    obtain rfl : e = unreadable := by
      rw [hr] at he
      exact (Except.error.inj he).symm
    rw [herror, accessibleJobs_error hjob hacc]
    rfl

/-! ## Newest first -/

/-- With distinct creation times the list is the jobs from the newest to the oldest. -/
theorem newestJobs_sorted (hdistinct : (db.workforceJobs.map WorkforceImportJob.createdAt).Nodup) :
    (newestJobs c db.workforceJobs).Pairwise fun a b => b.createdAt < a.createdAt := by
  have hperm : (newestJobs c db.workforceJobs).Perm db.workforceJobs := perm_orderBy _ _
  have hsorted := pairwise_orderBy (fun a b : WorkforceImportJob =>
    toLex (-a.createdAt, c.rank a.id) ≤ toLex (-b.createdAt, c.rank b.id)) _ (fun _ _ => Iff.rfl) db.workforceJobs
  have hne : (newestJobs c db.workforceJobs).Pairwise fun a b => a.createdAt ≠ b.createdAt :=
    List.pairwise_map.1 ((hperm.map _).nodup_iff.2 hdistinct)
  refine (hsorted.and hne).imp fun {a b} h => ?_
  rcases Prod.Lex.le_iff.1 h.1 with hlt | ⟨heq, -⟩
  · exact neg_lt_neg_iff.1 hlt
  · exact absurd (neg_inj.1 heq) h.2

theorem newest_unique {newest : List WorkforceImportJob}
    (hdistinct : (db.workforceJobs.map WorkforceImportJob.createdAt).Nodup) (hperm : newest.Perm db.workforceJobs)
    (hsorted : newest.Pairwise fun a b => b.createdAt < a.createdAt) : newest = newestJobs c db.workforceJobs := by
  refine List.Perm.eq_of_pairwise (fun a b _ _ hab hba => ?_) hsorted (newestJobs_sorted hdistinct)
    (hperm.trans (perm_orderBy _ _).symm)
  exact absurd hab (lt_asymm hba)

/-- The list is right exactly when it may hold a job, or when there is no job to hold. -/
theorem list_shows_accessible (hteams : Table.Unique db.teams) (hcampaigns : Table.Unique db.campaigns)
    (hjobs : Table.Unique db.workforceJobs)
    (hdistinct : (db.workforceJobs.map WorkforceImportJob.createdAt).Nodup) :
    ShowsAccessible db (c.utcnow 0) actor limit candidateLimit (visibleJobs c db actor limit candidateLimit) ↔
      (1 ≤ limit ∨ ∃ job ∈ (newestJobs c db.workforceJobs).take candidateLimit,
        ∃ e, canAccessJob db (c.utcnow 0) actor job = .error e) ∨
      ∀ job ∈ (newestJobs c db.workforceJobs).take candidateLimit,
        canAccessJob db (c.utcnow 0) actor job = .ok false := by
  rw [visibleJobs_eq hteams hcampaigns hjobs]
  have hshow : ShowsAccessible db (c.utcnow 0) actor limit candidateLimit
      ((accessibleJobs db (c.utcnow 0) actor ((newestJobs c db.workforceJobs).take candidateLimit)).map
        (List.take (max limit 1).toNat)) ↔
      (accessibleJobs db (c.utcnow 0) actor ((newestJobs c db.workforceJobs).take candidateLimit)).map
        (List.take (max limit 1).toNat) =
      (accessibleJobs db (c.utcnow 0) actor ((newestJobs c db.workforceJobs).take candidateLimit)).map
        (List.take limit.toNat) := by
    constructor
    · exact fun h => h _ (perm_orderBy _ _) (newestJobs_sorted hdistinct)
    · intro h newest hperm hsorted
      rw [newest_unique (c := c) hdistinct hperm hsorted, h]
  rw [hshow]
  generalize (newestJobs c db.workforceJobs).take candidateLimit = candidates
  by_cases herror : ∃ job ∈ candidates, ∃ e, canAccessJob db (c.utcnow 0) actor job = .error e
  · obtain ⟨job, hjob, e, he⟩ := herror
    obtain ⟨rfl, -⟩ := access_error he
    rw [accessibleJobs_error hjob he]
    exact iff_of_true rfl (Or.inl (Or.inr ⟨job, hjob, _, he⟩))
  · have hok : ∀ job ∈ candidates, ∃ accessible, canAccessJob db (c.utcnow 0) actor job = .ok accessible := by
      intro job hjob
      cases hacc : canAccessJob db (c.utcnow 0) actor job with
      | error e => exact absurd ⟨job, hjob, e, hacc⟩ herror
      | ok accessible => exact ⟨accessible, rfl⟩
    rw [accessibleJobs_ok hok]
    change Except.ok _ = Except.ok _ ↔ _
    rw [Except.ok.injEq, or_iff_left herror]
    by_cases hlimit : 1 ≤ limit
    · exact iff_of_true (by rw [max_eq_left hlimit]) (Or.inl hlimit)
    · -- the first accessible job is listed, and the limit allows none
      have hone : (max limit 1).toNat = 1 := by omega
      have hzero : limit.toNat = 0 := by omega
      rw [or_iff_right hlimit, hone, hzero, List.take_zero, List.take_eq_nil_iff, or_iff_right (by decide), List.filter_eq_nil_iff]
      refine forall₂_congr fun job hjob => ?_
      obtain ⟨accessible, hacc⟩ := hok job hjob
      unfold reaches
      rw [hacc]
      cases accessible <;> simp

end Jobs

namespace Demo

/-- One job, shown to the user who uploaded it. -/
def own : Db where
  workforceJobs := [{ id := 1, importType := .users, uploaderId := 7 }]

end Demo

theorem list_shows_accessible_own :
    ShowsAccessible Demo.own 0 7 50 200 (visibleJobs { utcnow := fun _ => 0, uuid4 := id } Demo.own 7 50 200) := by
  have hteams : Table.Unique Demo.own.teams := List.nodup_nil
  have hcampaigns : Table.Unique Demo.own.campaigns := List.nodup_nil
  have hjobs : Table.Unique Demo.own.workforceJobs := List.nodup_singleton _
  exact (list_shows_accessible hteams hcampaigns hjobs (List.nodup_singleton _)).2 (Or.inl (Or.inl (by decide)))

/-- With a limit of zero the list shows a job. -/
theorem list_shows_one_too_many :
    ¬ShowsAccessible Demo.own 0 7 0 200 (visibleJobs { utcnow := fun _ => 0, uuid4 := id } Demo.own 7 0 200) := by
  intro h
  have hone := h Demo.own.workforceJobs (.refl _) (List.pairwise_singleton ..)
  exact absurd hone (by decide +kernel)

end OmniDB.WorkforceImports
