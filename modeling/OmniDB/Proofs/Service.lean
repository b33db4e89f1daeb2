import OmniDB.Proofs.Queue
import OmniDB.Spec.Service
import OmniDB.Tx.Failing

/-! What each request and background task does with no other transaction about. A spec
names the tables an operation writes; every other table is the old one. -/

namespace OmniDB

open Tx

/-! ## Statements -/

section Statements

variable {s s' : Db} {u : Unit}

@[simp] theorem runs_recordAudit {e : AuditEvent} : (recordAudit e).Runs s u s' ↔ s' = s.log e := by
  simp [recordAudit]

@[simp] theorem runs_notify {n : Notification} : (notify n).Runs s u s' ↔
    n.title.length ≤ 200 ∧ s' = { s with notifications := s.notifications ++ [n] } := by
  simp [notify, Prog.runs_bind]

@[simp] theorem runs_requireEnabled {key : String} : (requireEnabled key).Runs s u s' ↔
    s.flag key = true ∧ s' = s := by
  simp [requireEnabled, Prog.runs_bind, and_comm]

variable {ρ : Type} [Keyed ρ Uuid] {n : String} {key : Uuid → LockKey} {table : Db → List ρ}

@[simp] theorem runs_insertRow {push : ρ → Db → Db} {r : ρ} :
    (insertRow n key table push r).Runs s u s' ↔
      Table.find (table s) (Tx.key r) = none ∧ s' = push r s := by
  simp [insertRow, Prog.runs_bind]

theorem runs_lockRow {skip : Bool} {cond : ρ → Bool} {acc rows : List ρ} {r : ρ}
    (h : (lockRow n skip key table cond acc r).Runs s rows s') :
    rows = acc ++ ((Table.find (table s) (Tx.key r)).filter cond).toList ∧ s' = s := by
  unfold lockRow at h
  cases skip <;> simpa [Prog.runs_bind, and_comm] using h

/-- A multi-row `FOR UPDATE` reads each row of its snapshot again, and writes nothing. -/
theorem runs_lockRows {skip : Bool} {cond : Db → ρ → Bool} {sort : List ρ → List ρ} {rows : List ρ}
    (h : (lockRows n skip key table cond sort).Runs s rows s') :
    rows = (sort ((table s).filter (cond s))).flatMap
      (fun r => ((Table.find (table s) (Tx.key r)).filter (cond s)).toList) ∧ s' = s := by
  unfold lockRows at h
  rw [Prog.runs_bind] at h
  obtain ⟨_, _, hv, h⟩ := h
  obtain ⟨rfl, rfl⟩ := Prog.runs_view.1 hv
  refine Prog.runs_foldlM (M := fun done acc t => acc = done.flatMap
    (fun r => ((Table.find (table _) (Tx.key r)).filter (cond _)).toList) ∧ t = _) ?_ _ [] ⟨rfl, rfl⟩ h
  rintro done r acc t acc' t' ⟨rfl, rfl⟩ hr
  obtain ⟨rfl, rfl⟩ := runs_lockRow hr
  simp

/-- Alone, it finds the rows of its snapshot. -/
theorem mem_of_lockRows {skip : Bool} {cond : Db → ρ → Bool} {sort : List ρ → List ρ} {rows : List ρ}
    (hu : Table.Unique (table s)) (hsort : ∀ t, (sort t).Perm t)
    (h : (lockRows n skip key table cond sort).Runs s rows s') :
    rows = sort ((table s).filter (cond s)) := by
  rw [(runs_lockRows h).1]
  have hrow : ∀ r ∈ sort ((table s).filter (cond s)),
      ((Table.find (table s) (Tx.key r)).filter (cond s)).toList = [r] := by
    intro r hr
    obtain ⟨hr, hc⟩ := List.mem_filter.1 ((hsort _).mem_iff.1 hr)
    rw [hu.find_of_mem hr, Option.filter_some, if_pos hc]
    rfl
  rw [List.flatMap_congr hrow]
  simp

/-! ### Which of them can fail -/

variable {e : Err}

@[simp] theorem fails_recordAudit {a : AuditEvent} : ¬(recordAudit a).Fails s e s' := Prog.fails_update

@[simp] theorem fails_requireEnabled {flag : String} : (requireEnabled flag).Fails s e s' ↔
    s.flag flag = false ∧ e = .featureDisabled flag ∧ s' = s := by
  simp [requireEnabled, Prog.fails_bind]

@[simp] theorem fails_getRow {id : Uuid} : ¬(getRow n table id).Fails s e s' := by simp [getRow]

@[simp] theorem fails_insertRow {push : ρ → Db → Db} {r : ρ} : (insertRow n key table push r).Fails s e s' ↔
    (Table.find (table s) (Tx.key r)).isSome ∧ e = .integrityError ("pk_" ++ n) ∧ s' = s := by
  simp [insertRow, Prog.fails_bind]

theorem not_fails_lockRows {skip : Bool} {cond : Db → ρ → Bool} {sort : List ρ → List ρ} :
    ¬(lockRows n skip key table cond sort).Fails s e s' := by
  unfold lockRows
  rw [Prog.fails_bind]
  rintro (h | ⟨db, t, -, h⟩)
  · exact Prog.fails_view h
  · refine Prog.not_fails_foldlM (fun acc r s e s' h => ?_) _ h
    unfold lockRow at h
    cases skip <;> simp [Prog.fails_bind] at h

/-- Alone, a multi-row `FOR UPDATE` ends with the rows of its snapshot. -/
theorem lockRows_total {skip : Bool} {cond : Db → ρ → Bool} {sort : List ρ → List ρ} (hu : Table.Unique (table s))
    (hsort : ∀ t, (sort t).Perm t) :
    (lockRows n skip key table cond sort).Runs s (sort ((table s).filter (cond s))) s := by
  rcases Prog.runs_or_fails (lockRows n skip key table cond sort) s with ⟨rows, t, h⟩ | ⟨e, t, h⟩
  · obtain rfl := mem_of_lockRows hu hsort h
    obtain ⟨-, rfl⟩ := runs_lockRows h
    exact h
  · exact absurd h not_fails_lockRows

end Statements

namespace Campaigns

variable {s s' : Db} {u : Unit}

@[simp] theorem runs_setCampaign {id : Uuid} {f : Campaign → Campaign} : (setCampaign id f).Runs s u s' ↔
    s' = { s with campaigns := Table.modify s.campaigns id f } := by
  simp [setCampaign, Prog.runs_bind]

@[simp] theorem runs_setUserAssignment {id : Uuid} {f : CampaignUserAssignment → CampaignUserAssignment} :
    (setUserAssignment id f).Runs s u s' ↔
      s' = { s with userAssignments := Table.modify s.userAssignments id f } := by
  simp [setUserAssignment, Prog.runs_bind]

@[simp] theorem runs_insertUserAssignment {a : CampaignUserAssignment} :
    (insertUserAssignment a).Runs s u s' ↔ Table.find s.userAssignments a.id = none ∧
      s' = { s with userAssignments := s.userAssignments ++ [a] } := runs_insertRow

theorem runs_checkStaffingCapacity {c : Call} {campaign : Uuid} {team : Option Uuid} {now : Time}
    (h : (checkStaffingCapacity c campaign team now).Runs s u s') : s' = s := by
  unfold checkStaffingCapacity at h
  cases team with
  | none => exact (Prog.runs_pure.1 h).2
  | some team =>
    rw [Prog.runs_bind] at h
    obtain ⟨rows, t, hrows, h⟩ := h
    obtain ⟨-, rfl⟩ := runs_lockRows hrows
    split at h
    · exact (Prog.runs_pure.1 h).2
    · simp only [Prog.runs_bind, Prog.runs_view, Prog.runs_raiseIf] at h
      obtain ⟨_, _, ⟨-, rfl⟩, -, rfl⟩ := h
      rfl

end Campaigns

@[simp] theorem Imports.runs_setImportJob {id : Uuid} {f : ImportJob → ImportJob} {s s' : Db} {u : Unit} :
    (setImportJob id f).Runs s u s' ↔ s' = { s with importJobs := Table.modify s.importJobs id f } := by
  simp [setImportJob, Prog.runs_bind]

namespace Service

variable {c : Call} {user id : Uuid} {x x' : Db} {u : Unit}

theorem runs_loadCampaign {now : Time} {cap : Capability} {k : Campaign}
    (h : (loadCampaign now user id cap).Runs x k x') :
    Table.find x.campaigns id = some k ∧ Authz.hasCampaignCapability x now user cap id = true ∧ x' = x := by
  unfold loadCampaign requireCampaignCapability at h
  simp only [Prog.runs_bind, runs_getRow, Prog.runs_expect, Prog.runs_view, Prog.runs_raiseIf,
    Prog.runs_pure] at h
  obtain ⟨_, _, ⟨rfl, rfl⟩, _, _, ⟨hk, rfl⟩, _, _, ⟨_, _, ⟨rfl, rfl⟩, hc, rfl⟩, rfl, rfl⟩ := h
  refine ⟨hk, ?_, rfl⟩
  have hid : k.id = id := Table.key_of_find hk
  simpa [hid] using hc

theorem runs_requireTeam {team : Option Uuid} (h : (requireTeam team).Runs x u x') : x' = x := by
  unfold requireTeam at h
  cases team with
  | none => exact (Prog.runs_pure.1 h).2
  | some team =>
    simp only [Prog.runs_bind, runs_getRow, Prog.runs_raiseIf] at h
    obtain ⟨_, _, ⟨-, rfl⟩, -, rfl⟩ := h
    rfl

/-! ## Campaigns -/

/-- Campaign `id` is moved from one status to another. -/
def MovesCampaign (id : Uuid) (st st' : CampaignStatus) (x x' : Db) : Prop :=
  ∃ k f e, x' = Db.log e { x with campaigns := Table.modify x.campaigns id f } ∧
    Table.find x.campaigns id = some k ∧ k.status = st ∧ (∀ k : Campaign, (f k).id = k.id) ∧ (f k).status = st'

theorem updateCampaign_runs {p : Campaigns.CampaignPatch} (h : (updateCampaign c user id p).Runs x u x') :
    MovesCampaign id .draft .draft x x' := by
  unfold updateCampaign Campaigns.updateCampaign at h
  simp only [Prog.runs_bind, Prog.runs_raiseIf, Campaigns.runs_setCampaign, runs_recordAudit] at h
  obtain ⟨k, _, hk, _, _, ⟨hst, rfl⟩, _, _, rfl, rfl⟩ := h
  obtain ⟨hk, -, rfl⟩ := runs_loadCampaign hk
  obtain rfl : k.id = id := Table.key_of_find hk
  exact ⟨k, _, _, rfl, hk, not_not.1 hst, fun _ => rfl, not_not.1 hst⟩

theorem launchCampaign_runs (h : (launchCampaign c user id).Runs x u x') :
    MovesCampaign id .draft .active x x' := by
  unfold launchCampaign Campaigns.launchCampaign at h
  simp only [Prog.runs_bind, Prog.runs_raiseIf, Prog.runs_view, runs_requireEnabled] at h
  obtain ⟨k, _, hk, _, _, ⟨-, rfl⟩, _, _, ⟨hst, rfl⟩, _, _, ⟨-, rfl⟩, _, _, ⟨rfl, rfl⟩, _, _, ⟨-, rfl⟩, h⟩ := h
  obtain ⟨hk, -, rfl⟩ := runs_loadCampaign hk
  obtain rfl : k.id = id := Table.key_of_find hk
  split_ifs at h
  · simp only [Prog.runs_bind, Prog.runs_raiseIf, Prog.runs_view, Campaigns.runs_setCampaign, runs_recordAudit] at h
    obtain ⟨_, _, ⟨rfl, rfl⟩, _, _, ⟨-, rfl⟩, _, _, rfl, rfl⟩ := h
    exact ⟨k, _, _, rfl, hk, not_not.1 hst, fun _ => rfl, rfl⟩
  · simp only [Prog.runs_bind, Campaigns.runs_setCampaign, runs_recordAudit] at h
    obtain ⟨_, _, ⟨-, rfl⟩, _, _, rfl, rfl⟩ := h
    exact ⟨k, _, _, rfl, hk, not_not.1 hst, fun _ => rfl, rfl⟩

theorem pauseCampaign_runs (h : (pauseCampaign c user id).Runs x u x') : MovesCampaign id .active .paused x x' := by
  unfold pauseCampaign Campaigns.pauseCampaign at h
  simp only [Prog.runs_bind, Prog.runs_raiseIf, Campaigns.runs_setCampaign, runs_recordAudit] at h
  obtain ⟨k, _, hk, _, _, ⟨hst, rfl⟩, _, _, rfl, rfl⟩ := h
  obtain ⟨hk, -, rfl⟩ := runs_loadCampaign hk
  obtain rfl : k.id = id := Table.key_of_find hk
  exact ⟨k, _, _, rfl, hk, not_not.1 hst, fun _ => rfl, rfl⟩

theorem archiveCampaign_runs (h : (archiveCampaign c user id).Runs x u x') :
    ∃ st, st ≠ .completed ∧ st ≠ .archived ∧ MovesCampaign id st .archived x x' := by
  unfold archiveCampaign Campaigns.archiveCampaign at h
  simp only [Prog.runs_bind, Prog.runs_raiseIf, Campaigns.runs_setCampaign, runs_recordAudit] at h
  obtain ⟨k, _, hk, _, _, ⟨hst, rfl⟩, _, _, rfl, rfl⟩ := h
  obtain ⟨hk, -, rfl⟩ := runs_loadCampaign hk
  obtain rfl : k.id = id := Table.key_of_find hk
  rw [not_or] at hst
  exact ⟨k.status, hst.1, hst.2, k, _, _, rfl, hk, rfl, fun _ => rfl, rfl⟩

/-! ## Staffing -/

/-- Only the team assignments change. -/
def StaffsTeams (x x' : Db) : Prop := ∃ ts e, x' = Db.log e { x with teamAssignments := ts }

theorem assignTeam_runs {team : Uuid} {capacity : Option ℤ}
    (h : (assignTeam c user id team capacity).Runs x u x') : StaffsTeams x x' := by
  unfold assignTeam Campaigns.assignTeamToCampaign at h
  simp only [Prog.runs_bind, runs_insertRow, runs_recordAudit] at h
  obtain ⟨k, _, hk, _, _, ht, _, _, ⟨-, rfl⟩, rfl⟩ := h
  obtain ⟨-, -, rfl⟩ := runs_loadCampaign hk
  obtain rfl := runs_requireTeam ht
  exact ⟨_, _, rfl⟩

theorem endTeamAssignment_runs {assignment : Uuid}
    (h : (endTeamAssignment c user id assignment).Runs x u x') : StaffsTeams x x' := by
  unfold endTeamAssignment Campaigns.endTeamAssignment at h
  simp only [Prog.runs_bind, runs_getRow, Prog.runs_expect, Prog.runs_acquire, Prog.runs_update,
    runs_recordAudit] at h
  obtain ⟨k, _, hk, _, _, ⟨rfl, rfl⟩, a, _, ⟨-, rfl⟩, _, _, rfl, _, _, rfl, rfl⟩ := h
  obtain ⟨-, -, rfl⟩ := runs_loadCampaign hk
  exact ⟨_, _, rfl⟩

/-- The rows of the agent on the campaign are released. -/
def releasedRows (x : Db) (agent campaign : Uuid) : List WorkItem :=
  x.workItems.map fun w =>
    if x.campaignOf w = some campaign ∧ Work.heldBy agent w = true then Work.released w else w

theorem runs_setAll {f : WorkItem → WorkItem} {rows : List WorkItem} {n : ℕ}
    (h : (Work.setAll f rows).Runs x n x') :
    x' = { x with workItems := Table.modifyAll x.workItems (rows.map WorkItem.id) f } := by
  unfold Work.setAll at h
  refine Prog.runs_foldlM
    (M := fun done _ t => t = { x with workItems := Table.modifyAll x.workItems (done.map WorkItem.id) f })
    ?_ rows [] rfl h
  rintro done w acc t acc' t' rfl hw
  simp only [Work.setWorkItem, Prog.runs_bind, Prog.runs_update, Prog.runs_pure] at hw
  obtain ⟨_, _, rfl, -, rfl⟩ := hw
  simp [Db.modifyWorkItem, Table.modifyAll_append]

/-- Alone, the release finds every row of the agent on the campaign. -/
theorem releaseCampaignWorkForAgent_runs {agent campaign : Uuid} {n : ℕ}
    (h : (Work.releaseCampaignWorkForAgent c agent campaign).Runs x n x') (hu : Table.Unique x.workItems) :
    x' = { x with workItems := releasedRows x agent campaign } := by
  unfold Work.releaseCampaignWorkForAgent at h
  rw [Prog.runs_bind] at h
  obtain ⟨rows, t, hrows, h⟩ := h
  obtain rfl := (runs_lockRows hrows).2
  obtain rfl := mem_of_lockRows hu (perm_scan c) hrows
  rw [runs_setAll h, Table.modifyAll_eq_map (f := Work.released) (fun _ => rfl)]
  swap
  · exact ((perm_scan c _).map _).nodup_iff.2 (hu.filter _)
  unfold releasedRows
  congr 1
  refine List.map_congr_left fun w hw => ?_
  have hmem : w.id ∈ (scan c (t.workItems.filter fun w => decide (t.campaignOf w = some campaign) &&
      Work.heldBy agent w)).map WorkItem.id ↔ t.campaignOf w = some campaign ∧ Work.heldBy agent w = true := by
    simp only [List.mem_map, mem_scan, List.mem_filter,
      Bool.and_eq_true, decide_eq_true_eq]
    refine ⟨?_, fun hc => ⟨w, ⟨hw, hc⟩, rfl⟩⟩
    rintro ⟨v, ⟨hv, hc⟩, he⟩
    rwa [← hu.eq hv hw he]
  exact if_congr hmem rfl rfl

/-- An assignment of the agent to the campaign begins. -/
structure Begins (campaign agent : Uuid) (now : Time) (a : CampaignUserAssignment) : Prop where
  campaign : a.campaignId = campaign
  user : a.userId = agent
  role : a.campaignRole = "agent"
  active : a.status = .active
  start : a.effectiveFrom = now
  stop : a.effectiveTo = none

def ended (now : Time) (a : CampaignUserAssignment) : CampaignUserAssignment :=
  { a with status := .ended, effectiveTo := some now }

/-- `POST .../assignments`. -/
def Assigns (campaign agent : Uuid) (now : Time) (x x' : Db) : Prop :=
  ∃ a e, x' = Db.log e { x with userAssignments := x.userAssignments ++ [a] } ∧
    Table.find x.userAssignments a.id = none ∧ Begins campaign agent now a

theorem assignAgent_runs {r : Campaigns.AssignRequest} (h : (assignAgent c user id r).Runs x u x') :
    Assigns id r.agentId (c.utcnow 1) x x' := by
  unfold assignAgent Campaigns.assignAgentToCampaign at h
  rw [Prog.runs_bind] at h
  obtain ⟨k, _, hk, h⟩ := h
  obtain ⟨hk, -, rfl⟩ := runs_loadCampaign hk
  obtain rfl : k.id = id := Table.key_of_find hk
  rw [Prog.runs_bind] at h
  obtain ⟨_, _, ht, h⟩ := h
  obtain rfl := runs_requireTeam ht
  split_ifs at h
  · simp only [Prog.runs_bind, Prog.runs_view, Prog.runs_raiseIf, Campaigns.runs_insertUserAssignment,
      runs_recordAudit, Prog.runs_pure, and_assoc, exists_and_left, exists_eq_left, exists_const] at h
    obtain ⟨_, -, _, ⟨_, _, hcap, hfree, -, rfl⟩, -, rfl⟩ := h
    obtain rfl := Campaigns.runs_checkStaffingCapacity hcap
    exact ⟨_, _, rfl, hfree, rfl, rfl, rfl, rfl, rfl, rfl⟩
  · simp only [Prog.runs_bind, Campaigns.runs_insertUserAssignment, runs_recordAudit, Prog.runs_pure, and_assoc,
      exists_and_left, exists_eq_left, exists_const] at h
    obtain ⟨_, _, ⟨_, _, hcap, hfree, -, rfl⟩, -, rfl⟩ := h
    obtain rfl := Campaigns.runs_checkStaffingCapacity hcap
    exact ⟨_, _, rfl, hfree, rfl, rfl, rfl, rfl, rfl, rfl⟩

/-- An assignment ends, and the agent's work on its campaign is released. -/
def EndsAssignment (campaign assignment : Uuid) (now : Time) (x x' : Db) : Prop :=
  ∃ a e, x' = Db.log e { x with
      userAssignments := Table.modify x.userAssignments assignment (ended now)
      workItems := releasedRows x a.userId campaign } ∧
    Table.find x.userAssignments assignment = some a ∧ a.campaignId = campaign

theorem endAgentAssignment_runs {assignment : Uuid} (hu : Table.Unique x.workItems)
    (h : (endAgentAssignment c user id assignment).Runs x u x') :
    EndsAssignment id assignment (c.utcnow 0) x x' := by
  unfold endAgentAssignment Campaigns.endUserAssignment at h
  simp only [Prog.runs_bind, runs_getRow, Prog.runs_expect, Campaigns.runs_setUserAssignment,
    runs_recordAudit] at h
  obtain ⟨k, _, hk, _, _, ⟨rfl, rfl⟩, a, _, ⟨ha, rfl⟩, _, _, rfl, n, t, hr, rfl⟩ := h
  obtain ⟨hk, -, rfl⟩ := runs_loadCampaign hk
  obtain ⟨ha, hc⟩ := Option.filter_eq_some_iff.1 ha
  obtain rfl := releaseCampaignWorkForAgent_runs hr hu
  have hid : k.id = id := Table.key_of_find hk
  obtain rfl : a.id = assignment := Table.key_of_find ha
  obtain rfl : a.campaignId = id := hid ▸ of_decide_eq_true hc
  exact ⟨a, _, rfl, ha, rfl⟩

/-- The agent's primary assignment moves to another campaign. -/
def Transfers (source destination agent : Uuid) (now : Time) (x x' : Db) : Prop :=
  ∃ current a e, x' = Db.log e { x with
      userAssignments := Table.modify x.userAssignments current.id (ended now) ++ [a]
      workItems := releasedRows x agent source } ∧
    current ∈ x.userAssignments ∧ current.userId = agent ∧ current.campaignId = source ∧
    Table.find x.userAssignments a.id = none ∧ Begins destination agent now a

theorem transferAgent_runs {source destination agent : Uuid} {team : Option Uuid} {reason : Option String}
    (hu : Table.Unique x.workItems)
    (h : (transferAgent c user source destination agent team reason).Runs x u x') :
    Transfers source destination agent (c.utcnow 1) x x' := by
  unfold transferAgent requireCampaignCapability Campaigns.transferAgent at h
  simp only [Prog.runs_bind, runs_getRow, Prog.runs_expect, Prog.runs_view, Prog.runs_raiseIf,
    Campaigns.runs_setUserAssignment, Campaigns.runs_insertUserAssignment, runs_recordAudit,
    Prog.runs_pure, and_assoc, exists_and_left, exists_eq_left, exists_const] at h
  obtain ⟨src, hsrc, dst, hdst, -, -, _, t, ht, -, _, _, ⟨current, hcur, -, _, t', hcap, n, y, hr, hfree, -, hy⟩,
    -, rfl⟩ := h
  subst hy
  obtain rfl := runs_requireTeam ht
  obtain rfl := Campaigns.runs_checkStaffingCapacity hcap
  obtain rfl := releaseCampaignWorkForAgent_runs hr hu
  obtain rfl : src.id = source := Table.key_of_find hsrc
  obtain rfl : dst.id = destination := Table.key_of_find hdst
  have hmem := mem_scan.1 (List.mem_of_head? hcur)
  obtain ⟨hmem, hc⟩ := List.mem_filter.1 hmem
  simp only [Bool.and_eq_true, decide_eq_true_eq] at hc
  obtain ⟨⟨⟨⟨hagent, hsource⟩, -⟩, -⟩, -⟩ := hc
  refine ⟨current, _, _, rfl, hmem, hagent, hsource, ?_, rfl, rfl, rfl, rfl, rfl, rfl⟩
  exact Table.find_eq_none_of_modify (f := ended (c.utcnow 1)) (fun _ h => h) hfree

/-! ## Imports -/

/-- A new job, not parsed yet. -/
def Uploads (campaign : Uuid) (x x' : Db) : Prop :=
  ∃ j e, x' = Db.log e { x with importJobs := x.importJobs ++ [j] } ∧
    Table.find x.importJobs j.id = none ∧ j.campaignId = campaign ∧ j.state = .quarantined

theorem uploadImport_runs {f : Upload} (h : (uploadImport c user id f).Runs x u x') : Uploads id x x' := by
  unfold uploadImport Imports.createImportJob at h
  simp only [Prog.runs_bind, runs_requireEnabled, runs_insertRow, runs_recordAudit, Prog.runs_pure] at h
  obtain ⟨k, _, hk, _, _, ⟨_, _, ⟨-, rfl⟩, _, _, ⟨hfree, rfl⟩, _, _, rfl, -, rfl⟩, -, rfl⟩ := h
  obtain ⟨hk, -, rfl⟩ := runs_loadCampaign hk
  obtain rfl : k.id = id := Table.key_of_find hk
  exact ⟨_, _, rfl, hfree, rfl, rfl⟩

/-- The outcome of a parse: the job is parsed or failed, with rows of its own. -/
def Parses (id : Uuid) (x x' : Db) : Prop :=
  ∃ job f rows e, x' = Db.log e { x with
      importJobs := Table.modify x.importJobs id f, importRows := x.importRows ++ rows } ∧
    Table.find x.importJobs id = some job ∧ job.state = .quarantined ∧ (∀ j, (f j).id = j.id) ∧
    (∀ j, (f j).state = .failed ∨ (f j).state = .parsed) ∧ ∀ r ∈ rows, r.importJobId = id

theorem classifyRow_job {protect : Imports.Protect} {db : Db} {job : Uuid} {campaign : Campaign}
    {cols : Imports.Columns} {seen : List Fingerprint} {id : Uuid} {row : Imports.ParsedRow} :
    (Imports.classifyRow protect db job campaign cols seen id row).1.importJobId = job := by
  unfold Imports.classifyRow
  dsimp only
  split
  · rfl
  · split <;> rfl

theorem add_rows (t : Imports.Tally) (row : ImportRow) (seen : List Fingerprint) :
    (t.add row seen).rows = t.rows ++ [row] := by
  unfold Imports.Tally.add
  dsimp only
  split_ifs <;> rfl

/-- A loop over the file that only reads, and adds one row of the job at a time. -/
theorem parseRows_runs (id : Uuid) {f : Imports.Tally → Imports.ParsedRow → Txn Imports.Tally} {rows : List Imports.ParsedRow}
    {tally : Imports.Tally}
    (hf : ∀ {t row y t' y'}, (f t row).Runs y t' y' →
      y' = y ∧ ∃ r : ImportRow, t'.rows = t.rows ++ [r] ∧ r.importJobId = id)
    (h : (rows.foldlM f {}).Runs x tally x') : x' = x ∧ ∀ r ∈ tally.rows, r.importJobId = id := by
  refine Prog.runs_foldlM
    (M := fun _ t y => y = x ∧ ∀ r ∈ t.rows, r.importJobId = id) ?_ rows [] ⟨rfl, by simp⟩ h
  intro done row t y t' y' ⟨hy, ht⟩ hr
  obtain ⟨rfl, r, ht', hid⟩ := hf hr
  refine ⟨hy, fun r' hr' => ?_⟩
  rw [ht', List.mem_append, List.mem_singleton] at hr'
  rcases hr' with hr' | rfl
  · exact ht r' hr'
  · exact hid

def parsing (j : ImportJob) : ImportJob := { j with state := .parsing }

def failed (error : String) (j : ImportJob) : ImportJob :=
  { j with state := .failed, errorSummary := some error }

def parsed (t : Imports.Tally) (j : ImportJob) : ImportJob := { j with
  totalRows := t.total, validRows := t.valid, invalidRows := t.invalid
  duplicateRows := t.duplicates, suppressionHits := t.suppressed, state := .parsed }

theorem parses_of_fail (rows : List ImportRow) {job : ImportJob} {error reason : String}
    (hjob : Table.find x.importJobs id = some job) (hq : job.state = .quarantined)
    (hrows : ∀ r ∈ rows, r.importJobId = id)
    (h : (Imports.failParse job error reason).Runs { x with
      importJobs := Table.modify x.importJobs id parsing, importRows := x.importRows ++ rows } u x') :
    Parses id x x' := by
  unfold Imports.failParse at h
  simp only [Prog.runs_bind, Imports.runs_setImportJob, runs_recordAudit] at h
  obtain ⟨_, _, rfl, rfl⟩ := h
  obtain rfl : job.id = id := Table.key_of_find hjob
  change Parses job.id x (Db.log _ { x with
    importJobs := Table.modify (Table.modify x.importJobs job.id parsing) job.id (failed error)
    importRows := x.importRows ++ rows })
  rw [Table.modify_modify (f := parsing) fun _ h => h]
  exact ⟨job, failed error ∘ parsing, rows, _, rfl, hjob, hq, fun _ => rfl, fun _ => Or.inl rfl, hrows⟩

theorem parseJob_runs {protect : Imports.Protect} {file : Imports.SourceFile} {cols : Imports.Columns}
    (h : (Imports.parseJob c protect file cols id).Runs x u x') : x' = x ∨ Parses id x x' := by
  unfold Imports.parseJob at h
  rw [Prog.runs_bind] at h
  obtain ⟨o, y, ho, h⟩ := h
  obtain ⟨ho, rfl⟩ := runs_selectForUpdate.1 ho
  cases o with
  | none => exact Or.inl (Prog.runs_pure.1 h).2
  | some job =>
    obtain ⟨hjob, -⟩ := Option.filter_eq_some_iff.1 ho.symm
    dsimp only at h
    by_cases hq : job.state = .quarantined
    swap
    · rw [if_neg hq] at h
      exact Or.inl (Prog.runs_pure.1 h).2
    rw [if_pos hq] at h
    right
    simp only [Prog.runs_bind, Imports.runs_setImportJob, runs_getRow, and_assoc, exists_and_left,
      exists_eq_left, exists_const] at h
    generalize Table.find y.campaigns job.campaignId = o at h
    cases o with
    | none => exact parses_of_fail [] hjob hq (by simp) (by rw [List.append_nil]; exact h)
    | some campaign =>
      dsimp only at h
      by_cases hcol : cols.phone ∉ file.header
      · rw [if_pos hcol] at h
        exact parses_of_fail [] hjob hq (by simp) (by rw [List.append_nil]; exact h)
      rw [if_neg hcol] at h
      simp only [Prog.runs_bind] at h
      obtain ⟨tally, t, ht, h⟩ := h
      obtain ⟨rfl, hrows⟩ := parseRows_runs id (fun hr => by
        simp only [Prog.runs_bind, Prog.runs_view, Prog.runs_pure, and_assoc, exists_and_left, exists_eq_left] at hr
        exact ⟨hr.2, _, hr.1 ▸ add_rows _ _ _, classifyRow_job⟩) ht
      split at h
      · simp only [Imports.addRows, Prog.runs_bind, Prog.runs_update] at h
        obtain ⟨_, _, rfl, h⟩ := h
        exact parses_of_fail _ hjob hq (fun r hr => hrows r (List.mem_of_mem_take hr)) h
      simp only [Imports.addRows, Prog.runs_bind, Prog.runs_update] at h
      obtain ⟨_, _, rfl, h⟩ := h
      split_ifs at h
      · exact parses_of_fail _ hjob hq hrows h
      simp only [Prog.runs_bind, Imports.runs_setImportJob, runs_recordAudit] at h
      obtain ⟨_, _, rfl, rfl⟩ := h
      change Parses id y (Db.log _ { y with
        importJobs := Table.modify (Table.modify y.importJobs id parsing) id (parsed tally)
        importRows := y.importRows ++ tally.rows })
      rw [Table.modify_modify (f := parsing) fun _ h => h]
      exact ⟨job, parsed tally ∘ parsing, tally.rows, _, rfl, hjob, hq, fun _ => rfl, fun _ => Or.inr rfl, hrows⟩

/-- A decision about a job is recorded under the next version. -/
def Decides (now : Time) (user id : Uuid) (decision : Decision) (x x' : Db) : Prop :=
  ∃ job d e, x' = Db.log e { x with
      importJobs := Table.modify x.importJobs id fun j => { j with decisionVersion := job.decisionVersion + 1 }
      importDecisions := x.importDecisions ++ [d] } ∧
    Table.find x.importJobs id = some job ∧
    Authz.hasCampaignCapability x now user .manageCampaign job.campaignId = true ∧
    d.importJobId = id ∧ d.decisionVersion = job.decisionVersion + 1 ∧ d.decision = decision ∧ d.decidedBy = user

theorem decideImport_runs {decision : Decision} {note : Option String}
    (h : (decideImport c user id decision note).Runs x u x') : Decides (c.utcnow 1) user id decision x x' := by
  unfold decideImport Imports.recordDecision at h
  simp only [Prog.runs_bind, runs_getRow, Prog.runs_expect, Imports.runs_setImportJob, Prog.runs_update,
    runs_recordAudit, Prog.runs_pure, and_assoc, exists_and_left, exists_eq_left, exists_const] at h
  obtain ⟨job, hjob, k, _, hk, -, rfl⟩ := h
  obtain ⟨-, hauth, rfl⟩ := runs_loadCampaign hk
  obtain rfl : job.id = id := Table.key_of_find hjob
  exact ⟨job, _, _, rfl, hjob, hauth, rfl, rfl, rfl, rfl⟩

/-- An expired job loses its rows, or its expiry when it is committed. -/
def Expires (x x' : Db) : Prop :=
  ∃ job, Table.find x.importJobs job.id = some job ∧
    ((job.state = .committed ∧ x' = { x with
        importJobs := Table.modify x.importJobs job.id fun j => { j with expiresAt := none } }) ∨
      (job.state ≠ .committed ∧ x' = { x with
        importRows := x.importRows.filter fun r => r.importJobId ≠ job.id
        importJobs := Table.modify x.importJobs job.id fun j => { j with state := .expired } }))

theorem cleanupExpiredJobs_runs {n : ℕ} (hu : Table.Unique x.importJobs)
    (h : (Imports.cleanupExpiredJobs c).Runs x n x') : Relation.ReflTransGen Expires x x' := by
  unfold Imports.cleanupExpiredJobs at h
  rw [Prog.runs_bind] at h
  obtain ⟨v, y, hv, h⟩ := h
  obtain ⟨rfl, rfl⟩ := Prog.runs_view.1 hv
  -- a job the loop has not come to is as the scan saw it
  let M (done : List ImportJob) (_ : ℕ) (t : Db) : Prop := (done.map ImportJob.id).Nodup →
    (∀ j ∈ done, j ∈ y.importJobs) → Relation.ReflTransGen Expires y t ∧
      ∀ j ∈ y.importJobs, j.id ∉ done.map ImportJob.id → Table.find t.importJobs j.id = some j
  have hM := Prog.runs_foldlM (M := M) ?step _ [] ?init h
  case init => exact fun _ _ => ⟨.refl, fun j hj _ => hu.find_of_mem hj⟩
  case step =>
    intro done job m t m' t' hd hr hn hin
    rw [List.map_append, List.nodup_append] at hn
    obtain ⟨hrun, hleft⟩ := hd hn.1 fun j hj => hin j (List.mem_append_left _ hj)
    have hjob : Table.find t.importJobs job.id = some job :=
      hleft job (hin job (by simp)) fun hmem => hn.2.2 _ hmem _ (by simp) rfl
    have hother : ∀ f : ImportJob → ImportJob, (∀ j, (f j).id = j.id) → ∀ j ∈ y.importJobs,
        j.id ∉ (done ++ [job]).map ImportJob.id →
        Table.find (Table.modify t.importJobs job.id f) j.id = some j := by
      intro f hf j hj hnot
      rw [List.map_append, List.mem_append, not_or] at hnot
      rw [Table.find_modify_ne (fun r hr => (hf r).trans hr) (by simpa using hnot.2)]
      exact hleft j hj hnot.1
    split_ifs at hr with hc
    · simp only [Prog.runs_bind, Imports.runs_setImportJob, Prog.runs_pure] at hr
      obtain ⟨_, _, rfl, -, rfl⟩ := hr
      exact ⟨hrun.tail ⟨job, hjob, Or.inl ⟨hc, rfl⟩⟩, hother _ fun _ => rfl⟩
    · simp only [Prog.runs_bind, Prog.runs_update, Imports.runs_setImportJob, Prog.runs_pure] at hr
      obtain ⟨_, _, rfl, _, _, rfl, -, rfl⟩ := hr
      exact ⟨hrun.tail ⟨job, hjob, Or.inr ⟨hc, rfl⟩⟩, hother _ fun _ => rfl⟩
  refine (hM ?_ fun j hj => ?_).1
  · exact ((perm_scan c _).map _).nodup_iff.2 (hu.filter _)
  · exact (List.mem_filter.1 (mem_scan.1 hj)).1

/-! ## Retention -/

/-- A campaign whose contacts are all done is marked completed. -/
def Completes (x x' : Db) : Prop :=
  ∃ k f ns e, x' = { Db.log e { x with campaigns := Table.modify x.campaigns k.id f } with
      notifications := ns } ∧
    Table.find x.campaigns k.id = some k ∧ Retention.campaignIsComplete x k = true ∧
    (∀ k : Campaign, (f k).id = k.id) ∧ ∀ k : Campaign, (f k).status = .completed

theorem detectOne_runs {now : Time} {n m : ℕ} (h : (Retention.detectOne now n id).Runs x m x') :
    x' = x ∨ Completes x x' := by
  unfold Retention.detectOne at h
  rw [Prog.runs_bind] at h
  obtain ⟨o, y, ho, h⟩ := h
  obtain ⟨ho, rfl⟩ := runs_getRow.1 ho
  cases o with
  | none => exact Or.inl (Prog.runs_pure.1 h).2
  | some k =>
    obtain rfl : k.id = id := Table.key_of_find ho.symm
    simp only [Prog.runs_bind, Prog.runs_view] at h
    obtain ⟨_, y, ⟨rfl, rfl⟩, h⟩ := h
    by_cases hc : Retention.campaignIsComplete y k = true
    swap
    · rw [if_neg hc] at h
      exact Or.inl (Prog.runs_pure.1 h).2
    rw [if_pos hc, Prog.runs_bind] at h
    obtain ⟨_, t, hm, h⟩ := h
    obtain ⟨-, rfl⟩ := Prog.runs_pure.1 h
    unfold Retention.markCampaignCompleted at hm
    simp only [Prog.runs_bind, Campaigns.runs_setCampaign, runs_recordAudit] at hm
    obtain ⟨_, _, rfl, _, _, rfl, hm⟩ := hm
    refine Or.inr ?_
    split at hm
    · obtain ⟨-, rfl⟩ := Prog.runs_pure.1 hm
      exact ⟨k, _, _, _, rfl, ho.symm, hc, fun _ => rfl, fun _ => rfl⟩
    · obtain ⟨-, rfl⟩ := runs_notify.1 hm
      exact ⟨k, _, _, _, rfl, ho.symm, hc, fun _ => rfl, fun _ => rfl⟩

theorem detectCompletedCampaigns_runs {n : ℕ} (h : (Retention.detectCompletedCampaigns c).Runs x n x') :
    Relation.ReflTransGen Completes x x' := by
  unfold Retention.detectCompletedCampaigns at h
  rw [Prog.runs_bind] at h
  obtain ⟨v, y, hv, h⟩ := h
  obtain ⟨rfl, rfl⟩ := Prog.runs_view.1 hv
  refine Prog.runs_foldlM (M := fun _ _ t => Relation.ReflTransGen Completes y t) ?_ _ [] .refl h
  intro done id m t m' t' ht hr
  rcases detectOne_runs hr with rfl | hc
  · exact ht
  · exact ht.tail hc

/-- The database without the data of a campaign. -/
def purged (campaign : Uuid) (x : Db) : Db :=
  let ids := ((Retention.contactsOf x campaign).map CampaignContact.contactId).dedup
  let y := Retention.deleteCampaignRows campaign x
  { y with
    contacts := y.contacts.filter fun k => !(Retention.orphaned ids y).contains k.id
    campaigns := Table.modify y.campaigns campaign fun k => { k with retentionDeleteAfter := none } }

/-- The data of a completed campaign is deleted. -/
def Purges (campaign : Uuid) (x x' : Db) : Prop :=
  ∃ k e, x' = Db.log e (purged campaign x) ∧ Table.find x.campaigns campaign = some k ∧ k.status = .completed

theorem deleteCompletedCampaignData_runs {k : Campaign} {actor : Option Uuid} {reason : Option String}
    {n : ℕ × ℕ} (hk : Table.find x.campaigns id = some k)
    (h : (Retention.deleteCompletedCampaignData k actor reason).Runs x n x') : Purges id x x' := by
  obtain rfl : k.id = id := Table.key_of_find hk
  unfold Retention.deleteCompletedCampaignData at h
  simp only [Prog.runs_bind, Prog.runs_raiseIf, Prog.runs_view, Prog.runs_update, Campaigns.runs_setCampaign,
    runs_recordAudit, Prog.runs_pure, and_assoc, exists_and_left, exists_eq_left, exists_const] at h
  obtain ⟨hst, -, -, -, -, rfl⟩ := h
  exact ⟨k, _, rfl, hk, not_not.1 hst⟩

theorem deleteCampaignData_runs (h : (deleteCampaignData c user id).Runs x u x') : Purges id x x' := by
  unfold deleteCampaignData at h
  simp only [Prog.runs_bind, runs_getRow, Prog.runs_expect, Prog.runs_view, Prog.runs_raiseIf,
    Prog.runs_pure, and_assoc, exists_and_left, exists_eq_left, exists_const] at h
  obtain ⟨k, hk, -, _, _, hd, -, rfl⟩ := h
  exact deleteCompletedCampaignData_runs hk hd

/-- No contact of the campaign is left. -/
def NoContacts (x : Db) (campaign : Uuid) : Prop := ∀ cc ∈ x.campaignContacts, cc.campaignId ≠ campaign

theorem noContacts_purged (campaign : Uuid) (x : Db) : NoContacts (purged campaign x) campaign := by
  intro cc hcc
  exact of_decide_eq_true (List.mem_filter.1 hcc).2

theorem NoContacts.purged {k : Uuid} (h : NoContacts x k) (campaign : Uuid) :
    NoContacts (purged campaign x) k := fun cc hcc => h cc (List.mem_filter.1 hcc).1

theorem find_purged (campaign k : Uuid) : Table.find (purged campaign x).campaigns k =
    if k = campaign then (Table.find x.campaigns k).map fun k => { k with retentionDeleteAfter := none }
    else Table.find x.campaigns k := Table.find_modify fun _ h => h

/-- The task purges some completed campaigns, the due ones among them. -/
def PurgesDue (now : Time) (x x' : Db) : Prop :=
  Relation.ReflTransGen (fun y y' => ∃ campaign, Purges campaign y y') x x' ∧
    ∀ k ∈ x.campaigns, k.status = .completed → dueBy k.retentionDeleteAfter now = true → NoContacts x' k.id

theorem purgeExpiredCampaignData_runs {n : ℕ} (h : (Retention.purgeExpiredCampaignData c).Runs x n x') :
    PurgesDue (c.utcnow 0) x x' := by
  unfold Retention.purgeExpiredCampaignData at h
  rw [Prog.runs_bind] at h
  obtain ⟨v, y, hv, h⟩ := h
  obtain ⟨rfl, rfl⟩ := Prog.runs_view.1 hv
  let M (done : List Uuid) (_ : ℕ) (t : Db) : Prop :=
    Relation.ReflTransGen (fun y y' => ∃ campaign, Purges campaign y y') y t ∧
      (∀ id, (Table.find y.campaigns id).isSome → (Table.find t.campaigns id).isSome) ∧
      ∀ id ∈ done, (Table.find y.campaigns id).isSome → NoContacts t id
  have hM := Prog.runs_foldlM (M := M) ?step _ [] ⟨.refl, fun _ h => h, by simp⟩ h
  case step =>
    rintro done id m t m' t' ⟨hrun, hsome, hdone⟩ hr
    unfold Retention.purgeOne at hr
    rw [Prog.runs_bind] at hr
    obtain ⟨o, t₁, ho, hr⟩ := hr
    obtain ⟨ho, rfl⟩ := runs_getRow.1 ho
    cases o with
    | none =>
      obtain ⟨-, rfl⟩ := Prog.runs_pure.1 hr
      refine ⟨hrun, hsome, fun j hj hjs => ?_⟩
      rcases List.mem_append.1 hj with hj | hj
      · exact hdone j hj hjs
      · have := hsome j hjs
        rw [List.mem_singleton.1 hj, ← ho] at this
        cases this
    | some k =>
      rw [Prog.runs_bind] at hr
      obtain ⟨_, t₂, hd, hr⟩ := hr
      obtain ⟨-, rfl⟩ := Prog.runs_pure.1 hr
      have hp := deleteCompletedCampaignData_runs ho.symm hd
      refine ⟨hrun.tail ⟨id, hp⟩, fun j hj => ?_, fun j hj hjs => ?_⟩
      · obtain ⟨-, e, rfl, -⟩ := hp
        change (Table.find (purged id t₁).campaigns j).isSome
        rw [find_purged]
        split_ifs <;> simpa using hsome j hj
      · obtain ⟨-, e, rfl, -⟩ := hp
        rcases List.mem_append.1 hj with hj | hj
        · exact (hdone j hj hjs).purged id
        · rw [List.mem_singleton.1 hj]
          exact noContacts_purged id t₁
  refine ⟨hM.1, fun k hk hst hdue => hM.2.2 k.id ?_ ?_⟩
  · rw [List.nil_append]
    exact List.mem_map_of_mem (mem_scan.2 (List.mem_filter.2 ⟨hk, by simp [hst, hdue]⟩))
  · exact Table.find_isSome.2 ⟨k, hk, rfl⟩

/-! ## All operations -/

/-- What an operation that succeeds does. -/
def Op.Effect : Op → Db → Db → Prop
  | .work op => fun x x' => ∃ a, (Queue.body op).Runs x a x'
  | .updateCampaign _ _ id _ => MovesCampaign id .draft .draft
  | .launchCampaign _ _ id => MovesCampaign id .draft .active
  | .pauseCampaign _ _ id => MovesCampaign id .active .paused
  | .archiveCampaign _ _ id => fun x x' =>
    ∃ st, st ≠ .completed ∧ st ≠ .archived ∧ MovesCampaign id st .archived x x'
  | .assignTeam .. => StaffsTeams
  | .endTeamAssignment .. => StaffsTeams
  | .assignAgent c _ id r => Assigns id r.agentId (c.utcnow 1)
  | .endAgentAssignment c _ id assignment => EndsAssignment id assignment (c.utcnow 0)
  | .transferAgent c _ source destination agent _ _ => Transfers source destination agent (c.utcnow 1)
  | .uploadImport _ _ id _ => Uploads id
  | .parseImport _ _ _ _ id => fun x x' => x' = x ∨ Parses id x x'
  | .decideImport c user id decision _ => Decides (c.utcnow 1) user id decision
  | .cleanupImports _ => Relation.ReflTransGen Expires
  | .detectCompleted _ => Relation.ReflTransGen Completes
  | .purgeExpired c => PurgesDue (c.utcnow 0)
  | .deleteCampaignData _ _ id => Purges id

theorem effect_of_runs {op : Op} {a : Result} (hw : Table.Unique x.workItems)
    (hj : Table.Unique x.importJobs) (h : (body op).Runs x a x') : op.Effect x x' := by
  cases op <;> obtain ⟨b, h, -⟩ := Prog.runs_map.1 h
  case work => exact ⟨b, h⟩
  case updateCampaign => exact updateCampaign_runs h
  case launchCampaign => exact launchCampaign_runs h
  case pauseCampaign => exact pauseCampaign_runs h
  case archiveCampaign => exact archiveCampaign_runs h
  case assignTeam => exact assignTeam_runs h
  case endTeamAssignment => exact endTeamAssignment_runs h
  case assignAgent => exact assignAgent_runs h
  case endAgentAssignment => exact endAgentAssignment_runs hw h
  case transferAgent => exact transferAgent_runs hw h
  case uploadImport => exact uploadImport_runs h
  case parseImport => exact parseJob_runs h
  case decideImport => exact decideImport_runs h
  case cleanupImports => exact cleanupExpiredJobs_runs hj h
  case detectCompleted => exact detectCompletedCampaigns_runs h
  case purgeExpired => exact purgeExpiredCampaignData_runs h
  case deleteCampaignData => exact deleteCampaignData_runs h

/-! ## The links of the database -/

theorem mem_purged {cc : CampaignContact} {campaign : Uuid} :
    cc ∈ (purged campaign x).campaignContacts ↔ cc ∈ x.campaignContacts ∧ cc.campaignId ≠ campaign := by
  simp [purged, Retention.deleteCampaignRows]

/-- A contact that stays is found as before. -/
theorem find_contact_purged {cc : CampaignContact} {campaign : Uuid} (hu : Table.Unique x.campaignContacts)
    (hcc : Table.find x.campaignContacts id = some cc) (hne : cc.campaignId ≠ campaign) :
    Table.find (purged campaign x).campaignContacts id = some cc := by
  rw [show id = key cc from (Table.key_of_find hcc).symm]
  exact Table.Unique.find_of_mem (hu.filter _) (mem_purged.2 ⟨Table.mem_of_find hcc, hne⟩)

theorem mem_items_purged {w : WorkItem} {campaign : Uuid} (hx : x.WellFormed) :
    w ∈ (purged campaign x).workItems ↔ w ∈ x.workItems ∧ x.campaignOf w ≠ some campaign := by
  have hmem : w ∈ (purged campaign x).workItems ↔ w ∈ x.workItems ∧
      w.campaignContactId ∉ (Retention.contactsOf x campaign).map CampaignContact.id := by
    simp [purged, Retention.deleteCampaignRows]
  rw [hmem]
  refine and_congr_right fun hw => not_congr ?_
  obtain ⟨cc, hcc⟩ := hx.campaignContact _ w (hx.workItems.find_of_mem hw)
  have hid : cc.id = w.campaignContactId := Table.key_of_find hcc
  simp only [Db.campaignOf, hcc, Option.map_some, Option.some.injEq, Retention.contactsOf, List.mem_map,
    List.mem_filter, decide_eq_true_eq]
  constructor
  · rintro ⟨cc', ⟨hcc', hk⟩, he⟩
    rwa [← hx.campaignContacts.eq hcc' (Table.mem_of_find hcc) (he.trans hid.symm)]
  · exact fun hk => ⟨cc, ⟨Table.mem_of_find hcc, hk⟩, hid⟩

theorem wellFormed_purged (hx : x.WellFormed) (campaign : Uuid) : (purged campaign x).WellFormed where
  workItems := hx.workItems.filter _
  campaignContacts := hx.campaignContacts.filter _
  contacts := hx.contacts.filter _
  campaignContact id w hw := by
    obtain ⟨hw, hk⟩ := (mem_items_purged hx).1 (Table.mem_of_find hw)
    obtain ⟨cc, hcc⟩ := hx.campaignContact _ w (hx.workItems.find_of_mem hw)
    refine ⟨cc, find_contact_purged hx.campaignContacts hcc fun he => hk ?_⟩
    rw [Db.campaignOf, hcc, Option.map_some, he]
  contact id cc hcc := by
    have hmem := mem_purged.1 (Table.mem_of_find hcc)
    obtain ⟨k, hk⟩ := hx.contact _ cc (hx.campaignContacts.find_of_mem hmem.1)
    have hid : k.id = cc.contactId := Table.key_of_find hk
    refine ⟨k, ?_⟩
    rw [Db.contact, ← hid]
    refine Table.Unique.find_of_mem (hx.contacts.filter _)
      (List.mem_filter.2 ⟨Table.mem_of_find hk, ?_⟩)
    -- a contact that a campaign still refers to is no orphan
    rw [Bool.not_eq_true', Bool.eq_false_iff]
    intro hgone
    have hnone := (List.mem_filter.1 (List.mem_of_elem_eq_true hgone)).2
    rw [Bool.not_eq_true', List.any_eq_false] at hnone
    exact hnone cc (Table.mem_of_find hcc) (by simpa using hid.symm)
  onePhone k hk k' hk' := hx.onePhone k (List.mem_filter.1 hk).1 k' (List.mem_filter.1 hk').1

theorem releasedRows_keys (x : Db) (agent campaign : Uuid) :
    (releasedRows x agent campaign).map key = x.workItems.map key := by
  rw [releasedRows, List.map_map]
  refine List.map_congr_left fun w _ => ?_
  dsimp only [Function.comp]
  split_ifs <;> rfl

theorem find_released (x : Db) (agent campaign id : Uuid) :
    Table.find (releasedRows x agent campaign) id = (Table.find x.workItems id).map fun w =>
      if x.campaignOf w = some campaign ∧ Work.heldBy agent w = true then Work.released w else w := by
  unfold releasedRows Table.find
  rw [List.find?_map]
  congr 2
  funext w
  dsimp only [Function.comp]
  split_ifs <;> rfl

theorem wellFormed_released (hx : x.WellFormed) (agent campaign : Uuid) :
    ({ x with workItems := releasedRows x agent campaign } : Db).WellFormed where
  workItems := by
    unfold Table.Unique
    rw [releasedRows_keys]
    exact hx.workItems
  campaignContacts := hx.campaignContacts
  contacts := hx.contacts
  campaignContact id w hw := by
    rw [find_released] at hw
    obtain ⟨v, hv, rfl⟩ := Option.map_eq_some_iff.1 hw
    obtain ⟨cc, hcc⟩ := hx.campaignContact id v hv
    refine ⟨cc, ?_⟩
    split_ifs <;> exact hcc
  contact := hx.contact
  onePhone := hx.onePhone

theorem Op.Effect.wellFormed {op : Op} (h : op.Effect x x') (hx : x.WellFormed) : x'.WellFormed := by
  cases op
  case work op =>
    obtain ⟨a, h⟩ := h
    obtain ⟨held, h⟩ := Queue.effect_of_runs hx h
    exact h.wellFormed hx
  case updateCampaign | launchCampaign | pauseCampaign =>
    obtain ⟨k, f, e, rfl, -⟩ := h
    exact { hx with }
  case archiveCampaign =>
    obtain ⟨st, -, -, k, f, e, rfl, -⟩ := h
    exact { hx with }
  case assignTeam | endTeamAssignment =>
    obtain ⟨ts, e, rfl⟩ := h
    exact { hx with }
  case assignAgent =>
    obtain ⟨a, e, rfl, -⟩ := h
    exact { hx with }
  case endAgentAssignment =>
    obtain ⟨a, e, rfl, -⟩ := h
    exact { wellFormed_released hx _ _ with }
  case transferAgent =>
    obtain ⟨current, a, e, rfl, -⟩ := h
    exact { wellFormed_released hx _ _ with }
  case uploadImport =>
    obtain ⟨j, e, rfl, -⟩ := h
    exact { hx with }
  case parseImport =>
    obtain rfl | ⟨job, f, rows, e, rfl, -⟩ := h
    · exact hx
    · exact { hx with }
  case decideImport =>
    obtain ⟨job, d, e, rfl, -⟩ := h
    exact { hx with }
  case cleanupImports =>
    induction h with
    | refl => exact hx
    | tail _ h ih =>
      obtain ⟨job, -, ⟨-, rfl⟩ | ⟨-, rfl⟩⟩ := h <;> exact { ih with }
  case detectCompleted =>
    induction h with
    | refl => exact hx
    | tail _ h ih =>
      obtain ⟨k, f, ns, e, rfl, -⟩ := h
      exact { ih with }
  case purgeExpired =>
    obtain ⟨h, -⟩ := h
    induction h with
    | refl => exact hx
    | tail _ h ih =>
      obtain ⟨campaign, k, e, rfl, -⟩ := h
      exact { wellFormed_purged ih campaign with }
  case deleteCampaignData =>
    obtain ⟨k, e, rfl, -⟩ := h
    exact { wellFormed_purged hx _ with }

theorem unique_of_keys {ρ : Type} [Keyed ρ Uuid] {t t' : List ρ} (h : t'.map key = t.map key)
    (ht : Table.Unique t) : Table.Unique t' := by
  unfold Table.Unique
  rw [h]
  exact ht

theorem Op.Effect.importKeys {op : Op} (h : op.Effect x x') (hx : x.WellFormed)
    (hu : Table.Unique x.importJobs) : Table.Unique x'.importJobs := by
  cases op
  case work op =>
    obtain ⟨a, h⟩ := h
    obtain ⟨held, h⟩ := Queue.effect_of_runs hx h
    exact unique_of_keys h.importKeys hu
  case updateCampaign | launchCampaign | pauseCampaign =>
    obtain ⟨k, f, e, rfl, -⟩ := h
    exact hu
  case archiveCampaign =>
    obtain ⟨st, -, -, k, f, e, rfl, -⟩ := h
    exact hu
  case assignTeam | endTeamAssignment =>
    obtain ⟨ts, e, rfl⟩ := h
    exact hu
  case assignAgent =>
    obtain ⟨a, e, rfl, -⟩ := h
    exact hu
  case endAgentAssignment =>
    obtain ⟨a, e, rfl, -⟩ := h
    exact hu
  case transferAgent =>
    obtain ⟨current, a, e, rfl, -⟩ := h
    exact hu
  case uploadImport =>
    obtain ⟨j, e, rfl, hfree, -⟩ := h
    exact hu.append hfree
  case parseImport =>
    obtain rfl | ⟨job, f, rows, e, rfl, -, -, hf, -⟩ := h
    · exact hu
    · exact hu.modify _ fun j hj => (hf j).trans hj
  case decideImport =>
    obtain ⟨job, d, e, rfl, -⟩ := h
    exact hu.modify _ fun _ hj => hj
  case cleanupImports =>
    clear hx
    induction h with
    | refl => exact hu
    | tail _ h ih =>
      obtain ⟨job, -, ⟨-, rfl⟩ | ⟨-, rfl⟩⟩ := h <;> exact ih.modify _ fun _ hj => hj
  case detectCompleted =>
    clear hx
    induction h with
    | refl => exact hu
    | tail _ h ih =>
      obtain ⟨k, f, ns, e, rfl, -⟩ := h
      exact ih
  case purgeExpired =>
    obtain ⟨h, -⟩ := h
    clear hx
    induction h with
    | refl => exact hu
    | tail _ h ih =>
      obtain ⟨campaign, k, e, rfl, -⟩ := h
      exact ih
  case deleteCampaignData =>
    obtain ⟨k, e, rfl, -⟩ := h
    exact hu

/-! ## Runs -/

/-- The links of the database, and the keys of its import jobs. -/
structure Valid (x : Db) : Prop where
  wellFormed : x.WellFormed
  importJobs : Table.Unique x.importJobs

theorem Valid.effect {op : Op} {a : Result} (hx : Valid x) (h : (body op).Runs x a x') : op.Effect x x' :=
  effect_of_runs hx.wellFormed.workItems hx.importJobs h

theorem Valid.step {op : Op} (hx : Valid x) (h : op.Effect x x') : Valid x' :=
  ⟨h.wellFormed hx.wellFormed, h.importKeys hx.wellFormed hx.importJobs⟩

/-- What every operation that meets the condition preserves holds after any number of them. -/
theorem invariant_of_serial {ok : Db → Op → Prop} {I : Db → Prop}
    (step : ∀ op x x', Valid x → ok x op → op.Effect x x' → I x → I x') {v : Db} (hv : Valid v) (hI : I v)
    (h : Prog.Serial body ok v x) : Valid x ∧ I x := by
  refine Prog.Serial.invariant (I := fun x => Valid x ∧ I x) ?_ h ⟨hv, hI⟩
  rintro op y a y' ⟨hy, hI⟩ hok hr
  have he := hy.effect hr
  exact ⟨hy.step he, step op y y' hy hok he hI⟩

end Service

end OmniDB
