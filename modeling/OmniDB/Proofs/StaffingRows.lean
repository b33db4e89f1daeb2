import OmniDB.Proofs.Footprint

/-! What the rows of a staffing import do to the assignments of one agent, when they are
committed and when they are reversed. The rows of a file move different agents, but for
`assign` rows that come too late, so each agent can be followed through both loops alone. -/

namespace OmniDB.WorkforceImports

open Tx
open Tx.Prog

variable {c : Call} {x y s s' : Db} {actor user : Uuid} {row : WorkforceImportRow}

/-- Campaign and team of the active primary assignment of a user, if there is one. -/
def staffing (db : Db) (user : Uuid) : List (Uuid × Option Uuid) :=
  (db.userAssignments.filter (isPrimaryAssignment user)).map fun a => (a.campaignId, a.teamId)

/-- `uq_cua_one_primary_active`. -/
def OnePrimary (db : Db) : Prop := ∀ user, (db.userAssignments.filter (isPrimaryAssignment user)).length ≤ 1

/-- The assignments of a user, ended ones included. -/
def staffOf (db : Db) (user : Uuid) : List CampaignUserAssignment :=
  db.userAssignments.filter fun a => a.userId = user

theorem user_of_primary {a : CampaignUserAssignment} (h : isPrimaryAssignment user a = true) : a.userId = user := by
  simp only [isPrimaryAssignment, Bool.and_eq_true, decide_eq_true_eq] at h
  exact h.1.1.1

theorem active_of_primary {a : CampaignUserAssignment} (h : isPrimaryAssignment user a = true) :
    a.status = .active ∧ a.effectiveTo = none := by
  simp only [isPrimaryAssignment, Bool.and_eq_true, decide_eq_true_eq, Option.isNone_iff_eq_none] at h
  exact ⟨h.1.2, h.2⟩

/-- The active primary assignment is among the assignments of the user. -/
theorem filter_staffOf (db : Db) (user : Uuid) :
    (staffOf db user).filter (isPrimaryAssignment user) = db.userAssignments.filter (isPrimaryAssignment user) := by
  unfold staffOf
  rw [List.filter_filter]
  refine List.filter_congr fun a _ => ?_
  by_cases h : isPrimaryAssignment user a = true
  · simp [h, user_of_primary h]
  · simp [h]

theorem staffing_congr (h : staffOf s user = staffOf s' user) : staffing s user = staffing s' user := by
  unfold staffing
  rw [← filter_staffOf, h, filter_staffOf]

/-- With one primary assignment at most, the user's is the only one selected. -/
theorem filter_primary (h : OnePrimary s) {a : CampaignUserAssignment} (ha : a ∈ s.userAssignments)
    (hp : isPrimaryAssignment user a = true) : s.userAssignments.filter (isPrimaryAssignment user) = [a] := by
  have hmem : a ∈ s.userAssignments.filter (isPrimaryAssignment user) := List.mem_filter.2 ⟨ha, hp⟩
  have hlen : (s.userAssignments.filter (isPrimaryAssignment user)).length = 1 :=
    Nat.le_antisymm (h user) (List.length_pos_of_mem hmem)
  obtain ⟨b, hb⟩ := List.length_eq_one_iff.1 hlen
  rw [hb] at hmem ⊢
  rw [List.mem_singleton.1 hmem]

/-! ## The statements of a row -/

instance (agent campaign : Uuid) : Leaves Db.userAssignments (Work.releaseCampaignWorkForAgent c agent campaign) := by
  have (id : Uuid) (f : WorkItem → WorkItem) : Leaves Db.userAssignments (Work.setWorkItem id f) := .update fun _ => rfl
  have (f : WorkItem → WorkItem) (items : List WorkItem) : Leaves Db.userAssignments (Work.setAll f items) := by
    unfold Work.setAll; infer_instance
  unfold Work.releaseCampaignWorkForAgent; infer_instance

theorem endUserAssignment_runs {a : CampaignUserAssignment} {reason : Option String} {u : Unit}
    (h : (Campaigns.endUserAssignment c a actor reason).Runs s u s') :
    s'.userAssignments = Table.modify s.userAssignments a.id (Service.ended (c.utcnow 0)) ∧
      s'.workforceRows = s.workforceRows := by
  refine ⟨?_, congrArg ImportTables.rows (Leaves.runs (π := Db.imports) h)⟩
  unfold Campaigns.endUserAssignment at h
  simp only [runs_bind, Campaigns.runs_setUserAssignment, runs_recordAudit] at h
  obtain ⟨_, _, rfl, n, t, hr, rfl⟩ := h
  exact Leaves.runs (π := Db.userAssignments) hr

/-- `_check_staffing_capacity` refuses one more assignment. -/
def AtCapacity (c : Call) (db : Db) (campaign : Uuid) (team : Option Uuid) : Prop :=
  ∃ e t, (Campaigns.checkStaffingCapacity c campaign team (c.utcnow 0)).Fails db e t

theorem checkStaffingCapacity_fails {campaign : Uuid} {team : Option Uuid} {now : Time} {e : Err}
    (h : (Campaigns.checkStaffingCapacity c campaign team now).Fails s e s') : s' = s := by
  unfold Campaigns.checkStaffingCapacity at h
  cases team with
  | none => exact (fails_pure h).elim
  | some team =>
    rw [fails_bind, or_iff_right not_fails_lockRows] at h
    obtain ⟨rows, t, hrows, h⟩ := h
    obtain ⟨-, rfl⟩ := runs_lockRows hrows
    split at h
    · exact (fails_pure h).elim
    · simp only [fails_bind, fails_view, false_or, runs_view, fails_raiseIf] at h
      obtain ⟨_, _, ⟨rfl, rfl⟩, -, -, rfl⟩ := h
      rfl

theorem not_atCapacity {campaign : Uuid} {team : Option Uuid} (h : s.teamAssignments = []) :
    ¬AtCapacity c s campaign team := by
  rintro ⟨e, t, hf⟩
  unfold Campaigns.checkStaffingCapacity at hf
  cases team with
  | none => exact fails_pure hf
  | some team =>
    rw [fails_bind, or_iff_right not_fails_lockRows] at hf
    obtain ⟨rows, t, hrows, hf⟩ := hf
    obtain ⟨rfl, -⟩ := runs_lockRows hrows
    rw [h] at hf
    exact fails_pure hf

/-- The assignment of an agent to a campaign, or what stood against it. -/
theorem tryAssign_runs {k : Campaign} {agent : Uuid} {team : Option Uuid} {o : Option CampaignUserAssignment}
    (h : (tryAssign c k agent team actor).Runs s o s') :
    (o = none ∧ s' = s ∧ (s.userAssignments.filter (isPrimaryAssignment agent) ≠ [] ∨ AtCapacity c s k.id team)) ∨
    ∃ a e, o = some a ∧ s' = Db.log e { s with userAssignments := s.userAssignments ++ [a] } ∧
      s.userAssignments.filter (isPrimaryAssignment agent) = [] ∧ Table.find s.userAssignments a.id = none ∧
      isPrimaryAssignment agent a = true ∧ a.campaignId = k.id ∧ a.teamId = team := by
  unfold tryAssign at h
  rw [runs_handle] at h
  rcases h with h | ⟨e, t, hf, h⟩
  · rw [runs_map] at h
    obtain ⟨a, h, rfl⟩ := h
    unfold Campaigns.assignAgentToCampaign at h
    rw [if_pos rfl] at h
    simp only [runs_bind, runs_view, runs_raiseIf, Campaigns.runs_insertUserAssignment, runs_recordAudit, runs_pure,
      and_assoc, exists_and_left, exists_eq_left, exists_const] at h
    obtain ⟨hnone, _, t, hcap, hfree, rfl, rfl⟩ := h
    obtain rfl := Campaigns.runs_checkStaffingCapacity hcap
    refine Or.inr ⟨_, _, rfl, rfl, ?_, hfree, ?_, rfl, rfl⟩
    · rw [List.filter_eq_nil_iff]
      simpa [isPrimaryAssignment] using hnone
    · simp [isPrimaryAssignment]
  · rw [fails_map] at hf
    unfold Campaigns.assignAgentToCampaign at hf
    rw [if_pos rfl] at hf
    simp only [fails_bind, runs_view, fails_view, false_or, fails_raiseIf, runs_raiseIf, and_assoc, exists_and_left,
      exists_eq_left, exists_const] at hf
    have hs : t = s ∧ (s.userAssignments.filter (isPrimaryAssignment agent) ≠ [] ∨ AtCapacity c s k.id team) ∨
        ∃ name, e = .integrityError name := by
      rcases hf with ⟨hany, -, rfl⟩ | ⟨-, hcap | ⟨_, u, hcap, hins | ⟨_, _, -, hf⟩⟩⟩
      · obtain ⟨a, ha, hp⟩ := List.any_eq_true.1 hany
        exact Or.inl ⟨rfl, Or.inl (List.ne_nil_of_mem (List.mem_filter.2 ⟨ha, hp⟩))⟩
      · obtain rfl := checkStaffingCapacity_fails hcap
        exact Or.inl ⟨rfl, Or.inr ⟨e, t, hcap⟩⟩
      · exact Or.inr ⟨_, (fails_insertRow.1 hins).2.1⟩
      · simp at hf
    rcases hs with ⟨rfl, hs⟩ | ⟨name, rfl⟩
    · split at h
      · obtain ⟨rfl, rfl⟩ := runs_pure.1 h
        exact Or.inl ⟨rfl, rfl, hs⟩
      · exact (runs_raise h).elim
    · exact (runs_raise h).elim

/-! ## One row of the commit -/

/-- The columns of a row of this type. -/
def campaignOf (row : WorkforceImportRow) : Option Uuid := (row.parsedValues.getD {}).campaignId

def teamOf (row : WorkforceImportRow) : Option Uuid := (row.parsedValues.getD {}).teamId

/-- What the commit of one staffing row does to the assignments. -/
inductive CommitsRow (row : WorkforceImportRow) (s s' : Db) : Option RowEffect → Prop where
  | ignored : s'.userAssignments = s.userAssignments → row.normalizedIdentity = none → CommitsRow row s s' none
  | skipped (user : Uuid) (conflict : String) : s'.userAssignments = s.userAssignments →
      row.normalizedIdentity = some user →
      (row.action ≠ some "assign" → ∀ a ∈ s.userAssignments, isPrimaryAssignment user a = true →
        campaignOf row ≠ some a.campaignId) → CommitsRow row s s' (some (skipped conflict))
  | assigned (user : Uuid) (a : CampaignUserAssignment) : s'.userAssignments = s.userAssignments ++ [a] →
      row.normalizedIdentity = some user → row.action = some "assign" →
      s.userAssignments.filter (isPrimaryAssignment user) = [] → Table.find s.userAssignments a.id = none →
      isPrimaryAssignment user a = true →
      CommitsRow row s s' (some (applied .assigned .campaignUserAssignment a.id))
  | ended (user : Uuid) (a : CampaignUserAssignment) (now : Time) :
      s'.userAssignments = Table.modify s.userAssignments a.id (Service.ended now) →
      row.normalizedIdentity = some user → row.action ≠ some "assign" → a ∈ s.userAssignments →
      isPrimaryAssignment user a = true → campaignOf row = some a.campaignId →
      CommitsRow row s s' (some (applied .ended .campaignUserAssignment a.id))

theorem runs_oneOrNone {ρ : Type} {rows : List ρ} {o : Option ρ} (h : (oneOrNone rows).Runs s o s') :
    s' = s ∧ o = rows.head? ∧ (o = none → rows = []) := by
  unfold oneOrNone at h
  split at h
  · obtain ⟨rfl, rfl⟩ := runs_pure.1 h
    exact ⟨rfl, rfl, fun _ => rfl⟩
  · obtain ⟨rfl, rfl⟩ := runs_pure.1 h
    exact ⟨rfl, rfl, fun h => by cases h⟩
  · exact (runs_raise h).elim

theorem commitCampaignAssignmentRow_runs (hu : Table.Unique s.userAssignments) {o : Option RowEffect}
    (h : (commitCampaignAssignmentRow c row actor).Runs s o s') :
    CommitsRow row s s' o ∧ s'.workforceRows = s.workforceRows := by
  refine ⟨?_, congrArg ImportTables.rows (Leaves.runs (π := Db.imports) h)⟩
  unfold commitCampaignAssignmentRow at h
  split at h
  · rename_i hid
    obtain ⟨rfl, rfl⟩ := runs_pure.1 h
    exact .ignored rfl hid
  rename_i user hid
  simp only [runs_bind, runs_expect, runs_getRow, and_assoc, exists_and_left, exists_eq_left] at h
  obtain ⟨campaign, hcampaign, k, hk, h⟩ := h
  have hkid : k.id = campaign := Table.key_of_find hk
  split at h
  · rename_i haction
    rw [runs_bind] at h
    obtain ⟨o', t, ho, h⟩ := h
    rcases tryAssign_runs ho with ⟨rfl, rfl, -⟩ | ⟨a, e, rfl, rfl, hnone, hfree, hp, -, -⟩
    · obtain ⟨rfl, rfl⟩ := runs_pure.1 h
      exact .skipped user _ rfl hid fun hne => absurd haction hne
    · obtain ⟨rfl, rfl⟩ := runs_pure.1 h
      exact .assigned user a rfl hid haction hnone hfree hp
  · rename_i haction
    simp only [runs_bind] at h
    obtain ⟨rows, t, hrows, current, t', hcurrent, h⟩ := h
    obtain ⟨-, rfl⟩ := runs_lockRows hrows
    obtain ⟨rfl, hhead, hnone⟩ := runs_oneOrNone hcurrent
    have hmem : ∀ a, a ∈ rows ↔ a ∈ t'.userAssignments ∧ a.campaignId = k.id ∧ isPrimaryAssignment user a = true := by
      intro a
      rw [mem_of_lockRows hu (perm_scan c) hrows, mem_scan, List.mem_filter, Bool.and_eq_true, decide_eq_true_eq]
    cases current with
    | none =>
      obtain ⟨rfl, rfl⟩ := runs_pure.1 h
      refine .skipped user _ rfl hid fun _ a ha hp hc => ?_
      have hin : a ∈ rows := (hmem a).2 ⟨ha, by rw [hkid]; exact Option.some.inj (hc.symm.trans hcampaign), hp⟩
      rw [hnone rfl] at hin
      cases hin
    | some a =>
      rw [runs_bind] at h
      obtain ⟨_, t, hend, h⟩ := h
      obtain ⟨rfl, rfl⟩ := runs_pure.1 h
      obtain ⟨ha, hc, hp⟩ := (hmem a).1 (List.mem_of_head? hhead.symm)
      exact .ended user a _ (endUserAssignment_runs hend).1 hid haction ha hp
        (hcampaign.trans (congrArg some (hkid.symm.trans hc.symm)))

/-! ## One row of the reversal -/

/-- What the reversal of one staffing row does to the assignments; `a` is the row's entity. -/
inductive ReversesRow (c : Call) (row : WorkforceImportRow) (a : CampaignUserAssignment) (s s' : Db) : Prop where
  | left : s'.userAssignments = s.userAssignments →
      (row.action = some "assign" → ¬(a.status = .active ∧ a.effectiveTo = none)) →
      (row.action ≠ some "assign" → (a.status = .active ∧ a.effectiveTo = none) ∨
        s.userAssignments.filter (isPrimaryAssignment a.userId) ≠ [] ∨ AtCapacity c s a.campaignId (teamOf row)) →
      ReversesRow c row a s s'
  | ended (now : Time) : s'.userAssignments = Table.modify s.userAssignments a.id (Service.ended now) →
      row.action = some "assign" → ReversesRow c row a s s'
  | restored (b : CampaignUserAssignment) : s'.userAssignments = s.userAssignments ++ [b] →
      row.action ≠ some "assign" → s.userAssignments.filter (isPrimaryAssignment a.userId) = [] →
      Table.find s.userAssignments b.id = none → isPrimaryAssignment a.userId b = true →
      b.campaignId = a.campaignId → b.teamId = teamOf row → ReversesRow c row a s s'

theorem reverseCampaignAssignmentRow_runs {id : Uuid} {o : Option Outcome}
    (h : (reverseCampaignAssignmentRow c row id actor).Runs s o s') :
    ∃ a, Table.find s.userAssignments id = some a ∧ ReversesRow c row a s s' := by
  unfold reverseCampaignAssignmentRow at h
  simp only [runs_bind, runs_expect, runs_selectForUpdate] at h
  obtain ⟨o', _, ⟨rfl, rfl⟩, a, _, ⟨ha, rfl⟩, h⟩ := h
  obtain ⟨ha, -⟩ := Option.filter_eq_some_iff.1 ha
  refine ⟨a, ha, ?_⟩
  split at h
  · rename_i haction
    split at h
    · rw [runs_bind] at h
      obtain ⟨_, t, hend, h⟩ := h
      obtain ⟨rfl, rfl⟩ := runs_pure.1 h
      have hrows := (endUserAssignment_runs hend).1
      exact .ended _ hrows haction
    · rename_i hactive
      obtain ⟨rfl, rfl⟩ := runs_pure.1 h
      exact .left rfl (fun _ => hactive) fun hne => absurd haction hne
  · rename_i haction
    split at h
    · rename_i hactive
      obtain ⟨rfl, rfl⟩ := runs_pure.1 h
      exact .left rfl (fun he => absurd he haction) fun _ => Or.inl hactive
    · simp only [runs_bind, runs_expect, runs_getRow] at h
      obtain ⟨_, _, ⟨rfl, rfl⟩, k, _, ⟨hk, rfl⟩, o', t, ho, h⟩ := h
      have hkid : k.id = a.campaignId := Table.key_of_find hk
      rcases tryAssign_runs ho with ⟨rfl, rfl, hwhy⟩ | ⟨b, e, rfl, rfl, hnone, hfree, hp, hc, hteam⟩
      · obtain ⟨rfl, rfl⟩ := runs_pure.1 h
        exact .left rfl (fun he => absurd he haction) fun _ => Or.inr (hkid ▸ hwhy)
      · obtain ⟨rfl, rfl⟩ := runs_pure.1 h
        exact .restored b rfl haction hnone hfree hp (hc.trans hkid) hteam

/-! ## The commit, for one user -/

/-- The row after it was applied to an assignment. -/
def stamp (id : Uuid) (row : WorkforceImportRow) : WorkforceImportRow :=
  { row with committedEntityType := some .campaignUserAssignment, committedEntityId := some id }

/-- The rows of the job that were applied to a user. -/
def moved (db : Db) (job user : Uuid) : List WorkforceImportRow :=
  db.workforceRows.filter fun r => r.importJobId = job && r.committedEntityId.isSome && r.normalizedIdentity = some user

/-- Two rows are about different users, or both assign. -/
def Apart (r r' : WorkforceImportRow) : Prop := ∀ user, r.normalizedIdentity = some user →
  r'.normalizedIdentity = some user → r.action = some "assign" ∧ r'.action = some "assign"

instance : Std.Symm Apart := ⟨fun _ _ h user hid hid' => (h user hid' hid).symm⟩

/-- A user's assignments after the rows `done` of the commit, which started in `x`. -/
inductive Followed (x s : Db) (job user : Uuid) (done : List WorkforceImportRow) : Prop where
  | untouched : staffOf s user = staffOf x user → moved s job user = [] →
      (∀ row ∈ done, row.normalizedIdentity = some user → row.action ≠ some "assign" →
        ∀ a ∈ x.userAssignments, isPrimaryAssignment user a = true → campaignOf row ≠ some a.campaignId) →
      Followed x s job user done
  | assigned (row : WorkforceImportRow) (a : CampaignUserAssignment) : row ∈ done →
      row.normalizedIdentity = some user → row.action = some "assign" → moved s job user = [stamp a.id row] →
      staffOf s user = staffOf x user ++ [a] → isPrimaryAssignment user a = true →
      (staffOf x user).filter (isPrimaryAssignment user) = [] → Followed x s job user done
  | ended (row : WorkforceImportRow) (a : CampaignUserAssignment) (now : Time) : row ∈ done →
      row.normalizedIdentity = some user → row.action ≠ some "assign" → moved s job user = [stamp a.id row] →
      a ∈ x.userAssignments → isPrimaryAssignment user a = true → campaignOf row = some a.campaignId →
      staffOf s user = Table.modify (staffOf x user) a.id (Service.ended now) → Followed x s job user done

/-- The tables in the loop of the commit, with the rows `todo` still to come. -/
structure Midway (s : Db) (job : Uuid) (todo : List WorkforceImportRow) : Prop where
  assignments : Table.Unique s.userAssignments
  rows : Table.Unique s.workforceRows
  mem : ∀ row ∈ todo, row ∈ s.workforceRows ∧ row.importJobId = job ∧ row.committedEntityId = none
  nodup : (todo.map WorkforceImportRow.id).Nodup
  known : ∀ row ∈ s.workforceRows, row.importJobId = job → row.committedEntityId.isSome = true →
    ∃ user, row.normalizedIdentity = some user

section Commit

variable {job : WorkforceImportJob} {standard : Uuid} {highRisk : Option Uuid} {acc acc' : Committed}
  {done todo : List WorkforceImportRow}

/-- The columns a row gets. -/
def changed (row : WorkforceImportRow) (rows : List WorkforceImportRow) : Option RowEffect → List WorkforceImportRow
  | none => rows
  | some effect => Table.modify rows row.id effect.change

theorem CommitsRow.congr {t : Db} {o : Option RowEffect} (h : CommitsRow row s t o)
    (he : s'.userAssignments = t.userAssignments) : CommitsRow row s s' o := by
  cases h with
  | ignored hs hid => exact .ignored (he.trans hs) hid
  | skipped user conflict hs hid hend => exact .skipped user conflict (he.trans hs) hid hend
  | assigned user a hs hid haction hnone hfree hp => exact .assigned user a (he.trans hs) hid haction hnone hfree hp
  | ended user a now hs hid haction ha hp hc => exact .ended user a now (he.trans hs) hid haction ha hp hc

theorem recordRow_runs {action : String} {outcome : Outcome} {u : Unit}
    (h : (recordRow action job row actor outcome).Runs s u s') :
    s'.userAssignments = s.userAssignments ∧ s'.workforceRows = s.workforceRows := by
  unfold recordRow at h
  split at h
  · obtain ⟨-, rfl⟩ := runs_pure.1 h
    exact ⟨rfl, rfl⟩
  · obtain rfl := runs_recordAudit.1 h
    exact ⟨rfl, rfl⟩

theorem commitStep_runs (htype : job.importType = .campaignUserAssignments) (hu : Table.Unique s.userAssignments)
    (h : (commitStep c job standard highRisk acc row).Runs s acc' s') :
    ∃ o, CommitsRow row s s' o ∧ s'.workforceRows = changed row s.workforceRows o := by
  unfold commitStep at h
  rw [htype] at h
  dsimp only at h
  rw [runs_bind] at h
  obtain ⟨o, t, hrow, h⟩ := h
  obtain ⟨hrow, hrows⟩ := commitCampaignAssignmentRow_runs hu hrow
  refine ⟨o, ?_⟩
  cases o with
  | none =>
    obtain ⟨-, rfl⟩ := runs_pure.1 h
    exact ⟨hrow, hrows⟩
  | some effect =>
    simp only [runs_bind, runs_setWorkforceRow, exists_eq_left, exists_const] at h
    obtain ⟨_, t', hrecord, h⟩ := h
    obtain ⟨-, rfl⟩ := runs_pure.1 h
    obtain ⟨hassignments, hrows'⟩ := recordRow_runs hrecord
    exact ⟨hrow.congr hassignments, hrows'.trans (congrArg (Table.modify · row.id effect.change) hrows)⟩

/-- The assignments of another user are left alone. -/
theorem staffOf_append {a : CampaignUserAssignment} (hs : s'.userAssignments = s.userAssignments ++ [a])
    (hne : a.userId ≠ user) : staffOf s' user = staffOf s user := by
  unfold staffOf
  rw [hs, List.filter_append, List.filter_singleton, decide_eq_false hne]
  exact List.append_nil _

theorem staffOf_append_self {a : CampaignUserAssignment} (hs : s'.userAssignments = s.userAssignments ++ [a])
    (he : a.userId = user) : staffOf s' user = staffOf s user ++ [a] := by
  unfold staffOf
  rw [hs, List.filter_append, List.filter_singleton, decide_eq_true he]
  rfl

theorem staffOf_end {a : CampaignUserAssignment} {now : Time} (hu : Table.Unique s.userAssignments)
    (ha : a ∈ s.userAssignments)
    (hs : s'.userAssignments = Table.modify s.userAssignments a.id (Service.ended now)) (hne : a.userId ≠ user) :
    staffOf s' user = staffOf s user := by
  unfold staffOf
  rw [hs]
  refine Table.filter_modify_of_not fun b hb hid => ?_
  obtain rfl := hu.eq hb ha hid
  exact ⟨decide_eq_false hne, decide_eq_false hne⟩

theorem staffOf_end_self {a : CampaignUserAssignment} {now : Time}
    (hs : s'.userAssignments = Table.modify s.userAssignments a.id (Service.ended now)) :
    staffOf s' user = Table.modify (staffOf s user) a.id (Service.ended now) := by
  unfold staffOf
  rw [hs]
  exact Table.filter_modify_comm fun _ => rfl

/-- A row of another user. -/
theorem CommitsRow.frame {o : Option RowEffect} (h : CommitsRow row s s' o) (hu : Table.Unique s.userAssignments)
    (hne : row.normalizedIdentity ≠ some user) : staffOf s' user = staffOf s user := by
  have hother {v : Uuid} (hid : row.normalizedIdentity = some v) {a : CampaignUserAssignment}
      (hp : isPrimaryAssignment v a = true) : a.userId ≠ user := by
    rw [user_of_primary hp]
    exact fun he => hne (he ▸ hid)
  cases h with
  | ignored hs | skipped _ _ hs => unfold staffOf; rw [hs]
  | assigned v a hs hid _ _ _ hp => exact staffOf_append hs (hother hid hp)
  | ended v a now hs hid _ ha hp => exact staffOf_end hu ha hs (hother hid hp)

/-- The columns a row gets leave its job, its user, its action and its values alone. -/
theorem CommitsRow.kept {effect : RowEffect} (h : CommitsRow row s s' (some effect)) (r : WorkforceImportRow) :
    (effect.change r).id = r.id ∧ (effect.change r).importJobId = r.importJobId ∧
      (effect.change r).normalizedIdentity = r.normalizedIdentity := by
  generalize ho : some effect = o at h
  cases h with
  | ignored => cases ho
  | skipped | assigned | ended => cases ho; exact ⟨rfl, rfl, rfl⟩

theorem Midway.head (hm : Midway s job.id (row :: todo)) : row ∈ s.workforceRows ∧ row.importJobId = job.id ∧
    row.committedEntityId = none := hm.mem row List.mem_cons_self

/-- A row that is not applied, or applied to another user, is not among the rows of the user. -/
theorem moved_other (hm : Midway s job.id (row :: todo)) {f : WorkforceImportRow → WorkforceImportRow}
    (hs : s'.workforceRows = Table.modify s.workforceRows row.id f)
    (hf : (f row).normalizedIdentity ≠ some user ∨ (f row).committedEntityId = none) :
    moved s' job.id user = moved s job.id user := by
  unfold moved
  rw [hs]
  refine Table.filter_modify_of_not fun r hr hid => ?_
  obtain ⟨hrow, -, hnone⟩ := hm.head
  obtain rfl := hm.rows.eq hr hrow hid
  refine ⟨by simp [hnone], ?_⟩
  rcases hf with hf | hf <;> simp [hf]

theorem moved_self (hm : Midway s job.id (row :: todo)) {id : Uuid} (hid : row.normalizedIdentity = some user)
    (hs : s'.workforceRows = Table.modify s.workforceRows row.id (stamp id)) (hnone : moved s job.id user = []) :
    moved s' job.id user = [stamp id row] := by
  obtain ⟨hrow, hjob, -⟩ := hm.head
  unfold moved at hnone ⊢
  rw [hs]
  exact Table.filter_modify_new hm.rows hrow hnone (by simp [stamp, hjob, hid])

theorem Followed.later (h : Followed x s job.id user done) (hstaff : staffOf s' user = staffOf s user)
    (hmoved : moved s' job.id user = moved s job.id user)
    (hrow : row.normalizedIdentity = some user → row.action ≠ some "assign" → ∀ a ∈ s.userAssignments,
      isPrimaryAssignment user a = true → campaignOf row ≠ some a.campaignId) :
    Followed x s' job.id user (done ++ [row]) := by
  have hdone {r : WorkforceImportRow} (hr : r ∈ done) : r ∈ done ++ [row] := List.mem_append_left _ hr
  cases h with
  | untouched hs hm hend =>
    refine .untouched (hstaff.trans hs) (hmoved.trans hm) fun r hr hid haction a ha hp => ?_
    rcases List.mem_append.1 hr with hr | hr
    · exact hend r hr hid haction a ha hp
    · obtain rfl := List.mem_singleton.1 hr
      have hin : a ∈ staffOf x user := List.mem_filter.2 ⟨ha, decide_eq_true (user_of_primary hp)⟩
      rw [← hs] at hin
      exact hrow hid haction a (List.mem_filter.1 hin).1 hp
  | assigned r a hr hid haction hm hs hp hnone =>
    exact .assigned r a (hdone hr) hid haction (hmoved.trans hm) (hstaff.trans hs) hp hnone
  | ended r a now hr hid haction hm ha hp hc hs =>
    exact .ended r a now (hdone hr) hid haction (hmoved.trans hm) ha hp hc (hstaff.trans hs)

/-- One row of the commit. -/
theorem Followed.step (h : Followed x s job.id user done) (hm : Midway s job.id (row :: todo))
    (hapart : ∀ r ∈ done, Apart r row) {o : Option RowEffect} (ho : CommitsRow row s s' o)
    (hrows : s'.workforceRows = changed row s.workforceRows o) : Followed x s' job.id user (done ++ [row]) := by
  by_cases hid : row.normalizedIdentity = some user
  swap
  · refine h.later (ho.frame hm.assignments hid) ?_ fun he => absurd he hid
    cases o with
    | none => unfold moved; rw [hrows]; rfl
    | some effect => exact moved_other hm hrows (Or.inl ((ho.kept row).2.2 ▸ hid))
  cases ho with
  | ignored hs hnone => rw [hnone] at hid; cases hid
  | skipped v conflict hs hv hend =>
    obtain rfl : v = user := Option.some.inj (hv.symm.trans hid)
    refine h.later (by unfold staffOf; rw [hs]) (moved_other hm hrows (Or.inr hm.head.2.2)) fun _ => hend
  | assigned v a hs hv haction hnone hfree hp =>
    obtain rfl : v = user := Option.some.inj (hv.symm.trans hid)
    have hself := staffOf_append_self hs (user_of_primary hp)
    rw [← filter_staffOf] at hnone
    cases h with
    | untouched hx hmoved =>
      refine .assigned row a (List.mem_append_right _ (List.mem_singleton_self row)) hid haction
        (moved_self hm hid hrows hmoved) (hself.trans (by rw [hx])) hp (hx ▸ hnone)
    | assigned r b hr hrid hraction hmoved hx hb =>
      -- the agent already has the assignment of an earlier row
      rw [hx, List.filter_append, List.filter_singleton, hb] at hnone
      simp at hnone
    | ended r b now hr hrid hraction => exact absurd (hapart r hr _ hrid hid).1 hraction
  | ended v a now hs hv haction ha hp hc =>
    obtain rfl : v = user := Option.some.inj (hv.symm.trans hid)
    cases h with
    | untouched hx hmoved =>
      have hin : a ∈ staffOf s v := List.mem_filter.2 ⟨ha, decide_eq_true (user_of_primary hp)⟩
      rw [hx] at hin
      exact .ended row a now (List.mem_append_right _ (List.mem_singleton_self row)) hid haction
        (moved_self hm hid hrows hmoved) (List.mem_filter.1 hin).1 hp hc ((staffOf_end_self hs).trans (by rw [hx]))
    | assigned r b hr hrid => exact absurd (hapart r hr _ hrid hid).2 haction
    | ended r b now hr hrid => exact absurd (hapart r hr _ hrid hid).2 haction

theorem CommitsRow.identity {effect : RowEffect} (h : CommitsRow row s s' (some effect)) :
    ∃ user, row.normalizedIdentity = some user := by
  generalize ho : some effect = o at h
  cases h with
  | ignored => cases ho
  | skipped user _ _ hid | assigned user _ _ hid | ended user _ _ _ hid => exact ⟨user, hid⟩

theorem CommitsRow.unique {o : Option RowEffect} (h : CommitsRow row s s' o) (hu : Table.Unique s.userAssignments) :
    Table.Unique s'.userAssignments := by
  cases h with
  | ignored hs | skipped _ _ hs => rw [hs]; exact hu
  | assigned _ a hs _ _ _ hfree => rw [hs]; exact hu.append hfree
  | ended _ a now hs => rw [hs]; exact hu.modify _ fun _ h => h

theorem Midway.step (hm : Midway s job.id (row :: todo)) {o : Option RowEffect} (ho : CommitsRow row s s' o)
    (hrows : s'.workforceRows = changed row s.workforceRows o) : Midway s' job.id todo := by
  have hnodup := List.nodup_cons.1 hm.nodup
  have hmem : ∀ r ∈ todo, r ∈ s.workforceRows ∧ r.importJobId = job.id ∧ r.committedEntityId = none :=
    fun r hr => hm.mem r (List.mem_cons_of_mem _ hr)
  cases o with
  | none =>
    have hrows : s'.workforceRows = s.workforceRows := hrows
    exact ⟨ho.unique hm.assignments, hrows ▸ hm.rows, hrows ▸ hmem, hnodup.2, hrows ▸ hm.known⟩
  | some effect =>
    have hrows : s'.workforceRows = Table.modify s.workforceRows row.id effect.change := hrows
    have hne : ∀ r ∈ todo, r.id ≠ row.id := fun r hr he => hnodup.1 (he ▸ List.mem_map_of_mem hr)
    refine ⟨ho.unique hm.assignments, ?_, fun r hr => ⟨?_, (hmem r hr).2⟩, hnodup.2, fun r hr hjob hsome => ?_⟩
    · rw [hrows]
      exact hm.rows.modify _ fun r hr => (ho.kept r).1.trans hr
    · rw [hrows, Table.mem_modify]
      exact Or.inr ⟨(hmem r hr).1, hne r hr⟩
    · rw [hrows, Table.mem_modify] at hr
      rcases hr with ⟨r₀, hr₀, hid, rfl⟩ | ⟨hr, -⟩
      · obtain rfl : r₀ = row := hm.rows.eq hr₀ hm.head.1 hid
        rw [(ho.kept r₀).2.2]
        exact ho.identity
      · exact hm.known r hr hjob hsome

/-- The rows of the commit. -/
theorem followed_rows (htype : job.importType = .campaignUserAssignments) (hm : Midway s job.id todo)
    (hf : ∀ user, Followed x s job.id user done) (hapart : (done ++ todo).Pairwise Apart)
    (h : (todo.foldlM (commitStep c job standard highRisk) acc).Runs s acc' s') :
    Midway s' job.id [] ∧ ∀ user, Followed x s' job.id user (done ++ todo) := by
  induction todo generalizing done acc s with
  | nil =>
    obtain ⟨rfl, rfl⟩ := runs_pure.1 h
    rw [List.append_nil]
    exact ⟨hm, hf⟩
  | cons row todo ih =>
    rw [List.foldlM_cons, runs_bind] at h
    obtain ⟨acc₁, t, hrow, h⟩ := h
    obtain ⟨o, ho, hrows⟩ := commitStep_runs htype hm.assignments hrow
    have hbefore : ∀ r ∈ done, Apart r row := fun r hr =>
      (List.pairwise_append.1 hapart).2.2 r hr row List.mem_cons_self
    rw [List.append_cons] at hapart ⊢
    exact ih (hm.step ho hrows) (fun user => (hf user).step hm hbefore ho hrows) hapart h

end Commit

/-! ## The reversal, for one user -/

section Reverse

variable {job : WorkforceImportJob} {now : Time} {acc acc' : Reversed} {a : CampaignUserAssignment}
  {done todo : List WorkforceImportRow}

theorem ReversesRow.congr {t : Db} (h : ReversesRow c row a s t) (he : s'.userAssignments = t.userAssignments) :
    ReversesRow c row a s s' := by
  cases h with
  | left hs hassign hend => exact .left (he.trans hs) hassign hend
  | ended now hs haction => exact .ended now (he.trans hs) haction
  | restored b hs haction hnone hfree hp hc hteam => exact .restored b (he.trans hs) haction hnone hfree hp hc hteam

theorem reverseStep_runs {id : Uuid} (htype : row.committedEntityType = some .campaignUserAssignment)
    (hid : row.committedEntityId = some id) (h : (reverseStep c job actor now acc row).Runs s acc' s') :
    ∃ a, Table.find s.userAssignments id = some a ∧ ReversesRow (c.block (acc.done + 1)) row a s s' := by
  unfold reverseStep at h
  rw [htype, hid] at h
  dsimp only at h
  rw [runs_bind] at h
  obtain ⟨o, t, hrow, h⟩ := h
  obtain ⟨a, ha, hrow⟩ := reverseCampaignAssignmentRow_runs hrow
  refine ⟨a, ha, hrow.congr ?_⟩
  cases o with
  | none =>
    simp only [runs_bind, runs_setWorkforceRow, runs_pure, exists_eq_left, exists_const] at h
    rw [h.2]
  | some outcome =>
    simp only [runs_bind, runs_setWorkforceRow, exists_eq_left, exists_const] at h
    obtain ⟨_, t', hrecord, h⟩ := h
    obtain ⟨-, rfl⟩ := runs_pure.1 h
    exact (recordRow_runs hrecord).1

/-- The entity of another user. -/
theorem ReversesRow.frame (h : ReversesRow c row a s s') (hu : Table.Unique s.userAssignments)
    (ha : a ∈ s.userAssignments) (hne : a.userId ≠ user) : staffOf s' user = staffOf s user := by
  cases h with
  | left hs => unfold staffOf; rw [hs]
  | ended now hs => exact staffOf_end hu ha hs hne
  | restored b hs _ _ _ hp => exact staffOf_append hs (user_of_primary hp ▸ hne)

theorem ReversesRow.unique (h : ReversesRow c row a s s') (hu : Table.Unique s.userAssignments) :
    Table.Unique s'.userAssignments := by
  cases h with
  | left hs => rw [hs]; exact hu
  | ended now hs => rw [hs]; exact hu.modify _ fun _ h => h
  | restored b hs _ _ hfree => rw [hs]; exact hu.append hfree

/-- The reversal of the row is not refused for want of capacity. -/
def Fits (c : Call) (row : WorkforceImportRow) (a : CampaignUserAssignment) (t : Db) : Prop :=
  row.action ≠ some "assign" → ¬AtCapacity c t a.campaignId (teamOf row)

/-- A user's assignments after the rows `done` of the reversal, which started in `y`. -/
inductive Returned (y s : Db) (user : Uuid) (done : List WorkforceImportRow) : Prop where
  | pending : (∀ row ∈ done, row.normalizedIdentity ≠ some user) → staffOf s user = staffOf y user →
      Returned y s user done
  | visited (c : Call) (row : WorkforceImportRow) (id : Uuid) (a : CampaignUserAssignment) (t t' : Db) : row ∈ done →
      row.normalizedIdentity = some user → row.committedEntityId = some id → Table.Unique t.userAssignments →
      staffOf t user = staffOf y user → Table.find t.userAssignments id = some a → Fits c row a t →
      ReversesRow c row a t t' → staffOf s user = staffOf t' user → Returned y s user done

/-- The entity of a row belongs to the row's user. -/
def Owned (y : Db) (row : WorkforceImportRow) : Prop :=
  ∃ user id, row.normalizedIdentity = some user ∧ row.committedEntityType = some .campaignUserAssignment ∧
    row.committedEntityId = some id ∧ ∃ a ∈ staffOf y user, a.id = id

theorem Returned.later (h : Returned y s user done) (hs : staffOf s' user = staffOf s user)
    (hrow : row.normalizedIdentity ≠ some user) : Returned y s' user (done ++ [row]) := by
  cases h with
  | pending hnone hy =>
    refine .pending (fun r hr => ?_) (hs.trans hy)
    rcases List.mem_append.1 hr with hr | hr
    · exact hnone r hr
    · exact List.mem_singleton.1 hr ▸ hrow
  | visited c r id a t t' hr hid hentity hu hy ha hfits hrev hs' =>
    exact .visited c r id a t t' (List.mem_append_left _ hr) hid hentity hu hy ha hfits hrev (hs.trans hs')

/-- One row of the reversal, the first of its user. -/
theorem Returned.step (h : ∀ user, Returned y s user done) (hu : Table.Unique s.userAssignments) (ho : Owned y row)
    (hfirst : ∀ r ∈ done, r.normalizedIdentity ≠ row.normalizedIdentity)
    (hfits : ∀ id a, row.committedEntityId = some id → Table.find s.userAssignments id = some a →
      Fits (c.block (acc.done + 1)) row a s)
    (hr : (reverseStep c job actor now acc row).Runs s acc' s') :
    Table.Unique s'.userAssignments ∧ ∀ user, Returned y s' user (done ++ [row]) := by
  obtain ⟨v, id, hv, htype, hid, a, ha, rfl⟩ := ho
  obtain ⟨b, hb, hrev⟩ := reverseStep_runs htype hid hr
  have hsame : staffOf s v = staffOf y v := by
    cases h v with
    | pending _ hy => exact hy
    | visited c r id a t t' hr hrid => exact absurd (hrid.trans hv.symm) (hfirst r hr)
  obtain ⟨hmem, hav⟩ := List.mem_filter.1 (hsame ▸ ha)
  have hav : a.userId = v := of_decide_eq_true hav
  obtain rfl : a = b := Option.some.inj ((hu.find_of_mem hmem).symm.trans hb)
  refine ⟨hrev.unique hu, fun user => ?_⟩
  by_cases he : row.normalizedIdentity = some user
  · obtain rfl : v = user := Option.some.inj (hv.symm.trans he)
    exact .visited _ row a.id a s s' (List.mem_append_right _ (List.mem_singleton_self row)) hv hid hu hsame hb
      (hfits a.id a hid hb) hrev rfl
  · exact (h user).later (hrev.frame hu hmem fun hu' => he (hv.trans (congrArg some (hav.symm.trans hu')))) he

/-- Staffing capacity refuses none of the rows that the reversal of the job restores. -/
def NeverRefused (c : Call) (job : WorkforceImportJob) (actor : Uuid) (y : Db) : Prop :=
  ∀ done row rest, scan c (reversible y job.id) = done ++ row :: rest →
    ∀ acc t, (done.foldlM (reverseStep c job actor (c.utcnow 3)) {}).Runs y acc t →
      ∀ id a, row.committedEntityId = some id → Table.find t.userAssignments id = some a →
        Fits (c.block (acc.done + 1)) row a t

/-- The rows of the reversal. -/
theorem returned_rows (hnever : NeverRefused c job actor y) (howned : ∀ row ∈ scan c (reversible y job.id), Owned y row)
    (hfirst : (scan c (reversible y job.id)).Pairwise fun r r' => r.normalizedIdentity ≠ r'.normalizedIdentity) :
    ∀ todo done acc s, scan c (reversible y job.id) = done ++ todo →
      (done.foldlM (reverseStep c job actor (c.utcnow 3)) {}).Runs y acc s → Table.Unique s.userAssignments →
      (∀ user, Returned y s user done) → ∀ acc' s',
      (todo.foldlM (reverseStep c job actor (c.utcnow 3)) acc).Runs s acc' s' →
      ∀ user, Returned y s' user (scan c (reversible y job.id)) := by
  intro todo
  induction todo with
  | nil =>
    intro done acc s hsplit hrun hu hret acc' s' h
    obtain ⟨rfl, rfl⟩ := runs_pure.1 h
    rwa [hsplit, List.append_nil]
  | cons row todo ih =>
    intro done acc s hsplit hrun hu hret acc' s' h
    rw [List.foldlM_cons, runs_bind] at h
    obtain ⟨acc₁, t, hrow, h⟩ := h
    rw [hsplit] at hfirst
    obtain ⟨hu', hret'⟩ := Returned.step hret hu (howned row (by rw [hsplit]; simp))
      (fun r hr => (List.pairwise_append.1 hfirst).2.2 r hr row List.mem_cons_self)
      (hnever done row todo hsplit acc s hrun) hrow
    refine ih (done ++ [row]) acc₁ t (by rw [hsplit, List.append_assoc]; rfl) ?_ hu' hret' acc' s' h
    rw [List.foldlM_append, runs_bind]
    refine ⟨acc, s, hrun, ?_⟩
    rw [List.foldlM_cons, runs_bind]
    exact ⟨acc₁, t, hrow, runs_pure.2 ⟨rfl, rfl⟩⟩

end Reverse

/-! ## Both -/

section Both

variable {job : Uuid} {z : Db} {rows visited : List WorkforceImportRow}

/-- Each row that ends an assignment of an agent names the team of that assignment. -/
def NamesTeams (x : Db) (rows : List WorkforceImportRow) : Prop :=
  ∀ row ∈ rows, row.action ≠ some "assign" → ∀ user, row.normalizedIdentity = some user →
    ∀ a ∈ x.userAssignments, isPrimaryAssignment user a = true → campaignOf row = some a.campaignId →
      teamOf row = a.teamId

/-- The assignment that a row has made ends. -/
theorem staffing_unassigned {as : List CampaignUserAssignment} {a : CampaignUserAssignment} {now : Time}
    (hnone : as.filter (isPrimaryAssignment user) = []) (hp : isPrimaryAssignment user a = true)
    (hz : staffOf z user = Table.modify (as ++ [a]) a.id (Service.ended now)) : staffing z user = [] := by
  unfold staffing
  rw [← filter_staffOf, hz, Table.filter_modify_drop fun r => ?_]
  · rw [List.filter_append, hnone, List.filter_singleton, hp]
    simp [Tx.key]
  · simp [isPrimaryAssignment, Service.ended]

/-- The user has no primary assignment once theirs has ended. -/
theorem filter_ended (hone : OnePrimary x) {a : CampaignUserAssignment} {now : Time} (ha : a ∈ x.userAssignments)
    (hp : isPrimaryAssignment user a = true) :
    (Table.modify (staffOf x user) a.id (Service.ended now)).filter (isPrimaryAssignment user) = [] := by
  rw [Table.filter_modify_drop fun r => ?_, filter_staffOf, filter_primary hone ha hp]
  · simp [Tx.key]
  · simp [isPrimaryAssignment, Service.ended]

/-- The commit left the user alone. -/
theorem staffing_untouched (hret : Returned y z user visited) (hs : staffOf y user = staffOf x user)
    (hmoved : ∀ row ∈ visited, row.normalizedIdentity ≠ some user) : staffing z user = staffing x user := by
  cases hret with
  | pending _ hz => exact staffing_congr (hz.trans hs)
  | visited c r id a t t' hr hid => exact absurd hid (hmoved r hr)

theorem staffing_primary (hone : OnePrimary x) {a : CampaignUserAssignment} (ha : a ∈ x.userAssignments)
    (hp : isPrimaryAssignment user a = true) : staffing x user = [(a.campaignId, a.teamId)] := by
  unfold staffing
  rw [filter_primary hone ha hp]
  rfl

theorem staffing_none (hnone : (staffOf x user).filter (isPrimaryAssignment user) = []) : staffing x user = [] := by
  unfold staffing
  rw [← filter_staffOf, hnone]
  rfl

/-- The reversal of the row that made the user's assignment. -/
theorem staffing_after_assign (hret : Returned y z user visited) {row : WorkforceImportRow} {a : CampaignUserAssignment}
    (hs : staffOf y user = staffOf x user ++ [a]) (hp : isPrimaryAssignment user a = true)
    (hnone : (staffOf x user).filter (isPrimaryAssignment user) = []) (haction : row.action = some "assign")
    (hmem : stamp a.id row ∈ visited) (hid : row.normalizedIdentity = some user)
    (hmoved : ∀ r ∈ visited, r.normalizedIdentity = some user → r = stamp a.id row) : staffing z user = [] := by
  cases hret with
  | pending hpending => exact absurd (show (stamp a.id row).normalizedIdentity = some user from hid) (hpending _ hmem)
  | visited c r id b t t' hr hrid hentity hu hy hb hfits hrev hz =>
    obtain rfl := hmoved r hr hrid
    obtain rfl : a.id = id := Option.some.inj hentity
    have hin : a ∈ staffOf t user := by
      rw [hy, hs]
      exact List.mem_append_right _ (List.mem_singleton_self a)
    have hfind := hu.find_of_mem (List.mem_filter.1 hin).1
    obtain rfl : a = b := Option.some.inj (hfind.symm.trans hb)
    cases hrev with
    | left _ hassign => exact absurd (active_of_primary hp) (hassign haction)
    | ended now ht =>
      have hback : staffOf z user = Table.modify (staffOf x user ++ [a]) a.id (Service.ended now) := by
        rw [hz, staffOf_end_self ht, hy, hs]
      exact staffing_unassigned hnone hp hback
    | restored b _ hne => exact absurd haction hne

/-- The reversal of the row that ended the user's assignment `a` makes a new one, with the
team of the file. -/
theorem staffing_after_end (hone : OnePrimary x) (hret : Returned y z user visited) {row : WorkforceImportRow}
    {a : CampaignUserAssignment} {now : Time}
    (hs : staffOf y user = Table.modify (staffOf x user) a.id (Service.ended now)) (ha : a ∈ x.userAssignments)
    (hp : isPrimaryAssignment user a = true) (haction : row.action ≠ some "assign")
    (hmem : stamp a.id row ∈ visited) (hid : row.normalizedIdentity = some user)
    (hmoved : ∀ r ∈ visited, r.normalizedIdentity = some user → r = stamp a.id row) :
    staffing z user = [(a.campaignId, teamOf row)] := by
  cases hret with
  | pending hpending => exact absurd (show (stamp a.id row).normalizedIdentity = some user from hid) (hpending _ hmem)
  | visited c r id b t t' hr hrid hentity hu hy hb hfits hrev hz =>
    obtain rfl := hmoved r hr hrid
    obtain rfl : a.id = id := Option.some.inj hentity
    have hin : Service.ended now a ∈ staffOf t user := by
      rw [hy, hs, Table.mem_modify]
      exact Or.inl ⟨a, List.mem_filter.2 ⟨ha, decide_eq_true (user_of_primary hp)⟩, rfl, rfl⟩
    have hfind := hu.find_of_mem (List.mem_filter.1 hin).1
    obtain rfl : Service.ended now a = b := Option.some.inj (hfind.symm.trans hb)
    have hnone : t.userAssignments.filter (isPrimaryAssignment a.userId) = [] := by
      rw [user_of_primary hp, ← filter_staffOf, hy, hs]
      exact filter_ended hone ha hp
    cases hrev with
    | left _ _ hend =>
      rcases hend haction with hactive | hprimary | hcap
      · cases hactive.1
      · exact absurd hnone hprimary
      · exact absurd hcap (hfits haction)
    | ended _ _ hassign => exact absurd hassign haction
    | restored b ht _ _ _ hbp hc hteam =>
      have huser : a.userId = user := user_of_primary hp
      have hbp : isPrimaryAssignment user b = true := huser ▸ hbp
      unfold staffing
      rw [← filter_staffOf, hz, staffOf_append_self ht (user_of_primary hbp), hy, hs, List.filter_append,
        filter_ended hone ha hp, List.filter_singleton, hbp]
      exact congrArg₂ (fun k team => [(k, team)]) hc hteam

/-- One user after the commit and the reversal. -/
theorem staffing_returned (hone : OnePrimary x) (hapart : rows.Pairwise Apart) (hf : Followed x y job user rows)
    (hret : Returned y z user visited) (hvisited : ∀ row ∈ moved y job user, row ∈ visited)
    (hmoved : ∀ row ∈ visited, row.normalizedIdentity = some user → row ∈ moved y job user) :
    staffing z user = staffing x user ↔ ∀ row ∈ rows, row.action ≠ some "assign" → row.normalizedIdentity = some user →
      ∀ a ∈ x.userAssignments, isPrimaryAssignment user a = true → campaignOf row = some a.campaignId →
        teamOf row = a.teamId := by
  cases hf with
  | untouched hs hnone hend =>
    refine iff_of_true (staffing_untouched hret hs fun row hrow hid => ?_) fun row hrow haction hid a ha hp hc =>
      absurd hc (hend row hrow hid haction a ha hp)
    have hin := hmoved row hrow hid
    rw [hnone] at hin
    cases hin
  | assigned row a hrow hid haction hm hs hp hnone =>
    rw [hm] at hvisited hmoved
    have hz := staffing_after_assign hret hs hp hnone haction (hvisited _ (List.mem_singleton_self _)) hid
      fun r hr hrid => List.mem_singleton.1 (hmoved r hr hrid)
    refine iff_of_true (hz.trans (staffing_none hnone).symm) fun r _ _ _ b hb hbp => ?_
    have hin : b ∈ (staffOf x user).filter (isPrimaryAssignment user) := by
      rw [filter_staffOf]
      exact List.mem_filter.2 ⟨hb, hbp⟩
    rw [hnone] at hin
    cases hin
  | ended row a now hrow hid haction hm ha hp hc hs =>
    rw [hm] at hvisited hmoved
    rw [staffing_after_end hone hret hs ha hp haction (hvisited _ (List.mem_singleton_self _)) hid
      fun r hr hrid => List.mem_singleton.1 (hmoved r hr hrid), staffing_primary hone ha hp]
    constructor
    · intro he r hr hraction hrid b hb hbp _
      have hteam : teamOf row = a.teamId := by simpa using he
      have hab : b = a := by
        have hin : b ∈ x.userAssignments.filter (isPrimaryAssignment user) := List.mem_filter.2 ⟨hb, hbp⟩
        rw [filter_primary hone ha hp] at hin
        exact List.mem_singleton.1 hin
      have hrow' : r = row := by
        by_contra hne
        exact hraction (hapart.forall hr hrow hne user hrid hid).1
      rw [hrow', hab, hteam]
    · intro h
      rw [h row hrow haction hid a ha hp hc]

end Both

end OmniDB.WorkforceImports
