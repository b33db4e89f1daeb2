import OmniDB.Proofs.Locking
import OmniDB.Spec.Directory
import OmniDB.Tx.Rows

/-! The administrative directory, page by page. The order has the identifier as its last key, so
that every page is cut from one list, and each of the queries removes the repetitions of the join. -/

namespace OmniDB.Directory

open Tx
open Authz Workforce

/-! ## The users of the listing -/

section Users

variable {κ : Type} {srv : Server κ} {c : Call} {db : Db} {now : Time} {actor : Uuid} {q : DirectoryQuery}
  {scope : Bool × List Uuid} {u : User}

/-- The join keeps the users of the scope. -/
theorem mem_scopeRows : u ∈ scopeRows c db scope ↔
    u ∈ db.users ∧ (scope.1 = true ∨ memberOfAny db scope.2 u.id = true) := by
  unfold scopeRows memberOfAny
  split_ifs with heveryone
  · simp [scan, heveryone]
  · simp only [List.mem_flatMap, List.mem_map, List.mem_filter, scan, mem_orderBy, heveryone, false_or,
      Bool.false_eq_true, List.any_eq_true]
    constructor
    · rintro ⟨u, hu, m, ⟨hm, hcond⟩, rfl⟩
      exact ⟨hu, m, hm, hcond⟩
    · rintro ⟨hu, m, hm, hcond⟩
      exact ⟨u, hu, m, ⟨hm, hcond⟩, rfl⟩

/-- Without a scope nobody is in it. -/
theorem scopeRows_nil (hnone : (!scope.1 && scope.2.isEmpty) = true) : scopeRows c db scope = [] := by
  rw [Bool.and_eq_true, Bool.not_eq_true', List.isEmpty_iff] at hnone
  refine List.eq_nil_iff_forall_not_mem.2 fun u hu => ?_
  have hscope := (mem_scopeRows.1 hu).2
  simp [memberOfAny, hnone] at hscope

/-- The selected users, before `DISTINCT`. -/
def stmt (srv : Server κ) (c : Call) (db : Db) (now : Time) (actor : Uuid) (q : DirectoryQuery) : List User :=
  (scopeRows c db (directoryScope db now actor)).filter (satisfies srv db now q)

theorem mem_stmt : u ∈ stmt srv c db now actor q ↔
    u ∈ db.users ∧ userInAdminScope db now actor u.id = true ∧ satisfies srv db now q u = true := by
  have hscope : userInAdminScope db now actor u.id = true ↔
      (directoryScope db now actor).1 = true ∨ memberOfAny db (directoryScope db now actor).2 u.id = true := by
    simp [userInAdminScope]
  rw [stmt, List.mem_filter, mem_scopeRows, hscope, and_assoc]

/-- `DISTINCT`, unless the scope is everyone. -/
def distinct {α : Type} [DecidableEq α] (everyone : Bool) (rows : List α) : List α :=
  if everyone then rows else rows.dedup

@[simp] theorem mem_distinct {α : Type} [DecidableEq α] {everyone : Bool} {rows : List α} {r : α} :
    r ∈ distinct everyone rows ↔ r ∈ rows := by
  unfold distinct
  split_ifs
  · rfl
  · exact List.mem_dedup

theorem nodup_stmt (hunique : Table.Unique db.users) (heveryone : (directoryScope db now actor).1 = true) :
    (stmt srv c db now actor q).Nodup := by
  unfold stmt scopeRows
  rw [if_pos heveryone]
  exact ((perm_orderBy _ _).nodup_iff.2 (List.Nodup.of_map _ hunique)).filter _

/-- The identifiers are counted as often as there are users. -/
theorem length_ids (hunique : Table.Unique db.users) :
    (distinct (directoryScope db now actor).1 ((stmt srv c db now actor q).map User.id)).length =
      (distinct (directoryScope db now actor).1
        ((stmt srv c db now actor q).map fun u => (u, activationState db now u))).length := by
  unfold distinct
  split_ifs
  · simp
  · rw [Rows.length_dedup_map, Rows.length_dedup_map]
    · exact fun u _ v _ h => congrArg Prod.fst h
    · exact fun u hu v hv h => hunique.eq (mem_stmt.1 hu).1 (mem_stmt.1 hv).1 h

end Users

/-! ## The order -/

section Order

variable {κ : Type} [LinearOrder κ] {srv : Server κ} {c : Call} {db : Db} {now : Time} {actor : Uuid}
  {q : DirectoryQuery} {sort : String}

theorem before_antisymm {a b : User} (h : directoryBefore srv sort a b) (h' : directoryBefore srv sort b a) :
    a.id = b.id := by
  unfold directoryBefore at h h'
  split_ifs at h h'
  · have hid : -(a.id : ℤ) = -(b.id : ℤ) := congrArg Prod.snd (toLex.injective (le_antisymm h h'))
    exact Int.ofNat.inj (Int.neg_inj.1 hid)
  · exact congrArg Prod.snd (toLex.injective (le_antisymm h h'))

/-- The selected users in order, each with its activation state. -/
def selected (srv : Server κ) (c : Call) (db : Db) (now : Time) (actor : Uuid) (q : DirectoryQuery) :
    List (User × ActivationState) :=
  orderBy (fun a b => directoryBefore srv q.sort a.1 b.1)
    (distinct (directoryScope db now actor).1 ((stmt srv c db now actor q).map fun u => (u, activationState db now u)))

theorem mem_selected {row : User × ActivationState} : row ∈ selected srv c db now actor q ↔
    row.1 ∈ stmt srv c db now actor q ∧ row.2 = activationState db now row.1 := by
  rw [selected, mem_orderBy, mem_distinct, List.mem_map]
  constructor
  · rintro ⟨u, hu, rfl⟩
    exact ⟨hu, rfl⟩
  · rintro ⟨hu, hstate⟩
    exact ⟨row.1, hu, Prod.ext rfl hstate.symm⟩

theorem nodup_selected (hunique : Table.Unique db.users) : (selected srv c db now actor q).Nodup := by
  refine (perm_orderBy _ _).nodup_iff.2 ?_
  unfold distinct
  split_ifs with heveryone
  · exact (nodup_stmt hunique heveryone).map fun u v h => congrArg Prod.fst h
  · exact List.nodup_dedup _

theorem sorted_selected : (selected srv c db now actor q).Pairwise fun a b => directoryBefore srv q.sort a.1 b.1 := by
  unfold selected
  by_cases hsort : q.sort = "recent"
  · exact pairwise_orderBy _ (fun row => toLex (-row.1.createdAt, -(row.1.id : ℤ)))
      (fun a b => by simp only [directoryBefore, if_pos hsort]) _
  · exact pairwise_orderBy _ (fun row => toLex (srv.collate row.1.displayName, row.1.id))
      (fun a b => by simp only [directoryBefore, if_neg hsort]) _

/-- In whatever order the server finds the rows, every call cuts its page from the same list. -/
theorem selected_eq (hunique : Table.Unique db.users) (c c' : Call) :
    selected srv c db now actor q = selected srv c' db now actor q := by
  refine List.Perm.eq_of_pairwise (fun a b ha hb hab hba => ?_) sorted_selected sorted_selected ?_
  · obtain ⟨ha, hsa⟩ := mem_selected.1 ha
    obtain ⟨hb, hsb⟩ := mem_selected.1 hb
    have hu : a.1 = b.1 := hunique.eq (mem_stmt.1 ha).1 (mem_stmt.1 hb).1 (before_antisymm hab hba)
    exact Prod.ext hu (hsa.trans (hu ▸ hsb.symm))
  · refine (List.perm_ext_iff_of_nodup (nodup_selected hunique) (nodup_selected hunique)).2 fun row => ?_
    simp only [mem_selected, mem_stmt]

end Order

/-! ## Pages of the directory -/

section Directory

variable {κ : Type} [LinearOrder κ] {srv : Server κ} {c : Call} {db : Db} {now : Time} {actor : Uuid}
  {q q' : DirectoryQuery} {page pageSize : ℤ}

/-- What a page that is returned holds. -/
theorem page_eq {directory : DirectoryPage} (h : listUserDirectory srv c db now actor q page pageSize = .ok directory) :
    directory.totalCount =
      (distinct (directoryScope db now actor).1 ((stmt srv c db now actor q).map User.id)).length ∧
    directory.rows.map DirectoryRow.user =
      (((selected srv c db now actor q).drop ((max page 1 - 1) * min (max pageSize 1) directoryPageSizeMax).toNat).take
        (min (max pageSize 1) directoryPageSizeMax).toNat).map Prod.fst := by
  unfold listUserDirectory at h
  by_cases hnone : (!(directoryScope db now actor).1 && (directoryScope db now actor).2.isEmpty) = true
  · rw [if_pos hnone] at h
    obtain rfl := Except.ok.inj h
    simp [selected, stmt, scopeRows_nil hnone, distinct, orderBy]
  rw [if_neg hnone] at h
  by_cases hnul : (searchPattern q.search).any hasNul = true
  · rw [if_pos hnul] at h
    cases h
  · rw [if_neg hnul] at h
    obtain rfl := Except.ok.inj h
    refine ⟨rfl, ?_⟩
    rw [List.map_map]
    rfl

theorem totalCount_eq (hunique : Table.Unique db.users) {directory : DirectoryPage}
    (h : listUserDirectory srv c db now actor q page pageSize = .ok directory) :
    directory.totalCount = (selected srv c db now actor q).length := by
  rw [(page_eq h).1, selected, (perm_orderBy _ _).length_eq, length_ids hunique]

/-- The search text has no NUL. -/
def DirectoryQuery.NulFree (q : DirectoryQuery) : Prop := ∀ text, q.search = some text → hasNul text = false

theorem hasNul_strip {text : String} (h : hasNul text = false) : hasNul (Imports.strip text) = false := by
  have hmem {ch : Char} (hch : ch ∈ (Imports.strip text).toList) : ch ∈ text.toList := by
    unfold Imports.strip at hch
    rw [String.toList_ofList, List.mem_reverse] at hch
    exact (List.dropWhile_sublist _).mem (List.mem_reverse.1 ((List.dropWhile_sublist _).mem hch))
  simp only [hasNul, List.contains_eq_mem, decide_eq_false_iff_not] at h ⊢
  exact fun hnul => h (hmem hnul)

theorem searchPattern_nul (hq : q.NulFree) : (searchPattern q.search).any hasNul = false := by
  unfold searchPattern
  cases hsearch : q.search with
  | none => rfl
  | some text =>
    have hnul := hasNul_strip (hq text hsearch)
    rw [Option.bind_some]
    split_ifs
    · rfl
    · simp only [Option.any_some, hasNul, String.toList_append, List.contains_append] at hnul ⊢
      rw [hnul]
      rfl

/-- The server takes a search text without a NUL. -/
theorem listed (hq : q.NulFree) : ∃ directory, listUserDirectory srv c db now actor q page pageSize = .ok directory := by
  unfold listUserDirectory
  by_cases hnone : (!(directoryScope db now actor).1 && (directoryScope db now actor).2.isEmpty) = true
  · rw [if_pos hnone]
    exact ⟨_, rfl⟩
  · rw [if_neg hnone, if_neg (by simp [searchPattern_nul hq])]
    exact ⟨_, rfl⟩

/-- All pages of the listing at one admissible page size, one after the other. Each page is a call of
its own, and `total` is the count that one of the calls returned. -/
def PagedBy (srv : Server κ) (calls : ℕ → Call) (pageSize : ℕ) (db : Db) (now : Time) (actor : Uuid)
    (q : DirectoryQuery) (pages : List User) (total : ℕ) : Prop :=
  1 ≤ pageSize ∧ pageSize ≤ directoryPageSizeMax ∧
    (∃ page first, listUserDirectory srv (calls 0) db now actor q page pageSize = .ok first ∧ total = first.totalCount) ∧
    ∃ directory : ℕ → DirectoryPage,
      (∀ n < (total + pageSize - 1) / pageSize,
        listUserDirectory srv (calls n) db now actor q (n + 1) pageSize = .ok (directory n)) ∧
      pages = (List.range ((total + pageSize - 1) / pageSize)).flatMap fun n =>
        (directory n).rows.map DirectoryRow.user

/-- The pages at some page size. -/
def Paged (srv : Server κ) (db : Db) (now : Time) (actor : Uuid) (q : DirectoryQuery) (pages : List User)
    (total : ℕ) : Prop :=
  ∃ calls pageSize, PagedBy srv calls pageSize db now actor q pages total

theorem pagedBy_total (hq : q.NulFree) (calls : ℕ → Call) {size : ℕ} (hpos : 1 ≤ size) (hmax : size ≤ directoryPageSizeMax) :
    ∃ pages total, PagedBy srv calls size db now actor q pages total := by
  have hlisted : ∀ c page, ∃ directory, listUserDirectory srv c db now actor q page size = .ok directory :=
    fun _ _ => listed hq
  obtain ⟨first, hfirst⟩ := hlisted (calls 0) 1
  choose directory hdirectory using fun n : ℕ => hlisted (calls n) (n + 1)
  exact ⟨_, _, hpos, hmax, ⟨1, first, hfirst, rfl⟩, directory, fun n _ => hdirectory n, rfl⟩

theorem paged_eq (hunique : Table.Unique db.users) {pages : List User} {total : ℕ}
    (h : Paged srv db now actor q pages total) :
    pages = (selected srv c db now actor q).map Prod.fst ∧ total = pages.length := by
  obtain ⟨calls, pageSize, hpos, hmax, ⟨page, first, hfirst, rfl⟩, directory, hdirectory, rfl⟩ := h
  have hsize : min (max (pageSize : ℤ) 1) directoryPageSizeMax = pageSize := by omega
  have hoffset (n : ℕ) : ((max ((n : ℤ) + 1) 1 - 1) * (pageSize : ℤ)).toNat = n * pageSize := by
    rw [max_eq_left (by omega), Int.add_sub_cancel, ← Int.natCast_mul, Int.toNat_natCast]
  have hpage : ∀ n < (first.totalCount + pageSize - 1) / pageSize, (directory n).rows.map DirectoryRow.user =
      (((selected srv c db now actor q).map Prod.fst).drop (n * pageSize)).take pageSize := by
    intro n hn
    rw [(page_eq (hdirectory n hn)).2, hsize, hoffset, selected_eq hunique _ c, List.map_take, List.map_drop,
      Int.toNat_natCast]
  have htotal : first.totalCount = ((selected srv c db now actor q).map Prod.fst).length := by
    rw [totalCount_eq hunique hfirst, selected_eq hunique _ c, List.length_map]
  rw [List.flatMap_congr fun n hn => hpage n (List.mem_range.1 hn), htotal]
  have hpages := Rows.pages_eq ((selected srv c db now actor q).map Prod.fst) hpos
  exact ⟨hpages, (congrArg List.length hpages).symm⟩

/-- Every user of the scope who satisfies the filters is listed once, in the order of the query. -/
structure Exact (srv : Server κ) (db : Db) (now : Time) (actor : Uuid) (q : DirectoryQuery) (pages : List User)
    (total : ℕ) : Prop where
  once : pages.Nodup
  sorted : pages.Pairwise (directoryBefore srv q.sort)
  mem : ∀ u, u ∈ pages ↔
    u ∈ db.users ∧ userInAdminScope db now actor u.id = true ∧ satisfies srv db now q u = true
  total : total = pages.length

theorem exact_of_paged (hunique : Table.Unique db.users) {pages : List User} {total : ℕ}
    (h : Paged srv db now actor q pages total) : Exact srv db now actor q pages total := by
  obtain ⟨calls, -⟩ := id h
  obtain ⟨rfl, htotal⟩ := paged_eq (c := calls 0) hunique h
  refine ⟨?_, ?_, fun u => ?_, htotal⟩
  · refine (nodup_selected hunique).map_on fun a ha b hb hab => ?_
    exact Prod.ext hab ((mem_selected.1 ha).2.trans (hab ▸ (mem_selected.1 hb).2.symm))
  · exact List.pairwise_map.2 sorted_selected
  · rw [← mem_stmt (c := calls 0), List.mem_map]
    constructor
    · rintro ⟨row, hrow, rfl⟩
      exact (mem_selected.1 hrow).1
    · intro hu
      exact ⟨(u, activationState db now u), mem_selected.2 ⟨hu, rfl⟩, rfl⟩

/-! ## Filters -/

/-- No filter. -/
structure DirectoryQuery.Unfiltered (q : DirectoryQuery) : Prop where
  search : q.search = none
  status : q.status = none
  activationState : q.activationState = none
  role : q.role = none
  teamId : q.teamId = none

/-- `q'` has the filters of `q`, and maybe more. -/
structure DirectoryQuery.Narrows (q' q : DirectoryQuery) : Prop where
  search : q.search = none ∨ q'.search = q.search
  status : q.status = none ∨ q'.status = q.status
  activationState : q.activationState = none ∨ q'.activationState = q.activationState
  role : q.role = none ∨ q'.role = q.role
  teamId : q.teamId = none ∨ q'.teamId = q.teamId

omit [LinearOrder κ] in
theorem satisfies_unfiltered (h : q.Unfiltered) (u : User) : satisfies srv db now q u = true := by
  obtain ⟨search, status, state, role, team⟩ := h
  simp [satisfies, search, status, state, role, team, searchMatches, searchPattern, statusMatches, roleMatches, teamMatches,
    stateMatches]

omit [LinearOrder κ] in
theorem satisfies_narrows (h : q'.Narrows q) {u : User} (hu : satisfies srv db now q' u = true) :
    satisfies srv db now q u = true := by
  simp only [satisfies, Bool.and_eq_true] at hu ⊢
  obtain ⟨⟨⟨⟨hsearch, hstatus⟩, hrole⟩, hteam⟩, hstate⟩ := hu
  refine ⟨⟨⟨⟨?_, ?_⟩, ?_⟩, ?_⟩, ?_⟩
  · rcases h.search with hnone | hsame
    · rw [hnone]
      rfl
    · rwa [hsame] at hsearch
  · rcases h.status with hnone | hsame
    · rw [hnone]
      rfl
    · rwa [hsame] at hstatus
  · rcases h.role with hnone | hsame
    · rw [hnone]
      rfl
    · rwa [hsame] at hrole
  · rcases h.teamId with hnone | hsame
    · rw [hnone]
      rfl
    · rwa [hsame] at hteam
  · rcases h.activationState with hnone | hsame
    · rw [hnone]
      rfl
    · rwa [hsame] at hstate

/-! ## The summary -/

/-- The counts of the summary are those of the listed users. -/
structure Summarizes (db : Db) (now : Time) (summary : DirectorySummary) (pages : List User) (total : ℕ) : Prop where
  total : summary.total = total
  parts : summary.active + summary.inactive = summary.total
  active : summary.active = pages.countP fun u => u.active
  inactive : summary.inactive = pages.countP fun u => !u.active
  awaitingActivation : summary.awaitingActivation =
    pages.countP fun u => awaitingActivationStates.contains (activationState db now u)
  mfaSetupRequired : summary.mfaSetupRequired = pages.countP fun u => activationState db now u = .mfaSetupRequired
  neverLoggedIn : summary.neverLoggedIn = pages.countP fun u => u.lastLoginAt.isNone

/-- The rows that the summary counts are those of the listed users. -/
theorem perm_summaryRows (hunique : Table.Unique db.users) (hq : q.Unfiltered) {pages : List User} {total : ℕ}
    (h : Exact srv db now actor q pages total) (c : Call) :
    ((scopeRows c db (directoryScope db now actor)).map (summaryRow db now)).dedup.Perm
      (pages.map (summaryRow db now)) := by
  have hinj : ∀ u ∈ pages, ∀ v ∈ pages, summaryRow db now u = summaryRow db now v → u = v :=
    fun u hu v hv he => hunique.eq ((h.mem u).1 hu).1 ((h.mem v).1 hv).1 (congrArg SummaryRow.id he)
  refine (List.perm_ext_iff_of_nodup (List.nodup_dedup _) (h.once.map_on hinj)).2 fun row => ?_
  have hstmt : stmt srv c db now actor q = scopeRows c db (directoryScope db now actor) :=
    List.filter_eq_self.2 fun u _ => satisfies_unfiltered hq u
  simp only [List.mem_dedup, List.mem_map, h.mem, ← hstmt, mem_stmt]

theorem directorySummary_eq : directorySummary c db now actor =
    let sub := ((scopeRows c db (directoryScope db now actor)).map (summaryRow db now)).dedup
    { total := sub.length
      active := sub.countP fun r => r.active
      inactive := sub.countP fun r => !r.active
      awaitingActivation := sub.countP fun r => awaitingActivationStates.contains r.state
      mfaSetupRequired := sub.countP fun r => r.state = .mfaSetupRequired
      neverLoggedIn := sub.countP fun r => r.lastLoginAt.isNone } := by
  unfold directorySummary
  by_cases hnone : (!(directoryScope db now actor).1 && (directoryScope db now actor).2.isEmpty) = true
  · rw [if_pos hnone, scopeRows_nil hnone]
    rfl
  · rw [if_neg hnone]

theorem summarizes (hunique : Table.Unique db.users) (hq : q.Unfiltered) {pages : List User} {total : ℕ}
    (h : Exact srv db now actor q pages total) (c : Call) :
    Summarizes db now (directorySummary c db now actor) pages total := by
  have hperm := perm_summaryRows hunique hq h c
  have hcount (p : SummaryRow → Bool) :
      ((scopeRows c db (directoryScope db now actor)).map (summaryRow db now)).dedup.countP p =
        pages.countP (p ∘ summaryRow db now) := by
    rw [hperm.countP_eq, List.countP_map]
  have hparts (rows : List SummaryRow) :
      rows.countP (fun r => r.active) + rows.countP (fun r => !r.active) = rows.length := by
    rw [rows.length_eq_countP_add_countP fun r => r.active]
    simp
  rw [directorySummary_eq]
  dsimp only
  constructor
  · rw [hperm.length_eq, List.length_map, h.total]
  · rw [hparts]
  all_goals exact hcount _

/-- The pages of the directory are exact, filters only narrow them, and the summary agrees with them. Every
search text without a NUL has its pages. -/
theorem directory_exact (hunique : Table.Unique db.users) (srv : Server κ) (now : Time) (actor : Uuid) :
    (∀ q calls pageSize, q.NulFree → 1 ≤ pageSize → pageSize ≤ directoryPageSizeMax →
      ∃ pages total, PagedBy srv calls pageSize db now actor q pages total) ∧
    (∀ q pages total, Paged srv db now actor q pages total → Exact srv db now actor q pages total) ∧
    (∀ q pages total, Paged srv db now actor q pages total → q.Unfiltered →
      ∀ u, u ∈ pages ↔ u ∈ db.users ∧ userInAdminScope db now actor u.id = true) ∧
    (∀ q q' pages pages' total total', Paged srv db now actor q pages total →
      Paged srv db now actor q' pages' total' → q'.Narrows q → ∀ u ∈ pages', u ∈ pages) ∧
    ∀ q pages total c, Paged srv db now actor q pages total → q.Unfiltered →
      Summarizes db now (directorySummary c db now actor) pages total := by
  refine ⟨fun q calls pageSize hq hpos hmax => pagedBy_total hq calls hpos hmax,
    fun q pages total h => exact_of_paged hunique h, ?_, ?_, ?_⟩
  · intro q pages total h hq u
    rw [(exact_of_paged hunique h).mem, and_iff_left (satisfies_unfiltered hq u)]
  · intro q q' pages pages' total total' h h' hq u hu
    obtain ⟨hin, hscope, hsat⟩ := ((exact_of_paged hunique h').mem u).1 hu
    exact ((exact_of_paged hunique h).mem u).2 ⟨hin, hscope, satisfies_narrows hq hsat⟩
  · intro q pages total c h hq
    exact summarizes hunique hq (exact_of_paged hunique h) c

end Directory

/-! A leader of two teams. One user is a member of both, and the other has the same name. -/

def twoTeams : Db where
  users := [{ id := 4, displayName := "Ann", active := false }, { id := 3, displayName := "Ann" }]
  teams := [{ id := 1, organizationId := 5 }, { id := 2, organizationId := 5 }]
  memberships := [
    { id := 6, teamId := 1, userId := 3, membershipStatus := .active, effectiveFrom := 0 },
    { id := 7, teamId := 2, userId := 3, membershipStatus := .active, effectiveFrom := 0 },
    { id := 8, teamId := 2, userId := 4, membershipStatus := .active, effectiveFrom := 0 }]
  roleAssignments := [
    { id := 9, userId := 10, roleCode := .teamLeader, scopeType := .team, scopeId := some 1, effectiveFrom := 0 },
    { id := 11, userId := 10, roleCode := .teamLeader, scopeType := .team, scopeId := some 2, effectiveFrom := 0 }]

/-- The names in the order of their lengths. -/
def byLength : Server ℕ where
  collate := String.length
  lower name := name

/-- The calls find the rows now in one order, now in the other. -/
def turning (n : ℕ) : Call where
  utcnow _ := 1
  uuid4 k := k
  rank id := if n = 0 then id else 100 - id

theorem directory_exact_twoTeams : ∃ pages total, PagedBy byLength turning 1 twoTeams 1 10 {} pages total ∧
    Exact byLength twoTeams 1 10 {} pages total ∧ pages.map User.id = [3, 4] ∧ total = 2 ∧
    Summarizes twoTeams 1 (directorySummary (turning 0) twoTeams 1 10) pages total := by
  have hunique : Table.Unique twoTeams.users := by decide
  obtain ⟨hpages, hexact, -, -, hsummary⟩ := directory_exact hunique byLength 1 10
  obtain ⟨pages, total, hpaged⟩ := hpages {} turning 1 (fun _ h => by cases h) (by decide) (by decide)
  have hall : Paged byLength twoTeams 1 10 {} pages total := ⟨_, _, hpaged⟩
  obtain ⟨hselected, htotal⟩ := paged_eq (c := turning 0) hunique hall
  have hids : pages.map User.id = [3, 4] := hselected ▸ by decide +kernel
  refine ⟨pages, total, hpaged, hexact _ _ _ hall, hids, ?_, hsummary _ _ _ (turning 0) hall ⟨rfl, rfl, rfl, rfl, rfl⟩⟩
  rw [htotal, ← List.length_map User.id, hids]
  rfl

/-- A search for a NUL. -/
def nulSearch : DirectoryQuery := { search := some (String.singleton (Char.ofNat 0)) }

/-- No page of it is returned, although the leader sees two users. -/
theorem nul_not_listed : (∀ c page size, listUserDirectory byLength c twoTeams 1 10 nulSearch page size =
      .error nulRefused) ∧ ¬∃ pages total, Paged byLength twoTeams 1 10 nulSearch pages total := by
  have herror : ∀ c page size, listUserDirectory byLength c twoTeams 1 10 nulSearch page size = .error nulRefused := by
    intro c page size
    unfold listUserDirectory
    rw [if_neg (by decide +kernel), if_pos (by decide +kernel)]
  refine ⟨herror, ?_⟩
  rintro ⟨pages, total, calls, size, -, -, ⟨page, first, hfirst, -⟩, -⟩
  rw [herror] at hfirst
  cases hfirst

end OmniDB.Directory
