import OmniDB.Proofs.CredentialRace
import OmniDB.Proofs.WorkforceFrame
import OmniDB.Tx.Upheld

/-! Activation codes. Every transaction that issues or spends a code of a user holds the row lock
of that user. So there is at most one live code for a user, a code is spent once, and a code that
was replaced is never accepted. -/

namespace OmniDB.ActivationCodes

open Tx
open Tx.Prog
open Workforce (used issueActivationToken setActivationToken)
open Auth (usable)

/-! ## The codes of a user -/

variable {x x' : Db} {user n : Uuid} {t t' : ActivationToken} {now : Time}

def codesOf (x : Db) (user : Uuid) : List ActivationToken := x.activationTokens.filter fun t => t.userId = user

/-- The codes of the user that were not used up. -/
def live (x : Db) (user : Uuid) : List ActivationToken := (codesOf x user).filter fun t => t.usedAt.isNone

/-- A row only goes from unused to used. -/
def Follows (t t' : ActivationToken) : Prop := t' = t ∨ t.usedAt = none ∧ ∃ now, t' = used now t

theorem Follows.trans {t'' : ActivationToken} (h : Follows t t') (h' : Follows t' t'') : Follows t t'' := by
  rcases h with rfl | ⟨hn, now, rfl⟩
  · exact h'
  · rcases h' with rfl | ⟨hn', -⟩
    · exact Or.inr ⟨hn, now, rfl⟩
    · cases hn'

/-- A row that was used up stays as it is. -/
theorem Follows.eq (h : Follows t t') (ht : t.usedAt.isSome = true) : t' = t := by
  rcases h with h | ⟨hn, -⟩
  · exact h
  · rw [hn] at ht
    cases ht

/-- The lock of a user guards its codes, and the lock of a row guards the row. -/
def locks : Discipline Db LockKey where
  grows x x' := ∀ id t, Table.find x.activationTokens id = some t →
    ∃ t', Table.find x'.activationTokens id = some t' ∧ Follows t t'
  same k x x' := (∀ user, k = .user user → codesOf x' user = codesOf x user) ∧
    ∀ id, k = .activationToken id → Table.find x'.activationTokens id = Table.find x.activationTokens id
  grows_refl _ _ t h := ⟨t, h, Or.inl rfl⟩
  grows_trans _ _ _ h h' id t ht := by
    obtain ⟨t', ht', hf⟩ := h id t ht
    obtain ⟨t'', ht'', hf'⟩ := h' id t' ht'
    exact ⟨t'', ht'', hf.trans hf'⟩
  same_refl _ _ := ⟨fun _ _ => rfl, fun _ _ => rfl⟩
  same_trans _ _ _ _ h h' := ⟨fun user hk => (h'.1 user hk).trans (h.1 user hk),
    fun id hk => (h'.2 id hk).trans (h.2 id hk)⟩

/-- Every user has at most one live code. -/
structure Kept (x : Db) : Prop where
  ids : Table.Unique x.activationTokens
  single : ∀ user, (live x user).length ≤ 1

def mark (n : Uuid) (now : Time) (x : Db) : Db :=
  { x with activationTokens := Table.modify x.activationTokens n (used now) }

def push (t : ActivationToken) (x : Db) : Db := { x with activationTokens := x.activationTokens ++ [t] }

section Writes

theorem key_used (r : ActivationToken) (h : Tx.key r = n) : Tx.key (used now r) = n := h

/-- Whose codes are marked: those of the user of the row. -/
theorem codesOf_mark (hu : Table.Unique x.activationTokens) (ht : Table.find x.activationTokens n = some t)
    (hne : t.userId ≠ user) : codesOf (mark n now x) user = codesOf x user := by
  refine Table.filter_modify_of_not fun r hr hk => ?_
  obtain rfl : r = t := hu.eq hr (Table.mem_of_find ht) (hk.trans (Table.key_of_find ht).symm)
  exact ⟨decide_eq_false hne, decide_eq_false hne⟩

theorem live_mark : live (mark n now x) user = (live x user).filter fun r => Tx.key r ≠ n := by
  unfold live codesOf
  simp only [List.filter_filter]
  exact (Table.filter_modify_drop (f := used now)
    (p := fun r : ActivationToken => r.usedAt.isNone && r.userId = user) fun r => rfl).trans (List.filter_filter ..)

theorem Kept.mark (h : Kept x) (n : Uuid) (now : Time) : Kept (mark n now x) where
  ids := h.ids.modify n fun r hr => key_used r hr
  single user := live_mark ▸ (List.length_filter_le ..).trans (h.single user)

theorem find_mark (j : Uuid) : Table.find (mark n now x).activationTokens j =
    if j = n then (Table.find x.activationTokens j).map (used now) else Table.find x.activationTokens j :=
  Table.find_modify fun r hr => key_used r hr

theorem Kept.push (h : Kept x) (hid : Table.find x.activationTokens t.id = none) (hlive : live x t.userId = []) :
    Kept (push t x) where
  ids := h.ids.append hid
  single user := by
    unfold live codesOf ActivationCodes.push
    rw [List.filter_append, List.filter_append, List.length_append]
    by_cases hu : t.userId = user
    · subst hu
      have hnil : (x.activationTokens.filter fun r => r.userId = t.userId).filter (fun r => r.usedAt.isNone) = [] := hlive
      rw [hnil]
      exact (Nat.zero_add _).trans_le ((List.length_filter_le ..).trans (List.length_filter_le ..))
    · have hold := h.single user
      unfold live codesOf at hold
      simpa [hu] using hold

theorem codesOf_push (hne : t.userId ≠ user) : codesOf (push t x) user = codesOf x user := by
  unfold codesOf push
  rw [List.filter_append, List.filter_cons_of_neg (by simpa using hne)]
  exact List.append_nil _

theorem mem_codesOf : t ∈ codesOf x user ↔ t ∈ x.activationTokens ∧ t.userId = user := by
  simp [codesOf]

end Writes

/-! ## What a transaction has written so far -/

variable {α β ω : Type} {P : Protocol Db LockKey Err α ω} {l : Stand Db LockKey ω} {p : Db → Db} {s s' : Db}

/-- Whatever others commit meanwhile, the writes of the transaction stay within its locks, and act on
the codes of each user and on each row by themselves. -/
structure Sofar (l : Stand Db LockKey ω) (p : Db → Db) (s : Db) : Prop where
  within : ∀ x, locks.Frame l.held s x → Kept x → locks.Within l.held x (p x)
  kept : ∀ x, locks.Frame l.held s x → Kept x → Kept (p x)
  codes : ∀ user x x', codesOf x' user = codesOf x user → codesOf (p x') user = codesOf (p x) user
  row : ∀ id x x', Table.find x'.activationTokens id = Table.find x.activationTokens id →
    Table.find (p x').activationTokens id = Table.find (p x).activationTokens id

namespace Sofar

theorem init : Sofar l (fun x => x) s where
  within _ _ _ := .refl
  kept _ _ h := h
  codes _ _ _ h := h
  row _ _ _ h := h

theorem silent (h : Sofar l p s) {f : Db → Db} (hf : Keeps Db.activationTokens f) : Sofar l (f ∘ p) s where
  within x hx hk := by
    have hw := h.within x hx hk
    exact ⟨by simpa [locks, hf (p x)] using hw.grows, by simpa [locks, codesOf, hf (p x)] using hw.same⟩
  kept x hx hk := by
    have hk := h.kept x hx hk
    exact ⟨by simpa [hf (p x)] using hk.ids, by simpa [live, codesOf, hf (p x)] using hk.single⟩
  codes user x x' hx := by simpa [codesOf, hf (p x), hf (p x')] using h.codes user x x' hx
  row id x x' hx := by simpa [hf (p x), hf (p x')] using h.row id x x' hx

theorem later (h : Sofar l p s) {l' : Stand Db LockKey ω} (hl : l.Onward l') (hf : locks.Frame l.held s s') :
    Sofar l' p s' where
  within x hx hk := (h.within x (hf.trans (hx.mono hl.held)) hk).mono hl.held
  kept x hx hk := h.kept x (hf.trans (hx.mono hl.held)) hk
  codes := h.codes
  row := h.row

theorem of_keeps (hp : Keeps Db.activationTokens p) : Sofar l p s := init.silent hp

/-- What the transaction sees of the codes of a user it has locked. -/
theorem codes_eq (h : Sofar l p s) (hk : l.held (.user user)) (hf : locks.Frame l.held s x) :
    codesOf (p x) user = codesOf (p s) user := h.codes user s x ((hf.same _ hk).1 user rfl)

theorem row_eq (h : Sofar l p s) (hk : l.held (.activationToken n)) (hf : locks.Frame l.held s x) :
    Table.find (p x).activationTokens n = Table.find (p s).activationTokens n :=
  h.row n s x ((hf.same _ hk).2 n rfl)

/-- The transaction uses up a code of a user it has locked. -/
theorem mark (h : Sofar l p s) (hu : l.held (.user user)) (hk : l.held (.activationToken n))
    (ht : Table.find (p s).activationTokens n = some t) (hid : t.userId = user) (hlive : t.usedAt = none) (now : Time) :
    Sofar l (mark n now ∘ p) s where
  within x hx hx' := by
    have hfind := (h.row_eq hk hx).trans ht
    refine (h.within x hx hx').trans ⟨fun j r hr => ?_, fun k hkk => ⟨fun w hw => ?_, fun j hj => ?_⟩⟩
    · rw [Function.comp_apply, find_mark]
      split_ifs with hj
      · subst hj
        obtain rfl : t = r := Option.some.inj (hfind.symm.trans hr)
        exact ⟨_, congrArg _ hr, Or.inr ⟨hlive, now, rfl⟩⟩
      · exact ⟨r, hr, Or.inl rfl⟩
    · exact codesOf_mark (h.kept x hx hx').ids hfind fun he => hkk (hw ▸ he ▸ hid ▸ hu)
    · rw [Function.comp_apply, find_mark, if_neg]
      rintro rfl
      exact hkk (hj ▸ hk)
  kept x hx hx' := (h.kept x hx hx').mark n now
  codes w x x' hx := by
    have hcomm (y : Db) : codesOf (ActivationCodes.mark n now y) w = Table.modify (codesOf y w) n (used now) :=
      Table.filter_modify_comm fun r => rfl
    simp only [Function.comp]
    rw [hcomm, hcomm, h.codes w x x' hx]
  row j x x' hx := by
    simp only [Function.comp]
    rw [find_mark, find_mark, h.row j x x' hx]

/-- The transaction adds a code for a user it has locked and who has no live code. -/
theorem push (h : Sofar l p s) (hu : l.held (.user t.userId)) (hk : l.held (.activationToken t.id))
    (hid : Table.find (p s).activationTokens t.id = none) (hlive : live (p s) t.userId = []) :
    Sofar l (push t ∘ p) s where
  within x hx hx' := by
    have hfind := (h.row_eq hk hx).trans hid
    refine (h.within x hx hx').trans ⟨fun j r hr => ⟨r, Table.find_append_of_some hr, Or.inl rfl⟩,
      fun k hkk => ⟨fun w hw => codesOf_push fun he => hkk (hw ▸ he ▸ hu), fun j hj => ?_⟩⟩
    refine Table.find_append_of_ne fun r hr he => ?_
    obtain rfl := List.mem_singleton.1 hr
    exact hkk (hj ▸ he ▸ hk)
  kept x hx hx' := (h.kept x hx hx').push ((h.row_eq hk hx).trans hid) (by
    unfold live at hlive ⊢
    rwa [h.codes_eq hu hx])
  codes w x x' hx := by
    have hsplit (y : Db) : codesOf (ActivationCodes.push t y) w = codesOf y w ++ [t].filter fun r => r.userId = w :=
      List.filter_append ..
    simp only [Function.comp]
    rw [hsplit, hsplit, h.codes w x x' hx]
  row j x x' hx := Table.find_append_congr (h.row j x x' hx)

end Sofar

/-! ## What leaves the codes alone -/

section Parts

variable {α : Type} {y : Txn α}

instance (priority := low) leaves_codes [h : Leaves Db.people y] : Leaves Db.activationTokens y :=
  h.part People.activationTokens

instance (e : AuditEvent) : Leaves Db.activationTokens (recordAudit e) := .update fun _ => rfl

instance (n : Notification) : Leaves Db.activationTokens (notify n) := .then inferInstance fun _ => .update fun _ => rfl

instance (n : Uuid) (f : UserSession → UserSession) : Leaves Db.activationTokens (Authz.setSession n f) :=
  .then inferInstance fun _ => .update fun _ => rfl

instance (now : Time) (user : Uuid) : Leaves Db.activationTokens (Authz.revokeAllForUser now user) := by
  unfold Authz.revokeAllForUser; infer_instance

instance (now : Time) (user : Uuid) :
    Leaves Db.activationTokens (Authz.invalidateDelegateSessionsForDelegator now user) := by
  unfold Authz.invalidateDelegateSessionsForDelegator; infer_instance

end Parts

section Workforce

open Workforce

variable (c : Call) (actor : Uuid)

instance (n : Uuid) (f : User → User) : Leaves Db.activationTokens (setUser n f) :=
  .then inferInstance fun _ => .update fun _ => rfl

instance (u : User) (f : User → User) : Leaves Db.activationTokens (flushUser u f) := by
  unfold flushUser; infer_instance

instance (n : Uuid) (f : TeamMembership → TeamMembership) : Leaves Db.activationTokens (setMembership n f) :=
  .then inferInstance fun _ => .update fun _ => rfl

instance (n : Uuid) (f : ReportingAssignment → ReportingAssignment) :
    Leaves Db.activationTokens (setReportingAssignment n f) :=
  .then inferInstance fun _ => .update fun _ => rfl

instance (n : Uuid) (f : RoleAssignment → RoleAssignment) : Leaves Db.activationTokens (setRoleAssignment n f) :=
  .then inferInstance fun _ => .update fun _ => rfl

instance (a b : Uuid) : Leaves Db.activationTokens (assertNotSelf a b) := by unfold assertNotSelf; infer_instance

instance (u : User) (ch : UserChanges) (reason : Option String) :
    Leaves Db.activationTokens (updateUser u ch actor reason) := by
  unfold updateUser; infer_instance

instance (u : User) (reason : String) : Leaves Db.activationTokens (disableUser c u actor reason) := by
  unfold disableUser; infer_instance

instance (u : User) (reason : String) : Leaves Db.activationTokens (reactivateUser u actor reason) := by
  unfold reactivateUser; infer_instance

instance (team user : Uuid) : Leaves Db.activationTokens (addTeamMembership c team user actor) := by
  have (m : TeamMembership) : Leaves Db.activationTokens (insertRow "team_memberships" .membership Db.memberships
      (fun m db => { db with memberships := db.memberships ++ [m] }) m) := leaves_insertRow fun _ => rfl
  unfold addTeamMembership
  repeat' first | infer_instance | split | refine .then inferInstance fun _ => ?_

instance (m : TeamMembership) (reason : Option String) :
    Leaves Db.activationTokens (endTeamMembership c m actor reason) := by
  unfold endTeamMembership; infer_instance

instance (r : ReportingRequest) : Leaves Db.activationTokens (setReportingLine c r actor) := by
  have (l : ReportingAssignment) : Leaves Db.activationTokens
      (insertRow "reporting_assignments" .reportingAssignment Db.reportingAssignments
        (fun l db => { db with reportingAssignments := db.reportingAssignments ++ [l] }) l) :=
    leaves_insertRow fun _ => rfl
  unfold setReportingLine; infer_instance

instance (l : ReportingAssignment) (reason : Option String) :
    Leaves Db.activationTokens (endReportingLine c l actor reason) := by
  unfold endReportingLine; infer_instance

instance (ra : RoleAssignment) : Leaves Db.activationTokens (insertRoleAssignment ra) :=
  leaves_insertRow fun _ => rfl

instance (r : RoleRequest) : Leaves Db.activationTokens (assignRole c r actor) := by
  unfold assignRole
  dsimp only
  repeat' first | infer_instance | split | refine .then inferInstance fun _ => ?_

instance (ra : RoleAssignment) (reason : String) : Leaves Db.activationTokens (endRoleAssignment c ra actor reason) := by
  unfold endRoleAssignment; infer_instance

instance (now : Time) (caps : List Capability) (user : Uuid) :
    Leaves Db.activationTokens (requireAnyCapability now caps user) := by
  unfold requireAnyCapability; infer_instance

end Workforce

section Rows

open WorkforceImports

variable (c : Call) (row : WorkforceImportRow) (actor : Uuid)

instance (k : Campaign) (agent : Uuid) (team : Option Uuid) : Leaves Db.activationTokens (tryAssign c k agent team actor) :=
  .catch inferInstance fun e => by split <;> infer_instance

instance (n : Uuid) : Leaves Db.activationTokens (lockUser n) := by unfold lockUser; infer_instance

instance : Leaves Db.activationTokens (commitDeactivationRow c row actor) := by
  unfold commitDeactivationRow
  repeat' first | infer_instance | split | refine .then inferInstance fun _ => ?_

instance : Leaves Db.activationTokens (commitTeamMembershipRow c row actor) := by
  unfold commitTeamMembershipRow
  repeat' first | infer_instance | split | refine .then inferInstance fun _ => ?_

instance : Leaves Db.activationTokens (commitReportingAssignmentRow c row actor) := by
  unfold commitReportingAssignmentRow
  dsimp only
  repeat' first | infer_instance | split | refine .then ?_ fun _ => ?_ | refine .catch inferInstance fun _ => ?_

instance : Leaves Db.activationTokens (commitCampaignAssignmentRow c row actor) := by
  unfold commitCampaignAssignmentRow
  repeat' first | infer_instance | split | refine .then inferInstance fun _ => ?_

instance : Leaves Db.activationTokens (commitRoleAssignmentRow c row actor) := by
  unfold commitRoleAssignmentRow
  dsimp only
  repeat' first | infer_instance | split | refine .then inferInstance fun _ => ?_

instance (n : Uuid) (f : WorkforceImportJob → WorkforceImportJob) : Leaves Db.activationTokens (setWorkforceJob n f) :=
  .then inferInstance fun _ => .update fun _ => rfl

instance (n : Uuid) (f : WorkforceImportRow → WorkforceImportRow) : Leaves Db.activationTokens (setWorkforceRow n f) :=
  .update fun _ => rfl

variable (job : WorkforceImportJob)

instance (action : String) (o : Outcome) : Leaves Db.activationTokens (recordRow action job row actor o) := by
  unfold recordRow; split <;> infer_instance

instance (now : Time) (risk : RiskLevel) : Leaves Db.activationTokens (assertRowsAuthorized now job actor risk) := by
  unfold assertRowsAuthorized; infer_instance

instance (now : Time) : Leaves Db.activationTokens (assertQualifiedHighRiskApprover now job actor) := by
  unfold assertQualifiedHighRiskApprover; infer_instance

instance (now : Time) : Leaves Db.activationTokens (assertJobAccessible now job actor) := by
  unfold assertJobAccessible; infer_instance

instance : Leaves Db.activationTokens (standardApprover c job) := by unfold standardApprover; infer_instance

instance : Leaves Db.activationTokens (highRiskApprover c job) := by unfold highRiskApprover; infer_instance

end Rows

/-! ## Statements -/

section Bodies

variable [hP : P.Respects locks Kept] {Q : β → Protocol.Assertion Db LockKey ω}
variable {E : Err → Protocol.Assertion Db LockKey ω}

instance : P.Steady (ω := ω) Sofar where
  later h hs := h.later (.refl _) (hP.frame _ _ _ hs.1)
  saw n v h := h.later (Stand.onward_saw _ n v) .refl
  take k h := h.later (Stand.onward_take _ k) .refl

instance (priority := low) (y : Txn β) [y.Leaves Db.activationTokens] : P.Upholds Sofar y :=
  .of_leaves (π := Db.activationTokens) fun _ hf h => h.silent hf

/-- `FOR UPDATE` on a row that must be there: it is locked. -/
theorem ends_expectLocked {ρ : Type} [Keyed ρ Uuid] {name : String} {key : Uuid → LockKey} {table : Db → List ρ}
    {cond : ρ → Bool} {n : Uuid} {e : Err} {f : ρ → Txn β} (hJ : Sofar l p s)
    (h : ∀ l' s' r, Sofar l' p s' → l'.held (key n) → P.ends (f r) Q (fun _ => Sofar) l' p s') :
    P.ends (do let r ← Prog.expect (← selectForUpdate name key table cond n) e; f r) Q (fun _ => Sofar) l p s := by
  unfold selectForUpdate getRow
  simp only [Protocol.ends_bind, Protocol.ends_view, Protocol.ends_pure]
  intro s₁ hs₁
  have h₁ := Protocol.Steady.saw (P := P) name (p s₁) (Protocol.Steady.later hJ hs₁)
  cases Table.find (table (p s₁)) n with
  | none => exact (Protocol.ends_bind ..).2 ((Protocol.ends_expect ..).2 ⟨fun _ => h₁, by simp⟩)
  | some r =>
    dsimp only
    split_ifs with hc
    · simp only [Protocol.ends_bind, Protocol.ends_acquire, Protocol.ends_view, Protocol.ends_pure, Protocol.ends_expect]
      intro s₂ hs₂ _ s₃ hs₃
      have h₃ := Protocol.Steady.saw (P := P) (name ++ " (locked)") (p s₃)
        (Protocol.Steady.later (Protocol.Steady.take (P := P) (key n) (Protocol.Steady.later h₁ hs₂)) hs₃)
      exact ⟨fun _ => h₃, fun r _ => h _ _ _ h₃ (Or.inl rfl)⟩
    · exact (Protocol.ends_bind ..).2 ((Protocol.ends_expect ..).2 ⟨fun _ => h₁, by simp⟩)

/-- Marking the live codes of a locked user, one after the other. -/
theorem ends_markAll (rows : List ActivationToken) (hids : (rows.map Tx.key).Nodup) (hJ : Sofar l p s)
    (hu : l.held (.user user)) (hrows : ∀ t, t ∈ rows ↔ t ∈ live (p s) user) (now : Time) :
    P.ends (rows.forM fun t => setActivationToken t.id (used now))
      (fun _ l' p' s' => Sofar l' p' s' ∧ l'.held (.user user) ∧ live (p' s') user = []) E l p s := by
  induction rows generalizing l p s with
  | nil => exact ⟨hJ, hu, List.eq_nil_iff_forall_not_mem.2 fun t ht => by simpa using (hrows t).2 ht⟩
  | cons t rows ih =>
    rw [List.map_cons, List.nodup_cons] at hids
    change P.ends (setActivationToken t.id (used now) >>= fun _ => rows.forM _) _ _ _ _ _
    unfold setActivationToken
    simp only [Protocol.ends_bind, Protocol.ends_acquire, Protocol.ends_update]
    intro s₁ hs₁ _
    have hJ₁ := Protocol.Steady.take (P := P) (.activationToken t.id) (Protocol.Steady.later hJ hs₁)
    have hu₁ : (l.take (.activationToken t.id)).held (.user user) := Or.inr hu
    have hlive : live (p s₁) user = live (p s) user := by
      unfold live
      rw [hJ.codes_eq hu (hP.frame _ _ _ hs₁.1)]
    have ht : t ∈ live (p s₁) user := hlive ▸ (hrows t).1 List.mem_cons_self
    obtain ⟨hmem, hnone⟩ := List.mem_filter.1 ht
    obtain ⟨hmem, huser⟩ := mem_codesOf.1 hmem
    have hkept : Kept (p s₁) := hJ₁.kept s₁ .refl (hP.inv _ hs₁.2)
    have hfind : Table.find (p s₁).activationTokens t.id = some t := hkept.ids.find_of_mem hmem
    refine ih hids.2 (hJ₁.mark hu₁ (Or.inl rfl) hfind huser (Option.isNone_iff_eq_none.1 hnone) now) hu₁ fun r => ?_
    have hiff : r ∈ t :: rows ↔ r ∈ live (p s₁) user := hlive ▸ hrows r
    change r ∈ rows ↔ r ∈ live (mark t.id now (p s₁)) user
    rw [live_mark, List.mem_filter, ← hiff, List.mem_cons]
    constructor
    · exact fun hr => ⟨Or.inr hr, decide_eq_true fun hk : Tx.key r = Tx.key t => hids.1 (hk ▸ List.mem_map_of_mem hr)⟩
    · rintro ⟨rfl | hr, hk⟩
      · exact absurd rfl (of_decide_eq_true hk)
      · exact hr

/-- The code that `issue_activation_token` adds. -/
def newCode (c : Call) (user createdBy : Uuid) : ActivationToken where
  id := c.uuid4 1
  userId := user
  tokenHash := c.hashToken (c.token 0)
  createdBy := some createdBy
  expiresAt := c.utcnow 0 + hours 24

/-- All codes of the user but `t`, the last, are used up. -/
def Replaced (x : Db) (user : Uuid) (t : ActivationToken) : Prop :=
  ∃ old, codesOf x user = old ++ [t] ∧ ∀ r ∈ old, r.usedAt.isSome = true

/-- The transaction has issued the code `t` for a user it has locked. -/
def Issued (user : Uuid) (t : ActivationToken) : Protocol.Assertion Db LockKey ω :=
  fun l p s => Sofar l p s ∧ l.held (.user user) ∧ Replaced (p s) user t

theorem ends_issue (c : Call) (user createdBy : Uuid) (hJ : Sofar l p s) :
    P.ends (issueActivationToken c user createdBy) (fun _ => Issued user (newCode c user createdBy))
      (fun _ => Sofar) l p s := by
  unfold issueActivationToken
  refine ends_expectLocked hJ fun l₁ s₁ r hJ₁ hu₁ => ?_
  simp only [Protocol.ends_bind, Protocol.ends_view]
  intro s₂ hs₂
  have hJ₂ := Protocol.Steady.saw (P := P) "prior tokens" (p s₂) (Protocol.Steady.later hJ₁ hs₂)
  have hkept : Kept (p s₂) := hJ₂.kept s₂ .refl (hP.inv _ hs₂.2)
  have hmem (t : ActivationToken) : t ∈ orderBy (fun t t' => t.id ≤ t'.id)
      ((p s₂).activationTokens.filter fun t => t.userId = user && t.usedAt.isNone) ↔ t ∈ live (p s₂) user := by
    rw [mem_orderBy]
    unfold live codesOf
    simp [and_comm]
  have hids : ((orderBy (fun t t' => t.id ≤ t'.id)
      ((p s₂).activationTokens.filter fun t => t.userId = user && t.usedAt.isNone)).map Tx.key).Nodup :=
    ((perm_orderBy ..).map _).nodup_iff.2 (hkept.ids.filter _)
  refine Protocol.ends_mono _ (fun _ l₃ p₃ s₃ h₃ => ?_) (fun _ _ _ _ h => h) _ _ _
    (ends_markAll _ hids hJ₂ hu₁ hmem (c.utcnow 0))
  obtain ⟨hJ₃, hu₃, hlive⟩ := h₃
  unfold insertRow
  simp only [Protocol.ends_bind, Protocol.ends_acquire, Protocol.ends_view, Protocol.ends_raiseIf,
    Protocol.ends_update, Protocol.ends_acquireShared, Protocol.ends_pure]
  intro s₄ hs₄ _ s₅ hs₅
  have hJ₄ := Protocol.Steady.take (P := P) (.activationToken (c.uuid4 1)) (Protocol.Steady.later hJ₃ hs₄)
  have hJ₅ := Protocol.Steady.saw (P := P) "activation_tokens" (p₃ s₅) (Protocol.Steady.later hJ₄ hs₅)
  have hu₅ : (l₃.take (.activationToken (c.uuid4 1))).held (.user user) := Or.inr hu₃
  have hlive₅ : live (p₃ s₅) user = [] := by
    unfold live at hlive ⊢
    rw [hJ₄.codes_eq hu₅ (hP.frame _ _ _ hs₅.1), hJ₃.codes_eq hu₃ (hP.frame _ _ _ hs₄.1), hlive]
  refine ⟨fun _ => hJ₅, fun hfree s₆ hs₆ => ?_⟩
  have hJ₆ := hJ₅.push (t := newCode c user createdBy) hu₅ (Or.inl rfl) (Option.not_isSome_iff_eq_none.1 hfree) hlive₅
  refine ⟨Protocol.Steady.later hJ₆ hs₆, hu₅, codesOf (p₃ s₆) user, ?_, fun r hr => ?_⟩
  · exact (List.filter_append ..).trans (congrArg _ (List.filter_cons_of_pos (by simp)))
  · have hlive₆ : live (p₃ s₆) user = [] := by
      unfold live at hlive₅ ⊢
      rw [hJ₅.codes_eq hu₅ (hP.frame _ _ _ hs₆.1), hlive₅]
    have hused := List.filter_eq_nil_iff.1 hlive₆ r hr
    exact Option.isSome_iff_ne_none.2 (by simpa using hused)

instance : P.Steady (ω := ω) (Issued user t) where
  later h hs := by
    have hf := hP.frame _ _ _ hs.1
    refine ⟨Protocol.Steady.later (P := P) h.1 hs, h.2.1, ?_⟩
    unfold Replaced
    rw [h.1.codes_eq h.2.1 hf]
    exact h.2.2
  saw n v h := ⟨Protocol.Steady.saw (P := P) n v h.1, h.2⟩
  take k h := ⟨Protocol.Steady.take (P := P) k h.1, Or.inr h.2.1, h.2.2⟩

/-- A code is issued, and what follows leaves it alone. -/
theorem wp_issued (c : Call) (user createdBy : Uuid) {f : String → Txn β}
    [hf : ∀ token, (f token).Leaves Db.activationTokens] (hJ : Sofar l p s) :
    P.wp (do let token ← issueActivationToken c user createdBy; f token)
      (fun _ => Issued user (newCode c user createdBy)) l p s := by
  rw [Protocol.wp_bind]
  refine Protocol.wp_mono _ (fun token l' p' s' h => ?_) _ _ _ (Protocol.wp_of_ends _ _ _ _ (ends_issue c user createdBy hJ))
  refine (Protocol.Upholds.of_leaves (π := Db.activationTokens) fun {_ q v} g hg hi => ?_).wp h
  refine ⟨hi.1.silent hg, hi.2.1, ?_⟩
  unfold Replaced codesOf
  rw [Function.comp_apply, hg (q v)]
  exact hi.2.2

instance (c : Call) (user createdBy : Uuid) : P.Upholds Sofar (issueActivationToken c user createdBy) :=
  ⟨fun _ _ _ h => Protocol.ends_mono _ (fun _ _ _ _ h => h.1) (fun _ _ _ _ h => h) _ _ _ (ends_issue c user createdBy h)⟩

/-- The transaction has spent the code `t`, and has written no other. -/
structure Spends (c : Call) (token : String) (user : Uuid) (l : Stand Db LockKey ω) (p : Db → Db) (s : Db)
    (t : ActivationToken) : Prop where
  sofar : Sofar l p s
  locked : l.held (.activationToken t.id)
  row : Table.find s.activationTokens t.id = some t
  usable : usable (c.hashToken token) (c.utcnow 0) t = true
  user : t.userId = user
  writes : ∀ x, (p x).activationTokens = Table.modify x.activationTokens t.id (used (c.utcnow 0))

theorem Spends.silent {c : Call} {token : String} (h : Spends c token user l p s t) {f : Db → Db}
    (hf : Keeps Db.activationTokens f) : Spends c token user l (f ∘ p) s t :=
  ⟨h.sofar.silent hf, h.locked, h.row, h.usable, h.user, fun x => (hf (p x)).trans (h.writes x)⟩

theorem Spends.later {c : Call} {token : String} (h : Spends c token user l p s t) {l' : Stand Db LockKey ω}
    (hl : l.Onward l') (hf : locks.Frame l.held s s') : Spends c token user l' p s' t where
  sofar := h.sofar.later hl hf
  locked := hl.held _ h.locked
  row := ((hf.same _ h.locked).2 t.id rfl).trans h.row
  usable := h.usable
  user := h.user
  writes := h.writes

/-- What follows leaves the codes alone. -/
theorem wp_spends {c : Call} {token : String} (y : Txn β) [y.Leaves Db.activationTokens]
    (h : Spends c token user l p s t) : P.wp y (fun _ l' p' s' => Spends c token user l' p' s' t) l p s := by
  have : P.Steady (ω := ω) fun l p s => Spends c token user l p s t :=
    ⟨fun h hs => h.later (.refl _) (hP.frame _ _ _ hs.1), fun _ _ h => h.later (Stand.onward_saw ..) .refl,
      fun _ h => h.later (Stand.onward_take ..) .refl⟩
  exact (Protocol.Upholds.of_leaves (π := Db.activationTokens) fun _ hf h => h.silent hf).wp h

/-- The rows that the second select has locked. -/
def LockedCodes (hash : String) (now : Time) (user : Uuid) (rows : List ActivationToken) :
    Protocol.Assertion Db LockKey ω := fun l p s =>
  Keeps Db.activationTokens p ∧ l.held (.user user) ∧ ∀ r ∈ rows, l.held (.activationToken r.id) ∧
    Table.find s.activationTokens r.id = some r ∧ usable hash now r = true ∧ r.userId = user

theorem LockedCodes.later {hash : String} {rows : List ActivationToken} (h : LockedCodes hash now user rows l p s)
    {l' : Stand Db LockKey ω} (hl : l.Onward l') (hf : locks.Frame l.held s s') :
    LockedCodes hash now user rows l' p s' := by
  refine ⟨h.1, hl.held _ h.2.1, fun r hr => ?_⟩
  obtain ⟨hk, hfind, hrest⟩ := h.2.2 r hr
  exact ⟨hl.held _ hk, ((hf.same _ hk).2 r.id rfl).trans hfind, hrest⟩

theorem wp_lockCodes (c : Call) {hash : String} (h : LockedCodes hash now user [] l p s) :
    P.wp (lockRows "activation token" false .activationToken Db.activationTokens
        (fun _ t => usable hash now t && t.userId = user) (scan c))
      (fun rows => LockedCodes hash now user rows) l p s := by
  unfold lockRows
  rw [Protocol.wp_bind, Protocol.wp_view]
  intro s₁ hs₁
  refine Protocol.wp_foldlM_mem _ (fun t ht rows l₂ p₂ s₂ h₂ => ?_) _ _ _ _
    (h.later (Stand.onward_saw ..) (hP.frame _ _ _ hs₁.1))
  unfold lockRow getRow
  simp only [Bool.false_eq_true, if_false, Protocol.wp_bind, Protocol.wp_acquire, Protocol.wp_pure, if_true,
    Protocol.wp_view]
  intro s₃ hs₃ _ s₄ hs₄
  have h₃ := h₂.later (Stand.onward_take _ (.activationToken (Tx.key t))) (hP.frame _ _ _ hs₃.1)
  have h₄ := h₃.later (Stand.onward_saw _ ("activation token" ++ " (locked)") (p₂ s₄)) (hP.frame _ _ _ hs₄.1)
  refine ⟨h₄.1, h₄.2.1, fun r hr => ?_⟩
  rcases List.mem_append.1 hr with hr | hr
  · exact h₄.2.2 r hr
  · obtain ⟨hfind, hcond⟩ := Option.filter_eq_some_iff.1 (Option.mem_toList.1 hr)
    rw [h₄.1 s₄] at hfind
    rw [Bool.and_eq_true] at hcond
    have hkey : r.id = Tx.key t := Table.key_of_find hfind
    rw [← hkey] at hfind
    exact ⟨Or.inl (congrArg _ hkey), hfind, hcond.1, of_decide_eq_true hcond.2⟩

/-- A code that is accepted was live under its lock, and is spent. -/
theorem wp_consume (c : Call) (token : String) (hp : Keeps Db.activationTokens p) :
    P.wp (Auth.consumeActivationToken c token) (fun o l' p' s' => (o = none ∧ Keeps Db.activationTokens p') ∨
      ∃ u t, o = some u ∧ Spends c token u l' p' s' t) l p s := by
  unfold Auth.consumeActivationToken
  rw [Protocol.wp_bind, Protocol.wp_view]
  intro s₁ hs₁
  cases (p s₁).activationTokens.find? (usable (c.hashToken token) (c.utcnow 0)) with
  | none => exact Or.inl ⟨rfl, hp⟩
  | some candidate =>
    dsimp only
    rw [Protocol.wp_bind]
    refine wp_forUpdate (D := locks) (I := Kept) (fun l₂ s₂ _ _ _ => Or.inl ⟨rfl, hp⟩)
      fun l₂ s₂ user _ hu _ _ _ hfind _ => ?_
    have huser : user.id = candidate.userId := Table.key_of_find hfind
    rw [← huser] at hu
    dsimp only
    rw [Protocol.wp_bind]
    refine Protocol.wp_mono _ (fun rows l₃ p₃ s₃ h₃ => ?_) _ _ _
      (wp_lockCodes c ⟨hp, hu, fun r hr => absurd hr List.not_mem_nil⟩)
    cases rows with
    | nil => exact Or.inl ⟨rfl, h₃.1⟩
    | cons row rows =>
      unfold setActivationToken
      simp only [List.head?_cons, Protocol.wp_bind, Protocol.wp_acquire, Protocol.wp_update, Protocol.wp_pure]
      intro s₄ hs₄ _
      have h₄ := h₃.later (Stand.onward_take _ (.activationToken row.id)) (hP.frame _ _ _ hs₄.1)
      obtain ⟨hk, hrow, husable, hid⟩ := h₄.2.2 row List.mem_cons_self
      have hnone : row.usedAt = none := by
        simp only [usable, Bool.and_eq_true, Option.isNone_iff_eq_none] at husable
        exact husable.1.2
      refine Or.inr ⟨_, row, rfl, ?_, hk, hrow, husable, rfl, fun x => ?_⟩
      · exact (Sofar.of_keeps h₄.1).mark h₄.2.1 hk ((congrArg (Table.find · row.id) (h₄.1 s₄)).trans hrow) hid hnone _
      · exact congrArg (Table.modify · row.id _) (h₄.1 x)

/-- The user whose code was accepted. -/
def acceptedFor : Auth.Answer Uuid → Option Uuid
  | .accepted user => some user
  | .denied .. => none

/-- What an activation has done by its end. -/
def Activates (c : Call) (token : String) (o : Option Uuid) : Protocol.Assertion Db LockKey ω := fun l p s =>
  Sofar l p s ∧ ∀ user, o = some user → ∃ t, Spends c token user l p s t

theorem wp_activateUserPassword (c : Call) (token password : String) (hp : Keeps Db.activationTokens p) :
    P.wp (Auth.activateUserPassword c token password)
      (fun o => Activates c token (o.map User.id)) l p s := by
  unfold Auth.activateUserPassword
  rw [Protocol.wp_bind]
  refine Protocol.wp_mono _ (fun o l₁ p₁ s₁ h₁ => ?_) _ _ _ (wp_consume c token hp)
  rcases h₁ with ⟨rfl, hp₁⟩ | ⟨user, t, rfl, h₁⟩
  · exact ⟨.of_keeps hp₁, by simp⟩
  · dsimp only
    rw [Protocol.wp_bind]
    refine wp_readRow (D := locks) (I := Kept) fun s₂ hf₂ _ => ?_
    have h₂ := h₁.later (Stand.onward_saw _ "user" (p₁ s₂)) hf₂
    cases hrow : Table.find (p₁ s₂).users user with
    | none => exact ⟨h₂.sofar, by simp⟩
    | some row =>
      dsimp only
      rw [Protocol.wp_bind]
      refine Protocol.wp_mono _ (fun _ l₃ p₃ s₃ h₃ => ⟨h₃.sofar, fun u hu => ?_⟩) _ _ _ (wp_spends _ h₂)
      obtain rfl : row.id = u := Option.some.inj hu
      rw [show row.id = user from Table.key_of_find hrow]
      exact ⟨t, h₃⟩

theorem wp_activate (c : Call) (lower : String → String) (token password : String)
    (hp : Keeps Db.activationTokens p) : P.wp (Auth.Request.activate c lower token password)
      (fun a => Activates c token (acceptedFor a)) l p s := by
  unfold Auth.Request.activate
  split_ifs
  · rw [Protocol.wp_bind]
    refine Protocol.wp_mono _ (fun _ l₁ p₁ s₁ h₁ => ⟨.of_keeps h₁.2.1, by simp [acceptedFor]⟩) _ _ _
      (Protocol.wp_leaves (D := locks) (I := Kept) (π := Db.activationTokens) (recordAudit _) l p s hp)
  · rw [Protocol.wp_bind]
    refine Protocol.wp_mono _ (fun _ l₁ p₁ s₁ h₁ => ?_) _ _ _
      (Protocol.wp_leaves (D := locks) (I := Kept) (π := Db.activationTokens) (Prog.ofExcept _) l p s hp)
    rw [Protocol.wp_bind]
    refine Protocol.wp_mono _ (fun o l₂ p₂ s₂ h₂ => ?_) _ _ _ (wp_activateUserPassword c token password h₁.2.1)
    cases o with
    | none => exact ⟨h₂.1.silent fun _ => rfl, by simp [acceptedFor]⟩
    | some user =>
      obtain ⟨t, ht⟩ := h₂.2 user.id rfl
      dsimp only
      rw [Protocol.wp_bind]
      refine Protocol.wp_mono _ (fun _ l₃ p₃ s₃ h₃ => ?_) _ _ _ (wp_spends (Authz.revokeAllForUser _ _) ht)
      have h₄ := h₃.silent (f := Db.log (Auth.loginEvent "auth.activate" (some user.id) none none)) fun _ => rfl
      exact ⟨h₄.sofar, fun u hu => ⟨t, Option.some.inj hu ▸ h₄⟩⟩

/-! ## The bulk commit -/

section Commit

open WorkforceImports

variable (c : Call) (row : WorkforceImportRow) (actor : Uuid) (job : WorkforceImportJob)

instance (email name : String) (workforceId : Option String) (issue : Bool) :
    P.Upholds Sofar (Workforce.createUser c email name workforceId actor issue) := by
  have (u : User) : Leaves Db.activationTokens
      (insertRow "users" .user Db.users (fun u db => { db with users := db.users ++ [u] }) u) :=
    leaves_insertRow fun _ => rfl
  unfold Workforce.createUser
  dsimp only
  repeat' first | infer_instance | refine .then inferInstance fun _ => ?_

instance (values : ParsedValues) : P.Upholds Sofar (createRowUser c row values actor) := by
  unfold createRowUser
  refine .then inferInstance fun db => .then inferInstance fun email => .then inferInstance fun displayName =>
    .then (.catch inferInstance fun e => by split <;> infer_instance) fun created => ?_
  split <;> infer_instance

instance : P.Upholds Sofar (commitUsersRow c row actor) := by
  unfold commitUsersRow
  repeat' first | infer_instance | split

instance (it : ImportType) : P.Upholds Sofar (commitRow it c row actor) := by
  cases it <;> unfold commitRow <;> infer_instance

instance (standard : Uuid) (highRisk : Option Uuid) (acc : Committed) :
    P.Upholds Sofar (commitStep c job standard highRisk acc row) := by
  unfold commitStep
  dsimp only
  repeat' first | infer_instance | split | refine .then inferInstance fun _ => ?_

instance (r : CommitRequest) : P.Upholds Sofar (commitParsed c r job) := by
  unfold commitParsed; infer_instance

instance (r : CommitRequest) (loaded : Option WorkforceImportJob) : P.Upholds Sofar (commitJob c r loaded) := by
  unfold commitJob
  dsimp only
  repeat' first | infer_instance | refine .then inferInstance fun _ => ?_

instance (r : CommitRequest) : P.Upholds Sofar (Request.commit c r) := by
  unfold Request.commit; infer_instance

end Commit

/-! ## Requests -/

/-- A request that locks its target first. -/
theorem wp_credential {now : Time} {actor id : Uuid} {f : User → Txn β}
    (h : ∀ l' s' u, u.id = id → P.wp (f u) Q l' p s') :
    P.wp (do let target ← Auth.Request.loadTarget now actor id; let locked ← Auth.lockUser target; f locked) Q l p s := by
  unfold Auth.Request.loadTarget getRow
  simp only [Protocol.wp_bind, Protocol.wp_view, Protocol.wp_raiseIf, Protocol.wp_pure, Protocol.wp_expect]
  intro s₁ _ _ s₂ _ target htarget _
  unfold Auth.lockUser
  refine wp_expectLocked (D := locks) (I := Kept) fun l₃ s₃ row _ _ _ _ _ hrow _ => h _ _ _ ?_
  have hkey : row.id = target.id := Table.key_of_find hrow
  have hid : target.id = id := Table.key_of_find htarget
  unfold Imports.identityMap
  dsimp only
  split_ifs
  · exact hid
  · exact hkey.trans hid

theorem wp_issueCode (c : Call) (actor id : Uuid) (hp : Keeps Db.activationTokens p) :
    P.wp (Auth.Request.issueActivationCode c actor id) (fun _ => Issued id (newCode c id actor)) l p s := by
  unfold Auth.Request.issueActivationCode Auth.issueOrReplaceActivationCode
  simp only [bind_assoc]
  refine wp_credential fun l₁ s₁ u hu => ?_
  subst hu
  simp only [Protocol.wp_bind _ (fun _ : Unit => _), Protocol.wp_raiseIf]
  intro _ _
  exact wp_issued c u.id actor (.of_keeps hp)

theorem wp_resetPassword (c : Call) (actor id : Uuid) (hp : Keeps Db.activationTokens p) :
    P.wp (Auth.Request.resetPassword c actor id) (fun _ => Issued id (newCode c id actor)) l p s := by
  unfold Auth.Request.resetPassword Auth.resetPassword
  simp only [bind_assoc]
  refine wp_credential fun l₁ s₁ u hu => ?_
  subst hu
  rw [Protocol.wp_bind, Protocol.wp_raiseIf]
  intro _
  rw [Protocol.wp_bind]
  refine Protocol.wp_mono _ (fun _ l₂ p₂ s₂ h₂ => ?_) _ _ _
    (Protocol.wp_leaves (D := locks) (I := Kept) (π := Db.activationTokens) (Workforce.flushUser _ _) _ p _ hp)
  rw [Protocol.wp_bind]
  refine Protocol.wp_mono _ (fun _ l₃ p₃ s₃ h₃ => ?_) _ _ _
    (Protocol.wp_leaves (D := locks) (I := Kept) (π := Db.activationTokens) (Authz.revokeAllForUser _ _) _ p₂ _ h₂.2.1)
  exact wp_issued c u.id actor (.of_keeps h₃.2.1)

end Bodies

/-! ## Runs -/

/-- The transactions that issue or spend codes, and any others that leave the codes alone. -/
inductive Op where
  | createUser (c : Call) (actor : Uuid) (email displayName : String) (workforceId : Option String)
  | issueCode (c : Call) (actor id : Uuid)
  | resetPassword (c : Call) (actor id : Uuid)
  | activate (c : Call) (lower : String → String) (token newPassword : String)
  | commitImport (c : Call) (r : WorkforceImports.CommitRequest)
  | other (y : Txn Unit) (h : y.Leaves Db.activationTokens)

/-- The result is the user whose code was accepted. -/
def body : Op → Txn (Option Uuid)
  | .createUser c actor email displayName workforceId =>
    (fun _ => none) <$> Workforce.Request.createUser c actor email displayName workforceId
  | .issueCode c actor id => (fun _ => none) <$> Auth.Request.issueActivationCode c actor id
  | .resetPassword c actor id => (fun _ => none) <$> Auth.Request.resetPassword c actor id
  | .activate c lower token newPassword => acceptedFor <$> Auth.Request.activate c lower token newPassword
  | .commitImport c r => (fun _ => none) <$> WorkforceImports.Request.commit c r
  | .other y _ => (fun _ => none) <$> y

/-- The code that the operation issues, and for whom. -/
def Op.issues : Op → Option ActivationToken
  | .issueCode c actor id | .resetPassword c actor id => some (newCode c id actor)
  | _ => none

/-- The call of an activation, and the code it brings. -/
def Op.brings : Op → Option (Call × String)
  | .activate c _ token _ => some (c, token)
  | _ => none

/-- The code `t` is accepted: it was live and had not expired, and it is used up. -/
structure Spent (c : Call) (token : String) (user : Uuid) (x x' : Db) (t : ActivationToken) : Prop where
  row : Table.find x.activationTokens t.id = some t
  hash : t.tokenHash = c.hashToken token
  live : t.usedAt = none
  expiry : c.utcnow 0 < t.expiresAt
  user : t.userId = user
  writes : x'.activationTokens = Table.modify x.activationTokens t.id (used (c.utcnow 0))

/-- What a commit does to the codes. -/
structure Effect (op : Op) (o : Option Uuid) (x x' : Db) : Prop where
  issued : ∀ t, op.issues = some t → Replaced x' t.userId t
  spent : ∀ c token user, op.brings = some (c, token) → o = some user → ∃ t, Spent c token user x x' t

def protocol : Protocol Db LockKey Err (Option Uuid) Op := locks.protocol body Kept Effect

instance : protocol.Respects locks Kept := inferInstanceAs ((locks.protocol body Kept Effect).Respects locks Kept)

abbrev commits (op : Op) (o : Option Uuid) : Protocol.Assertion Db LockKey Op :=
  locks.Settles Kept fun held x x' => locks.Within held x x' ∧ Kept x' ∧ Effect op o x x'

section Effects

variable {l : Stand Db LockKey Op} {p : Db → Db} {s : Db} {op : Op} {o : Option Uuid}

/-- An operation that has nothing more to show. -/
theorem commits_of_sofar (h : Sofar l p s) (hi : op.issues = none) (hb : op.brings = none) : commits op o l p s :=
  fun x hx hk => ⟨h.within x hx hk, h.kept x hx hk, by simp [hi], by simp [hb]⟩

theorem commits_of_issued (h : Issued t.userId t l p s) (hi : op.issues = some t) (hb : op.brings = none) :
    commits op o l p s := by
  refine fun x hx hk => ⟨h.1.within x hx hk, h.1.kept x hx hk, fun t' ht' => ?_, by simp [hb]⟩
  obtain rfl : t = t' := Option.some.inj (hi.symm.trans ht')
  unfold Replaced
  rw [h.1.codes_eq h.2.1 hx]
  exact h.2.2

theorem commits_of_activates {c : Call} {token : String} (h : Activates c token o l p s) (hi : op.issues = none)
    (hb : op.brings = some (c, token)) : commits op o l p s := by
  refine fun x hx hk => ⟨h.1.within x hx hk, h.1.kept x hx hk, by simp [hi], fun c' token' user hop ho => ?_⟩
  obtain ⟨rfl, rfl⟩ : c = c' ∧ token = token' := by simpa using hb.symm.trans hop
  obtain ⟨t, ht⟩ := h.2 user ho
  have husable := ht.usable
  simp only [usable, Bool.and_eq_true, decide_eq_true_eq, Option.isNone_iff_eq_none] at husable
  exact ⟨t, ((hx.same _ ht.locked).2 t.id rfl).trans ht.row, husable.1.1, husable.1.2, husable.2, ht.user, ht.writes x⟩

end Effects

theorem body_effect (op : Op) (s : Db) : protocol.wp (body op) (commits op) { op := op } (fun x => x) s := by
  have hid : Keeps Db.activationTokens fun x => x := fun _ => rfl
  cases op with
  | createUser c actor email displayName workforceId =>
    have : protocol.Upholds Sofar (Workforce.Request.createUser c actor email displayName workforceId) := by
      unfold Workforce.Request.createUser
      infer_instance
    exact Queue.wp_map.2 (Protocol.wp_mono _ (fun _ _ _ _ h => commits_of_sofar h rfl rfl) _ _ _ (this.wp .init))
  | issueCode c actor id =>
    refine Queue.wp_map.2 (Protocol.wp_mono _ (fun _ _ _ _ h => ?_) _ _ _ (wp_issueCode c actor id hid))
    exact commits_of_issued (t := newCode c id actor) h rfl rfl
  | resetPassword c actor id =>
    refine Queue.wp_map.2 (Protocol.wp_mono _ (fun _ _ _ _ h => ?_) _ _ _ (wp_resetPassword c actor id hid))
    exact commits_of_issued (t := newCode c id actor) h rfl rfl
  | activate c lower token newPassword =>
    refine Queue.wp_map.2 (Protocol.wp_mono _ (fun _ _ _ _ h => ?_) _ _ _ (wp_activate c lower token newPassword hid))
    exact commits_of_activates h rfl rfl
  | commitImport c r =>
    have : protocol.Upholds Sofar (WorkforceImports.Request.commit c r) := inferInstance
    exact Queue.wp_map.2 (Protocol.wp_mono _ (fun _ _ _ _ h => commits_of_sofar h rfl rfl) _ _ _ (this.wp .init))
  | other y h =>
    have : protocol.Upholds Sofar y := inferInstance
    exact Queue.wp_map.2 (Protocol.wp_mono _ (fun _ _ _ _ h => commits_of_sofar h rfl rfl) _ _ _ (this.wp .init))

theorem protocol_valid : protocol.Valid System.Any := Discipline.protocol_valid fun op s _ => body_effect op s

variable {v : Db} {s s' s₂ s₃ : System Db LockKey Err (Option Uuid) Op}

/-- Rows are never lost, and only go from unused to used. -/
theorem grows_of_reaches (hv : Kept v) (hr : System.Reaches body System.Any { committed := v } s)
    (hr' : System.Reaches body System.Any s s₂) : locks.grows s.committed s₂.committed := by
  induction hr' with
  | refl => exact locks.grows_refl _
  | tail hr' hstep ih =>
    obtain ⟨i, e, -, hstep⟩ := hstep
    rcases hstep.committed_eq with ⟨op, a, rfl⟩ | he
    · exact locks.grows_trans _ _ _ ih (Protocol.commit_of_reaches protocol_valid hv (hr.trans hr') hstep).1.grows
    · rwa [he]

/-- What an accepted activation has done. -/
theorem spent_of_step (hv : Kept v) (hr : System.Reaches body System.Any { committed := v } s) {i : ℕ} {op : Op}
    {c : Call} {token : String} (hop : op.brings = some (c, token))
    (hs : System.Step body s i (.committed op (some user)) s') : ∃ t, Spent c token user s.committed s'.committed t :=
  (Protocol.commit_of_reaches protocol_valid hv hr hs).2.spent c token user hop rfl

/-- Once a code is issued for a user, all older ones are dead: in every state from then on the user has at
most one live code, and an activation that is accepted spends that code or one issued later. -/
theorem code_replaced (hv : Kept v) (hr : System.Reaches body System.Any { committed := v } s) {i : ℕ} {op : Op}
    {o : Option Uuid} (ht : op.issues = some t) (hs : System.Step body s i (.committed op o) s')
    (hr' : System.Reaches body System.Any s' s₂) :
    Replaced s'.committed t.userId t ∧ (∀ user, (live s₂.committed user).length ≤ 1) ∧
      ∀ j op' c token s₃, op'.brings = some (c, token) →
        System.Step body s₂ j (.committed op' (some t.userId)) s₃ →
        ∃ r, Spent c token t.userId s₂.committed s₃.committed r ∧
          (r.id = t.id ∨ Table.find s'.committed.activationTokens r.id = none) := by
  have hr₁ : System.Reaches body System.Any { committed := v } s' := hr.tail ⟨i, _, trivial, hs⟩
  have hreplaced := (Protocol.commit_of_reaches protocol_valid hv hr hs).2.issued t ht
  refine ⟨hreplaced, (Protocol.inv_of_reaches protocol_valid hv (hr₁.trans hr')).single,
    fun j op' c token s₃ hop hstep => ?_⟩
  obtain ⟨r, hspent⟩ := spent_of_step hv (hr₁.trans hr') hop hstep
  refine ⟨r, hspent, or_iff_not_imp_right.2 fun hfound => ?_⟩
  obtain ⟨r₁, hr₁'⟩ := Option.ne_none_iff_exists'.1 hfound
  obtain ⟨r₂, hr₂, hfollows⟩ := grows_of_reaches hv hr₁ hr' r.id r₁ hr₁'
  obtain rfl : r = r₂ := Option.some.inj (hspent.row.symm.trans hr₂)
  obtain ⟨old, hcodes, hold⟩ := hreplaced
  have huser : r₁.userId = t.userId := by
    rcases hfollows with rfl | ⟨-, now, rfl⟩
    · exact hspent.user
    · exact hspent.user
  have hmem : r₁ ∈ old ++ [t] := hcodes ▸ mem_codesOf.2 ⟨Table.mem_of_find hr₁', huser⟩
  rcases List.mem_append.1 hmem with hmem | hmem
  · have hused := hold r₁ hmem
    rw [← hfollows.eq hused, hspent.live] at hused
    cases hused
  · obtain rfl := List.mem_singleton.1 hmem
    exact (Table.key_of_find hr₁').symm

/-- A code is accepted at most once, while it is the one live code of its user and has not expired.
The unique index on the hashes tells the codes apart. -/
theorem code_spent_once (hv : Kept v) (hr : System.Reaches body System.Any { committed := v } s) {i : ℕ} {op : Op}
    {c : Call} {token : String} (hop : op.brings = some (c, token))
    (hs : System.Step body s i (.committed op (some user)) s') :
    ∃ t, Spent c token user s.committed s'.committed t ∧ live s.committed user = [t] ∧ live s'.committed user = [] ∧
      ∀ s₂, System.Reaches body System.Any s' s₂ → (s₂.committed.activationTokens.map ActivationToken.tokenHash).Nodup →
        ∀ j op' c' token' user' s₃, op'.brings = some (c', token') → c'.hashToken token' = c.hashToken token →
          ¬System.Step body s₂ j (.committed op' (some user')) s₃ := by
  have hr₁ : System.Reaches body System.Any { committed := v } s' := hr.tail ⟨i, _, trivial, hs⟩
  obtain ⟨t, ht⟩ := spent_of_step hv hr hop hs
  have hkept := Protocol.inv_of_reaches protocol_valid hv hr
  have hlive : live s.committed user = [t] := by
    have hmem : t ∈ live s.committed user :=
      List.mem_filter.2 ⟨mem_codesOf.2 ⟨Table.mem_of_find ht.row, ht.user⟩, by simp [ht.live]⟩
    obtain ⟨r, hr⟩ := List.length_eq_one_iff.1 (le_antisymm (hkept.single user) (List.length_pos_of_mem hmem))
    rw [hr] at hmem ⊢
    rw [List.mem_singleton.1 hmem]
  refine ⟨t, ht, hlive, ?_, fun s₂ hr₂ hunique j op' c' token' user' s₃ hop' hhash hstep => ?_⟩
  · have hmark : live s'.committed user = live (mark t.id (c.utcnow 0) s.committed) user := by
      unfold live codesOf
      rw [ht.writes]
      rfl
    rw [hmark, live_mark, hlive]
    exact List.filter_cons_of_neg (by simp [Tx.key])
  · obtain ⟨t₂, ht₂⟩ := spent_of_step hv (hr₁.trans hr₂) hop' hstep
    have hdead : Table.find s'.committed.activationTokens t.id = some (used (c.utcnow 0) t) := by
      rw [ht.writes]
      exact Table.find_modify_self (fun r hr => key_used r hr) ht.row
    obtain ⟨r, hr, hfollows⟩ := grows_of_reaches hv hr₁ hr₂ t.id _ hdead
    obtain rfl := hfollows.eq rfl
    have heq := List.inj_on_of_nodup_map hunique (Table.mem_of_find hr) (Table.mem_of_find ht₂.row)
      (ht.hash.trans (hhash.symm.trans ht₂.hash.symm))
    have hnone := ht₂.live
    rw [← heq] at hnone
    cases hnone

/-! ## A code that is replaced while it is about to be used -/

namespace Demo

def issue : Op := .issueCode (Queue.Demo.call 1) 7 5

def activate (n : ℕ) (token : String) : Op := .activate (Queue.Demo.call n) (fun x => x) token "a password of five"

def turns (i : ℕ) (op : Op) (n : ℕ) : List (System.Turn Op) := .start i op :: List.replicate n (.next i)

def run (schedule : List (System.Turn Op)) : System Db LockKey Err (Option Uuid) Op :=
  System.play body { committed := CredentialRace.Demo.db } schedule

/-- An activation reads the old code, and a new one is issued before it goes on. -/
def replacing : List (System.Turn Op) := turns 2 (activate 2 "code") 2 ++ turns 1 issue 16

/-- The old code is refused, and the new one is about to be accepted. -/
def accepting : List (System.Turn Op) := List.replicate 20 (.next 2) ++ turns 3 (activate 3 "0") 14

theorem kept_db : Kept CredentialRace.Demo.db where
  ids := by decide
  single user := by
    unfold live codesOf
    exact (List.length_filter_le ..).trans (List.length_filter_le ..)

end Demo

theorem code_replaced_accepting : ∃ s₂ s₃ c token r,
    Replaced (System.play body (Demo.run Demo.replacing) [.next 1]).committed 5 (newCode (Queue.Demo.call 1) 5 7) ∧
    Spent c token 5 s₂ s₃ r ∧ r.id = 101 := by
  obtain ⟨op, o, hop, hs⟩ := System.step_play_of_ready body (by decide +kernel : (Demo.run Demo.replacing).ready 1
    (fun op _ => op.issues = some (newCode (Queue.Demo.call 1) 5 7)) = true)
  obtain ⟨op', o', hop', hs'⟩ := System.step_play_of_ready body (by decide +kernel :
    (System.play body (System.play body (Demo.run Demo.replacing) [.next 1]) Demo.accepting).ready 3
      (fun op o => op.brings.isSome && o = some 5) = true)
  rw [Bool.and_eq_true] at hop'
  obtain ⟨⟨c, token⟩, hbrings⟩ := Option.isSome_iff_exists.1 hop'.1
  obtain rfl := of_decide_eq_true hop'.2
  obtain ⟨hreplaced, -, hlater⟩ := code_replaced Demo.kept_db (System.reaches_play ..) (of_decide_eq_true hop) hs
    (System.reaches_play body Demo.accepting _)
  obtain ⟨r, hr, hid⟩ := hlater 3 op' c token _ hbrings hs'
  have hold : (System.play body (System.play body (Demo.run Demo.replacing) [.next 1])
      Demo.accepting).committed.activationTokens.all (fun t => (Table.find
        (System.play body (Demo.run Demo.replacing) [.next 1]).committed.activationTokens t.id).isSome) = true := by
    decide +kernel
  refine ⟨_, _, c, token, r, hreplaced, hr, hid.resolve_right fun hnone => ?_⟩
  have hsome := List.all_eq_true.1 hold r (Table.mem_of_find hr.row)
  rw [hnone] at hsome
  cases hsome

/-- The code that is replaced in the other run is spent here, and cannot be spent again. -/
theorem code_spent_once_first : ∃ s s' c token t, Spent c token 5 s s'.committed t ∧ live s 5 = [t] ∧
    live s'.committed 5 = [] ∧ ∀ j op o s₃, op.brings = some (c, token) → ¬System.Step body s' j (.committed op (some o)) s₃ := by
  obtain ⟨op, o, hop, hs⟩ := System.step_play_of_ready body (by decide +kernel :
    (Demo.run (Demo.turns 1 (Demo.activate 2 "code") 14)).ready 1 (fun op o => op.brings.isSome && o = some 5) = true)
  rw [Bool.and_eq_true] at hop
  obtain ⟨⟨c, token⟩, hbrings⟩ := Option.isSome_iff_exists.1 hop.1
  obtain rfl := of_decide_eq_true hop.2
  obtain ⟨t, ht, hlive, hnone, hlater⟩ := code_spent_once Demo.kept_db (System.reaches_play ..) hbrings hs
  exact ⟨_, _, c, token, t, ht, hlive, hnone, fun j op' u s₃ hop' =>
    hlater _ .refl (by decide +kernel) j op' c token u s₃ hop' rfl⟩

end OmniDB.ActivationCodes
