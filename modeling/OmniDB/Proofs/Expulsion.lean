import OmniDB.Proofs.SignedIn

/-! Whose sessions the requests on people end: those of the users that `expels` names, and no others. -/

namespace OmniDB

open Tx
open Tx.Prog

variable {α β : Type} {x x' x'' : Db} {P Q : Uuid → Prop} {p : Txn α} {f : α → Txn β} {now : Time} {user : Uuid}

/-- The open sessions of these users are ended, and no others. -/
def Expelled (P : Uuid → Prop) (x x' : Db) : Prop :=
  List.Forall₂ (fun s s' => Lapses s s' ∧ (s'.revokedAt ≠ none ↔ s.revokedAt ≠ none ∨ P s.userId))
    x.sessions x'.sessions

section Expelled

theorem Expelled.of_same (h : x'.sessions = x.sessions) : Expelled (fun _ => False) x x' := by
  unfold Expelled
  rw [h]
  exact List.forall₂_same.2 fun s _ => ⟨Lapses.refl s, (or_false _).symm ▸ Iff.rfl⟩

theorem Expelled.congr (h : Expelled P x x') (hPQ : ∀ u, P u ↔ Q u) : Expelled Q x x' :=
  List.Forall₂.imp (fun s _ hs => ⟨hs.1, by rw [hs.2, hPQ]⟩) h

theorem Expelled.trans (h : Expelled P x x') (h' : Expelled Q x' x'') : Expelled (fun u => P u ∨ Q u) x x'' :=
  Rows.partners_comp h h' fun s s' s'' hs hs' => ⟨hs.1.trans hs'.1, by rw [hs'.2, hs.2, hs.1.user, or_assoc]⟩

theorem Expelled.ids (h : Expelled P x x') : x'.sessions.map UserSession.id = x.sessions.map UserSession.id :=
  Rows.map_partners h fun _ _ hs => hs.1.id

theorem Expelled.unique (h : Expelled P x x') (hx : Table.Unique x.sessions) : Table.Unique x'.sessions :=
  (congrArg List.Nodup h.ids).mpr hx

end Expelled

/-- The body ends exactly the sessions of these users. -/
def Expels (P : Uuid → Prop) (p : Txn α) : Prop :=
  ∀ x a x', Table.Unique x.sessions → p.Runs x a x' → Expelled P x x'

section Expels

theorem Expels.after [Leaves Db.sessions p] (hf : ∀ a, Expels P (f a)) : Expels P (p >>= f) := by
  intro x b x' hx hr
  obtain ⟨a, x₁, hp, hr⟩ := runs_bind.1 hr
  have hsame : x₁.sessions = x.sessions := Leaves.runs (π := Db.sessions) hp
  have h := hf a x₁ b x' (hsame.symm ▸ hx) hr
  unfold Expelled at h ⊢
  rwa [hsame] at h

theorem Expels.then (h : Expels P p) (hf : ∀ a, Leaves Db.sessions (f a)) : Expels P (p >>= f) := by
  intro x b x' hx hr
  obtain ⟨a, x₁, hp, hr⟩ := runs_bind.1 hr
  have hsame : x'.sessions = x₁.sessions := Leaves.runs (π := Db.sessions) hr
  have h := h x a x₁ hx hp
  unfold Expelled at h ⊢
  rwa [hsame]

theorem expels_map {g : α → β} (h : Expels P p) : Expels P (g <$> p) := by
  intro x b x' hx hr
  obtain ⟨a, hp, -⟩ := runs_map.1 hr
  exact h x a x' hx hp

theorem expels_revokeAllForUser : Expels (fun u => u = user) (Authz.revokeAllForUser now user) := by
  intro x a x' hx hr
  rw [(Sessions.runs_revokeAllForUser hx).1 hr]
  refine List.forall₂_map_right_iff.2 (List.forall₂_same.2 fun s _ => ?_)
  unfold Sessions.expelled
  split_ifs with hcond
  · exact ⟨Or.inr ⟨now, rfl⟩, fun _ => Or.inr hcond.1, fun _ hn => by cases hn⟩
  · refine ⟨Lapses.refl s, Or.inl, fun h hn => ?_⟩
    exact h.elim (fun h => h hn) fun huser => hcond ⟨huser, hn⟩

/-- The delegates are signed out one after the other. -/
theorem expels_forM (ds : List Delegation) : Expels (fun u => ∃ d ∈ ds, d.delegateUserId = u)
    (ds.forM fun d => Authz.revokeAllForUser now d.delegateUserId) := by
  induction ds with
  | nil =>
    intro x a x' hx hr
    obtain ⟨-, rfl⟩ := runs_pure.1 hr
    exact (Expelled.of_same rfl).congr fun u => by simp
  | cons d ds ih =>
    intro x b x' hx hr
    obtain ⟨a, x₁, hfirst, hrest⟩ := runs_bind.1 hr
    have h := expels_revokeAllForUser x a x₁ hx hfirst
    exact (h.trans (ih x₁ b x' (h.unique hx) hrest)).congr fun u => by
      simp only [List.exists_mem_cons_iff, eq_comm]

end Expels

/-! ## Requests on people -/

/-- The delegation lends to the user, and is in force. -/
structure Lends (x : Db) (now : Time) (delegator user : Uuid) (d : Delegation) : Prop where
  mem : d ∈ x.delegations
  delegator : d.delegatorUserId = delegator
  delegate : d.delegateUserId = user
  open' : d.revokedAt = none
  effective : effectiveAt d.effectiveFrom d.effectiveTo now = true

namespace App

/-- What these requests do to sessions is up to the rows of a job. -/
def Op.bulk : Op → Bool
  | .commitWorkforceImport .. | .reverseWorkforceImport .. => true
  | _ => false

/-- The users whose sessions the request ends. -/
def expels (x : Db) (op : Op) (user : Uuid) : Prop :=
  match op with
  | .disableUser _ _ id _ => user = id
  | .assignRole _ _ r => user = r.targetUserId
  | .endRoleAssignment c _ id _ => ∃ ra, Table.find x.roleAssignments id = some ra ∧
      (user = ra.userId ∨ ∃ d, Lends x (c.utcnow 2) ra.userId user d)
  | .createDelegation _ _ r => user = r.delegateId
  | .revokeDelegation _ id _ => ∃ d, Table.find x.delegations id = some d ∧ d.revokedAt = none ∧
      user = d.delegateUserId
  | _ => False

end App

section Requests

variable {c : Call} {actor id : Uuid} {reason : String} {u : Unit}

instance (priority := low) leaves_sessions [h : Leaves Db.identities p] : Leaves Db.sessions p := h.part Prod.fst

instance [Leaves Db.sessions p] : Leaves Db.sessions (App.silent p) := by unfold App.silent; infer_instance

instance (email name : String) (workforceId : Option String) (issue : Bool) :
    Leaves Db.sessions (Workforce.createUser c email name workforceId actor issue) := by
  have (u : User) : Leaves Db.sessions (insertRow "users" .user Db.users (fun u db => { db with
      users := db.users ++ [u] }) u) := leaves_insertRow fun _ => rfl
  unfold Workforce.createUser; infer_instance

instance (email name : String) (workforceId : Option String) :
    Leaves Db.sessions (Workforce.Request.createUser c actor email name workforceId) := by
  unfold Workforce.Request.createUser; infer_instance

instance : Leaves Db.sessions (Workforce.Request.reactivateUser c actor id reason) := by
  unfold Workforce.Request.reactivateUser Workforce.reactivateUser; infer_instance

theorem expels_disableUser (target : User) :
    Expels (fun u => u = target.id) (Workforce.disableUser c target actor reason) := by
  unfold Workforce.disableUser
  exact .after fun _ => .after fun _ => .then expels_revokeAllForUser fun _ => inferInstance

theorem expels_assignRole (r : Workforce.RoleRequest) :
    Expels (fun u => u = r.targetUserId) (Workforce.assignRole c r actor) := by
  unfold Workforce.assignRole
  dsimp only
  repeat' first | exact .then expels_revokeAllForUser fun _ => inferInstance | split | refine .after fun _ => ?_

theorem expels_createDelegation (r : Workforce.DelegationRequest) :
    Expels (fun u => u = r.delegateId) (Workforce.createDelegation c actor r) := by
  have (d : Delegation) : Leaves Db.identities (update fun db => { db with
      delegations := db.delegations ++ [d] } : Txn Unit) := .update fun _ => rfl
  unfold Workforce.createDelegation
  dsimp only
  repeat' first | exact .then expels_revokeAllForUser fun _ => inferInstance | refine .after fun _ => ?_

/-- The end of a role signs out its holder, and everyone to whom the holder lends. -/
theorem expelled_endRoleAssignment {ra : RoleAssignment} (hx : Table.Unique x.sessions)
    (hr : (Workforce.endRoleAssignment c ra actor reason).Runs x u x') :
    Expelled (fun v => v = ra.userId ∨ ∃ d, Lends x (c.utcnow 2) ra.userId v d) x x' := by
  unfold Workforce.endRoleAssignment at hr
  obtain ⟨_, x₁, h₁, hr⟩ := runs_bind.1 hr
  obtain ⟨_, x₂, h₂, hr⟩ := runs_bind.1 hr
  obtain ⟨_, x₃, h₃, hr⟩ := runs_bind.1 hr
  obtain ⟨_, x₄, h₄, hr⟩ := runs_bind.1 hr
  have hsessions : x₂.sessions = x.sessions :=
    (Leaves.runs (π := Db.sessions) h₂).trans (Leaves.runs (π := Db.sessions) h₁)
  have hdelegations : x₃.delegations = x.delegations :=
    (Leaves.runs (π := Db.delegations) h₃).trans ((Leaves.runs (π := Db.delegations) h₂).trans
      (Leaves.runs (π := Db.delegations) h₁))
  have hholder := expels_revokeAllForUser _ _ _ (hsessions.symm ▸ hx) h₃
  unfold Authz.invalidateDelegateSessionsForDelegator at h₄
  simp only [runs_bind, runs_view, and_assoc, exists_and_left, exists_eq_left] at h₄
  have hdelegates := expels_forM _ _ _ _ (hholder.unique (hsessions.symm ▸ hx)) h₄
  have hlast : x'.sessions = x₄.sessions := Leaves.runs (π := Db.sessions) hr
  refine (((Expelled.of_same hsessions).trans hholder).trans (hdelegates.trans (.of_same hlast))).congr fun v => ?_
  rw [false_or, or_false, hdelegations]
  refine or_congr Iff.rfl ⟨?_, ?_⟩
  · rintro ⟨d, hd, rfl⟩
    simp only [List.mem_filter, Bool.and_eq_true, decide_eq_true_eq, Option.isNone_iff_eq_none] at hd
    exact ⟨d, hd.1, hd.2.1.1, rfl, hd.2.1.2, hd.2.2⟩
  · rintro ⟨d, hd⟩
    exact ⟨d, by simp [hd.mem, hd.delegator, hd.open', hd.effective], hd.delegate⟩

theorem App.not_bulk {op : App.Op} (h : App.expels x op user) : op.bulk = false := by
  cases op <;> first | rfl | cases h

theorem runs_loadUser {target : User} (h : (Workforce.loadUser id).Runs x target x') : x' = x ∧ target.id = id := by
  unfold Workforce.loadUser at h
  simp only [runs_bind, runs_getRow, runs_expect, and_assoc, exists_and_left, exists_eq_left] at h
  exact ⟨h.2, Table.key_of_find h.1⟩

/-- A request other than a bulk one ends the sessions of the users that `expels` names, and no others. -/
theorem expelled_app {op : App.Op} {a : App.Result} (hop : op.bulk = false) (hx : Table.Unique x.sessions)
    (hr : (App.body op).Runs x a x') : Expelled (App.expels x op) x x' := by
  cases op with
  | disableUser c actor id reason =>
    obtain ⟨_, hreq, -⟩ := runs_map.1 hr
    obtain ⟨target, x₁, hload, hrest⟩ := runs_bind.1 hreq
    obtain ⟨rfl, rfl⟩ := runs_loadUser hload
    refine (?_ : Expels (fun u => u = target.id) _) _ _ x' hx hrest
    exact .after fun _ => expels_disableUser target
  | assignRole c actor r =>
    obtain ⟨_, hreq, -⟩ := runs_map.1 hr
    obtain ⟨target, x₁, hload, hrest⟩ := runs_bind.1 hreq
    obtain ⟨rfl, hid⟩ := runs_loadUser hload
    unfold App.expels
    simp only [← hid]
    refine (?_ : Expels (fun u => u = target.id) _) _ _ x' hx hrest
    dsimp only
    repeat' first
      | exact .then (expels_assignRole { r with targetUserId := target.id }) fun _ => inferInstance
      | split
      | refine .after fun _ => ?_
  | endRoleAssignment c actor id reason =>
    obtain ⟨_, hreq, -⟩ := runs_map.1 hr
    obtain ⟨_, _, hget, hexpect⟩ := runs_bind.1 hreq
    obtain ⟨rfl, rfl⟩ := runs_getRow.1 hget
    obtain ⟨ra, _, hrow, hcheck⟩ := runs_bind.1 hexpect
    obtain ⟨hra, rfl⟩ := runs_expect.1 hrow
    obtain ⟨_, x₁, happ, hend⟩ := runs_bind.1 hcheck
    unfold Workforce.requireAppointment at happ
    simp only [runs_bind, runs_view, runs_raiseIf, and_assoc, exists_and_left, exists_eq_left] at happ
    obtain ⟨-, rfl⟩ := happ
    refine (expelled_endRoleAssignment hx hend).congr fun u => ?_
    unfold App.expels
    simp only [hra, Option.some.injEq, exists_eq_left']
  | createDelegation c actor r =>
    exact expels_map ((expels_createDelegation r).then fun _ => inferInstance) x a x' hx hr
  | revokeDelegation c id actor =>
    obtain ⟨_, hreq, -⟩ := runs_map.1 hr
    obtain ⟨_, _, hget, hexpect⟩ := runs_bind.1 hreq
    obtain ⟨rfl, rfl⟩ := runs_getRow.1 hget
    obtain ⟨d, x₁, hrow, hrevoke⟩ := runs_bind.1 hexpect
    obtain ⟨hd, rfl⟩ := runs_expect.1 hrow
    have hnamed (u : Uuid) :
        App.expels x₁ (.revokeDelegation c id actor) u ↔ d.revokedAt = none ∧ u = d.delegateUserId := by
      unfold App.expels
      simp only [hd, Option.some.injEq, exists_eq_left']
    have hset : Leaves Db.identities (update fun db => { db with
        delegations := Table.modify db.delegations id fun d =>
          { d with revokedAt := some (c.utcnow 0) } } : Txn Unit) := .update fun _ => rfl
    by_cases hopen : d.revokedAt = none
    · refine Expelled.congr ((?_ : Expels (fun u => u = d.delegateUserId) _) _ _ x' hx hrevoke) fun u => ?_
      · refine .after fun _ => ?_
        rw [hopen, Option.isNone_none, if_pos rfl]
        exact .after fun _ => .after fun _ => expels_revokeAllForUser
      · rw [hnamed, and_iff_right hopen]
    · obtain ⟨_, x₂, hcheck, hnothing⟩ := runs_bind.1 hrevoke
      obtain ⟨-, rfl⟩ := runs_raiseIf.1 hcheck
      rw [if_neg (by simpa using hopen)] at hnothing
      obtain ⟨-, rfl⟩ := runs_pure.1 hnothing
      exact (Expelled.of_same rfl).congr fun u => by rw [hnamed, false_iff, not_and]; exact fun h => absurd h hopen
  | commitWorkforceImport | reverseWorkforceImport => cases hop
  | service | createUser | reactivateUser | createTeam | addTeamMember | endTeamMembership | setReportingLine
  | uploadWorkforceImport | parseWorkforceImport | decideWorkforceImport | cleanupWorkforceImports =>
    unfold App.body at hr
    exact (Expelled.of_same (Leaves.runs (π := Db.sessions) hr)).congr fun u => Iff.rfl

end Requests

end OmniDB
