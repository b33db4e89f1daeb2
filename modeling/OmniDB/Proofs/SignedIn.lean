import OmniDB.Proofs.Accounts
import OmniDB.Proofs.WorkforceRuns

/-! What each request on a session does alone to the sessions and the second factors. -/

namespace OmniDB.Sessions

open Tx
open Tx.Prog
open Auth

variable {x x' : Db} {c : Call} {v : Visit} {u : Unit}

/-! ## Sessions -/

/-- The row that `create_session` inserts. -/
def newSession (c : Call) (now : Time) (user : Uuid) (source : Option String) (mfaState : String) (recent : Bool) :
    UserSession where
  id := c.uuid4 0
  userId := user
  tokenHash := c.hashToken (c.token 0)
  lastSeenAt := some now
  idleExpiresAt := now + minutes c.settings.sessionIdleMinutes
  absoluteExpiresAt := now + hours c.settings.sessionAbsoluteHours
  sourceSummary := source
  mfaState := mfaState
  reauthenticatedAt := if recent then some now else none

/-- No session has the key or the token of the new one. -/
def Fresh (x : Db) (s : UserSession) : Prop := ∀ r ∈ x.sessions, r.id ≠ s.id ∧ r.tokenHash ≠ s.tokenHash

theorem runs_createSession {now : Time} {user : Uuid} {source : Option String} {mfaState : String} {recent : Bool}
    {o : UserSession × String} : (createSession c now user source mfaState recent).Runs x o x' ↔
      Fresh x (newSession c now user source mfaState recent) ∧
        x' = { x with sessions := x.sessions ++ [newSession c now user source mfaState recent] } ∧
        o = (newSession c now user source mfaState recent, c.token 0) := by
  unfold createSession
  simp only [runs_bind, runs_view, runs_raiseIf, runs_insertRow, runs_acquireShared, runs_pure, and_assoc,
    exists_and_left, exists_eq_left, exists_const, List.any_eq_true, decide_eq_true_eq, not_exists, not_and,
    Table.find_eq_none]
  constructor
  · rintro ⟨hhash, hid, rfl, rfl⟩
    exact ⟨fun r hr => ⟨hid r hr, hhash r hr⟩, rfl, rfl⟩
  · rintro ⟨hfresh, rfl, rfl⟩
    exact ⟨fun r hr => (hfresh r hr).2, fun r hr => (hfresh r hr).1, rfl, rfl⟩

@[simp] theorem runs_setSession {id : Uuid} {f : UserSession → UserSession} : (Authz.setSession id f).Runs x u x' ↔
    x' = { x with sessions := Table.modify x.sessions id f } := by
  simp [Authz.setSession, runs_bind]

/-- The session of the token can be loaded now. -/
def Loadable (c : Call) (s : UserSession) : Prop :=
  s.revokedAt = none ∧ c.utcnow 0 < s.idleExpiresAt ∧ c.utcnow 0 < s.absoluteExpiresAt

instance (c : Call) (s : UserSession) : Decidable (Loadable c s) := inferInstanceAs (Decidable (_ ∧ _))

/-- What `load_session` returns for a session that it finds. -/
def seenAgain (c : Call) (s : UserSession) : UserSession := slid c (c.utcnow 0) s.absoluteExpiresAt s

def slide (c : Call) (s : UserSession) (x : Db) : Db :=
  { x with sessions := Table.modify x.sessions s.id (slid c (c.utcnow 0) s.absoluteExpiresAt) }

/-- The session that a request brings, if it can be loaded. -/
def found (c : Call) (x : Db) (token : Option String) : Option UserSession :=
  (token.filter (· ≠ "")).bind fun t => (x.sessions.find? fun s => s.tokenHash = c.hashToken t).filter fun s =>
    decide (Loadable c s)

theorem runs_loadSession {token : Option String} {o : Option UserSession} : (loadSession c token).Runs x o x' ↔
    o = (found c x token).map (seenAgain c) ∧ x' = (found c x token).elim x fun s => slide c s x := by
  unfold loadSession found
  cases token.filter (· ≠ "") with
  | none => exact runs_pure
  | some token =>
    simp only [runs_bind, runs_view, and_assoc, exists_and_left, exists_eq_left, Option.bind_some]
    cases x.sessions.find? fun s => s.tokenHash = c.hashToken token with
    | none => exact runs_pure
    | some s =>
      by_cases hl : Loadable c s
      · have hopen : ¬(s.revokedAt.isSome ∨ s.idleExpiresAt ≤ c.utcnow 0 ∨ s.absoluteExpiresAt ≤ c.utcnow 0) := by
          obtain ⟨hr, hi, ha⟩ := hl
          simp [hr, hi, ha]
        simp only [hopen, if_false, Option.filter_some, hl, decide_true, if_true, runs_bind, runs_setSession, runs_pure,
          exists_eq_left, exists_const, Option.map_some, Option.elim_some]
        rfl
      · have hopen : s.revokedAt.isSome ∨ s.idleExpiresAt ≤ c.utcnow 0 ∨ s.absoluteExpiresAt ≤ c.utcnow 0 := by
          unfold Loadable at hl
          by_contra h
          simp only [not_or, Bool.not_eq_true, Option.isSome_eq_false_iff, Option.isNone_iff_eq_none, not_le] at h
          exact hl h
        simp only [hopen, if_true, Option.filter_some, hl, decide_false, runs_pure, Option.map_none, Option.elim_none,
          Bool.false_eq_true, if_false]

theorem found_eq_some {token : Option String} {s : UserSession} (h : found c x token = some s) :
    s ∈ x.sessions ∧ Loadable c s := by
  obtain ⟨t, -, ht⟩ := Option.bind_eq_some_iff.1 h
  rw [Option.filter_eq_some_iff] at ht
  exact ⟨List.mem_of_find?_eq_some ht.1, of_decide_eq_true ht.2⟩

/-- A load that finds nothing changes nothing. -/
theorem loadSession_none {token : Option String} (h : (loadSession c token).Runs x none x') : x' = x := by
  obtain ⟨ho, hx⟩ := runs_loadSession.1 h
  rw [Option.map_eq_none_iff.1 ho.symm] at hx
  exact hx

theorem loadSession_row {token : Option String} {row : UserSession} (h : (loadSession c token).Runs x (some row) x') :
    ∃ s, found c x token = some s ∧ row = seenAgain c s ∧ x' = slide c s x := by
  obtain ⟨ho, hx⟩ := runs_loadSession.1 h
  obtain ⟨s, hs, hrow⟩ := Option.map_eq_some_iff.1 ho.symm
  rw [hs] at hx
  exact ⟨s, hs, hrow.symm, hx⟩

/-- A session of the user that is still open is revoked. -/
def expelled (user : Uuid) (now : Time) (s : UserSession) : UserSession :=
  if s.userId = user ∧ s.revokedAt = none then Authz.revoked now s else s

@[simp] theorem expelled_id (user : Uuid) (now : Time) (s : UserSession) : (expelled user now s).id = s.id := by
  unfold expelled; split_ifs <;> rfl

@[simp] theorem expelled_tokenHash (user : Uuid) (now : Time) (s : UserSession) :
    (expelled user now s).tokenHash = s.tokenHash := by
  unfold expelled; split_ifs <;> rfl

theorem runs_revokeEach {now : Time} {rows : List UserSession} :
    (rows.forM fun s => Authz.setSession s.id (Authz.revoked now)).Runs x u x' ↔
      x' = { x with sessions := Table.modifyAll x.sessions (rows.map UserSession.id) (Authz.revoked now) } := by
  induction rows generalizing x with
  | nil => exact runs_pure.trans ⟨fun h => h.2, fun h => ⟨rfl, h⟩⟩
  | cons s rows ih =>
    change (Authz.setSession s.id (Authz.revoked now) >>= fun _ => rows.forM _).Runs x u x' ↔ _
    simp only [runs_bind, runs_setSession, exists_eq_left, exists_const, ih]
    rfl

theorem runs_revokeAllForUser {now : Time} {user : Uuid} (hx : Table.Unique x.sessions) :
    (Authz.revokeAllForUser now user).Runs x u x' ↔
      x' = { x with sessions := x.sessions.map (expelled user now) } := by
  unfold Authz.revokeAllForUser
  simp only [runs_bind, runs_view, and_assoc, exists_and_left, exists_eq_left, runs_revokeEach]
  have hmap : Table.modifyAll x.sessions ((orderBy (fun s s' : UserSession => s.id ≤ s'.id)
      (x.sessions.filter fun s => s.userId = user && s.revokedAt.isNone)).map UserSession.id) (Authz.revoked now) =
      x.sessions.map (expelled user now) := by
    rw [Table.modifyAll_eq_map (f := Authz.revoked now) fun _ => rfl]
    · refine List.map_congr_left fun s hs => ?_
      refine if_congr ?_ rfl rfl
      simp only [List.mem_map, mem_orderBy, List.mem_filter, Bool.and_eq_true, decide_eq_true_eq,
        Option.isNone_iff_eq_none]
      constructor
      · rintro ⟨r, ⟨hr, hcond⟩, hid⟩
        exact hx.eq hr hs hid ▸ hcond
      · exact fun hcond => ⟨s, ⟨hs, hcond⟩, rfl⟩
    · exact ((perm_orderBy _ _).map _).nodup_iff.2 (Table.Unique.filter hx _)
  rw [hmap]

/-! ## Users -/

instance (n : Uuid) (f : User → User) : Leaves Db.sessions (Workforce.setUser n f) :=
  .then inferInstance fun _ => .update fun _ => rfl

instance (loaded : User) (f : User → User) : Leaves Db.sessions (Workforce.flushUser loaded f) := by
  unfold Workforce.flushUser; infer_instance

/-- Only the user `id` is not what it was. -/
def OnlyUser (id : Uuid) (x x' : Db) : Prop := ∀ j, j ≠ id → Table.find x'.users j = Table.find x.users j

theorem OnlyUser.factor {id j : Uuid} (h : OnlyUser id x x') (hj : j ≠ id) : x'.factor j = x.factor j := by
  unfold Db.factor
  rw [h j hj]

theorem factor_of_find {id : Uuid} {user : User} (h : Table.find x.users id = some user) :
    x.factor id = (user.totpSecretCiphertext, user.totpEnrolled) := by
  unfold Db.factor
  rw [h, Option.map_some, Option.getD_some]

/-- A row that was loaded in this transaction is written back as the request has changed it. -/
theorem flushUser_loaded {loaded : User} {f : User → User} (hid : (f loaded).id = loaded.id)
    (hloaded : Table.find x.users loaded.id = some loaded) (h : (Workforce.flushUser loaded f).Runs x u x') :
    x'.sessions = x.sessions ∧ Table.find x'.users loaded.id = some (f loaded) ∧ OnlyUser loaded.id x x' := by
  refine ⟨Leaves.runs (π := Db.sessions) h, ?_⟩
  unfold Workforce.flushUser at h
  split_ifs at h with hf
  · obtain ⟨-, rfl⟩ := runs_pure.1 h
    exact ⟨hf.symm ▸ hloaded, fun _ _ => rfl⟩
  · obtain rfl := Workforce.runs_setUser.1 h
    have hkey (r : User) (hr : Tx.key r = loaded.id) :
        Tx.key (Workforce.User.merge loaded (f loaded) r) = loaded.id := hr
    have hmerge : Workforce.User.merge loaded (f loaded) loaded = f loaded := by
      have hchanged {α : Type} [DecidableEq α] (a b : α) : Workforce.changed a b a = b := by
        unfold Workforce.changed
        split_ifs with h
        · exact h.symm
        · rfl
      unfold Workforce.User.merge
      simp only [hchanged, ← hid]
    exact ⟨(Table.find_modify_self hkey hloaded).trans (congrArg some hmerge), fun j hj => Table.find_modify_ne hkey hj⟩

/-- The user of the session, as the request loads it. -/
structure Signed (x : Db) (session : UserSession) (user : User) : Prop where
  row : Table.find x.users session.userId = some user
  active : user.active = true

theorem Signed.find {session : UserSession} {user : User} (h : Signed x session user) :
    Table.find x.users user.id = some user := by
  have hrow := h.row
  rwa [← Table.key_of_find h.row] at hrow

theorem Signed.id {session : UserSession} {user : User} (h : Signed x session user) : user.id = session.userId :=
  Table.key_of_find h.row

theorem runs_getAuthenticatedUser {session : UserSession} {user : User} :
    (getAuthenticatedUser session).Runs x user x' ↔ Signed x session user ∧ x' = x := by
  unfold getAuthenticatedUser
  simp only [runs_bind, runs_getRow, runs_expect, runs_raiseIf, runs_pure, and_assoc, exists_and_left, exists_eq_left,
    exists_const, Bool.not_eq_true', Bool.not_eq_false]
  constructor
  · rintro ⟨row, hrow, hactive, rfl, rfl⟩
    exact ⟨⟨hrow, hactive⟩, rfl⟩
  · rintro ⟨⟨hrow, hactive⟩, rfl⟩
    exact ⟨user, hrow, hactive, rfl, rfl⟩

theorem runs_getCurrentUser {session : UserSession} {user : User} : (getCurrentUser session).Runs x user x' ↔
    Signed x session user ∧ user.totpEnrolled = true ∧ session.mfaState = mfaSatisfied ∧ x' = x := by
  unfold getCurrentUser
  simp only [runs_bind, runs_getAuthenticatedUser, runs_raiseIf, runs_pure, and_assoc, exists_and_left, exists_eq_left,
    exists_const, not_or, Bool.not_eq_true', Bool.not_eq_false, ne_eq, not_not]
  constructor
  · rintro ⟨user', hs, he, hm, rfl, rfl⟩
    exact ⟨hs, he, hm, rfl⟩
  · rintro ⟨hs, he, hm, rfl⟩
    exact ⟨user, hs, he, hm, rfl, rfl⟩

/-! ## Requests -/

theorem arrive_runs {token : Option String} {a : Arrival} (h : (redirectForExistingSession c token).Runs x a x') :
    a = .unknown ∧ x' = x ∨ ∃ s, found c x token = some s ∧
      ((∃ target, a = .known (seenAgain c s) target ∧ x' = slide c s x) ∨
        a = .dropped (seenAgain c s) ∧ x' = { slide c s x with
          sessions := Table.modify (slide c s x).sessions s.id (Authz.revoked (c.utcnow 1)) }) := by
  unfold redirectForExistingSession at h
  rw [runs_bind] at h
  obtain ⟨o, x₁, hload, h⟩ := h
  cases o with
  | none =>
    obtain ⟨rfl, rfl⟩ := runs_pure.1 h
    exact Or.inl ⟨rfl, loadSession_none hload⟩
  | some row =>
    obtain ⟨s, hs, rfl, rfl⟩ := loadSession_row hload
    refine Or.inr ⟨s, hs, ?_⟩
    simp only [runs_bind, runs_getRow, and_assoc, exists_and_left, exists_eq_left] at h
    split at h
    · have hopen : (seenAgain c s).revokedAt.isNone = true := by
        rw [Option.isNone_iff_eq_none]
        exact (found_eq_some hs).2.1
      simp only [Auth.revokeSession, hopen, if_true, runs_bind, runs_setSession, runs_pure, exists_eq_left,
        exists_const] at h
      exact Or.inr h
    · obtain ⟨rfl, rfl⟩ := runs_pure.1 h
      exact Or.inl ⟨_, rfl, rfl⟩

theorem logout_runs {session : UserSession} (hopen : session.revokedAt = none) (h : (logout c session).Runs x u x') :
    x'.identities = (Table.modify x.sessions session.id (Authz.revoked (c.utcnow 0)), x.users) := by
  simp only [logout, Auth.revokeSession, hopen, Option.isNone_none, if_true, runs_bind, runs_setSession,
    runs_recordAudit, exists_eq_left, exists_const] at h
  subst h
  rfl

theorem runs_getSession {session : UserSession} {id : Uuid} {o : Option UserSession}
    (h : (getSession session id).Runs x o x') :
    x' = x ∧ ∀ row, o = some row → row.id = id ∧ (row = session ∨ Table.find x.sessions id = some row) := by
  unfold getSession at h
  split_ifs at h with hid
  · obtain ⟨rfl, rfl⟩ := runs_pure.1 h
    refine ⟨rfl, fun row h => ?_⟩
    obtain rfl := Option.some.inj h
    exact ⟨hid.symm, Or.inl rfl⟩
  · obtain ⟨rfl, rfl⟩ := runs_getRow.1 h
    exact ⟨rfl, fun row h => ⟨Table.key_of_find h, Or.inr h⟩⟩

/-- What the endpoint revokes: the session of the request, or another one of the same user. -/
theorem revokeSession_runs {session : UserSession} {id : Uuid} (h : (revokeSession c session id).Runs x u x') :
    ∃ row, row.id = id ∧ (row = session ∨ Table.find x.sessions id = some row) ∧ row.userId = session.userId ∧
      x'.identities = (if row.revokedAt = none then Table.modify x.sessions id (Authz.revoked (c.utcnow 0)) else
        x.sessions, x.users) := by
  unfold revokeSession at h
  rw [runs_bind] at h
  obtain ⟨user, x₁, huser, h⟩ := h
  obtain ⟨hs, -, -, rfl⟩ := runs_getCurrentUser.1 huser
  simp only [runs_bind, runs_expect, runs_recordAudit, and_assoc, exists_and_left, exists_eq_left] at h
  obtain ⟨o, x₂, hget, row, hfilter, _, x₃, hrevoke, rfl⟩ := h
  obtain ⟨rfl, hfound⟩ := runs_getSession hget
  rw [Option.filter_eq_some_iff, decide_eq_true_eq] at hfilter
  obtain ⟨hid, hor⟩ := hfound row hfilter.1
  refine ⟨row, hid, hor, hfilter.2.trans hs.id, ?_⟩
  unfold Auth.revokeSession at hrevoke
  by_cases hopen : row.revokedAt = none
  · simp only [hopen, Option.isNone_none, if_true, runs_setSession] at hrevoke
    subst hrevoke
    rw [if_pos hopen, ← hid]
    rfl
  · rw [if_neg (by simpa using hopen)] at hrevoke
    obtain ⟨-, rfl⟩ := runs_pure.1 hrevoke
    rw [if_neg hopen]
    rfl

/-- An answer that is refused is only recorded. -/
theorem denied_runs {α : Type} {e : AuditEvent} {status : ℕ} {detail : String} {a : Answer α}
    (h : (recordAudit e >>= fun _ => pure (.denied status detail)).Runs x a x') :
    a = .denied status detail ∧ x'.identities = x.identities := by
  simp only [runs_bind, runs_recordAudit, runs_pure, exists_eq_left, exists_const] at h
  obtain ⟨rfl, rfl⟩ := h
  exact ⟨rfl, rfl⟩

/-- A request behind a limiter is refused, or goes on. -/
theorem limited_runs {α : Type} {allowed : Bool} {e : AuditEvent} {status : ℕ} {detail : String}
    {p : Txn (Answer α)} {a : Answer α}
    (h : (if !allowed then recordAudit e >>= fun _ => pure (.denied status detail) else p).Runs x a x') :
    (∃ status detail, a = .denied status detail) ∧ x'.identities = x.identities ∨ p.Runs x a x' := by
  split_ifs at h
  · obtain ⟨rfl, hsame⟩ := denied_runs h
    exact Or.inl ⟨⟨_, _, rfl⟩, hsame⟩
  · exact Or.inr h

theorem reauthenticate_runs {lower : String → String} {session : UserSession} {password : String}
    {totpCode : Option String} {a : Answer Unit}
    (h : (reauthenticate v lower session password totpCode).Runs x a x') :
    (∃ status detail, a = .denied status detail) ∧ x'.identities = x.identities ∨
      ∃ user r, a = .accepted () ∧ Signed x session user ∧
        authenticate v.toCall lower x user.email password totpCode = .ok r ∧
        x'.identities = (Table.modify x.sessions session.id (restated session
          (if user.totpEnrolled then mfaSatisfied else mfaEnrollmentRequired) (some (v.utcnow 0))), x.users) := by
  unfold reauthenticate at h
  rw [runs_bind] at h
  obtain ⟨user, x₁, huser, h⟩ := h
  obtain ⟨hs, rfl⟩ := runs_getAuthenticatedUser.1 huser
  rcases limited_runs h with hdenied | h
  · exact Or.inl hdenied
  · simp only [runs_bind, runs_view, and_assoc, exists_and_left, exists_eq_left] at h
    cases hauth : authenticate v.toCall lower x₁ user.email password totpCode with
    | error reason =>
      rw [hauth] at h
      obtain ⟨rfl, hsame⟩ := denied_runs h
      exact Or.inl ⟨⟨_, _, rfl⟩, hsame⟩
    | ok r =>
      simp only [hauth, runs_bind, runs_setSession, runs_recordAudit, runs_pure, exists_eq_left, exists_const] at h
      obtain ⟨rfl, rfl⟩ := h
      exact Or.inr ⟨user, r, rfl, hs, hauth, rfl⟩

/-! ## The second factor -/

/-- The user may enroll. -/
structure Enrolling (x : Db) (session : UserSession) (user : User) : Prop extends Signed x session user where
  open' : user.totpEnrolled = false

theorem enrolling_runs {session : UserSession} {user : User} {r : Except String User} (hs : Signed x session user)
    (h : (enrolling user).Runs x r x') :
    x' = x ∧ ((∃ reason, r = .error reason) ∨ r = .ok user ∧ Enrolling x session user) := by
  unfold enrolling at h
  simp only [runs_bind, runs_selectForUpdate, and_assoc, exists_and_left, exists_eq_left, hs.find, Option.filter_some,
    if_true] at h
  have hsame : Imports.identityMap (some user) user = user := by simp [Imports.identityMap]
  simp only [Option.map_some, hsame, hs.active, Bool.not_true, Bool.false_eq_true, if_false] at h
  split_ifs at h with henrolled
  · obtain ⟨rfl, rfl⟩ := runs_pure.1 h
    exact ⟨rfl, Or.inl ⟨_, rfl⟩⟩
  · obtain ⟨rfl, rfl⟩ := runs_pure.1 h
    exact ⟨rfl, Or.inr ⟨rfl, hs, by simpa using henrolled⟩⟩

theorem totpEnroll_runs {session : UserSession} {secret : String} (h : (totpEnroll v session).Runs x secret x') :
    ∃ user, Enrolling x session user ∧
      x'.sessions = Table.modify x.sessions session.id
        (restated session mfaEnrollmentRequired session.reauthenticatedAt) ∧
      Table.find x'.users user.id = some (withSecret v user) ∧ OnlyUser user.id x x' := by
  unfold totpEnroll requireRecentReauthentication at h
  simp only [runs_bind, runs_raiseIf, and_assoc, exists_and_left, exists_eq_left, exists_const,
    runs_getAuthenticatedUser] at h
  obtain ⟨-, user, hs, r, x₁, hbegin, h⟩ := h
  unfold beginTotpEnrollment at hbegin
  rw [runs_bind] at hbegin
  obtain ⟨e, x₂, henrolling, hbegin⟩ := hbegin
  obtain ⟨rfl, ⟨reason, rfl⟩ | ⟨rfl, hok⟩⟩ := enrolling_runs hs henrolling
  · obtain ⟨rfl, -⟩ := runs_pure.1 hbegin
    simp at h
  · simp only [runs_bind, runs_pure] at hbegin
    obtain ⟨_, x₃, hflush, rfl, rfl⟩ := hbegin
    obtain ⟨hsessions, huser, honly⟩ := flushUser_loaded (f := withSecret v) rfl hs.find hflush
    simp only [runs_bind, runs_setSession, runs_recordAudit, runs_pure, exists_eq_left, exists_const] at h
    obtain ⟨-, rfl⟩ := h
    refine ⟨user, hok, ?_, huser, honly⟩
    rw [← hsessions]
    rfl

/-- The enrollment that a code completes. -/
structure Completed (v : Visit) (session : UserSession) (code : String) (x x' : Db) (user : User) (cipher : String) :
    Prop extends Enrolling x session user where
  secret : user.totpSecretCiphertext = some cipher
  shown : acceptsCode v cipher code = true
  sessions : x'.sessions = x.sessions
  written : Table.find x'.users user.id = some (enrolled user)
  others : OnlyUser user.id x x'

theorem completeTotpEnrollment_runs {session : UserSession} {user : User} {code : String} {r : Except String User}
    (hs : Signed x session user) (h : (completeTotpEnrollment v user code).Runs x r x') :
    (∃ reason, r = .error reason) ∧ x' = x ∨
      r = .ok (enrolled user) ∧ ∃ cipher, Completed v session code x x' user cipher := by
  unfold completeTotpEnrollment at h
  rw [runs_bind] at h
  obtain ⟨e, x₁, henrolling, h⟩ := h
  obtain ⟨rfl, ⟨reason, rfl⟩ | ⟨rfl, hok⟩⟩ := enrolling_runs hs henrolling
  · obtain ⟨rfl, rfl⟩ := runs_pure.1 h
    exact Or.inl ⟨⟨_, rfl⟩, rfl⟩
  · simp only at h
    cases hcipher : user.totpSecretCiphertext.filter (· ≠ "") with
    | none =>
      rw [hcipher] at h
      obtain ⟨rfl, rfl⟩ := runs_pure.1 h
      exact Or.inl ⟨⟨_, rfl⟩, rfl⟩
    | some cipher =>
      rw [hcipher] at h
      simp only at h
      split_ifs at h with hcode
      · simp only [runs_bind, runs_pure] at h
        obtain ⟨_, x₂, hflush, rfl, rfl⟩ := h
        obtain ⟨hsessions, huser, honly⟩ := flushUser_loaded (f := enrolled) rfl hs.find hflush
        exact Or.inr ⟨rfl, cipher, hok, (Option.filter_eq_some_iff.1 hcipher).1, hcode, hsessions, huser, honly⟩
      · obtain ⟨rfl, rfl⟩ := runs_pure.1 h
        exact Or.inl ⟨⟨_, rfl⟩, rfl⟩

/-- The session that a verified enrollment opens. -/
def verifiedSession (v : Visit) (session : UserSession) : UserSession :=
  newSession v.toCall (v.utcnow 2) session.userId session.sourceSummary mfaSatisfied true

theorem totpVerify_runs {session : UserSession} {code : String} {a : Answer (UserSession × String)}
    (hx : Table.Unique x.sessions) (h : (totpVerify v session code).Runs x a x') :
    (∃ status detail, a = .denied status detail) ∧ x'.identities = x.identities ∨
      a = .accepted (verifiedSession v session, v.token 0) ∧ Fresh x (verifiedSession v session) ∧
        x'.sessions = x.sessions.map (expelled session.userId (v.utcnow 1)) ++ [verifiedSession v session] ∧
        ∃ x₁ user cipher, Completed v session code x x₁ user cipher ∧ x'.users = x₁.users := by
  unfold totpVerify requireRecentReauthentication at h
  simp only [runs_bind, runs_raiseIf, and_assoc, exists_and_left, exists_eq_left, exists_const,
    runs_getAuthenticatedUser] at h
  obtain ⟨-, user, hs, h⟩ := h
  rcases limited_runs h with hdenied | hgo
  · exact Or.inl hdenied
  · clear h
    rw [runs_bind] at hgo
    obtain ⟨r, x₁, hcomplete, h⟩ := hgo
    rcases completeTotpEnrollment_runs hs hcomplete with ⟨⟨reason, rfl⟩, rfl⟩ | ⟨rfl, cipher, hdone⟩
    · obtain ⟨rfl, hsame⟩ := denied_runs h
      exact Or.inl ⟨⟨_, _, rfl⟩, hsame⟩
    · have hx₁ : Table.Unique x₁.sessions := hdone.sessions.symm ▸ hx
      simp only [runs_bind, runs_revokeAllForUser hx₁, runs_createSession, runs_recordAudit, runs_pure, and_assoc,
        exists_and_left, exists_eq_left, exists_const] at h
      have hid : (enrolled user).id = session.userId := hs.id
      rw [hid, hdone.sessions] at h
      obtain ⟨hfresh, rfl, rfl⟩ := h
      refine Or.inr ⟨rfl, fun r hr => ?_, rfl, x₁, user, cipher, hdone, rfl⟩
      have hr' := hfresh (expelled session.userId (v.utcnow 1) r) (List.mem_map_of_mem hr)
      rwa [expelled_id, expelled_tokenHash] at hr'

/-! ## Visitors -/

/-- The session that a login opens. -/
def loginSession (c : Call) (r : LoginRequest) (user : User) : UserSession :=
  newSession c (c.utcnow 0) user.id (some r.source) (if user.totpEnrolled then mfaSatisfied else mfaEnrollmentRequired)
    user.totpEnrolled

theorem login_runs {lower : String → String} {r : LoginRequest} {a : Answer (UserSession × String)}
    (h : (login c lower r).Runs x a x') :
    (∃ status detail, a = .denied status detail) ∧ x'.identities = x.identities ∨
      ∃ user, authenticate c lower x r.email r.password r.totpCode = .ok user ∧
        a = .accepted (loginSession c r user, c.token 0) ∧ Fresh x (loginSession c r user) ∧
        x'.sessions = x.sessions ++ [loginSession c r user] ∧ SameFactors x x' := by
  unfold login at h
  rcases limited_runs h with hdenied | h
  · exact Or.inl hdenied
  · simp only [runs_bind, runs_view, and_assoc, exists_and_left, exists_eq_left] at h
    cases hauth : authenticate c lower x r.email r.password r.totpCode with
    | error reason =>
      rw [hauth] at h
      obtain ⟨rfl, hsame⟩ := denied_runs h
      exact Or.inl ⟨⟨_, _, rfl⟩, hsame⟩
    | ok user =>
      simp only [hauth, runs_bind, runs_createSession, runs_recordAudit, runs_pure, and_assoc, exists_and_left,
        exists_eq_left] at h
      obtain ⟨hfresh, _, x₁, hflush, rfl, _, rfl⟩ := h
      have hcalm := calm_flushUser user (fun u => { u with lastLoginAt := some (c.utcnow 1) }) ⟨rfl, rfl⟩
      exact Or.inr ⟨user, rfl, rfl, hfresh, Leaves.runs (π := Db.sessions) hflush,
        (hcalm.runs Calm.refl (fun _ _ _ => Calm.trans) hflush).users⟩

instance (c : Call) (token : String) : Leaves Db.identities (consumeActivationToken c token) := by
  unfold consumeActivationToken
  dsimp only
  repeat' first | infer_instance | split | refine .then inferInstance fun _ => ?_

/-- What an activation does to the user, if it finds one. -/
theorem activateUserPassword_runs {token password : String} {o : Option User}
    (h : (activateUserPassword c token password).Runs x o x') :
    x'.sessions = x.sessions ∧ SameFactors x x' ∧ (o = none → x'.identities = x.identities) := by
  unfold activateUserPassword at h
  rw [runs_bind] at h
  obtain ⟨id, x₁, hconsume, h⟩ := h
  have hx₁ : x₁.identities = x.identities := Leaves.runs (π := Db.identities) hconsume
  cases id with
  | none =>
    obtain ⟨rfl, rfl⟩ := runs_pure.1 h
    exact ⟨congrArg Prod.fst hx₁, (Calm.of_identities hx₁).users, fun _ => hx₁⟩
  | some id =>
    simp only [runs_bind, runs_getRow, and_assoc, exists_and_left, exists_eq_left] at h
    cases huser : Table.find x₁.users id with
    | none =>
      rw [huser] at h
      obtain ⟨rfl, rfl⟩ := runs_pure.1 h
      exact ⟨congrArg Prod.fst hx₁, (Calm.of_identities hx₁).users, fun _ => hx₁⟩
    | some user =>
      simp only [huser, runs_bind, runs_pure] at h
      obtain ⟨_, x₂, hflush, rfl, rfl⟩ := h
      have hcalm := calm_flushUser user
        (fun _ => { user with passwordHash := some (c.hashPassword password) }) ⟨rfl, rfl⟩
      refine ⟨(Leaves.runs (π := Db.sessions) hflush).trans (congrArg Prod.fst hx₁), ?_, by simp⟩
      exact ((Calm.of_identities hx₁).trans (hcalm.runs Calm.refl (fun _ _ _ => Calm.trans) hflush)).users

theorem activate_runs {lower : String → String} {token password : String} {a : Answer Uuid}
    (hx : Table.Unique x.sessions) (h : (Auth.Request.activate c lower token password).Runs x a x') :
    (∃ status detail, a = .denied status detail) ∧ x'.identities = x.identities ∨
      ∃ user, a = .accepted user ∧ x'.sessions = x.sessions.map (expelled user (c.utcnow 1)) ∧ SameFactors x x' := by
  unfold Auth.Request.activate at h
  rcases limited_runs h with hdenied | h
  · exact Or.inl hdenied
  · simp only [runs_bind, runs_ofExcept, and_assoc, exists_and_left, exists_eq_left] at h
    obtain ⟨_, -, o, x₁, hactivate, h⟩ := h
    obtain ⟨hsessions, husers, hnone⟩ := activateUserPassword_runs hactivate
    cases o with
    | none =>
      obtain ⟨rfl, hsame⟩ := denied_runs h
      exact Or.inl ⟨⟨_, _, rfl⟩, hsame.trans (hnone rfl)⟩
    | some user =>
      have hx₁ : Table.Unique x₁.sessions := hsessions.symm ▸ hx
      simp only [runs_bind, runs_revokeAllForUser hx₁, runs_recordAudit, runs_pure, exists_eq_left, exists_const] at h
      obtain ⟨rfl, rfl⟩ := h
      exact Or.inr ⟨user.id, rfl, hsessions ▸ rfl, husers⟩

/-! ## Credentials -/

theorem runs_loadTarget {now : Time} {actor id : Uuid} {target : User}
    (h : (Auth.Request.loadTarget now actor id).Runs x target x') : x' = x ∧ Table.find x.users id = some target := by
  unfold Auth.Request.loadTarget at h
  simp only [runs_bind, runs_view, runs_raiseIf, runs_getRow, runs_expect, runs_pure, and_assoc, exists_and_left,
    exists_eq_left, exists_const] at h
  obtain ⟨-, row, hrow, -, rfl, rfl⟩ := h
  exact ⟨rfl, hrow⟩

theorem runs_lockUser {target locked : User} (hrow : Table.find x.users target.id = some target)
    (h : (lockUser target).Runs x locked x') : x' = x ∧ locked = target := by
  unfold lockUser at h
  simp only [runs_bind, runs_selectForUpdate, runs_expect, runs_pure, and_assoc, exists_and_left, exists_eq_left, hrow,
    Option.filter_some, if_true, Option.some.injEq, exists_eq_left'] at h
  obtain ⟨rfl, rfl⟩ := h
  exact ⟨rfl, by simp [Imports.identityMap]⟩

theorem resetPassword_runs {actor id : Uuid} (hx : Table.Unique x.sessions)
    (h : (Auth.Request.resetPassword c actor id).Runs x u x') :
    x'.sessions = x.sessions.map (expelled id (c.utcnow 1)) ∧ SameFactors x x' := by
  unfold Auth.Request.resetPassword Auth.resetPassword at h
  simp only [runs_bind, runs_raiseIf, runs_pure, and_assoc, exists_and_left, exists_eq_left] at h
  obtain ⟨target, x₁, hload, token, x₂, ⟨locked, x₃, hlock, _, -, _, x₄, hflush, _,
    x₅, hrevoke, _, x₆, hissue, _, x₇, haudit, -, rfl⟩, -, rfl⟩ := h
  obtain ⟨rfl, hrow⟩ := runs_loadTarget hload
  obtain rfl := Table.key_of_find hrow
  obtain ⟨rfl, rfl⟩ := runs_lockUser hrow hlock
  have hcalm := calm_flushUser locked withoutPassword ⟨rfl, rfl⟩
  have husers := (hcalm.runs Calm.refl (fun _ _ _ => Calm.trans) hflush).users
  have hsessions := Leaves.runs (π := Db.sessions) hflush
  have hx₄ : Table.Unique x₄.sessions := hsessions.symm ▸ hx
  obtain rfl := (runs_revokeAllForUser hx₄).1 hrevoke
  have hlast := (Leaves.runs (π := Db.identities) haudit).trans (Leaves.runs (π := Db.identities) hissue)
  obtain ⟨hs, hu⟩ := Prod.mk.inj hlast
  constructor
  · rw [hs, ← hsessions]
    rfl
  · exact fun j => (sameFactors_of_users hu j).trans (husers j)

theorem resetMfa_runs {actor id : Uuid} (hx : Table.Unique x.sessions)
    (h : (Auth.Request.resetMfa c actor id).Runs x u x') :
    x'.sessions = x.sessions.map (expelled id (c.utcnow 0)) ∧ x'.factor id = (none, false) ∧ OnlyUser id x x' := by
  unfold Auth.Request.resetMfa Auth.resetMfa at h
  simp only [runs_bind, runs_raiseIf, runs_recordAudit, and_assoc, exists_and_left, exists_eq_left] at h
  obtain ⟨target, x₁, hload, locked, x₂, hlock, _, -, _, x₃, hflush, _, x₄, hrevoke, rfl⟩ := h
  obtain ⟨rfl, hrow⟩ := runs_loadTarget hload
  obtain rfl := Table.key_of_find hrow
  obtain ⟨rfl, rfl⟩ := runs_lockUser hrow hlock
  obtain ⟨hsessions, huser, honly⟩ := flushUser_loaded (f := withoutTotp) rfl hrow hflush
  have hx₃ : Table.Unique x₃.sessions := hsessions.symm ▸ hx
  obtain rfl := (runs_revokeAllForUser hx₃).1 hrevoke
  refine ⟨?_, factor_of_find huser, honly⟩
  rw [← hsessions]
  rfl

instance (c : Call) (actor id : Uuid) : Leaves Db.identities (Auth.Request.issueActivationCode c actor id) := by
  unfold Auth.Request.issueActivationCode Auth.Request.loadTarget issueOrReplaceActivationCode lockUser
  infer_instance

end OmniDB.Sessions

/-! ## Setting up campaigns -/

namespace OmniDB.Setup

open Tx
open Tx.Prog
open Campaigns (insertDisposition setDisposition)

variable (c : Call) (user id : Uuid)

instance (d : CampaignDispositionDefinition) : Leaves Db.identities (insertDisposition d) := by
  have : Leaves Db.identities (update fun db => { db with dispositions := db.dispositions ++ [d] } : Txn Unit) :=
    .update fun _ => rfl
  unfold insertDisposition; infer_instance

instance (n : Uuid) (f : CampaignDispositionDefinition → CampaignDispositionDefinition) :
    Leaves Db.identities (setDisposition n f) := .update fun _ => rfl

instance (fields : Campaign) : Leaves Db.identities (createCampaign c user fields) := by
  have (k : Campaign) : Leaves Db.identities (insertRow "campaigns" .campaign Db.campaigns
      (fun k db => { db with campaigns := db.campaigns ++ [k] }) k) := leaves_insertRow fun _ => rfl
  unfold createCampaign requireOwner Campaigns.createCampaign
  repeat' first | infer_instance | split

instance (fields : CampaignDispositionDefinition) : Leaves Db.identities (createDisposition c user id fields) := by
  unfold createDisposition Campaigns.createDisposition; infer_instance

instance : Leaves Db.identities (managedCampaign c user id) := by unfold managedCampaign; infer_instance

instance (noAnswer unavailable : Option ℤ) :
    Leaves Db.identities (installStandardPolicy c user id noAnswer unavailable) := by
  unfold installStandardPolicy Campaigns.installStandardDispositions
  dsimp only
  repeat' first | infer_instance | refine .then inferInstance fun _ => ?_

instance (code : String) (minutes : ℤ) : Leaves Db.identities (updateRetryPolicy c user id code minutes) := by
  unfold updateRetryPolicy Campaigns.updateRetryPolicy
  exact .then inferInstance fun _ => inferInstance

instance (op : Op) : Leaves Db.identities (body op) := by
  cases op <;> unfold body <;> infer_instance

end OmniDB.Setup
