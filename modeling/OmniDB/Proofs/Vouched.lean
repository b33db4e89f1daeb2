import OmniDB.Proofs.FactorStory

/-! Who gets past `get_current_user`: an enrolled user, on a session for which a code was checked. -/

namespace OmniDB.Sessions

open Tx
open Tx.Prog
open Auth

/-- The commit has checked a code of the enrolled user for this session. A reauthentication checks it
against the account that `authenticate` finds under the address of the session's user. -/
def vouches (id : Uuid) (k : Entry) : Prop :=
  match k.op, k.result with
  | .login c _ r, .opened created => created.1.id = id ∧ ∃ user ∈ k.before.users, user.id = created.1.userId ∧
      user.totpEnrolled = true ∧ secondFactor c user r.totpCode = .ok ()
  | .totpVerify v session code, .opened created => created.1.id = id ∧ ∃ cipher,
      k.before.factor session.userId = (some cipher, false) ∧ acceptsCode v cipher code = true
  | .reauthenticate v lower session password totpCode, .done => session.id = id ∧ ∃ user r,
      Table.find k.before.users session.userId = some user ∧ user.totpEnrolled = true ∧
        authenticate v.toCall lower k.before user.email password totpCode = .ok r ∧
        (r.totpEnrolled = true → secondFactor v.toCall r totpCode = .ok ())
  | _, _ => False

/-- A session passes for satisfied only if it did so before, or the commit vouches for it. -/
def Marked (k : Entry) : Prop :=
  ∀ s' ∈ k.after.sessions, s'.mfaState = mfaSatisfied →
    vouches s'.id k ∨ ∃ s ∈ k.before.sessions, s.id = s'.id ∧ s.mfaState = mfaSatisfied

/-- Every satisfied session of the run, stored or loaded, has a commit that vouches for it. -/
structure Vouched (hist : List Entry) (x : Db) : Prop where
  stored : ∀ s ∈ x.sessions, s.mfaState = mfaSatisfied → ∃ k ∈ hist, vouches s.id k
  loaded : ∀ k ∈ hist, ∀ row, k.result.row = some row → row.mfaState = mfaSatisfied → ∃ k' ∈ hist, vouches row.id k'

/-! ## What a commit does -/

section Marked

variable {x x' : Db} {hist : List Entry} {c : Call} {v : Visit} {a : Result} {k : Entry} {s : UserSession} {user : User}

theorem authenticate_ok {lower : String → String} {email password : String} {totpCode : Option String}
    (h : authenticate c lower x email password totpCode = .ok user) :
    user ∈ x.users ∧ (user.totpEnrolled = true → secondFactor c user totpCode = .ok ()) := by
  unfold authenticate at h
  split at h
  · cases h
  · next u hfind =>
    split_ifs at h with hpassword henrolled
    · cases hsecond : secondFactor c u totpCode with
      | error reason =>
        rw [hsecond] at h
        cases h
      | ok _ =>
        rw [hsecond] at h
        obtain rfl : u = user := Except.ok.inj h
        exact ⟨List.mem_of_find?_eq_some hfind, fun _ => hsecond⟩
    · obtain rfl : u = user := Except.ok.inj h
      exact ⟨List.mem_of_find?_eq_some hfind, fun he => absurd he henrolled⟩

theorem required_ne_satisfied : mfaEnrollmentRequired ≠ mfaSatisfied := by decide

theorem marked_of_map {g : UserSession → UserSession} (h : k.after.sessions = k.before.sessions.map g)
    (hg : ∀ s, (g s).id = s.id ∧ (g s).mfaState = s.mfaState) : Marked k := by
  intro s' hs' hsat
  rw [h] at hs'
  obtain ⟨s, hs, rfl⟩ := List.mem_map.1 hs'
  exact Or.inr ⟨s, hs, (hg s).1.symm, (hg s).2.symm.trans hsat⟩

theorem marked_of_same (h : k.after.sessions = k.before.sessions) : Marked k :=
  marked_of_map (g := fun s => s) (by rw [h, List.map_id']) fun _ => ⟨rfl, rfl⟩

theorem marked_of_modify {n : Uuid} {f : UserSession → UserSession}
    (h : k.after.sessions = Table.modify k.before.sessions n f)
    (hf : ∀ s, (f s).id = s.id ∧ (f s).mfaState = s.mfaState) : Marked k := by
  refine marked_of_map (g := fun s => if Tx.key s = n then f s else s) h fun s => ?_
  split_ifs
  · exact hf s
  · exact ⟨rfl, rfl⟩

theorem marked_of_expelled {user : Uuid} {now : Time}
    (h : k.after.sessions = k.before.sessions.map (expelled user now)) : Marked k :=
  marked_of_map h fun s => ⟨expelled_id user now s, by unfold expelled; split_ifs <;> rfl⟩

/-- A commit that opens a session and vouches for it if it is satisfied. -/
theorem marked_of_opened {rows : List UserSession} (h : k.after.sessions = rows ++ [s])
    (hrows : ∀ s' ∈ rows, ∃ r ∈ k.before.sessions, r.id = s'.id ∧ r.mfaState = s'.mfaState)
    (hs : s.mfaState = mfaSatisfied → vouches s.id k) : Marked k := by
  intro s' hs' hsat
  rw [h, List.mem_append, List.mem_singleton] at hs'
  rcases hs' with hs' | rfl
  · obtain ⟨r, hr, hid, hmfa⟩ := hrows s' hs'
    exact Or.inr ⟨r, hr, hid, hmfa.trans hsat⟩
  · exact Or.inl (hs hsat)

theorem marked_login {lower : String → String} {r : LoginRequest} (hr : (body (.login c lower r)).Runs x a x') :
    Marked ⟨.login c lower r, a, x, x'⟩ := by
  obtain ⟨o, hlogin, rfl⟩ := runs_map.1 hr
  rcases login_runs hlogin with ⟨-, hsame⟩ | ⟨user, hauth, rfl, -, hsessions, -⟩
  · exact marked_of_same (congrArg Prod.fst hsame)
  · refine marked_of_opened hsessions (fun s' hs' => ⟨s', hs', rfl, rfl⟩) fun hsat => ?_
    obtain ⟨hmem, hsecond⟩ := authenticate_ok hauth
    have henrolled : user.totpEnrolled = true := by
      by_contra hnot
      rw [loginSession, newSession, if_neg hnot] at hsat
      exact required_ne_satisfied hsat
    exact ⟨rfl, user, hmem, rfl, henrolled, hsecond henrolled⟩

theorem marked_totpVerify {session : UserSession} {code : String} (hx : Table.Unique x.sessions)
    (hr : (body (.totpVerify v session code)).Runs x a x') : Marked ⟨.totpVerify v session code, a, x, x'⟩ := by
  obtain ⟨o, hverify, rfl⟩ := runs_map.1 hr
  rcases totpVerify_runs hx hverify with ⟨-, hsame⟩ | ⟨rfl, -, hsessions, x₁, user, cipher, hdone, -⟩
  · exact marked_of_same (congrArg Prod.fst hsame)
  · refine marked_of_opened hsessions (fun s' hs' => ?_) fun _ => ⟨rfl, cipher, ?_, hdone.shown⟩
    · obtain ⟨r, hmem, rfl⟩ := List.mem_map.1 hs'
      exact ⟨r, hmem, (expelled_id ..).symm, by unfold expelled; split_ifs <;> rfl⟩
    · rw [factor_of_find hdone.row, hdone.secret, hdone.open']

/-- The state that a request sets on its own session. -/
theorem marked_of_restated {session : UserSession} {state : String} {time : Option Time}
    (h : k.after.sessions = Table.modify k.before.sessions session.id (restated session state time))
    (hs : state = mfaSatisfied → vouches session.id k) : Marked k := by
  intro s' hs' hsat
  rw [h, Table.mem_modify] at hs'
  rcases hs' with ⟨r, hr, hid, rfl⟩ | ⟨hs', -⟩
  · by_cases hstate : state = session.mfaState
    · refine Or.inr ⟨r, hr, rfl, ?_⟩
      rwa [restated, Workforce.changed, if_pos hstate] at hsat
    · rw [restated, Workforce.changed, if_neg hstate] at hsat
      have hr' : (restated session state time r).id = session.id := hid
      rw [hr']
      exact Or.inl (hs hsat)
  · exact Or.inr ⟨s', hs', rfl, hsat⟩

theorem marked_reauthenticate {lower : String → String} {session : UserSession} {password : String}
    {totpCode : Option String} (hr : (body (.reauthenticate v lower session password totpCode)).Runs x a x') :
    Marked ⟨.reauthenticate v lower session password totpCode, a, x, x'⟩ := by
  obtain ⟨o, hreauth, rfl⟩ := runs_map.1 hr
  rcases reauthenticate_runs hreauth with ⟨-, hsame⟩ | ⟨user, r, rfl, hs, hauth, hsame⟩
  · exact marked_of_same (congrArg Prod.fst hsame)
  · refine marked_of_restated (congrArg Prod.fst hsame) fun hsat => ?_
    have henrolled : user.totpEnrolled = true := by
      by_contra hnot
      rw [if_neg hnot] at hsat
      exact required_ne_satisfied hsat
    exact ⟨rfl, user, r, hs.row, henrolled, hauth, (authenticate_ok hauth).2⟩

theorem marked_arrive {token : Option String} (hr : (body (.arrive c token)).Runs x a x') :
    Marked ⟨.arrive c token, a, x, x'⟩ := by
  obtain ⟨o, harrive, rfl⟩ := runs_map.1 hr
  obtain ⟨-, rfl⟩ | ⟨s, -, ⟨target, -, rfl⟩ | ⟨-, rfl⟩⟩ := arrive_runs harrive
  · exact marked_of_same rfl
  · exact marked_of_modify (n := s.id) rfl fun _ => ⟨rfl, rfl⟩
  · refine marked_of_modify (f := fun r => Authz.revoked (c.utcnow 1) (slid c (c.utcnow 0) s.absoluteExpiresAt r))
      (n := s.id) ?_ fun _ => ⟨rfl, rfl⟩
    exact Table.modify_modify fun r hr => hr

theorem marked_of_leaves {op : Op} {α : Type} {p : Txn α} [Leaves Db.identities p] (hr : (silent p).Runs x a x') :
    Marked ⟨op, a, x, x'⟩ := by
  obtain ⟨o, hp, rfl⟩ := runs_map.1 hr
  exact marked_of_same (congrArg Prod.fst (Leaves.runs (π := Db.identities) hp))

/-- One case for each request. -/
theorem marked_of_runs {op : Op} (h : Book hist x) (hf : fits hist op) (hr : (body op).Runs x a x') :
    Marked ⟨op, a, x, x'⟩ := by
  cases op with
  | load c token =>
    obtain ⟨o, hload, rfl⟩ := runs_map.1 hr
    cases o with
    | none => exact marked_of_same (by rw [loadSession_none hload])
    | some row =>
      obtain ⟨s, -, -, rfl⟩ := loadSession_row hload
      exact marked_of_modify (n := s.id) rfl fun _ => ⟨rfl, rfl⟩
  | arrive => exact marked_arrive hr
  | login => exact marked_login hr
  | logout c session =>
    obtain ⟨o, hlogout, rfl⟩ := runs_map.1 hr
    exact marked_of_modify (congrArg Prod.fst (logout_runs (h.session hf rfl).1 hlogout)) fun _ => ⟨rfl, rfl⟩
  | revokeSession c session target =>
    obtain ⟨o, hrevoke, rfl⟩ := runs_map.1 hr
    obtain ⟨row, -, -, -, hsame⟩ := revokeSession_runs hrevoke
    have hsessions := congrArg Prod.fst hsame
    by_cases hopen : row.revokedAt = none
    · rw [if_pos hopen] at hsessions
      exact marked_of_modify hsessions fun _ => ⟨rfl, rfl⟩
    · rw [if_neg hopen] at hsessions
      exact marked_of_same hsessions
  | reauthenticate => exact marked_reauthenticate hr
  | totpEnroll v session =>
    obtain ⟨o, henroll, rfl⟩ := runs_map.1 hr
    obtain ⟨user, -, hsessions, -⟩ := totpEnroll_runs henroll
    exact marked_of_restated hsessions fun hsat => absurd hsat required_ne_satisfied
  | totpVerify => exact marked_totpVerify h.ids hr
  | activate c lower token password =>
    obtain ⟨o, hactivate, rfl⟩ := runs_map.1 hr
    rcases activate_runs h.ids hactivate with ⟨-, hsame⟩ | ⟨user, -, hsessions, -⟩
    · exact marked_of_same (congrArg Prod.fst hsame)
    · exact marked_of_expelled hsessions
  | resetPassword c actor target =>
    obtain ⟨o, hreset, rfl⟩ := runs_map.1 hr
    exact marked_of_expelled (resetPassword_runs h.ids hreset).1
  | resetMfa c actor target =>
    obtain ⟨o, hreset, rfl⟩ := runs_map.1 hr
    exact marked_of_expelled (resetMfa_runs h.ids hreset).1
  | listSessions session => exact marked_of_leaves hr
  | issueActivationCode c actor target => exact marked_of_leaves hr
  | setup op => exact marked_of_leaves hr
  | app op =>
    obtain ⟨o, happ, rfl⟩ := runs_map.1 hr
    intro s' hs' hsat
    obtain ⟨s, hs, hl⟩ := Rows.partner_left (Abides.runs Calm.refl (fun _ _ _ => Calm.trans) happ).sessions hs'
    refine Or.inr ⟨s, hs, hl.id.symm, ?_⟩
    rcases hl with rfl | ⟨now, rfl⟩ <;> exact hsat

end Marked

/-! ## Runs -/

section Runs

variable {x x' v : Db} {hist : List Entry} {op : Op} {a : Result} {session : UserSession} {user : User}

theorem vouched_init (hv : v.sessions = []) : Vouched [] v := by
  constructor
  · rw [hv]
    exact fun _ hs => by cases hs
  · exact fun _ hk => by cases hk

theorem Vouched.after (h : Vouched hist x) (hbook : Book hist x) (hf : fits hist op) (hr : (body op).Runs x a x') :
    Vouched (⟨op, a, x, x'⟩ :: hist) x' := by
  have hstored : ∀ s ∈ x.sessions, s.mfaState = mfaSatisfied →
      ∃ k ∈ (⟨op, a, x, x'⟩ :: hist : List Entry), vouches s.id k :=
    fun s hs hsat => (h.stored s hs hsat).imp fun k hk => ⟨List.mem_cons_of_mem _ hk.1, hk.2⟩
  constructor
  · intro s' hs' hsat
    rcases marked_of_runs hbook hf hr s' hs' hsat with hnow | ⟨s, hs, hid, hbefore⟩
    · exact ⟨_, List.mem_cons_self, hnow⟩
    · exact hid ▸ hstored s hs hbefore
  · intro k hk row hrow hsat
    rcases List.mem_cons.1 hk with rfl | hk
    · obtain ⟨c, token, rfl⟩ := row_of_runs hr hrow
      obtain ⟨o, hload, rfl⟩ := runs_map.1 hr
      obtain rfl : o = some row := hrow
      obtain ⟨s, hs, rfl, -⟩ := loadSession_row hload
      exact hstored s (found_eq_some hs).1 hsat
    · exact (h.loaded k hk row hrow hsat).imp fun k' hk' => ⟨List.mem_cons_of_mem _ hk'.1, hk'.2⟩

theorem vouched_of_trail (hv : v.sessions = []) (h : Trail body fits v hist x) : Vouched hist x :=
  (h.invariant (I := fun hist x => Book hist x ∧ Vouched hist x) ⟨book_init hv, vouched_init hv⟩
    fun _ _ _ _ _ hf hr hI => ⟨hI.1.after hf hr, hI.2.after hI.1 hf hr⟩).2

/-- A request gets past `get_current_user` only for an active user with a proven second factor, on a session
for which some commit of the run has vouched. -/
theorem current_user_proven (hv : v.sessions = [])
    (hbare : ∀ u ∈ v.users, u.totpSecretCiphertext = none ∧ u.totpEnrolled = false) (h : Trail body fits v hist x)
    {k : Entry} (hk : k ∈ hist) (hrow : k.result.row = some session) (hr : (getCurrentUser session).Runs x user x') :
    user.active = true ∧ user.id = session.userId ∧
      (∃ cipher, user.totpSecretCiphertext = some cipher ∧ Proven hist user.id cipher) ∧
      ∃ k ∈ hist, vouches session.id k := by
  obtain ⟨hs, henrolled, hsat, -⟩ := runs_getCurrentUser.1 hr
  refine ⟨hs.active, hs.id, ?_, (vouched_of_trail hv h).loaded k hk session hrow hsat⟩
  have hstage : Stage hist user.id (x.factor user.id) := stage_of_trail hv (bare_of_users hbare) h
  rw [factor_of_find hs.find, henrolled] at hstage
  generalize hsecret : user.totpSecretCiphertext = secret at hstage
  cases hstage with
  | proven hproven => exact ⟨_, rfl, hproven⟩

end Runs

namespace Demo

/-- The session that the enrollment has opened is loaded. -/
def loadedAt7 : List Entry × Db := next enrolledAt6 [.load (call 7 "") (some "second")]

theorem trail_loadedAt7 : Trail body fits db loadedAt7.1 loadedAt7.2 := trail_play _ trail_enrolledAt6

end Demo

theorem current_user_at_7 : Proven Demo.loadedAt7.1 5 "secret" ∧
    ∃ k ∈ Demo.loadedAt7.1, vouches (Demo.seen Demo.loadedAt7).id k := by
  obtain ⟨k, hk, hrow⟩ := List.any_eq_true.1
    (by decide +kernel : Demo.loadedAt7.1.any (fun k => k.result.row = some (Demo.seen Demo.loadedAt7)) = true)
  obtain ⟨u, hu, hat⟩ := (Option.any_eq_true ..).1
    (by decide +kernel : (Table.find Demo.loadedAt7.2.users (Demo.seen Demo.loadedAt7).userId).any
      (fun u => u.id = 5 && u.active && u.totpEnrolled && u.totpSecretCiphertext = some "secret") = true)
  simp only [Bool.and_eq_true, decide_eq_true_eq] at hat
  obtain ⟨⟨⟨hid, hactive⟩, henrolled⟩, hsecret⟩ := hat
  have hcurrent : (getCurrentUser (Demo.seen Demo.loadedAt7)).Runs Demo.loadedAt7.2 u Demo.loadedAt7.2 :=
    runs_getCurrentUser.2 ⟨⟨hu, hactive⟩, henrolled, by decide +kernel, rfl⟩
  obtain ⟨-, -, ⟨cipher, hcipher, hproven⟩, hvouched⟩ :=
    current_user_proven rfl (by decide) Demo.trail_loadedAt7 hk (of_decide_eq_true hrow) hcurrent
  obtain rfl : "secret" = cipher := Option.some.inj (hsecret.symm.trans hcipher)
  exact ⟨hid ▸ hproven, hvouched⟩

end OmniDB.Sessions
