import OmniDB.Proofs.SessionStory

/-! The second factor of a user over a run. A secret counts only after a code of it was shown, and stops
counting when an administrator resets it. -/

namespace OmniDB.Sessions

open Tx
open Tx.Prog
open Auth

/-! ## What a commit says -/

/-- The secret that the commit gives to the user, encrypted. -/
def given (id : Uuid) (k : Entry) : Option String :=
  match k.op with
  | .totpEnroll v session => if session.userId = id then some (v.encrypt v.newSecret) else none
  | _ => none

/-- The commit ends the enrollment of the user. -/
def confirms (id : Uuid) (k : Entry) : Prop :=
  match k.op, k.result with
  | .totpVerify _ session _, .opened _ => session.userId = id
  | _, _ => False

/-- It ends the enrollment with a code of this secret. -/
def shows (id : Uuid) (cipher : String) (k : Entry) : Prop :=
  match k.op, k.result with
  | .totpVerify v session code, .opened _ => session.userId = id ∧ acceptsCode v cipher code = true
  | _, _ => False

/-- The commit takes the second factor of the user away. -/
def clears (id : Uuid) (k : Entry) : Prop :=
  match k.op with
  | .resetMfa _ _ id' => id' = id
  | _ => False

/-- The user was given this secret, has shown a code of it since, and it was not taken away. -/
structure Proven (hist : List Entry) (id : Uuid) (cipher : String) : Prop where
  given : newestOf (given id) hist = some cipher
  shown : ∃ k ∈ sinceNewest (Sessions.given id) hist, shows id cipher k
  kept : ∀ k ∈ sinceNewest (Sessions.given id) hist, ¬clears id k

/-! ## What a commit does -/

inductive Turn (id : Uuid) (k : Entry) : Prop
  | started {cipher : String} (hg : given id k = some cipher) (ha : k.after.factor id = (some cipher, false))
  | ended {cipher : String} (hg : given id k = none) (hc : ¬clears id k) (hs : shows id cipher k)
      (hb : k.before.factor id = (some cipher, false)) (ha : k.after.factor id = (some cipher, true))
  | taken (hg : given id k = none) (hc : clears id k) (ha : k.after.factor id = (none, false))
  | same (hg : given id k = none) (hc : ¬clears id k) (hs : ¬confirms id k)
      (ha : k.after.factor id = k.before.factor id)

section Turn

variable {x x' : Db} {hist : List Entry} {c : Call} {v : Visit} {u : Unit} {a : Result} {id : Uuid} {k : Entry}

theorem shows.confirms {cipher : String} (h : shows id cipher k) : confirms id k := by
  obtain ⟨op, a, x, x'⟩ := k
  cases op with
  | totpVerify => cases a <;> first | exact h.1 | cases h
  | _ => cases h

theorem loadSession_users {token : Option String} {o : Option UserSession} (h : (loadSession c token).Runs x o x') :
    x'.users = x.users := by
  cases o with
  | none => rw [loadSession_none h]
  | some row =>
    obtain ⟨s, -, -, rfl⟩ := loadSession_row h
    rfl

theorem turn_of_same {op : Op} (hg : given id ⟨op, a, x, x'⟩ = none) (hc : ¬clears id ⟨op, a, x, x'⟩)
    (hs : ¬confirms id ⟨op, a, x, x'⟩) (h : SameFactors x x') : Turn id ⟨op, a, x, x'⟩ :=
  .same hg hc hs (h id)

theorem turn_totpEnroll {session : UserSession} (hr : (body (.totpEnroll v session)).Runs x a x') :
    Turn id ⟨.totpEnroll v session, a, x, x'⟩ := by
  obtain ⟨o, henroll, rfl⟩ := runs_map.1 hr
  obtain ⟨user, henrolling, -, huser, honly⟩ := totpEnroll_runs henroll
  rw [henrolling.id] at huser honly
  by_cases hid : session.userId = id
  · refine .started (if_pos hid) ?_
    rw [← hid, factor_of_find huser]
    exact congrArg _ henrolling.open'
  · exact .same (if_neg hid) (fun h => h) (fun h => h) (honly.factor (Ne.symm hid))

theorem turn_totpVerify {session : UserSession} {code : String} (hx : Table.Unique x.sessions)
    (hr : (body (.totpVerify v session code)).Runs x a x') : Turn id ⟨.totpVerify v session code, a, x, x'⟩ := by
  obtain ⟨o, hverify, rfl⟩ := runs_map.1 hr
  rcases totpVerify_runs hx hverify with ⟨⟨status, detail, rfl⟩, hsame⟩ | ⟨rfl, -, -, x₁, user, cipher, hdone, husers⟩
  · exact turn_of_same rfl (fun h => h) (fun h => h) (sameFactors_of_users (congrArg Prod.snd hsame))
  · have hwritten := hdone.written
    have hothers := hdone.others
    rw [hdone.id] at hwritten hothers
    have hafter (j : Uuid) : x'.factor j = x₁.factor j := sameFactors_of_users husers j
    by_cases hid : session.userId = id
    · have hshows : shows id cipher
          ⟨.totpVerify v session code, .opened (verifiedSession v session, v.token 0), x, x'⟩ := ⟨hid, hdone.shown⟩
      refine .ended rfl (fun h => h) hshows ?_ ?_
      · rw [← hid, factor_of_find hdone.row, hdone.secret, hdone.open']
      · rw [← hid, hafter, factor_of_find hwritten]
        exact congrArg (·, true) hdone.secret
    · exact .same rfl (fun h => h) hid ((hafter id).trans (hothers.factor (Ne.symm hid)))

theorem turn_resetMfa {actor target : Uuid} (hx : Table.Unique x.sessions)
    (hr : (body (.resetMfa c actor target)).Runs x a x') : Turn id ⟨.resetMfa c actor target, a, x, x'⟩ := by
  obtain ⟨o, hreset, rfl⟩ := runs_map.1 hr
  obtain ⟨-, hbare, honly⟩ := resetMfa_runs hx hreset
  by_cases hid : target = id
  · exact .taken rfl hid (hid ▸ hbare)
  · exact .same rfl hid (fun h => h) (honly.factor (Ne.symm hid))

theorem sameFactors_of_leaves {α : Type} {p : Txn α} [Leaves Db.identities p] (hr : (silent p).Runs x a x') :
    SameFactors x x' := by
  obtain ⟨o, hp, rfl⟩ := runs_map.1 hr
  exact sameFactors_of_users (congrArg Prod.snd (Leaves.runs (π := Db.identities) hp))

/-- One case for each request. -/
theorem turn_of_runs {op : Op} (h : Book hist x) (hf : fits hist op) (hr : (body op).Runs x a x') :
    Turn id ⟨op, a, x, x'⟩ := by
  cases op with
  | totpEnroll v session => exact turn_totpEnroll hr
  | totpVerify v session code => exact turn_totpVerify h.ids hr
  | resetMfa c actor target => exact turn_resetMfa h.ids hr
  | load c token =>
    obtain ⟨o, hload, rfl⟩ := runs_map.1 hr
    exact turn_of_same rfl (fun h => h) (fun h => h) (sameFactors_of_users (loadSession_users hload))
  | arrive c token =>
    obtain ⟨o, harrive, rfl⟩ := runs_map.1 hr
    refine turn_of_same rfl (fun h => h) (fun h => h) (sameFactors_of_users ?_)
    obtain ⟨-, rfl⟩ | ⟨s, -, ⟨target, -, rfl⟩ | ⟨-, rfl⟩⟩ := arrive_runs harrive <;> rfl
  | login c lower r =>
    obtain ⟨o, hlogin, rfl⟩ := runs_map.1 hr
    refine turn_of_same rfl (fun h => h) (fun h => h) ?_
    rcases login_runs hlogin with ⟨-, hsame⟩ | ⟨user, -, -, -, -, hsame⟩
    · exact sameFactors_of_users (congrArg Prod.snd hsame)
    · exact hsame
  | logout c session =>
    obtain ⟨o, hlogout, rfl⟩ := runs_map.1 hr
    exact turn_of_same rfl (fun h => h) (fun h => h)
      (sameFactors_of_users (congrArg Prod.snd (logout_runs (h.session hf rfl).1 hlogout)))
  | revokeSession c session target =>
    obtain ⟨o, hrevoke, rfl⟩ := runs_map.1 hr
    obtain ⟨row, -, -, -, hsame⟩ := revokeSession_runs hrevoke
    exact turn_of_same rfl (fun h => h) (fun h => h) (sameFactors_of_users (congrArg Prod.snd hsame))
  | reauthenticate v lower session password totpCode =>
    obtain ⟨o, hreauth, rfl⟩ := runs_map.1 hr
    refine turn_of_same rfl (fun h => h) (fun h => h) (sameFactors_of_users ?_)
    rcases reauthenticate_runs hreauth with ⟨-, hsame⟩ | ⟨user, r, -, -, -, hsame⟩ <;> exact congrArg Prod.snd hsame
  | activate c lower token password =>
    obtain ⟨o, hactivate, rfl⟩ := runs_map.1 hr
    refine turn_of_same rfl (fun h => h) (fun h => h) ?_
    rcases activate_runs h.ids hactivate with ⟨-, hsame⟩ | ⟨user, -, -, hsame⟩
    · exact sameFactors_of_users (congrArg Prod.snd hsame)
    · exact hsame
  | resetPassword c actor target =>
    obtain ⟨o, hreset, rfl⟩ := runs_map.1 hr
    exact turn_of_same rfl (fun h => h) (fun h => h) (resetPassword_runs h.ids hreset).2
  | listSessions session => exact turn_of_same rfl (fun h => h) (fun h => h) (sameFactors_of_leaves hr)
  | issueActivationCode c actor target => exact turn_of_same rfl (fun h => h) (fun h => h) (sameFactors_of_leaves hr)
  | setup op => exact turn_of_same rfl (fun h => h) (fun h => h) (sameFactors_of_leaves hr)
  | app op =>
    obtain ⟨o, happ, rfl⟩ := runs_map.1 hr
    exact turn_of_same rfl (fun h => h) (fun h => h) (Abides.runs Calm.refl (fun _ _ _ => Calm.trans) happ).users

end Turn

/-! ## Runs -/

/-- How far the user is, by the commits. -/
inductive Stage (hist : List Entry) (id : Uuid) : Option String × Bool → Prop
  | bare (h : newestOf (given id) hist = none ∨ ∃ k ∈ sinceNewest (given id) hist, clears id k) :
      Stage hist id (none, false)
  | pending {cipher : String} (hn : newestOf (given id) hist = some cipher)
      (hk : ∀ k ∈ sinceNewest (given id) hist, ¬clears id k ∧ ¬confirms id k) : Stage hist id (some cipher, false)
  | proven {cipher : String} (h : Proven hist id cipher) : Stage hist id (some cipher, true)

section Stage

variable {x v : Db} {hist : List Entry} {id : Uuid} {k : Entry} {f : Option String × Bool}

theorem stage_ended {cipher : String} (h : Stage hist id (some cipher, false)) (hg : given id k = none)
    (hc : ¬clears id k) (hs : shows id cipher k) : Proven (k :: hist) id cipher := by
  cases h with
  | pending hn hk =>
    refine ⟨(newestOf_cons_of_none hg).trans hn, ?_, ?_⟩
    · exact ⟨k, by rw [sinceNewest_cons_of_none hg]; exact List.mem_cons_self, hs⟩
    · rw [sinceNewest_cons_of_none hg, List.forall_mem_cons]
      exact ⟨hc, fun k' hk' => (hk k' hk').1⟩

theorem stage_same (h : Stage hist id f) (hg : given id k = none) (hc : ¬clears id k) (hs : ¬confirms id k) :
    Stage (k :: hist) id f := by
  cases h with
  | bare h =>
    refine .bare (h.imp (newestOf_cons_of_none hg).trans fun ⟨k', hk', hclears⟩ => ⟨k', ?_, hclears⟩)
    rw [sinceNewest_cons_of_none hg]
    exact List.mem_cons_of_mem _ hk'
  | pending hn hk =>
    refine .pending ((newestOf_cons_of_none hg).trans hn) ?_
    rw [sinceNewest_cons_of_none hg, List.forall_mem_cons]
    exact ⟨⟨hc, hs⟩, hk⟩
  | proven h =>
    obtain ⟨hn, ⟨k', hk', hshows⟩, hkept⟩ := h
    refine .proven ⟨(newestOf_cons_of_none hg).trans hn, ⟨k', ?_, hshows⟩, ?_⟩
    · rw [sinceNewest_cons_of_none hg]
      exact List.mem_cons_of_mem _ hk'
    · rw [sinceNewest_cons_of_none hg, List.forall_mem_cons]
      exact ⟨hc, hkept⟩

theorem stage_step (h : Stage hist id (k.before.factor id)) (ht : Turn id k) :
    Stage (k :: hist) id (k.after.factor id) := by
  cases ht with
  | started hg ha =>
    rw [ha]
    refine .pending (newestOf_cons_of_some hg) ?_
    rw [sinceNewest_cons_of_some hg]
    exact fun _ hk => by cases hk
  | ended hg hc hs hb ha =>
    rw [hb] at h
    rw [ha]
    exact .proven (stage_ended h hg hc hs)
  | taken hg hc ha =>
    rw [ha]
    exact .bare (Or.inr ⟨k, by rw [sinceNewest_cons_of_none hg]; exact List.mem_cons_self, hc⟩)
  | same hg hc hs ha =>
    rw [ha]
    exact stage_same h hg hc hs

theorem Stage.proven_iff (h : Stage hist id f) {cipher : String} : f = (some cipher, true) ↔ Proven hist id cipher := by
  constructor
  · rintro rfl
    cases h with
    | proven h => exact h
  · rintro ⟨hn, ⟨k, hk, hshows⟩, hkept⟩
    cases h with
    | bare h =>
      rcases h with hnone | ⟨k', hk', hclears⟩
      · rw [hn] at hnone
        cases hnone
      · exact absurd hclears (hkept k' hk')
    | pending hn' hk' => exact absurd hshows.confirms (hk' k hk).2
    | proven h =>
      obtain rfl := Option.some.inj (hn.symm.trans h.given)
      rfl

theorem stage_of_trail (hv : v.sessions = []) (hbare : ∀ id, v.factor id = (none, false))
    (h : Trail body fits v hist x) : Stage hist id (x.factor id) := by
  refine (h.invariant (I := fun hist x => Book hist x ∧ Stage hist id (x.factor id)) ⟨book_init hv, ?_⟩
    fun hist op a s s' hf hr hI => ⟨?_, stage_step (k := ⟨op, a, s, s'⟩) hI.2 (turn_of_runs hI.1 hf hr)⟩).2
  · rw [hbare]
    exact .bare (Or.inl rfl)
  · exact hI.1.after hf hr

theorem bare_of_users (hbare : ∀ u ∈ v.users, u.totpSecretCiphertext = none ∧ u.totpEnrolled = false) (id : Uuid) :
    v.factor id = (none, false) := by
  unfold Db.factor
  cases hfind : Table.find v.users id with
  | none => rfl
  | some u => exact Prod.ext (hbare u (Table.mem_of_find hfind)).1 (hbare u (Table.mem_of_find hfind)).2

/-- A commit that gives no secret to the user, ends no enrollment and takes nothing away. -/
theorem factor_kept (hv : v.sessions = []) (h : Trail body fits v hist x) (hk : k ∈ hist) (hg : given id k = none)
    (hs : ¬confirms id k) (hc : ¬clears id k) : k.after.factor id = k.before.factor id := by
  obtain ⟨newer, older, -, holder, hf, hr⟩ := h.split hk
  have hturn : Turn id k := turn_of_runs (book_of_trail hv holder) hf hr
  cases hturn with
  | started hg' _ => cases hg.symm.trans hg'
  | ended _ _ hshows _ _ => exact absurd hshows.confirms hs
  | taken _ hclears _ => exact absurd hclears hc
  | same _ _ _ ha => exact ha

/-- A user has a second factor, with this secret, exactly while the newest secret given to the user is this one,
a code of it was shown since, and it was not taken away; and no other commit changes the secret or the enrollment. -/
theorem second_factor_iff (hv : v.sessions = [])
    (hbare : ∀ u ∈ v.users, u.totpSecretCiphertext = none ∧ u.totpEnrolled = false) (h : Trail body fits v hist x)
    (id : Uuid) (cipher : String) :
    ((∃ u, Table.find x.users id = some u ∧ u.totpSecretCiphertext = some cipher ∧ u.totpEnrolled = true) ↔
      Proven hist id cipher) ∧
    ∀ k ∈ hist, given id k = none → ¬confirms id k → ¬clears id k → k.after.factor id = k.before.factor id := by
  refine ⟨?_, fun k hk => factor_kept hv h hk⟩
  rw [← (stage_of_trail hv (bare_of_users hbare) h).proven_iff]
  constructor
  · rintro ⟨u, hu, hsecret, henrolled⟩
    rw [factor_of_find hu, hsecret, henrolled]
  · intro hfactor
    unfold Db.factor at hfactor
    cases hfind : Table.find x.users id with
    | none =>
      rw [hfind] at hfactor
      cases hfactor
    | some u =>
      rw [hfind] at hfactor
      obtain ⟨hsecret, henrolled⟩ := Prod.mk.inj hfactor
      exact ⟨u, rfl, hsecret, henrolled⟩

end Stage

namespace Demo

/-- The row that the newest load has brought. -/
def seen (r : List Entry × Db) : UserSession :=
  (newestOf (fun k => k.result.row) r.1).getD { id := 0, userId := 0 }

def next (r : List Entry × Db) (ops : List Op) : List Entry × Db := Trail.play body fits r.1 r.2 ops

def visit (n : ℕ) : Visit := { toCall := call n "second" }

/-- User 5 signs in with the password only, and shows it again. -/
def signedIn : List Entry × Db :=
  let r := run [login, load 2]
  next r [.reauthenticate (visit 3) id (seen r) "secret" none, load 4]

def enrolledAt6 : List Entry × Db :=
  next signedIn [.totpEnroll (visit 5) (seen signedIn), .totpVerify (visit 6) (seen signedIn) "123 456"]

theorem trail_enrolledAt6 : Trail body fits db enrolledAt6.1 enrolledAt6.2 :=
  trail_play _ (trail_play _ (trail_run _))

end Demo

theorem second_factor_shown : Proven Demo.enrolledAt6.1 5 "secret" ∧
    ∀ k ∈ Demo.enrolledAt6.1, given 5 k = none → ¬confirms 5 k → ¬clears 5 k → k.after.factor 5 = k.before.factor 5 := by
  obtain ⟨u, hu, hat⟩ := (Option.any_eq_true ..).1
    (by decide +kernel : (Table.find Demo.enrolledAt6.2.users 5).any
      (fun u => u.totpSecretCiphertext = some "secret" && u.totpEnrolled) = true)
  rw [Bool.and_eq_true, decide_eq_true_eq] at hat
  obtain ⟨hproven, hkept⟩ := second_factor_iff rfl (by decide) Demo.trail_enrolledAt6 5 "secret"
  exact ⟨hproven.1 ⟨u, hu, hat⟩, hkept⟩

end OmniDB.Sessions
