import OmniDB.Proofs.Expulsion
import OmniDB.Tx.Trails

/-! A session over a run. What the commits of a run say about a session decides whether it can be
loaded: when it was opened, when it was last loaded, and whether a request has ended it. -/

namespace OmniDB.Sessions

open Tx
open Tx.Prog
open Auth

abbrev Entry := Deed Db Op Result

/-! ## What a commit says -/

/-- A session as it was opened. -/
structure Opening where
  id : Uuid
  user : Uuid
  hash : String
  born : Time
  settings : Settings

def Op.opensAt : Op → Option (Time × Settings)
  | .login c _ _ => some (c.utcnow 0, c.settings)
  | .totpVerify v _ _ => some (v.utcnow 2, v.settings)
  | _ => none

def Result.created : Result → Option UserSession
  | .opened created => some created.1
  | _ => none

def opening (k : Entry) : Option Opening :=
  k.op.opensAt.bind fun t => k.result.created.map fun s => ⟨s.id, s.userId, s.tokenHash, t.1, t.2⟩

/-- The session that the commit opened under this hash. -/
def openedAs (hash : String) (k : Entry) : Option Opening := (opening k).filter fun o => o.hash = hash

/-- The row that `get_current_session` hands to the rest of the request. -/
def Result.row : Result → Option UserSession
  | .loaded row => row
  | _ => none

def Arrival.row : Arrival → Option UserSession
  | .unknown => none
  | .dropped row => some row
  | .known row _ => some row

/-- The row whose idle window the commit has moved. -/
def Result.seen : Result → Option UserSession
  | .loaded row => row
  | .arrived a => a.row
  | _ => none

def loads (k : Entry) (id : Uuid) : Bool := k.result.seen.any fun s => s.id = id

/-- The end of the idle window that a load begins. -/
def Op.idleUntil : Op → Time
  | .load c _ | .arrive c _ => c.utcnow 0 + minutes c.settings.sessionIdleMinutes
  | _ => 0

/-- A bulk request revokes what the rows of its job make it revoke. -/
structure Revokes (x x' : Db) (id : Uuid) : Prop where
  before : ∃ s ∈ x.sessions, s.id = id ∧ s.revokedAt = none
  after : ∃ s ∈ x'.sessions, s.id = id ∧ s.revokedAt ≠ none

/-- The commit has ended the session `id` of the user. -/
def ends (k : Entry) (id user : Uuid) : Prop :=
  match k.op, k.result with
  | .logout _ session, _ => session.id = id
  | .revokeSession _ _ id', _ => id' = id
  | .arrive .., .arrived (.dropped row) => row.id = id
  | .totpVerify _ session _, .opened _ => session.userId = user
  | .activate .., .activated user' => user' = user
  | .resetPassword _ _ user', _ => user' = user
  | .resetMfa _ _ user', _ => user' = user
  | .app op, _ => if op.bulk then Revokes k.before k.after id else App.expels k.before op user
  | _, _ => False

/-- A request goes on with a session that a request of the run has loaded. -/
def fits (hist : List Entry) (op : Op) : Prop :=
  op.session.all (fun s => hist.any fun k => k.result.row = some s) = true

instance (hist : List Entry) (op : Op) : Decidable (fits hist op) := inferInstanceAs (Decidable (_ = true))

/-- The end of the idle window after these commits, the newest first. -/
def idleUntil (o : Opening) : List Entry → Time
  | [] => o.born + minutes o.settings.sessionIdleMinutes
  | k :: older => if loads k o.id then k.op.idleUntil else idleUntil o older

/-- By the commits since it was opened the session is alive at this time. -/
structure Alive (now : Time) (o : Opening) (since : List Entry) : Prop where
  absolute : now < o.born + hours o.settings.sessionAbsoluteHours
  idle : now < idleUntil o since
  open' : ∀ k ∈ since, ¬ends k o.id o.user

/-! ## What a commit does to the rows -/

structure Next (k : Entry) (s s' : UserSession) : Prop where
  id : s'.id = s.id
  user : s'.userId = s.userId
  hash : s'.tokenHash = s.tokenHash
  absolute : s'.absoluteExpiresAt = s.absoluteExpiresAt
  idle : min s'.idleExpiresAt s.absoluteExpiresAt =
    min (if loads k s.id then k.op.idleUntil else s.idleExpiresAt) s.absoluteExpiresAt
  revoked : s'.revokedAt ≠ none ↔ s.revokedAt ≠ none ∨ ends k s.id s.userId

structure Effect (k : Entry) : Prop where
  rows : ∃ rows, List.Forall₂ (Next k) k.before.sessions rows ∧ k.after.sessions = rows ++ k.result.created.toList
  fresh : ∀ s, k.result.created = some s → Fresh k.before s ∧ s.revokedAt = none ∧ ∃ t, k.op.opensAt = some t ∧
    s.absoluteExpiresAt = t.1 + hours t.2.sessionAbsoluteHours ∧ s.idleExpiresAt = t.1 + minutes t.2.sessionIdleMinutes

variable {x x' : Db} {k : Entry} {s s' : UserSession}

/-- A row that stays as it is or is revoked. -/
theorem next_of_lapses (h : Lapses s s') (hl : loads k s.id = false)
    (hr : s'.revokedAt ≠ none ↔ s.revokedAt ≠ none ∨ ends k s.id s.userId) : Next k s s' := by
  rcases h with rfl | ⟨now, rfl⟩
  · exact ⟨rfl, rfl, rfl, rfl, by simp [hl], hr⟩
  · exact ⟨rfl, rfl, rfl, rfl, by simp [hl, Authz.revoked], hr⟩

theorem next_same (hl : loads k s.id = false) (he : ¬ends k s.id s.userId) : Next k s s :=
  next_of_lapses (.refl s) hl (by simp [he])

/-- A commit that opens no session and changes each row by itself. -/
theorem effect_of_map {g : UserSession → UserSession} (h : k.after.sessions = k.before.sessions.map g)
    (hc : k.result.created = none) (hg : ∀ s ∈ k.before.sessions, Next k s (g s)) : Effect k where
  rows := by
    refine ⟨k.before.sessions.map g, List.forall₂_map_right_iff.2 (List.forall₂_same.2 hg), ?_⟩
    rw [h, hc]
    exact (List.append_nil _).symm
  fresh s hs := by
    rw [hc] at hs
    cases hs

theorem effect_of_same (h : k.after.sessions = k.before.sessions) (hc : k.result.created = none)
    (hg : ∀ s ∈ k.before.sessions, loads k s.id = false ∧ ¬ends k s.id s.userId) : Effect k :=
  effect_of_map (g := fun s => s) (by rw [h, List.map_id']) hc fun s hs => next_same (hg s hs).1 (hg s hs).2

/-- A row of the table is changed in columns that say nothing about its validity. -/
theorem effect_of_modify {n : Uuid} {f : UserSession → UserSession}
    (h : k.after.sessions = Table.modify k.before.sessions n f) (hc : k.result.created = none)
    (hf : ∀ s ∈ k.before.sessions, s.id = n → Next k s (f s))
    (hg : ∀ s ∈ k.before.sessions, s.id ≠ n → loads k s.id = false ∧ ¬ends k s.id s.userId) : Effect k := by
  refine effect_of_map (g := fun s => if Tx.key s = n then f s else s) h hc fun s hs => ?_
  split_ifs with hid
  · exact hf s hs hid
  · exact next_same (hg s hs hid).1 (hg s hs hid).2

/-- The sessions of a user are revoked, all others are left alone. -/
theorem next_expelled {user : Uuid} {now : Time} (hl : loads k s.id = false)
    (he : ends k s.id s.userId ↔ user = s.userId) : Next k s (expelled user now s) := by
  unfold expelled
  split_ifs with hcond
  · exact next_of_lapses (Or.inr ⟨now, rfl⟩) hl ⟨fun _ => Or.inr (he.2 hcond.1.symm), fun _ hn => by cases hn⟩
  · refine next_of_lapses (.refl s) hl ⟨Or.inl, fun h hn => ?_⟩
    exact h.elim (fun h => h hn) fun h => hcond ⟨(he.1 h).symm, hn⟩

/-! ## The book of a run -/

/-- What the commits say about a row. -/
structure Told (hist : List Entry) (s : UserSession) (o : Opening) : Prop where
  newest : newestOf (openedAs s.tokenHash) hist = some o
  id : o.id = s.id
  user : o.user = s.userId
  absolute : s.absoluteExpiresAt = o.born + hours o.settings.sessionAbsoluteHours
  idle : min s.idleExpiresAt s.absoluteExpiresAt =
    min (idleUntil o (sinceNewest (openedAs s.tokenHash) hist)) s.absoluteExpiresAt
  revoked : s.revokedAt ≠ none ↔ ∃ k ∈ sinceNewest (openedAs s.tokenHash) hist, ends k s.id s.userId

structure Book (hist : List Entry) (x : Db) : Prop where
  ids : Table.Unique x.sessions
  hashes : (x.sessions.map UserSession.tokenHash).Nodup
  told : ∀ s ∈ x.sessions, ∃ o, Told hist s o
  kept : ∀ k ∈ hist, ∀ o, opening k = some o → ∃ s ∈ x.sessions, s.tokenHash = o.hash
  rows : ∀ k ∈ hist, ∀ row, k.result.row = some row → row.revokedAt = none ∧
    ∃ s ∈ x.sessions, s.id = row.id ∧ s.userId = row.userId

theorem book_init (h : x.sessions = []) : Book [] x where
  ids := by
    unfold Table.Unique
    rw [h]
    exact List.nodup_nil
  hashes := by simp [h]
  told := by simp [h]
  kept := by simp
  rows := by simp

section Effect

theorem Effect.created {o : Opening} (hfx : Effect k) (h : opening k = some o) : ∃ s, k.result.created = some s ∧
    Fresh k.before s ∧ o.id = s.id ∧ o.user = s.userId ∧ o.hash = s.tokenHash ∧ s.revokedAt = none ∧
    s.absoluteExpiresAt = o.born + hours o.settings.sessionAbsoluteHours ∧
    s.idleExpiresAt = o.born + minutes o.settings.sessionIdleMinutes := by
  unfold opening at h
  obtain ⟨t, ht, h⟩ := Option.bind_eq_some_iff.1 h
  obtain ⟨s, hs, rfl⟩ := Option.map_eq_some_iff.1 h
  obtain ⟨hfresh, hopen, t', ht', ha, hi⟩ := hfx.fresh s hs
  obtain rfl := Option.some.inj (ht.symm.trans ht')
  exact ⟨s, hs, hfresh, rfl, rfl, rfl, hopen, ha, hi⟩

theorem Effect.opening (hfx : Effect k) (h : k.result.created = some s) : ∃ o, opening k = some o ∧ o.id = s.id ∧
    o.user = s.userId ∧ o.hash = s.tokenHash ∧ s.absoluteExpiresAt = o.born + hours o.settings.sessionAbsoluteHours ∧
    s.idleExpiresAt = o.born + minutes o.settings.sessionIdleMinutes := by
  obtain ⟨-, -, t, ht, ha, hi⟩ := hfx.fresh s h
  exact ⟨_, by unfold Sessions.opening; rw [ht, h]; rfl, rfl, rfl, rfl, ha, hi⟩

/-- Every row afterwards was there before, or is the one that was opened. -/
theorem Effect.mem_after (hfx : Effect k) (h : s' ∈ k.after.sessions) :
    (∃ s ∈ k.before.sessions, Next k s s') ∨ k.result.created = some s' := by
  obtain ⟨rows, hrows, hafter⟩ := hfx.rows
  rw [hafter, List.mem_append, Option.mem_toList] at h
  exact h.imp_left fun h => Rows.partner_left hrows h

theorem Effect.next (hfx : Effect k) (h : s ∈ k.before.sessions) : ∃ s' ∈ k.after.sessions, Next k s s' := by
  obtain ⟨rows, hrows, hafter⟩ := hfx.rows
  obtain ⟨s', hs', hn⟩ := Rows.partner_right hrows h
  exact ⟨s', by rw [hafter]; exact List.mem_append_left _ hs', hn⟩

theorem Effect.mem_created (hfx : Effect k) (h : k.result.created = some s) : s ∈ k.after.sessions := by
  obtain ⟨rows, -, hafter⟩ := hfx.rows
  rw [hafter, h]
  exact List.mem_append_right _ List.mem_cons_self

/-- A column that no commit changes, and that a new row does not repeat, stays free of repetitions. -/
theorem Effect.nodup {γ : Type} {f : UserSession → γ} (hfx : Effect k) (hf : ∀ s s', Next k s s' → f s' = f s)
    (hfresh : ∀ s, k.result.created = some s → ∀ r ∈ k.before.sessions, f r ≠ f s)
    (h : (k.before.sessions.map f).Nodup) : (k.after.sessions.map f).Nodup := by
  obtain ⟨rows, hrows, hafter⟩ := hfx.rows
  rw [hafter, List.map_append, Rows.map_partners hrows hf]
  cases hc : k.result.created with
  | none => simpa using h
  | some s =>
    refine List.nodup_append.2 ⟨h, List.nodup_singleton _, fun a ha b hb => ?_⟩
    obtain ⟨r, hr, rfl⟩ := List.mem_map.1 ha
    obtain rfl := List.mem_singleton.1 hb
    exact hfresh s hc r hr

theorem openedAs_eq_none {hash : String} (hfx : Effect k)
    (h : ∀ s, k.result.created = some s → s.tokenHash ≠ hash) : openedAs hash k = none := by
  unfold openedAs
  rw [Option.filter_eq_none_iff]
  intro o ho
  obtain ⟨s, hs, -, -, -, hhash, -⟩ := hfx.created ho
  rw [decide_eq_true_eq, hhash]
  exact h s hs

/-- The row that was there before is still told right. -/
theorem Told.next {hist : List Entry} {o : Opening} (h : Told hist s o) (hfx : Effect k) (hs : s ∈ k.before.sessions)
    (hn : Next k s s') : Told (k :: hist) s' o := by
  have hnone : openedAs s.tokenHash k = none := openedAs_eq_none hfx fun r hr => (((hfx.fresh r hr).1 s hs).2).symm
  constructor
  · rw [hn.hash, newestOf_cons_of_none hnone]
    exact h.newest
  · exact h.id.trans hn.id.symm
  · exact h.user.trans hn.user.symm
  · rw [hn.absolute]
    exact h.absolute
  · rw [hn.hash, sinceNewest_cons_of_none hnone, hn.absolute, hn.idle]
    unfold idleUntil
    rw [h.id]
    split_ifs
    · rfl
    · exact h.idle
  · rw [hn.hash, sinceNewest_cons_of_none hnone, hn.revoked, hn.id, hn.user, h.revoked, List.exists_mem_cons_iff,
      or_comm]

/-- The row that the commit has opened is told right. -/
theorem told_created {hist : List Entry} (hfx : Effect k) (hc : k.result.created = some s) :
    ∃ o, Told (k :: hist) s o := by
  obtain ⟨o, ho, hid, huser, hhash, ha, hi⟩ := hfx.opening hc
  have hsome : openedAs s.tokenHash k = some o := by
    unfold openedAs
    rw [ho, Option.filter_some, if_pos (decide_eq_true hhash)]
  have hsince : sinceNewest (openedAs s.tokenHash) (k :: hist) = [] := sinceNewest_cons_of_some hsome
  refine ⟨o, newestOf_cons_of_some hsome, hid, huser, ha, ?_, ?_⟩
  · rw [hsince, hi]
    rfl
  · rw [hsince]
    simp [(hfx.fresh s hc).2.1]

/-- What a request may hand on as its own session. -/
theorem Book.step {hist : List Entry} (h : Book hist k.before) (hfx : Effect k)
    (hrow : ∀ row, k.result.row = some row → row.revokedAt = none ∧
      ∃ s ∈ k.before.sessions, s.id = row.id ∧ s.userId = row.userId) : Book (k :: hist) k.after where
  ids := hfx.nodup (f := UserSession.id) (fun _ _ hn => hn.id) (fun s hs r hr => ((hfx.fresh s hs).1 r hr).1) h.ids
  hashes := hfx.nodup (fun _ _ hn => hn.hash) (fun s hs r hr => ((hfx.fresh s hs).1 r hr).2) h.hashes
  told s' hs' := by
    rcases hfx.mem_after hs' with ⟨s, hs, hn⟩ | hc
    · obtain ⟨o, ho⟩ := h.told s hs
      exact ⟨o, ho.next hfx hs hn⟩
    · exact told_created hfx hc
  kept k' hk' o ho := by
    rcases List.mem_cons.1 hk' with rfl | hk'
    · obtain ⟨s, hs, -, -, -, hhash, -⟩ := hfx.created ho
      exact ⟨s, hfx.mem_created hs, hhash.symm⟩
    · obtain ⟨s, hs, hhash⟩ := h.kept k' hk' o ho
      obtain ⟨s', hs', hn⟩ := hfx.next hs
      exact ⟨s', hs', hn.hash.trans hhash⟩
  rows k' hk' row hr := by
    have hold : row.revokedAt = none ∧ ∃ s ∈ k.before.sessions, s.id = row.id ∧ s.userId = row.userId := by
      rcases List.mem_cons.1 hk' with rfl | hk'
      · exact hrow row hr
      · exact h.rows k' hk' row hr
    obtain ⟨hopen, s, hs, hid, huser⟩ := hold
    obtain ⟨s', hs', hn⟩ := hfx.next hs
    exact ⟨hopen, s', hs', hn.id.trans hid, hn.user.trans huser⟩

end Effect

/-! ## What each request does -/

section Requests

variable {hist : List Entry} {c : Call} {v : Visit} {u : Unit} {a : Result}

theorem Book.session {op : Op} {session : UserSession} (h : Book hist x) (hf : fits hist op)
    (hs : op.session = some session) : session.revokedAt = none ∧
      ∃ s ∈ x.sessions, s.id = session.id ∧ s.userId = session.userId := by
  unfold fits at hf
  rw [hs, Option.all_some, List.any_eq_true] at hf
  obtain ⟨k, hk, hrow⟩ := hf
  exact h.rows k hk session (of_decide_eq_true hrow)

/-- What a load says and does. -/
theorem effect_slide {op : Op} {token : Option String} (hu : Table.Unique x.sessions) (hs : found c x token = some s)
    (hseen : a.seen = some (seenAgain c s)) (hc : a.created = none)
    (hw : op.idleUntil = c.utcnow 0 + minutes c.settings.sessionIdleMinutes)
    (he : ∀ r ∈ x.sessions, ends ⟨op, a, x, slide c s x⟩ r.id r.userId → False) : Effect ⟨op, a, x, slide c s x⟩ := by
  have hmem := (found_eq_some hs).1
  refine effect_of_modify (n := s.id) rfl hc (fun r hr hid => ?_) fun r hr hid => ⟨?_, fun h => he r hr h⟩
  · obtain rfl := hu.eq hr hmem hid
    refine ⟨rfl, rfl, rfl, rfl, ?_, ?_⟩
    · have hl : loads ⟨op, a, x, slide c r x⟩ r.id = true := by simp [loads, hseen, seenAgain, slid]
      rw [if_pos hl]
      simp only [hw, slid]
      exact inf_right_idem ..
    · simp only [slid]
      exact ⟨Or.inl, fun h => h.elim id fun h => (he r hr h).elim⟩
  · simp [loads, hseen, seenAgain, slid, Ne.symm hid]

theorem effect_load {token : Option String} (h : Book hist x) (hr : (body (.load c token)).Runs x a x') :
    Effect ⟨.load c token, a, x, x'⟩ ∧ ∀ row, a.row = some row → row.revokedAt = none ∧
      ∃ s ∈ x.sessions, s.id = row.id ∧ s.userId = row.userId := by
  obtain ⟨o, hload, rfl⟩ := runs_map.1 hr
  cases o with
  | none =>
    obtain rfl := loadSession_none hload
    exact ⟨effect_of_same rfl rfl fun s _ => ⟨rfl, fun h => h⟩, fun row hrow => by cases hrow⟩
  | some row =>
    obtain ⟨s, hs, rfl, rfl⟩ := loadSession_row hload
    refine ⟨effect_slide h.ids hs rfl rfl rfl fun _ _ he => he, fun row hrow => ?_⟩
    obtain rfl := Option.some.inj hrow
    exact ⟨(found_eq_some hs).2.1, s, (found_eq_some hs).1, rfl, rfl⟩

theorem effect_arrive {token : Option String} (h : Book hist x) (hr : (body (.arrive c token)).Runs x a x') :
    Effect ⟨.arrive c token, a, x, x'⟩ := by
  obtain ⟨o, harrive, rfl⟩ := runs_map.1 hr
  obtain ⟨rfl, rfl⟩ | ⟨s, hs, ⟨target, rfl, rfl⟩ | ⟨rfl, rfl⟩⟩ := arrive_runs harrive
  · exact effect_of_same rfl rfl fun s _ => ⟨rfl, fun h => h⟩
  · exact effect_slide h.ids hs rfl rfl rfl fun _ _ he => he
  · have hmem := (found_eq_some hs).1
    refine effect_of_modify (f := fun r => Authz.revoked (c.utcnow 1) (slid c (c.utcnow 0) s.absoluteExpiresAt r))
      (n := s.id) ?_ rfl (fun r hr hid => ?_) fun r hr hid => ⟨?_, fun h => hid h.symm⟩
    · exact Table.modify_modify fun r hr => hr
    · obtain rfl := h.ids.eq hr hmem hid
      refine ⟨rfl, rfl, rfl, rfl, ?_, ?_⟩
      · change _ = min (if decide (r.id = r.id) = true then _ else _) _
        rw [decide_eq_true rfl, if_pos rfl]
        exact inf_right_idem ..
      · exact ⟨fun _ => Or.inr rfl, fun _ hn => by cases hn⟩
    · exact decide_eq_false (Ne.symm hid)

theorem effect_login {lower : String → String} {r : LoginRequest} (hr : (body (.login c lower r)).Runs x a x') :
    Effect ⟨.login c lower r, a, x, x'⟩ := by
  obtain ⟨o, hlogin, rfl⟩ := runs_map.1 hr
  rcases login_runs hlogin with ⟨⟨status, detail, rfl⟩, hsame⟩ | ⟨user, -, rfl, hfresh, hsessions, -⟩
  · exact effect_of_same (congrArg Prod.fst hsame) rfl fun s _ => ⟨rfl, fun h => h⟩
  · refine ⟨⟨x.sessions, List.forall₂_same.2 fun s _ => next_same rfl fun h => h, hsessions⟩, fun s hs => ?_⟩
    obtain rfl := Option.some.inj hs
    exact ⟨hfresh, rfl, _, rfl, rfl, rfl⟩

theorem effect_logout {session : UserSession} (h : Book hist x) (hf : fits hist (.logout c session))
    (hr : (body (.logout c session)).Runs x a x') : Effect ⟨.logout c session, a, x, x'⟩ := by
  obtain ⟨o, hlogout, rfl⟩ := runs_map.1 hr
  have hsessions := congrArg Prod.fst (logout_runs (h.session hf rfl).1 hlogout)
  refine effect_of_modify hsessions rfl (fun s _ hid => ?_) fun s _ hid => ⟨rfl, Ne.symm hid⟩
  exact ⟨rfl, rfl, rfl, rfl, rfl, fun _ => Or.inr hid.symm, fun _ hn => by cases hn⟩

theorem effect_revokeSession {session : UserSession} {id : Uuid} (h : Book hist x)
    (hf : fits hist (.revokeSession c session id)) (hr : (body (.revokeSession c session id)).Runs x a x') :
    Effect ⟨.revokeSession c session id, a, x, x'⟩ := by
  obtain ⟨o, hrevoke, rfl⟩ := runs_map.1 hr
  obtain ⟨row, -, hor, -, hsame⟩ := revokeSession_runs hrevoke
  have hsessions := congrArg Prod.fst hsame
  by_cases hopen : row.revokedAt = none
  · rw [if_pos hopen] at hsessions
    refine effect_of_modify hsessions rfl (fun s _ hid => ?_) fun s _ hid => ⟨rfl, Ne.symm hid⟩
    exact ⟨rfl, rfl, rfl, rfl, rfl, fun _ => Or.inr hid.symm, fun _ hn => by cases hn⟩
  · rw [if_neg hopen] at hsessions
    -- the row was revoked before, so it is not the one that the request has loaded
    have hfind : Table.find x.sessions id = some row := hor.resolve_left fun he => hopen (he ▸ (h.session hf rfl).1)
    refine effect_of_map (g := fun s => s) (by rw [List.map_id']; exact hsessions) rfl fun s hs => ?_
    by_cases hid : s.id = id
    · obtain rfl : row = s := Option.some.inj (hfind.symm.trans (hid ▸ h.ids.find_of_mem hs))
      exact ⟨rfl, rfl, rfl, rfl, rfl, Or.inl, fun _ => hopen⟩
    · exact next_same rfl (Ne.symm hid)

theorem effect_reauthenticate {lower : String → String} {session : UserSession} {password : String}
    {totpCode : Option String} (hr : (body (.reauthenticate v lower session password totpCode)).Runs x a x') :
    Effect ⟨.reauthenticate v lower session password totpCode, a, x, x'⟩ := by
  obtain ⟨o, hreauth, rfl⟩ := runs_map.1 hr
  rcases reauthenticate_runs hreauth with ⟨⟨status, detail, rfl⟩, hsame⟩ | ⟨user, r, rfl, -, -, hsame⟩
  · exact effect_of_same (congrArg Prod.fst hsame) rfl fun s _ => ⟨rfl, fun h => h⟩
  · refine effect_of_modify (congrArg Prod.fst hsame) rfl (fun s _ _ => ?_) fun s _ _ => ⟨rfl, fun h => h⟩
    exact ⟨rfl, rfl, rfl, rfl, rfl, Or.inl, fun h => h.elim id False.elim⟩

theorem effect_totpEnroll {session : UserSession} (hr : (body (.totpEnroll v session)).Runs x a x') :
    Effect ⟨.totpEnroll v session, a, x, x'⟩ := by
  obtain ⟨o, henroll, rfl⟩ := runs_map.1 hr
  obtain ⟨user, -, hsessions, -⟩ := totpEnroll_runs henroll
  refine effect_of_modify hsessions rfl (fun s _ _ => ?_) fun s _ _ => ⟨rfl, fun h => h⟩
  exact ⟨rfl, rfl, rfl, rfl, rfl, Or.inl, fun h => h.elim id False.elim⟩

theorem effect_totpVerify {session : UserSession} {code : String} (h : Book hist x)
    (hr : (body (.totpVerify v session code)).Runs x a x') : Effect ⟨.totpVerify v session code, a, x, x'⟩ := by
  obtain ⟨o, hverify, rfl⟩ := runs_map.1 hr
  rcases totpVerify_runs h.ids hverify with ⟨⟨status, detail, rfl⟩, hsame⟩ | ⟨rfl, hfresh, hsessions, -⟩
  · exact effect_of_same (congrArg Prod.fst hsame) rfl fun s _ => ⟨rfl, fun h => h⟩
  · refine ⟨⟨_, ?_, hsessions⟩, fun s hs => ?_⟩
    · exact List.forall₂_map_right_iff.2 (List.forall₂_same.2 fun s _ => next_expelled rfl Iff.rfl)
    · obtain rfl := Option.some.inj hs
      exact ⟨hfresh, rfl, _, rfl, rfl, rfl⟩

/-- A request that revokes the sessions of one user, and does nothing else to sessions. -/
theorem effect_of_expelled {user : Uuid} {now : Time} (h : k.after.sessions = k.before.sessions.map (expelled user now))
    (hc : k.result.created = none) (hl : ∀ id, loads k id = false) (he : ∀ id w, ends k id w ↔ user = w) : Effect k :=
  effect_of_map h hc fun s _ => next_expelled (hl s.id) (he s.id s.userId)

theorem effect_activate {lower : String → String} {token password : String} (h : Book hist x)
    (hr : (body (.activate c lower token password)).Runs x a x') :
    Effect ⟨.activate c lower token password, a, x, x'⟩ := by
  obtain ⟨o, hactivate, rfl⟩ := runs_map.1 hr
  rcases activate_runs h.ids hactivate with ⟨⟨status, detail, rfl⟩, hsame⟩ | ⟨user, rfl, hsessions, -⟩
  · exact effect_of_same (congrArg Prod.fst hsame) rfl fun s _ => ⟨rfl, fun h => h⟩
  · exact effect_of_expelled hsessions rfl (fun _ => rfl) fun _ _ => Iff.rfl

theorem effect_resetPassword {actor id : Uuid} (h : Book hist x) (hr : (body (.resetPassword c actor id)).Runs x a x') :
    Effect ⟨.resetPassword c actor id, a, x, x'⟩ := by
  obtain ⟨o, hreset, rfl⟩ := runs_map.1 hr
  exact effect_of_expelled (resetPassword_runs h.ids hreset).1 rfl (fun _ => rfl) fun _ _ => Iff.rfl

theorem effect_resetMfa {actor id : Uuid} (h : Book hist x) (hr : (body (.resetMfa c actor id)).Runs x a x') :
    Effect ⟨.resetMfa c actor id, a, x, x'⟩ := by
  obtain ⟨o, hreset, rfl⟩ := runs_map.1 hr
  exact effect_of_expelled (resetMfa_runs h.ids hreset).1 rfl (fun _ => rfl) fun _ _ => Iff.rfl

/-- A request that touches neither sessions nor users. -/
theorem effect_of_leaves {op : Op} {α : Type} {p : Txn α} [Leaves Db.identities p] (hop : body op = silent p)
    (hl : ∀ id user, ¬ends ⟨op, .done, x, x'⟩ id user) (hr : (body op).Runs x a x') : Effect ⟨op, a, x, x'⟩ := by
  rw [hop] at hr
  obtain ⟨o, hp, rfl⟩ := runs_map.1 hr
  exact effect_of_same (congrArg Prod.fst (Leaves.runs (π := Db.identities) hp)) rfl fun s _ => ⟨rfl, hl s.id s.userId⟩

instance (session : UserSession) : Leaves Db.identities (listSessions session) := by
  unfold listSessions getCurrentUser getAuthenticatedUser; infer_instance

theorem unique_of_calm (h : Calm x x') (hx : Table.Unique x.sessions) : Table.Unique x'.sessions := by
  have hids : x'.sessions.map UserSession.id = x.sessions.map UserSession.id :=
    Rows.map_partners h.sessions fun _ _ hl => hl.id
  exact (congrArg List.Nodup hids).mpr hx

/-- Requests on people revoke sessions, and do nothing else to them. -/
theorem effect_app {op : App.Op} (h : Book hist x) (hr : (body (.app op)).Runs x a x') :
    Effect ⟨.app op, a, x, x'⟩ := by
  obtain ⟨o, happ, rfl⟩ := runs_map.1 hr
  refine ⟨⟨x'.sessions, ?_, (List.append_nil _).symm⟩, fun s hs => by cases hs⟩
  cases hop : op.bulk with
  | false =>
    refine (expelled_app hop h.ids happ).imp fun s s' hs => next_of_lapses hs.1 rfl ?_
    simp only [ends, hop, Bool.false_eq_true, if_false]
    exact hs.2
  | true =>
    have hcalm := Abides.runs Calm.refl (fun _ _ _ => Calm.trans) happ
    have hids := unique_of_calm hcalm h.ids
    refine (Rows.partners_mem hcalm.sessions).imp fun s s' hp => next_of_lapses hp.2.2 rfl ?_
    obtain ⟨hs, hs', hl⟩ := hp
    simp only [ends, hop, if_true]
    constructor
    · intro h'
      by_cases hopen : s.revokedAt = none
      · exact Or.inr ⟨⟨s, hs, rfl, hopen⟩, s', hs', hl.id, h'⟩
      · exact Or.inl hopen
    · rintro (h' | ⟨-, r, hr, hrid, hr'⟩)
      · exact hl.stays h'
      · obtain rfl : r = s' := hids.eq hr hs' (hrid.trans hl.id.symm)
        exact hr'

/-- Only `get_current_session` hands out a row. -/
theorem row_of_runs {op : Op} {row : UserSession} (hr : (body op).Runs x a x') (hrow : a.row = some row) :
    ∃ c token, op = .load c token := by
  cases op with
  | load c token => exact ⟨c, token, rfl⟩
  | login | totpVerify | activate | reauthenticate =>
    obtain ⟨o, -, rfl⟩ := runs_map.1 hr
    cases o <;> cases hrow
  | arrive | logout | listSessions | revokeSession | totpEnroll | issueActivationCode | resetPassword | resetMfa
  | setup | app =>
    obtain ⟨o, -, rfl⟩ := runs_map.1 hr
    cases hrow

theorem effect_of_runs {op : Op} (h : Book hist x) (hf : fits hist op) (hr : (body op).Runs x a x') :
    Effect ⟨op, a, x, x'⟩ := by
  cases op with
  | load => exact (effect_load h hr).1
  | arrive => exact effect_arrive h hr
  | login => exact effect_login hr
  | logout => exact effect_logout h hf hr
  | listSessions session => exact effect_of_leaves (p := listSessions session) rfl (fun _ _ he => he) hr
  | revokeSession => exact effect_revokeSession h hf hr
  | reauthenticate => exact effect_reauthenticate hr
  | totpEnroll => exact effect_totpEnroll hr
  | totpVerify => exact effect_totpVerify h hr
  | activate => exact effect_activate h hr
  | issueActivationCode c actor id =>
    exact effect_of_leaves (p := Auth.Request.issueActivationCode c actor id) rfl (fun _ _ he => he) hr
  | resetPassword => exact effect_resetPassword h hr
  | resetMfa => exact effect_resetMfa h hr
  | setup op => exact effect_of_leaves (p := Setup.body op) rfl (fun _ _ he => he) hr
  | app => exact effect_app h hr

end Requests

/-! ## Runs -/

section Runs

variable {hist : List Entry} {v : Db} {c : Call} {token : String}

theorem Book.after {op : Op} {a : Result} (h : Book hist x) (hf : fits hist op) (hr : (body op).Runs x a x') :
    Book (⟨op, a, x, x'⟩ :: hist) x' := by
  refine h.step (k := ⟨op, a, x, x'⟩) (effect_of_runs h hf hr) fun row hrow => ?_
  obtain ⟨c, token, rfl⟩ := row_of_runs hr hrow
  exact (effect_load h hr).2 row hrow

theorem book_of_trail (hv : v.sessions = []) (h : Trail body fits v hist x) : Book hist x :=
  h.invariant (book_init hv) fun _ _ _ _ _ hf hr hbook => hbook.after hf hr

/-- The row of a hash, when no two rows share one. -/
theorem find_hash {t : List UserSession} {hash : String} (hn : (t.map UserSession.tokenHash).Nodup) (hs : s ∈ t)
    (hhash : s.tokenHash = hash) : t.find? (fun r => r.tokenHash = hash) = some s := by
  cases hfind : t.find? fun r => r.tokenHash = hash with
  | none => exact absurd hhash (by simpa using List.find?_eq_none.1 hfind s hs)
  | some r =>
    have hr : r.tokenHash = hash := by simpa using List.find?_some hfind
    rw [List.inj_on_of_nodup_map hn (List.mem_of_find?_eq_some hfind) hs (hr.trans hhash.symm)]

/-- A row can be loaded exactly while its session is alive. -/
theorem Told.loadable_iff {o : Opening} (h : Told hist s o) :
    Loadable c s ↔ Alive (c.utcnow 0) o (sinceNewest (openedAs s.tokenHash) hist) := by
  have hidle (ha : c.utcnow 0 < s.absoluteExpiresAt) : c.utcnow 0 < s.idleExpiresAt ↔
      c.utcnow 0 < idleUntil o (sinceNewest (openedAs s.tokenHash) hist) := by
    have hmin := h.idle
    have hleft : c.utcnow 0 < min s.idleExpiresAt s.absoluteExpiresAt ↔ c.utcnow 0 < s.idleExpiresAt := by
      rw [lt_min_iff, and_iff_left ha]
    have hright : c.utcnow 0 < min (idleUntil o (sinceNewest (openedAs s.tokenHash) hist)) s.absoluteExpiresAt ↔
        c.utcnow 0 < idleUntil o (sinceNewest (openedAs s.tokenHash) hist) := by
      rw [lt_min_iff, and_iff_left ha]
    rw [← hleft, hmin, hright]
  have hopen : s.revokedAt = none ↔ ∀ k ∈ sinceNewest (openedAs s.tokenHash) hist, ¬ends k o.id o.user := by
    rw [← not_iff_not, ← ne_eq, h.revoked, h.id, h.user]
    simp only [not_forall, not_not, exists_prop]
  constructor
  · rintro ⟨hr, hi, ha⟩
    exact ⟨h.absolute ▸ ha, (hidle ha).1 hi, hopen.1 hr⟩
  · rintro ⟨ha, hi, he⟩
    rw [← h.absolute] at ha
    exact ⟨hopen.2 he, (hidle ha).2 hi, ha⟩

/-- A token brings a session of the user exactly while a session that was opened under it for this user is
alive: its absolute lifetime has not run out, the idle window of its newest load (or of its opening) has
not, and no request has ended it. -/
theorem load_iff (hv : v.sessions = []) (h : Trail body fits v hist x) (c : Call) (token : String) (user : Uuid) :
    (∃ row x', (loadSession c (some token)).Runs x (some row) x' ∧ row.userId = user) ↔
      token ≠ "" ∧ ∃ o, newestOf (openedAs (c.hashToken token)) hist = some o ∧ o.user = user ∧
        Alive (c.utcnow 0) o (sinceNewest (openedAs (c.hashToken token)) hist) := by
  have hbook := book_of_trail hv h
  constructor
  · rintro ⟨row, x', hload, rfl⟩
    obtain ⟨s, hs, rfl, -⟩ := loadSession_row hload
    obtain ⟨t, ht, hfind⟩ := Option.bind_eq_some_iff.1 hs
    obtain ⟨rfl, hne⟩ : token = t ∧ t ≠ "" := by simpa [Option.filter_eq_some_iff] using ht
    rw [Option.filter_eq_some_iff] at hfind
    have hhash : s.tokenHash = c.hashToken token := by simpa using List.find?_some hfind.1
    obtain ⟨o, ho⟩ := hbook.told s (found_eq_some hs).1
    rw [← hhash]
    exact ⟨hne, o, ho.newest, ho.user, ho.loadable_iff.1 (found_eq_some hs).2⟩
  · rintro ⟨hne, o, ho, rfl, halive⟩
    obtain ⟨k, hk, hopened⟩ := newestOf_mem ho
    obtain ⟨hopening, hhash⟩ := Option.filter_eq_some_iff.1 hopened
    obtain ⟨s, hs, hs'⟩ := hbook.kept k hk o hopening
    rw [of_decide_eq_true hhash] at hs'
    obtain ⟨o', ho'⟩ := hbook.told s hs
    have hsame : o' = o := by
      have hnewest := ho'.newest
      rw [hs', ho] at hnewest
      exact (Option.some.inj hnewest).symm
    subst hsame
    rw [← hs'] at halive
    have hfound : found c x (some token) = some s := by
      unfold found
      rw [Option.filter_some, if_pos (decide_eq_true hne), Option.bind_some, find_hash hbook.hashes hs hs',
        Option.filter_some, if_pos (decide_eq_true (ho'.loadable_iff.2 halive))]
    exact ⟨seenAgain c s, slide c s x, runs_loadSession.2 (by rw [hfound]; exact ⟨rfl, rfl⟩), ho'.user.symm⟩

end Runs

/-! ## A day of user 5 -/

namespace Demo

def call (n : ℕ) (token : String) : Call where
  utcnow _ := minutes n
  uuid4 i := 100 * n + i
  token _ := token

/-- Administrator 7, and user 5. -/
def db : Db where
  users := [{ id := 5, email := "five", passwordHash := some "secret" }, { id := 7, email := "seven" }]
  roleAssignments := [
    { id := 63, userId := 7, roleCode := .superAdmin, scopeType := .installation, effectiveFrom := 0 }]

def login : Op := .login (call 1 "first") id { email := "five", password := "secret" }

def load (n : ℕ) : Op := .load (call n "") (some "first")

def reset : Op := .resetPassword (call 25 "code") 7 5

def run (ops : List Op) : List Entry × Db := Trail.play body fits [] db ops

theorem trail_run (ops : List Op) : Trail body fits db (run ops).1 (run ops).2 := trail_play ops .init

/-- The request resets the password of user 5. -/
def resets : Op → Bool
  | .resetPassword _ _ id => id = 5
  | _ => false

end Demo

/-- The load at minute 20 keeps the session alive beyond minute 31. -/
theorem load_at_45 : ∃ o, newestOf (openedAs "first") (Demo.run [Demo.login, Demo.load 20]).1 = some o ∧ o.user = 5 ∧
    Alive (minutes 45) o (sinceNewest (openedAs "first") (Demo.run [Demo.login, Demo.load 20]).1) := by
  obtain ⟨s, hs, huser⟩ := (Option.any_eq_true ..).1
    (by decide +kernel : (found (Demo.call 45 "") (Demo.run [Demo.login, Demo.load 20]).2 (some "first")).any
      (fun s => s.userId = 5) = true)
  have hload := runs_loadSession (o := some (seenAgain (Demo.call 45 "") s)).2 ⟨by rw [hs]; rfl, rfl⟩
  exact ((load_iff rfl (Demo.trail_run [Demo.login, Demo.load 20]) (Demo.call 45 "") "first" 5).1
    ⟨_, _, hload, of_decide_eq_true huser⟩).2

/-! ## Signed out everywhere -/

/-- The commit ends all sessions that the user has at its start. -/
def endsAllOf (k : Entry) (user : Uuid) : Prop :=
  match k.op, k.result with
  | .totpVerify _ session _, .opened _ => session.userId = user
  | .activate .., .activated user' => user' = user
  | .resetPassword _ _ user', _ => user' = user
  | .resetMfa _ _ user', _ => user' = user
  | .app op, _ => App.expels k.before op user
  | _, _ => False

section Expelled

variable {hist : List Entry} {user : Uuid}

/-- Such a commit leaves the session behind as a revoked row. -/
theorem expelled_row (h : Book hist k.before) (hf : fits hist k.op) (hr : (body k.op).Runs k.before k.result k.after)
    (he : endsAllOf k user) (hs : s ∈ k.before.sessions) (huser : s.userId = user) :
    ∃ s' ∈ k.after.sessions, s'.tokenHash = s.tokenHash ∧ s'.revokedAt ≠ none := by
  obtain ⟨s', hs', hn⟩ := (effect_of_runs h hf hr).next hs
  refine ⟨s', hs', hn.hash, hn.revoked.2 (Or.inr ?_)⟩
  obtain ⟨op, a, x, x'⟩ := k
  cases op with
  | app op =>
    simp only [ends, App.not_bulk he, Bool.false_eq_true, if_false]
    exact huser.symm ▸ he
  | totpVerify | activate => cases a <;> first | exact he.trans huser.symm | cases he
  | resetPassword | resetMfa => exact he.trans huser.symm
  | _ => cases he

/-- A session of a user whom some commit of the run has signed out everywhere can never be loaded again. -/
theorem expelled_never_loads {v : Db} {token : String} {row : UserSession} (hv : v.sessions = [])
    (h : Trail body fits v hist x) (hk : k ∈ hist) (he : endsAllOf k user) (hs : s ∈ k.before.sessions)
    (huser : s.userId = user) (c : Call) (htoken : c.hashToken token = s.tokenHash) :
    ¬(loadSession c (some token)).Runs x (some row) x' := by
  obtain ⟨newer, older, rfl, holder, hf, hr⟩ := h.split hk
  have hstay : ∃ s' ∈ x.sessions, s'.tokenHash = s.tokenHash ∧ s'.revokedAt ≠ none := by
    refine Trail.since (I := fun y => ∃ s' ∈ y.sessions, s'.tokenHash = s.tokenHash ∧ s'.revokedAt ≠ none)
      (fun _ _ _ _ _ hbefore hop hstep hrow => ?_) h
      (expelled_row (book_of_trail hv holder) hf hr he hs huser)
    obtain ⟨r, hr, hhash, hrevoked⟩ := hrow
    obtain ⟨r', hr', hn⟩ := (effect_of_runs (book_of_trail hv hbefore) hop hstep).next hr
    exact ⟨r', hr', hn.hash.trans hhash, hn.revoked.2 (Or.inl hrevoked)⟩
  obtain ⟨s', hs', hhash, hrevoked⟩ := hstay
  intro hload
  obtain ⟨t, ht, -, -⟩ := loadSession_row hload
  obtain ⟨tok, htok, hfind⟩ := Option.bind_eq_some_iff.1 ht
  obtain ⟨rfl, -⟩ : token = tok ∧ tok ≠ "" := by simpa [Option.filter_eq_some_iff] using htok
  rw [find_hash (book_of_trail hv h).hashes hs' (hhash.trans htoken.symm)] at hfind
  obtain rfl : s' = t := Option.some.inj (Option.filter_eq_some_iff.1 hfind).1
  exact hrevoked (found_eq_some ht).2.1

theorem Demo.endsAllOf_of_resets (h : Demo.resets k.op = true) : endsAllOf k 5 := by
  obtain ⟨op, a, y, y'⟩ := k
  cases op with
  | resetPassword c actor id => exact (of_decide_eq_true h : id = 5)
  | _ => cases h

/-- After the reset of the password the token of user 5 is worth nothing. -/
theorem token_after_reset : ¬∃ row x', (loadSession (Demo.call 26 "") (some "first")).Runs
    (Demo.run [Demo.login, Demo.load 20, Demo.reset]).2 (some row) x' := by
  rintro ⟨row, x', hload⟩
  obtain ⟨k, hk, hat⟩ := List.any_eq_true.1
    (by decide +kernel : (Demo.run [Demo.login, Demo.load 20, Demo.reset]).1.any (fun k => Demo.resets k.op &&
      k.before.sessions.any fun s => s.userId = 5 && s.tokenHash = "first") = true)
  rw [Bool.and_eq_true, List.any_eq_true] at hat
  obtain ⟨hreset, s, hs, hat⟩ := hat
  rw [Bool.and_eq_true, decide_eq_true_eq, decide_eq_true_eq] at hat
  exact expelled_never_loads rfl (Demo.trail_run _) hk (Demo.endsAllOf_of_resets hreset) hs hat.1 (Demo.call 26 "")
    hat.2.symm hload

end Expelled

end OmniDB.Sessions
