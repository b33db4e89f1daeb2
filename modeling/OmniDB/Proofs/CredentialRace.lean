import OmniDB.Proofs.People
import OmniDB.Proofs.Queue
import OmniDB.Proofs.Statements
import OmniDB.Spec.Auth
import OmniDB.Tx.Guarded

/-! Credential operations that race with activation and disablement. A request loads its
target before it locks it, and checks the copy it loaded: where the target is still eligible
when the lock is granted, the check is one of the locked row. -/

namespace OmniDB.CredentialRace

open Tx
open Tx.Prog

inductive Op where
  | issueCode (c : Call) (actor id : Uuid)
  | resetPassword (c : Call) (actor id : Uuid)
  | resetMfa (c : Call) (actor id : Uuid)
  | disableUser (c : Call) (actor id : Uuid) (reason : String)
  | reactivateUser (c : Call) (actor id : Uuid) (reason : String)
  | activate (c : Call) (lower : String → String) (token newPassword : String)

def body : Op → Txn Unit
  | .issueCode c actor id => Auth.Request.issueActivationCode c actor id
  | .resetPassword c actor id => Auth.Request.resetPassword c actor id
  | .resetMfa c actor id => Auth.Request.resetMfa c actor id
  | .disableUser c actor id reason => Workforce.Request.disableUser c actor id reason
  | .reactivateUser c actor id reason => Workforce.Request.reactivateUser c actor id reason
  | .activate c lower token newPassword => (fun _ => ()) <$> Auth.Request.activate c lower token newPassword

/-- The user whose credentials the operation changes. -/
def Op.target : Op → Option Uuid
  | .issueCode _ _ id | .resetPassword _ _ id | .resetMfa _ _ id => some id
  | .disableUser .. | .reactivateUser .. | .activate .. => none

/-- The account is in a state where the operation is allowed. -/
def Op.eligible : Op → User → Bool
  | .issueCode .., u => u.active && u.passwordHash.isNone
  | _, u => u.active

/-- The user as a request has loaded it. -/
def loaded (id : Uuid) (log : Log Db) : List User :=
  log.filterMap fun e => if e.1 = "user" then Table.find e.2.users id else none

/-- If the user was eligible when it was loaded, it still is in `x`. -/
def remains (op : Op) (id : Uuid) (log : Log Db) (x : Db) : Bool :=
  (loaded id log).all fun u => !op.eligible u || (Table.find x.users id).any op.eligible

/-- A request that loaded its target as eligible gets the lock on it only while it still is. -/
def stillEligible (s : System Db LockKey Err Unit Op) (i : ℕ) : Event LockKey Err Unit Op → Bool
  | .granted k => (s.threads i).all fun t => t.op.target.all fun id =>
      k ≠ .user id || remains t.op id t.log s.committed
  | _ => true

/-- The request read its target under the row lock, it was eligible there, and the committed
row is still that one. -/
def Checked (op : Op) (id : Uuid) (log : Log Db) (x : Db) : Prop :=
  ∃ w u, ("lock user (locked)", w) ∈ log ∧ Table.find w.users id = some u ∧ Table.find x.users id = some u ∧
    op.eligible u = true

/-- The row lock of a user guards its row. -/
def locks : Discipline Db LockKey where
  grows _ _ := True
  same k x x' := ∀ id, k = .user id → Table.find x'.users id = Table.find x.users id
  grows_refl _ := trivial
  grows_trans _ _ _ _ _ := trivial
  same_refl _ _ _ _ := rfl
  same_trans _ _ _ _ h h' id hk := (h' id hk).trans (h id hk)

def protocol : Protocol Db LockKey Err Unit Op where
  body := body
  inv _ := True
  rely l := locks.Frame l.held
  guar l x x' := locks.Within l.held x x' ∧ ∀ id, l.op.target = some id → Checked l.op id l.log x
  granted l k x := ∀ id, l.op.target = some id → k = .user id → remains l.op id l.log x = true

instance : protocol.Respects locks fun _ => True := ⟨fun _ _ _ h => h, fun _ _ => trivial⟩

section Bodies

variable {α : Type} {l : Stand Db LockKey Op} {s : Db}

instance (priority := low) minds_of_leaves {p : Txn α} [Leaves Db.users p] : Minds locks p :=
  .of_leaves (π := Db.users) fun s s' h => ⟨trivial, fun _ _ _ => by rw [h]⟩

instance (u : User) (f : User → User) : Minds locks (Workforce.flushUser u f) := by
  unfold Workforce.flushUser
  have : Minds locks (Workforce.setUser u.id (Workforce.User.merge u (f u))) :=
    .locked fun s => ⟨trivial, fun k hk id hid =>
      Table.find_modify_ne (fun _ h => h) fun h => hk (hid.trans (congrArg LockKey.user h))⟩
  infer_instance

instance (e : AuditEvent) : Leaves Db.users (recordAudit e) := .update fun _ => rfl

instance (id : Uuid) (f : UserSession → UserSession) : Leaves Db.users (Authz.setSession id f) :=
  .then inferInstance fun _ => .update fun _ => rfl

instance (now : Time) (user : Uuid) : Leaves Db.users (Authz.revokeAllForUser now user) := by
  unfold Authz.revokeAllForUser; infer_instance

instance (id : Uuid) (f : ActivationToken → ActivationToken) :
    Leaves Db.users (Workforce.setActivationToken id f) :=
  .then inferInstance fun _ => .update fun _ => rfl

instance (c : Call) (user actor : Uuid) : Leaves Db.users (Workforce.issueActivationToken c user actor) := by
  have insert (t : ActivationToken) : Leaves Db.users
      (insertRow "activation_tokens" .activationToken Db.activationTokens
        (fun t db => { db with activationTokens := db.activationTokens ++ [t] }) t) :=
    leaves_insertRow fun _ => rfl
  unfold Workforce.issueActivationToken
  exact .then inferInstance fun _ => .then inferInstance fun _ => .then inferInstance fun _ =>
    .then inferInstance fun _ => .then (insert _) fun _ => inferInstance

instance (c : Call) (agent : Uuid) : Leaves Db.users (Work.reclaimLeasesForUser c agent) :=
  Leaves.part (π := Db.people) People.users

instance (now : Time) (actor id : Uuid) : Leaves Db.users (Auth.Request.loadTarget now actor id) := by
  unfold Auth.Request.loadTarget; infer_instance

instance (c : Call) (token : String) : Leaves Db.users (Auth.consumeActivationToken c token) := by
  unfold Auth.consumeActivationToken
  repeat' first | infer_instance | split | refine .then inferInstance fun _ => ?_

instance (c : Call) (token password : String) : Minds locks (Auth.activateUserPassword c token password) := by
  unfold Auth.activateUserPassword
  repeat' first | infer_instance | split | refine .then inferInstance fun _ => ?_

instance (c : Call) (lower : String → String) (token password : String) :
    Minds locks (Auth.Request.activate c lower token password) := by
  unfold Auth.Request.activate
  repeat' first | infer_instance | split | refine .then inferInstance fun _ => ?_

instance (c : Call) (actor id : Uuid) (reason : String) :
    Minds locks (Workforce.Request.disableUser c actor id reason) := by
  unfold Workforce.Request.disableUser Workforce.disableUser Workforce.loadUser Workforce.requireCanManage
    Workforce.assertNotSelf
  infer_instance

instance (c : Call) (actor id : Uuid) (reason : String) :
    Minds locks (Workforce.Request.reactivateUser c actor id reason) := by
  unfold Workforce.Request.reactivateUser Workforce.reactivateUser Workforce.loadUser Workforce.requireCanManage
  infer_instance

/-- The target as the request has loaded it. -/
theorem wp_loadTarget {now : Time} {actor id : Uuid} {Q : User → Protocol.Assertion Db LockKey Op}
    (h : ∀ l' s' u, l.Onward l' → u ∈ loaded id l'.log → u.id = id → Q u l' (fun x => x) s') :
    protocol.wp (Auth.Request.loadTarget now actor id) Q l (fun x => x) s := by
  unfold Auth.Request.loadTarget getRow
  simp only [Protocol.wp_bind, Protocol.wp_view, Protocol.wp_raiseIf, Protocol.wp_pure, Protocol.wp_expect]
  intro s₁ _ _ s₂ _ u hu _
  refine h _ _ _ ((l.onward_saw ..).trans (Stand.onward_saw ..)) ?_ (Table.key_of_find hu)
  exact List.mem_filterMap.2 ⟨_, List.mem_cons_self, (if_pos rfl).trans hu⟩

/-- Under the lock the request goes on with the copy that it loaded; if that was eligible,
so is the locked row. -/
theorem wp_lockUser {id : Uuid} {u : User} {Q : User → Protocol.Assertion Db LockKey Op}
    (hop : l.op.target = some id) (hu : u ∈ loaded id l.log) (hid : u.id = id)
    (h : ∀ l' s', l.Onward l' → l'.held (.user id) → (l.op.eligible u = true → Checked l.op id l'.log s') →
      Q u l' (fun x => x) s') :
    protocol.wp (Auth.lockUser u) Q l (fun x => x) s := by
  subst hid
  unfold Auth.lockUser
  rw [Protocol.wp_bind]
  refine wp_forUpdate_granted (D := locks) (I := fun _ => True) (fun l' s' _ _ _ => ?_)
    fun l₁ l' s₁ s' r hl₁ hl hg hlog _ hf' _ hr _ => ?_
  · rw [Protocol.wp_bind, Protocol.wp_expect]
    intro r hr
    cases hr
  rw [Protocol.wp_bind, Protocol.wp_expect]
  intro r' hr'
  cases hr'
  rw [Protocol.wp_pure]
  have hmap : Imports.identityMap (some u) r = u := if_pos (Table.key_of_find hr).symm
  rw [hmap]
  have hop₁ : l₁.op = l.op := hl₁.op
  refine h l' s' ((hl₁.trans (l₁.onward_take _)).trans hl) (hl.held _ (Or.inl rfl)) fun helig => ?_
  have hrem : remains l₁.op u.id l₁.log s₁ = true := hg u.id (hop₁ ▸ hop) rfl
  have hin : u ∈ loaded u.id l₁.log := by
    obtain ⟨e, he, heq⟩ := List.mem_filterMap.1 hu
    exact List.mem_filterMap.2 ⟨e, hl₁.log e he, heq⟩
  have hany := List.all_eq_true.1 hrem u hin
  rw [hop₁, helig, Bool.not_true, Bool.false_or] at hany
  obtain ⟨row, hrow, helig'⟩ := (Option.any_eq_true ..).1 hany
  have hsame : Table.find s'.users u.id = Table.find s₁.users u.id := hf'.same _ (Or.inl rfl) u.id rfl
  exact ⟨s', row, hlog, hsame.trans hrow, hsame.trans hrow, helig'⟩

/-- What has to hold when a request commits. -/
abbrev commits (_ : α) : Protocol.Assertion Db LockKey Op := fun l p s =>
  ∀ x, locks.Frame l.held s x → locks.Within l.held x (p x) ∧ ∀ id, l.op.target = some id → Checked l.op id l.log x

/-- The rest of a credential request, once the check is done. -/
theorem wp_checked (y : Txn α) [Minds locks y] {id : Uuid} (hop : l.op.target = some id)
    (hheld : l.held (.user id)) (h : Checked l.op id l.log s) : protocol.wp y commits l (fun x => x) s := by
  refine Protocol.wp_mono _ (fun _ l' p' s' h' x hx => ⟨h'.2.1 x, fun id' hid' => ?_⟩) _ _ _
    (Protocol.wp_minds (D := locks) (I := fun _ => True) y l _ s fun _ => .refl)
  obtain ⟨hl, -, hf⟩ := h'
  rw [hl.op] at hid' ⊢
  obtain rfl : id = id' := Option.some.inj (hop.symm.trans hid')
  obtain ⟨w, u, hw, hu, hs, helig⟩ := h
  have hsame : Table.find x.users id = Table.find s.users id :=
    (hx.same _ (hl.held _ hheld) id rfl).trans (hf.same _ hheld id rfl)
  exact ⟨w, u, hl.log _ hw, hu, hsame.trans hs, helig⟩

/-- A credential request: what is left to show is that its check implies that the target is
eligible. -/
theorem wp_credential {now : Time} {actor id : Uuid} {f : User → Txn α} (hop : l.op.target = some id)
    (h : ∀ l' s' u, l'.op = l.op → l'.held (.user id) → (l.op.eligible u = true → Checked l'.op id l'.log s') →
      protocol.wp (f u) commits l' (fun x => x) s') :
    protocol.wp (do let target ← Auth.Request.loadTarget now actor id; let locked ← Auth.lockUser target; f locked)
      commits l (fun x => x) s := by
  rw [Protocol.wp_bind]
  refine wp_loadTarget fun l₁ s₁ u hl₁ hu hid => ?_
  rw [Protocol.wp_bind]
  refine wp_lockUser (by rw [hl₁.op, hop]) hu hid fun l₂ s₂ hl₂ hheld hc => ?_
  refine h l₂ s₂ u (hl₂.op.trans hl₁.op) hheld fun helig => ?_
  rw [hl₂.op]
  exact hc (by rw [hl₁.op, helig])

/-- A request without a target only has to mind the locks. -/
theorem wp_untargeted (y : Txn α) [Minds locks y] (hop : l.op.target = none) :
    protocol.wp y commits l (fun x => x) s := by
  refine Protocol.wp_mono _ (fun _ l' p' s' h' x _ => ⟨h'.2.1 x, fun id hid => ?_⟩) _ _ _
    (Protocol.wp_minds (D := locks) (I := fun _ => True) y l _ s fun _ => .refl)
  rw [h'.1.op, hop] at hid
  cases hid

end Bodies

theorem body_effect (op : Op) (s : Db) : protocol.wp (body op) commits { op := op } (fun x => x) s := by
  cases op with
  | issueCode c actor id =>
    unfold body Auth.Request.issueActivationCode Auth.issueOrReplaceActivationCode
    simp only [bind_assoc]
    refine wp_credential rfl fun l s u hop hheld hc => ?_
    rw [Protocol.wp_bind, Protocol.wp_raiseIf]
    intro hactive
    rw [Protocol.wp_bind, Protocol.wp_raiseIf]
    intro hfresh
    have helig : (u.active && u.passwordHash.isNone) = true := by simp_all
    exact wp_checked _ (by rw [hop]; rfl) hheld (hc helig)
  | resetPassword c actor id =>
    unfold body Auth.Request.resetPassword Auth.resetPassword
    simp only [bind_assoc]
    refine wp_credential rfl fun l s u hop hheld hc => ?_
    rw [Protocol.wp_bind, Protocol.wp_raiseIf]
    intro hactive
    have helig : u.active = true := by simpa using hactive
    exact wp_checked _ (by rw [hop]; rfl) hheld (hc helig)
  | resetMfa c actor id =>
    unfold body Auth.Request.resetMfa Auth.resetMfa
    refine wp_credential rfl fun l s u hop hheld hc => ?_
    rw [Protocol.wp_bind, Protocol.wp_raiseIf]
    intro hactive
    have helig : u.active = true := by simpa using hactive
    exact wp_checked _ (by rw [hop]; rfl) hheld (hc helig)
  | disableUser c actor id reason => exact wp_untargeted (Workforce.Request.disableUser c actor id reason) rfl
  | reactivateUser c actor id reason => exact wp_untargeted (Workforce.Request.reactivateUser c actor id reason) rfl
  | activate c lower token newPassword =>
    exact wp_untargeted ((fun _ => ()) <$> Auth.Request.activate c lower token newPassword) rfl

theorem protocol_valid : protocol.Valid fun s i e => stillEligible s i e = true where
  rely_refl _ _ := .refl
  rely_trans _ _ _ _ h h' := h.trans h'
  start op s _ := Protocol.wp_mono _ (fun _ _ _ _ h x hx => ⟨h x hx.1, trivial, trivial⟩) _ _ _ (body_effect op s)
  granted s i t k ht hok id hid hk := by
    simp only [stillEligible, ht, Option.all_some, hid, decide_not, Bool.or_eq_true, Bool.not_eq_true',
      decide_eq_false_iff_not] at hok
    exact hok.resolve_left fun h => h hk
  refused _ _ _ _ _ _ _ := trivial
  compat s _ _ _ _ _ hij _ _ _ _ hg := hg.1.frame fun _ hj hi => System.held_disjoint s hij hi hj

variable {v : Db} {s s' : System Db LockKey Err Unit Op}

/-- In a run where every request that loaded its target as eligible gets the lock on it while
it still is, a credential operation takes effect only on a target that was eligible when its
row lock was granted, and is so at the commit. -/
theorem eligibility_under_lock
    (hr : System.Reaches body (fun s i e => stillEligible s i e = true) { committed := v } s)
    {i : ℕ} {op : Op} {id : Uuid} (hop : op.target = some id)
    (hs : System.Step body s i (.committed op ()) s') :
    ∃ t, s.threads i = some t ∧ Checked op id t.log s.committed := by
  obtain ⟨⟨-, he⟩, -⟩ := Protocol.commit_of_reaches protocol_valid trivial hr hs
  cases hs with
  | run ha =>
    obtain ⟨t, ht, -, -, -⟩ := System.advance_committed ha
    refine ⟨t, ht, ?_⟩
    simpa [ht] using he id hop

/-! ## An account that is activated meanwhile -/

namespace Demo

/-- Administrator 7, and user 5 with an activation code that was not used yet. -/
def db : Db where
  users := [{ id := 5, email := "five" }, { id := 7, email := "seven", passwordHash := some "secret" }]
  roleAssignments := [
    { id := 63, userId := 7, roleCode := .superAdmin, scopeType := .installation, effectiveFrom := 0 }]
  activationTokens := [{ id := 70, userId := 5, tokenHash := "code", expiresAt := hours 24 }]

def issue (n : ℕ) : Op := .issueCode (Queue.Demo.call n) 7 5

def activate (n : ℕ) : Op := .activate (Queue.Demo.call n) id "code" "a password of five"

/-- The schedule of one request in slot `i`, `n` steps long. -/
def turns (i : ℕ) (op : Op) (n : ℕ) : List (System.Turn Op) := .start i op :: List.replicate n (.next i)

def run (schedule : List (System.Turn Op)) : System Db LockKey Err Unit Op :=
  System.play body { committed := db } schedule

/-- The request for a new code loads the user, is overtaken by the activation, and goes on up
to its last step. -/
def overtaken : List (System.Turn Op) :=
  turns 1 (issue 1) 2 ++ turns 2 (activate 2) 30 ++ List.replicate 12 (.next 1)

/-- The activation starts first and waits for the request for a new code. -/
def waiting : List (System.Turn Op) := turns 2 (activate 2) 2 ++ turns 1 (issue 1) 16 ++ [.next 2]

/-- The request issues a code for user 5. -/
def issues : Op → Bool
  | .issueCode _ _ id => id = 5
  | _ => false

theorem eq_of_issues {op : Op} (h : issues op = true) : ∃ c actor, op = .issueCode c actor 5 := by
  cases op with
  | issueCode c actor id => exact ⟨c, actor, by rw [of_decide_eq_true h]⟩
  | _ => cases h

end Demo

theorem eligibility_under_lock_waiting :
    ∃ t, (Demo.run Demo.waiting).threads 1 = some t ∧ Checked t.op 5 t.log (Demo.run Demo.waiting).committed := by
  obtain ⟨t, _, ht, hop, hstep⟩ := System.step_of_ready body
    (by decide +kernel : (Demo.run Demo.waiting).ready 1 (fun op _ => Demo.issues op) = true)
  obtain ⟨c, actor, hop⟩ := Demo.eq_of_issues hop
  obtain ⟨t', ht', hc⟩ := eligibility_under_lock (System.reaches_of_permits Demo.waiting _
    (by decide +kernel : System.permits body stillEligible { committed := Demo.db } _ = true))
    (by rw [hop]; rfl) hstep
  obtain rfl : t = t' := Option.some.inj (ht.symm.trans ht')
  exact ⟨t, ht, hc⟩

/-- The account is activated after the request has loaded it and before the request gets its
row lock; the request gives it a fresh code. -/
theorem code_for_activated_account :
    ∃ s c actor t s', System.Reaches body System.Any { committed := Demo.db } s ∧
      System.Step body s 1 (.committed (.issueCode c actor 5) ()) s' ∧ s.threads 1 = some t ∧
      (∃ w, ("lock user (locked)", w) ∈ t.log ∧
        (Table.find w.users 5).map User.passwordHash = some (some "a password of five")) ∧
      (Table.find s'.committed.users 5).map User.passwordHash = some (some "a password of five") ∧
      s'.committed.activationTokens.any (fun token => token.userId = 5 && token.usedAt.isNone) = true := by
  obtain ⟨t, _, ht, hop, hstep⟩ := System.step_of_ready body
    (by decide +kernel : (Demo.run Demo.overtaken).ready 1 (fun op _ => Demo.issues op) = true)
  obtain ⟨c, actor, hop⟩ := Demo.eq_of_issues hop
  have hlog : ((Demo.run Demo.overtaken).threads 1).all (fun t => t.log.any fun e => e.1 = "lock user (locked)" &&
      (Table.find e.2.users 5).map User.passwordHash = some (some "a password of five")) = true := by
    decide +kernel
  have hend : ((Demo.run Demo.overtaken).threads 1).all (fun t =>
      (Table.find (t.pending (Demo.run Demo.overtaken).committed).users 5).map User.passwordHash =
        some (some "a password of five") &&
      (t.pending (Demo.run Demo.overtaken).committed).activationTokens.any fun token =>
        token.userId = 5 && token.usedAt.isNone) = true := by
    decide +kernel
  rw [ht, Option.all_some] at hlog hend
  rw [Bool.and_eq_true] at hend
  obtain ⟨⟨n, w⟩, hw, he⟩ := List.any_eq_true.1 hlog
  rw [Bool.and_eq_true] at he
  obtain rfl : n = "lock user (locked)" := of_decide_eq_true he.1
  exact ⟨_, c, actor, t, _, System.reaches_play .., hop ▸ hstep, ht, ⟨w, hw, of_decide_eq_true he.2⟩,
    of_decide_eq_true hend.1, hend.2⟩

end OmniDB.CredentialRace
