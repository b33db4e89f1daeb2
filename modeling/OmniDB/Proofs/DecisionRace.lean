import OmniDB.Proofs.People
import OmniDB.Proofs.Queue
import OmniDB.Proofs.Statements

/-! Decisions on a campaign import that race with each other and with its commit. A request
loads the job before it locks it, and goes on with the version it loaded: where that is
still the version of the job, no decision is lost. -/

namespace OmniDB.DecisionRace

open Tx
open Tx.Prog

/-- The requests on one import job. -/
inductive Op where
  | decide (c : Call) (user : Uuid) (decision : Decision) (note : Option String)
  | commit (c : Call) (user : Uuid) (decisionVersion : ℤ) (idempotencyKey : String)

inductive Result where
  | decided
  | imported (res : ImportResult)

def body (job : Uuid) : Op → Txn Result
  | .decide c user decision note => (fun _ => .decided) <$> Service.decideImport c user job decision note
  | .commit c user version key => Result.imported <$> Imports.commitImport c ⟨job, user, version, key⟩

def Op.commits : Op → Bool
  | .decide .. => false
  | .commit .. => true

def decisionsOf (x : Db) (job : Uuid) : List ImportDecision :=
  x.importDecisions.filter fun d => d.importJobId = job

def versionOf (x : Db) (job : Uuid) : Option ℤ :=
  (Table.find x.importJobs job).map ImportJob.decisionVersion

/-- The decisions carry the versions `1..n` in the order they were recorded, and the job is at `n`. -/
structure Sequenced (job : Uuid) (x : Db) : Prop where
  versions : (decisionsOf x job).map ImportDecision.decisionVersion =
    (List.range (decisionsOf x job).length).map fun k : ℕ => (k : ℤ) + 1
  version : ∀ n, versionOf x job = some n → n = (decisionsOf x job).length

instance (job : Uuid) (x : Db) : Decidable (Sequenced job x) :=
  decidable_of_iff (_ ∧ (versionOf x job).all fun n => n = ((decisionsOf x job).length : ℤ))
    ⟨fun h => ⟨h.1, by simpa [Option.all_eq_true] using h.2⟩,
      fun h => ⟨h.versions, by simpa [Option.all_eq_true] using h.version⟩⟩

/-- The decision with the greatest version. -/
def Newest (job : Uuid) (x : Db) (d : ImportDecision) : Prop :=
  d ∈ decisionsOf x job ∧ ∀ d' ∈ decisionsOf x job, d'.decisionVersion ≤ d.decisionVersion

/-- The version of every job that request `i` has loaded is that of the job; where it is a
`commit` it may also have found the job committed. -/
def current (job : Uuid) (s : System Db LockKey Err Result Op) (i : ℕ) (commits : Bool) : Bool :=
  (s.threads i).all fun t => t.log.all fun e => e.1 ≠ "import job" ||
    (Table.find e.2.importJobs job).all fun j =>
      (commits && j.state = .committed) || versionOf s.committed job = some j.decisionVersion

/-- At its commit a request still has the version of the job, unless it repeats the commit of
a job it found committed. -/
def upToDate (job : Uuid) (s : System Db LockKey Err Result Op) (i : ℕ) :
    Event LockKey Err Result Op → Bool
  | .committed op _ => current job s i op.commits
  | _ => true

/-- The job a request has loaded, as it was then. -/
def Loaded (job : Uuid) (log : Log Db) (j : ImportJob) : Prop :=
  ∃ v, ("import job", v) ∈ log ∧ Table.find v.importJobs job = some j

/-- A commit request that has seen `log` found the job committed and changes nothing, or it
commits the job under its newest decision, which is an approval of this version and was the
newest one when the request got the row lock of the job. -/
def CommitsNewest (job : Uuid) (version : ℤ) (log : Log Db) (x x' : Db) : Prop :=
  (∃ j, Loaded job log j ∧ j.state = .committed ∧ x' = x) ∨
    ∃ w d, ("import_job for update (locked)", w) ∈ log ∧ Newest job w d ∧ Newest job x d ∧
      d.decisionVersion = version ∧ d.decision = .approve

/-! ## What the commits do -/

/-- The part of the state that a commit of the import leaves alone. -/
def decided (x : Db) : List ImportDecision × List (Uuid × ℤ) :=
  (x.importDecisions, x.importJobs.map fun j => (j.id, j.decisionVersion))

theorem versionOf_congr {x x' : Db} (h : decided x' = decided x) (job : Uuid) : versionOf x' job = versionOf x job := by
  have key (t : List ImportJob) : (Table.find t job).map ImportJob.decisionVersion =
      ((t.map fun j => (j.id, j.decisionVersion)).find? fun e => e.1 = job).map Prod.snd := by
    rw [List.find?_map, Option.map_map]
    rfl
  have hjobs : x'.importJobs.map (fun j => (j.id, j.decisionVersion)) =
      x.importJobs.map fun j => (j.id, j.decisionVersion) := congrArg Prod.snd h
  unfold versionOf
  rw [key, key, hjobs]

/-- The locks of the two requests: the decisions of a job are recorded under its row lock. -/
def locks : Discipline Db LockKey where
  grows x x' := x.importDecisions <+: x'.importDecisions
  same k x x' := ∀ job, k = .importJob job → decisionsOf x' job = decisionsOf x job
  grows_refl _ := List.prefix_rfl
  grows_trans _ _ _ := List.IsPrefix.trans
  same_refl _ _ _ _ := rfl
  same_trans _ _ _ _ h h' job hk := (h' job hk).trans (h job hk)

/-- What the commit of a request does, `l` being its locks and what it has seen. -/
def Op.Effect (job : Uuid) (l : Stand Db LockKey Op) (x x' : Db) : Op → Prop
  | .decide _ _ decision _ => ∃ j d, Loaded job l.log j ∧ x'.importDecisions = x.importDecisions ++ [d] ∧
      d.importJobId = job ∧ d.decisionVersion = j.decisionVersion + 1 ∧ d.decision = decision ∧
      versionOf x' job = (versionOf x job).map fun _ => j.decisionVersion + 1
  | .commit _ _ version _ => decided x' = decided x ∧ ∃ j, Loaded job l.log j ∧
      (j.state = .committed ∧ x' = x ∨ j.state ≠ .committed ∧
        j.decisionVersion = version ∧ ∃ w d, ("import_job for update (locked)", w) ∈ l.log ∧
          decisionsOf w job = decisionsOf x job ∧ d ∈ decisionsOf x job ∧ d.decisionVersion = version ∧
          d.decision = .approve)

/-- The two requests under these locks. -/
def protocol (job : Uuid) : Protocol Db LockKey Err Result Op where
  body := body job
  inv _ := True
  rely l := locks.Frame l.held
  guar l x x' := locks.Within l.held x x' ∧ l.op.Effect job l x x'

instance (job : Uuid) : (protocol job).Respects locks fun _ => True := ⟨fun _ _ _ h => h, fun _ _ => trivial⟩

section Bodies

variable {job : Uuid} {l : Stand Db LockKey Op} {s : Db}

instance {τ : Type} {π : Db → τ} (now : Time) (user id : Uuid) (cap : Capability) :
    Leaves π (Service.loadCampaign now user id cap) := by
  unfold Service.loadCampaign Service.requireCampaignCapability; infer_instance

theorem decide_effect (c : Call) (user : Uuid) (decision : Decision) (note : Option String)
    (hl : l.op = .decide c user decision note) :
    (protocol job).wp (Service.decideImport c user job decision note)
      (fun _ l p s => ∀ x, locks.Frame l.held s x → locks.Within l.held x (p x) ∧ l.op.Effect job l x (p x))
      l id s := by
  unfold Service.decideImport getRow
  simp only [Protocol.wp_bind, Protocol.wp_view, Protocol.wp_pure, Protocol.wp_expect]
  intro s₁ _ j hj
  refine Protocol.wp_mono _ ?_ _ _ _
    (Protocol.wp_leaves (D := locks) (I := fun _ => True) (π := id) _ _ _ _ fun _ => rfl)
  intro _ l₂ p₂ s₂ h₂
  obtain ⟨hl₂, hp₂, -⟩ := h₂
  obtain rfl : p₂ = id := funext hp₂
  unfold Imports.recordDecision Imports.setImportJob recordAudit
  simp only [Protocol.wp_bind, Protocol.wp_acquire, Protocol.wp_update, Protocol.wp_pure]
  intro s₃ _ _ x _
  have hid : j.id = job := Table.key_of_find hj
  have hloaded : Loaded job (l₂.take (.importJob j.id)).log j :=
    ⟨s₁, hl₂.log _ List.mem_cons_self, hj⟩
  refine ⟨⟨List.prefix_append .., fun k hk job' hk' => ?_⟩, ?_⟩
  · subst hk'
    have hne : j.id ≠ job' := fun h => hk (h ▸ held_take _)
    change (x.importDecisions ++ [_]).filter _ = _
    rw [List.filter_append, List.filter_cons_of_neg (by simpa using hne), List.filter_nil, List.append_nil]
    rfl
  · rw [show (l₂.take (LockKey.importJob j.id)).op = _ from hl₂.op.trans hl]
    refine ⟨j, _, hloaded, rfl, hid, rfl, rfl, ?_⟩
    change (Table.find (Table.modify x.importJobs j.id _) job).map _ = ((Table.find x.importJobs job).map _).map _
    rw [Table.find_modify, if_pos hid.symm, Option.map_map, Option.map_map]
    · rfl
    · exact fun _ h => h

theorem leaves_setImportJob {f : ImportJob → ImportJob} (id : Uuid)
    (hf : ∀ j, (f j).id = j.id ∧ (f j).decisionVersion = j.decisionVersion) :
    Leaves decided (Imports.setImportJob id f) := by
  refine .then inferInstance fun _ => .update fun x => ?_
  refine Prod.ext rfl ?_
  change (Table.modify x.importJobs id f).map _ = _
  unfold Table.modify
  rw [List.map_map]
  refine List.map_congr_left fun j _ => ?_
  by_cases hj : key j = id
  · simp [hj, hf]
  · simp [hj]

instance (e : AuditEvent) : Leaves decided (recordAudit e) := .update fun _ => rfl

instance (k : Contact) : Leaves decided (Imports.insertContact k) := leaves_insertRow fun _ => rfl

instance (cc : CampaignContact) : Leaves decided (Imports.insertCampaignContact cc) :=
  leaves_insertRow fun _ => rfl

instance (w : WorkItem) : Leaves decided (Imports.insertWorkItem w) := leaves_insertRow fun _ => rfl

instance (c : Call) (campaign : Uuid) (phone : Fingerprint) (ciphertext : String) (n : ℕ) :
    Leaves decided (Imports.rowContact c campaign phone ciphertext n) := by
  unfold Imports.rowContact
  repeat' first | infer_instance | split | refine .then inferInstance fun _ => ?_

instance (c : Call) (campaign : Uuid) (now : Time) (acc : Imports.Inserted) (row : ImportRow) :
    Leaves decided (Imports.commitRow c campaign now acc row) := by
  unfold Imports.commitRow
  dsimp only
  repeat' first | infer_instance | split | refine .then inferInstance fun _ => ?_

theorem commit_effect (c : Call) (user : Uuid) (version : ℤ) (idem : String)
    (hl : l.op = .commit c user version idem) :
    (protocol job).wp (Imports.commitImport c ⟨job, user, version, idem⟩)
      (fun _ l p s => ∀ x, locks.Frame l.held s x → locks.Within l.held x (p x) ∧ l.op.Effect job l x (p x))
      l id s := by
  unfold Imports.commitImport
  rw [Protocol.wp_bind]
  refine wp_readRow (D := locks) (I := fun _ => True) fun s₁ _ _ => ?_
  rw [Protocol.wp_bind, Protocol.wp_expect]
  intro j hj
  rw [Protocol.wp_bind]
  refine wp_readRow (D := locks) (I := fun _ => True) fun s₂ _ _ => ?_
  simp only [Protocol.wp_bind, Protocol.wp_expect, Protocol.wp_view, Protocol.wp_raiseIf]
  intro campaign _ s₃ _ _
  unfold Imports.commitJob
  refine wp_expectLocked (D := locks) (I := fun _ => True) fun l₄ s₄ row hl₄ hk₄ hlog₄ _ _ hrow _ => ?_
  have hkey : key j = key row := (Table.key_of_find hj).trans (Table.key_of_find hrow).symm
  have hmap : Imports.identityMap (some j) row = j := if_pos hkey
  have hloaded : Loaded job l₄.log j :=
    ⟨s₁, hl₄.log _ (List.mem_cons_of_mem _ (List.mem_cons_of_mem _ List.mem_cons_self)), hj⟩
  dsimp only
  rw [hmap]
  split_ifs with hst
  · simp only [Protocol.wp_bind, Protocol.wp_raiseIf, Protocol.wp_pure]
    intro _ x _
    rw [show l₄.op = _ from hl₄.op.trans hl]
    exact ⟨.refl, rfl, j, hloaded, Or.inl ⟨hst, rfl⟩⟩
  rw [Protocol.wp_bind, Protocol.wp_raiseIf]
  intro _
  rw [Protocol.wp_bind, Protocol.wp_raiseIf]
  intro hversion
  unfold Imports.commitParsed
  rw [Protocol.wp_bind, Protocol.wp_view]
  intro s₅ hs₅
  rw [Protocol.wp_bind, Protocol.wp_raiseIf]
  intro happroved
  obtain ⟨d, hd, ha⟩ := Option.map_eq_some_iff.1 (not_not.1 happroved)
  refine Protocol.wp_mono _ ?_ _ _ _
    (@Protocol.wp_leaves _ _ _ _ _ _ _ locks (fun _ => True) _ _ decided _ ?_ _ _ _ fun _ => rfl)
  · intro _ l' p' s' h' x hx
    obtain ⟨hl', hp', hf⟩ := h'
    have hkeeps : decided (p' x) = decided x := hp' x
    have hdec : (p' x).importDecisions = x.importDecisions := congrArg Prod.fst hkeeps
    have hk' : l'.held (.importJob job) := hl'.held _ hk₄
    have hsame : decisionsOf x job = decisionsOf s₅ job :=
      (hx.same _ hk' job rfl).trans (hf.same _ hk₄ job rfl)
    have hsame₄ : decisionsOf s₅ job = decisionsOf s₄ job := hs₅.1.same _ hk₄ job rfl
    obtain ⟨hmem, hid, hv⟩ := Imports.mem_of_latestDecision hd
    have hj' : j.id = job := Table.key_of_find hj
    refine ⟨⟨⟨[], by rw [List.append_nil, hdec]⟩, fun k _ job' _ => by rw [decisionsOf, hdec]; rfl⟩, ?_⟩
    rw [show l'.op = _ from hl'.op.trans (hl₄.op.trans hl)]
    refine ⟨hkeeps, j, ?_, Or.inr ⟨hst, not_not.1 hversion, s₄, d, ?_, (hsame.trans hsame₄).symm, ?_, ?_, ha⟩⟩
    · obtain ⟨v, hv, hj⟩ := hloaded
      exact ⟨v, hl'.log _ (List.mem_cons_of_mem _ hv), hj⟩
    · exact hl'.log _ (List.mem_cons_of_mem _ hlog₄)
    · rw [hsame]
      exact List.mem_filter.2 ⟨hmem, by simp [hid, hj']⟩
    · exact hv.trans (not_not.1 hversion)
  · have (id : Uuid) (now : Time) (key : String) (res : ImportResult) :
        Leaves decided (Imports.setImportJob id (Imports.committed now key res)) :=
      leaves_setImportJob id fun _ => ⟨rfl, rfl⟩
    unfold Imports.assertProvenance
    dsimp only
    infer_instance

end Bodies

theorem body_effect (job : Uuid) (op : Op) (s : Db) :
    (protocol job).wp (body job op) (fun _ l p s => ∀ x, locks.Frame l.held s x →
      locks.Within l.held x (p x) ∧ l.op.Effect job l x (p x)) { op := op } id s := by
  cases op with
  | decide c user decision note => exact Queue.wp_map.2 (decide_effect c user decision note rfl)
  | commit c user version key => exact Queue.wp_map.2 (commit_effect c user version key rfl)

theorem protocol_valid (job : Uuid) : (protocol job).Valid System.Any where
  rely_refl _ _ := .refl
  rely_trans _ _ _ _ h h' := h.trans h'
  start op s _ := Protocol.wp_mono _ (fun _ _ _ _ h x hx => ⟨h x hx.1, trivial, trivial⟩) _ _ _ (body_effect job op s)
  granted _ _ _ _ _ _ := trivial
  refused _ _ _ _ _ _ _ := trivial
  compat s _ _ _ _ _ hij _ _ _ _ hg := hg.1.frame fun _ hj hi => System.held_disjoint s hij hi hj

/-- What the commit of a request does in a run. -/
theorem effect_of_commit {job : Uuid} {v : Db} {s s' : System Db LockKey Err Result Op}
    (h : System.Reaches (body job) System.Any { committed := v } s) {i : ℕ} {op : Op} {a : Result}
    (hs : System.Step (body job) s i (.committed op a) s') :
    ∃ t, s.threads i = some t ∧ op.Effect job ⟨op, s.held i, t.log⟩ s.committed s'.committed := by
  obtain ⟨⟨-, he⟩, -⟩ := Protocol.commit_of_reaches (protocol_valid job) (v := v) trivial h hs
  cases hs with
  | run ha =>
    obtain ⟨t, ht, -, -, -⟩ := System.advance_committed ha
    refine ⟨t, ht, ?_⟩
    simpa [ht] using he

/-! ## Runs -/

variable {job : Uuid} {x x' : Db} {s : System Db LockKey Err Result Op}

theorem upToDate_committed {i : ℕ} {op : Op} {a : Result} {t : Thread Db LockKey Err Result Op} {j : ImportJob}
    (h : upToDate job s i (.committed op a) = true) (ht : s.threads i = some t) (hj : Loaded job t.log j) :
    (op.commits = true ∧ j.state = .committed) ∨ versionOf s.committed job = some j.decisionVersion := by
  obtain ⟨v, hv, hj⟩ := hj
  simp only [upToDate, current, ht, Option.all_some, List.all_eq_true] at h
  simpa [hj] using h _ hv

/-- A decision at the current version is the next one. -/
theorem Sequenced.decide (h : Sequenced job x) {d : ImportDecision} (hid : d.importJobId = job) {n : ℤ}
    (hn : versionOf x job = some n) (hd : d.decisionVersion = n + 1)
    (hx : x'.importDecisions = x.importDecisions ++ [d])
    (hv : versionOf x' job = (versionOf x job).map fun _ => n + 1) : Sequenced job x' := by
  have hlen := h.version n hn
  have hdec : decisionsOf x' job = decisionsOf x job ++ [d] := by
    rw [decisionsOf, hx, List.filter_append, List.filter_cons_of_pos (by simpa using hid), List.filter_nil]
    rfl
  constructor
  · rw [hdec, List.map_append, h.versions, List.length_append, List.length_singleton, List.range_succ,
      List.map_append, List.map_singleton, List.map_singleton, hd, hlen]
  · intro m hm
    rw [hv, hn, Option.map_some] at hm
    rw [hdec, List.length_append, List.length_singleton, ← Option.some.inj hm, hlen]
    omega

theorem Sequenced.congr (h : Sequenced job x) (hx : decided x' = decided x) : Sequenced job x' := by
  have hdec : x'.importDecisions = x.importDecisions := congrArg Prod.fst hx
  have hd : decisionsOf x' job = decisionsOf x job := by rw [decisionsOf, hdec]; rfl
  exact ⟨by rw [hd]; exact h.versions, by rw [hd, versionOf_congr hx]; exact h.version⟩

/-- The decision at the version of the job is the newest one. -/
theorem Sequenced.newest (h : Sequenced job x) {d : ImportDecision} (hd : d ∈ decisionsOf x job)
    (hv : versionOf x job = some d.decisionVersion) : Newest job x d := by
  refine ⟨hd, fun d' hd' => ?_⟩
  have hmem : d'.decisionVersion ∈ (decisionsOf x job).map ImportDecision.decisionVersion :=
    List.mem_map_of_mem hd'
  rw [h.versions] at hmem
  obtain ⟨k, hk, hk'⟩ := List.mem_map.1 hmem
  have hlt := List.mem_range.1 hk
  have hn := h.version _ hv
  omega

theorem sequenced_of_reaches {v : Db} (hv : Sequenced job v)
    (hr : System.Reaches (body job) (fun s i e => upToDate job s i e = true) { committed := v } s) :
    Sequenced job s.committed := by
  induction hr with
  | refl => exact hv
  | @tail s s' hr hs ih =>
    obtain ⟨i, e, hok, hstep⟩ := hs
    rcases hstep.committed_eq with ⟨op, a, rfl⟩ | he
    · obtain ⟨t, ht, he⟩ := effect_of_commit (System.Reaches.mono (fun _ _ _ _ => trivial) hr) hstep
      cases op with
      | decide c user decision note =>
        obtain ⟨j, d, hj, hx, hid, hd, -, hver⟩ := he
        rcases upToDate_committed hok ht hj with ⟨hc, -⟩ | hn
        · cases hc
        · exact ih.decide hid hn hd hx hver
      | commit => exact ih.congr he.1
    · rwa [he]

/-- In a run whose requests are all up to date the decisions of the job carry the versions
`1..n` and the job is at `n`, and its commits are under its newest decision. -/
theorem decisions_not_lost {v : Db} (hv : Sequenced job v)
    (hr : System.Reaches (body job) (fun s i e => upToDate job s i e = true) { committed := v } s) :
    Sequenced job s.committed ∧
      ∀ i c user version key a s', System.Step (body job) s i (.committed (.commit c user version key) a) s' →
        upToDate job s i (.committed (.commit c user version key) a) = true →
        ∃ t, s.threads i = some t ∧ CommitsNewest job version t.log s.committed s'.committed := by
  have hseq := sequenced_of_reaches hv hr
  refine ⟨hseq, fun i c user version key a s' hstep hok => ?_⟩
  obtain ⟨t, ht, -, j, hj, he⟩ := effect_of_commit (System.Reaches.mono (fun _ _ _ _ => trivial) hr) hstep
  refine ⟨t, ht, ?_⟩
  unfold CommitsNewest
  rcases he with ⟨hst, hx⟩ | ⟨hne, hver, w, d, hw, hsame, hd, hdv, ha⟩
  · exact Or.inl ⟨j, hj, hst, hx⟩
  rcases upToDate_committed hok ht hj with ⟨-, hst⟩ | hn
  · exact absurd hst hne
  · have hnew := hseq.newest hd (by rw [hn, hver, hdv])
    refine Or.inr ⟨w, d, hw, ?_, hnew, hdv, ha⟩
    unfold Newest
    rw [hsame]
    exact hnew

namespace Demo

/-- The schedule of one request in slot `i`, `n` steps long. -/
def turns (i : ℕ) (op : Op) (n : ℕ) : List (System.Turn Op) := .start i op :: List.replicate n (.next i)

/-- Manager 7 decides on job 60 in minute `n`. -/
def decide (n : ℕ) (decision : Decision) : Op := .decide (Queue.Demo.call n) 7 decision none

def commit (version : ℤ) : Op := .commit (Queue.Demo.call 3) 7 version "k"

/-- Where a schedule leads from the parsed and approved import. -/
def run (schedule : List (System.Turn Op)) : System Db LockKey Err Result Op :=
  System.play (body 60) { committed := Queue.Demo.importDb } schedule

/-- A rejection, an approval, and a commit up to its last step. -/
def reapproved : List (System.Turn Op) :=
  turns 1 (decide 1 .reject) 8 ++ turns 1 (decide 2 .approve) 8 ++ turns 1 (commit 3) 26

/-- The commit loads the job, is overtaken by a rejection, and goes on up to its last step. -/
def overtaken : List (System.Turn Op) :=
  turns 1 (commit 1) 1 ++ turns 2 (decide 2 .reject) 8 ++ List.replicate 25 (.next 1)

/-- Two decisions that load the same version. -/
def overlapping : List (System.Turn Op) :=
  turns 1 (decide 1 .approve) 1 ++ turns 2 (decide 2 .reject) 8 ++ List.replicate 7 (.next 1)

end Demo

/-- The request commits the job under version `n`. -/
def Demo.commits (n : ℤ) : Op → Result → Bool
  | .commit _ _ version _, .imported _ => version = n
  | _, _ => false

theorem Demo.eq_of_commits {n : ℤ} {op : Op} {a : Result} (h : Demo.commits n op a = true) :
    ∃ c user key res, op = .commit c user n key ∧ a = .imported res := by
  cases op with
  | decide => cases a <;> cases h
  | commit c user version key =>
    cases a with
    | decided => cases h
    | imported res => exact ⟨c, user, key, res, by rw [of_decide_eq_true h], rfl⟩

theorem decisions_not_lost_reapproved :
    Sequenced 60 (Demo.run Demo.reapproved).committed ∧ ∃ t, (Demo.run Demo.reapproved).threads 1 = some t ∧
      CommitsNewest 60 3 t.log (Demo.run Demo.reapproved).committed
        (t.pending (Demo.run Demo.reapproved).committed) := by
  obtain ⟨t, a, ht, hop, hstep⟩ := System.step_of_ready (body 60)
    (by decide +kernel : (Demo.run Demo.reapproved).ready 1 (Demo.commits 3) = true)
  obtain ⟨c, user, key, res, hop, -⟩ := Demo.eq_of_commits hop
  rw [hop] at hstep
  obtain ⟨hseq, hcommit⟩ := decisions_not_lost (by decide) (System.reaches_of_permits Demo.reapproved _
    (by decide +kernel : System.permits (body 60) (upToDate 60) { committed := Queue.Demo.importDb } _ = true))
  refine ⟨hseq, t, ht, ?_⟩
  obtain ⟨t', ht', h⟩ := hcommit 1 c user 3 key a _ hstep
    (by decide +kernel : current 60 (Demo.run Demo.reapproved) 1 true = true)
  cases ht.symm.trans ht'
  exact h

/-- Two overlapping decisions get the same version, and a rejection that was committed before
the commit took the row lock does not stop it. -/
theorem decision_lost :
    Sequenced 60 Queue.Demo.importDb ∧
      (∃ s, System.Reaches (body 60) System.Any { committed := Queue.Demo.importDb } s ∧
        (decisionsOf s.committed 60).map ImportDecision.decisionVersion = [1, 2, 2] ∧
        versionOf s.committed 60 = some 2) ∧
      ∃ s op a s', System.Reaches (body 60) System.Any { committed := Queue.Demo.importDb } s ∧
        Sequenced 60 s.committed ∧ System.Step (body 60) s 1 (.committed op a) s' ∧
        (∃ c user key res, op = .commit c user 1 key ∧ a = .imported res) ∧
        s.committed.importJobs.map ImportJob.state = [.parsed] ∧
        s'.committed.importJobs.map ImportJob.state = [.committed] ∧
        ∀ d, Newest 60 s.committed d → d.decisionVersion = 2 ∧ d.decision = .reject := by
  refine ⟨by decide, ⟨Demo.run Demo.overlapping, System.reaches_play .., by decide +kernel, by decide +kernel⟩, ?_⟩
  obtain ⟨t, a, ht, hop, hstep⟩ := System.step_of_ready (body 60)
    (by decide +kernel : (Demo.run Demo.overtaken).ready 1 (Demo.commits 1) = true)
  have hstate : ((Demo.run Demo.overtaken).threads 1).map (fun t =>
      (t.pending (Demo.run Demo.overtaken).committed).importJobs.map ImportJob.state) = some [.committed] := by
    decide +kernel
  rw [ht] at hstate
  have hnewest : ∀ d ∈ decisionsOf (Demo.run Demo.overtaken).committed 60,
      (∀ d' ∈ decisionsOf (Demo.run Demo.overtaken).committed 60, d'.decisionVersion ≤ d.decisionVersion) →
        d.decisionVersion = 2 ∧ d.decision = .reject := by decide +kernel
  exact ⟨_, _, a, _, System.reaches_play .., by decide +kernel, hstep, Demo.eq_of_commits hop, by decide +kernel,
    Option.some.inj hstate, fun d hd => hnewest d hd.1 hd.2⟩

end OmniDB.DecisionRace
