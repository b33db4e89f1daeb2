import OmniDB.Proofs.Footprint
import OmniDB.Proofs.ParsedJobs
import OmniDB.Proofs.Statements
import OmniDB.Tx.Sealed

/-! Commits of bulk workforce imports that race with each other, with parsing and with the expiry
cleanup. As for campaign imports, a request and the cleanup load a job before they lock it. -/

namespace OmniDB.BulkCommitRace

open Tx
open Tx.Prog
open WorkforceImports

inductive Op where
  | commit (c : Call) (r : CommitRequest)
  | parse (c : Call) (lower : String → String) (file : Imports.SourceFile) (id : Uuid)
  | cleanup (c : Call)

inductive Result where
  | applied (res : CommitResult)
  | done

def body : Op → Txn Result
  | .commit c r => Result.applied <$> Request.commit c r
  | .parse c lower file id => (fun _ => .done) <$> parseJob c lower file id
  | .cleanup c => (fun _ => .done) <$> cleanupExpiredJobs c

/-- The columns of a job that a replay of its commit reads. -/
structure Columns where
  state : JobState
  idempotencyKey : Option String
  committedResult : Option (List (ℕ × Outcome))
deriving DecidableEq

def columnsOf (job : WorkforceImportJob) : Columns := ⟨job.state, job.idempotencyKey, job.committedResult⟩

/-- The rows of a job, as they were parsed. -/
def parsedRows (x : Db) (job : Uuid) : List WorkforceImportRow := (jobRows x job).map asParsed

/-- Import jobs, which are sealed by their commit. -/
def jobs : Register Db LockKey Uuid (Option WorkforceImportJob) (Option Columns × List WorkforceImportRow) where
  lock := .workforceJob
  record k := match k with
    | .workforceJob id => some id
    | _ => none
  record_eq {k i} := by cases k <;> simp
  row x id := Table.find x.workforceJobs id
  kept x id := ((Table.find x.workforceJobs id).map columnsOf, parsedRows x id)
  isSealed t := t.1.any fun c => c.state = .committed
  sealed_congr h := by rw [h]
  loads := ["workforce job", "cleanup_expired_jobs"]

/-- The job is committed under the key with these outcomes. -/
def Holds (x : Db) (job : Uuid) (key : String) (outcomes : List (ℕ × Outcome)) : Prop :=
  ∃ t, (Table.find x.workforceJobs job).map columnsOf = some t ∧ t.state = .committed ∧
    t.idempotencyKey = some key ∧ t.committedResult.getD [] = outcomes

instance (x : Db) (job : Uuid) (key : String) (outcomes : List (ℕ × Outcome)) : Decidable (Holds x job key outcomes) :=
  decidable_of_iff (((Table.find x.workforceJobs job).map columnsOf).any fun t => t.state = .committed &&
      t.idempotencyKey = some key && t.committedResult.getD [] = outcomes) (by
    simp only [Option.any_eq_true, Bool.and_eq_true, decide_eq_true_eq, and_assoc]
    rfl)

/-- A commit leaves the job committed with the outcomes it answers, and only reads one that was. -/
def Op.Effect : Op → Result → Db → Db → Prop
  | .commit _ r, .applied res, x, x' => Holds x' r.jobId r.idempotencyKey res.outcomes ∧
      (jobs.Sealed x r.jobId → x' = x ∧ res.activationTokens = [])
  | .commit .., .done, _, _ => False
  | .parse .., _, _, _ | .cleanup _, _, _, _ => True

theorem sealed_iff {x : Db} {id : Uuid} :
    jobs.Sealed x id ↔ ∃ j, Table.find x.workforceJobs id = some j ∧ j.state = .committed := by
  unfold Register.Sealed
  change ((Table.find x.workforceJobs id).map columnsOf).any _ = true ↔ _
  rw [Option.any_map, Option.any_eq_true]
  exact exists_congr fun j => and_congr_right fun _ => decide_eq_true_iff

section Holds

variable {x x' : Db} {job : Uuid} {key key' : String} {outcomes outcomes' : List (ℕ × Outcome)}

theorem Holds.sealed (h : Holds x job key outcomes) : jobs.Sealed x job := by
  obtain ⟨t, ht, hst, -⟩ := h
  obtain ⟨j, hj, rfl⟩ := Option.map_eq_some_iff.1 ht
  exact sealed_iff.2 ⟨j, hj, hst⟩

theorem Holds.congr (h : Holds x job key outcomes) (hx : jobs.kept x' job = jobs.kept x job) :
    Holds x' job key outcomes := by
  have hcols : (Table.find x'.workforceJobs job).map columnsOf = (Table.find x.workforceJobs job).map columnsOf :=
    congrArg Prod.fst hx
  unfold Holds
  rwa [hcols]

theorem Holds.eq (h : Holds x job key outcomes) (h' : Holds x job key' outcomes') :
    key' = key ∧ outcomes' = outcomes := by
  obtain ⟨t, ht, -, hkey, hres⟩ := h
  obtain ⟨t', ht', -, hkey', hres'⟩ := h'
  cases ht.symm.trans ht'
  exact ⟨Option.some.inj (hkey'.symm.trans hkey), hres'.symm.trans hres⟩

end Holds

/-! ## What commits, parses and the cleanup leave alone -/

def jobIds (x : Db) : List Uuid := x.workforceJobs.map WorkforceImportJob.id

/-- The jobs, and the rows as they were parsed. -/
def stored (x : Db) : List WorkforceImportJob × List WorkforceImportRow :=
  (x.workforceJobs, x.workforceRows.map asParsed)

section Leaves

theorem leaves_setWorkforceJob (id : Uuid) {f : WorkforceImportJob → WorkforceImportJob} (hf : ∀ j, (f j).id = j.id) :
    Leaves jobIds (setWorkforceJob id f) :=
  .then inferInstance fun _ => .update fun _ => Table.keys_modify _ _ fun j hj => (hf j).trans hj

instance (rows : List WorkforceImportRow) : Leaves jobIds (addWorkforceRows rows) := .update fun _ => rfl

instance (priority := low) leaves_stored {α : Type} {p : Txn α} [h : Leaves Db.imports p] : Leaves stored p :=
  h.part fun x : ImportTables => (x.jobs, x.rows.map asParsed)

instance (priority := low) leaves_ids {α : Type} {p : Txn α} [h : Leaves stored p] : Leaves jobIds p :=
  h.part fun x : List WorkforceImportJob × List WorkforceImportRow => x.1.map WorkforceImportJob.id

instance (c : Call) (job : WorkforceImportJob) (standard : Uuid) (highRisk : Option Uuid) (acc : Committed)
    (row : WorkforceImportRow) : Leaves stored (commitStep c job standard highRisk acc row) := by
  unfold commitStep
  refine .seq (marks_commitRow ..) fun effect hmarks => ?_
  cases effect with
  | none => infer_instance
  | some effect =>
    have : Leaves stored (setWorkforceRow row.id effect.change) := .update fun _ => Prod.ext rfl (map_modify hmarks)
    infer_instance

instance (c : Call) (r : CommitRequest) : Leaves jobIds (Request.commit c r) := by
  have (id : Uuid) (now : Time) (outcomes : List (ℕ × Outcome)) : Leaves jobIds
      (setWorkforceJob id (committed now r.idempotencyKey outcomes)) := leaves_setWorkforceJob id fun _ => rfl
  unfold Request.commit commitJob commitParsed
  dsimp only
  repeat' first | infer_instance | split | refine .then ?_ fun _ => ?_

instance (job : WorkforceImportJob) (error : String) : Leaves jobIds (failParse job error) := by
  unfold failParse
  refine .then ?_ fun _ => inferInstance
  exact leaves_setWorkforceJob _ fun _ => rfl

instance (c : Call) (lower : String → String) (job : WorkforceImportJob) (t : Tally) (row : Imports.ParsedRow) :
    Leaves stored (parseRow c lower job t row) := by
  unfold parseRow; infer_instance

instance (c : Call) (lower : String → String) (file : Imports.SourceFile) (id : Uuid) :
    Leaves jobIds (parseJob c lower file id) := by
  unfold parseJob
  dsimp only
  repeat' first
    | infer_instance | exact leaves_setWorkforceJob _ fun _ => rfl | split | refine .then ?_ fun _ => ?_

instance (c : Call) : Leaves jobIds (cleanupExpiredJobs c) := by
  have (id : Uuid) : Leaves jobIds (update fun db => { db with
      workforceRows := db.workforceRows.filter fun r => r.importJobId ≠ id } : Txn Unit) := .update fun _ => rfl
  have (id : Uuid) : Leaves jobIds (setWorkforceJob id fun j => { j with expiresAt := none }) :=
    leaves_setWorkforceJob id fun _ => rfl
  have (id : Uuid) : Leaves jobIds (setWorkforceJob id fun j => { j with state := .expired }) :=
    leaves_setWorkforceJob id fun _ => rfl
  unfold cleanupExpiredJobs
  infer_instance

instance (op : Op) : Leaves jobIds (body op) := by
  cases op <;> unfold body <;> infer_instance

end Leaves

/-! ## The operations among others -/

def protocol : Protocol Db LockKey Err Result Op := jobs.protocol body (fun x => (jobIds x).Nodup) Op.Effect

instance : protocol.Respects jobs.locks fun x => (jobIds x).Nodup :=
  inferInstanceAs ((jobs.protocol body (fun x => (jobIds x).Nodup) Op.Effect).Respects jobs.locks _)

section Bodies

variable {l l' : Stand Db LockKey Op} {p : Db → Db} {s s' : Db}

/-- Column update of one job. -/
def setJob (id : Uuid) (f : WorkforceImportJob → WorkforceImportJob) (x : Db) : Db :=
  { x with workforceJobs := Table.modify x.workforceJobs id f }

theorem find_setJob {f : WorkforceImportJob → WorkforceImportJob} (hf : ∀ j, (f j).id = j.id) (x : Db) (id id' : Uuid) :
    Table.find (setJob id f x).workforceJobs id' =
      if id' = id then (Table.find x.workforceJobs id').map f else Table.find x.workforceJobs id' :=
  Table.find_modify fun j hj => (hf j).trans hj

theorem keeps_setJob {id : Uuid} {f : WorkforceImportJob → WorkforceImportJob} (hf : ∀ j, (f j).id = j.id) :
    Keeps (jobs.others id) (setJob id f) := by
  have hfind (x : Db) (id' : Uuid) (hne : id' ≠ id) :
      Table.find (setJob id f x).workforceJobs id' = Table.find x.workforceJobs id' := by
    rw [find_setJob hf, if_neg hne]
  refine fun x => Register.others_congr (fun id' hne => ?_) (hfind x)
  change (_, _) = (_, parsedRows (setJob id f x) id')
  rw [hfind x id' hne]

/-- A change of other columns than those of the commit. -/
theorem kept_setJob {id : Uuid} {f : WorkforceImportJob → WorkforceImportJob} (hf : ∀ j, (f j).id = j.id)
    (hcols : ∀ j, columnsOf (f j) = columnsOf j) (x : Db) : jobs.kept (setJob id f x) id = jobs.kept x id := by
  change (_, _) = (_, parsedRows (setJob id f x) id)
  rw [find_setJob hf, if_pos rfl, Option.map_map]
  exact Prod.ext (Option.map_congr fun j _ => hcols j) rfl

theorem wp_setJob {id : Uuid} {f : WorkforceImportJob → WorkforceImportJob}
    {Q : Unit → Protocol.Assertion Db LockKey Op}
    (h : ∀ s', jobs.locks.Frame l.held s s' → protocol.granted l (.workforceJob id) s' →
      Q () (l.take (.workforceJob id)) (setJob id f ∘ p) s') :
    protocol.wp (setWorkforceJob id f) Q l p s := by
  unfold setWorkforceJob
  rw [Protocol.wp_bind, Protocol.wp_acquire]
  exact fun s' hs hg => h s' hs.1 hg

theorem holds_committed {x : Db} {job : Uuid} {row : WorkforceImportJob}
    (hrow : Table.find x.workforceJobs job = some row) (now : Time) (key : String) (outcomes : List (ℕ × Outcome)) :
    Holds (setJob job (committed now key outcomes) x) job key outcomes := by
  refine ⟨⟨.committed, some key, some outcomes⟩, ?_, rfl, rfl, rfl⟩
  rw [find_setJob (f := committed now key outcomes) (fun _ => rfl), if_pos rfl, hrow]
  rfl

theorem parsedRows_eq (x : Db) (job : Uuid) :
    parsedRows x job = (stored x).2.filter fun r => r.importJobId = job := by
  unfold parsedRows jobRows stored
  rw [List.filter_map]
  rfl

theorem kept_of_stored {x x' : Db} (h : stored x' = stored x) (job : Uuid) :
    jobs.kept x' job = jobs.kept x job ∧ jobs.row x' job = jobs.row x job := by
  have hjobs : x'.workforceJobs = x.workforceJobs := congrArg Prod.fst h
  constructor
  · change (_, _) = (_, _)
    rw [parsedRows_eq, parsedRows_eq, h, hjobs]
  · change Table.find _ _ = Table.find _ _
    rw [hjobs]

theorem sofar_of_stored (h : Keeps stored p) : jobs.Sofar l p s :=
  ⟨fun i => Or.inl fun x => (kept_of_stored (h x) i).1, fun i => Or.inr fun x => (kept_of_stored (h x) i).2⟩

/-- The writes that follow the commit of a job. -/
theorem sofar_silent (h : jobs.Sofar l p s) {f : Db → Db} (hf : Keeps stored f) : jobs.Sofar l (f ∘ p) s :=
  ⟨fun i => (h.kept i).imp_left fun hp x => (kept_of_stored (hf _) i).1.trans (hp x),
    fun i => (h.row i).imp_right fun hp x => (kept_of_stored (hf _) i).2.trans (hp x)⟩

instance (priority := low) leaves_others {id : Uuid} {α : Type} {q : Txn α} [h : Leaves stored q] :
    Leaves (jobs.others id) q :=
  ⟨h.writes.mono (fun _ hf x => Register.others_congr (fun i _ => (kept_of_stored (hf x) i).1)
    fun i _ => (kept_of_stored (hf x) i).2) fun _ => fun h => h⟩

instance (e : AuditEvent) : Leaves stored (recordAudit e) := .update fun _ => rfl

instance (n : Notification) : Leaves stored (notify n) := .then inferInstance fun _ => .update fun _ => rfl

/-- The import of a job that is found open under its lock. -/
theorem commitParsed_effect (c : Call) (r : CommitRequest) (job : WorkforceImportJob)
    (hk : l.held (.workforceJob job.id)) (hopen : ¬jobs.Sealed s job.id) {row : WorkforceImportJob}
    (hrow : Table.find s.workforceJobs job.id = some row) :
    protocol.wp (commitParsed c r job) (fun res l' p s' => jobs.Sofar l' p s' ∧ ∀ x, jobs.locks.Frame l'.held s' x →
      Holds (p x) job.id r.idempotencyKey res.outcomes ∧ ¬jobs.Sealed x job.id) l id s := by
  unfold commitParsed
  dsimp only
  rw [Protocol.wp_bind]
  refine Protocol.wp_mono _ ?_ _ _ _ (Protocol.wp_leaves (D := jobs.locks) (I := fun x => (jobIds x).Nodup)
    (π := stored) _ _ id s fun _ => rfl)
  intro standard l₁ p₁ s₁ h
  obtain ⟨hl₁, hp₁, hf₁⟩ := h
  rw [Protocol.wp_bind]
  refine Protocol.wp_mono _ ?_ _ _ _ (Protocol.wp_leaves (D := jobs.locks) (I := fun x => (jobIds x).Nodup)
    (π := stored) _ _ p₁ s₁ hp₁)
  intro highRisk l₂ p₂ s₂ h
  obtain ⟨hl₂, hp₂, hf₂⟩ := h
  rw [Protocol.wp_bind, Protocol.wp_view]
  intro s₃ hs₃
  rw [Protocol.wp_bind]
  refine Protocol.wp_mono _ ?_ _ _ _ (Protocol.wp_leaves (D := jobs.locks) (I := fun x => (jobIds x).Nodup)
    (π := stored) _ _ p₂ s₃ hp₂)
  intro acc l₄ p₄ s₄ h
  obtain ⟨hl₄, hp₄, hf₄⟩ := h
  have hl : l.Onward l₄ := hl₁.trans (hl₂.trans ((l₂.onward_saw _ _).trans hl₄))
  have hf : jobs.locks.Frame l.held s s₄ := by
    refine hf₁.trans ((hf₂.mono fun k h => hl₁.held k h).trans ?_)
    refine (show jobs.locks.Frame l₂.held s₂ s₃ from hs₃.1).mono (fun k h => hl₂.held k (hl₁.held k h)) |>.trans ?_
    exact hf₄.mono fun k h => hl₂.held k (hl₁.held k h)
  rw [Protocol.wp_bind]
  refine wp_setJob fun s₅ hf₅ _ => ?_
  have hf' : jobs.locks.Frame l.held s s₅ := hf.trans (hf₅.mono hl.held)
  have hopen' : ¬jobs.Sealed s₅ job.id := Register.not_sealed_of_frame hopen hk hf'
  have hsofar : jobs.Sofar (l₄.take (.workforceJob job.id)) p₄ s₅ := sofar_of_stored hp₄
  have hset := hsofar.write (i := job.id) (Or.inl rfl) (Or.inl hopen')
    (keeps_setJob (f := committed (c.utcnow 3) r.idempotencyKey acc.outcomes) fun _ => rfl)
  have hholds (x : Db) (hx : jobs.locks.Frame (l₄.take (.workforceJob job.id)).held s₅ x) :
      Holds (setJob job.id (committed (c.utcnow 3) r.idempotencyKey acc.outcomes) (p₄ x)) job.id r.idempotencyKey
        acc.outcomes := by
    have hx' : jobs.locks.Frame l.held s x := hf'.trans (hx.mono fun k h => Or.inr (hl.held k h))
    have hrow' : Table.find (p₄ x).workforceJobs job.id = some row := by
      rw [show (p₄ x).workforceJobs = x.workforceJobs from congrArg Prod.fst (hp₄ x)]
      exact (hx'.same _ hk job.id rfl).trans hrow
    exact holds_committed hrow' ..
  have hend : ∀ x, jobs.locks.Frame (l₄.take (.workforceJob job.id)).held s₅ x → ¬jobs.Sealed x job.id :=
    fun x hx => Register.not_sealed_of_frame hopen' (Or.inl rfl) hx
  simp only [Protocol.wp_bind, recordAudit, Protocol.wp_update]
  split_ifs
  · simp only [notify, Protocol.wp_bind, Protocol.wp_raiseIf, Protocol.wp_update, Protocol.wp_pure]
    refine fun _ => ⟨sofar_silent (sofar_silent hset ?_) ?_, fun x hx => ⟨hholds x hx, hend x hx⟩⟩
    · exact fun _ => rfl
    · exact fun _ => rfl
  · simp only [Protocol.wp_pure]
    refine ⟨sofar_silent hset ?_, fun x hx => ⟨hholds x hx, hend x hx⟩⟩
    exact fun _ => rfl

theorem commit_effect (c : Call) (r : CommitRequest) (op : Op) (s : Db) :
    protocol.wp (Request.commit c r) (fun res l p s => jobs.Sofar l p s ∧ ∀ x, jobs.locks.Frame l.held s x →
      Holds (p x) r.jobId r.idempotencyKey res.outcomes ∧
        (jobs.Sealed x r.jobId → p x = x ∧ res.activationTokens = [])) { op := op } id s := by
  unfold Request.commit Workforce.requireAnyCapability
  rw [Protocol.wp_bind, Protocol.wp_bind, Protocol.wp_view]
  intro s₀ _
  rw [Protocol.wp_raiseIf]
  intro _
  rw [Protocol.wp_bind]
  refine wp_readRow (D := jobs.locks) (I := fun x => (jobIds x).Nodup) fun s₁ h₁ _ => ?_
  rw [Protocol.wp_bind, Protocol.wp_expect]
  intro j hj
  unfold commitJob
  rw [Protocol.wp_bind]
  refine wp_forUpdate_granted (D := jobs.locks) (I := fun x => (jobIds x).Nodup) ?_ ?_
  · intro l' s' _ _ _
    rw [Protocol.wp_bind, Protocol.wp_expect]
    intro row hrow
    cases hrow
  intro l₄ l₅ s₄ s₅ row hl₄ hl₅ hg hlog hf₄ hf₅ hi₅ hrow _
  rw [Protocol.wp_bind, Protocol.wp_expect]
  rintro _ ⟨⟩
  have hkey : key j = key row := (Table.key_of_find hj).trans (Table.key_of_find hrow).symm
  have hmap : Imports.identityMap (some j) row = j := if_pos hkey
  have hid : j.id = r.jobId := Table.key_of_find hj
  dsimp only
  rw [hmap]
  rw [Protocol.wp_bind]
  have hreads : Leaves (fun x : Db => x) (assertJobAccessible (c.utcnow 0) j r.actorId) := by
    unfold assertJobAccessible; infer_instance
  refine Protocol.wp_mono _ ?_ _ _ _ (Protocol.wp_leaves (D := jobs.locks) (I := fun x => (jobIds x).Nodup)
    (π := fun x : Db => x) (assertJobAccessible (c.utcnow 0) j r.actorId) _ id s₅ fun _ => rfl)
  intro _ l₆ p₆ s₆ h
  obtain ⟨hl₆, hp₆, hf₆⟩ := h
  obtain rfl : p₆ = id := funext hp₆
  split_ifs with hst
  · simp only [Protocol.wp_bind, Protocol.wp_raiseIf, Protocol.wp_pure]
    intro hkey
    have hsealed : jobs.Sealed s₁ r.jobId := sealed_iff.2 ⟨j, hj, hst⟩
    refine ⟨.init, fun x hx => ⟨?_, fun _ => ⟨rfl, trivial⟩⟩⟩
    have hgrows : jobs.locks.grows s₁ x := jobs.locks.grows_trans _ _ _ (jobs.locks.grows_trans _ _ _ hf₄.grows hf₅.grows)
      (jobs.locks.grows_trans _ _ _ hf₆.grows hx.grows)
    exact Holds.congr (x := s₁) ⟨columnsOf j, by rw [show Table.find s₁.workforceJobs r.jobId = _ from hj]; rfl, hst,
      not_not.1 hkey, rfl⟩ (hgrows _ hsealed)
  · rw [Protocol.wp_bind, Protocol.wp_raiseIf]
    intro _
    rw [Protocol.wp_bind, Protocol.wp_raiseIf]
    intro _
    rw [Protocol.wp_bind, Protocol.wp_raiseIf]
    intro _
    -- the job was open when it was loaded, so it is open now
    have hopen : ¬jobs.Sealed s₅ r.jobId := by
      refine Register.not_sealed_of_frame (fun hs₄ => ?_) (Or.inl rfl) hf₅
      have hload := hg r.jobId rfl hs₄ ("workforce job", s₁) (hl₄.log _ List.mem_cons_self) List.mem_cons_self
      obtain ⟨j', hj', hst'⟩ := sealed_iff.1 hload
      cases hj.symm.trans hj'
      exact hst hst'
    have hk₅ : l₅.held (.workforceJob r.jobId) := hl₅.held _ (Or.inl rfl)
    have hrow₆ : Table.find s₆.workforceJobs r.jobId = some row := (hf₆.same _ hk₅ r.jobId rfl).trans hrow
    have hopen₆ : ¬jobs.Sealed s₆ r.jobId := Register.not_sealed_of_frame hopen hk₅ hf₆
    refine Protocol.wp_mono _ ?_ _ _ _ (commitParsed_effect c r j (hid ▸ hl₆.held _ hk₅) (hid ▸ hopen₆) (hid ▸ hrow₆))
    intro res l p s h
    obtain ⟨hsofar, hend⟩ := h
    refine ⟨hsofar, fun x hx => ?_⟩
    rw [← hid]
    exact ⟨(hend x hx).1, fun hs => absurd hs (hend x hx).2⟩

theorem leaves_setOpen (id : Uuid) {f : WorkforceImportJob → WorkforceImportJob} (hf : ∀ j, (f j).id = j.id) :
    Leaves (jobs.others id) (setWorkforceJob id f) :=
  .then inferInstance fun _ => .update (keeps_setJob hf)

theorem leaves_addRows {id : Uuid} {rows : List WorkforceImportRow} (h : ∀ r ∈ rows, r.importJobId = id) :
    Leaves (jobs.others id) (addWorkforceRows rows) := by
  refine .update fun x => Register.others_congr (fun id' hne => ?_) fun _ _ => rfl
  have hnone : rows.filter (fun r => decide (r.importJobId = id')) = [] := by
    refine List.filter_eq_nil_iff.2 fun r hr => ?_
    rw [decide_eq_true_eq, h r hr]
    exact Ne.symm hne
  change (_, List.map _ (List.filter _ (_ ++ _))) = (_, List.map _ (List.filter _ _))
  rw [List.filter_append, hnone, List.append_nil]

theorem leaves_failParse {id : Uuid} {job : WorkforceImportJob} (hid : job.id = id) (error : String) :
    Leaves (jobs.others id) (failParse job error) := by
  subst hid
  unfold failParse
  refine .then ?_ fun _ => inferInstance
  exact leaves_setOpen _ fun _ => rfl

/-- The rows of the tally belong to the job. -/
theorem writes_tally (c : Call) (lower : String → String) (job : WorkforceImportJob) (rows : List Imports.ParsedRow) :
    Writes (fun _ => True) (rows.foldlM (parseRow c lower job) {}) fun t => ∀ r ∈ t.rows, r.importJobId = job.id := by
  refine Writes.foldlM (fun t row ht => ?_) rows fun _ hr => absurd hr List.not_mem_nil
  unfold parseRow
  simp only [writes_bind, writes_view, writes_pure, add_rows, List.mem_append, List.mem_singleton]
  rintro db r (hr | rfl)
  · exact ht r hr
  · rfl

theorem parse_effect (c : Call) (lower : String → String) (file : Imports.SourceFile) (job : Uuid) (op : Op) (s : Db) :
    protocol.wp (parseJob c lower file job) (fun _ l p s => jobs.Sofar l p s) { op := op } id s := by
  unfold parseJob
  rw [Protocol.wp_bind]
  refine wp_forUpdate (D := jobs.locks) (I := fun x => (jobIds x).Nodup) (fun _ _ _ _ _ => .init) ?_
  intro l s₁ j hl hk _ hf _ hj _
  have hid : j.id = job := Table.key_of_find hj
  by_cases hq : j.state = .quarantined
  · have hopen : ¬jobs.Sealed s₁ job := by
      intro hs
      obtain ⟨j', hj', hst⟩ := sealed_iff.1 hs
      cases hj.symm.trans hj'
      rw [hq] at hst
      cases hst
    have hset (f : WorkforceImportJob → WorkforceImportJob) (hf : ∀ j, (f j).id = j.id) :
        Leaves (jobs.others job) (setWorkforceJob job f) := leaves_setOpen job hf
    dsimp only
    rw [if_pos hq]
    refine Protocol.wp_mono _ (fun _ _ _ _ h => h.2.1) _ _ _
      (@Register.wp_open _ _ _ _ _ _ _ _ _ jobs _ _ _ _ protocol (fun x => (jobIds x).Nodup) _ _ ?_ .init hk hopen)
    refine .then ?_ fun _ => ?_
    · exact hset _ fun _ => rfl
    split
    · exact leaves_failParse hid ..
    split
    · exact leaves_failParse hid ..
    refine .seq (writes_tally c lower j file.rows) fun tally htally => ?_
    rw [hid] at htally
    split
    · refine .then (leaves_addRows fun r hr => htally r (List.mem_of_mem_take hr)) fun _ => ?_
      exact leaves_failParse hid ..
    refine .then (leaves_addRows htally) fun _ => ?_
    split
    · exact leaves_failParse hid ..
    refine .then ?_ fun _ => inferInstance
    exact hset _ fun _ => rfl
  · dsimp only
    rw [if_neg hq]
    exact Register.Sofar.init

/-- The rows of a job that expires, and its row. -/
theorem keeps_deleteRows (id : Uuid) : Keeps (jobs.others id) fun x : Db =>
    { x with workforceRows := x.workforceRows.filter fun r => r.importJobId ≠ id } := by
  refine fun x => Register.others_congr (fun id' hne => ?_) fun _ _ => rfl
  change (_, List.map _ (List.filter _ (List.filter _ _))) = (_, List.map _ (List.filter _ _))
  rw [List.filter_filter]
  refine Prod.ext rfl (congrArg (List.map asParsed) (List.filter_congr fun r _ => ?_))
  by_cases hr : r.importJobId = id' <;> simp [hr, hne]

theorem cleanup_effect (c : Call) (op : Op) (s : Db) : protocol.wp (cleanupExpiredJobs c)
    (fun _ l p s => jobs.Sofar l p s) { op := op } id s := by
  unfold cleanupExpiredJobs
  dsimp only
  rw [Protocol.wp_bind, Protocol.wp_view]
  intro v hv
  have hunique : Table.Unique v.workforceJobs := hv.2
  refine Protocol.wp_mono _ (fun _ _ _ _ h => h.1) _ _ _ (Protocol.wp_foldlM_mem
    (M := fun _ l p s => jobs.Sofar l p s ∧ ("cleanup_expired_jobs", v) ∈ l.log) _ ?_ _ _ _ _
    ⟨.init, List.mem_cons_self⟩)
  intro j hj count l p s h
  obtain ⟨hsofar, hlog⟩ := h
  have hfind : Table.find v.workforceJobs j.id = some j :=
    hunique.find_of_mem (List.mem_of_mem_filter (mem_scan.1 hj))
  have hheld : (l.take (.workforceJob j.id)).held (jobs.lock j.id) := Or.inl rfl
  split_ifs with hst
  · rw [Protocol.wp_bind]
    refine wp_setJob fun s₁ hf hg => ?_
    exact ⟨(hsofar.later (l.onward_take _) hf).write hheld (Or.inr (kept_setJob (fun _ => rfl) fun _ => rfl))
      (keeps_setJob fun _ => rfl), hlog⟩
  · rw [Protocol.wp_bind, Protocol.wp_update, Protocol.wp_bind]
    refine wp_setJob fun s₁ hf hg => ?_
    -- the cleanup found the job open, so it is open now
    have hopen : ¬jobs.Sealed s₁ j.id := by
      intro hs
      obtain ⟨j', hj', hst'⟩ := sealed_iff.1 (hg j.id rfl hs _ hlog (List.mem_cons_of_mem _ List.mem_cons_self))
      cases hfind.symm.trans hj'
      exact hst hst'
    have hdelete := (hsofar.later (l.onward_take _) hf).write hheld (Or.inl hopen) (keeps_deleteRows j.id)
    exact ⟨hdelete.write hheld (Or.inl hopen) (keeps_setJob fun _ => rfl), hlog⟩

end Bodies

theorem protocol_valid : protocol.Valid fun s i e => jobs.current s i e = true := by
  refine Register.protocol_valid fun op s _ => ?_
  cases op with
  | commit c r =>
    refine Queue.wp_map.2 (Protocol.wp_mono _ (fun res l p s h => ?_) _ _ _ (commit_effect c r _ s))
    exact ⟨h.1, fun x hx _ => h.2 x hx⟩
  | parse c lower file job =>
    refine Queue.wp_map.2 (Protocol.wp_mono _ (fun _ l p s h => ?_) _ _ _ (parse_effect c lower file job _ s))
    exact ⟨h, fun _ _ _ => trivial⟩
  | cleanup c =>
    refine Queue.wp_map.2 (Protocol.wp_mono _ (fun _ l p s h => ?_) _ _ _ (cleanup_effect c _ s))
    exact ⟨h, fun _ _ _ => trivial⟩

/-! ## Runs -/

/-- Only commit requests on the job begin, and none gets its row lock when the job was committed
behind its back. -/
def undisturbed (job : Uuid) (s : System Db LockKey Err Result Op) (i : ℕ) (e : Event LockKey Err Result Op) : Bool :=
  jobs.current s i e && match e with
    | .began (.commit _ r) => r.jobId = job
    | .began _ => false
    | _ => true

section Runs

variable {v : Db} {s s' : System Db LockKey Err Result Op}

theorem effect_of_commit (hv : Table.Unique v.workforceJobs)
    (hr : System.Reaches body (fun s i e => jobs.current s i e = true) { committed := v } s) {i : ℕ} {op : Op} {a : Result}
    (hs : System.Step body s i (.committed op a) s') : op.Effect a s.committed s'.committed :=
  (Protocol.commit_of_reaches protocol_valid hv hr hs).2

theorem current_of_undisturbed {job : Uuid}
    (hr : System.Reaches body (fun s i e => undisturbed job s i e = true) s s') :
    System.Reaches body (fun s i e => jobs.current s i e = true) s s' :=
  hr.mono fun _ _ _ h => (Bool.and_eq_true_iff.1 h).1

/-- The request that commits in an undisturbed run is one on the job. -/
theorem commit_of_undisturbed {job : Uuid}
    (hr : System.Reaches body (fun s i e => undisturbed job s i e = true) { committed := v } s) {i : ℕ} {op : Op} {a : Result}
    (hs : System.Step body s i (.committed op a) s') : ∃ c r, op = .commit c r ∧ r.jobId = job := by
  cases hs with
  | run ha =>
    obtain ⟨t, ht, rfl, -, -⟩ := System.advance_committed ha
    refine System.ops_of_reaches (C := fun op => ∃ c r, op = .commit c r ∧ r.jobId = job) (fun s i op h => ?_) hr i t ht
    have hbegan := (Bool.and_eq_true_iff.1 h).2
    cases op with
    | commit c r => exact ⟨c, r, rfl, of_decide_eq_true hbegan⟩
    | parse | cleanup => cases hbegan

/-- Once the job is committed nothing changes any more. -/
theorem quiet_of_undisturbed (hv : Table.Unique v.workforceJobs) {job : Uuid}
    (hr : System.Reaches body (fun s i e => undisturbed job s i e = true) { committed := v } s)
    (hr' : System.Reaches body (fun s i e => undisturbed job s i e = true) s s') (hs : jobs.Sealed s.committed job) :
    s'.committed = s.committed := by
  induction hr' with
  | refl => rfl
  | tail hr' hstep ih =>
    obtain ⟨j, e, -, hstep⟩ := hstep
    rcases hstep.committed_eq with ⟨op, a, rfl⟩ | he
    · obtain ⟨c, r, rfl, rfl⟩ := commit_of_undisturbed (hr.trans hr') hstep
      have heffect := effect_of_commit hv (current_of_undisturbed (hr.trans hr')) hstep
      cases a with
      | applied res => exact (heffect.2 (ih ▸ hs)).1.trans ih
      | done => exact heffect.elim
    · rw [he, ih]

/-- In a run of commit requests on one job none of which finds it committed behind its back, the rows
are applied once: a later request changes nothing, is under the same key and repeats the outcomes
without the tokens. -/
theorem applied_once (hv : Table.Unique v.workforceJobs) {job : Uuid}
    (hr : System.Reaches body (fun s i e => undisturbed job s i e = true) { committed := v } s)
    {i : ℕ} {c : Call} {r : CommitRequest} {res : CommitResult}
    (hs : System.Step body s i (.committed (.commit c r) (.applied res)) s') :
    (jobs.Sealed s.committed job → s'.committed = s.committed ∧ res.activationTokens = []) ∧
      ∀ s'', System.Reaches body (fun s i e => undisturbed job s i e = true) s' s'' →
        s''.committed = s'.committed ∧ Holds s''.committed job r.idempotencyKey res.outcomes ∧
        ∀ j c' r' res' s₃, System.Step body s'' j (.committed (.commit c' r') (.applied res')) s₃ →
          r'.idempotencyKey = r.idempotencyKey ∧ res'.outcomes = res.outcomes ∧ res'.activationTokens = [] ∧
            s₃.committed = s''.committed := by
  have hjob {s s' : System Db LockKey Err Result Op} {i : ℕ} {c : Call} {r : CommitRequest} {a : Result}
      (hr : System.Reaches body (fun s i e => undisturbed job s i e = true) { committed := v } s)
      (hs : System.Step body s i (.committed (.commit c r) a) s') : r.jobId = job := by
    obtain ⟨_, _, he, rfl⟩ := commit_of_undisturbed hr hs
    cases he
    rfl
  have hid := hjob hr hs
  obtain ⟨hholds, hsame⟩ := effect_of_commit hv (current_of_undisturbed hr) hs
  rw [hid] at hholds hsame
  have hr' := hr.tail ⟨i, _, by rfl, hs⟩
  refine ⟨hsame, fun s'' hr'' => ?_⟩
  have hquiet := quiet_of_undisturbed hv hr' hr'' hholds.sealed
  rw [← hquiet] at hholds
  refine ⟨hquiet, hholds, fun j c' r' res' s₃ hs₃ => ?_⟩
  have hid₃ := hjob (hr'.trans hr'') hs₃
  obtain ⟨hholds₃, hsame₃⟩ := effect_of_commit hv (current_of_undisturbed (hr'.trans hr'')) hs₃
  rw [hid₃] at hholds₃ hsame₃
  obtain ⟨hq, htokens⟩ := hsame₃ hholds.sealed
  rw [hq] at hholds₃
  obtain ⟨hkey, hres⟩ := hholds.eq hholds₃
  exact ⟨hkey, hres, htokens, hq⟩

end Runs

namespace Demo

/-- An administrator, a user, and a parsed and approved import that renames the user. -/
def db : Db where
  users := [{ id := 7, email := "root", displayName := "Root" }, { id := 9, email := "ann", displayName := "Ann" }]
  roleAssignments := [{
    id := 70, userId := 7, roleCode := .superAdmin, scopeType := .installation, effectiveFrom := 0 }]
  workforceJobs := [{ id := 60, importType := .users, uploaderId := 7, state := .parsed, decisionVersion := 1 }]
  workforceRows := [{
    id := 61, importJobId := 60, rowNumber := 1, action := some "update", normalizedIdentity := some 9
    parsedValues := some { displayName := some "Beth" }, validationResult := .valid }]
  workforceDecisions := [{
    id := 62, importJobId := 60, decisionVersion := 1, decision := .approve, decisionTier := .standard, decidedBy := 7 }]

/-- The schedule of one request in slot `i`, `n` steps long. -/
def turns (i : ℕ) (op : Op) (n : ℕ) : List (System.Turn Op) := .start i op :: List.replicate n (.next i)

/-- The administrator commits the import in minute `n`. -/
def commit (n : ℕ) (key : String) : Op := .commit (Queue.Demo.call n) ⟨60, 7, 1, key⟩

def run (schedule : List (System.Turn Op)) : System Db LockKey Err Result Op :=
  System.play body { committed := db } schedule

/-- A request loads the job, and another one goes on to its last step. -/
def overtaking : List (System.Turn Op) := turns 2 (commit 2 "other") 2 ++ turns 1 (commit 1 "k") 20

/-- The replay of a commit up to its last step. -/
def replay : List (System.Turn Op) := turns 2 (commit 2 "k") 6

/-- The request commits job 60 under the key. -/
def answers (key : String) : Op → Result → Bool
  | .commit _ r, .applied _ => r.jobId = 60 && r.idempotencyKey = key
  | _, _ => false

theorem eq_of_answers {key : String} {op : Op} {a : Result} (h : answers key op a = true) :
    ∃ c r res, op = .commit c r ∧ a = .applied res ∧ r.jobId = 60 ∧ r.idempotencyKey = key := by
  cases op with
  | commit c r =>
    cases a with
    | applied res =>
      unfold answers at h
      rw [Bool.and_eq_true, decide_eq_true_eq, decide_eq_true_eq] at h
      exact ⟨c, r, res, rfl, rfl, h.1, h.2⟩
    | done => cases h
  | parse | cleanup => cases h

def snapshots (x : Db) : List (Option Snapshot) := x.workforceRows.map WorkforceImportRow.preCommitSnapshot

end Demo

theorem applied_once_replayed : ∃ s s' s₃ c r res c' r' res',
    System.Step body s 1 (.committed (.commit c r) (.applied res)) s' ∧
    System.Step body (System.play body s' Demo.replay) 2 (.committed (.commit c' r') (.applied res')) s₃ ∧
    res'.outcomes = res.outcomes ∧ res'.activationTokens = [] ∧
    s₃.committed = (System.play body s' Demo.replay).committed := by
  let s := Demo.run (Demo.turns 1 (Demo.commit 1 "k") 20)
  obtain ⟨op, a, ha, hs⟩ := System.step_play_of_ready body (by decide +kernel : s.ready 1 (Demo.answers "k") = true)
  obtain ⟨c, r, res, rfl, rfl, hjob, hkey⟩ := Demo.eq_of_answers ha
  obtain ⟨op', a', ha', hs'⟩ := System.step_play_of_ready body (by decide +kernel :
    (System.play body (System.play body s [.next 1]) Demo.replay).ready 2 (Demo.answers "k") = true)
  obtain ⟨c', r', res', rfl, rfl, hjob', hkey'⟩ := Demo.eq_of_answers ha'
  obtain ⟨-, h⟩ := applied_once (v := Demo.db) (by decide) (System.reaches_of_permits
    (Demo.turns 1 (Demo.commit 1 "k") 20) _ (by decide +kernel : System.permits body (undisturbed 60) _ _ = true)) hs
  obtain ⟨-, -, h⟩ := h _ (System.reaches_of_permits Demo.replay _ (by decide +kernel))
  obtain ⟨-, houtcomes, htokens, hquiet⟩ := h 2 c' r' _ _ hs'
  exact ⟨s, _, _, c, r, res, c', r', res', hs, hs', houtcomes, htokens, hquiet⟩

/-- A request that loaded the job before another one committed it applies its rows again, under a key
of its own: the snapshot of the user is then the one that the first commit left. -/
theorem applied_twice : ∃ s s' s'' s₃ c r res c' r' res',
    System.Reaches body System.Any { committed := Demo.db } s ∧
    System.Step body s 1 (.committed (.commit c r) (.applied res)) s' ∧ System.Reaches body System.Any s' s'' ∧
    System.Step body s'' 2 (.committed (.commit c' r') (.applied res')) s₃ ∧
    (r.jobId = 60 ∧ r.idempotencyKey = "k" ∧ r'.jobId = 60 ∧ r'.idempotencyKey = "other") ∧
    Holds s'.committed 60 "k" [(1, .updated)] ∧ Holds s₃.committed 60 "other" [(1, .updated)] ∧
    Demo.snapshots s'.committed = [some (.userFields (some "Ann") none none)] ∧
    Demo.snapshots s₃.committed = [some (.userFields (some "Beth") none none)] := by
  let s := Demo.run Demo.overtaking
  let s'' := System.play body (System.play body s [.next 1]) (List.replicate 16 (.next 2))
  obtain ⟨op, a, ha, hs⟩ := System.step_play_of_ready body (by decide +kernel : s.ready 1 (Demo.answers "k") = true)
  obtain ⟨c, r, res, rfl, rfl, hjob, hkey⟩ := Demo.eq_of_answers ha
  obtain ⟨op', a', ha', hs'⟩ := System.step_play_of_ready body (by decide +kernel :
    s''.ready 2 (Demo.answers "other") = true)
  obtain ⟨c', r', res', rfl, rfl, hjob', hkey'⟩ := Demo.eq_of_answers ha'
  exact ⟨s, _, s'', _, c, r, res, c', r', res', System.reaches_play .., hs, System.reaches_play .., hs',
    ⟨hjob, hkey, hjob', hkey'⟩, by decide +kernel, by decide +kernel, by decide +kernel, by decide +kernel⟩

end OmniDB.BulkCommitRace
