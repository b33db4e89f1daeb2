import OmniDB.Proofs.People
import OmniDB.Proofs.Service
import OmniDB.Proofs.Statements
import OmniDB.Tx.Sealed

/-! Commits of campaign imports that race with each other, with parsing and with the expiry
cleanup. A request and the cleanup load a job before they lock it: where no job is committed
between the two, a job is imported once and stays as its commit left it. -/

namespace OmniDB.CommitRace

open Tx
open Tx.Prog

inductive Op where
  | commit (c : Call) (r : Imports.CommitRequest)
  | parse (c : Call) (protect : Imports.Protect) (file : Imports.SourceFile) (cols : Imports.Columns) (id : Uuid)
  | cleanup (c : Call)

inductive Result where
  | imported (res : ImportResult)
  | done

def body : Op → Txn Result
  | .commit c r => Result.imported <$> Imports.commitImport c r
  | .parse c protect file cols id => (fun _ => .done) <$> Imports.parseJob c protect file cols id
  | .cleanup c => (fun _ => .done) <$> Imports.cleanupExpiredJobs c

/-- The columns of a job that a replay of its commit reads. -/
structure Columns where
  state : JobState
  idempotencyKey : Option String
  committedResult : Option ImportResult
deriving DecidableEq

def columnsOf (job : ImportJob) : Columns := ⟨job.state, job.idempotencyKey, job.committedResult⟩

def rowsOf (x : Db) (job : Uuid) : List ImportRow := x.importRows.filter fun r => r.importJobId = job

/-- Import jobs, which are sealed by their commit. -/
def jobs : Register Db LockKey Uuid (Option ImportJob) (Option Columns × List ImportRow) where
  lock := .importJob
  record k := match k with
    | .importJob id => some id
    | _ => none
  record_eq {k i} := by cases k <;> simp
  row x id := Table.find x.importJobs id
  kept x id := ((Table.find x.importJobs id).map columnsOf, rowsOf x id)
  isSealed t := t.1.any fun c => c.state = .committed
  sealed_congr h := by rw [h]
  loads := ["import job", "cleanup_expired_jobs"]

/-- The job is committed under the key, and its result is `res`. -/
def Holds (x : Db) (job : Uuid) (key : String) (res : ImportResult) : Prop :=
  ∃ t, (Table.find x.importJobs job).map columnsOf = some t ∧ t.state = .committed ∧
    t.idempotencyKey = some key ∧ t.committedResult.getD ⟨job, 0, 0⟩ = res

/-- A commit leaves the job committed with the result it answers, and only reads one that was. -/
def Op.Effect : Op → Result → Db → Db → Prop
  | .commit _ r, .imported res, x, x' => Holds x' r.jobId r.idempotencyKey res ∧ (jobs.Sealed x r.jobId → x' = x)
  | _, _, _, _ => True

instance (x : Db) (job : Uuid) (key : String) (res : ImportResult) : Decidable (Holds x job key res) :=
  decidable_of_iff (((Table.find x.importJobs job).map columnsOf).any fun t => t.state = .committed &&
      t.idempotencyKey = some key && t.committedResult.getD ⟨job, 0, 0⟩ = res) (by
    simp only [Option.any_eq_true, Bool.and_eq_true, decide_eq_true_eq, and_assoc]
    rfl)

theorem sealed_iff {x : Db} {id : Uuid} :
    jobs.Sealed x id ↔ ∃ j, Table.find x.importJobs id = some j ∧ j.state = .committed := by
  unfold Register.Sealed
  change ((Table.find x.importJobs id).map columnsOf).any _ = true ↔ _
  rw [Option.any_map, Option.any_eq_true]
  exact exists_congr fun j => and_congr_right fun _ => decide_eq_true_iff

theorem Holds.sealed {x : Db} {job : Uuid} {key : String} {res : ImportResult} (h : Holds x job key res) :
    jobs.Sealed x job := by
  obtain ⟨t, ht, hst, -⟩ := h
  obtain ⟨j, hj, rfl⟩ := Option.map_eq_some_iff.1 ht
  exact sealed_iff.2 ⟨j, hj, hst⟩

theorem Holds.congr {x x' : Db} {job : Uuid} {key : String} {res : ImportResult} (h : Holds x job key res)
    (hx : jobs.kept x' job = jobs.kept x job) : Holds x' job key res := by
  have hcols : (Table.find x'.importJobs job).map columnsOf = (Table.find x.importJobs job).map columnsOf :=
    congrArg Prod.fst hx
  unfold Holds
  rwa [hcols]

theorem Holds.eq {x : Db} {job : Uuid} {key key' : String} {res res' : ImportResult} (h : Holds x job key res)
    (h' : Holds x job key' res') : key' = key ∧ res' = res := by
  obtain ⟨t, ht, -, hkey, hres⟩ := h
  obtain ⟨t', ht', -, hkey', hres'⟩ := h'
  cases ht.symm.trans ht'
  exact ⟨Option.some.inj (hkey'.symm.trans hkey), hres'.symm.trans hres⟩

/-! ## Identifiers -/

def jobIds (x : Db) : List Uuid := x.importJobs.map ImportJob.id

section Leaves

open Imports

theorem leaves_setImportJob (id : Uuid) {f : ImportJob → ImportJob} (hf : ∀ j, (f j).id = j.id) :
    Leaves jobIds (setImportJob id f) :=
  .then inferInstance fun _ => .update fun _ => Table.keys_modify _ _ fun j hj => (hf j).trans hj

instance (e : AuditEvent) : Leaves jobIds (recordAudit e) := .update fun _ => rfl

instance (rows : List ImportRow) : Leaves jobIds (addRows rows) := .update fun _ => rfl

/-- The tables of the imports. -/
def stored (x : Db) : List ImportJob × List ImportRow := (x.importJobs, x.importRows)

instance (k : Contact) : Leaves stored (insertContact k) := leaves_insertRow fun _ => rfl

instance (cc : CampaignContact) : Leaves stored (insertCampaignContact cc) := leaves_insertRow fun _ => rfl

instance (w : WorkItem) : Leaves stored (insertWorkItem w) := leaves_insertRow fun _ => rfl

instance (c : Call) (campaign : Uuid) (phone : Fingerprint) (ciphertext : String) (n : ℕ) :
    Leaves stored (rowContact c campaign phone ciphertext n) := by
  unfold rowContact
  repeat' first | infer_instance | split | refine .then inferInstance fun _ => ?_

instance (c : Call) (campaign : Uuid) (now : Time) (acc : Inserted) (row : ImportRow) :
    Leaves stored (commitRow c campaign now acc row) := by
  unfold commitRow
  dsimp only
  repeat' first | infer_instance | split | refine .then inferInstance fun _ => ?_

instance (priority := low) {α : Type} {p : Txn α} [h : Leaves stored p] : Leaves jobIds p :=
  h.part fun x : List ImportJob × List ImportRow => x.1.map ImportJob.id

instance (c : Call) (r : CommitRequest) : Leaves jobIds (commitImport c r) := by
  unfold commitImport commitJob commitParsed assertProvenance
  dsimp only
  repeat' first
    | infer_instance | exact leaves_setImportJob _ fun _ => rfl | split | refine .then ?_ fun _ => ?_

instance (job : ImportJob) (error reason : String) : Leaves jobIds (failParse job error reason) := by
  unfold failParse
  refine .then ?_ fun _ => inferInstance
  exact leaves_setImportJob _ fun _ => rfl

instance (c : Call) (protect : Protect) (file : SourceFile) (cols : Imports.Columns) (id : Uuid) :
    Leaves jobIds (parseJob c protect file cols id) := by
  unfold parseJob
  dsimp only
  repeat' first
    | infer_instance | exact leaves_setImportJob _ fun _ => rfl | split | refine .then ?_ fun _ => ?_

instance (c : Call) : Leaves jobIds (cleanupExpiredJobs c) := by
  have (id : Uuid) : Leaves jobIds (update fun db => { db with
      importRows := db.importRows.filter fun r => r.importJobId ≠ id } : Txn Unit) := .update fun _ => rfl
  have (id : Uuid) : Leaves jobIds (setImportJob id fun j => { j with expiresAt := none }) :=
    leaves_setImportJob id fun _ => rfl
  have (id : Uuid) : Leaves jobIds (setImportJob id fun j => { j with state := .expired }) :=
    leaves_setImportJob id fun _ => rfl
  unfold cleanupExpiredJobs
  infer_instance

instance (op : Op) : Leaves jobIds (body op) := by
  cases op <;> unfold body <;> infer_instance

end Leaves

/-! ## The operations among others -/

def protocol : Protocol Db LockKey Err Result Op := jobs.protocol body (fun x => (jobIds x).Nodup) Op.Effect

instance : protocol.Respects jobs.locks fun x => (jobIds x).Nodup :=
  inferInstanceAs ((jobs.protocol body (fun x => (jobIds x).Nodup) Op.Effect).Respects jobs.locks _)

section Bodies

open Imports

variable {l l' : Stand Db LockKey Op} {p : Db → Db} {s s' : Db} {α : Type}

/-- Column update of one job. -/
def setJob (id : Uuid) (f : ImportJob → ImportJob) (x : Db) : Db :=
  { x with importJobs := Table.modify x.importJobs id f }

theorem find_setJob {f : ImportJob → ImportJob} (hf : ∀ j, (f j).id = j.id) (x : Db) (id id' : Uuid) :
    Table.find (setJob id f x).importJobs id' =
      if id' = id then (Table.find x.importJobs id').map f else Table.find x.importJobs id' :=
  Table.find_modify fun j hj => (hf j).trans hj

theorem keeps_setJob {id : Uuid} {f : ImportJob → ImportJob} (hf : ∀ j, (f j).id = j.id) :
    Keeps (jobs.others id) (setJob id f) := by
  have hfind (x : Db) (id' : Uuid) (hne : id' ≠ id) :
      Table.find (setJob id f x).importJobs id' = Table.find x.importJobs id' := by
    rw [find_setJob hf, if_neg hne]
  refine fun x => Register.others_congr (fun id' hne => ?_) (hfind x)
  change (_, _) = (_, rowsOf (setJob id f x) id')
  rw [hfind x id' hne]

/-- A change of other columns than those of the commit. -/
theorem kept_setJob {id : Uuid} {f : ImportJob → ImportJob} (hf : ∀ j, (f j).id = j.id)
    (hcols : ∀ j, columnsOf (f j) = columnsOf j) (x : Db) : jobs.kept (setJob id f x) id = jobs.kept x id := by
  change (_, _) = (_, rowsOf (setJob id f x) id)
  rw [find_setJob hf, if_pos rfl, Option.map_map]
  exact Prod.ext (Option.map_congr fun j _ => hcols j) rfl

theorem wp_setImportJob {id : Uuid} {f : ImportJob → ImportJob} {Q : Unit → Protocol.Assertion Db LockKey Op}
    (h : ∀ s', jobs.locks.Frame l.held s s' → protocol.granted l (.importJob id) s' →
      Q () (l.take (.importJob id)) (setJob id f ∘ p) s') :
    protocol.wp (setImportJob id f) Q l p s := by
  unfold setImportJob
  rw [Protocol.wp_bind, Protocol.wp_acquire]
  exact fun s' hs hg => h s' hs.1 hg

theorem holds_committed {x : Db} {job : Uuid} {row : ImportJob} (hrow : Table.find x.importJobs job = some row)
    (now : Time) (key : String) (res : ImportResult) : Holds (setJob job (committed now key res) x) job key res := by
  refine ⟨⟨.committed, some key, some res⟩, ?_, rfl, rfl, rfl⟩
  rw [find_setJob (f := committed now key res) (fun _ => rfl), if_pos rfl, hrow]
  rfl

theorem sofar_of_stored (h : Keeps stored p) : jobs.Sofar l p s := by
  have hjobs (x : Db) : (p x).importJobs = x.importJobs := congrArg Prod.fst (h x)
  have hrows (x : Db) : (p x).importRows = x.importRows := congrArg Prod.snd (h x)
  refine ⟨fun i => Or.inl fun x => ?_, fun i => Or.inr fun x => ?_⟩
  · change (_, List.filter _ _) = (_, List.filter _ _)
    rw [hjobs, hrows]
  · change Table.find _ _ = Table.find _ _
    rw [hjobs]

/-- The import of a job that is found open under its lock. -/
theorem commitParsed_effect (c : Call) (r : CommitRequest) (job : ImportJob) (loaded : Option Campaign)
    (hk : l.held (.importJob job.id)) (hopen : ¬jobs.Sealed s job.id) {row : ImportJob}
    (hrow : Table.find s.importJobs job.id = some row) :
    protocol.wp (commitParsed c r job loaded) (fun res l' p s' => jobs.Sofar l' p s' ∧
      ∀ x, jobs.locks.Frame l'.held s' x → Holds (p x) job.id r.idempotencyKey res ∧ ¬jobs.Sealed x job.id)
      l id s := by
  unfold commitParsed
  dsimp only
  rw [Protocol.wp_bind, Protocol.wp_view]
  intro s₁ hs₁
  rw [Protocol.wp_bind, Protocol.wp_raiseIf]
  intro _
  rw [Protocol.wp_bind]
  refine Protocol.wp_mono _ ?_ _ _ _ (Protocol.wp_leaves (D := jobs.locks) (I := fun x => (jobIds x).Nodup)
    (π := stored) _ _ id s₁ fun _ => rfl)
  intro campaign? l₂ p₂ s₂ h
  obtain ⟨hl₂, hp₂, hf₂⟩ := h
  rw [Protocol.wp_bind, Protocol.wp_expect]
  intro campaign _
  unfold assertProvenance
  rw [Protocol.wp_bind, Protocol.wp_raiseIf]
  intro _
  rw [Protocol.wp_bind, Protocol.wp_view]
  intro s₃ hs₃
  rw [Protocol.wp_bind]
  refine Protocol.wp_mono _ ?_ _ _ _ (Protocol.wp_leaves (D := jobs.locks) (I := fun x => (jobIds x).Nodup)
    (π := stored) _ _ p₂ s₃ hp₂)
  intro acc l₄ p₄ s₄ h
  obtain ⟨hl₄, hp₄, hf₄⟩ := h
  rw [Protocol.wp_bind]
  refine wp_setImportJob fun s₅ hf₅ _ => ?_
  simp only [Protocol.wp_bind, recordAudit, Protocol.wp_update, Protocol.wp_pure]
  have hf : jobs.locks.Frame l.held s s₅ := by
    refine (show jobs.locks.Frame l.held s s₁ from hs₁.1).trans (hf₂.trans ?_)
    refine (show jobs.locks.Frame l₂.held s₂ s₃ from hs₃.1).mono (fun k h => hl₂.held k h) |>.trans ?_
    exact (hf₄.mono fun k h => hl₂.held k h).trans (hf₅.mono fun k h => hl₄.held k (hl₂.held k h))
  refine ⟨?_, fun x hx => ⟨?_, ?_⟩⟩
  · have hsofar : jobs.Sofar (l₄.take (.importJob job.id)) p₄ s₅ := sofar_of_stored hp₄
    have hset := hsofar.write (i := job.id) (Or.inl rfl) (Or.inl (Register.not_sealed_of_frame hopen hk hf))
      (keeps_setJob (f := committed (c.utcnow 0) r.idempotencyKey ⟨job.id, acc.inserted, acc.suppressed⟩) fun _ => rfl)
    exact hset.write (i := job.id) (Or.inl rfl) (Or.inr fun _ => rfl) fun _ => rfl
  · have hx' : jobs.locks.Frame l.held s x := hf.trans (hx.mono fun k h => Or.inr (hl₄.held k (hl₂.held k h)))
    have hrow' : Table.find (p₄ x).importJobs job.id = some row := by
      rw [show (p₄ x).importJobs = x.importJobs from congrArg Prod.fst (hp₄ x)]
      exact (hx'.same _ hk job.id rfl).trans hrow
    exact holds_committed hrow' ..
  · exact Register.not_sealed_of_frame (Register.not_sealed_of_frame hopen hk hf) (Or.inl rfl) hx

theorem commit_effect (c : Call) (r : CommitRequest) (op : Op) (s : Db) :
    protocol.wp (commitImport c r) (fun res l p s => jobs.Sofar l p s ∧ ∀ x, jobs.locks.Frame l.held s x →
      Holds (p x) r.jobId r.idempotencyKey res ∧ (jobs.Sealed x r.jobId → p x = x)) { op := op } id s := by
  unfold commitImport
  rw [Protocol.wp_bind]
  refine wp_readRow (D := jobs.locks) (I := fun x => (jobIds x).Nodup) fun s₁ h₁ _ => ?_
  rw [Protocol.wp_bind, Protocol.wp_expect]
  intro j hj
  rw [Protocol.wp_bind]
  refine wp_readRow (D := jobs.locks) (I := fun x => (jobIds x).Nodup) fun s₂ h₂ _ => ?_
  simp only [Protocol.wp_bind, Protocol.wp_expect, Protocol.wp_view, Protocol.wp_raiseIf]
  intro campaign _ s₃ hs₃ _
  have h₃ : jobs.locks.grows s₁ s₃ := jobs.locks.grows_trans _ _ _ h₂.grows hs₃.1.grows
  unfold commitJob
  rw [Protocol.wp_bind]
  refine wp_forUpdate_granted (D := jobs.locks) (I := fun x => (jobIds x).Nodup) ?_ ?_
  · intro l' s' _ _ _
    rw [Protocol.wp_bind, Protocol.wp_expect]
    intro row hrow
    cases hrow
  intro l₄ l₅ s₄ s₅ row hl₄ hl₅ hg hlog hf₄ hf₅ hi₅ hrow _
  rw [Protocol.wp_bind, Protocol.wp_expect]
  rintro _ ⟨⟩
  have hkey : key j = key row := (Table.key_of_find hj).trans (Table.key_of_find hrow).symm
  have hmap : identityMap (some j) row = j := if_pos hkey
  dsimp only
  rw [hmap]
  have hid : j.id = r.jobId := Table.key_of_find hj
  split_ifs with hst
  · simp only [Protocol.wp_bind, Protocol.wp_raiseIf, Protocol.wp_pure]
    intro hkey
    have hsealed : jobs.Sealed s₁ r.jobId := sealed_iff.2 ⟨j, hj, hst⟩
    refine ⟨.init, fun x hx => ⟨?_, fun _ => rfl⟩⟩
    have hgrows : jobs.locks.grows s₁ x := jobs.locks.grows_trans _ _ _ (jobs.locks.grows_trans _ _ _ h₃ hf₄.grows)
      (jobs.locks.grows_trans _ _ _ hf₅.grows hx.grows)
    refine Holds.congr (x := s₁) ⟨columnsOf j, by rw [show Table.find s₁.importJobs r.jobId = _ from hj]; rfl, hst,
      not_not.1 hkey, ?_⟩ (hgrows _ hsealed)
    rw [hid]
    rfl
  · rw [Protocol.wp_bind, Protocol.wp_raiseIf]
    intro _
    rw [Protocol.wp_bind, Protocol.wp_raiseIf]
    intro _
    -- the job was open when it was loaded, so it is open now
    have hopen : ¬jobs.Sealed s₅ r.jobId := by
      refine Register.not_sealed_of_frame (fun hs₄ => ?_) (Or.inl rfl) hf₅
      have hload := hg r.jobId rfl hs₄ ("import job", s₁)
        (hl₄.log _ (List.mem_cons_of_mem _ (List.mem_cons_of_mem _ List.mem_cons_self))) List.mem_cons_self
      obtain ⟨j', hj', hst'⟩ := sealed_iff.1 hload
      cases hj.symm.trans hj'
      exact hst hst'
    have hk : l₅.held (.importJob j.id) := hid ▸ hl₅.held _ (Or.inl rfl)
    refine Protocol.wp_mono _ ?_ _ _ _ (commitParsed_effect c r j (some campaign) hk (hid ▸ hopen) (hid ▸ hrow))
    intro res l p s h
    obtain ⟨hsofar, hend⟩ := h
    refine ⟨hsofar, fun x hx => ?_⟩
    rw [← hid]
    exact ⟨(hend x hx).1, fun hs => absurd hs (hend x hx).2⟩

theorem leaves_setOpen (id : Uuid) {f : ImportJob → ImportJob} (hf : ∀ j, (f j).id = j.id) :
    Leaves (jobs.others id) (setImportJob id f) :=
  .then inferInstance fun _ => .update (keeps_setJob hf)

theorem leaves_addRows {id : Uuid} {rows : List ImportRow} (h : ∀ r ∈ rows, r.importJobId = id) :
    Leaves (jobs.others id) (addRows rows) := by
  refine .update fun x => Register.others_congr (fun id' hne => ?_) fun _ _ => rfl
  have hnone : rows.filter (fun r => decide (r.importJobId = id')) = [] := by
    refine List.filter_eq_nil_iff.2 fun r hr => ?_
    rw [decide_eq_true_eq, h r hr]
    exact Ne.symm hne
  change (_, List.filter _ (_ ++ _)) = (_, List.filter _ _)
  rw [List.filter_append, hnone, List.append_nil]

instance (id : Uuid) (e : AuditEvent) : Leaves (jobs.others id) (recordAudit e) := .update fun _ => rfl

theorem leaves_failParse {id : Uuid} {job : ImportJob} (hid : job.id = id) (error reason : String) :
    Leaves (jobs.others id) (failParse job error reason) := by
  subst hid
  unfold failParse
  refine .then ?_ fun _ => inferInstance
  exact leaves_setOpen _ fun _ => rfl

/-- The rows of the tally belong to the job. -/
theorem writes_tally (job : Uuid) {f : Tally → ParsedRow → Txn Tally} (rows : List ParsedRow)
    (hf : ∀ t row, Writes (fun _ => True) (f t row) fun t' => ∀ r ∈ t'.rows, r ∈ t.rows ∨ r.importJobId = job) :
    Writes (fun _ => True) (rows.foldlM f {}) fun t => ∀ r ∈ t.rows, r.importJobId = job := by
  refine Writes.foldlM (fun t row ht => (hf t row).weaken fun t' ht' r hr => ?_) rows fun _ hr => absurd hr List.not_mem_nil
  exact (ht' r hr).elim (ht r) fun hjob => hjob

theorem parse_effect (c : Call) (protect : Protect) (file : SourceFile) (cols : Imports.Columns) (job : Uuid) (op : Op)
    (s : Db) : protocol.wp (parseJob c protect file cols job) (fun _ l p s => jobs.Sofar l p s) { op := op } id s := by
  unfold parseJob
  rw [Protocol.wp_bind]
  refine wp_forUpdate (D := jobs.locks) (I := fun x => (jobIds x).Nodup) (fun _ _ _ _ _ => .init) ?_
  intro l s₁ j hl hk _ hf _ hj _
  have hid : j.id = job := Table.key_of_find hj
  by_cases hq : j.state = .quarantined
  · have hopen : ¬jobs.Sealed s₁ job := by
      intro hs
      obtain ⟨j', hj', hst⟩ := sealed_iff.1 hs
      cases hj.symm.trans hj'
      rw [hq] at hst
      cases hst
    have hset (f : ImportJob → ImportJob) (hf : ∀ j, (f j).id = j.id) :
        Leaves (jobs.others job) (setImportJob job f) := leaves_setOpen job hf
    dsimp only
    rw [if_pos hq]
    refine Protocol.wp_mono _ (fun _ _ _ _ h => h.2.1) _ _ _
      (@Register.wp_open _ _ _ _ _ _ _ _ _ jobs _ _ _ _ protocol (fun x => (jobIds x).Nodup) _ _ ?_ .init hk hopen)
    refine .then ?_ fun _ => .then inferInstance fun _ => ?_
    · exact hset _ fun _ => rfl
    split
    · exact leaves_failParse hid ..
    split
    · exact leaves_failParse hid ..
    refine .seq (writes_tally job file.rows fun t row => ?_) fun tally htally => ?_
    · simp only [writes_bind, writes_view, writes_pure, Service.add_rows, List.mem_append, List.mem_singleton]
      rintro db r (hr | rfl)
      · exact Or.inl hr
      · exact Or.inr Service.classifyRow_job
    split
    · refine .then (leaves_addRows fun r hr => htally r (List.mem_of_mem_take hr)) fun _ => ?_
      exact leaves_failParse hid ..
    refine .then (leaves_addRows htally) fun _ => ?_
    split
    · exact leaves_failParse hid ..
    refine .then ?_ fun _ => inferInstance
    exact hset _ fun _ => rfl
  · dsimp only
    rw [if_neg hq]
    exact Register.Sofar.init

/-- The rows of a job that expires, and its row. -/
theorem keeps_deleteRows (id : Uuid) : Keeps (jobs.others id) fun x : Db =>
    { x with importRows := x.importRows.filter fun r => r.importJobId ≠ id } := by
  refine fun x => Register.others_congr (fun id' hne => ?_) fun _ _ => rfl
  change (_, List.filter _ (List.filter _ _)) = (_, List.filter _ _)
  rw [List.filter_filter]
  refine Prod.ext rfl (List.filter_congr fun r _ => ?_)
  by_cases hr : r.importJobId = id' <;> simp [hr, hne]

theorem cleanup_effect (c : Call) (op : Op) (s : Db) : protocol.wp (cleanupExpiredJobs c)
    (fun _ l p s => jobs.Sofar l p s) { op := op } id s := by
  unfold cleanupExpiredJobs
  dsimp only
  rw [Protocol.wp_bind, Protocol.wp_view]
  intro v hv
  have hunique : Table.Unique v.importJobs := hv.2
  refine Protocol.wp_mono _ (fun _ _ _ _ h => h.1) _ _ _ (Protocol.wp_foldlM_mem
    (M := fun _ l p s => jobs.Sofar l p s ∧ ("cleanup_expired_jobs", v) ∈ l.log) _ ?_ _ _ _ _
    ⟨.init, List.mem_cons_self⟩)
  intro j hj count l p s h
  obtain ⟨hsofar, hlog⟩ := h
  have hfind : Table.find v.importJobs j.id = some j :=
    hunique.find_of_mem (List.mem_of_mem_filter (mem_scan.1 hj))
  have hheld : (l.take (.importJob j.id)).held (jobs.lock j.id) := Or.inl rfl
  split_ifs with hst
  · rw [Protocol.wp_bind]
    refine wp_setImportJob fun s₁ hf hg => ?_
    exact ⟨(hsofar.later (l.onward_take _) hf).write hheld (Or.inr (kept_setJob (fun _ => rfl) fun _ => rfl))
      (keeps_setJob fun _ => rfl), hlog⟩
  · rw [Protocol.wp_bind, Protocol.wp_update, Protocol.wp_bind]
    refine wp_setImportJob fun s₁ hf hg => ?_
    -- the cleanup found the job open, so it is open now
    have hopen : ¬jobs.Sealed s₁ j.id := by
      intro hs
      obtain ⟨j', hj', hst'⟩ := sealed_iff.1 (hg j.id rfl hs _ hlog (List.mem_cons_of_mem _ List.mem_cons_self))
      cases hfind.symm.trans hj'
      exact hst hst'
    have hdelete := (hsofar.later (l.onward_take _) hf).write hheld (Or.inl hopen) (keeps_deleteRows j.id)
    exact ⟨hdelete.write hheld (Or.inl hopen) (keeps_setJob fun _ => rfl), hlog⟩

end Bodies

theorem protocol_valid : protocol.Valid fun s i e => jobs.current s i e = true := by
  refine Register.protocol_valid fun op s _ => ?_
  cases op with
  | commit c r =>
    refine Queue.wp_map.2 (Protocol.wp_mono _ (fun res l p s h => ?_) _ _ _ (commit_effect c r _ s))
    exact ⟨h.1, fun x hx _ => h.2 x hx⟩
  | parse c protect file cols job =>
    refine Queue.wp_map.2 (Protocol.wp_mono _ (fun _ l p s h => ?_) _ _ _ (parse_effect c protect file cols job _ s))
    exact ⟨h, fun _ _ _ => trivial⟩
  | cleanup c =>
    refine Queue.wp_map.2 (Protocol.wp_mono _ (fun _ l p s h => ?_) _ _ _ (cleanup_effect c _ s))
    exact ⟨h, fun _ _ _ => trivial⟩

/-! ## Runs -/

theorem effect_of_commit {v : Db} (hv : Table.Unique v.importJobs) {s s' : System Db LockKey Err Result Op}
    (hr : System.Reaches body (fun s i e => jobs.current s i e = true) { committed := v } s) {i : ℕ} {op : Op} {a : Result}
    (hs : System.Step body s i (.committed op a) s') : op.Effect a s.committed s'.committed :=
  (Protocol.commit_of_reaches protocol_valid hv hr hs).2

/-- In a run in which no job is committed between a load and the lock that follows it, a job that
was imported stays committed with its result, and no later request under any key changes
anything or is answered otherwise. -/
theorem imported_once {v : Db} (hv : Table.Unique v.importJobs) {s : System Db LockKey Err Result Op}
    (hr : System.Reaches body (fun s i e => jobs.current s i e = true) { committed := v } s)
    {i : ℕ} {c : Call} {r : Imports.CommitRequest} {res : ImportResult} {s' : System Db LockKey Err Result Op}
    (hs : System.Step body s i (.committed (.commit c r) (.imported res)) s') :
    (jobs.Sealed s.committed r.jobId → s'.committed = s.committed) ∧
      ∀ s'', System.Reaches body (fun s i e => jobs.current s i e = true) s' s'' →
        Holds s''.committed r.jobId r.idempotencyKey res ∧ rowsOf s''.committed r.jobId = rowsOf s'.committed r.jobId ∧
        ∀ j c' r' res' s₃, r'.jobId = r.jobId →
          System.Step body s'' j (.committed (.commit c' r') (.imported res')) s₃ →
            r'.idempotencyKey = r.idempotencyKey ∧ res' = res ∧ s₃.committed = s''.committed := by
  obtain ⟨hholds, hsame⟩ := effect_of_commit hv hr hs
  have hr' := hr.tail ⟨i, _, rfl, hs⟩
  refine ⟨hsame, fun s'' hr'' => ?_⟩
  have hkept := Register.kept_of_reaches protocol_valid hv hr' hr'' hholds.sealed
  refine ⟨hholds.congr hkept, congrArg Prod.snd hkept, fun j c' r' res' s₃ hjob hs₃ => ?_⟩
  obtain ⟨hholds₃, hsame₃⟩ := effect_of_commit hv (hr'.trans hr'') hs₃
  rw [hjob] at hholds₃ hsame₃
  have hquiet := hsame₃ (hholds.congr hkept).sealed
  rw [hquiet] at hholds₃
  obtain ⟨hkey, hres⟩ := (hholds.congr hkept).eq hholds₃
  exact ⟨hkey, hres, hquiet⟩

namespace Demo

/-- The schedule of one request in slot `i`, `n` steps long. -/
def turns (i : ℕ) (op : Op) (n : ℕ) : List (System.Turn Op) := .start i op :: List.replicate n (.next i)

/-- Manager 7 commits the approved import in minute `n`. -/
def commit (n : ℕ) (key : String) : Op := .commit (Queue.Demo.call n) ⟨60, 7, 1, key⟩

/-- Where a schedule leads from the parsed and approved import. -/
def run (schedule : List (System.Turn Op)) : System Db LockKey Err Result Op :=
  System.play body { committed := Queue.Demo.importDb } schedule

/-- One request loads the job, and another one goes on to its last step. -/
def overtaking (key : String) : List (System.Turn Op) := turns 2 (commit 2 key) 1 ++ turns 1 (commit 1 "k") 26

/-- A commit, and its replay up to the last step. -/
def replay : List (System.Turn Op) := turns 2 (commit 2 "k") 6

/-- The request commits job 60 under the key and is answered with `inserted` contacts. -/
def answers (key : String) (inserted : ℕ) : Op → Result → Bool
  | .commit _ r, .imported res => r.jobId = 60 && r.idempotencyKey = key && res = ⟨60, inserted, 0⟩
  | _, _ => false

theorem eq_of_answers {key : String} {inserted : ℕ} {op : Op} {a : Result} (h : answers key inserted op a = true) :
    ∃ c r, op = .commit c r ∧ a = .imported ⟨60, inserted, 0⟩ ∧ r.jobId = 60 ∧ r.idempotencyKey = key := by
  cases op with
  | commit c r =>
    cases a with
    | imported res =>
      unfold answers at h
      rw [Bool.and_eq_true, Bool.and_eq_true, decide_eq_true_eq, decide_eq_true_eq, decide_eq_true_eq] at h
      exact ⟨c, r, rfl, by rw [h.2], h.1.1, h.1.2⟩
    | done => cases h
  | parse | cleanup => cases h

/-- A commit under key "k" that imports one contact, and one under `key` after it that answers with none. -/
def Replaced (key : String) : Prop :=
  ∃ s s' s'' s₃ c r c' r', System.Reaches body System.Any { committed := Queue.Demo.importDb } s ∧
    System.Step body s 1 (.committed (.commit c r) (.imported ⟨60, 1, 0⟩)) s' ∧
    System.Reaches body System.Any s' s'' ∧
    System.Step body s'' 2 (.committed (.commit c' r') (.imported ⟨60, 0, 0⟩)) s₃ ∧
    (r.jobId = 60 ∧ r.idempotencyKey = "k" ∧ r'.jobId = 60 ∧ r'.idempotencyKey = key) ∧
    Holds s'.committed 60 "k" ⟨60, 1, 0⟩ ∧ Holds s₃.committed 60 key ⟨60, 0, 0⟩

end Demo

theorem imported_once_replayed : ∃ s s' s₃ c r c' r' res', System.Step body s 1 (.committed (.commit c r)
      (.imported ⟨60, 1, 0⟩)) s' ∧ System.Step body (System.play body s' Demo.replay) 2
        (.committed (.commit c' r') (.imported res')) s₃ ∧
    res' = ⟨60, 1, 0⟩ ∧ s₃.committed = (System.play body s' Demo.replay).committed := by
  let s := Demo.run (Demo.turns 1 (Demo.commit 1 "k") 26)
  obtain ⟨op, a, ha, hs⟩ := System.step_play_of_ready body (by decide +kernel : s.ready 1 (Demo.answers "k" 1) = true)
  obtain ⟨c, r, rfl, rfl, hjob, hkey⟩ := Demo.eq_of_answers ha
  obtain ⟨op', a', ha', hs'⟩ := System.step_play_of_ready body (by decide +kernel :
    (System.play body (System.play body s [.next 1]) Demo.replay).ready 2 (Demo.answers "k" 1) = true)
  obtain ⟨c', r', rfl, rfl, hjob', hkey'⟩ := Demo.eq_of_answers ha'
  obtain ⟨-, h⟩ := imported_once (by decide) (System.reaches_of_permits (Demo.turns 1 (Demo.commit 1 "k") 26) _
    (by decide +kernel : System.permits body jobs.current { committed := Queue.Demo.importDb } _ = true)) hs
  obtain ⟨-, -, h⟩ := h _ (System.reaches_of_permits Demo.replay _ (by decide +kernel))
  obtain ⟨-, hres, hquiet⟩ := h 2 c' r' _ _ (hjob'.trans hjob.symm) hs'
  exact ⟨s, _, _, c, r, c', r', _, hs, hs', hres, hquiet⟩

theorem Demo.replaced {key : String} (h : (Demo.run (Demo.overtaking key)).ready 1 (Demo.answers "k" 1) = true)
    (h' : (System.play body (System.play body (Demo.run (Demo.overtaking key)) [.next 1])
      (List.replicate 16 (.next 2))).ready 2 (Demo.answers key 0) = true)
    (hfirst : Holds (System.play body (Demo.run (Demo.overtaking key)) [.next 1]).committed 60 "k" ⟨60, 1, 0⟩)
    (hlast : Holds (System.play body (System.play body (System.play body (Demo.run (Demo.overtaking key)) [.next 1])
      (List.replicate 16 (.next 2))) [.next 2]).committed 60 key ⟨60, 0, 0⟩) : Demo.Replaced key := by
  obtain ⟨op, a, ha, hs⟩ := System.step_play_of_ready body h
  obtain ⟨c, r, rfl, rfl, hjob, hkey⟩ := Demo.eq_of_answers ha
  obtain ⟨op', a', ha', hs'⟩ := System.step_play_of_ready body h'
  obtain ⟨c', r', rfl, rfl, hjob', hkey'⟩ := Demo.eq_of_answers ha'
  exact ⟨_, _, _, _, c, r, c', r', System.reaches_play .., hs, System.reaches_play .., hs',
    ⟨hjob, hkey, hjob', hkey'⟩, hfirst, hlast⟩

/-- A request that loaded the job before another one committed it imports it again: it finds every
contact in the campaign, and its empty result replaces the first one, under the same key or another. -/
theorem import_replaced : Demo.Replaced "k" ∧ Demo.Replaced "other" :=
  ⟨Demo.replaced (by decide +kernel) (by decide +kernel) (by decide +kernel) (by decide +kernel),
    Demo.replaced (by decide +kernel) (by decide +kernel) (by decide +kernel) (by decide +kernel)⟩

end OmniDB.CommitRace
