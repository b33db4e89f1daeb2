import OmniDB.Proofs.Completion
import OmniDB.Proofs.ImportCommit
import OmniDB.Proofs.Leasing
import OmniDB.Spec.Queue

/-! The work queue as a system. Each operation has one effect, whatever else runs; what
holds of every run follows from the effects. -/

namespace OmniDB.Queue

open Tx

/-- What a commit of the operation with the given result does. -/
def Op.Effect : Op → Result → (LockKey → Prop) → Db → Db → Prop
  | .leaseNext c agent, .lease res => Work.LeaseEffect c agent res
  | .getActiveLease c agent, .lease res => fun _ x x' =>
    x' = x ∧ ∀ lease, res = some lease → ∃ w f, Work.Resumes c agent lease x w f
  | .completeWorkItem c r, .completion res => Work.CompleteEffect c r res
  | .skipWorkItem c id agent leaseId reason, .item _ => fun held =>
    WorkEffect held (Work.Skips c id agent leaseId reason) [] []
  | .renewLease c id agent leaseId, .item _ => fun held =>
    WorkEffect held (Work.Renews c id agent leaseId) [] []
  | .reclaimExpiredLeases c, .count _ => fun held =>
    WorkEffect held (Work.Reclaims fun w => Work.expiredLease (c.utcnow 0) w = true) [] []
  | .reclaimLeasesForUser _ agent, .count _ => fun held =>
    WorkEffect held (Work.Reclaims fun w => w.leaseOwnerId = some agent) [] []
  | .releaseCampaignWorkForAgent _ agent _, .count _ => fun held =>
    WorkEffect held (Work.Releases agent) [] []
  | .rescheduleReviewItem _ id _ retryAt _, .item _ => fun held =>
    WorkEffect held (Work.Reschedules id retryAt) [] []
  | .increaseReviewItemAttempts c id _ newMaxAttempts _, .item _ => fun held =>
    WorkEffect held (Work.Raises c id newMaxAttempts) [] []
  | .closeReviewItem c id _ _, .item _ => fun held => WorkEffect held (Work.Closes c id) [] []
  | .commitImport _ _, .imported _ => Imports.ImportsInto
  | _, _ => fun _ _ _ => False

variable {α ω : Type} {P : Protocol Db LockKey Err α ω}

theorem wp_map {β γ : Type} {f : β → γ} {x : Txn β} {Q : γ → Protocol.Assertion Db LockKey ω}
    {l : Stand Db LockKey ω} {p : Db → Db} {s : Db} :
    P.wp (f <$> x) Q l p s ↔ P.wp x (fun a => Q (f a)) l p s := by
  rw [map_eq_pure_bind, Protocol.wp_bind]
  rfl

/-- Every operation has its effect, under any interference that follows the discipline. -/
theorem body_effect [Disciplined P] (op : Op) (l : Stand Db LockKey ω) (s : Db) :
    P.wp (body op) (fun a => discipline.Settles Db.WellFormed (op.Effect a)) l id s := by
  cases op with
  | leaseNext c agent => exact wp_map.2 (Work.leaseNext_effect c agent)
  | getActiveLease c agent => exact wp_map.2 (Work.getActiveLease_effect c agent)
  | completeWorkItem c r => exact wp_map.2 (Work.completeWorkItem_effect c r)
  | skipWorkItem c id agent leaseId reason =>
    exact wp_map.2 (Work.skipWorkItem_effect c id agent leaseId reason)
  | renewLease c id agent leaseId => exact wp_map.2 (Work.renewLease_effect c id agent leaseId)
  | reclaimExpiredLeases c => exact wp_map.2 (Work.reclaimExpiredLeases_effect c)
  | reclaimLeasesForUser c agent => exact wp_map.2 (Work.reclaimLeasesForUser_effect c agent)
  | releaseCampaignWorkForAgent c agent campaign =>
    exact wp_map.2 (Work.releaseCampaignWorkForAgent_effect c agent campaign)
  | rescheduleReviewItem c id actor retryAt reason =>
    exact wp_map.2 (Work.rescheduleReviewItem_effect c id actor retryAt reason)
  | increaseReviewItemAttempts c id actor newMaxAttempts reason =>
    exact wp_map.2 (Work.increaseReviewItemAttempts_effect c id actor newMaxAttempts reason)
  | closeReviewItem c id actor reason => exact wp_map.2 (Work.closeReviewItem_effect c id actor reason)
  | commitImport c r => exact wp_map.2 (Imports.commitImport_effect c r)

section Effects

variable {op : Op} {a : Result} {held : LockKey → Prop} {x x' : Db}

/-- What a commit of the operation can do to a row of the queue. -/
def Op.Change : Op → WorkItem → WorkItem → Prop
  | .leaseNext c agent => fun w w' => Work.ClosesAtLease (c.utcnow 0) w w' ∨
    ∃ src a, src.conditions agent (c.utcnow 0) w = true ∧ w' = Work.leaseTo c agent src a w
  | .getActiveLease _ _ => fun _ _ => False
  | .completeWorkItem c r => Work.Completes c r
  | .skipWorkItem c id agent leaseId reason => Work.Skips c id agent leaseId reason
  | .renewLease c id agent leaseId => Work.Renews c id agent leaseId
  | .reclaimExpiredLeases c => Work.Reclaims fun w => Work.expiredLease (c.utcnow 0) w = true
  | .reclaimLeasesForUser _ agent => Work.Reclaims fun w => w.leaseOwnerId = some agent
  | .releaseCampaignWorkForAgent _ agent _ => Work.Releases agent
  | .rescheduleReviewItem _ id _ retryAt _ => Work.Reschedules id retryAt
  | .increaseReviewItemAttempts c id _ newMaxAttempts _ => Work.Raises c id newMaxAttempts
  | .closeReviewItem c id _ _ => Work.Closes c id
  | .commitImport _ _ => fun _ _ => False

/-- The operation completes a leased row, and `t` is the attempt that records it. -/
def Op.Records (op : Op) (x x' : Db) (t : CallAttempt) : Prop :=
  ∃ c r, op = .completeWorkItem c r ∧ ∃ w w' d, Work.CompletedRow c r x x' t w w' d

/-- A commit changes rows of the queue, closes the phones it suppresses and records the
attempts it stores, or imports. -/
theorem Op.Effect.cases (h : op.Effect a held x x') :
    (∃ new dnc, WorkEffect held op.Change new dnc x x' ∧
      (∀ e ∈ dnc, x'.PhoneClosed e.phoneFingerprint) ∧ ∀ t ∈ new, op.Records x x' t) ∨
    ∃ c r, op = .commitImport c r ∧ Imports.ImportsInto held x x' := by
  cases op <;> cases a
  case leaseNext.lease res =>
    cases res with
    | none => exact Or.inl ⟨[], [], h.1.mono fun _ _ => Or.inl, by simp, by simp⟩
    | some lease =>
      rcases h with ⟨rfl, -⟩ | ⟨w, src, a, f, h⟩
      · exact Or.inl ⟨[], [], WorkEffect.refl _, by simp, by simp⟩
      · refine Or.inl ⟨[], [], h.effect.mono fun v v' hv => ?_, by simp, by simp⟩
        rcases hv with hv | ⟨rfl, rfl⟩
        · exact Or.inl hv
        · exact Or.inr ⟨src, a.id, h.condition, rfl⟩
  case getActiveLease.lease res =>
    obtain ⟨rfl, -⟩ := h
    exact Or.inl ⟨[], [], WorkEffect.refl _, by simp, by simp⟩
  case completeWorkItem.completion res =>
    rcases h with ⟨rfl, -⟩ | ⟨a, dnc, h⟩
    · exact Or.inl ⟨[], [], WorkEffect.refl _, by simp, by simp⟩
    · refine Or.inl ⟨[a], dnc, h.effect, h.closed, fun t ht => ?_⟩
      obtain rfl := List.mem_singleton.1 ht
      exact ⟨_, _, rfl, h.row⟩
  case commitImport.imported c r res => exact Or.inr ⟨c, r, rfl, h⟩
  all_goals first | exact Or.inl ⟨[], [], h, by simp, by simp⟩ | exact h.elim

/-- A row of the new state is a row of the old one, changed or not, or a new queued row. -/
theorem Op.Effect.row_back (h : op.Effect a held x x') {id : Uuid} {w' : WorkItem}
    (hw : Table.find x'.workItems id = some w') :
    (∃ w, Table.find x.workItems id = some w ∧ (w' = w ∨ (w.state.terminal = false ∧ op.Change w w'))) ∨
      w' = { id := w'.id, campaignContactId := w'.campaignContactId, createdAt := w'.createdAt } := by
  rcases h.cases with ⟨new, dnc, h, -⟩ | ⟨-, -, -, job, campaign, ks, ccs, ws, h⟩
  · obtain ⟨w, hw₀, -, hd⟩ := h.workItem_back hw
    exact Or.inl ⟨w, hw₀, hd⟩
  · rcases h.workItem_back hw with hw | hw
    · exact Or.inl ⟨w', hw, Or.inl rfl⟩
    · exact Or.inr (h.workItem w' hw).2.2

/-- A row of the old state is still there, changed or not. -/
theorem Op.Effect.row_forth (h : op.Effect a held x x') {id : Uuid} {w : WorkItem}
    (hw : Table.find x.workItems id = some w) :
    ∃ w', Table.find x'.workItems id = some w' ∧ (w' = w ∨ (w.state.terminal = false ∧ op.Change w w')) := by
  rcases h.cases with ⟨new, dnc, h, -⟩ | ⟨-, -, -, job, campaign, ks, ccs, ws, h⟩
  · obtain ⟨w', hw', -, hd⟩ := h.workItem_forth hw
    exact ⟨w', hw', hd⟩
  · exact ⟨w, h.workItems ▸ Table.find_append_of_some hw, Or.inl rfl⟩

theorem Op.Effect.within (h : op.Effect a held x x') (hx : x.WellFormed) :
    discipline.Within held x x' := by
  rcases h.cases with ⟨new, dnc, h, -⟩ | ⟨-, -, -, job, campaign, ks, ccs, ws, h⟩
  · exact h.within hx
  · exact h.within hx

theorem Op.Effect.wellFormed (h : op.Effect a held x x') (hx : x.WellFormed) : x'.WellFormed := by
  rcases h.cases with ⟨new, dnc, h, -⟩ | ⟨-, -, -, job, campaign, ks, ccs, ws, h⟩
  · exact h.wellFormed hx
  · exact h.wellFormed

/-- A stored attempt was stored before, or records the completion. -/
theorem Op.Effect.attempts_back (h : op.Effect a held x x') {t : CallAttempt} (ht : t ∈ x'.attempts) :
    t ∈ x.attempts ∨ op.Records x x' t := by
  rcases h.cases with ⟨new, dnc, h, -, hnew⟩ | ⟨-, -, -, job, campaign, ks, ccs, ws, h⟩
  · rw [h.attempts] at ht
    exact (List.mem_append.1 ht).imp_right (hnew t)
  · exact Or.inl (h.attempts ▸ ht)

theorem Op.Effect.importRows (h : op.Effect a held x x') : x'.importRows = x.importRows := by
  rcases h.cases with ⟨new, dnc, h, -⟩ | ⟨-, -, -, job, campaign, ks, ccs, ws, h⟩ <;> exact h.importRows

theorem Op.Effect.importDecisions (h : op.Effect a held x x') : x'.importDecisions = x.importDecisions := by
  rcases h.cases with ⟨new, dnc, h, -⟩ | ⟨-, -, -, job, campaign, ks, ccs, ws, h⟩ <;> exact h.importDecisions

theorem Op.Effect.importKeys (h : op.Effect a held x x') :
    x'.importJobs.map key = x.importJobs.map key := by
  rcases h.cases with ⟨new, dnc, h, -⟩ | ⟨-, -, -, job, campaign, ks, ccs, ws, h⟩
  · rw [h.importJobs]
  · exact h.jobKeys

/-- An import job changes by its commit only. -/
theorem Op.Effect.importJob (h : op.Effect a held x x') (id : Uuid) :
    Table.find x'.importJobs id = Table.find x.importJobs id ∨
      ∃ j now idem res, Table.find x.importJobs id = some j ∧
        Table.find x'.importJobs id = some (Imports.committed now idem res j) := by
  rcases h.cases with ⟨new, dnc, h, -⟩ | ⟨-, -, -, job, campaign, ks, ccs, ws, h⟩
  · exact Or.inl (congrArg (Table.find · id) h.importJobs)
  · exact (h.importJob id).imp_right And.right

end Effects

/-! ## Interleaved runs -/

/-- The system of all queue transactions. -/
abbrev protocol : Protocol Db LockKey Err Result Op :=
  discipline.protocol body Db.WellFormed fun op a x x' => ∃ held, op.Effect a held x x'

theorem protocol_valid : protocol.Valid System.Any := by
  refine Discipline.protocol_valid fun op s _ => ?_
  refine Protocol.wp_mono _ (fun a l p s h x hx ix => ?_) _ _ _ (body_effect op _ s)
  have he := h x hx ix
  exact ⟨he.within ix, he.wellFormed ix, l.held, he⟩

/-- The states that any interleaving of queue transactions can reach from `v`. -/
abbrev Reaches (v : Db) (s : System Db LockKey Err Result Op) : Prop :=
  System.Reaches body System.Any { committed := v } s

variable {v : Db} {s s' : System Db LockKey Err Result Op}

theorem wellFormed_of_reaches (hv : v.WellFormed) (h : Reaches v s) : s.committed.WellFormed :=
  Protocol.inv_of_reaches protocol_valid hv h

/-- What a commit does in a run. -/
theorem effect_of_commit (hv : v.WellFormed) (h : Reaches v s) {i : ℕ} {op : Op} {a : Result}
    (hs : System.Step body s i (.committed op a) s') :
    ∃ held, op.Effect a held s.committed s'.committed :=
  (Protocol.commit_of_reaches protocol_valid hv h hs).2

/-- What every effect preserves holds of every reachable state. -/
theorem invariant_of_reaches (hv : v.WellFormed) {I : Db → Prop} (hI : I v)
    (step : ∀ op a held x x', x.WellFormed → Op.Effect op a held x x' → I x → I x') (h : Reaches v s) :
    I s.committed :=
  Protocol.invariant_of_commits protocol_valid hv hI
    (fun op a x x' hx ⟨held, he⟩ => step op a held x x' hx he) h

/-- A relation between the states before and after each commit that meets the condition of
a run relates the states before and after the run. -/
theorem relates_of_reaches {ok : System Db LockKey Err Result Op → ℕ → Event LockKey Err Result Op → Prop}
    {R : Db → Db → Prop} (refl : ∀ x, R x x) (trans : ∀ x y z, R x y → R y z → R x z)
    (hv : v.WellFormed) (h : Reaches v s)
    (step : ∀ (t t' : System Db LockKey Err Result Op) i op a held, ok t i (.committed op a) → Op.Effect op a held t.committed t'.committed →
      R t.committed t'.committed)
    (hr : System.Reaches body ok s s') : R s.committed s'.committed := by
  induction hr with
  | refl => exact refl _
  | tail hr hs ih =>
    obtain ⟨i, e, hok, hstep⟩ := hs
    refine trans _ _ _ ih ?_
    rcases hstep.committed_eq with ⟨op, a, rfl⟩ | he
    · obtain ⟨held, he⟩ := effect_of_commit hv (h.trans (System.Reaches.mono (fun _ _ _ _ => trivial) hr)) hstep
      exact step _ _ i op a held hok he
    · rw [he]
      exact refl _

/-! ## Serial runs -/

theorem effect_of_runs {op : Op} {a : Result} {x x' : Db} (hx : x.WellFormed)
    (h : (body op).Runs x a x') : ∃ held, op.Effect a held x x' :=
  Discipline.effect_of_runs hx (body_effect op _ _) h

/-- What every effect preserves holds after any sequence of operations. -/
theorem invariant_of_serial {ok : Db → Op → Prop} {I : Db → Prop}
    (step : ∀ op a held x x', x.WellFormed → ok x op → Op.Effect op a held x x' → I x → I x')
    {x x' : Db} (hx : x.WellFormed) (hI : I x) (h : Prog.Serial body ok x x') :
    x'.WellFormed ∧ I x' := by
  refine Prog.Serial.invariant (I := fun x => x.WellFormed ∧ I x) ?_ h ⟨hx, hI⟩
  rintro op x a x' ⟨hx, hI⟩ hok hr
  obtain ⟨held, he⟩ := effect_of_runs hx hr
  exact ⟨he.wellFormed hx, step op a held x x' hx hok he hI⟩

/-! ## A small database for the examples -/

namespace Demo

/-- Two agents, 5 and 6, of one campaign with one queued contact. -/
def db : Db where
  campaigns := [{ id := 1, name := "spring", status := .active }]
  contacts := [{ id := 10, phoneCiphertext := "c", phoneFingerprint := "f" }]
  campaignContacts := [{ id := 20, campaignId := 1, contactId := 10 }]
  workItems := [{ id := 30, campaignContactId := 20 }]
  userAssignments := [
    { id := 45, campaignId := 1, userId := 5, campaignRole := "agent", effectiveFrom := 0 },
    { id := 46, campaignId := 1, userId := 6, campaignRole := "agent", effectiveFrom := 0 }]
  dispositions := [
    { id := 50, campaignId := 1, stableSemanticCode := "sale", nextAction := some .complete },
    { id := 51, campaignId := 1, stableSemanticCode := "dnc", causesDnc := true },
    { id := 52, campaignId := 1, stableSemanticCode := "later", requiresCallbackTime := true },
    { id := 53, campaignId := 1, stableSemanticCode := "busy", nextAction := some .requeue },
    { id := 54, campaignId := 1, stableSemanticCode := "dropped", nextAction := some .immediateRedial },
    { id := 55, campaignId := 1, stableSemanticCode := "no answer", nextAction := some .retryWait
      retryDelayMinutes := some 30 },
    { id := 56, campaignId := 1, stableSemanticCode := "unclear", nextAction := some .review }]
  flags := [⟨Work.sharedPoolEnabled, true⟩, ⟨Work.callbacksEnabled, true⟩]

/-- A call in minute `n`, which draws the identifiers from `100 * n` on. -/
def call (n : ℕ) : Call where
  utcnow _ := minutes n
  uuid4 i := 100 * n + i

theorem db_wellFormed : db.WellFormed :=
  .of_mem (by decide) (by decide) (by decide) (by decide) (by decide) (by decide)

/-- Agent `agent` completes item 30, leased in minute `leased`, in minute `n`. -/
def complete (n leased : ℕ) (agent disposition : Uuid) : Op :=
  .completeWorkItem (call n) {
    workItemId := 30, agentId := agent, leaseId := 100 * leased, dispositionId := disposition
    callbackAt := some (minutes (n + 5)), idempotencyKey := "k" }

/-- No contact yet, and a parsed and approved import of one phone, to be committed by manager 7. -/
def importDb : Db where
  campaigns := [{
    id := 1, name := "spring", status := .active, purpose := some "sales", dataSource := some "fair"
    dataObtainedAt := some 0, lawfulBasisOrConsentReference := some "consent" }]
  importJobs := [{ id := 60, campaignId := 1, uploaderId := 8, state := .parsed, decisionVersion := 1 }]
  importRows := [{
    id := 61, importJobId := 60, rowNumber := 1, rawPhoneProtected := some "c"
    phoneFingerprint := some "f", validationResult := .valid }]
  importDecisions := [{
    id := 62, importJobId := 60, decisionVersion := 1, decision := .approve, decidedBy := 7 }]
  roleAssignments := [{
    id := 63, userId := 7, roleCode := .manager, scopeType := .organization, effectiveFrom := 0 }]

/-- Manager 7 commits the import in minute `n` under the key `key`. -/
def commit (n : ℕ) (key : String) : Op :=
  .commitImport (call n) { jobId := 60, actorId := 7, decisionVersion := 1, idempotencyKey := key }

/-- The schedule of one transaction in slot `i`, `n` steps long. -/
def turns (i : ℕ) (op : Op) (n : ℕ) : List (System.Turn Op) := .start i op :: List.replicate n (.next i)

/-- Where a schedule leads from the small database. -/
def run (schedule : List (System.Turn Op)) : System Db LockKey Err Result Op :=
  System.play body { committed := db } schedule

theorem reaches_run (schedule : List (System.Turn Op)) : Reaches db (run schedule) :=
  System.reaches_play body schedule _

end Demo

end OmniDB.Queue
