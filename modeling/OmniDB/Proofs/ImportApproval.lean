import OmniDB.Proofs.Service

/-! What an approval of a campaign import covers. A parsed job keeps its counters and its
rows until it is committed or expires, so an approval given to a parsed job is an approval
of the rows its commit inserts. An approval given before the parse covers nothing. -/

namespace OmniDB.Service

open Tx

def rowsOf (x : Db) (job : Uuid) : List ImportRow := x.importRows.filter fun r => r.importJobId = job

/-- The job and its rows are the same but for the decision version. -/
def SamePreview (id : Uuid) (x x' : Db) : Prop :=
  ∃ j j', Table.find x.importJobs id = some j ∧ Table.find x'.importJobs id = some j' ∧
    j' = { j with decisionVersion := j'.decisionVersion } ∧ rowsOf x' id = rowsOf x id

/-- The job is neither waiting for its parse nor for its commit, and never will be. -/
def Decided (id : Uuid) (x : Db) : Prop :=
  ∃ j, Table.find x.importJobs id = some j ∧ j.state ≠ .quarantined ∧ j.state ≠ .parsed

/-- What may become of a job: it stays as it is, it is parsed, or it is settled for good. -/
def JobStep (id : Uuid) (x x' : Db) : Prop :=
  Table.find x.importJobs id = none ∨ SamePreview id x x' ∨
    (∃ j, Table.find x.importJobs id = some j ∧ j.state = .quarantined) ∨
    ∃ j, Table.find x'.importJobs id = some j ∧ (j.state = .committed ∨ j.state = .expired)

variable {id : Uuid} {x y z x' : Db}

theorem SamePreview.trans (h : SamePreview id x y) (h' : SamePreview id y z) : SamePreview id x z := by
  obtain ⟨j, k, hj, hk, hjk, hr⟩ := h
  obtain ⟨k', l, hk', hl, hkl, hr'⟩ := h'
  obtain rfl : k = k' := Option.some.inj (hk.symm.trans hk')
  refine ⟨j, l, hj, hl, ?_, hr'.trans hr⟩
  rw [hkl, hjk]

theorem JobStep.of_same (hj : Table.find x'.importJobs id = Table.find x.importJobs id)
    (hr : rowsOf x' id = rowsOf x id) : JobStep id x x' := by
  cases h : Table.find x.importJobs id with
  | none => exact Or.inl h
  | some j => exact Or.inr (Or.inl ⟨j, j, h, hj.trans h, rfl, hr⟩)

theorem JobStep.of_imports (hj : x'.importJobs = x.importJobs) (hr : x'.importRows = x.importRows) :
    JobStep id x x' := .of_same (by rw [hj]) (by rw [rowsOf, hr]; rfl)

/-- An expired job. -/
theorem JobStep.of_expires (h : Expires x x') (id : Uuid) : JobStep id x x' := by
  obtain ⟨job, hjob, ⟨hc, rfl⟩ | ⟨-, rfl⟩⟩ := h
  · by_cases hid : id = job.id
    · subst hid
      exact Or.inr (Or.inr (Or.inr ⟨_, Table.find_modify_self (fun _ h => h) hjob, Or.inl hc⟩))
    · exact .of_same (Table.find_modify_ne (fun _ h => h) hid) rfl
  · by_cases hid : id = job.id
    · subst hid
      exact Or.inr (Or.inr (Or.inr ⟨_, Table.find_modify_self (fun _ h => h) hjob, Or.inr rfl⟩))
    · refine .of_same (Table.find_modify_ne (fun _ h => h) hid) ?_
      unfold rowsOf
      rw [List.filter_filter]
      refine List.filter_congr fun r _ => ?_
      by_cases hr : r.importJobId = id <;> simp [hr, hid]

/-- A settled job stays settled. -/
theorem Decided.step (h : Decided id x) (hs : JobStep id x x') : Decided id x' := by
  obtain ⟨j, hj, hq, hp⟩ := h
  rcases hs with hn | ⟨j₀, j', hj₀, hj', he, -⟩ | ⟨j₀, hj₀, hq₀⟩ | ⟨j', hj', hst⟩
  · simp [hn] at hj
  · obtain rfl : j = j₀ := Option.some.inj (hj.symm.trans hj₀)
    exact ⟨j', hj', by rw [he]; exact hq, by rw [he]; exact hp⟩
  · obtain rfl : j = j₀ := Option.some.inj (hj.symm.trans hj₀)
    exact absurd hq₀ hq
  · refine ⟨j', hj', ?_, ?_⟩ <;> rcases hst with hst | hst <;> simp [hst]

/-- The preview of a parsed job lasts, or the job is settled. -/
theorem SamePreview.step (h : SamePreview id y x) (hp : ∃ j, Table.find y.importJobs id = some j ∧ j.state = .parsed)
    (hs : JobStep id x x') : SamePreview id y x' ∨ Decided id x' := by
  obtain ⟨j, k, hj, hk, hjk, hr⟩ := h
  obtain ⟨j₀, hj₀, hparsed⟩ := hp
  obtain rfl : j₀ = j := Option.some.inj (hj₀.symm.trans hj)
  have hk' : k.state = .parsed := by rw [hjk]; exact hparsed
  rcases hs with hn | hsame | ⟨k₀, hk₀, hq⟩ | ⟨l, hl, hst⟩
  · simp [hn] at hk
  · exact Or.inl (SamePreview.trans ⟨j₀, k, hj, hk, hjk, hr⟩ hsame)
  · obtain rfl : k = k₀ := Option.some.inj (hk.symm.trans hk₀)
    simp [hk'] at hq
  · refine Or.inr ⟨l, hl, ?_, ?_⟩ <;> rcases hst with hst | hst <;> simp [hst]

theorem JobStep.trans (h : JobStep id x y) (h' : JobStep id y z) : JobStep id x z := by
  rcases h with hn | hsame | hq | ⟨k, hk, hst⟩
  · exact Or.inl hn
  · have hsame₀ := hsame
    obtain ⟨j, k, hj, hk, he, -⟩ := hsame₀
    rcases h' with hn | hsame' | ⟨k', hk', hq⟩ | hst
    · simp [hn] at hk
    · exact Or.inr (Or.inl (hsame.trans hsame'))
    · obtain rfl : k = k' := Option.some.inj (hk.symm.trans hk')
      rw [he] at hq
      exact Or.inr (Or.inr (Or.inl ⟨j, hj, hq⟩))
    · exact Or.inr (Or.inr (Or.inr hst))
  · exact Or.inr (Or.inr (Or.inl hq))
  · rcases h' with hn | ⟨k', l, hk', hl, he, -⟩ | ⟨k', hk', hq⟩ | hst'
    · simp [hn] at hk
    · obtain rfl : k = k' := Option.some.inj (hk.symm.trans hk')
      exact Or.inr (Or.inr (Or.inr ⟨l, hl, by rw [he]; exact hst⟩))
    · obtain rfl : k = k' := Option.some.inj (hk.symm.trans hk')
      simp [hq] at hst
    · exact Or.inr (Or.inr (Or.inr hst'))

theorem Op.Effect.jobStep {op : Op} (h : op.Effect x x') (hx : x.WellFormed) (id : Uuid) : JobStep id x x' := by
  cases op
  case work op =>
    obtain ⟨a, h⟩ := h
    obtain ⟨held, h⟩ := Queue.effect_of_runs hx h
    rcases h.importJob id with he | ⟨j, now, idem, res, -, hj'⟩
    · exact .of_same he (by rw [rowsOf, h.importRows]; rfl)
    · exact Or.inr (Or.inr (Or.inr ⟨_, hj', Or.inl rfl⟩))
  case updateCampaign | launchCampaign | pauseCampaign =>
    obtain ⟨k, f, e, rfl, -⟩ := h
    exact .of_imports rfl rfl
  case archiveCampaign =>
    obtain ⟨st, -, -, k, f, e, rfl, -⟩ := h
    exact .of_imports rfl rfl
  case assignTeam | endTeamAssignment =>
    obtain ⟨ts, e, rfl⟩ := h
    exact .of_imports rfl rfl
  case assignAgent =>
    obtain ⟨a, e, rfl, -⟩ := h
    exact .of_imports rfl rfl
  case endAgentAssignment =>
    obtain ⟨a, e, rfl, -⟩ := h
    exact .of_imports rfl rfl
  case transferAgent =>
    obtain ⟨current, a, e, rfl, -⟩ := h
    exact .of_imports rfl rfl
  case uploadImport =>
    obtain ⟨j, e, rfl, -⟩ := h
    cases hj : Table.find x.importJobs id with
    | none => exact Or.inl hj
    | some job => exact .of_same ((Table.find_append_of_some hj).trans hj.symm) rfl
  case parseImport c protect file cols job =>
    obtain rfl | ⟨j, f, rows, e, rfl, hj, hq, hf, -, hrows⟩ := h
    · exact .of_imports rfl rfl
    by_cases hid : id = job
    · subst hid
      exact Or.inr (Or.inr (Or.inl ⟨j, hj, hq⟩))
    · refine .of_same (Table.find_modify_ne (fun r hr => (hf r).trans hr) hid) ?_
      -- the rows of the parse belong to its own job
      have hnone : rows.filter (fun r => r.importJobId = id) = [] := by
        rw [List.filter_eq_nil_iff]
        intro r hr
        simp [hrows r hr, Ne.symm hid]
      change (x.importRows ++ rows).filter _ = _
      rw [List.filter_append, hnone, List.append_nil]
      rfl
  case decideImport c user job decision note =>
    obtain ⟨j, d, e, rfl, hj, -⟩ := h
    by_cases hid : id = job
    · subst hid
      exact Or.inr (Or.inl ⟨j, _, hj, Table.find_modify_self (fun _ h => h) hj, rfl, rfl⟩)
    · exact .of_same (Table.find_modify_ne (fun _ h => h) hid) rfl
  case cleanupImports =>
    clear hx
    induction h with
    | refl => exact .of_imports rfl rfl
    | tail _ h ih => exact ih.trans (.of_expires h id)
  case detectCompleted =>
    clear hx
    induction h with
    | refl => exact .of_imports rfl rfl
    | tail _ h ih =>
      obtain ⟨k, f, ns, e, rfl, -⟩ := h
      exact ih.trans (.of_imports rfl rfl)
  case purgeExpired =>
    obtain ⟨h, -⟩ := h
    clear hx
    induction h with
    | refl => exact .of_imports rfl rfl
    | tail _ h ih =>
      obtain ⟨campaign, k, e, rfl, -⟩ := h
      exact ih.trans (.of_imports rfl rfl)
  case deleteCampaignData =>
    obtain ⟨k, e, rfl, -⟩ := h
    exact .of_imports rfl rfl

/-- Only a decision request records a decision. -/
theorem Op.Effect.decisions {op : Op} (h : op.Effect x x') (hx : x.WellFormed) :
    x'.importDecisions = x.importDecisions ∨
      ∃ c user id decision note, op = .decideImport c user id decision note := by
  cases op
  case work op =>
    obtain ⟨a, h⟩ := h
    obtain ⟨held, h⟩ := Queue.effect_of_runs hx h
    exact Or.inl h.importDecisions
  case decideImport => exact Or.inr ⟨_, _, _, _, _, rfl⟩
  all_goals left
  case updateCampaign | launchCampaign | pauseCampaign =>
    obtain ⟨k, f, e, rfl, -⟩ := h
    rfl
  case archiveCampaign =>
    obtain ⟨st, -, -, k, f, e, rfl, -⟩ := h
    rfl
  case assignTeam | endTeamAssignment =>
    obtain ⟨ts, e, rfl⟩ := h
    rfl
  case assignAgent =>
    obtain ⟨a, e, rfl, -⟩ := h
    rfl
  case endAgentAssignment =>
    obtain ⟨a, e, rfl, -⟩ := h
    rfl
  case transferAgent =>
    obtain ⟨current, a, e, rfl, -⟩ := h
    rfl
  case uploadImport =>
    obtain ⟨j, e, rfl, -⟩ := h
    rfl
  case parseImport =>
    obtain rfl | ⟨job, f, rows, e, rfl, -⟩ := h <;> rfl
  case cleanupImports =>
    clear hx
    induction h with
    | refl => rfl
    | tail _ h ih =>
      obtain ⟨job, -, ⟨-, rfl⟩ | ⟨-, rfl⟩⟩ := h <;> exact ih
  case detectCompleted =>
    clear hx
    induction h with
    | refl => rfl
    | tail _ h ih =>
      obtain ⟨k, f, ns, e, rfl, -⟩ := h
      exact ih
  case purgeExpired =>
    obtain ⟨h, -⟩ := h
    clear hx
    induction h with
    | refl => rfl
    | tail _ h ih =>
      obtain ⟨campaign, k, e, rfl, -⟩ := h
      exact ih
  case deleteCampaignData =>
    obtain ⟨k, e, rfl, -⟩ := h
    rfl

/-! ## Runs -/

/-- An authorised approval of a job whose file has not been parsed yet. -/
def ApprovesUnparsed (db : Db) : Op → Prop
  | .decideImport c user id .approve _ => ((Table.find db.importJobs id).any fun job =>
      job.state = .quarantined &&
        Authz.hasCampaignCapability db (c.utcnow 1) user .manageCampaign job.campaignId) = true
  | _ => False

instance (db : Db) (op : Op) : Decidable (ApprovesUnparsed db op) := by
  unfold ApprovesUnparsed
  split <;> infer_instance

/-- Runs in which no job is approved before it is parsed. -/
abbrev Parsed (db : Db) (op : Op) : Prop := ¬ApprovesUnparsed db op

/-- The decision was recorded in the run from `v` to `x`, while its job was parsed, and the
counters and rows of the job have stayed the same since. -/
def CoversPreview (v x : Db) (d : ImportDecision) : Prop :=
  ∃ y y' op j, Prog.Serial body Parsed v y ∧ ((body op).transact y).2 = y' ∧ Prog.Serial body Parsed y' x ∧
    y'.importDecisions = y.importDecisions ++ [d] ∧
    Table.find y.importJobs d.importJobId = some j ∧ j.state = .parsed ∧ SamePreview d.importJobId y x

/-- Every approval covers the preview of its job, or its job is settled. -/
def ApprovalsCover (v x : Db) : Prop :=
  ∀ d ∈ x.importDecisions, d.decision = .approve → CoversPreview v x d ∨ Decided d.importJobId x

theorem approvalsCover_step {v : Db} {op : Op} {a : Result} (hx : Valid x) (hok : Parsed x op)
    (hv : Prog.Serial body Parsed v x) (h : (body op).Runs x a x') (hc : ApprovalsCover v x) :
    ApprovalsCover v x' := by
  have he := hx.effect h
  have hrun : ((body op).transact x).2 = x' := by rw [Prog.transact_ok.2 h]
  intro d hd ha
  have old (hd : d ∈ x.importDecisions) : CoversPreview v x' d ∨ Decided d.importJobId x' := by
    have hs := he.jobStep hx.wellFormed d.importJobId
    rcases hc d hd ha with ⟨y, y', op', j, hy, hop, hyx, happ, hj, hp, hsame⟩ | hdec
    · exact (hsame.step ⟨j, hj, hp⟩ hs).imp_left fun hsame' =>
        ⟨y, y', op', j, hy, hop, hyx.tail ⟨op, hok, hrun⟩, happ, hj, hp, hsame'⟩
    · exact Or.inr (hdec.step hs)
  rcases he.decisions hx.wellFormed with hsame | ⟨c, user, id, decision, note, rfl⟩
  · exact old (hsame ▸ hd)
  have hs := he.jobStep hx.wellFormed id
  obtain ⟨j, d', e, rfl, hj, hauth, hid, -, hdec, -⟩ := he
  rcases List.mem_append.1 hd with hd | hd
  · exact old hd
  obtain rfl := List.mem_singleton.1 hd
  obtain rfl : decision = .approve := hdec.symm.trans ha
  have hnq : j.state ≠ .quarantined := fun hq => hok (by simp [ApprovesUnparsed, hj, hq, hauth])
  have hj' := Table.find_modify_self (f := fun k : ImportJob =>
    { k with decisionVersion := j.decisionVersion + 1 }) (fun _ h => h) hj
  by_cases hp : j.state = .parsed
  · refine Or.inl ⟨x, _, _, j, hv, hrun, .refl, rfl, hid ▸ hj, hp, ?_⟩
    rw [hid]
    exact ⟨j, _, hj, hj', rfl, rfl⟩
  · refine Or.inr ?_
    rw [hid]
    exact Decided.step ⟨j, hj, hnq, hp⟩ hs

theorem approvalsCover_of_serial {v : Db} (hv : Valid v) (hd : v.importDecisions = [])
    (h : Prog.Serial body Parsed v x) : Valid x ∧ ApprovalsCover v x := by
  induction h with
  | refl => exact ⟨hv, by simp [ApprovalsCover, hd]⟩
  | @tail y z hy hz ih =>
    obtain ⟨op, hok, heq⟩ := hz
    rcases Prog.transact_cases heq with rfl | ⟨a, hr⟩
    · exact ih
    · exact ⟨ih.1.step (ih.1.effect hr), approvalsCover_step ih.1 hok hy hr ih.2⟩

/-- In a run that approves no job before it is parsed, a commit that succeeds repeats an
earlier one, or relies on an approval of the counters and rows that it commits. -/
theorem approval_covers_preview {v : Db} (hv : Valid v) (hd : v.importDecisions = [])
    (h : Prog.Serial body Parsed v x) {c : Call} {r : Imports.CommitRequest} {res : ImportResult}
    (hr : (Imports.commitImport c r).Runs x res x') :
    ∃ job, Table.find x.importJobs r.jobId = some job ∧ ((job.state = .committed ∧ x' = x) ∨
      ∃ d, Imports.latestDecision c x job = some d ∧ d.decision = .approve ∧ d.importJobId = job.id ∧
        CoversPreview v x d) := by
  obtain ⟨hx, hc⟩ := approvalsCover_of_serial hv hd h
  rcases Imports.commitImport_runs hx.wellFormed hr with ⟨rfl, job, hjob, hst⟩ | ⟨job, held, hcm, -⟩
  · exact ⟨job, hjob, Or.inl ⟨hst, rfl⟩⟩
  obtain ⟨d, hd, ha⟩ := Option.map_eq_some_iff.1 hcm.approved
  obtain ⟨hmem, hid, -⟩ := Imports.mem_of_latestDecision hd
  refine ⟨job, hcm.row, Or.inr ⟨d, hd, ha, hid, ?_⟩⟩
  rcases hc d hmem ha with hcov | ⟨j, hj, -, hp⟩
  · exact hcov
  · rw [hid, show job.id = r.jobId from Table.key_of_find hcm.row, hcm.row] at hj
    exact absurd (Option.some.inj hj ▸ hcm.state) hp

/-! ## An approval before the parse -/

namespace Demo

/-- Campaign 1 with its provenance and its manager 7, and no import yet. -/
def db : Db := { Queue.Demo.importDb with
  importJobs := [], importRows := [], importDecisions := []
  flags := [⟨Imports.campaignImportEnabled, true⟩] }

/-- Manager 7 uploads a file in minute 1: job 100. -/
def upload : Op := .uploadImport (Queue.Demo.call 1) 7 1 ⟨"list.csv", "k", "h", 10, ".csv"⟩

/-- The file has one row. -/
def parse (n : ℕ) : Op :=
  .parseImport (Queue.Demo.call n) (fun raw _ => .ok ("c", raw)) ⟨["phone"], [⟨1, [("phone", "f")]⟩], none⟩
    { phone := "phone" } 100

def approve (n : ℕ) : Op := .decideImport (Queue.Demo.call n) 7 100 .approve none

def request : Imports.CommitRequest := { jobId := 100, actorId := 7, decisionVersion := 1, idempotencyKey := "k" }

theorem db_valid : Valid db :=
  ⟨.of_mem (by decide) (by decide) (by decide) (by decide) (by decide) (by decide), by decide⟩

end Demo

/-- The run of the small database: upload, parse, approval. -/
def Demo.approved : Db := Prog.serially body Demo.db [Demo.upload, Demo.parse 2, Demo.approve 3]

theorem approval_covers_preview_upload :
    ∃ job, Table.find Demo.approved.importJobs 100 = some job ∧ ((job.state = .committed ∧
        ((Imports.commitImport (Queue.Demo.call 4) Demo.request).transact Demo.approved).2 = Demo.approved) ∨
      ∃ d, Imports.latestDecision (Queue.Demo.call 4) Demo.approved job = some d ∧ d.decision = .approve ∧
        d.importJobId = job.id ∧ CoversPreview Demo.db Demo.approved d) :=
  approval_covers_preview Demo.db_valid rfl
    (Prog.serial_of_allowed (by decide +kernel :
      Prog.allowed body _ Demo.db [Demo.upload, Demo.parse 2, Demo.approve 3] = true))
    (Prog.runs_transact (by rfl :
      ((Imports.commitImport (Queue.Demo.call 4) Demo.request).transact Demo.approved).1 = .ok ⟨100, 1, 0⟩))

/-- The manager approves the upload before it is parsed; the commit relies on that approval. -/
theorem approval_before_parse :
    let x₁ := Prog.serially body Demo.db [Demo.upload]
    let x₂ := Prog.serially body Demo.db [Demo.upload, Demo.approve 2]
    let x₃ := Prog.serially body Demo.db [Demo.upload, Demo.approve 2, Demo.parse 3]
    x₁.importDecisions = [] ∧ x₂.importJobs.map ImportJob.state = [.quarantined] ∧
    (∃ d, x₂.importDecisions = [d] ∧ d.decision = .approve ∧
      ∀ job ∈ x₃.importJobs, Imports.latestDecision (Queue.Demo.call 4) x₃ job = some d) ∧
    ((Imports.commitImport (Queue.Demo.call 4) Demo.request).transact x₃).1 = .ok ⟨100, 1, 0⟩ := by
  refine ⟨by decide +kernel, by decide +kernel, ⟨_, rfl, rfl, ?_⟩, by rfl⟩
  decide +kernel

end OmniDB.Service
