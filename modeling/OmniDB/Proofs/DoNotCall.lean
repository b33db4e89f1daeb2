import OmniDB.Proofs.Queue

/-! Do-not-call safety: in every state that any interleaving can reach, no open work item
has a suppressed phone, so no lease is ever handed out for one. -/

namespace OmniDB.Queue

open Tx

/-- No open work item belongs to a phone with an active suppression. -/
def DoNotCall (db : Db) : Prop :=
  ∀ w ∈ db.workItems, w.state.terminal = false → ∀ f, db.phoneOf w = some f → db.suppressed f = false

theorem doNotCall_of_work {held : LockKey → Prop} {Δ : WorkItem → WorkItem → Prop}
    {new : List CallAttempt} {dnc : List SuppressionEntry} {x x' : Db} (hx : x.WellFormed)
    (h : WorkEffect held Δ new dnc x x') (hc : ∀ e ∈ dnc, x'.PhoneClosed e.phoneFingerprint)
    (hd : DoNotCall x) : DoNotCall x' := by
  intro w' hw' ht' f hf
  have hfind := (h.wellFormed hx).workItems.find_of_mem hw'
  obtain ⟨w, hw, ht, hcc⟩ := h.open_back hfind ht'
  rw [h.suppressed_eq, hd w (Table.mem_of_find hw) ht f (h.phoneOf hx hw hcc ▸ hf), Bool.false_or,
    List.any_eq_false]
  -- a phone that this commit suppresses has no open item left
  intro e he hef
  simp only [Bool.and_eq_true, decide_eq_true_eq] at hef
  have := hc e he _ w' hfind (hef.1 ▸ hf)
  simp [ht'] at this

theorem doNotCall_of_import {held : LockKey → Prop} {campaign : Uuid}
    {offered : Fingerprint → Prop} {ks : List Contact} {ccs : List CampaignContact} {ws : List WorkItem}
    {x x' : Db} (hx : x.WellFormed) (h : ImportEffect held campaign offered ks ccs ws x x') (hd : DoNotCall x) : DoNotCall x' := by
  intro w hw ht f hf
  rw [h.suppressed_eq]
  rcases h.workItem_back (h.wellFormed.workItems.find_of_mem hw) with hw | hw
  · exact hd w (Table.mem_of_find hw) ht f (h.grows.phoneOf_iff hx hw rfl ▸ hf)
  · obtain ⟨f', hf', -, hs⟩ := h.fresh_phone hw
    rwa [← Option.some.inj (hf'.symm.trans hf)]

/-- One commit keeps do-not-call safety. -/
theorem doNotCall_step {op : Op} {a : Result} {held : LockKey → Prop} {x x' : Db} (hx : x.WellFormed)
    (h : op.Effect a held x x') (hd : DoNotCall x) : DoNotCall x' := by
  rcases h.cases with ⟨new, dnc, h, hc, -⟩ | ⟨-, -, -, job, campaign, ks, ccs, ws, h⟩
  · exact doNotCall_of_work hx h hc hd
  · exact doNotCall_of_import hx h hd

theorem doNotCall_of_reaches {v : Db} (hv : v.WellFormed) (hd : DoNotCall v)
    {s : System Db LockKey Err Result Op} (h : Reaches v s) : DoNotCall s.committed :=
  invariant_of_reaches hv hd (fun _ _ _ _ _ hx he => doNotCall_step hx he) h

/-- The item a commit handed out a lease for: it is leased under `leaseId`, and its phone
was not suppressed before the commit and is not after it. -/
def ClearLease (x x' : Db) (item leaseId : Uuid) : Prop :=
  ∃ w f, Table.find x'.workItems item = some w ∧ w.state = .leased ∧ w.leaseId = some leaseId ∧
    x'.phoneOf w = some f ∧ x.suppressed f = false ∧ x'.suppressed f = false

theorem clearLease_of_leaseNext {c : Call} {agent : Uuid} {lease : Work.LeaseResult}
    {held : LockKey → Prop} {x x' : Db} (hx : x.WellFormed)
    (h : Work.LeaseEffect c agent (some lease) held x x') :
    ClearLease x x' lease.workItemId lease.leaseId := by
  rcases h with ⟨rfl, w, f, h⟩ | ⟨w, src, a, f, h⟩
  · have hl : w.state = .leased := by
      have := h.live
      simp only [Work.activeLease, Bool.and_eq_true, decide_eq_true_eq] at this
      exact this.1.1
    exact ⟨w, f, h.row, hl, h.leaseId, h.phone, h.clear, h.clear⟩
  · refine ⟨_, f, h.leased, rfl, h.leaseId ▸ rfl, ?_, h.clear, ?_⟩
    · exact h.effect.grows.phoneOf rfl h.phone
    · rw [h.effect.suppressed_eq, h.clear, List.any_nil, Bool.or_false]

theorem clearLease_of_complete {c : Call} {r : Work.CompleteRequest} {res : Work.CompletionResult}
    {held : LockKey → Prop} {x x' : Db} {a : CallAttempt} {dnc : List SuppressionEntry} {leaseId : Uuid}
    (hx : x.WellFormed) (hd : DoNotCall x') (h : Work.Completed c r res held x x' a dnc)
    (hres : res.redialLeaseId = some leaseId) : ClearLease x x' r.workItemId leaseId := by
  obtain ⟨w, w', d, hrow⟩ := h.row
  have hw' := hrow.final
  obtain ⟨cc, -, rfl⟩ := hrow.stored
  have hans := h.answer
  rw [Work.replay, Option.map_eq_some_iff] at hans
  obtain ⟨step, -, rfl⟩ := hans
  simp only [Work.finishAttempt] at hres
  split_ifs at hres with hl
  obtain ⟨cc, k, -, -, hp⟩ := (h.effect.wellFormed hx).phone hw'
  have hs := hd w' (Table.mem_of_find hw') (by rw [hl]; rfl) _ hp
  have hs₀ := hs
  rw [h.effect.suppressed_eq, Bool.or_eq_false_iff] at hs₀
  exact ⟨w', _, hw', hl, hres, hp, hs₀.1, hs⟩

/-- No open item has a suppressed phone in any reachable state, and no commit hands out a
lease, or a redial lease, for a phone whose suppression is committed. -/
theorem do_not_call_safety {v : Db} (hv : v.WellFormed) (hd : DoNotCall v)
    {s : System Db LockKey Err Result Op} (h : Reaches v s) :
    DoNotCall s.committed ∧
    (∀ i c agent lease s', System.Step body s i (.committed (.leaseNext c agent) (.lease (some lease))) s' →
      ClearLease s.committed s'.committed lease.workItemId lease.leaseId) ∧
    ∀ i c r res leaseId s',
      System.Step body s i (.committed (.completeWorkItem c r) (.completion res)) s' →
      res.redialLeaseId = some leaseId → s'.committed ≠ s.committed →
      ClearLease s.committed s'.committed r.workItemId leaseId := by
  have hx := wellFormed_of_reaches hv h
  have hsafe := doNotCall_of_reaches hv hd h
  refine ⟨hsafe, fun i c agent lease s' hs => ?_, fun i c r res leaseId s' hs hres hne => ?_⟩
  · obtain ⟨held, he⟩ := effect_of_commit hv h hs
    exact clearLease_of_leaseNext hx he
  · obtain ⟨held, he⟩ := effect_of_commit hv h hs
    have hd' := doNotCall_step hx he hsafe
    rcases he with ⟨heq, -⟩ | ⟨a, dnc, he⟩
    · exact absurd heq hne
    · exact clearLease_of_complete hx hd' he hres

theorem doNotCall_demo : DoNotCall Demo.db := fun _ _ _ _ _ => rfl

/-- Agent 5 leases the contact and records a do-not-call while agent 6 asks for a lease. -/
def Demo.dncRace : List (System.Turn Op) :=
  Demo.turns 1 (.leaseNext (Demo.call 1) 5) 40 ++
    [.start 1 (Demo.complete 2 1 5 51), .start 2 (.leaseNext (Demo.call 3) 6)] ++
    (List.replicate 40 [.next 1, .next 2]).flatten

theorem do_not_call_safety_race : DoNotCall (Demo.run Demo.dncRace).committed ∧
    (Demo.run Demo.dncRace).committed.suppressed "f" = true :=
  ⟨(do_not_call_safety Demo.db_wellFormed doNotCall_demo (Demo.reaches_run Demo.dncRace)).1,
    by decide +kernel⟩

end OmniDB.Queue
