import OmniDB.Proofs.DoNotCall
import OmniDB.Proofs.Service

/-! Leases and assignments. Two paths that hand out a lease never look at assignments: they
rest on the fact that the end of an assignment releases the agent's work, so that in every
sequential run a leased item has an owner who is still assigned to its campaign. -/

namespace OmniDB

open Tx

/-- The call behind an operation. -/
def Queue.Op.call : Queue.Op → Call
  | .leaseNext c _ | .getActiveLease c _ | .completeWorkItem c _ | .skipWorkItem c _ _ _ _
  | .renewLease c _ _ _ | .reclaimExpiredLeases c | .reclaimLeasesForUser c _
  | .releaseCampaignWorkForAgent c _ _ | .rescheduleReviewItem c _ _ _ _
  | .increaseReviewItemAttempts c _ _ _ _ | .closeReviewItem c _ _ _ | .commitImport c _ => c

namespace Service

def Op.call : Op → Call
  | .work op => op.call
  | .updateCampaign c _ _ _ | .launchCampaign c _ _ | .pauseCampaign c _ _ | .archiveCampaign c _ _
  | .assignTeam c _ _ _ _ | .endTeamAssignment c _ _ _ | .assignAgent c _ _ _
  | .endAgentAssignment c _ _ _ | .transferAgent c _ _ _ _ _ _ | .uploadImport c _ _ _
  | .parseImport c _ _ _ _ | .decideImport c _ _ _ _ | .cleanupImports c | .detectCompleted c
  | .purgeExpired c | .deleteCampaignData c _ _ => c

variable {x y x' : Db} {t t' : Time}

/-! ## What an operation does to the work queue and its staff -/

/-- The tables of the work queue and of its staff are as before. -/
structure SameWork (x x' : Db) : Prop where
  workItems : x'.workItems = x.workItems
  attempts : x'.attempts = x.attempts
  contacts : x'.contacts = x.contacts
  campaignContacts : x'.campaignContacts = x.campaignContacts
  suppressions : x'.suppressions = x.suppressions
  userAssignments : x'.userAssignments = x.userAssignments

theorem SameWork.trans (h : SameWork x y) (h' : SameWork y x') : SameWork x x' where
  workItems := h'.workItems.trans h.workItems
  attempts := h'.attempts.trans h.attempts
  contacts := h'.contacts.trans h.contacts
  campaignContacts := h'.campaignContacts.trans h.campaignContacts
  suppressions := h'.suppressions.trans h.suppressions
  userAssignments := h'.userAssignments.trans h.userAssignments

theorem sameWork_of_chain {R : Db → Db → Prop} (hR : ∀ x y, R x y → SameWork x y)
    (h : Relation.ReflTransGen R x x') : SameWork x x' := by
  induction h with
  | refl => exact ⟨rfl, rfl, rfl, rfl, rfl, rfl⟩
  | tail _ hs ih => exact ih.trans (hR _ _ hs)

/-- The kinds of operations, as far as the work queue and its staff are concerned. -/
theorem Op.Effect.kinds {op : Op} (h : op.Effect x x') :
    (∃ q a, op = .work q ∧ (Queue.body q).Runs x a x') ∨ SameWork x x' ∨
    (∃ n campaign agent, Assigns campaign agent (op.call.utcnow n) x x') ∨
    (∃ n campaign assignment, EndsAssignment campaign assignment (op.call.utcnow n) x x') ∨
    (∃ n source destination agent, Transfers source destination agent (op.call.utcnow n) x x') ∨
    Relation.ReflTransGen (fun y y' => ∃ campaign, Purges campaign y y') x x' := by
  cases op
  case work q =>
    obtain ⟨a, h⟩ := h
    exact Or.inl ⟨q, a, rfl, h⟩
  case assignAgent => exact Or.inr (Or.inr (Or.inl ⟨_, _, _, h⟩))
  case endAgentAssignment => exact Or.inr (Or.inr (Or.inr (Or.inl ⟨_, _, _, h⟩)))
  case transferAgent => exact Or.inr (Or.inr (Or.inr (Or.inr (Or.inl ⟨_, _, _, _, h⟩))))
  case purgeExpired => exact Or.inr (Or.inr (Or.inr (Or.inr (Or.inr h.1))))
  case deleteCampaignData => exact Or.inr (Or.inr (Or.inr (Or.inr (Or.inr (.single ⟨_, h⟩)))))
  all_goals right; left
  case updateCampaign | launchCampaign | pauseCampaign =>
    obtain ⟨k, f, e, rfl, -⟩ := h
    exact ⟨rfl, rfl, rfl, rfl, rfl, rfl⟩
  case archiveCampaign =>
    obtain ⟨st, -, -, k, f, e, rfl, -⟩ := h
    exact ⟨rfl, rfl, rfl, rfl, rfl, rfl⟩
  case assignTeam | endTeamAssignment =>
    obtain ⟨ts, e, rfl⟩ := h
    exact ⟨rfl, rfl, rfl, rfl, rfl, rfl⟩
  case uploadImport =>
    obtain ⟨j, e, rfl, -⟩ := h
    exact ⟨rfl, rfl, rfl, rfl, rfl, rfl⟩
  case parseImport =>
    obtain rfl | ⟨job, f, rows, e, rfl, -⟩ := h <;> exact ⟨rfl, rfl, rfl, rfl, rfl, rfl⟩
  case decideImport =>
    obtain ⟨job, d, e, rfl, -⟩ := h
    exact ⟨rfl, rfl, rfl, rfl, rfl, rfl⟩
  case cleanupImports =>
    refine sameWork_of_chain (fun y y' hy => ?_) h
    obtain ⟨job, -, ⟨-, rfl⟩ | ⟨-, rfl⟩⟩ := hy <;> exact ⟨rfl, rfl, rfl, rfl, rfl, rfl⟩
  case detectCompleted =>
    refine sameWork_of_chain (fun y y' hy => ?_) h
    obtain ⟨row, f, ns, e, rfl, -⟩ := hy
    exact ⟨rfl, rfl, rfl, rfl, rfl, rfl⟩

/-! ## Leases and assignments -/

/-- The owner of the leased item is assigned to its campaign as an agent, and the item
carries an assignment of the owner to it. -/
def Entitled (x : Db) (w : WorkItem) : Prop :=
  ∃ agent, w.leaseOwnerId = some agent ∧
    (∃ a ∈ x.userAssignments, a.userId = agent ∧ a.campaignRole = "agent" ∧ a.status = .active ∧
      x.campaignOf w = some a.campaignId) ∧
    ∃ id a, w.campaignUserAssignmentId = some id ∧ Table.find x.userAssignments id = some a ∧
      a.userId = agent ∧ x.campaignOf w = some a.campaignId

/-- What holds of assignments and leases at time `t`. -/
structure Staffed (x : Db) (t : Time) : Prop where
  unique : Table.Unique x.userAssignments
  open_ended : ∀ a ∈ x.userAssignments, a.effectiveFrom ≤ t ∧ (a.status = .active → a.effectiveTo = none)
  entitled : ∀ w ∈ x.workItems, w.state = .leased → Entitled x w

/-- The lease of `w'` is the one that `w` had. -/
structure SameLease (x x' : Db) (w w' : WorkItem) : Prop where
  owner : w'.leaseOwnerId = w.leaseOwnerId
  assignment : w'.campaignUserAssignmentId = w.campaignUserAssignmentId
  campaign : x'.campaignOf w' = x.campaignOf w

theorem Entitled.same {w w' : WorkItem} (h : Entitled x w) (hs : SameLease x x' w w')
    (hcover : ∀ a ∈ x.userAssignments, w.leaseOwnerId = some a.userId → a.status = .active →
      x.campaignOf w = some a.campaignId → a ∈ x'.userAssignments)
    (hcarry : ∀ id a, Table.find x.userAssignments id = some a →
      ∃ a', Table.find x'.userAssignments id = some a' ∧ a'.userId = a.userId ∧ a'.campaignId = a.campaignId) :
    Entitled x' w' := by
  obtain ⟨agent, ho, ⟨a, ha, rfl, hrole, hactive, hcamp⟩, id, b, hid, hb, hbu, hbc⟩ := h
  obtain ⟨b', hb', hu', hc'⟩ := hcarry id b hb
  refine ⟨a.userId, hs.owner.trans ho, ⟨a, hcover a ha ho hactive hcamp, rfl, hrole, hactive, ?_⟩, id, b',
    hs.assignment.trans hid, hb', hu'.trans hbu, ?_⟩
  · rw [hs.campaign, hcamp]
  · rw [hs.campaign, hbc, hc']

/-- No assignment changes, and no lease but those the state had. -/
theorem Staffed.of_same (h : Staffed x t) (hle : t ≤ t') (ha : x'.userAssignments = x.userAssignments)
    (hw : ∀ w' ∈ x'.workItems, w'.state = .leased →
      ∃ w ∈ x.workItems, w.state = .leased ∧ SameLease x x' w w') : Staffed x' t' where
  unique := ha ▸ h.unique
  open_ended a hin := by
    rw [ha] at hin
    exact ⟨(h.open_ended a hin).1.trans hle, (h.open_ended a hin).2⟩
  entitled w' hin hl := by
    obtain ⟨w, hwin, hwl, hs⟩ := hw w' hin hl
    refine (h.entitled w hwin hwl).same hs ?_ ?_
    · exact fun a hin _ _ _ => ha ▸ hin
    · exact fun id a hfind => ⟨a, ha ▸ hfind, rfl, rfl⟩

theorem Staffed.sameWork (h : Staffed x t) (hle : t ≤ t') (hs : SameWork x x') : Staffed x' t' := by
  refine h.of_same hle hs.userAssignments fun w hin hl => ⟨w, hs.workItems ▸ hin, hl, rfl, rfl, ?_⟩
  rw [Db.campaignOf, Db.campaignContact, hs.campaignContacts]
  rfl

theorem Staffed.assigns (h : Staffed x t) {now : Time} {campaign : Uuid} (agent : Uuid) (hle : t ≤ t')
    (hnow : now ≤ t') (ha : Assigns campaign agent now x x') : Staffed x' t' := by
  obtain ⟨a, e, rfl, hfree, hb⟩ := ha
  refine ⟨h.unique.append hfree, fun b hin => ?_, fun w hin hl => ?_⟩
  · obtain hin | hin := List.mem_append.1 hin
    · exact ⟨(h.open_ended b hin).1.trans hle, (h.open_ended b hin).2⟩
    · obtain rfl := List.mem_singleton.1 hin
      exact ⟨hb.start ▸ hnow, fun _ => hb.stop⟩
  · refine (h.entitled w hin hl).same ⟨rfl, rfl, rfl⟩ (fun b hin _ _ _ => List.mem_append_left _ hin) ?_
    exact fun id b hfind => ⟨b, Table.find_append_of_some hfind, rfl, rfl⟩

/-- An assignment ends together with the agent's leases on its campaign. -/
theorem Staffed.released (h : Staffed x t) {now : Time} {a : CampaignUserAssignment}
    (ha : a ∈ x.userAssignments) (hle : t ≤ t') :
    Staffed { x with
      userAssignments := Table.modify x.userAssignments a.id (ended now)
      workItems := releasedRows x a.userId a.campaignId } t' := by
  refine ⟨h.unique.modify _ fun _ hk => hk, fun b hin => ?_, fun w hin hl => ?_⟩
  · obtain ⟨c, hc, rfl⟩ := List.mem_map.1 hin
    have hopen := h.open_ended c hc
    split_ifs
    · exact ⟨hopen.1.trans hle, nofun⟩
    · exact ⟨hopen.1.trans hle, hopen.2⟩
  · obtain ⟨v, hv, rfl⟩ := List.mem_map.1 hin
    split_ifs at hl ⊢ with hrel
    · cases hl
    · refine (h.entitled v hv hl).same ⟨rfl, rfl, rfl⟩ (fun b hb ho hactive hcamp => ?_) fun id b hb => ?_
      · refine List.mem_map.2 ⟨b, hb, if_neg fun hid => ?_⟩
        -- the assignment that ends covers the released leases only
        obtain rfl := h.unique.eq hb ha hid
        exact hrel ⟨hcamp, by simp [Work.heldBy, hl, ho]⟩
      · by_cases hid : id = a.id
        · exact ⟨ended now b, hid ▸ Table.find_modify_self (fun _ hk => hk) (hid ▸ hb), rfl, rfl⟩
        · exact ⟨b, (Table.find_modify_ne (f := ended now) (fun _ hk => hk) hid).trans hb, rfl, rfl⟩

theorem Staffed.ends (h : Staffed x t) {now : Time} {campaign assignment : Uuid} (hle : t ≤ t')
    (he : EndsAssignment campaign assignment now x x') : Staffed x' t' := by
  obtain ⟨a, e, rfl, ha, rfl⟩ := he
  obtain rfl : a.id = assignment := Table.key_of_find ha
  exact { h.released (Table.mem_of_find ha) hle with }

theorem Staffed.transfers (h : Staffed x t) {now : Time} {source destination agent : Uuid} (hle : t ≤ t')
    (hnow : now ≤ t') (ht : Transfers source destination agent now x x') : Staffed x' t' := by
  obtain ⟨current, a, e, rfl, hin, rfl, rfl, hfree, hb⟩ := ht
  refine (h.released hin hle).assigns current.userId le_rfl hnow ⟨a, e, rfl, ?_, hb⟩
  change Table.find (Table.modify x.userAssignments current.id (ended now)) a.id = none
  rw [Table.find_modify (f := ended now) fun _ hk => hk, hfree]
  exact ite_self _

theorem Staffed.purges (h : Staffed x t) (hx : x.WellFormed) {campaign : Uuid} (hp : Purges campaign x x') :
    Staffed x' t := by
  obtain ⟨k, e, rfl, -⟩ := hp
  refine h.of_same le_rfl rfl fun w hin hl => ?_
  obtain ⟨hin, hk⟩ := (mem_items_purged hx).1 hin
  obtain ⟨cc, hcc⟩ := hx.campaignContact _ w (hx.workItems.find_of_mem hin)
  refine ⟨w, hin, hl, rfl, rfl, ?_⟩
  have hcamp : x.campaignOf w = some cc.campaignId := by rw [Db.campaignOf, hcc, Option.map_some]
  rw [hcamp]
  change (Table.find (purged campaign x).campaignContacts w.campaignContactId).map _ = _
  rw [find_contact_purged hx.campaignContacts hcc fun he => hk (hcamp.trans (congrArg some he)),
    Option.map_some]

/-! ## The work queue -/

section Queue

variable {q : Queue.Op} {a : Queue.Result} {held : LockKey → Prop}

theorem userAssignments_of_effect (h : q.Effect a held x x') : x'.userAssignments = x.userAssignments := by
  rcases h.cases with ⟨new, dnc, hw, -⟩ | ⟨-, -, -, job, campaign, ks, ccs, ws, hi⟩
  · exact hw.userAssignments
  · exact hi.userAssignments

/-- The lease of a row that is leased after a commit, but not by `lease_next`, was there before. -/
theorem sameLease_of_change {w w' : WorkItem} (h : q.Change w w')
    (hq : ∀ c agent, q ≠ .leaseNext c agent) (hl : w'.state = .leased) :
    w.state = .leased ∧ w'.leaseOwnerId = w.leaseOwnerId ∧
      w'.campaignUserAssignmentId = w.campaignUserAssignmentId := by
  cases q
  case leaseNext c agent => exact absurd rfl (hq c agent)
  case completeWorkItem c r =>
    obtain ⟨-, rfl⟩ | ⟨-, hh, d, hd⟩ := h
    · cases hl
    · simp only [Work.holdsLease, Bool.and_eq_true, decide_eq_true_eq] at hh
      cases hd with
      | redial => exact ⟨hh.1.1, hh.1.2.symm, rfl⟩
      | _ => cases hl
  case renewLease =>
    rw [h.eq] at hl ⊢
    exact ⟨hl, rfl, rfl⟩
  case skipWorkItem =>
    rw [h.eq] at hl
    unfold Work.skipped Work.unlease at hl
    dsimp only at hl
    split_ifs at hl
  case reclaimExpiredLeases | reclaimLeasesForUser =>
    obtain ⟨-, -, rfl⟩ := h
    exact absurd hl (Work.reclaimed_not_leased w)
  case releaseCampaignWorkForAgent =>
    obtain ⟨-, rfl⟩ := h
    cases hl
  case rescheduleReviewItem | closeReviewItem =>
    obtain ⟨-, -, rfl⟩ := h
    cases hl
  case increaseReviewItemAttempts =>
    rw [h.eq] at hl
    cases hl
  case getActiveLease | commitImport => exact h.elim

/-- A commit of the queue hands out a lease, or every lease after it was there before. -/
theorem leases_of_effect (hx : x.WellFormed) (h : q.Effect a held x x') :
    (∃ c agent lease w src b f, Work.HandsOut c agent lease held x x' w src b f) ∨
      ∀ id w', Table.find x'.workItems id = some w' → w'.state = .leased →
        ∃ w, Table.find x.workItems id = some w ∧ w.state = .leased ∧ SameLease x x' w w' := by
  by_cases hq : ∃ c agent, q = .leaseNext c agent
  · obtain ⟨c, agent, rfl⟩ := hq
    cases a
    case lease res =>
      cases res with
      | none =>
        refine Or.inr fun id w' hw' hl => ?_
        obtain ⟨w, hw, hcc, rfl | ⟨-, -, rfl⟩⟩ := h.1.workItem_back hw'
        · exact ⟨_, hw, hl, rfl, rfl, h.1.campaignOf hx hw hcc⟩
        · cases hl
      | some lease =>
        obtain ⟨rfl, -⟩ | ⟨w, src, b, f, hout⟩ := h
        · exact Or.inr fun id w hw hl => ⟨w, hw, hl, rfl, rfl, rfl⟩
        · exact Or.inl ⟨c, agent, lease, w, src, b, f, hout⟩
    all_goals exact h.elim
  · refine Or.inr fun id w' hw' hl => ?_
    rcases h.cases with ⟨new, dnc, hw, -⟩ | ⟨-, -, -, job, campaign, ks, ccs, ws, hi⟩
    · obtain ⟨w, hfind, hcc, hd⟩ := hw.workItem_back hw'
      have hcamp := hw.campaignOf hx hfind hcc
      refine ⟨w, hfind, ?_⟩
      obtain rfl | ⟨-, hc⟩ := hd
      · exact ⟨hl, rfl, rfl, hcamp⟩
      · obtain ⟨hwl, ho, hb⟩ := sameLease_of_change hc (fun c agent he => hq ⟨c, agent, he⟩) hl
        exact ⟨hwl, ho, hb, hcamp⟩
    · obtain hw' | hw' := hi.workItem_back hw'
      · exact ⟨w', hw', hl, rfl, rfl, hi.grows.campaignOf_iff hx hw' rfl⟩
      · rw [(hi.workItem w' hw').2.2] at hl
        cases hl

/-- A new lease is one under the assignment that `lease_next` locked. -/
theorem entitled_of_handsOut (hx : x.WellFormed) {c : Call} {agent : Uuid} {lease : Work.LeaseResult} {w : WorkItem}
    {src : Work.Source} {b : CampaignUserAssignment} {f : Fingerprint}
    (h : Work.HandsOut c agent lease held x x' w src b f) : Entitled x' (Work.leaseTo c agent src b.id w) := by
  obtain ⟨-, hb, n, hagent⟩ := h.assigned
  simp only [Work.agentAssignment, Bool.and_eq_true, decide_eq_true_eq] at hagent
  obtain ⟨⟨⟨huser, hrole⟩, hactive⟩, -⟩ := hagent
  have hcamp : x'.campaignOf (Work.leaseTo c agent src b.id w) = some b.campaignId :=
    (h.effect.campaignOf hx h.row rfl).trans h.campaign
  rw [← h.assignments] at hb
  exact ⟨agent, rfl, ⟨b, Table.mem_of_find hb, huser, hrole, hactive, hcamp⟩, b.id, b, rfl, hb, huser, hcamp⟩

theorem Staffed.work (h : Staffed x t) (hx : x.WellFormed) (hle : t ≤ t') (he : q.Effect a held x x') :
    Staffed x' t' := by
  have ha := userAssignments_of_effect he
  have hwf := he.wellFormed hx
  obtain ⟨c, agent, lease, w, src, b, f, ho⟩ | hsame := leases_of_effect hx he
  · refine ⟨ha ▸ h.unique, fun b hin => ?_, fun v' hin hl => ?_⟩
    · rw [ha] at hin
      exact ⟨(h.open_ended b hin).1.trans hle, (h.open_ended b hin).2⟩
    obtain ⟨v, hv, hcc, rfl | ⟨-, ⟨-, rfl⟩ | ⟨rfl, rfl⟩⟩⟩ := ho.effect.workItem_back (hwf.workItems.find_of_mem hin)
    · refine (h.entitled _ (Table.mem_of_find hv) hl).same ⟨rfl, rfl, ho.effect.campaignOf hx hv hcc⟩ ?_ ?_
      · exact fun a hin _ _ _ => ha ▸ hin
      · exact fun id a hfind => ⟨a, ha ▸ hfind, rfl, rfl⟩
    · cases hl
    · exact entitled_of_handsOut hx ho
  · refine h.of_same hle ha fun w' hin hl => ?_
    obtain ⟨w, hw, hs⟩ := hsame _ w' (hwf.workItems.find_of_mem hin) hl
    exact ⟨w, Table.mem_of_find hw, hs⟩

end Queue

/-! ## Sequential runs -/

/-- The clock readings of the call lie between the two times. -/
def Timed (c : Call) (t t' : Time) : Prop := ∀ n, t ≤ c.utcnow n ∧ c.utcnow n ≤ t'

/-- `x` can be reached from `v` by operations that run one after the other while the clock
goes from `t₀` to `t`. -/
inductive TimedRun (v : Db) (t₀ : Time) : Db → Time → Prop where
  | start : TimedRun v t₀ v t₀
  | step {x : Db} {t t' : Time} {op : Op} (h : TimedRun v t₀ x t) (ht : Timed op.call t t') :
      TimedRun v t₀ ((body op).transact x).2 t'

/-- What every operation preserves, while the clock goes on, holds at the end of a run. -/
theorem TimedRun.invariant {v : Db} {t₀ : Time} {I : Db → Time → Prop}
    (wait : ∀ x t t', I x t → t ≤ t' → I x t')
    (step : ∀ (op : Op) x x' t t', Valid x → Timed op.call t t' → op.Effect x x' → I x t → I x' t')
    (hv : Valid v) (hI : I v t₀) (h : TimedRun v t₀ x t) : Valid x ∧ I x t := by
  induction h with
  | start => exact ⟨hv, hI⟩
  | @step x t t' op h ht ih =>
    obtain ⟨hx, hI⟩ := ih
    obtain heq | ⟨a, hr⟩ := Prog.transact_cases (p := body op) (s := x) rfl
    · rw [heq]
      exact ⟨hx, wait _ _ _ hI ((ht 0).1.trans (ht 0).2)⟩
    · have he := hx.effect hr
      exact ⟨hx.step he, step op _ _ _ _ hx ht he hI⟩

theorem Staffed.wait (h : Staffed x t) (hle : t ≤ t') : Staffed x t' :=
  h.sameWork hle ⟨rfl, rfl, rfl, rfl, rfl, rfl⟩

theorem Staffed.step (h : Staffed x t) (hx : Valid x) {op : Op} (ht : Timed op.call t t') (he : op.Effect x x') :
    Staffed x' t' := by
  have hle : t ≤ t' := (ht 0).1.trans (ht 0).2
  obtain ⟨q, a, rfl, hr⟩ | hs | ⟨n, campaign, agent, ha⟩ | ⟨n, campaign, assignment, ha⟩ |
    ⟨n, source, destination, agent, ha⟩ | hp := he.kinds
  · obtain ⟨held, hq⟩ := Queue.effect_of_runs hx.wellFormed hr
    exact h.work hx.wellFormed hle hq
  · exact h.sameWork hle hs
  · exact h.assigns agent hle (ht n).2 ha
  · exact h.ends hle ha
  · exact h.transfers hle (ht n).2 ha
  · clear he
    have hall : Staffed x' t ∧ x'.WellFormed := by
      induction hp with
      | refl => exact ⟨h, hx.wellFormed⟩
      | tail _ hs ih =>
        obtain ⟨campaign, hs⟩ := hs
        refine ⟨ih.1.purges ih.2 hs, ?_⟩
        obtain ⟨k, e, rfl, -⟩ := hs
        exact { wellFormed_purged ih.2 campaign with }
    exact hall.1.wait hle

theorem staffed_of_run {v : Db} {t₀ : Time} (hv : Valid v) (hs : Staffed v t₀) (h : TimedRun v t₀ x t) :
    Valid x ∧ Staffed x t :=
  h.invariant (fun _ _ _ hI hle => hI.wait hle) (fun _ _ _ _ _ hx ht he hI => hI.step hx ht he) hv hs

end Service

end OmniDB
