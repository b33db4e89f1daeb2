import OmniDB.Proofs.Staffing

/-! Lease eligibility. In every sequential run a lease that is handed out is for an active
campaign, an agent assigned to it and a clear phone, except the one that an immediate redial
makes: it does not look at the status of the campaign. -/

namespace OmniDB

open Tx

namespace Service

open Queue (DoNotCall)

variable {x x' : Db} {t t' : Time}

/-! ## Do-not-call safety in sequential runs -/

theorem DoNotCall.sameWork (h : DoNotCall x) (hs : SameWork x x') : DoNotCall x' := by
  intro w hw ht f hf
  rw [hs.workItems] at hw
  have hphone : x'.phoneOf w = x.phoneOf w := by
    unfold Db.phoneOf Db.contactOf Db.contact Db.campaignContact
    rw [hs.campaignContacts, hs.contacts]
  rw [Db.suppressed, hs.suppressions]
  exact h w hw ht f (hphone ▸ hf)

theorem DoNotCall.released (h : DoNotCall x) (agent campaign : Uuid) :
    DoNotCall { x with workItems := releasedRows x agent campaign } := by
  intro w hw ht f hf
  obtain ⟨v, hv, rfl⟩ := List.mem_map.1 hw
  split_ifs at ht hf with hrel
  · exact h v hv (Work.open_of_heldBy hrel.2) f hf
  · exact h v hv ht f hf

theorem DoNotCall.purged (h : DoNotCall x) (hx : x.WellFormed) (campaign : Uuid) :
    DoNotCall (purged campaign x) := by
  intro w hw ht f hf
  obtain ⟨hw, hk⟩ := (mem_items_purged hx).1 hw
  refine h w hw ht f ?_
  -- the contact of an item that stays is found before and after
  obtain ⟨cc, hcc⟩ := hx.campaignContact _ w (hx.workItems.find_of_mem hw)
  have hcc' : (Service.purged campaign x).campaignContact w = some cc := by
    refine find_contact_purged hx.campaignContacts hcc fun he => hk ?_
    rw [Db.campaignOf, hcc, Option.map_some, he]
  obtain ⟨k, hk', hphone⟩ := Option.map_eq_some_iff.1 hf
  rw [Db.contactOf, hcc', Option.bind_some] at hk'
  have hmem := (List.mem_filter.1 (Table.mem_of_find hk')).1
  have hid : k.id = cc.contactId := Table.key_of_find hk'
  have hk₀ : x.contact cc = some k := by
    rw [Db.contact, ← hid]
    exact hx.contacts.find_of_mem hmem
  rw [Db.phoneOf, Db.contactOf, hcc, Option.bind_some, hk₀, Option.map_some, hphone]

theorem DoNotCall.step (h : DoNotCall x) (hx : Valid x) {op : Op} (he : op.Effect x x') : DoNotCall x' := by
  obtain ⟨q, a, rfl, hr⟩ | hs | ⟨n, campaign, agent, b, e, rfl, -⟩ | ⟨n, campaign, assignment, b, e, rfl, -⟩ |
    ⟨n, source, destination, agent, current, b, e, rfl, -⟩ | hp := he.kinds
  · obtain ⟨held, hq⟩ := Queue.effect_of_runs hx.wellFormed hr
    exact Queue.doNotCall_step hx.wellFormed hq h
  · exact DoNotCall.sameWork h hs
  · exact h
  · exact DoNotCall.released h _ _
  · exact DoNotCall.released h _ _
  · clear he
    have hall : DoNotCall x' ∧ x'.WellFormed := by
      induction hp with
      | refl => exact ⟨h, hx.wellFormed⟩
      | tail _ hs ih =>
        obtain ⟨campaign, k, e, rfl, -⟩ := hs
        exact ⟨DoNotCall.purged ih.1 ih.2 campaign, { wellFormed_purged ih.2 campaign with }⟩
    exact hall.1

/-! ## The leases an operation hands out -/

/-- A lease as the agent gets it, at the time of the call. -/
structure Handed where
  agent : Uuid
  item : Uuid
  leaseId : Uuid
  time : Time

/-- The leases of `lease_next` and `get_active_lease`, and the redial lease of a completion
that is the first under its key. -/
inductive Hands (x : Db) : Queue.Op → Queue.Result → Handed → Prop where
  | leaseNext (c : Call) (agent : Uuid) (lease : Work.LeaseResult) :
      Hands x (.leaseNext c agent) (.lease (some lease)) ⟨agent, lease.workItemId, lease.leaseId, c.utcnow 0⟩
  | getActiveLease (c : Call) (agent : Uuid) (lease : Work.LeaseResult) :
      Hands x (.getActiveLease c agent) (.lease (some lease)) ⟨agent, lease.workItemId, lease.leaseId, c.utcnow 0⟩
  | redial (c : Call) (r : Work.CompleteRequest) (res : Work.CompletionResult) (leaseId : Uuid)
      (first : ∀ a ∈ x.attempts, ¬(a.agentId = r.agentId ∧ a.idempotencyKey = r.idempotencyKey))
      (h : res.redialLeaseId = some leaseId) :
      Hands x (.completeWorkItem c r) (.completion res) ⟨r.agentId, r.workItemId, leaseId, c.utcnow 0⟩

/-- The agent may work the lease at its time. -/
structure Eligible (x : Db) (l : Handed) (w : WorkItem) : Prop where
  row : Table.find x.workItems l.item = some w
  leased : w.state = .leased
  owner : w.leaseOwnerId = some l.agent
  leaseId : w.leaseId = some l.leaseId
  live : ∃ e, w.leaseExpiresAt = some e ∧ l.time < e
  campaign : x.ActiveCampaign w
  assigned : ∃ a ∈ x.userAssignments, Work.agentAssignment l.agent l.time a = true ∧
    x.campaignOf w = some a.campaignId
  phone : ∃ f, x.phoneOf w = some f ∧ x.suppressed f = false
  carried : ∃ id a, w.campaignUserAssignmentId = some id ∧ Table.find x.userAssignments id = some a ∧
    a.userId = l.agent ∧ x.campaignOf w = some a.campaignId

/-- The agent has the lease already, or the item waits for the agent. -/
def Waiting (x : Db) (agent item : Uuid) (now : Time) : Prop :=
  ∃ w, Table.find x.workItems item = some w ∧ (Work.activeLease agent now w = true ∨ w.state = .queued ∨
    (w.state = .retryWait ∧ dueBy w.dueAt now = true) ∨
    (w.state = .callbackWait ∧ w.assignedAgentId = some agent ∧ dueBy w.dueAt now = true))

/-- The lease is one for the agent to work, and one of `lease_next` comes from a waiting item. -/
def Rightful (x x' : Db) (q : Queue.Op) (l : Handed) : Prop :=
  (∃ w, Eligible x' l w) ∧ ∀ c, q = .leaseNext c l.agent → Waiting x l.agent l.item l.time

/-- The configured duration is positive where the operation makes a lease, and a completion
is for an active campaign. -/
def Fit (x : Db) : Queue.Op → Prop
  | .leaseNext c agent => (∃ w ∈ x.workItems, Work.activeLease agent (c.utcnow 0) w = true) ∨
      0 < c.settings.leaseDurationMinutes
  | .completeWorkItem c r => 0 < c.settings.leaseDurationMinutes ∧
      ∀ w, Table.find x.workItems r.workItemId = some w → x.ActiveCampaign w
  | _ => True

section Leases

variable {c : Call} {agent : Uuid} {lease : Work.LeaseResult}

/-- A covering assignment is effective at any later time. -/
theorem Staffed.assigned (h : Staffed x t) (ht : Timed c t t') {w : WorkItem} {a : CampaignUserAssignment}
    (ha : a ∈ x.userAssignments) (huser : a.userId = agent) (hrole : a.campaignRole = "agent")
    (hactive : a.status = .active) (hcamp : x.campaignOf w = some a.campaignId) :
    ∃ a ∈ x.userAssignments, Work.agentAssignment agent (c.utcnow 0) a = true ∧
      x.campaignOf w = some a.campaignId := by
  obtain ⟨hfrom, hto⟩ := h.open_ended a ha
  refine ⟨a, ha, ?_, hcamp⟩
  simp [Work.agentAssignment, effectiveAt, huser, hrole, hactive, hto hactive, hfrom.trans (ht 0).1]

theorem lt_expiry {now : Time} {n : ℤ} : now < now + minutes n ↔ 0 < n := by
  change @LT.lt ℤ _ now (now + n * 60000000) ↔ 0 < n
  omega

/-- A lease the agent already has. -/
theorem eligible_of_resumes (hs : Staffed x t) (ht : Timed c t t') {w : WorkItem} {f : Fingerprint}
    (h : Work.Resumes c agent lease x w f) :
    Eligible x ⟨agent, lease.workItemId, lease.leaseId, c.utcnow 0⟩ w := by
  have hlive := h.live
  simp only [Work.activeLease, Bool.and_eq_true, decide_eq_true_eq] at hlive
  obtain ⟨⟨hl, ho⟩, hexp⟩ := hlive
  obtain ⟨e, he, hlt⟩ := (Option.any_eq_true _ _).1 hexp
  obtain ⟨owner, howner, ⟨a, ha, huser, hrole, hactive, hcamp⟩, id, b, hid, hb, hbu, hbc⟩ :=
    hs.entitled w (Table.mem_of_find h.row) hl
  obtain rfl : owner = agent := Option.some.inj (howner.symm.trans ho)
  exact ⟨h.row, hl, ho, h.leaseId, ⟨e, he, of_decide_eq_true hlt⟩, h.active,
    hs.assigned ht ha huser hrole hactive hcamp, ⟨f, h.phone, h.clear⟩, id, b, hid, hb, hbu, hbc⟩

/-- `lease_next` resumes a lease, or leases an item while the agent has no other. -/
theorem leaseNext_alone (h : (Work.leaseNext c agent).Runs x (some lease) x') :
    (Work.getActiveLease c agent).Runs x (some lease) x' ∨ Work.otherLease x' agent lease.workItemId = false := by
  unfold Work.leaseNext at h
  simp only [Prog.runs_bind, Prog.runs_acquire] at h
  obtain ⟨_, _, rfl, o, y, ho, h⟩ := h
  cases o with
  | some l =>
    obtain ⟨hl, rfl⟩ := Prog.runs_pure.1 h
    left
    unfold Work.getActiveLease
    simp only [Prog.runs_bind, Prog.runs_acquire]
    exact ⟨(), _, rfl, hl ▸ ho⟩
  | none =>
    right
    simp only [Prog.runs_bind, runs_requireEnabled, Prog.runs_raiseIf, Prog.runs_view, and_assoc,
      exists_and_left, exists_eq_left, exists_const] at h
    obtain ⟨-, -, chosen, z, -, h⟩ := h
    cases chosen with
    | none =>
      obtain ⟨hl, -⟩ := Prog.runs_pure.1 h
      cases hl
    | some chosen =>
      unfold Work.setWorkItem Work.flushLease at h
      simp only [Prog.runs_bind, Prog.runs_update, Prog.runs_view, Prog.runs_raiseIf, runs_getRow,
        Prog.runs_expect, runs_recordAudit, Prog.runs_pure, and_assoc, exists_and_left, exists_eq_left, exists_const] at h
      obtain ⟨hflush, campaign, -, res, w, hres, hl, rfl⟩ := h
      unfold Work.leaseResult at hres
      obtain ⟨hr, rfl⟩ := Prog.runs_pure.1 hres
      obtain rfl := Option.some.inj hl
      rw [hr]
      exact Bool.eq_false_iff.2 hflush

/-- The row of a lease that is handed out waits before, and the lease lasts if its duration does. -/
theorem eligible_of_handsOut (hx : x.WellFormed) (hs : Staffed x t) (ht : Timed c t t') {held : LockKey → Prop}
    {w : WorkItem} {src : Work.Source} {b : CampaignUserAssignment} {f : Fingerprint}
    (h : Work.HandsOut c agent lease held x x' w src b f) :
    Waiting x agent lease.workItemId (c.utcnow 0) ∧
      ((∃ w, Eligible x' ⟨agent, lease.workItemId, lease.leaseId, c.utcnow 0⟩ w) ↔
        0 < c.settings.leaseDurationMinutes) := by
  refine ⟨⟨w, h.row, Or.inr ?_⟩, fun ⟨w', hw'⟩ => ?_,
    fun hpos => ⟨Work.leaseTo c agent src b.id w, ?_⟩⟩
  · have hc := h.condition
    cases src <;> simp only [Work.Source.conditions, Bool.and_eq_true, decide_eq_true_eq] at hc
    · exact Or.inr (Or.inr ⟨hc.1.1, hc.1.2, hc.2⟩)
    · exact Or.inr (Or.inl hc)
    · exact Or.inl hc
  · obtain rfl : w' = Work.leaseTo c agent src b.id w := Option.some.inj (hw'.row.symm.trans h.leased)
    obtain ⟨e, he, hlt⟩ := hw'.live
    obtain rfl : c.utcnow 0 + minutes c.settings.leaseDurationMinutes = e := Option.some.inj he
    exact lt_expiry.1 hlt
  · have hentitled := entitled_of_handsOut hx h
    obtain ⟨owner, howner, ⟨a, ha, huser, hrole, hactive, hcamp⟩, id, b', hid, hb, hbu, hbc⟩ := hentitled
    obtain rfl : agent = owner := Option.some.inj howner
    rw [h.assignments] at ha
    have hcamp₀ : x.campaignOf w = some a.campaignId := (h.effect.campaignOf hx h.row rfl).symm.trans hcamp
    obtain ⟨a', ha', hagent, hcamp'⟩ := hs.assigned ht ha huser hrole hactive hcamp₀
    have hclear : x'.suppressed f = false := by
      rw [h.effect.suppressed_eq, h.clear, List.any_nil, Bool.or_false]
    obtain ⟨k, hk, hkactive⟩ := h.active
    refine ⟨h.leased, rfl, rfl, by rw [h.leaseId]; rfl, ⟨_, rfl, lt_expiry.2 hpos⟩, ⟨k, ?_, ?_⟩, ⟨a', ?_, hagent, ?_⟩,
      ⟨f, h.effect.grows.phoneOf rfl h.phone, hclear⟩, id, b', hid, hb, hbu, hbc⟩
    · exact (h.effect.campaignOf hx h.row rfl).trans hk
    · rw [h.effect.campaigns]
      exact hkactive
    · rw [h.assignments]
      exact ha'
    · exact (h.effect.campaignOf hx h.row rfl).trans hcamp'

/-- While the agent is handed a lease it did not have, it has no live lease. -/
theorem no_live_of_handsOut (hx : x.WellFormed) {held : LockKey → Prop} {w : WorkItem} {src : Work.Source}
    {b : CampaignUserAssignment} {f : Fingerprint} (h : Work.HandsOut c agent lease held x x' w src b f)
    (halone : Work.otherLease x' agent lease.workItemId = false) :
    ¬∃ v ∈ x.workItems, Work.activeLease agent (c.utcnow 0) v = true := by
  rintro ⟨v, hv, hlive⟩
  simp only [Work.activeLease, Bool.and_eq_true, decide_eq_true_eq] at hlive
  obtain ⟨⟨hl, ho⟩, -⟩ := hlive
  have hne : v ≠ w := fun heq => Work.not_leased_of_conditions h.condition (heq ▸ hl)
  have hfind : Table.find x.workItems v.id = some v := hx.workItems.find_of_mem hv
  -- the live lease is still there, beside the new one
  obtain ⟨v', hv', -, rfl | ⟨-, ⟨hnl, -⟩ | ⟨heq, -⟩⟩⟩ := h.effect.workItem_forth hfind
  · have hid : v'.id ≠ lease.workItemId := fun hid => hne (Option.some.inj (hfind.symm.trans (hid ▸ h.row)))
    have hnone := List.any_eq_false.1 halone v' (Table.mem_of_find hv')
    simp [hl, ho, hid] at hnone
  · exact hnl hl
  · exact hne heq

end Leases

/-- The lease of a completion: the item was leased to the agent before, on whatever campaign. -/
theorem eligible_of_redial (hx : x.WellFormed) (hs : Staffed x t) {c : Call}
    {r : Work.CompleteRequest} {res : Work.CompletionResult} {held : LockKey → Prop} {a : CallAttempt}
    {dnc : List SuppressionEntry} {leaseId : Uuid} (ht : Timed c t t') (hd' : DoNotCall x')
    (h : Work.Completed c r res held x x' a dnc) (hres : res.redialLeaseId = some leaseId) :
    (∃ w, Eligible x' ⟨r.agentId, r.workItemId, leaseId, c.utcnow 0⟩ w) ↔ Fit x (.completeWorkItem c r) := by
  obtain ⟨w', f, hw', hl', hid', hp', -, hclear⟩ := Queue.clearLease_of_complete hx hd' h hres
  obtain ⟨w, u, d, hrow⟩ := h.row
  obtain rfl : w' = u := Option.some.inj (hw'.symm.trans hrow.final)
  have hlease := hrow.lease
  simp only [Work.holdsLease, Bool.and_eq_true, decide_eq_true_eq] at hlease
  obtain ⟨⟨hl, ho⟩, -⟩ := hlease
  obtain ⟨owner, howner, ⟨b, hb, huser, hrole, hactive, hcamp⟩, id, b', hbid, hbfind, hbu, hbc⟩ :=
    hs.entitled w (Table.mem_of_find hrow.row) hl
  obtain rfl : owner = r.agentId := Option.some.inj (howner.symm.trans ho)
  obtain ⟨b, hb, hagent, hcamp⟩ := hs.assigned ht hb huser hrole hactive hcamp
  obtain rfl := hrow.disposes.redialled hl'
  have hcampaign : x'.campaignOf (Work.redialled c r.agentId w) = x.campaignOf w :=
    h.effect.campaignOf hx hrow.row rfl
  have hactive' : x'.ActiveCampaign (Work.redialled c r.agentId w) ↔ x.ActiveCampaign w := by
    rw [Db.ActiveCampaign, hcampaign, h.effect.campaigns]
    rfl
  constructor
  · rintro ⟨u, hu⟩
    obtain rfl := Option.some.inj (hu.row.symm.trans hw')
    obtain ⟨e, he, hlt⟩ := hu.live
    obtain rfl : c.utcnow 0 + minutes c.settings.leaseDurationMinutes = e := Option.some.inj he
    refine ⟨lt_expiry.1 hlt, fun v hv => ?_⟩
    obtain rfl : v = w := Option.some.inj (hv.symm.trans hrow.row)
    exact hactive'.1 hu.campaign
  · rintro ⟨hpos, hcamp'⟩
    refine ⟨_, hw', hl', rfl, hid', ⟨_, rfl, lt_expiry.2 hpos⟩, hactive'.2 (hcamp' w hrow.row), ⟨b, ?_, hagent, ?_⟩,
      ⟨f, hp', hclear⟩, id, b', hbid, ?_, hbu, ?_⟩
    · rw [h.effect.userAssignments]
      exact hb
    · exact hcampaign.trans hcamp
    · rw [h.effect.userAssignments]
      exact hbfind
    · exact hcampaign.trans hbc

/-- In every sequential run, a lease that is handed out is rightful exactly if the operation
is fit for it. -/
theorem lease_eligibility {v x x' : Db} {t₀ t t' : Time} (hv : Valid v) (hs : Staffed v t₀) (hd : DoNotCall v)
    (h : TimedRun v t₀ x t) {q : Queue.Op} {res : Queue.Result} {l : Handed} (ht : Timed q.call t t')
    (hr : (Queue.body q).Runs x res x') (hl : Hands x q res l) : Rightful x x' q l ↔ Fit x q := by
  have hrun := h.invariant (I := fun x t => Staffed x t ∧ DoNotCall x)
    (fun _ _ _ hI hle => ⟨hI.1.wait hle, hI.2⟩)
    (fun _ _ _ _ _ hx ht he hI => ⟨hI.1.step hx ht he, DoNotCall.step hI.2 hx he⟩) hv ⟨hs, hd⟩
  obtain ⟨hx, hs, hd⟩ := hrun
  obtain ⟨held, he⟩ := Queue.effect_of_runs hx.wellFormed hr
  cases hl with
  | leaseNext c agent lease =>
    change Timed c t t' at ht
    obtain ⟨b, hb, hres⟩ := Prog.runs_map.1 hr
    cases hres
    obtain ⟨rfl, w, f, hw⟩ | ⟨w, src, b, f, hout⟩ := he
    · have hmem := Table.mem_of_find hw.row
      exact ⟨fun _ => Or.inl ⟨w, hmem, hw.live⟩,
        fun _ => ⟨⟨w, eligible_of_resumes hs ht hw⟩, fun _ _ => ⟨w, hw.row, Or.inl hw.live⟩⟩⟩
    · obtain ⟨hwait, hiff⟩ := eligible_of_handsOut hx.wellFormed hs ht hout
      have hno : ¬∃ v ∈ x.workItems, Work.activeLease agent (c.utcnow 0) v = true := by
        obtain hget | halone := leaseNext_alone hb
        · -- a lease that is resumed was leased before
          have hrun : (Queue.body (.getActiveLease c agent)).Runs x (.lease (some lease)) x' :=
            Prog.runs_map.2 ⟨_, hget, rfl⟩
          obtain ⟨held', rfl, hres⟩ := Queue.effect_of_runs hx.wellFormed hrun
          obtain ⟨u, g, hu⟩ := hres lease rfl
          obtain rfl := Option.some.inj (hu.row.symm.trans hout.row)
          have hlive := hu.live
          simp only [Work.activeLease, Bool.and_eq_true, decide_eq_true_eq] at hlive
          exact absurd hlive.1.1 (Work.not_leased_of_conditions hout.condition)
        · exact no_live_of_handsOut hx.wellFormed hout halone
      rw [Rightful, hiff, Fit]
      simp only [hno, false_or, and_iff_left_iff_imp]
      exact fun _ _ _ => hwait
  | getActiveLease c agent lease =>
    obtain ⟨rfl, hres⟩ := he
    obtain ⟨w, f, hw⟩ := hres lease rfl
    exact ⟨fun _ => trivial, fun _ => ⟨⟨w, eligible_of_resumes hs ht hw⟩, fun c hq => by cases hq⟩⟩
  | redial c r res leaseId first hres =>
    have hd' := Queue.doNotCall_step hx.wellFormed he hd
    obtain ⟨-, b, hb, hagent, hkey, -⟩ | ⟨b, dnc, hcomp⟩ := he
    · exact absurd ⟨hagent, hkey⟩ (first b hb)
    · rw [Rightful, and_iff_left fun c hq => by cases hq]
      exact eligible_of_redial hx.wellFormed hs ht hd' hcomp hres

namespace Demo

/-- The campaign of the small database, with its agents 5 and 6, and manager 7. -/
def staffDb : Db := { Queue.Demo.db with
  roleAssignments := [{
    id := 63, userId := 7, roleCode := .manager, scopeType := .organization, effectiveFrom := 0 }] }

theorem staffDb_valid : Valid staffDb :=
  ⟨.of_mem (by decide) (by decide) (by decide) (by decide) (by decide) (by decide), by decide⟩

theorem staffDb_staffed : Staffed staffDb 0 := ⟨by decide, by decide, by simp [staffDb, Queue.Demo.db]⟩

theorem timed_call {n : ℕ} {t t' : Time} (h : t ≤ minutes n) (h' : minutes n ≤ t') : Timed (Queue.Demo.call n) t t' :=
  fun _ => ⟨h, h'⟩

/-- Agent 5 leases the contact in minute 1. -/
def leased : Db := ((body (.work (.leaseNext (Queue.Demo.call 1) 5))).transact staffDb).2

/-- The manager pauses the campaign in minute 2. -/
def paused : Db := ((body (.pauseCampaign (Queue.Demo.call 2) 7 1)).transact leased).2

theorem paused_run : TimedRun staffDb 0 paused (minutes 2) := by
  have hlease : TimedRun staffDb 0 leased (minutes 1) := .step .start (timed_call (by decide) le_rfl)
  exact .step hlease (timed_call (by decide) le_rfl)

end Demo

theorem lease_eligibility_first : ∃ x' lease, (Queue.body (.leaseNext (Queue.Demo.call 1) 5)).Runs Demo.staffDb
      (.lease (some lease)) x' ∧
    Rightful Demo.staffDb x' (.leaseNext (Queue.Demo.call 1) 5) ⟨5, lease.workItemId, lease.leaseId, minutes 1⟩ := by
  refine ⟨_, _, Prog.runs_transact rfl, ?_⟩
  exact (lease_eligibility (q := .leaseNext (Queue.Demo.call 1) 5) Demo.staffDb_valid Demo.staffDb_staffed
    Queue.doNotCall_demo .start (Demo.timed_call (by decide) le_rfl : Timed _ 0 (minutes 1))
    (Prog.runs_transact rfl) (.leaseNext _ _ _)).2
    (Or.inr (by decide))

/-- The agent loses the line and completes the contact with an immediate redial: a new lease on
the paused campaign. -/
theorem redial_on_paused : ∃ res x', TimedRun Demo.staffDb 0 Demo.paused (minutes 2) ∧
    (Queue.body (Queue.Demo.complete 3 1 5 54)).Runs Demo.paused res x' ∧
    Hands Demo.paused (Queue.Demo.complete 3 1 5 54) res ⟨5, 30, 301, minutes 3⟩ ∧
    ¬Rightful Demo.paused x' (Queue.Demo.complete 3 1 5 54) ⟨5, 30, 301, minutes 3⟩ := by
  refine ⟨_, _, Demo.paused_run, Prog.runs_transact rfl, .redial _ _ _ _ (by decide +kernel) rfl, ?_⟩
  rintro ⟨⟨w, hw⟩, -⟩
  obtain ⟨k, -, hk⟩ := hw.campaign
  obtain ⟨c, hc, hst⟩ := Option.map_eq_some_iff.1 hk
  have hnone : ∀ c ∈ ((Queue.body (Queue.Demo.complete 3 1 5 54)).transact Demo.paused).2.campaigns,
      c.status ≠ .active := by decide +kernel
  exact hnone c (Table.mem_of_find hc) hst

end Service

end OmniDB
