import OmniDB.Proofs.Deletion
import OmniDB.Proofs.Statements

/-! Lifecycle requests and background tasks that race on a campaign. Each loads the campaign,
checks the status of the copy it loaded and writes the row later: where that is still the status
when the row lock is granted, the status only moves along the lifecycle. -/

namespace OmniDB.LifecycleRace

open Tx
open Tx.Prog

inductive Op where
  | launch (c : Call) (user id : Uuid)
  | pause (c : Call) (user id : Uuid)
  | archive (c : Call) (user id : Uuid)
  | deleteData (c : Call) (user id : Uuid)
  | detectCompleted (c : Call)
  | purgeExpired (c : Call)

def body : Op → Txn Unit
  | .launch c user id => Service.launchCampaign c user id
  | .pause c user id => Service.pauseCampaign c user id
  | .archive c user id => Service.archiveCampaign c user id
  | .deleteData c user id => Service.deleteCampaignData c user id
  | .detectCompleted c => (fun _ => ()) <$> Retention.detectCompletedCampaigns c
  | .purgeExpired c => (fun _ => ()) <$> Retention.purgeExpiredCampaignData c

/-! ## The lifecycle -/

/-- An edge of the lifecycle graph. -/
inductive Edge : CampaignStatus → CampaignStatus → Prop where
  | launch : Edge .draft .active
  | pause : Edge .active .paused
  | complete : Edge .active .completed
  | archive {status : CampaignStatus} (h : status ≠ .completed ∧ status ≠ .archived) : Edge status .archived

/-- The columns that completion and deletion write, and the status. -/
structure Columns where
  status : CampaignStatus
  completedAt : Option Time
  retentionDeleteAfter : Option Time
deriving DecidableEq

def columnsOf (campaign : Campaign) : Columns :=
  ⟨campaign.status, campaign.completedAt, campaign.retentionDeleteAfter⟩

/-- The completions and deletions of the campaign's data, as they were audited. -/
def retentionEvents (x : Db) (campaign : Uuid) : List String :=
  (x.audit.filter fun e => e.targetType = some "campaign" && e.targetId = some campaign &&
    (e.action = "campaign.completed" || e.action = "campaign.delete_data")).map AuditEvent.action

/-- Where a campaign stands: its row, and whether its completion or the deletion of its data came last. -/
structure Track where
  row : Option Columns
  last : Option String
deriving DecidableEq

def track (x : Db) (campaign : Uuid) : Track :=
  ⟨(Table.find x.campaigns campaign).map columnsOf, (retentionEvents x campaign).getLast?⟩

def Track.status (t : Track) : Option CampaignStatus := t.row.map Columns.status

theorem status_track (x : Db) (campaign : Uuid) : (track x campaign).status = x.statusOf campaign := by
  unfold Track.status track Db.statusOf
  rw [Option.map_map]
  rfl

def Track.move (t : Track) (status : CampaignStatus) : Track :=
  { t with row := t.row.map fun r => { r with status := status } }

def Track.complete (t : Track) (now : Time) : Track where
  row := t.row.map fun _ => ⟨.completed, some now, some (now + days Retention.retentionDays)⟩
  last := some "campaign.completed"

def Track.delete (t : Track) : Track where
  row := t.row.map fun r => { r with retentionDeleteAfter := none }
  last := some "campaign.delete_data"

/-- The campaign is completed if and only if `completed_at` is set, and `retention_delete_after` is set
exactly while it is completed and its data was not deleted since. -/
structure Lifecycle (t : Track) : Prop where
  completed : ∀ r, t.row = some r → (r.status = .completed ↔ r.completedAt.isSome = true)
  retention : ∀ r, t.row = some r → (r.retentionDeleteAfter.isSome = true ↔ t.last = some "campaign.completed")
  retained : ∀ r, t.row = some r → r.retentionDeleteAfter.isSome = true → r.status = .completed

/-- What an operation does to a campaign it acts on. -/
def Op.Moves : Op → Track → Track → Prop
  | .launch .., t, t' => t.status = some .draft ∧ t' = t.move .active
  | .pause .., t, t' => t.status = some .active ∧ t' = t.move .paused
  | .archive .., t, t' => (∃ status, t.status = some status ∧ status ≠ .completed ∧ status ≠ .archived) ∧
      t' = t.move .archived
  | .detectCompleted c, t, t' => t.status = some .active ∧ t' = t.complete (c.utcnow 0)
  | .deleteData .., t, t' | .purgeExpired _, t, t' => t.status = some .completed ∧ t' = t.delete

section Tracks

variable {t t' : Track} {op : Op}

@[simp] theorem status_move (status : CampaignStatus) : (t.move status).status = t.status.map fun _ => status := by
  simp [Track.move, Track.status, Function.comp_def]

@[simp] theorem status_complete (now : Time) : (t.complete now).status = t.status.map fun _ => .completed := by
  simp [Track.complete, Track.status, Function.comp_def]

@[simp] theorem status_delete : t.delete.status = t.status := by
  simp [Track.delete, Track.status, Function.comp_def]

@[simp] theorem delete_delete : t.delete.delete = t.delete := by
  simp [Track.delete, Function.comp_def]

/-- A change of status that is neither a completion nor undoes one. -/
theorem Lifecycle.move (h : Lifecycle t) {status status' : CampaignStatus} (ht : t.status = some status)
    (hne : status ≠ .completed) (hne' : status' ≠ .completed) : Lifecycle (t.move status') := by
  obtain ⟨r, hr, hs⟩ := Option.map_eq_some_iff.1 ht
  have hopen : r.completedAt.isSome = false ∧ r.retentionDeleteAfter.isSome = false := by
    constructor
    · exact Bool.eq_false_iff.2 fun hc => hne (hs ▸ (h.completed r hr).2 hc)
    · exact Bool.eq_false_iff.2 fun hc => hne (hs ▸ h.retained r hr hc)
  have hrow : (t.move status').row = some { r with status := status' } := by
    unfold Track.move
    rw [hr]
    rfl
  constructor
  · intro r' hr'
    cases hrow.symm.trans hr'
    simp [hne', hopen.1]
  · intro r' hr'
    cases hrow.symm.trans hr'
    exact h.retention r hr
  · intro r' hr' hret
    cases hrow.symm.trans hr'
    rw [show r.retentionDeleteAfter.isSome = true from hret] at hopen
    cases hopen.2

theorem Lifecycle.complete (now : Time) : Lifecycle (t.complete now) := by
  have hrow : ∀ r, (t.complete now).row = some r →
      r = ⟨.completed, some now, some (now + days Retention.retentionDays)⟩ := by
    intro r hr
    obtain ⟨_, -, rfl⟩ := Option.map_eq_some_iff.1 hr
    rfl
  constructor
  · intro r hr
    simp [hrow r hr]
  · intro r hr
    simp [hrow r hr, Track.complete]
  · intro r hr _
    rw [hrow r hr]

theorem Lifecycle.delete (h : Lifecycle t) : Lifecycle t.delete := by
  have hrow : ∀ r, t.delete.row = some r → ∃ r₀, t.row = some r₀ ∧ r = { r₀ with retentionDeleteAfter := none } := by
    intro r hr
    obtain ⟨r₀, hr₀, rfl⟩ := Option.map_eq_some_iff.1 hr
    exact ⟨r₀, hr₀, rfl⟩
  constructor
  · intro r hr
    obtain ⟨r₀, hr₀, rfl⟩ := hrow r hr
    exact h.completed r₀ hr₀
  · intro r hr
    obtain ⟨r₀, hr₀, rfl⟩ := hrow r hr
    simp [Track.delete]
  · intro r hr hret
    obtain ⟨r₀, hr₀, rfl⟩ := hrow r hr
    cases hret

theorem Lifecycle.moves (h : Lifecycle t) (hm : op.Moves t t') : Lifecycle t' := by
  cases op with
  | launch => exact hm.2 ▸ h.move hm.1 (by decide) (by decide)
  | pause => exact hm.2 ▸ h.move hm.1 (by decide) (by decide)
  | archive =>
    obtain ⟨⟨status, hs, hne, -⟩, rfl⟩ := hm
    exact h.move hs hne (by decide)
  | detectCompleted c => exact hm.2 ▸ .complete _
  | deleteData => exact hm.2 ▸ h.delete
  | purgeExpired => exact hm.2 ▸ h.delete

/-- The status stays or follows an edge. -/
theorem edge_of_moves (hm : op.Moves t t') :
    t'.status = t.status ∨ ∃ a b, t.status = some a ∧ t'.status = some b ∧ Edge a b := by
  cases op with
  | launch =>
    obtain ⟨hs, rfl⟩ := hm
    exact Or.inr ⟨_, _, hs, by simp [hs], .launch⟩
  | pause =>
    obtain ⟨hs, rfl⟩ := hm
    exact Or.inr ⟨_, _, hs, by simp [hs], .pause⟩
  | archive =>
    obtain ⟨⟨status, hs, hne⟩, rfl⟩ := hm
    exact Or.inr ⟨_, _, hs, by simp [hs], .archive hne⟩
  | detectCompleted c =>
    obtain ⟨hs, rfl⟩ := hm
    exact Or.inr ⟨_, _, hs, by simp [hs], .complete⟩
  | deleteData =>
    obtain ⟨-, rfl⟩ := hm
    exact Or.inl status_delete
  | purgeExpired =>
    obtain ⟨-, rfl⟩ := hm
    exact Or.inl status_delete

end Tracks

/-! ## Under the row lock -/

/-- The state in which the transaction last loaded a campaign. -/
def lastLoaded (log : Log Db) : Option Db := (log.find? fun e => e.1 = "campaign").map Prod.snd

/-- A transaction gets the row lock of a campaign only while the status is the one it last loaded. -/
def unchanged (s : System Db LockKey Err Unit Op) (i : ℕ) : Event LockKey Err Unit Op → Bool
  | .granted (.campaign id) => (s.threads i).all fun t => (lastLoaded t.log).all fun v =>
      s.committed.statusOf id = v.statusOf id
  | _ => true

/-- The row lock of a campaign guards its row and its retention events. -/
def locks : Discipline Db LockKey where
  grows _ _ := True
  same k x x' := ∀ id, k = .campaign id → track x' id = track x id
  grows_refl _ := trivial
  grows_trans _ _ _ _ _ := trivial
  same_refl _ _ _ _ := rfl
  same_trans _ _ _ _ h h' id hk := (h' id hk).trans (h id hk)

def protocol : Protocol Db LockKey Err Unit Op where
  body := body
  inv _ := True
  rely l := locks.Frame l.held
  guar l x x' := locks.Within l.held x x' ∧ ∀ id, track x' id = track x id ∨ l.op.Moves (track x id) (track x' id)
  granted l k x := ∀ id, k = .campaign id → ∀ v, lastLoaded l.log = some v → x.statusOf id = v.statusOf id

instance : protocol.Respects locks fun _ => True := ⟨fun _ _ _ h => h, fun _ _ => trivial⟩

/-- The writes of the transaction leave the campaign where it is. -/
def Untouched (p : Db → Db) (id : Uuid) : Prop := ∀ x, track (p x) id = track x id

/-- The transaction has locked the campaign and moves it. -/
structure Moved (l : Stand Db LockKey Op) (p : Db → Db) (s : Db) (id : Uuid) : Prop where
  held : l.held (.campaign id)
  change : ∃ g : Track → Track, ∀ x, track (p x) id = g (track x id)
  moves : l.op.Moves (track s id) (track (p s) id)

/-- What a transaction has done so far. -/
def Sofar (l : Stand Db LockKey Op) (p : Db → Db) (s : Db) : Prop := ∀ id, Untouched p id ∨ Moved l p s id

section Bodies

variable {α : Type} {l l' : Stand Db LockKey Op} {p : Db → Db} {s s' : Db}

theorem sofar_id : Sofar l (fun x => x) s := fun _ => Or.inl fun _ => rfl

theorem Sofar.later (h : Sofar l p s) (hl : l.Onward l') (hf : locks.Frame l.held s s') : Sofar l' p s' := by
  intro id
  refine (h id).imp_right fun hm => ?_
  have hsame : track s' id = track s id := hf.same _ hm.held id rfl
  obtain ⟨g, hg⟩ := hm.change
  refine ⟨hl.held _ hm.held, ⟨g, hg⟩, ?_⟩
  rw [hl.op, hg, hsame, ← hg]
  exact hm.moves

/-- The rows of the campaigns and their retention events stay as they are. -/
def tracked (x : Db) : List Campaign × List AuditEvent :=
  (x.campaigns, x.audit.filter fun e => e.action = "campaign.completed" || e.action = "campaign.delete_data")

theorem track_congr {x x' : Db} (h : tracked x' = tracked x) (id : Uuid) : track x' id = track x id := by
  have hevents (x : Db) : retentionEvents x id = ((tracked x).2.filter fun e =>
      e.targetType = some "campaign" && e.targetId = some id).map AuditEvent.action := by
    unfold retentionEvents tracked
    rw [List.filter_filter]
  unfold track
  rw [hevents, hevents, h, show x'.campaigns = x.campaigns from congrArg Prod.fst h]

/-- A statement that writes neither is of no account. -/
theorem Sofar.comp (h : Sofar l p s) {f : Db → Db} (hf : ∀ x, tracked (f x) = tracked x) : Sofar l (f ∘ p) s := by
  intro id
  have hsame (x : Db) : track ((f ∘ p) x) id = track (p x) id := track_congr (hf _) id
  refine (h id).imp (fun hu x => (hsame x).trans (hu x)) fun hm => ?_
  obtain ⟨g, hg⟩ := hm.change
  exact ⟨hm.held, ⟨g, fun x => (hsame x).trans (hg x)⟩, hsame s ▸ hm.moves⟩

/-- At the grant of the row lock the status is the one that was loaded. -/
theorem Sofar.status (h : Sofar l p s) {id : Uuid} {v : Db} {status : CampaignStatus}
    (hload : lastLoaded l.log = some v) (hst : v.statusOf id = some status)
    (hkeep : l.held (.campaign id) → track (p s) id = track v id)
    (hg : protocol.granted l (.campaign id) s) : (track (p s) id).status = some status := by
  rcases h id with hu | hm
  · rw [hu s, status_track, hg id rfl v hload, hst]
  · rw [hkeep hm.held, status_track, hst]

/-- A write to a campaign whose row lock was just granted. -/
theorem Sofar.write (h : Sofar l p s) {id : Uuid} {status : CampaignStatus} {g : Track → Track} {w : Db → Db}
    (hst : (track (p s) id).status = some status) (hw : ∀ x, track (w x) id = g (track x id))
    (hother : ∀ id', id' ≠ id → ∀ x, track (w x) id' = track x id')
    (hmove : ∀ t₀ t, t.status = some status → t = t₀ ∨ l.op.Moves t₀ t → l.op.Moves t₀ (g t)) :
    Sofar (l.take (.campaign id)) (w ∘ p) s := by
  intro id'
  by_cases hid : id' = id
  · subst hid
    right
    rcases h id' with hu | hm
    · refine ⟨Or.inl rfl, ⟨g, fun x => by rw [Function.comp_apply, hw, hu]⟩, ?_⟩
      rw [Function.comp_apply, hw]
      exact hmove _ _ hst (Or.inl (hu s))
    · obtain ⟨g', hg'⟩ := hm.change
      refine ⟨Or.inl rfl, ⟨g ∘ g', fun x => by rw [Function.comp_apply, hw, hg']; rfl⟩, ?_⟩
      rw [Function.comp_apply, hw]
      exact hmove _ _ hst (Or.inr hm.moves)
  · have hsame (x : Db) : track ((w ∘ p) x) id' = track (p x) id' := hother id' hid _
    refine (h id').imp (fun hu x => (hsame x).trans (hu x)) fun hm => ?_
    obtain ⟨g', hg'⟩ := hm.change
    exact ⟨Or.inr hm.held, ⟨g', fun x => (hsame x).trans (hg' x)⟩, hsame s ▸ hm.moves⟩

/-! ### The writes -/

/-- The event is a completion of the campaign or a deletion of its data. -/
def counts (e : AuditEvent) (id : Uuid) : Bool :=
  e.targetType = some "campaign" && e.targetId = some id &&
    (e.action = "campaign.completed" || e.action = "campaign.delete_data")

/-- A write to the row of a campaign, and the audit event about it. -/
def written (id : Uuid) (f : Campaign → Campaign) (e : AuditEvent) (x : Db) : Db :=
  Db.log e { x with campaigns := Table.modify x.campaigns id f }

section Written

variable {id : Uuid} {f : Campaign → Campaign} {g : Columns → Columns} {e : AuditEvent}

theorem retentionEvents_written (x : Db) (id' : Uuid) : retentionEvents (written id f e x) id' =
    retentionEvents x id' ++ if counts e id' = true then [e.action] else [] := by
  change ((x.audit ++ [e]).filter fun e => counts e id').map AuditEvent.action = _
  rw [List.filter_append, List.map_append]
  refine congrArg (_ ++ ·) ?_
  cases hc : counts e id' with
  | true => simp [hc]
  | false => simp [hc]

theorem row_written (hf : ∀ k, (f k).id = k.id) (id : Uuid) (x : Db) (id' : Uuid) : (track (written id f e x) id').row =
    if id' = id then (Table.find x.campaigns id').map fun k => columnsOf (f k) else (track x id').row := by
  change (Table.find (Table.modify x.campaigns id f) id').map columnsOf = _
  rw [Table.find_modify fun r hr => (hf r).trans hr]
  split_ifs
  · rw [Option.map_map]
    rfl
  · rfl

theorem track_other (hf : ∀ k, (f k).id = k.id) (he : e.targetId = some id) {id' : Uuid} (hne : id' ≠ id) (x : Db) :
    track (written id f e x) id' = track x id' := by
  have hc : counts e id' = false := by simp [counts, he, Ne.symm hne]
  have hrow := row_written (e := e) hf id x id'
  rw [if_neg hne] at hrow
  refine congrArg₂ Track.mk hrow ?_
  rw [retentionEvents_written, hc]
  simp

/-- A change of status, with an event of another kind. -/
theorem track_move {status : CampaignStatus} (hf : ∀ k, (f k).id = k.id)
    (hg : ∀ k, columnsOf (f k) = { columnsOf k with status := status })
    (he : e.action ≠ "campaign.completed" ∧ e.action ≠ "campaign.delete_data") (x : Db) :
    track (written id f e x) id = (track x id).move status := by
  have hc : counts e id = false := by simp [counts, he]
  have hrow := row_written (e := e) hf id x id
  rw [if_pos rfl] at hrow
  refine congrArg₂ Track.mk (hrow.trans ?_) ?_
  · simp only [track, Option.map_map, Function.comp_def, hg]
  · rw [retentionEvents_written, hc]
    simp [track]

/-- A completion or a deletion. -/
theorem track_counted (hf : ∀ k, (f k).id = k.id) (hg : ∀ k, columnsOf (f k) = g (columnsOf k))
    (hc : counts e id = true) (x : Db) :
    track (written id f e x) id = ⟨(track x id).row.map g, some e.action⟩ := by
  have hrow := row_written (e := e) hf id x id
  rw [if_pos rfl] at hrow
  refine congrArg₂ Track.mk (hrow.trans ?_) ?_
  · simp only [track, Option.map_map, Function.comp_def, hg]
  · rw [retentionEvents_written, hc]
    simp

end Written

/-! ### The requests -/

/-- A write to the row of the campaign that was loaded last; what it does is told by the audit
event that follows it. -/
theorem wp_setCampaign {id : Uuid} {f : Campaign → Campaign} {v : Db} {status : CampaignStatus}
    {Q : Unit → Protocol.Assertion Db LockKey Op} (h : Sofar l p s) (hload : lastLoaded l.log = some v)
    (hst : v.statusOf id = some status)
    (hkeep : ∀ s', locks.Frame l.held s s' → l.held (.campaign id) → track (p s') id = track v id)
    (hf : ∀ k, (f k).id = k.id)
    (hQ : ∀ s', (∀ (e : AuditEvent) (g : Track → Track), e.targetId = some id →
        (∀ x, track (written id f e x) id = g (track x id)) →
        (∀ t₀ t, t.status = some status → t = t₀ ∨ l.op.Moves t₀ t → l.op.Moves t₀ (g t)) →
        Sofar (l.take (.campaign id)) (written id f e ∘ p) s') →
      Q () (l.take (.campaign id)) ((fun db => { db with campaigns := Table.modify db.campaigns id f }) ∘ p) s') :
    protocol.wp (Campaigns.setCampaign id f) Q l p s := by
  unfold Campaigns.setCampaign
  rw [Protocol.wp_bind, Protocol.wp_acquire]
  intro s' hs' hgranted
  have h' := h.later (.refl l) hs'.1
  exact hQ s' fun e g he hg hmove => h'.write (h'.status hload hst (hkeep s' hs'.1) hgranted) hg
    (fun id' hne x => track_other hf he hne x) hmove

/-- What has to hold when a request commits. -/
abbrev commits (_ : α) : Protocol.Assertion Db LockKey Op := fun l p s => Sofar l p s

/-- A request that loads its campaign, checks the status and writes the next one. -/
theorem wp_move {id : Uuid} {f : Campaign → Campaign} {e : AuditEvent} {v : Db} {status status' : CampaignStatus}
    (hload : lastLoaded l.log = some v) (hst : v.statusOf id = some status) (hheld : ¬l.held (.campaign id))
    (hf : ∀ k, (f k).id = k.id) (hg : ∀ k, columnsOf (f k) = { columnsOf k with status := status' })
    (he : e.targetId = some id ∧ e.action ≠ "campaign.completed" ∧ e.action ≠ "campaign.delete_data")
    (hmove : ∀ t, t.status = some status → l.op.Moves t (t.move status'))
    (hnot : ∀ t₀ t, t.status = some status → ¬l.op.Moves t₀ t) :
    protocol.wp (do Campaigns.setCampaign id f; recordAudit e) commits l (fun x => x) s := by
  rw [Protocol.wp_bind]
  refine wp_setCampaign sofar_id hload hst (fun _ _ hl => absurd hl hheld) hf fun s' h => ?_
  refine h e (fun t => t.move status') he.1 (track_move hf hg he.2) ?_
  rintro t₀ t ht (rfl | hm)
  · exact hmove t ht
  · exact absurd hm (hnot t₀ t ht)

theorem launch_effect (c : Call) (user id : Uuid) :
    protocol.wp (Service.launchCampaign c user id) commits { op := .launch c user id } (fun x => x) s := by
  unfold Service.launchCampaign Service.loadCampaign Service.requireCampaignCapability Campaigns.launchCampaign
    requireEnabled getRow
  simp only [Protocol.wp_bind, Protocol.wp_view, Protocol.wp_raiseIf, Protocol.wp_pure, Protocol.wp_expect]
  intro s₁ _ k hk s₂ _ _ s₃ _ _ hdraft _ s₄ _ _
  obtain rfl : k.id = id := Table.key_of_find hk
  have hst : s₁.statusOf k.id = some .draft := by
    rw [Db.statusOf, hk, Option.map_some, not_not.1 hdraft]
  have hmove (t : Track) (ht : t.status = some .draft) : Op.Moves (.launch c user k.id) t (t.move .active) := ⟨ht, rfl⟩
  have hnot (t₀ t : Track) (ht : t.status = some .draft) : ¬Op.Moves (.launch c user k.id) t₀ t := by
    rintro ⟨hs, rfl⟩
    simp [hs] at ht
  have hquiet : "campaign.launch" ≠ "campaign.completed" ∧ "campaign.launch" ≠ "campaign.delete_data" := by decide
  split_ifs
  · simp only [Protocol.wp_bind, Protocol.wp_view, Protocol.wp_raiseIf]
    intro s₅ _ _
    exact wp_move rfl hst (fun h => h) (fun _ => rfl) (fun _ => rfl) ⟨rfl, hquiet⟩ hmove hnot
  · exact wp_move rfl hst (fun h => h) (fun _ => rfl) (fun _ => rfl) ⟨rfl, hquiet⟩ hmove hnot

theorem pause_effect (c : Call) (user id : Uuid) :
    protocol.wp (Service.pauseCampaign c user id) commits { op := .pause c user id } (fun x => x) s := by
  unfold Service.pauseCampaign Service.loadCampaign Service.requireCampaignCapability Campaigns.pauseCampaign getRow
  simp only [Protocol.wp_bind, Protocol.wp_view, Protocol.wp_raiseIf, Protocol.wp_pure, Protocol.wp_expect]
  intro s₁ _ k hk s₂ _ _ hactive
  obtain rfl : k.id = id := Table.key_of_find hk
  have hst : s₁.statusOf k.id = some .active := by
    rw [Db.statusOf, hk, Option.map_some, not_not.1 hactive]
  refine wp_move rfl hst (fun h => h) (fun _ => rfl) (fun _ => rfl) ⟨rfl, by simp [Campaigns.campaignEvent]⟩
    (fun t ht => ⟨ht, rfl⟩) ?_
  rintro t₀ t ht ⟨hs, rfl⟩
  simp [hs] at ht

theorem archive_effect (c : Call) (user id : Uuid) :
    protocol.wp (Service.archiveCampaign c user id) commits { op := .archive c user id } (fun x => x) s := by
  unfold Service.archiveCampaign Service.loadCampaign Service.requireCampaignCapability Campaigns.archiveCampaign getRow
  simp only [Protocol.wp_bind, Protocol.wp_view, Protocol.wp_raiseIf, Protocol.wp_pure, Protocol.wp_expect]
  intro s₁ _ k hk s₂ _ _ hopen
  obtain rfl : k.id = id := Table.key_of_find hk
  have hst : s₁.statusOf k.id = some k.status := by rw [Db.statusOf, hk, Option.map_some]
  refine wp_move rfl hst (fun h => h) (fun _ => rfl) (fun _ => rfl) ⟨rfl, by simp [Campaigns.campaignEvent]⟩
    (fun t ht => ⟨⟨k.status, ht, not_or.1 hopen⟩, rfl⟩) ?_
  rintro t₀ t ht ⟨⟨status, hs, -⟩, rfl⟩
  simp only [status_move, hs, Option.map_some, Option.some.injEq] at ht
  exact hopen (Or.inr ht.symm)

/-- The data of a completed campaign is deleted, as the request or the task loaded it. -/
theorem wp_delete {k : Campaign} {actor : Option Uuid} {reason : Option String} {v : Db} (h : Sofar l p s)
    (hload : lastLoaded l.log = some v) (hk : Table.find v.campaigns k.id = some k)
    (hkeep : ∀ s', locks.Frame l.held s s' → l.held (.campaign k.id) → track (p s') k.id = track v k.id)
    (hmove : ∀ t t', l.op.Moves t t' ↔ t.status = some .completed ∧ t' = t.delete)
    {Q : ℕ × ℕ → Protocol.Assertion Db LockKey Op} (hQ : ∀ a l' p' s', l.Onward l' → Sofar l' p' s' → Q a l' p' s') :
    protocol.wp (Retention.deleteCompletedCampaignData k actor reason) Q l p s := by
  unfold Retention.deleteCompletedCampaignData
  simp only [Protocol.wp_bind, Protocol.wp_view, Protocol.wp_raiseIf, Protocol.wp_update]
  intro hcompleted s₁ hs₁ s₂ hs₂ _ _ _ s₃ hs₃
  have hf : locks.Frame l.held s s₃ := hs₁.1.trans (hs₂.1.trans hs₃.1)
  have hl : l.Onward (((l.saw "contact ids" (p s₁)).saw "foreign keys" (p s₂)).saw "orphaned contacts"
      (Retention.deleteCampaignRows k.id (p s₃))) :=
    ((l.onward_saw ..).trans (Stand.onward_saw ..)).trans (Stand.onward_saw ..)
  have hst : v.statusOf k.id = some .completed := by
    rw [Db.statusOf, hk, Option.map_some, not_not.1 hcompleted]
  have hrows := ((h.later hl hf).comp (f := Retention.deleteCampaignRows k.id) fun _ => rfl)
  refine wp_setCampaign (hrows.comp fun _ => rfl) hload hst (fun s' hs' hheld => ?_) (fun _ => rfl) fun s' h' => ?_
  · exact hkeep s' (hf.trans hs') hheld
  unfold recordAudit
  rw [Protocol.wp_bind, Protocol.wp_update, Protocol.wp_pure]
  refine hQ _ _ _ _ (hl.trans (Stand.onward_take ..)) (h' _ Track.delete rfl (track_counted (fun _ => rfl)
    (g := fun r => { r with retentionDeleteAfter := none }) (fun _ => rfl) (by simp [counts])) ?_)
  rintro t₀ t ht (rfl | hm)
  · exact (hmove _ _).2 ⟨ht, rfl⟩
  · obtain ⟨hs, rfl⟩ := (hmove _ _).1 hm
    exact (hmove _ _).2 ⟨hs, delete_delete⟩

theorem deleteData_effect (c : Call) (user id : Uuid) :
    protocol.wp (Service.deleteCampaignData c user id) commits { op := .deleteData c user id } (fun x => x) s := by
  unfold Service.deleteCampaignData getRow
  simp only [Protocol.wp_bind, Protocol.wp_view, Protocol.wp_raiseIf, Protocol.wp_pure, Protocol.wp_expect]
  intro s₁ _ k hk s₂ _ _
  obtain rfl : k.id = id := Table.key_of_find hk
  exact wp_delete sofar_id rfl hk (fun _ _ hl => absurd hl fun h => h) (fun _ _ => Iff.rfl) fun _ _ _ _ _ h => h

/-- One campaign of the purge. -/
theorem wp_purgeOne {c : Call} (hop : l.op = .purgeExpired c) (h : Sofar l p s) (purged : ℕ) (id : Uuid) :
    protocol.wp (Retention.purgeOne purged id) (fun _ l' p' s' => l'.op = .purgeExpired c ∧ Sofar l' p' s') l p s := by
  unfold Retention.purgeOne getRow
  simp only [Protocol.wp_bind, Protocol.wp_view, Protocol.wp_pure]
  intro s₁ hs₁
  have h₁ := h.later (l.onward_saw "campaign" (p s₁)) hs₁.1
  cases hk : Table.find (p s₁).campaigns id with
  | none => exact ⟨hop, h₁⟩
  | some k =>
    obtain rfl : k.id = id := Table.key_of_find hk
    dsimp only
    rw [Protocol.wp_bind]
    refine wp_delete h₁ rfl hk (fun s' hs' hheld => ?_) (fun t t' => ?_) fun _ l' _ _ hl h' => ⟨hl.op.trans hop, h'⟩
    · rcases h₁ k.id with hu | hm
      · rw [hu, hu]
        exact hs'.same _ hheld k.id rfl
      · obtain ⟨g, hg⟩ := hm.change
        rw [hg, hg, hs'.same _ hheld k.id rfl]
    · rw [show (l.saw "campaign" (p s₁)).op = _ from hop]
      exact Iff.rfl

theorem purge_effect (c : Call) :
    protocol.wp (Retention.purgeExpiredCampaignData c) commits { op := .purgeExpired c } (fun x => x) s := by
  unfold Retention.purgeExpiredCampaignData
  rw [Protocol.wp_bind, Protocol.wp_view]
  intro s₁ _
  refine Protocol.wp_mono _ (fun _ _ _ _ h => h.2) _ _ _ (Protocol.wp_foldlM
    (M := fun _ _ l p s => l.op = .purgeExpired c ∧ Sofar l p s) (fun _ id purged _ _ _ h => ?_) _ [] _ _ _ _
    ⟨rfl, sofar_id⟩)
  exact wp_purgeOne h.1 h.2 purged id

/-- One campaign of the search for completed campaigns. -/
theorem wp_detectOne {c : Call} (hop : l.op = .detectCompleted c) (h : Sofar l p s) (marked : ℕ) (id : Uuid) :
    protocol.wp (Retention.detectOne (c.utcnow 0) marked id)
      (fun _ l' p' s' => l'.op = .detectCompleted c ∧ Sofar l' p' s') l p s := by
  unfold Retention.detectOne getRow
  simp only [Protocol.wp_bind, Protocol.wp_view, Protocol.wp_pure]
  intro s₁ hs₁
  have h₁ := h.later (l.onward_saw "campaign" (p s₁)) hs₁.1
  cases hk : Table.find (p s₁).campaigns id with
  | none => exact ⟨hop, h₁⟩
  | some k =>
    obtain rfl : k.id = id := Table.key_of_find hk
    dsimp only
    rw [Protocol.wp_bind, Protocol.wp_view]
    intro s₂ hs₂
    have h₂ := h₁.later (Stand.onward_saw _ "campaign_is_complete" (p s₂)) hs₂.1
    split_ifs with hcomplete
    · have hst : (p s₁).statusOf k.id = some .active := by
        simp only [Retention.campaignIsComplete, Bool.and_eq_true, decide_eq_true_eq] at hcomplete
        rw [Db.statusOf, hk, Option.map_some, hcomplete.1.1]
      unfold Retention.markCampaignCompleted
      dsimp only
      rw [Protocol.wp_bind, Protocol.wp_bind]
      refine wp_setCampaign h₂ rfl hst (fun s' hs' hheld => ?_) (fun _ => rfl) fun s' h' => ?_
      · have hf : locks.Frame l.held s₁ s' := hs₂.1.trans hs'
        rcases h₁ k.id with hu | hm
        · rw [hu, hu]
          exact hf.same _ hheld k.id rfl
        · obtain ⟨g, hg⟩ := hm.change
          rw [hg, hg, hf.same _ hheld k.id rfl]
      · have hmoved := h' { action := "campaign.completed", targetType := "campaign", targetId := k.id
                            eventMetadata := [("retention_delete_after", .time (c.utcnow 0 + days Retention.retentionDays)),
                              ("retention_days", .num Retention.retentionDays)] }
          (fun t => t.complete (c.utcnow 0)) rfl (track_counted (fun _ => rfl) (fun _ => rfl) (by simp [counts])) ?_
        · unfold recordAudit
          rw [Protocol.wp_bind, Protocol.wp_update]
          cases k.createdBy with
          | none => exact ⟨hop, hmoved⟩
          | some owner =>
            unfold notify
            rw [Protocol.wp_bind, Protocol.wp_raiseIf]
            exact fun _ => ⟨hop, hmoved.comp fun _ => rfl⟩
        · rintro t₀ t ht hm
          simp only [show ((l.saw "campaign" (p s₁)).saw "campaign_is_complete" (p s₂)).op = _ from hop] at hm ⊢
          rcases hm with rfl | ⟨hs, rfl⟩
          · exact ⟨ht, rfl⟩
          · simp [hs] at ht
    · exact ⟨hop, h₂⟩

theorem detect_effect (c : Call) :
    protocol.wp (Retention.detectCompletedCampaigns c) commits { op := .detectCompleted c } (fun x => x) s := by
  unfold Retention.detectCompletedCampaigns
  dsimp only
  rw [Protocol.wp_bind, Protocol.wp_view]
  intro s₁ _
  refine Protocol.wp_mono _ (fun _ _ _ _ h => h.2) _ _ _ (Protocol.wp_foldlM
    (M := fun _ _ l p s => l.op = .detectCompleted c ∧ Sofar l p s) (fun _ id marked _ _ _ h => ?_) _ [] _ _ _ _
    ⟨rfl, sofar_id⟩)
  exact wp_detectOne h.1 h.2 marked id

end Bodies

theorem body_effect (op : Op) (s : Db) : protocol.wp (body op) commits { op := op } (fun x => x) s := by
  cases op with
  | launch c user id => exact launch_effect c user id
  | pause c user id => exact pause_effect c user id
  | archive c user id => exact archive_effect c user id
  | deleteData c user id => exact deleteData_effect c user id
  | detectCompleted c => exact Queue.wp_map.2 (detect_effect c)
  | purgeExpired c => exact Queue.wp_map.2 (purge_effect c)

theorem Sofar.commits {l : Stand Db LockKey Op} {p : Db → Db} {s : Db} (h : Sofar l p s) : locks.Within l.held s (p s) ∧
    ∀ id, track (p s) id = track s id ∨ l.op.Moves (track s id) (track (p s) id) := by
  refine ⟨⟨trivial, fun k hk id hid => ?_⟩, fun id => (h id).imp (fun hu => hu s) Moved.moves⟩
  rcases h id with hu | hm
  · exact hu s
  · exact absurd (hid ▸ hm.held) hk

theorem protocol_valid : protocol.Valid fun s i e => unchanged s i e = true where
  rely_refl _ _ := .refl
  rely_trans _ _ _ _ h h' := h.trans h'
  start op s _ := by
    refine Protocol.wp_mono _ (fun _ l p s h x hx => ?_) _ _ _ (body_effect op s)
    exact ⟨(Sofar.later h (.refl l) hx.1).commits, trivial, trivial⟩
  granted s i t k ht hok id hid v hv := by
    subst hid
    simpa [unchanged, ht, hv] using hok
  refused _ _ _ _ _ _ _ := trivial
  compat s _ _ _ _ _ hij _ _ _ _ hg := hg.1.frame fun _ hj hi => System.held_disjoint s hij hi hj

/-! ## Runs -/

variable {v : Db} {s s' : System Db LockKey Err Unit Op}

/-- What one step of a run does to a campaign. -/
theorem step_moves (hr : System.Reaches body (fun s i e => unchanged s i e = true) { committed := v } s) {i : ℕ}
    {e : Event LockKey Err Unit Op} (hs : System.Step body s i e s') (id : Uuid) :
    track s'.committed id = track s.committed id ∨ ∃ op : Op, op.Moves (track s.committed id) (track s'.committed id) := by
  rcases hs.committed_eq with ⟨op, a, rfl⟩ | he
  · obtain ⟨⟨-, hmoves⟩, -⟩ := Protocol.commit_of_reaches protocol_valid trivial hr hs
    exact (hmoves id).imp_right fun h => ⟨op, h⟩
  · rw [he]
    exact Or.inl rfl

theorem lifecycle_of_reaches (hv : ∀ id, Lifecycle (track v id))
    (hr : System.Reaches body (fun s i e => unchanged s i e = true) { committed := v } s) (id : Uuid) :
    Lifecycle (track s.committed id) := by
  induction hr with
  | refl => exact hv id
  | tail hr hs ih =>
    obtain ⟨i, e, -, hstep⟩ := hs
    rcases step_moves hr hstep id with he | ⟨op, hm⟩
    · rw [he]
      exact ih
    · exact ih.moves hm

/-- A step of a run leaves the status or follows an edge. -/
theorem status_step (hr : System.Reaches body (fun s i e => unchanged s i e = true) { committed := v } s) {i : ℕ}
    {e : Event LockKey Err Unit Op} (hs : System.Step body s i e s') (id : Uuid) :
    s'.committed.statusOf id = s.committed.statusOf id ∨
      ∃ a b, s.committed.statusOf id = some a ∧ s'.committed.statusOf id = some b ∧ Edge a b := by
  simp only [← status_track]
  rcases step_moves hr hs id with he | ⟨op, hm⟩
  · exact Or.inl (congrArg Track.status he)
  · exact edge_of_moves hm

/-- No edge leaves `completed` or `archived`. -/
theorem edge_final {a b : CampaignStatus} (h : Edge a b) : a ≠ .completed ∧ a ≠ .archived := by
  cases h with
  | launch | pause | complete => exact ⟨by decide, by decide⟩
  | archive h => exact h

theorem final_kept {status : CampaignStatus} (hfinal : status = .completed ∨ status = .archived)
    (hr : System.Reaches body (fun s i e => unchanged s i e = true) { committed := v } s) (id : Uuid)
    (hst : s.committed.statusOf id = some status)
    (hr' : System.Reaches body (fun s i e => unchanged s i e = true) s s') : s'.committed.statusOf id = some status := by
  induction hr' with
  | refl => exact hst
  | tail hmid hs ih =>
    obtain ⟨i, e, -, hstep⟩ := hs
    rcases status_step (hr.trans hmid) hstep id with he | ⟨a, b, ha, -, hedge⟩
    · exact he.trans ih
    · obtain rfl : status = a := Option.some.inj (ih.symm.trans ha)
      exact absurd hfinal (not_or.2 (edge_final hedge))

/-- In a run where every transaction gets the row lock of a campaign while the status is the one it has
loaded, the committed status only moves along the lifecycle, `completed` and `archived` are never left,
and the columns of the completion and of the retention agree with the status. -/
theorem lifecycle_kept (hv : ∀ id, Lifecycle (track v id))
    (hr : System.Reaches body (fun s i e => unchanged s i e = true) { committed := v } s) (id : Uuid) :
    Lifecycle (track s.committed id) ∧
      (∀ i e s', System.Step body s i e s' → s'.committed.statusOf id = s.committed.statusOf id ∨
        ∃ a b, s.committed.statusOf id = some a ∧ s'.committed.statusOf id = some b ∧ Edge a b) ∧
      ∀ status, status = .completed ∨ status = .archived → s.committed.statusOf id = some status →
        ∀ s', System.Reaches body (fun s i e => unchanged s i e = true) s s' → s'.committed.statusOf id = some status :=
  ⟨lifecycle_of_reaches hv hr id, fun _ _ _ hs => status_step hr hs id,
    fun _ hfinal hst _ hr' => final_kept hfinal hr id hst hr'⟩

/-! ## A campaign that is paused while it completes -/

namespace Demo

/-- Campaign 1 is active and its only contact is done; manager 7 may pause it. -/
def db : Db where
  campaigns := [{ id := 1, name := "spring", status := .active }]
  campaignContacts := [{ id := 21, campaignId := 1, contactId := 11, status := .completed, completedAt := some 0 }]
  roleAssignments := [{
    id := 63, userId := 7, roleCode := .manager, scopeType := .organization, effectiveFrom := 0 }]

def pause : Op := .pause (Queue.Demo.call 1) 7 1

def detect : Op := .detectCompleted (Queue.Demo.call 2)

def turns (i : ℕ) (op : Op) (n : ℕ) : List (System.Turn Op) := .start i op :: List.replicate n (.next i)

def run (schedule : List (System.Turn Op)) : System Db LockKey Err Unit Op :=
  System.play body { committed := db } schedule

/-- The request loads the campaign, and the task completes it. -/
def overtaken : List (System.Turn Op) := turns 1 pause 1 ++ turns 2 detect 12

/-- The task alone. -/
def completing : List (System.Turn Op) := turns 2 detect 12

theorem lifecycle_db (id : Uuid) : Lifecycle (track db id) := by
  have hrow : ∀ r, (track db id).row = some r → r = ⟨.active, none, none⟩ := by
    intro r hr
    obtain ⟨k, hk, rfl⟩ := Option.map_eq_some_iff.1 hr
    obtain rfl := List.mem_singleton.1 (Table.mem_of_find hk)
    rfl
  refine ⟨fun r hr => ?_, fun r hr => ?_, fun r hr h => ?_⟩
  · simp [hrow r hr]
  · simp [hrow r hr, track, retentionEvents, db]
  · rw [hrow r hr] at h
    cases h

end Demo

theorem lifecycle_kept_completing :
    Lifecycle (track (Demo.run Demo.completing).committed 1) ∧
      (Demo.run Demo.completing).committed.statusOf 1 = some .completed ∧
      ∀ s', System.Reaches body (fun s i e => unchanged s i e = true) (Demo.run Demo.completing) s' →
        s'.committed.statusOf 1 = some .completed := by
  have hend : (Demo.run Demo.completing).committed.statusOf 1 = some .completed := by decide +kernel
  obtain ⟨hlife, -, hfinal⟩ := lifecycle_kept Demo.lifecycle_db (System.reaches_of_permits Demo.completing _
    (by decide +kernel : System.permits body unchanged { committed := Demo.db } _ = true)) 1
  exact ⟨hlife, hend, hfinal _ (Or.inl rfl) hend⟩

/-- The request that loaded the active campaign pauses the completed one, and its retention goes on. -/
theorem paused_after_completion :
    (∀ id, Lifecycle (track Demo.db id)) ∧
      ∃ s s', System.Reaches body System.Any { committed := Demo.db } s ∧ System.Reaches body System.Any s s' ∧
        s.committed.statusOf 1 = some .completed ∧ s'.committed.statusOf 1 = some .paused ∧
        ∃ r, (track s'.committed 1).row = some r ∧ r.completedAt.isSome = true ∧
          r.retentionDeleteAfter.isSome = true := by
  have hrow : ((track (System.play body (Demo.run Demo.overtaken) (List.replicate 7 (.next 1))).committed 1).row.any
      fun r => r.completedAt.isSome && r.retentionDeleteAfter.isSome) = true := by decide +kernel
  obtain ⟨r, hr, he⟩ := (Option.any_eq_true ..).1 hrow
  rw [Bool.and_eq_true] at he
  exact ⟨Demo.lifecycle_db, _, _, System.reaches_play .., System.reaches_play body (List.replicate 7 (.next 1)) _,
    by decide +kernel, by decide +kernel, r, hr, he⟩

end OmniDB.LifecycleRace
