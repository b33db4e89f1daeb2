import OmniDB.Proofs.Bookkeeping
import OmniDB.Proofs.Service

/-! What is left of a campaign that has ended. A completed campaign has no open work item
and no contact that is not done, and a campaign whose data was deleted has no contact at
all, in every run that imports nothing into a completed campaign. -/

namespace OmniDB

open Tx

def Db.statusOf (x : Db) (campaign : Uuid) : Option CampaignStatus :=
  (Table.find x.campaigns campaign).map Campaign.status

/-- The attempt, like its work item, belongs to a contact of some campaign. -/
def Db.attemptContact (x : Db) (a : CallAttempt) : Option CampaignContact :=
  Table.find x.campaignContacts a.campaignContactId

namespace Service

open Queue (DoneClosed OneItem ItemsClosed)

variable {x y x' : Db} {campaign : Uuid}

/-- What holds of completed campaigns, and what it rests on. -/
structure CompletedDone (x : Db) : Prop where
  oneItem : OneItem x
  doneClosed : DoneClosed x
  done : ∀ cc ∈ x.campaignContacts, x.statusOf cc.campaignId = some .completed → cc.completedAt.isSome = true
  attempts : ∀ a ∈ x.attempts, ∃ cc, x.attemptContact a = some cc

/-- No contact, work item or attempt of the campaign is left; what is left belongs to others. -/
structure Deleted (x : Db) (campaign : Uuid) : Prop where
  contacts : NoContacts x campaign
  workItems : ∀ w ∈ x.workItems, ∃ cc, x.campaignContact w = some cc ∧ cc.campaignId ≠ campaign
  attempts : ∀ a ∈ x.attempts, ∃ cc, x.attemptContact a = some cc ∧ cc.campaignId ≠ campaign

/-- A commit request that imports a phone into a completed campaign. -/
def ImportsIntoCompleted (db : Db) : Op → Prop
  | .work (.commitImport c r) => ∃ job phone, Imports.Commits c r db job ∧ Imports.Offers db job.id phone ∧
      ¬db.InCampaign job.campaignId phone ∧ db.statusOf job.campaignId = some .completed
  | _ => False

/-- The operation deletes the data of the campaign. -/
def Deletes (db : Db) (campaign : Uuid) : Op → Prop
  | .deleteCampaignData _ _ id => id = campaign
  | .purgeExpired c => ∃ k, Table.find db.campaigns campaign = some k ∧ k.status = .completed ∧
      dueBy k.retentionDeleteAfter (c.utcnow 0) = true
  | _ => False

/-! ## Steps outside the work queue -/

/-- What the other operations do to campaigns and their contacts, one change at a time. -/
inductive Tidies (x x' : Db) : Prop where
  | frame (hw : x'.workItems = x.workItems) (hcc : x'.campaignContacts = x.campaignContacts)
      (ha : x'.attempts = x.attempts)
      (hk : ∀ k, x'.statusOf k = some .completed ↔ x.statusOf k = some .completed)
  | release (agent campaign : Uuid) (hw : x'.workItems = releasedRows x agent campaign)
      (hcc : x'.campaignContacts = x.campaignContacts) (ha : x'.attempts = x.attempts)
      (hk : x'.campaigns = x.campaigns)
  | complete (h : Completes x x')
  | purge (campaign : Uuid) (h : Purges campaign x x')

theorem Tidies.of_campaigns (hw : x'.workItems = x.workItems) (hcc : x'.campaignContacts = x.campaignContacts)
    (ha : x'.attempts = x.attempts) (hk : x'.campaigns = x.campaigns) : Tidies x x' :=
  .frame hw hcc ha fun k => by rw [Db.statusOf, hk]; rfl

theorem tidies_of_moves {st st' : CampaignStatus} (h : MovesCampaign campaign st st' x x')
    (hst : st ≠ .completed) (hst' : st' ≠ .completed) : Tidies x x' := by
  obtain ⟨k, f, e, rfl, hk, rfl, hf, hfk⟩ := h
  refine .frame rfl rfl rfl fun j => ?_
  have hfind : Table.find (Table.modify x.campaigns campaign f) j =
      if j = campaign then (Table.find x.campaigns j).map f else Table.find x.campaigns j :=
    Table.find_modify fun r hr => (hf r).trans hr
  unfold Db.statusOf
  change (Table.find (Table.modify x.campaigns campaign f) j).map _ = _ ↔ _
  rw [hfind]
  by_cases hj : j = campaign
  · subst hj
    simp [hk, hfk, hst, hst']
  · rw [if_neg hj]

theorem Op.Effect.tidies {op : Op} (h : op.Effect x x') :
    (∃ q, op = .work q) ∨ Relation.ReflTransGen Tidies x x' := by
  cases op
  case work q => exact Or.inl ⟨q, rfl⟩
  all_goals right
  case updateCampaign => exact .single (tidies_of_moves h (by decide) (by decide))
  case launchCampaign => exact .single (tidies_of_moves h (by decide) (by decide))
  case pauseCampaign => exact .single (tidies_of_moves h (by decide) (by decide))
  case archiveCampaign =>
    obtain ⟨st, hst, -, h⟩ := h
    exact .single (tidies_of_moves h hst (by decide))
  case assignTeam | endTeamAssignment =>
    obtain ⟨ts, e, rfl⟩ := h
    exact .single (.of_campaigns rfl rfl rfl rfl)
  case assignAgent =>
    obtain ⟨a, e, rfl, -⟩ := h
    exact .single (.of_campaigns rfl rfl rfl rfl)
  case endAgentAssignment =>
    obtain ⟨a, e, rfl, -⟩ := h
    exact .single (.release _ _ rfl rfl rfl rfl)
  case transferAgent =>
    obtain ⟨current, a, e, rfl, -⟩ := h
    exact .single (.release _ _ rfl rfl rfl rfl)
  case uploadImport =>
    obtain ⟨j, e, rfl, -⟩ := h
    exact .single (.of_campaigns rfl rfl rfl rfl)
  case parseImport =>
    obtain rfl | ⟨job, f, rows, e, rfl, -⟩ := h
    · exact .refl
    · exact .single (.of_campaigns rfl rfl rfl rfl)
  case decideImport =>
    obtain ⟨job, d, e, rfl, -⟩ := h
    exact .single (.of_campaigns rfl rfl rfl rfl)
  case cleanupImports =>
    refine Relation.ReflTransGen.mono (fun y y' hy => ?_) _ _ h
    obtain ⟨job, -, ⟨-, rfl⟩ | ⟨-, rfl⟩⟩ := hy <;> exact .of_campaigns rfl rfl rfl rfl
  case detectCompleted => exact Relation.ReflTransGen.mono (fun _ _ => Tidies.complete) _ _ h
  case purgeExpired => exact Relation.ReflTransGen.mono (fun _ _ ⟨k, hk⟩ => Tidies.purge k hk) _ _ h.1
  case deleteCampaignData => exact .single (.purge _ h)

theorem mem_releasedRows {agent : Uuid} {w' : WorkItem} : w' ∈ releasedRows x agent campaign ↔
    ∃ w ∈ x.workItems, (if x.campaignOf w = some campaign ∧ Work.heldBy agent w = true then Work.released w
      else w) = w' := List.mem_map

/-- A released row is a row of the old state, with the links it had. -/
theorem released_links {agent : Uuid} {w w' : WorkItem} (h : (if x.campaignOf w = some campaign ∧
    Work.heldBy agent w = true then Work.released w else w) = w') :
    w'.id = w.id ∧ w'.campaignContactId = w.campaignContactId ∧ (w.state.terminal = true → w' = w) := by
  subst h
  split_ifs with hc
  · exact ⟨rfl, rfl, fun ht => by simp [Work.open_of_heldBy hc.2] at ht⟩
  · exact ⟨rfl, rfl, fun _ => rfl⟩

/-- A campaign that is completed by the task has all its contacts done; a completed one stays so. -/
theorem statusOf_completes (h : Completes x x') (k : Uuid) :
    (x'.statusOf k = some .completed → x.statusOf k = some .completed ∨
      ∀ cc ∈ x.campaignContacts, cc.campaignId = k → cc.completedAt.isSome = true) ∧
    (x.statusOf k = some .completed → x'.statusOf k = some .completed) := by
  obtain ⟨row, f, ns, e, rfl, hrow, hc, hf, hfk⟩ := h
  have hfind : Table.find (Table.modify x.campaigns row.id f) k =
      if k = row.id then (Table.find x.campaigns k).map f else Table.find x.campaigns k :=
    Table.find_modify fun r hr => (hf r).trans hr
  change ((Table.find (Table.modify x.campaigns row.id f) k).map _ = _ → _) ∧
    (_ → (Table.find (Table.modify x.campaigns row.id f) k).map _ = _)
  rw [hfind]
  by_cases hk : k = row.id
  · subst hk
    refine ⟨fun _ => Or.inr fun cc hcc hid => ?_, fun _ => by simp [hrow, hfk]⟩
    simp only [Retention.campaignIsComplete, Bool.and_eq_true, List.all_eq_true] at hc
    exact hc.2 cc (List.mem_filter.2 ⟨hcc, decide_eq_true hid⟩)
  · rw [if_neg hk]
    exact ⟨Or.inl, fun h => h⟩

theorem statusOf_purged (campaign k : Uuid) : (purged campaign x).statusOf k = x.statusOf k := by
  unfold Db.statusOf
  rw [find_purged]
  split_ifs with hk
  · cases Table.find x.campaigns k <;> rfl
  · rfl

theorem attemptContact_purged (hu : Table.Unique x.campaignContacts) {a : CallAttempt} {cc : CampaignContact}
    (ha : a ∈ (purged campaign x).attempts) (hcc : x.attemptContact a = some cc) :
    (purged campaign x).attemptContact a = some cc := by
  refine find_contact_purged hu hcc fun hk => ?_
  have hnot := (List.mem_filter.1 ha).2
  rw [Bool.not_eq_true', Bool.eq_false_iff] at hnot
  refine hnot (List.elem_eq_true_of_mem (List.mem_map.2 ⟨cc, List.mem_filter.2 ⟨Table.mem_of_find hcc, ?_⟩, ?_⟩))
  · exact decide_eq_true hk
  · exact Table.key_of_find hcc

theorem Tidies.contactKeys (h : Tidies x x') (hu : Table.Unique x.campaignContacts) :
    Table.Unique x'.campaignContacts := by
  cases h with
  | frame _ hcc => exact hcc ▸ hu
  | release _ _ _ hcc => exact hcc ▸ hu
  | complete h =>
    obtain ⟨row, f, ns, e, rfl, -⟩ := h
    exact hu
  | purge k h =>
    obtain ⟨row, e, rfl, -⟩ := h
    exact hu.filter _

theorem CompletedDone.tidies (hu : Table.Unique x.campaignContacts) (h : Tidies x x') (hd : CompletedDone x) :
    CompletedDone x' := by
  cases h with
  | frame hw hcc ha hk =>
    refine ⟨?_, ?_, fun cc hin hst => ?_, fun a hin => ?_⟩
    · rw [OneItem, hw]
      exact hd.oneItem
    · rw [DoneClosed, hcc]
      intro cc hin hdone
      rw [ItemsClosed, hw]
      exact hd.doneClosed cc hin hdone
    · exact hd.done cc (hcc ▸ hin) ((hk _).1 hst)
    · rw [Db.attemptContact, hcc]
      exact hd.attempts a (ha ▸ hin)
  | release agent campaign hw hcc ha hk =>
    refine ⟨fun w' hw' v' hv' he => ?_, ?_, fun cc hin hst => ?_, fun a hin => ?_⟩
    · rw [hw, mem_releasedRows] at hw' hv'
      obtain ⟨w, hw, rfl⟩ := hw'
      obtain ⟨v, hv, rfl⟩ := hv'
      rw [(released_links rfl).2.1, (released_links rfl).2.1] at he
      rw [hd.oneItem w hw v hv he]
    · rw [DoneClosed, hcc]
      intro cc hin hdone w' hw' he
      rw [hw, mem_releasedRows] at hw'
      obtain ⟨w, hw, hr⟩ := hw'
      obtain ⟨-, hlink, hsame⟩ := released_links hr
      have ht := hd.doneClosed cc hin hdone w hw (hlink ▸ he)
      rwa [hsame ht]
    · refine hd.done cc (hcc ▸ hin) ?_
      rwa [Db.statusOf, hk] at hst
    · rw [Db.attemptContact, hcc]
      exact hd.attempts a (ha ▸ hin)
  | complete h =>
    have hk := statusOf_completes h
    obtain ⟨row, f, ns, e, rfl, -⟩ := h
    refine ⟨hd.oneItem, hd.doneClosed, fun cc hin hst => ?_, hd.attempts⟩
    rcases (hk cc.campaignId).1 hst with hst | hall
    · exact hd.done cc hin hst
    · exact hall cc hin rfl
  | purge campaign h =>
    obtain ⟨k, e, rfl, -⟩ := h
    refine ⟨fun w hw v hv => ?_, fun cc hcc hdone w hw => ?_, fun cc hcc hst => ?_, fun a ha => ?_⟩
    · exact hd.oneItem w (List.mem_filter.1 hw).1 v (List.mem_filter.1 hv).1
    · exact hd.doneClosed cc (mem_purged.1 hcc).1 hdone w (List.mem_filter.1 hw).1
    · refine hd.done cc (mem_purged.1 hcc).1 ?_
      rwa [← statusOf_purged campaign]
    · obtain ⟨cc, hcc⟩ := hd.attempts a (List.mem_filter.1 ha).1
      exact ⟨cc, attemptContact_purged hu ha hcc⟩

/-- A deleted campaign stays deleted. -/
theorem Tidies.gone (h : Tidies x x') (hk : x.statusOf campaign = some .completed) (hn : NoContacts x campaign) :
    x'.statusOf campaign = some .completed ∧ NoContacts x' campaign := by
  cases h with
  | frame _ hcc _ hst => exact ⟨(hst campaign).2 hk, fun cc hin => hn cc (hcc ▸ hin)⟩
  | release _ _ _ hcc _ hks =>
    refine ⟨?_, fun cc hin => hn cc (hcc ▸ hin)⟩
    rwa [Db.statusOf, hks]
  | complete h =>
    refine ⟨(statusOf_completes h campaign).2 hk, ?_⟩
    obtain ⟨row, f, ns, e, rfl, -⟩ := h
    exact hn
  | purge k h =>
    obtain ⟨row, e, rfl, -⟩ := h
    exact ⟨(statusOf_purged k campaign).trans hk, hn.purged k⟩

/-- A purge destroys no item that is still to be worked. -/
theorem CompletedDone.open_kept (hx : x.WellFormed) (hd : CompletedDone x) (h : Purges campaign x x')
    {w : WorkItem} (hw : w ∈ x.workItems) (ho : w.state.terminal = false) : w ∈ x'.workItems := by
  obtain ⟨k, e, rfl, hk, hst⟩ := h
  refine (mem_items_purged hx).2 ⟨hw, fun hc => ?_⟩
  obtain ⟨cc, hcc, hid⟩ := Option.map_eq_some_iff.1 hc
  have hin : cc ∈ x.campaignContacts := Table.mem_of_find hcc
  have hdone := hd.done cc hin (by rw [hid, Db.statusOf, hk, Option.map_some, hst])
  have := hd.doneClosed cc hin hdone w hw (Table.key_of_find hcc).symm
  simp [ho] at this

/-! ## Steps of the work queue -/

section Work

variable {held : LockKey → Prop} {Δ : WorkItem → WorkItem → Prop} {new : List CallAttempt}
variable {dnc : List SuppressionEntry} {q : Queue.Op} {a : Queue.Result}

/-- A work effect leaves the campaign of a contact, and never clears its stamp. -/
theorem contact_of_work (h : WorkEffect held Δ new dnc x x') (hx : x.WellFormed) {cc' : CampaignContact}
    (hcc : cc' ∈ x'.campaignContacts) : ∃ cc ∈ x.campaignContacts, cc'.campaignId = cc.campaignId ∧
      (cc.completedAt.isSome = true → cc'.completedAt.isSome = true) := by
  obtain ⟨cc, hcc, hk, -, hd⟩ := h.campaignContact_back ((h.wellFormed hx).campaignContacts.find_of_mem hcc)
  refine ⟨cc, Table.mem_of_find hcc, hk, fun hdone => ?_⟩
  rcases hd with rfl | hs
  · exact hdone
  · exact hs.completedAt

/-- The contact of an attempt is found after the operation as well. -/
theorem attemptContact_of_effect (hx : x.WellFormed) (h : Queue.Op.Effect q a held x x')
    (hd : ∀ t ∈ x.attempts, ∃ cc, x.attemptContact t = some cc) :
    ∀ t ∈ x'.attempts, ∃ cc, x'.attemptContact t = some cc := by
  have forth {id : Uuid} {cc : CampaignContact} (hcc : Table.find x.campaignContacts id = some cc) :
      ∃ cc', Table.find x'.campaignContacts id = some cc' := by
    obtain ⟨cc', hcc', -⟩ := (h.within hx).grows.campaignContact id cc hcc
    exact ⟨cc', hcc'⟩
  intro t ht
  rcases h.attempts_back ht with ht | ⟨c, r, -, w, w', d, hrow⟩
  · obtain ⟨cc, hcc⟩ := hd t ht
    exact forth hcc
  · obtain ⟨cc, hid, rfl⟩ := hrow.stored
    obtain ⟨cc₀, hcc₀⟩ := hx.campaignContact _ w hrow.row
    exact forth (hid ▸ hcc₀ : Table.find x.campaignContacts cc.id = some cc₀)

theorem CompletedDone.work (hx : x.WellFormed) (hok : ¬ImportsIntoCompleted x (.work q))
    (h : (Queue.body q).Runs x a x') (hd : CompletedDone x) : CompletedDone x' := by
  obtain ⟨held, he⟩ := Queue.effect_of_runs hx h
  have hattempts := attemptContact_of_effect hx he hd.attempts
  rcases he.cases with ⟨new, dnc, hw, -⟩ | ⟨c, r, rfl, -⟩
  · refine ⟨Queue.oneItem_of_work hx hw hd.oneItem, Queue.doneClosed_of_work hx hw hd.oneItem hd.doneClosed,
      fun cc' hcc' hst => ?_, hattempts⟩
    obtain ⟨cc, hcc, hk, hdone⟩ := contact_of_work hw hx hcc'
    refine hdone (hd.done cc hcc ?_)
    rwa [Db.statusOf, hw.campaigns, hk] at hst
  · obtain ⟨res, hr, -⟩ := Prog.runs_map.1 h
    rcases Imports.commitImport_runs hx hr with ⟨rfl, -⟩ | ⟨job, held, hc, ks, ccs, ws, hi⟩
    · exact hd
    refine ⟨Queue.oneItem_of_import hx hi hd.oneItem, Queue.doneClosed_of_import hx hi hd.doneClosed,
      fun cc hcc hst => ?_, hattempts⟩
    rw [Db.statusOf, hi.campaigns] at hst
    rw [hi.campaignContacts] at hcc
    rcases List.mem_append.1 hcc with hcc | hcc
    · exact hd.done cc hcc hst
    · obtain ⟨-, -, k, -, -, hf, ho, hn⟩ := hi.campaignContact cc hcc
      rw [hf.campaign] at hst
      exact absurd ⟨job, _, hc, ho, hn, hst⟩ hok

theorem gone_work (hx : x.WellFormed) (hok : ¬ImportsIntoCompleted x (.work q))
    (h : (Queue.body q).Runs x a x') (hk : x.statusOf campaign = some .completed)
    (hn : NoContacts x campaign) : x'.statusOf campaign = some .completed ∧ NoContacts x' campaign := by
  obtain ⟨held, he⟩ := Queue.effect_of_runs hx h
  rcases he.cases with ⟨new, dnc, hw, -⟩ | ⟨c, r, rfl, -⟩
  · refine ⟨by rw [Db.statusOf, hw.campaigns]; exact hk, fun cc' hcc' => ?_⟩
    obtain ⟨cc, hcc, hid, -⟩ := contact_of_work hw hx hcc'
    rw [hid]
    exact hn cc hcc
  · obtain ⟨res, hr, -⟩ := Prog.runs_map.1 h
    rcases Imports.commitImport_runs hx hr with ⟨rfl, -⟩ | ⟨job, held, hc, ks, ccs, ws, hi⟩
    · exact ⟨hk, hn⟩
    refine ⟨by rw [Db.statusOf, hi.campaigns]; exact hk, fun cc hcc => ?_⟩
    rw [hi.campaignContacts] at hcc
    rcases List.mem_append.1 hcc with hcc | hcc
    · exact hn cc hcc
    · obtain ⟨-, -, k, -, -, hf, ho, hnot⟩ := hi.campaignContact cc hcc
      rw [hf.campaign]
      rintro rfl
      exact hok ⟨job, _, hc, ho, hnot, hk⟩

end Work

/-! ## Runs -/

theorem CompletedDone.step {op : Op} (hx : Valid x) (hok : ¬ImportsIntoCompleted x op) (h : op.Effect x x')
    (hd : CompletedDone x) : CompletedDone x' := by
  rcases h.tidies with ⟨q, rfl⟩ | ht
  · obtain ⟨a, h⟩ := h
    exact hd.work hx.wellFormed hok h
  · suffices Table.Unique x'.campaignContacts ∧ CompletedDone x' from this.2
    clear h
    induction ht with
    | refl => exact ⟨hx.wellFormed.campaignContacts, hd⟩
    | tail _ h ih => exact ⟨h.contactKeys ih.1, ih.2.tidies ih.1 h⟩

/-- A completed campaign with no contact left stays so. -/
def Gone (campaign : Uuid) (x : Db) : Prop := x.statusOf campaign = some .completed ∧ NoContacts x campaign

theorem Gone.step {op : Op} (hx : Valid x) (hok : ¬ImportsIntoCompleted x op) (h : op.Effect x x')
    (hg : Gone campaign x) : Gone campaign x' := by
  rcases h.tidies with ⟨q, rfl⟩ | ht
  · obtain ⟨a, h⟩ := h
    exact gone_work hx.wellFormed hok h hg.1 hg.2
  · clear h
    induction ht with
    | refl => exact hg
    | tail _ h ih => exact h.gone ih.1 ih.2

theorem gone_of_purges (h : Purges campaign x x') : Gone campaign x' := by
  obtain ⟨k, e, rfl, hk, hst⟩ := h
  refine ⟨(statusOf_purged campaign campaign).trans ?_, noContacts_purged campaign x⟩
  rw [Db.statusOf, hk, Option.map_some, hst]

/-- The campaign whose data an operation deletes is gone. -/
theorem gone_of_deletes {op : Op} (hd : Deletes x campaign op) (h : op.Effect x x') : Gone campaign x' := by
  cases op
  case deleteCampaignData =>
    obtain rfl := hd
    exact gone_of_purges h
  case purgeExpired c =>
    obtain ⟨k, hk, hst, hdue⟩ := hd
    obtain ⟨h, hall⟩ := h
    have hid : k.id = campaign := Table.key_of_find hk
    refine ⟨?_, hid ▸ hall k (Table.mem_of_find hk) hst hdue⟩
    clear hall hid
    induction h with
    | refl => rw [Db.statusOf, hk, Option.map_some, hst]
    | tail _ h ih =>
      obtain ⟨j, row, e, rfl, -⟩ := h
      exact (statusOf_purged j campaign).trans ih
  all_goals exact hd.elim

theorem deleted_of_gone (hx : x.WellFormed) (hd : CompletedDone x) (hg : Gone campaign x) : Deleted x campaign where
  contacts := hg.2
  workItems w hw := by
    obtain ⟨cc, hcc⟩ := hx.campaignContact _ w (hx.workItems.find_of_mem hw)
    exact ⟨cc, hcc, hg.2 cc (Table.mem_of_find hcc)⟩
  attempts a ha := by
    obtain ⟨cc, hcc⟩ := hd.attempts a ha
    exact ⟨cc, hcc, hg.2 cc (Table.mem_of_find hcc)⟩

/-- Deleting data destroys no item that is still to be worked. -/
theorem open_kept_of_deletes {op : Op} (hx : Valid x) (hd : CompletedDone x) (hdel : Deletes x campaign op)
    (h : op.Effect x x') : ∀ w ∈ x.workItems, w.state.terminal = false → w ∈ x'.workItems := by
  intro w hw ho
  cases op
  case deleteCampaignData => exact hd.open_kept hx.wellFormed h hw ho
  case purgeExpired c =>
    obtain ⟨h, -⟩ := h
    suffices x'.WellFormed ∧ CompletedDone x' ∧ w ∈ x'.workItems from this.2.2
    induction h with
    | refl => exact ⟨hx.wellFormed, hd, hw⟩
    | tail _ h ih =>
      obtain ⟨j, hp⟩ := h
      refine ⟨?_, ih.2.1.tidies ih.1.campaignContacts (.purge j hp), ih.2.1.open_kept ih.1 hp ih.2.2 ho⟩
      obtain ⟨row, e, rfl, -⟩ := hp
      exact { wellFormed_purged ih.1 j with }
  all_goals exact hdel.elim

/-- In a run that imports nothing into a completed campaign, a completed campaign has no
open work item and no contact that is not done; a deletion destroys no open item, and what it
has deleted never comes back. -/
theorem completed_holds_no_work {v x : Db} (hv : Valid v) (hd : CompletedDone v)
    (h : Prog.Serial body (fun db op => ¬ImportsIntoCompleted db op) v x) :
    (∀ k, x.statusOf k = some .completed →
      (∀ w ∈ x.workItems, x.campaignOf w = some k → w.state.terminal = true) ∧
      ∀ cc ∈ x.campaignContacts, cc.campaignId = k → cc.completedAt.isSome = true) ∧
    ∀ k op a y, Deletes x k op → (body op).Runs x a y →
      (∀ w ∈ x.workItems, w.state.terminal = false → w ∈ y.workItems) ∧
      ∀ z, Prog.Serial body (fun db op => ¬ImportsIntoCompleted db op) y z → Deleted z k := by
  obtain ⟨hx, hd⟩ := invariant_of_serial (fun op y y' hy hok he hd => hd.step hy hok he) hv hd h
  refine ⟨fun k hk => ⟨fun w hw hc => ?_, fun cc hcc hid => ?_⟩, fun k op a y hdel hr => ?_⟩
  · obtain ⟨cc, hcc, hid⟩ := Option.map_eq_some_iff.1 hc
    have hin : cc ∈ x.campaignContacts := Table.mem_of_find hcc
    exact hd.doneClosed cc hin (hd.done cc hin (hid ▸ hk)) w hw (Table.key_of_find hcc).symm
  · exact hd.done cc hcc (hid ▸ hk)
  · have he := hx.effect hr
    refine ⟨open_kept_of_deletes hx hd hdel he, fun z hz => ?_⟩
    have hok : ¬ImportsIntoCompleted x op := by
      cases op
      case work => exact hdel.elim
      all_goals exact id
    obtain ⟨hz, hdz, hgz⟩ := invariant_of_serial (I := fun z => CompletedDone z ∧ Gone k z)
      (fun op y y' hy hok he h => ⟨h.1.step hy hok he, h.2.step hy hok he⟩) (hx.step he)
      ⟨hd.step hx hok he, gone_of_deletes hdel he⟩ hz
    exact deleted_of_gone hz.wellFormed hdz hgz

/-- Agent 5 sells to the one contact of the campaign, which is then completed. -/
def Demo.sold : List Op :=
  [.work (.leaseNext (Queue.Demo.call 1) 5), .work (Queue.Demo.complete 2 1 5 50),
    .detectCompleted (Queue.Demo.call 3)]

/-- The purge, 62 days later. -/
def Demo.purge : Op := .purgeExpired (Queue.Demo.call 90000)

theorem completed_holds_no_work_sold :
    Deleted ((body Demo.purge).transact (Prog.serially body Queue.Demo.db Demo.sold)).2 1 :=
  ((completed_holds_no_work ⟨Queue.Demo.db_wellFormed, by decide⟩
    ⟨by simp [OneItem, Queue.Demo.db], by simp [DoneClosed, Queue.Demo.db], by decide, by simp [Queue.Demo.db]⟩
    (Prog.serial_serially (by simp [Demo.sold, ImportsIntoCompleted, Queue.Demo.complete]) _)).2 1 Demo.purge _ _
      ⟨_, rfl, by decide +kernel, by decide +kernel⟩ (Prog.runs_transact (a := .done) rfl)).2 _ .refl

/-- One contact that is done, and a parsed and approved import of another phone. -/
def Demo.lateImport : Db := { Queue.Demo.importDb with
  contacts := [{ id := 10, phoneCiphertext := "d", phoneFingerprint := "g" }]
  campaignContacts := [{
    id := 20, campaignId := 1, contactId := 10, status := .completed, completedAt := some 0
    finalDispositionCode := some "sale" }] }

/-- The campaign is completed, the import is committed all the same, and its open work item is
deleted with the campaign's data; or the import brings contacts back after the deletion. -/
theorem import_into_completed :
    let x := Prog.serially body Demo.lateImport
      [.detectCompleted (Queue.Demo.call 1), .work (Queue.Demo.commit 2 "k")]
    let y := Prog.serially body Demo.lateImport [.detectCompleted (Queue.Demo.call 1), Demo.purge]
    Valid Demo.lateImport ∧ CompletedDone Demo.lateImport ∧
    x.statusOf 1 = some .completed ∧
    x.workItems.map (fun w => (x.campaignOf w, w.state)) = [(some 1, .queued)] ∧
    (Prog.serially body x [Demo.purge]).workItems = [] ∧
    y.campaignContacts = [] ∧
    (Prog.serially body y [.work (Queue.Demo.commit 90001 "k")]).campaignContacts.map
      CampaignContact.campaignId = [1] := by
  refine ⟨⟨.of_mem (by decide) (by decide) (by decide) (by decide) (by decide) (by decide), by decide⟩,
    ⟨by simp [OneItem, Demo.lateImport, Queue.Demo.importDb],
      by simp [DoneClosed, ItemsClosed, Demo.lateImport, Queue.Demo.importDb], by decide,
      by simp [Demo.lateImport, Queue.Demo.importDb]⟩, ?_⟩
  decide +kernel

end Service

end OmniDB
