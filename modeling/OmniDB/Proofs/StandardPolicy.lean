import OmniDB.Proofs.Service
import OmniDB.Spec.Setup
import OmniDB.Tx.Rows

/-! The standard outcomes of a campaign. The policy is checked when a campaign is launched;
what keeps it afterwards is that no other request writes a disposition of an active
campaign. One does: a disposition may be added to any campaign at any time. -/

namespace OmniDB.Campaigns

open Tx

/-- The dispositions that agents of the campaign are offered. -/
def activeDispositions (db : Db) (campaign : Uuid) : List CampaignDispositionDefinition :=
  db.dispositions.filter fun d => d.campaignId = campaign && d.active

/-- The row is the manifest's entry, with a retry delay in range just where the entry has one. -/
structure Follows (e : StandardDisposition) (d : CampaignDispositionDefinition) : Prop where
  code : d.stableSemanticCode = e.stableSemanticCode
  label : d.label = e.label
  order : d.displayOrder = e.order
  standard : d.isStandard = true
  nextAction : d.nextAction = e.nextAction
  causesDnc : d.causesDnc = e.causesDnc
  callbackTime : d.requiresCallbackTime = e.requiresCallbackTime
  connected : d.countsAsConnected = e.countsAsConnected
  redial : d.immediateRedial = e.immediateRedial
  editable : e.retryDelayEditable = true → ∃ m, d.retryDelayMinutes = some m ∧ validRetryDelay m = true
  fixed : e.retryDelayEditable = false → d.retryDelayMinutes = none

/-- The active dispositions are the seven entries of the manifest, one row for each. -/
def HasStandardPolicy (db : Db) (campaign : Uuid) : Prop :=
  ∃ rows, rows.Perm (activeDispositions db campaign) ∧ List.Forall₂ Follows standardDispositions rows

/-- The keys of the disposition table. -/
structure Distinct (ds : List CampaignDispositionDefinition) : Prop where
  ids : Table.Unique ds
  codes : ∀ d ∈ ds, ∀ d' ∈ ds, d.campaignId = d'.campaignId →
    d.stableSemanticCode = d'.stableSemanticCode → d = d'

/-! ## The manifest -/

theorem standardCodes_nodup : (standardDispositions.map StandardDisposition.stableSemanticCode).Nodup := by
  decide +kernel

theorem standardByCode_isSome {code : String} : (standardByCode code).isSome ↔
    ∃ e ∈ standardDispositions, e.stableSemanticCode = code := by
  simp [standardByCode]

theorem standardByCode_eq {e e' : StandardDisposition} (he : e ∈ standardDispositions)
    (h : standardByCode e.stableSemanticCode = some e') : e' = e := by
  have hmem : e' ∈ standardDispositions := List.mem_of_find?_eq_some h
  have hcode : e'.stableSemanticCode = e.stableSemanticCode := by simpa using List.find?_some h
  exact List.inj_on_of_nodup_map standardCodes_nodup hmem he hcode

/-- An entry reports nothing about a row that follows it. -/
theorem entryErrors_eq_nil {e : StandardDisposition} {d : CampaignDispositionDefinition}
    (hc : d.stableSemanticCode = e.stableSemanticCode) : entryErrors e d = [] ↔ Follows e d := by
  have hcheck : ∀ (p : Prop) [Decidable p] (text : String), (if p then [] else [text]) = [] ↔ p := by
    intro p _ text
    split_ifs with h <;> simp [h]
  have hdelay : (if e.retryDelayEditable = true then d.retryDelayMinutes.any validRetryDelay = true
      else d.retryDelayMinutes.isNone = true) ↔
      (e.retryDelayEditable = true → ∃ m, d.retryDelayMinutes = some m ∧ validRetryDelay m = true) ∧
      (e.retryDelayEditable = false → d.retryDelayMinutes = none) := by
    cases e.retryDelayEditable <;> simp [Option.any_eq_true]
  unfold entryErrors
  simp only [List.append_eq_nil_iff, hcheck, decide_eq_true_eq, apply_ite (· = ([] : List String)), hdelay]
  constructor
  · rintro ⟨⟨⟨⟨⟨⟨⟨⟨hl, ho⟩, hs⟩, hn⟩, hd⟩, ht⟩, hk⟩, hi⟩, he, hf⟩
    exact ⟨hc, hl, ho, hs, hn, hd, ht, hk, hi, he, hf⟩
  · intro h
    exact ⟨⟨⟨⟨⟨⟨⟨⟨h.label, h.order⟩, h.standard⟩, h.nextAction⟩, h.causesDnc⟩, h.callbackTime⟩, h.connected⟩,
      h.redial⟩, h.editable, h.fixed⟩

theorem HasStandardPolicy.congr {x x' : Db} {k : Uuid} (h : HasStandardPolicy x k)
    (ha : activeDispositions x' k = activeDispositions x k) : HasStandardPolicy x' k := by
  unfold HasStandardPolicy
  rw [ha]
  exact h

theorem HasStandardPolicy.same {x x' : Db} {k : Uuid} (h : HasStandardPolicy x k)
    (hd : x'.dispositions = x.dispositions) : HasStandardPolicy x' k :=
  h.congr (by rw [activeDispositions, hd]; rfl)

/-! ## What the validation decides -/

section Validation

variable {c : Call} {db : Db} {campaign : Uuid}

theorem mem_activeDispositions {d : CampaignDispositionDefinition} : d ∈ activeDispositions db campaign ↔
    d ∈ db.dispositions ∧ d.campaignId = campaign ∧ d.active = true := by
  simp [activeDispositions]

/-- Among the active dispositions of a campaign a code stands for one row. -/
theorem Distinct.eq_of_code (h : Distinct db.dispositions) {d d' : CampaignDispositionDefinition}
    (hd : d ∈ activeDispositions db campaign) (hd' : d' ∈ activeDispositions db campaign)
    (hc : d.stableSemanticCode = d'.stableSemanticCode) : d = d' := by
  obtain ⟨hd, hk, -⟩ := mem_activeDispositions.1 hd
  obtain ⟨hd', hk', -⟩ := mem_activeDispositions.1 hd'
  exact h.codes d hd d' hd' (hk.trans hk'.symm) hc

theorem codes_of_follows {es : List StandardDisposition} {rows : List CampaignDispositionDefinition}
    (h : List.Forall₂ Follows es rows) : rows.map CampaignDispositionDefinition.stableSemanticCode =
      es.map StandardDisposition.stableSemanticCode :=
  Rows.map_partners h fun _ _ hf => hf.code

/-- A campaign has the policy when every entry has a row and every row an entry. -/
theorem hasStandardPolicy_iff (hd : Distinct db.dispositions) : HasStandardPolicy db campaign ↔
    (∀ e ∈ standardDispositions, ∃ d ∈ activeDispositions db campaign, Follows e d) ∧
      ∀ d ∈ activeDispositions db campaign, ∃ e ∈ standardDispositions, e.stableSemanticCode = d.stableSemanticCode := by
  constructor
  · rintro ⟨rows, hperm, hrows⟩
    refine ⟨fun e he => ?_, fun d hin => ?_⟩
    · obtain ⟨d, hin, hf⟩ := Rows.partner_right hrows he
      exact ⟨d, hperm.mem_iff.1 hin, hf⟩
    · obtain ⟨e, he, hf⟩ := Rows.partner_left hrows (hperm.mem_iff.2 hin)
      exact ⟨e, he, hf.code.symm⟩
  · rintro ⟨hcover, honly⟩
    obtain ⟨rows, hrows, hin⟩ := Rows.exists_partners hcover
    have hcodes := codes_of_follows hrows
    have hnodup : rows.Nodup := .of_map _ (hcodes ▸ standardCodes_nodup)
    have hactive : (activeDispositions db campaign).Nodup := .of_map _ (hd.ids.filter _)
    refine ⟨rows, (List.perm_ext_iff_of_nodup hnodup hactive).2 fun d => ⟨hin d, fun h => ?_⟩, hrows⟩
    obtain ⟨e, he, hcode⟩ := honly d h
    have hmem : d.stableSemanticCode ∈ rows.map CampaignDispositionDefinition.stableSemanticCode := by
      rw [hcodes, ← hcode]
      exact List.mem_map_of_mem he
    obtain ⟨r, hr, heq⟩ := List.mem_map.1 hmem
    rwa [← hd.eq_of_code (hin r hr) h heq]

/-- `validate_standard_dispositions` finds no error just when the campaign has the policy. -/
theorem standardPolicyErrors_eq_nil (hd : Distinct db.dispositions) :
    standardPolicyErrors c db campaign = [] ↔ HasStandardPolicy db campaign := by
  rw [hasStandardPolicy_iff hd]
  unfold standardPolicyErrors
  dsimp only
  have hmem : ∀ d, d ∈ scan c (db.dispositions.filter fun d => d.campaignId = campaign && d.active) ↔
      d ∈ activeDispositions db campaign := fun d => mem_scan
  rw [List.append_eq_nil_iff, and_comm]
  refine and_congr ?_ ?_
  · simp only [List.flatMap_eq_nil_iff]
    refine forall₂_congr fun e he => ?_
    constructor
    · intro h
      split at h
      · cases h
      · rename_i row hrow
        have hin := (hmem row).1 (List.mem_reverse.1 (List.mem_of_find?_eq_some hrow))
        exact ⟨row, hin, (entryErrors_eq_nil (by simpa using List.find?_some hrow)).1 h⟩
    · rintro ⟨d, hin, hf⟩
      split
      · rename_i hnone
        have := List.find?_eq_none.1 hnone d (List.mem_reverse.2 ((hmem d).2 hin))
        simp [hf.code] at this
      · rename_i row hrow
        have hcode : row.stableSemanticCode = e.stableSemanticCode := by simpa using List.find?_some hrow
        have hrow := (hmem row).1 (List.mem_reverse.1 (List.mem_of_find?_eq_some hrow))
        rw [hd.eq_of_code hrow hin (hcode.trans hf.code.symm)]
        exact (entryErrors_eq_nil hf.code).2 hf
  · rw [List.map_eq_nil_iff, List.eq_nil_iff_forall_not_mem]
    simp only [List.mem_insertionSort, List.mem_filter, List.mem_dedup, List.mem_map, hmem]
    constructor
    · intro h d hin
      by_contra hnone
      refine h d.stableSemanticCode ⟨⟨d, hin, rfl⟩, ?_⟩
      rwa [← standardByCode_isSome, Bool.not_eq_true, Option.isSome_eq_false_iff] at hnone
    · rintro h code ⟨⟨d, hin, rfl⟩, hnone⟩
      have hsome := standardByCode_isSome.2 (h d hin)
      rw [Option.isNone_iff_eq_none] at hnone
      rw [hnone] at hsome
      cases hsome

end Validation

/-! ## Writes to the dispositions -/

theorem Distinct.insert {ds : List CampaignDispositionDefinition} {d : CampaignDispositionDefinition}
    (h : Distinct ds) (hid : Table.find ds d.id = none)
    (hcode : ∀ e ∈ ds, ¬(e.campaignId = d.campaignId ∧ e.stableSemanticCode = d.stableSemanticCode)) :
    Distinct (ds ++ [d]) where
  ids := h.ids.append hid
  codes a ha b hb hk hc := by
    rcases List.mem_append.1 ha with ha | ha
    · rcases List.mem_append.1 hb with hb | hb
      · exact h.codes a ha b hb hk hc
      · rw [List.mem_singleton.1 hb] at hk hc
        exact absurd ⟨hk, hc⟩ (hcode a ha)
    · rcases List.mem_append.1 hb with hb | hb
      · rw [List.mem_singleton.1 ha] at hk hc
        exact absurd ⟨hk.symm, hc.symm⟩ (hcode b hb)
      · rw [List.mem_singleton.1 ha, List.mem_singleton.1 hb]

theorem Distinct.modify {ds : List CampaignDispositionDefinition} (h : Distinct ds) (id : Uuid)
    {f : CampaignDispositionDefinition → CampaignDispositionDefinition} (hid : ∀ d, (f d).id = d.id)
    (hk : ∀ d, (f d).campaignId = d.campaignId) (hc : ∀ d, (f d).stableSemanticCode = d.stableSemanticCode) :
    Distinct (Table.modify ds id f) where
  ids := h.ids.modify id fun d hd => (hid d).trans hd
  codes a ha b hb hka hca := by
    obtain ⟨a, ha', rfl⟩ := List.mem_map.1 ha
    obtain ⟨b, hb', rfl⟩ := List.mem_map.1 hb
    have hsame : ∀ d : CampaignDispositionDefinition, (if key d = id then f d else d).campaignId = d.campaignId ∧
        (if key d = id then f d else d).stableSemanticCode = d.stableSemanticCode := by
      intro d
      split_ifs
      · exact ⟨hk d, hc d⟩
      · exact ⟨rfl, rfl⟩
    rw [(hsame a).1, (hsame b).1] at hka
    rw [(hsame a).2, (hsame b).2] at hca
    rw [h.codes a ha' b hb' hka hca]

/-- The row of an entry follows it, whatever the manager's delays. -/
theorem follows_standardRow {id campaign : Uuid} {noAnswer unavailable : Option ℤ} {e : StandardDisposition}
    (he : e ∈ standardDispositions) (hn : ∀ m, noAnswer = some m → validRetryDelay m = true)
    (hu : ∀ m, unavailable = some m → validRetryDelay m = true) :
    Follows e (standardRow id campaign noAnswer unavailable e) := by
  refine ⟨rfl, rfl, rfl, rfl, rfl, rfl, rfl, rfl, rfl, fun hedit => ?_, fun hedit => ?_⟩
  · have hdefault : ∃ m, e.defaultRetryDelayMinutes = some m ∧ validRetryDelay m = true := by
      have : ∀ e ∈ standardDispositions, e.retryDelayEditable = true →
          e.defaultRetryDelayMinutes.any validRetryDelay = true := by decide +kernel
      exact Option.any_eq_true _ _ |>.1 (this e he hedit)
    have hor : ∀ o : Option ℤ, (∀ m, o = some m → validRetryDelay m = true) →
        ∃ m, (o.orElse fun _ => e.defaultRetryDelayMinutes) = some m ∧ validRetryDelay m = true := by
      intro o ho
      cases o with
      | none => exact hdefault
      | some m => exact ⟨m, rfl, ho m rfl⟩
    simp only [standardRow, if_pos hedit]
    refine hor _ ?_
    split_ifs
    · exact hn
    · exact hu
    · simp
  · have : ∀ e ∈ standardDispositions, e.retryDelayEditable = false → e.defaultRetryDelayMinutes = none := by
      decide +kernel
    simp only [standardRow, hedit]
    exact this e he hedit

section Writes

variable {s s' : Db} {u : Unit}

theorem insertDisposition_runs {d : CampaignDispositionDefinition} (h : (insertDisposition d).Runs s u s') :
    s' = { s with dispositions := s.dispositions ++ [d] } ∧ Table.find s.dispositions d.id = none ∧
      ∀ e ∈ s.dispositions, ¬(e.campaignId = d.campaignId ∧ e.stableSemanticCode = d.stableSemanticCode) := by
  unfold insertDisposition at h
  simp only [Prog.runs_bind, Prog.runs_view, Prog.runs_raiseIf, Prog.runs_update, and_assoc, exists_and_left,
    exists_eq_left, exists_const] at h
  obtain ⟨hid, hcode, rfl⟩ := h
  refine ⟨rfl, by simpa using hid, fun e he hc => hcode ?_⟩
  rw [List.any_eq_true]
  exact ⟨e, he, by simp [hc.1, hc.2]⟩

theorem insertDispositions_runs {ds : List CampaignDispositionDefinition}
    (h : (ds.forM insertDisposition).Runs s u s') :
    s' = { s with dispositions := s.dispositions ++ ds } ∧
      (Distinct s.dispositions → Distinct s'.dispositions) := by
  induction ds generalizing s with
  | nil =>
    obtain ⟨-, rfl⟩ := Prog.runs_pure.1 h
    exact ⟨by simp, id⟩
  | cons d ds ih =>
    obtain ⟨_, t, hd, hds⟩ := Prog.runs_bind.1 h
    obtain ⟨rfl, hid, hcode⟩ := insertDisposition_runs hd
    obtain ⟨rfl, hdistinct⟩ := ih hds
    exact ⟨by simp, fun hs => hdistinct (hs.insert hid hcode)⟩

end Writes

end OmniDB.Campaigns

namespace OmniDB.Setup

open Tx
open Campaigns

variable {c : Call} {user id k : Uuid} {x x' : Db} {u : Unit}

/-! ## What the requests do -/

theorem runs_managedCampaign {campaign : Campaign} (h : (managedCampaign c user id).Runs x campaign x') :
    Table.find x.campaigns id = some campaign ∧ x' = x := by
  unfold managedCampaign at h
  simp only [Prog.runs_bind, runs_getRow, Prog.runs_expect, Prog.runs_view, Prog.runs_raiseIf, Prog.runs_pure,
    and_assoc, exists_and_left, exists_eq_left, exists_const] at h
  obtain ⟨k, hk, -, rfl, rfl⟩ := h
  exact ⟨hk, rfl⟩

theorem runs_requireOwner {scope : ScopeType} {owner : Option Uuid}
    (h : (requireOwner scope owner).Runs x u x') : x' = x := by
  unfold requireOwner at h
  cases owner with
  | none => exact (Prog.runs_raiseIf.1 h).2
  | some owner =>
    dsimp only at h
    split_ifs at h <;>
    · simp only [Prog.runs_bind, runs_getRow, Prog.runs_raiseIf] at h
      obtain ⟨_, _, ⟨-, rfl⟩, -, rfl⟩ := h
      rfl

/-- A draft is added to the campaigns. -/
def Creates (x x' : Db) : Prop := ∃ campaign e, x' = Db.log e { x with campaigns := x.campaigns ++ [campaign] } ∧
  Table.find x.campaigns campaign.id = none ∧ campaign.status = .draft

theorem createCampaign_runs {fields : Campaign} (h : (createCampaign c user fields).Runs x u x') : Creates x x' := by
  unfold createCampaign Campaigns.createCampaign at h
  simp only [Prog.runs_bind, Prog.runs_view, Prog.runs_raiseIf, and_assoc, exists_and_left, exists_eq_left,
    exists_const] at h
  obtain ⟨-, _, t, ht, _, y, hy, h⟩ := h
  obtain rfl := runs_requireOwner ht
  obtain ⟨-, rfl⟩ := Prog.runs_pure.1 h
  split at hy
  · simp at hy
  · simp only [Prog.runs_bind, Prog.runs_view, Prog.runs_raiseIf, runs_insertRow, runs_recordAudit, Prog.runs_pure,
      and_assoc, exists_and_left, exists_eq_left, exists_const] at hy
    obtain ⟨-, hfree, -, rfl⟩ := hy
    exact ⟨_, _, rfl, hfree, rfl⟩

/-- An active disposition of its own code is added to the campaign. -/
structure AddsDisposition (id : Uuid) (d : CampaignDispositionDefinition) (x x' : Db) : Prop where
  effect : ∃ e, x' = Db.log e { x with dispositions := x.dispositions ++ [d] }
  fresh : Table.find x.dispositions d.id = none
  code : ∀ e ∈ x.dispositions, ¬(e.campaignId = d.campaignId ∧ e.stableSemanticCode = d.stableSemanticCode)
  campaign : d.campaignId = id
  active : d.active = true

theorem createDisposition_runs {fields : CampaignDispositionDefinition}
    (h : (createDisposition c user id fields).Runs x u x') : ∃ d, AddsDisposition id d x x' := by
  unfold createDisposition Campaigns.createDisposition at h
  simp only [Prog.runs_bind, Prog.runs_raiseIf, runs_recordAudit, and_assoc, exists_and_left, exists_eq_left,
    exists_const] at h
  obtain ⟨campaign, t, hk, -, -, -, _, y, hy, rfl⟩ := h
  obtain ⟨hk, -, rfl⟩ := Service.runs_loadCampaign hk
  obtain ⟨rfl, hid, hcode⟩ := insertDisposition_runs hy
  exact ⟨_, ⟨_, rfl⟩, hid, hcode, Table.key_of_find hk, rfl⟩

/-- The manifest's rows are added to a draft that has no disposition. -/
structure Installs (c : Call) (id : Uuid) (noAnswer unavailable : Option ℤ) (x x' : Db) : Prop where
  draft : ∃ campaign, Table.find x.campaigns id = some campaign ∧ campaign.status = .draft
  empty : ∀ d ∈ x.dispositions, d.campaignId ≠ id
  validNoAnswer : ∀ m, noAnswer = some m → validRetryDelay m = true
  validUnavailable : ∀ m, unavailable = some m → validRetryDelay m = true
  effect : ∃ e, x' = Db.log e { x with
    dispositions := x.dispositions ++
      standardDispositions.mapIdx fun n e => standardRow (c.uuid4 n) id noAnswer unavailable e
    campaigns := Table.modify x.campaigns id fun k => { k with dispositionPolicyVersion := some policyVersion } }
  distinct : Distinct x.dispositions → Distinct x'.dispositions

theorem installStandardPolicy_runs {noAnswer unavailable : Option ℤ}
    (h : (installStandardPolicy c user id noAnswer unavailable).Runs x u x') :
    Installs c id noAnswer unavailable x x' := by
  unfold installStandardPolicy Campaigns.installStandardDispositions at h
  simp only [Prog.runs_bind, Prog.runs_view, Prog.runs_raiseIf, Campaigns.runs_setCampaign, runs_recordAudit,
    and_assoc, exists_and_left, exists_eq_left, exists_const] at h
  obtain ⟨campaign, t, hk, hst, -, hempty, hn, hu, _, y, hy, rfl⟩ := h
  obtain ⟨hk, rfl⟩ := runs_managedCampaign hk
  obtain rfl : campaign.id = id := Table.key_of_find hk
  obtain ⟨rfl, hdistinct⟩ := insertDispositions_runs hy
  have hvalid : ∀ o : Option ℤ, ¬(o.any fun m => !validRetryDelay m) = true → ∀ m, o = some m →
      validRetryDelay m = true := by
    rintro o ho m rfl
    simpa using ho
  refine ⟨⟨campaign, hk, not_not.1 hst⟩, fun d hd hid => hempty ?_, hvalid _ hn, hvalid _ hu, ⟨_, rfl⟩, hdistinct⟩
  rw [List.any_eq_true]
  exact ⟨d, hd, by simp [hid]⟩

/-- The retry delay of an editable outcome of a draft is set. -/
structure SetsDelay (id : Uuid) (code : String) (minutes : ℤ) (row : CampaignDispositionDefinition) (x x' : Db) :
    Prop where
  editable : ∃ e, standardByCode code = some e ∧ e.retryDelayEditable = true
  draft : ∃ campaign, Table.find x.campaigns id = some campaign ∧ campaign.status = .draft
  valid : validRetryDelay minutes = true
  present : row ∈ x.dispositions
  ofCampaign : row.campaignId = id
  ofCode : row.stableSemanticCode = code
  effect : ∃ e, x' = Db.log e { x with
    dispositions := Table.modify x.dispositions row.id fun d => { d with retryDelayMinutes := some minutes } }

theorem updateRetryPolicy_runs {code : String} {minutes : ℤ}
    (h : (updateRetryPolicy c user id code minutes).Runs x u x') : ∃ row, SetsDelay id code minutes row x x' := by
  unfold updateRetryPolicy Campaigns.updateRetryPolicy Campaigns.setDisposition at h
  simp only [Prog.runs_bind, Prog.runs_view, Prog.runs_raiseIf, Prog.runs_expect, Prog.runs_update,
    runs_recordAudit, and_assoc, exists_and_left, exists_eq_left, exists_const] at h
  obtain ⟨campaign, t, hk, hedit, hst, hvalid, row, hrow, rfl⟩ := h
  obtain ⟨hk, rfl⟩ := runs_managedCampaign hk
  have hmem := mem_scan.1 (List.mem_of_head? hrow)
  simp only [List.mem_filter, Bool.and_eq_true, decide_eq_true_eq] at hmem
  obtain ⟨hrow, hid, hcode⟩ := hmem
  rw [Bool.not_eq_true', Bool.not_eq_false, Option.any_eq_true] at hedit
  exact ⟨row, hedit, ⟨campaign, hk, not_not.1 hst⟩, by simpa using hvalid, hrow,
    hid.trans (Table.key_of_find hk), hcode, ⟨_, rfl⟩⟩

/-! ## What the campaign service does to active campaigns -/

/-- No disposition changes, and no campaign becomes active. -/
structure Calm (x x' : Db) : Prop where
  dispositions : x'.dispositions = x.dispositions
  keys : x'.campaigns.map key = x.campaigns.map key
  active : ∀ k ∈ x'.campaigns, k.status = .active → k ∈ x.campaigns

theorem Calm.refl (x : Db) : Calm x x := ⟨rfl, rfl, fun _ h _ => h⟩

theorem Calm.trans {y : Db} (h : Calm x y) (h' : Calm y x') : Calm x x' :=
  ⟨h'.dispositions.trans h.dispositions, h'.keys.trans h.keys, fun k hk hst => h.active k (h'.active k hk hst) hst⟩

theorem Calm.unique (h : Calm x x') (hu : Table.Unique x.campaigns) : Table.Unique x'.campaigns :=
  Service.unique_of_keys h.keys hu

theorem Calm.of_campaigns (hd : x'.dispositions = x.dispositions) (hk : x'.campaigns = x.campaigns) : Calm x x' :=
  ⟨hd, by rw [hk], fun _ h _ => hk ▸ h⟩

theorem Calm.of_modify {campaign : Campaign} {f : Campaign → Campaign} (hu : Table.Unique x.campaigns)
    (hk : Table.find x.campaigns id = some campaign) (hf : ∀ k, (f k).id = k.id)
    (hst : (f campaign).status ≠ .active) (hd : x'.dispositions = x.dispositions)
    (hx' : x'.campaigns = Table.modify x.campaigns id f) : Calm x x' where
  dispositions := hd
  keys := by rw [hx', Table.keys_modify _ _ fun r hr => (hf r).trans hr]
  active k h hactive := by
    rw [hx', Table.mem_modify] at h
    rcases h with ⟨r, hr, hid, rfl⟩ | ⟨h, -⟩
    · rw [hu.eq hr (Table.mem_of_find hk) (hid.trans (Table.key_of_find hk).symm)] at hactive
      exact absurd hactive hst
    · exact h

theorem calm_of_moves {st st' : CampaignStatus} (hu : Table.Unique x.campaigns)
    (h : Service.MovesCampaign id st st' x x') (hst : st' ≠ .active) : Calm x x' := by
  obtain ⟨k, f, e, rfl, hk, -, hf, hfk⟩ := h
  exact .of_modify hu hk hf (hfk ▸ hst) rfl rfl

theorem calm_of_purges (hu : Table.Unique x.campaigns) (h : Service.Purges id x x') : Calm x x' := by
  obtain ⟨k, e, rfl, hk, hst⟩ := h
  refine .of_modify (f := fun k => { k with retentionDeleteAfter := none }) hu hk (fun _ => rfl) ?_ rfl rfl
  change k.status ≠ _
  rw [hst]
  decide

/-- Every request and task of the service but a launch. -/
theorem calm_of_effect {op : Service.Op} (hx : Service.Valid x) (hu : Table.Unique x.campaigns)
    (h : op.Effect x x') : Calm x x' ∨ ∃ c user id, op = .launchCampaign c user id := by
  cases op
  case launchCampaign c user id => exact Or.inr ⟨c, user, id, rfl⟩
  all_goals left
  case work op =>
    obtain ⟨a, h⟩ := h
    obtain ⟨held, h⟩ := Queue.effect_of_runs hx.wellFormed h
    have hg := (h.within hx.wellFormed).grows
    exact .of_campaigns hg.dispositions hg.campaigns
  case updateCampaign => exact calm_of_moves hu h (by decide)
  case pauseCampaign => exact calm_of_moves hu h (by decide)
  case archiveCampaign =>
    obtain ⟨st, -, -, h⟩ := h
    exact calm_of_moves hu h (by decide)
  case assignTeam | endTeamAssignment =>
    obtain ⟨ts, e, rfl⟩ := h
    exact .of_campaigns rfl rfl
  case assignAgent =>
    obtain ⟨a, e, rfl, -⟩ := h
    exact .of_campaigns rfl rfl
  case endAgentAssignment =>
    obtain ⟨a, e, rfl, -⟩ := h
    exact .of_campaigns rfl rfl
  case transferAgent =>
    obtain ⟨current, a, e, rfl, -⟩ := h
    exact .of_campaigns rfl rfl
  case uploadImport =>
    obtain ⟨j, e, rfl, -⟩ := h
    exact .of_campaigns rfl rfl
  case parseImport =>
    obtain rfl | ⟨job, f, rows, e, rfl, -⟩ := h
    · exact .refl _
    · exact .of_campaigns rfl rfl
  case decideImport =>
    obtain ⟨job, d, e, rfl, -⟩ := h
    exact .of_campaigns rfl rfl
  case cleanupImports =>
    clear hx hu
    induction h with
    | refl => exact .refl _
    | tail _ h ih =>
      obtain ⟨job, -, ⟨-, rfl⟩ | ⟨-, rfl⟩⟩ := h <;> exact ih.trans (.of_campaigns rfl rfl)
  case detectCompleted =>
    clear hx
    induction h with
    | refl => exact .refl _
    | tail _ h ih =>
      obtain ⟨k, f, ns, e, rfl, hk, -, hf, hst⟩ := h
      exact ih.trans (.of_modify (ih.unique hu) hk hf (by rw [hst]; decide) rfl rfl)
  case purgeExpired =>
    obtain ⟨h, -⟩ := h
    clear hx
    induction h with
    | refl => exact .refl _
    | tail _ h ih =>
      obtain ⟨campaign, h⟩ := h
      exact ih.trans (calm_of_purges (ih.unique hu) h)
  case deleteCampaignData => exact calm_of_purges hu h

/-- A launch reads the dispositions of a standard campaign first. -/
theorem launchCampaign_checked (h : (Service.launchCampaign c user id).Runs x u x') :
    ∃ campaign e, x' = Db.log e { x with campaigns := Table.modify x.campaigns id fun k => { k with
        status := .active, launchedAt := some (c.utcnow 0) } } ∧
      Table.find x.campaigns id = some campaign ∧
      (campaign.dispositionPolicyVersion = some policyVersion → standardPolicyErrors c x id = []) := by
  unfold Service.launchCampaign Campaigns.launchCampaign at h
  simp only [Prog.runs_bind, Prog.runs_raiseIf, Prog.runs_view, runs_requireEnabled] at h
  obtain ⟨k, _, hk, _, _, ⟨-, rfl⟩, _, _, ⟨-, rfl⟩, _, _, ⟨-, rfl⟩, _, _, ⟨rfl, rfl⟩, _, _, ⟨-, rfl⟩, h⟩ := h
  obtain ⟨hk, -, rfl⟩ := Service.runs_loadCampaign hk
  obtain rfl : k.id = id := Table.key_of_find hk
  split_ifs at h with hv
  · simp only [Prog.runs_bind, Prog.runs_raiseIf, Prog.runs_view, Campaigns.runs_setCampaign, runs_recordAudit] at h
    obtain ⟨_, _, ⟨rfl, rfl⟩, _, _, ⟨herrors, rfl⟩, _, _, rfl, rfl⟩ := h
    exact ⟨k, _, rfl, hk, fun _ => not_not.1 herrors⟩
  · simp only [Prog.runs_bind, Campaigns.runs_setCampaign, runs_recordAudit] at h
    obtain ⟨_, _, ⟨-, rfl⟩, _, _, rfl, rfl⟩ := h
    exact ⟨k, _, rfl, hk, fun h => absurd h hv⟩

/-! ## The policy of one campaign -/

theorem AddsDisposition.other {d : CampaignDispositionDefinition} (h : AddsDisposition id d x x') (hne : k ≠ id) :
    activeDispositions x' k = activeDispositions x k := by
  obtain ⟨e, rfl⟩ := h.effect
  change List.filter _ (x.dispositions ++ [d]) = _
  rw [List.filter_append]
  simp [activeDispositions, h.campaign, hne.symm]

/-- A campaign that has the policy loses it by any disposition that is added. -/
theorem AddsDisposition.breaks {d : CampaignDispositionDefinition} (h : AddsDisposition id d x x')
    (hp : HasStandardPolicy x id) : ¬HasStandardPolicy x' id := by
  rintro ⟨rows', hperm', hrows'⟩
  obtain ⟨rows, hperm, hrows⟩ := hp
  have hlength : (activeDispositions x' id).length = (activeDispositions x id).length + 1 := by
    obtain ⟨e, rfl⟩ := h.effect
    change (List.filter _ (x.dispositions ++ [d])).length = _
    rw [List.filter_append]
    simp [activeDispositions, h.campaign, h.active]
  rw [← hperm'.length_eq, ← hperm.length_eq, ← hrows.length_eq, ← hrows'.length_eq] at hlength
  omega

section Installs

variable {noAnswer unavailable : Option ℤ}

theorem Installs.other (h : Installs c id noAnswer unavailable x x') (hne : k ≠ id) :
    activeDispositions x' k = activeDispositions x k := by
  obtain ⟨e, rfl⟩ := h.effect
  change List.filter _ (x.dispositions ++ standardDispositions.mapIdx _) = List.filter _ x.dispositions
  rw [List.filter_append, List.append_right_eq_self, List.filter_eq_nil_iff]
  intro d hd
  obtain ⟨n, hn, rfl⟩ := List.mem_mapIdx.1 hd
  simp [standardRow, hne.symm]

/-- The installed rows are the campaign's only ones. -/
theorem Installs.policy (h : Installs c id noAnswer unavailable x x') : HasStandardPolicy x' id := by
  obtain ⟨e, rfl⟩ := h.effect
  refine ⟨standardDispositions.mapIdx fun n e => standardRow (c.uuid4 n) id noAnswer unavailable e, ?_, ?_⟩
  · change List.Perm _ (List.filter _ (x.dispositions ++ standardDispositions.mapIdx _))
    have hold : x.dispositions.filter (fun d => d.campaignId = id && d.active) = [] := by
      rw [List.filter_eq_nil_iff]
      intro d hd
      simp [h.empty d hd]
    rw [List.filter_append, hold, List.nil_append, List.filter_eq_self.2]
    intro d hd
    obtain ⟨n, hn, rfl⟩ := List.mem_mapIdx.1 hd
    simp [standardRow]
  · refine List.forall₂_iff_get.2 ⟨(List.length_mapIdx ..).symm, fun n hn hn' => ?_⟩
    rw [List.get_eq_getElem, List.get_eq_getElem, List.getElem_mapIdx]
    exact follows_standardRow (List.getElem_mem _) h.validNoAnswer h.validUnavailable

end Installs

section SetsDelay

variable {code : String} {minutes : ℤ} {row : CampaignDispositionDefinition}

theorem SetsDelay.active (h : SetsDelay id code minutes row x x') (k : Uuid) :
    activeDispositions x' k = Table.modify (activeDispositions x k) row.id
      fun d => { d with retryDelayMinutes := some minutes } := by
  obtain ⟨e, rfl⟩ := h.effect
  change List.filter _ (List.map _ x.dispositions) = List.map _ (List.filter _ x.dispositions)
  rw [List.filter_map]
  congr 1
  refine List.filter_congr fun d _ => ?_
  dsimp only [Function.comp]
  split_ifs <;> rfl

/-- An editable outcome still follows its entry, and the other rows are as they were. -/
theorem SetsDelay.policy (h : SetsDelay id code minutes row x x') (hd : Distinct x.dispositions)
    (hp : HasStandardPolicy x k) : HasStandardPolicy x' k := by
  obtain ⟨rows, hperm, hrows⟩ := hp
  refine ⟨Table.modify rows row.id fun d => { d with retryDelayMinutes := some minutes }, ?_, ?_⟩
  · rw [h.active]
    exact hperm.map _
  refine List.forall₂_map_right_iff.2 (List.forall₂_iff_get.2 ⟨hrows.length_eq, fun n hn hn' => ?_⟩)
  have hf := hrows.get hn hn'
  split_ifs with hid
  swap
  · exact hf
  -- the row of the request, so its entry is the editable one
  have hin := (mem_activeDispositions.1 (hperm.mem_iff.1 (List.get_mem rows ⟨n, hn'⟩))).1
  rw [hd.ids.eq hin h.present hid] at hf ⊢
  obtain ⟨e, he, hedit⟩ := h.editable
  rw [← h.ofCode, hf.code] at he
  obtain rfl := standardByCode_eq (List.get_mem standardDispositions ⟨n, hn⟩) he
  exact { hf with editable := fun _ => ⟨minutes, rfl, h.valid⟩, fixed := fun hfix => absurd (hedit.symm.trans hfix) (by decide) }

end SetsDelay

/-! ## Runs -/

/-- The keys of the tables that the policy is about, and what the service relies on. -/
structure Sound (x : Db) : Prop where
  valid : Service.Valid x
  campaigns : Table.Unique x.campaigns
  dispositions : Distinct x.dispositions

/-- Every active campaign under the standard policy has it. -/
def Standardized (x : Db) : Prop :=
  ∀ k ∈ x.campaigns, k.status = .active → k.dispositionPolicyVersion = some policyVersion → HasStandardPolicy x k.id

/-- An active campaign under the standard policy. -/
def standardActive (x : Db) (id : Uuid) : Bool :=
  x.campaigns.any fun k => k.id = id && k.status = .active && k.dispositionPolicyVersion = some policyVersion

/-- The request adds a disposition to the campaign. -/
def addsTo (campaign : Uuid) : Op → Bool
  | .createDisposition _ _ id _ => id = campaign
  | _ => false

/-- No disposition is added to an active campaign under the standard policy. -/
def Spared (x : Db) (op : Op) : Prop := ∀ id, addsTo id op = true → standardActive x id = false

theorem Sound.step {op : Op} {a : Result} (hx : Sound x) (h : (body op).Runs x a x') : Sound x' := by
  cases op <;> obtain ⟨b, h, -⟩ := Prog.runs_map.1 h
  case service op =>
    have he := hx.valid.effect h
    refine ⟨hx.valid.step he, ?_, ?_⟩
    · rcases calm_of_effect hx.valid hx.campaigns he with hc | ⟨c, user, id, rfl⟩
      · exact hc.unique hx.campaigns
      · obtain ⟨k, f, e, rfl, -, -, hf, -⟩ := he
        exact hx.campaigns.modify _ fun r hr => (hf r).trans hr
    · rcases calm_of_effect hx.valid hx.campaigns he with hc | ⟨c, user, id, rfl⟩
      · exact hc.dispositions ▸ hx.dispositions
      · obtain ⟨k, f, e, rfl, -⟩ := he
        exact hx.dispositions
  case createCampaign =>
    obtain ⟨campaign, e, rfl, hfree, -⟩ := createCampaign_runs h
    exact ⟨⟨{ hx.valid.wellFormed with }, hx.valid.importJobs⟩, hx.campaigns.append hfree, hx.dispositions⟩
  case createDisposition =>
    obtain ⟨d, hd⟩ := createDisposition_runs h
    obtain ⟨e, rfl⟩ := hd.effect
    exact ⟨⟨{ hx.valid.wellFormed with }, hx.valid.importJobs⟩, hx.campaigns,
      hx.dispositions.insert hd.fresh hd.code⟩
  case installStandardPolicy =>
    have hi := installStandardPolicy_runs h
    have hd := hi.distinct hx.dispositions
    obtain ⟨e, rfl⟩ := hi.effect
    exact ⟨⟨{ hx.valid.wellFormed with }, hx.valid.importJobs⟩, hx.campaigns.modify _ fun _ h => h, hd⟩
  case updateRetryPolicy =>
    obtain ⟨row, hs⟩ := updateRetryPolicy_runs h
    obtain ⟨e, rfl⟩ := hs.effect
    exact ⟨⟨{ hx.valid.wellFormed with }, hx.valid.importJobs⟩, hx.campaigns,
      hx.dispositions.modify _ (fun _ => rfl) (fun _ => rfl) fun _ => rfl⟩

/-- A campaign keeps the policy through every request that adds no disposition to it. -/
theorem policy_step {op : Op} {a : Result} (hx : Sound x) (h : (body op).Runs x a x') (hp : HasStandardPolicy x k)
    (hop : addsTo k op = false) : HasStandardPolicy x' k := by
  cases op with
  | service op =>
    obtain ⟨b, h, -⟩ := Prog.runs_map.1 h
    have he := hx.valid.effect h
    rcases calm_of_effect hx.valid hx.campaigns he with hc | ⟨c, user, id, rfl⟩
    · exact hp.same hc.dispositions
    · obtain ⟨k, f, e, rfl, -⟩ := he
      exact hp.same rfl
  | createCampaign c user fields =>
    obtain ⟨b, h, -⟩ := Prog.runs_map.1 h
    obtain ⟨campaign, e, rfl, -⟩ := createCampaign_runs h
    exact hp.same rfl
  | createDisposition c user id fields =>
    obtain ⟨b, h, -⟩ := Prog.runs_map.1 h
    obtain ⟨d, hd⟩ := createDisposition_runs h
    exact hp.congr (hd.other (Ne.symm (of_decide_eq_false hop)))
  | installStandardPolicy c user id noAnswer unavailable =>
    obtain ⟨b, h, -⟩ := Prog.runs_map.1 h
    have hi := installStandardPolicy_runs h
    by_cases hne : k = id
    · exact hne ▸ hi.policy
    · exact hp.congr (hi.other hne)
  | updateRetryPolicy c user id code minutes =>
    obtain ⟨b, h, -⟩ := Prog.runs_map.1 h
    obtain ⟨row, hs⟩ := updateRetryPolicy_runs h
    exact hs.policy hx.dispositions hp

/-- An active campaign under the standard policy was active before, or its launch validated it. -/
theorem active_back {op : Op} {a : Result} (hx : Sound x) (h : (body op).Runs x a x') {campaign : Campaign}
    (hk : campaign ∈ x'.campaigns) (hst : campaign.status = .active)
    (hv : campaign.dispositionPolicyVersion = some policyVersion) :
    campaign ∈ x.campaigns ∨ (HasStandardPolicy x campaign.id ∧ ∀ id, addsTo id op = false) := by
  cases op with
  | service op =>
    obtain ⟨b, h, -⟩ := Prog.runs_map.1 h
    rcases calm_of_effect hx.valid hx.campaigns (hx.valid.effect h) with hc | ⟨c, user, id, rfl⟩
    · exact Or.inl (hc.active campaign hk hst)
    obtain ⟨_, h, -⟩ := Prog.runs_map.1 h
    obtain ⟨launched, e, rfl, hl, herrors⟩ := launchCampaign_checked h
    rcases Table.mem_modify.1 hk with ⟨r, hr, hid, rfl⟩ | ⟨hk, -⟩
    · obtain rfl := hx.campaigns.eq hr (Table.mem_of_find hl) (hid.trans (Table.key_of_find hl).symm)
      obtain rfl : r.id = id := hid
      exact Or.inr ⟨(standardPolicyErrors_eq_nil hx.dispositions).1 (herrors hv), fun _ => rfl⟩
    · exact Or.inl hk
  | createCampaign c user fields =>
    obtain ⟨b, h, -⟩ := Prog.runs_map.1 h
    obtain ⟨new, e, rfl, -, hdraft⟩ := createCampaign_runs h
    rcases List.mem_append.1 hk with hk | hk
    · exact Or.inl hk
    · rw [List.mem_singleton.1 hk, hdraft] at hst
      cases hst
  | createDisposition c user id fields =>
    obtain ⟨b, h, -⟩ := Prog.runs_map.1 h
    obtain ⟨d, hd⟩ := createDisposition_runs h
    obtain ⟨e, rfl⟩ := hd.effect
    exact Or.inl hk
  | installStandardPolicy c user id noAnswer unavailable =>
    obtain ⟨b, h, -⟩ := Prog.runs_map.1 h
    have hi := installStandardPolicy_runs h
    obtain ⟨draft, hfind, hdraft⟩ := hi.draft
    obtain ⟨e, rfl⟩ := hi.effect
    rcases Table.mem_modify.1 hk with ⟨r, hr, hid, rfl⟩ | ⟨hk, -⟩
    · obtain rfl := hx.campaigns.eq hr (Table.mem_of_find hfind) (hid.trans (Table.key_of_find hfind).symm)
      exact absurd (hdraft.symm.trans hst) (by decide)
    · exact Or.inl hk
  | updateRetryPolicy c user id code minutes =>
    obtain ⟨b, h, -⟩ := Prog.runs_map.1 h
    obtain ⟨row, hs⟩ := updateRetryPolicy_runs h
    obtain ⟨e, rfl⟩ := hs.effect
    exact Or.inl hk

theorem standardActive_of_mem {campaign : Campaign} (hk : campaign ∈ x.campaigns) (hst : campaign.status = .active)
    (hv : campaign.dispositionPolicyVersion = some policyVersion) : standardActive x campaign.id = true := by
  rw [standardActive, List.any_eq_true]
  exact ⟨campaign, hk, by simp [hst, hv]⟩

theorem standardized_step {op : Op} {a : Result} (hx : Sound x) (hs : Standardized x) (hop : Spared x op)
    (h : (body op).Runs x a x') : Standardized x' := by
  intro campaign hk hst hv
  rcases active_back hx h hk hst hv with hk | ⟨hp, hadds⟩
  · refine policy_step hx h (hs campaign hk hst hv) ?_
    by_contra hadds
    rw [Bool.not_eq_false] at hadds
    exact absurd (hop _ hadds) (by simp [standardActive_of_mem hk hst hv])
  · exact policy_step hx h hp (hadds _)

/-- What no run of requests breaks. -/
theorem sound_of_serial {ok : Db → Op → Prop} {v : Db} (hv : Sound v) (h : Prog.Serial body ok v x) : Sound x :=
  Prog.Serial.invariant (fun _ _ _ _ hs _ hr => Sound.step hs hr) h hv

theorem standardized_of_serial {v : Db} (hv : Sound v) (hs : Standardized v) (h : Prog.Serial body Spared v x) :
    Standardized x :=
  (Prog.Serial.invariant (I := fun x => Sound x ∧ Standardized x)
    (fun _ _ _ _ hi hop hr => ⟨hi.1.step hr, standardized_step hi.1 hi.2 hop hr⟩) h ⟨hv, hs⟩).2

/-- The standard outcomes hold as long as no disposition is added to an active campaign that
has them, an installation lasts until one is added, and any that is added breaks them. -/
theorem standard_policy_kept {v : Db} (hv : Sound v) (hs : Standardized v) :
    (∀ x, Prog.Serial body Spared v x → ∀ k ∈ x.campaigns, k.status = .active →
      k.dispositionPolicyVersion = some policyVersion →
        HasStandardPolicy x k.id ∧ ∀ c, standardPolicyErrors c x k.id = []) ∧
    (∀ x, Prog.Serial body (fun _ _ => True) v x → ∀ c user id noAnswer unavailable u y,
      (installStandardPolicy c user id noAnswer unavailable).Runs x u y → ∀ z,
        Prog.Serial body (fun _ op => addsTo id op = false) y z →
          HasStandardPolicy z id ∧ ∀ c, standardPolicyErrors c z id = []) ∧
    ∀ x, Prog.Serial body Spared v x → ∀ c user id fields u y,
      (createDisposition c user id fields).Runs x u y → standardActive x id = true → ¬Standardized y := by
  refine ⟨fun x hx k hk hst hpv => ?_, fun x hx c user id noAnswer unavailable u y hi z hz => ?_,
    fun x hx c user id fields u y hr hactive hy => ?_⟩
  · have hp := standardized_of_serial hv hs hx k hk hst hpv
    exact ⟨hp, fun c => (standardPolicyErrors_eq_nil (sound_of_serial hv hx).dispositions).2 hp⟩
  · have hr : (body (.installStandardPolicy c user id noAnswer unavailable)).Runs x .done y :=
      Prog.runs_map.2 ⟨u, hi, rfl⟩
    have hy : Sound y := (sound_of_serial hv hx).step hr
    obtain ⟨hz', hp⟩ := Prog.Serial.invariant (I := fun x => Sound x ∧ HasStandardPolicy x id)
      (fun _ _ _ _ hi hop hr => ⟨hi.1.step hr, policy_step hi.1 hr hi.2 hop⟩) hz
      ⟨hy, (installStandardPolicy_runs hi).policy⟩
    exact ⟨hp, fun c => (standardPolicyErrors_eq_nil hz'.dispositions).2 hp⟩
  · rw [standardActive, List.any_eq_true] at hactive
    obtain ⟨k, hk, hc⟩ := hactive
    simp only [Bool.and_eq_true, decide_eq_true_eq] at hc
    obtain ⟨⟨rfl, hst⟩, hpv⟩ := hc
    obtain ⟨d, hd⟩ := createDisposition_runs hr
    have hp := standardized_of_serial hv hs hx k hk hst hpv
    obtain ⟨e, rfl⟩ := hd.effect
    exact hd.breaks hp (hy k hk hst hpv)

namespace Demo

/-- A draft with one contact, and its manager 7. -/
def draft : Db := { Queue.Demo.importDb with
  campaigns := [{
    id := 1, purpose := some "sales", dataSource := some "fair", dataObtainedAt := some 0
    lawfulBasisOrConsentReference := some "consent" }]
  contacts := [{ id := 10, phoneCiphertext := "c", phoneFingerprint := "f" }]
  campaignContacts := [{ id := 20, campaignId := 1, contactId := 10 }]
  workItems := [{ id := 30, campaignContactId := 20 }]
  flags := [⟨campaignLaunchEnabled, true⟩] }

/-- The manager installs the standard outcomes with a delay of their own, then launches. -/
def launch : List Op :=
  [.installStandardPolicy (Queue.Demo.call 1) 7 1 (some 90) none,
    .updateRetryPolicy (Queue.Demo.call 2) 7 1 "unavailable" 15,
    .service (.launchCampaign (Queue.Demo.call 3) 7 1)]

/-- An outcome of the manager's own. -/
def freeForm : Op := .createDisposition (Queue.Demo.call 4) 7 1 {
  id := 0, campaignId := 1, label := "Wrong Number", stableSemanticCode := "wrong_number"
  nextAction := some .complete }

theorem draft_sound : Sound draft where
  valid := ⟨.of_mem (by decide) (by decide) (by decide) (by decide) (by decide) (by decide), by decide⟩
  campaigns := by decide
  dispositions := ⟨by decide, by decide⟩

theorem draft_standardized : Standardized draft := fun k hk hst => absurd hst (by revert k; decide)

end Demo

theorem standard_policy_kept_launched :
    standardActive (Prog.serially body Demo.draft Demo.launch) 1 = true ∧
    ∀ k ∈ (Prog.serially body Demo.draft Demo.launch).campaigns, k.status = .active →
      k.dispositionPolicyVersion = some policyVersion →
        HasStandardPolicy (Prog.serially body Demo.draft Demo.launch) k.id ∧
          ∀ c, standardPolicyErrors c (Prog.serially body Demo.draft Demo.launch) k.id = [] := by
  refine ⟨by decide +kernel, (standard_policy_kept Demo.draft_sound Demo.draft_standardized).1 _ ?_⟩
  refine Prog.serial_serially (fun op hop s id hadds => ?_) _
  simp only [Demo.launch, List.mem_cons, List.not_mem_nil, or_false] at hop
  rcases hop with rfl | rfl | rfl <;> cases hadds

/-- The launched campaign offers an eighth outcome, which its own validation reports. -/
theorem free_form_outcome_added : ∃ x, Prog.Serial body (fun _ _ => True) Demo.draft x ∧
    ∃ k ∈ x.campaigns, k.status = .active ∧ k.dispositionPolicyVersion = some policyVersion ∧
      standardPolicyErrors (Queue.Demo.call 5) x k.id =
        ["unexpected active disposition present: 'wrong_number'"] :=
  ⟨Prog.serially body Demo.draft (Demo.launch ++ [Demo.freeForm]), Prog.serial_serially (fun _ _ _ => trivial) _,
    by decide +kernel⟩

end OmniDB.Setup
