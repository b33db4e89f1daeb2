import OmniDB.Spec.Db

/-! Effective-dated roles, delegations and capability checks, `app/authz`. A check is
one statement: it reads the state it sees and decides. -/

namespace OmniDB.Authz

open Tx

/-- `ROLE_CAPABILITIES`. -/
def roleCapabilities : Role → List Capability
  | .superAdmin => [.technicalConfig, .resetUserAuth, .viewAudit, .createManager, .manageRoles]
  | .manager => [.appointTeamLeader, .appointTeamCaptain, .createAgent, .manageRoles,
      .createCampaign, .viewCampaign, .manageCampaign, .pauseCampaign, .launchCampaign,
      .archiveCampaign, .assignCampaignAgent, .viewCampaignReports, .exportCompletedCampaign,
      .viewAudit]
  | .teamLeader => [.appointTeamCaptain, .createAgent, .createCampaign, .viewCampaign,
      .manageCampaign, .pauseCampaign, .assignCampaignAgent, .viewCampaignReports,
      .exportCompletedCampaign, .viewAudit]
  | .teamCaptain => [.createAgent, .viewCampaign, .assignCampaignAgent, .viewCampaignReports,
      .exportCompletedCampaign, .viewAudit]
  | .agent => [.workQueue]
  | .viewer => [.viewCampaign, .viewCampaignReports]
  | .other _ => []

/-- `_ScopedGrant`: anything that grants a capability at a scope. -/
structure Grant where
  scopeType : ScopeType
  scopeId : Option Uuid
deriving DecidableEq

def effectiveRoleAssignments (db : Db) (now : Time) (user : Uuid) : List RoleAssignment :=
  db.roleAssignments.filter fun ra =>
    ra.userId = user && ra.status = .active && effectiveAt ra.effectiveFrom ra.effectiveTo now

def activeDelegations (db : Db) (now : Time) (user : Uuid) : List Delegation :=
  db.delegations.filter fun d =>
    d.delegateUserId = user && d.revokedAt.isNone && effectiveAt d.effectiveFrom d.effectiveTo now

def roleCapabilityGrants (db : Db) (now : Time) (user : Uuid) (cap : Capability) : List Grant :=
  ((effectiveRoleAssignments db now user).filter fun ra =>
    (roleCapabilities ra.roleCode).contains cap).map fun ra => ⟨ra.scopeType, ra.scopeId⟩

def teamOrganization (db : Db) (team : Option Uuid) : Option Uuid :=
  ((team.bind (Table.find db.teams)).filter Team.active).map Team.organizationId

/-- `_scope_covered_by_assignment`, with the team's organization resolved from `db`. -/
def scopeCovered (db : Db) (g : Grant) (scopeType : ScopeType) (scopeId : Option Uuid) : Bool :=
  match g.scopeType with
  | .installation => true
  | .organization =>
    g.scopeId.isNone || (scopeType = .organization && g.scopeId = scopeId) ||
      (scopeType = .team && scopeId.isSome && teamOrganization db scopeId = g.scopeId)
  | _ => g.scopeType = scopeType && g.scopeId = scopeId

def hasScopeCapabilityViaRole (db : Db) (now : Time) (user : Uuid) (cap : Capability)
    (scopeType : ScopeType) (scopeId : Option Uuid) : Bool :=
  (roleCapabilityGrants db now user cap).any fun g => scopeCovered db g scopeType scopeId

/-- `_delegation_still_backed`. -/
def delegationStillBacked (db : Db) (now : Time) (d : Delegation) (cap : Capability) : Bool :=
  hasScopeCapabilityViaRole db now d.delegatorUserId cap d.scopeType d.scopeId

/-- `_capability_grants`: the user's own roles and the delegations the user holds. -/
def capabilityGrants (db : Db) (now : Time) (user : Uuid) (cap : Capability) : List Grant :=
  roleCapabilityGrants db now user cap ++
    ((activeDelegations db now user).filter fun d =>
      d.capabilitySet.contains cap && delegationStillBacked db now d cap).map
        fun d => ⟨d.scopeType, d.scopeId⟩

/-- `has_scope_capability`. -/
def hasScopeCapability (db : Db) (now : Time) (user : Uuid) (cap : Capability)
    (scopeType : ScopeType) (scopeId : Option Uuid) : Bool :=
  (capabilityGrants db now user cap).any fun g => scopeCovered db g scopeType scopeId

/-- `has_assigned_capability`. -/
def hasAssignedCapability (db : Db) (now : Time) (user : Uuid) (cap : Capability) : Bool :=
  !(capabilityGrants db now user cap).isEmpty

/-- `users_with_any_capability`. -/
def usersWithAnyCapability (db : Db) (now : Time) (caps : List Capability) : List Uuid :=
  let holders := db.roleAssignments.filter fun ra => ra.status = .active &&
    effectiveAt ra.effectiveFrom ra.effectiveTo now && caps.any (roleCapabilities ra.roleCode).contains
  let delegations := db.delegations.filter fun d => d.revokedAt.isNone &&
    effectiveAt d.effectiveFrom d.effectiveTo now &&
    caps.any fun cap => d.capabilitySet.contains cap && delegationStillBacked db now d cap
  (holders.map RoleAssignment.userId ++ delegations.map Delegation.delegateUserId).dedup

/-- `_scope_covers`. -/
def scopeCovers (g : Grant) (scopeType : Option ScopeType) (scopeId : Option Uuid) : Bool :=
  match g.scopeType, scopeType with
  | .installation, _ => true
  | .organization, none => true
  | _, none => false
  | .organization, some t => g.scopeId.isNone || (t = .organization && g.scopeId = scopeId)
  | gt, some t => gt = t && g.scopeId = scopeId

/-- `has_capability`. -/
def hasCapability (db : Db) (now : Time) (user : Uuid) (cap : Capability)
    (scopeType : Option ScopeType) (scopeId : Option Uuid) : Bool :=
  (capabilityGrants db now user cap).any fun g => scopeCovers g scopeType scopeId

/-- The team owns the campaign or is actively assigned to it. -/
def teamReaches (db : Db) (now : Time) (campaign : Campaign) (team : Option Uuid → Bool) : Bool :=
  (campaign.owningScopeType = .team && team campaign.owningScopeId) ||
    db.teamAssignments.any fun a => a.campaignId = campaign.id && a.status = .active &&
      effectiveAt a.effectiveFrom a.effectiveTo now && team (some a.teamId)

/-- One grant's part of `campaign_scope_filter`. -/
def grantReachesCampaign (db : Db) (now : Time) (campaign : Campaign) (g : Grant) : Bool :=
  match g.scopeType, g.scopeId with
  | .installation, _ => true
  | .organization, none => true
  | .campaign, some id => campaign.id = id
  | .team, some id => teamReaches db now campaign fun t => t = some id
  | .organization, some id =>
    (campaign.owningScopeType = .organization && campaign.owningScopeId = some id) ||
      teamReaches db now campaign fun t => teamOrganization db t = some id
  | _, _ => false

/-- `has_campaign_capability`. -/
def hasCampaignCapability (db : Db) (now : Time) (user : Uuid) (cap : Capability)
    (campaign : Uuid) : Bool :=
  (Table.find db.campaigns campaign).any fun cmp =>
    (capabilityGrants db now user cap).any (grantReachesCampaign db now cmp)

/-! ## Bulk checks -/

/-- `itertools.batched`: chunks of `n`, the last one may be shorter; `fuel` bounds their number. -/
def batchedFuel {α : Type} (n : ℕ) : ℕ → List α → List (List α)
  | 0, _ => []
  | fuel + 1, xs => if xs.isEmpty then [] else xs.take n :: batchedFuel n fuel (xs.drop n)

def batched {α : Type} (n : ℕ) (xs : List α) : List (List α) := batchedFuel n xs.length xs

/-- `_BULK_CHUNK_SIZE`. -/
def bulkChunkSize : ℕ := 1000

/-- `_scope_covered_by_assignment`, with the organizations of teams resolved by the caller. -/
def scopeCoveredByAssignment (organizations : List (Uuid × Uuid)) (g : Grant) (scopeType : ScopeType)
    (scopeId : Option Uuid) : Bool :=
  match g.scopeType with
  | .installation => true
  | .organization =>
    if g.scopeId.isNone then true
    else if scopeType = .organization then g.scopeId = scopeId
    else match scopeType, scopeId with
      | .team, some team => organizations.lookup team = g.scopeId
      | _, _ => false
  | _ => g.scopeType = scopeType && g.scopeId = scopeId

/-- The organization of every active team among `teams`, one statement for each chunk. -/
def teamOrganizationIds (db : Db) (chunk : ℕ) (teams : List Uuid) : List (Uuid × Uuid) :=
  (batched chunk teams).flatMap fun ids =>
    (db.teams.filter fun t => ids.contains t.id && t.active).map fun t => (t.id, t.organizationId)

/-- `scope_capabilities_matched`. A set is the list of its elements; `chunk` is `_BULK_CHUNK_SIZE`. -/
def scopeCapabilitiesMatched (chunk : ℕ) (db : Db) (now : Time) (user : Uuid) (cap : Capability)
    (scopeRequests : List (ScopeType × Option Uuid)) : List (ScopeType × Option Uuid) :=
  let requests := scopeRequests.dedup
  let grants := capabilityGrants db now user cap
  if requests.isEmpty || grants.isEmpty then []
  else
    let needsTeamAncestry := grants.any fun g => g.scopeType = .organization && g.scopeId.isSome
    let teamIds := (requests.filterMap fun r => if r.1 = .team then r.2 else none).dedup
    let organizations := if needsTeamAncestry then teamOrganizationIds db chunk teamIds else []
    requests.filter fun r => grants.any fun g => scopeCoveredByAssignment organizations g r.1 r.2

/-- `campaign_ids_with_capability`. -/
def campaignIdsWithCapability (chunk : ℕ) (db : Db) (now : Time) (user : Uuid) (cap : Capability)
    (campaignIds : List Uuid) : List Uuid :=
  let scopeFilter := fun cmp => (capabilityGrants db now user cap).any (grantReachesCampaign db now cmp)
  (batched chunk campaignIds.dedup).flatMap fun ids =>
    (db.campaigns.filter fun cmp => ids.contains cmp.id && scopeFilter cmp).map Campaign.id

def setSession (id : Uuid) (f : UserSession → UserSession) : Txn Unit := do
  Prog.acquire (.session id)
  Prog.update fun db => { db with sessions := Table.modify db.sessions id f }

def revoked (now : Time) (s : UserSession) : UserSession := { s with revokedAt := some now }

/-- `revoke_all_for_user`, `invalidate_sessions_on_privilege_change`: the sessions that the
statement sees, updated in the order of their keys. -/
def revokeAllForUser (now : Time) (user : Uuid) : Txn Unit := do
  let db ← Prog.view "sessions of user"
  (orderBy (fun s s' => s.id ≤ s'.id) (db.sessions.filter fun s =>
    s.userId = user && s.revokedAt.isNone)).forM fun s => setSession s.id (revoked now)

/-- `invalidate_delegate_sessions_for_delegator`. -/
def invalidateDelegateSessionsForDelegator (now : Time) (delegator : Uuid) : Txn Unit := do
  let db ← Prog.view "delegations"
  (db.delegations.filter fun d => d.delegatorUserId = delegator && d.revokedAt.isNone &&
    effectiveAt d.effectiveFrom d.effectiveTo now).forM fun d => revokeAllForUser now d.delegateUserId

end OmniDB.Authz
