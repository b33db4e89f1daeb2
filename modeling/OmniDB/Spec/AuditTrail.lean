import OmniDB.Spec.Directory

/-! The scope of the audit listing, `app/api/admin.py`. -/

namespace OmniDB.AuditTrail

open Authz Directory

/-- `audit_visibility`: whether the actor sees every event, and the teams whose members' events
the actor sees. -/
def auditVisibility (db : Db) (now : Time) (actor : Uuid) : Bool × List Uuid :=
  let grants := (effectiveRoleAssignments db now actor).filter fun ra =>
    (roleCapabilities ra.roleCode).contains .viewAudit
  let seesEveryone := grants.any fun ra =>
    ra.scopeType = .installation || (ra.scopeType = .organization && ra.scopeId.isNone)
  (seesEveryone, grants.filterMap fun ra => if ra.scopeType = .team then ra.scopeId else none)

/-- The events that `list_visible_audit_events` selects from, before its filters and its limit. -/
def visibleAuditEvents (db : Db) (now : Time) (actor : Uuid) : List AuditEvent :=
  let scope := auditVisibility db now actor
  if scope.1 then db.audit
  else db.audit.filter fun e => e.actorUserId.any fun user => user = actor || memberOfAny db scope.2 user

end OmniDB.AuditTrail
