import SensorRemote.Core

/-!
# Audit events

What an endpoint puts into its signed history (`sensor-audit`).
-/

namespace SensorRemote

/-- `sensor_audit::Action`. -/
inductive AuditAction where
  | connectionRequested
  | sessionAccepted
  | sessionRejected
  | sessionDisconnected
  | permissionChanged
  | fileOffered
  | fileCompleted
  | fileCancelled
  | fileFailed
  deriving DecidableEq, Repr

/-- `sensor_audit::Outcome`. -/
inductive AuditOutcome where
  | success
  | denied
  | failed
  deriving DecidableEq, Repr

/-- `sensor_audit::Event`. -/
structure AuditEvent where
  actor : DeviceId
  target : DeviceId
  action : AuditAction
  outcome : AuditOutcome
  bytes : ℕ
  deriving DecidableEq

/-- `AuditError`. -/
inductive AuditError where
  | io
  | json
  | invalid
  deriving DecidableEq, Repr

end SensorRemote
