import AgentOrchestrator.Json

/-!
# The durable records

The records `DurableStore` keeps in its state file, field by field.  An optional field of the
source is an `Option`; `delete worker.field` is `none`.  A flag is an optional boolean and is
raised when it is `some true`.  Timestamps are the texts `toISOString` prints.
-/

namespace AgentOrchestrator.Store

/-- The texts `toISOString` prints; they compare as strings. -/
abbrev Timestamp := String

inductive WorkerStatus where
  | requested | running | canceling | succeeded | failed | canceled | unknownOutcome
  deriving DecidableEq

/-- The statuses a terminal record may ask for. -/
inductive TerminalWorkerStatus where
  | succeeded | failed | canceled | unknownOutcome
  deriving DecidableEq

def TerminalWorkerStatus.status : TerminalWorkerStatus → WorkerStatus
  | .succeeded => .succeeded
  | .failed => .failed
  | .canceled => .canceled
  | .unknownOutcome => .unknownOutcome

def TerminalWorkerStatus.text : TerminalWorkerStatus → String
  | .succeeded => "succeeded"
  | .failed => "failed"
  | .canceled => "canceled"
  | .unknownOutcome => "unknown_outcome"

/-- `DurableStore.isTerminal`: `unknown_outcome` is not terminal. -/
def WorkerStatus.isTerminal : WorkerStatus → Bool
  | .succeeded | .failed | .canceled => true
  | .requested | .running | .canceling | .unknownOutcome => false

structure WorkerAttribution where
  agent : String
  task : String
  deriving DecidableEq

/-- Evidence that arrived after a worker was already terminal. -/
structure LateObservation where
  observedAt : Timestamp
  status : String
  retainedResult : Bool
  deriving DecidableEq

structure Worker where
  id : String
  batchId : String
  sessionId : String
  pid : Option ℕ := none
  processStartedAt : Option String := none
  status : WorkerStatus
  attribution : WorkerAttribution
  startedAt : Timestamp
  completedAt : Option Timestamp := none
  result : Option Json := none
  position : Option ℕ := none
  runId : Option String := none
  stopReason : Option String := none
  stopDetail : Option String := none
  cancelRequestedAt : Option Timestamp := none
  preCancelStatus : Option WorkerStatus := none
  deadlineAt : Option Timestamp := none
  lifecycleReconcilePending : Option Bool := none
  cancellationDeliveryPending : Option Bool := none
  cancellationDeliveryClaimed : Option Bool := none
  cancellationDelivered : Option Bool := none
  providerStopPending : Option Bool := none
  providerStopClaimed : Option Bool := none
  providerStopUnsupported : Option Bool := none
  lateObservations : Option (List LateObservation) := none
  deriving DecidableEq

structure Session where
  id : String
  clientId : String
  createdAt : Timestamp
  lastSeenAt : Timestamp
  deriving DecidableEq

structure Batch where
  id : String
  name : String
  sessionId : String
  createdAt : Timestamp
  updatedAt : Timestamp
  idempotencyKey : Option String := none
  clientId : Option String := none
  requestFingerprint : Option String := none
  deriving DecidableEq

inductive DiagnosticKind where
  | orphan | unknownOutcome | missingResult
  deriving DecidableEq

def DiagnosticKind.text : DiagnosticKind → String
  | .orphan => "orphan"
  | .unknownOutcome => "unknown_outcome"
  | .missingResult => "missing_result"

structure Diagnostic where
  id : String
  kind : DiagnosticKind
  workerId : String
  message : String
  detectedAt : Timestamp
  deriving DecidableEq

inductive AssignmentLaunchStatus where
  | accepted | launching | launched | failed
  deriving DecidableEq

structure Assignment where
  id : String
  idempotencyKey : String
  requestFingerprint : String
  batchId : String
  sessionId : String
  status : AssignmentLaunchStatus
  attribution : WorkerAttribution
  prompt : String
  workspaceId : Option String := none
  workspacePath : String
  attemptId : Option String := none
  attempt : Option ℕ := none
  acceptedAt : Timestamp
  updatedAt : Timestamp
  runId : Option String := none
  error : Option String := none
  errorCode : Option String := none
  deriving DecidableEq

inductive ResultClaimStatus where
  | succeeded | failed | cancelled | stoppedWithoutResult | malformed
  deriving DecidableEq

def ResultClaimStatus.text : ResultClaimStatus → String
  | .succeeded => "succeeded"
  | .failed => "failed"
  | .cancelled => "cancelled"
  | .stoppedWithoutResult => "stopped_without_result"
  | .malformed => "malformed"

inductive ResultCompleteness where
  | complete | empty | partly | missing | malformed
  deriving DecidableEq

def ResultCompleteness.text : ResultCompleteness → String
  | .complete => "complete"
  | .empty => "empty"
  | .partly => "partial"
  | .missing => "missing"
  | .malformed => "malformed"

structure ResumeMetadata where
  adapter : String
  token : String
  deriving DecidableEq

structure AgentResultClaim where
  status : ResultClaimStatus
  completeness : ResultCompleteness
  output : Option String := none
  error : Option String := none
  retryable : Option Bool := none
  stopReason : Option String := none
  resume : Option ResumeMetadata := none
  deriving DecidableEq

/-- A delivered result.  `verifiedArtifacts` is always the empty tuple and is left out. -/
structure CapturedResult where
  deliveryId : String
  deliveryFingerprint : String
  assignmentId : String
  batchId : String
  sessionId : String
  workspaceId : Option String
  workspacePath : String
  attemptId : String
  attempt : ℕ
  runId : String
  attribution : WorkerAttribution
  claim : AgentResultClaim
  capturedAt : Timestamp
  deriving DecidableEq

inductive LaunchAuditType where
  | launchAccepted | launchReserved | executionStarted | launchFailed
  deriving DecidableEq

def LaunchAuditType.text : LaunchAuditType → String
  | .launchAccepted => "launch_accepted"
  | .launchReserved => "launch_reserved"
  | .executionStarted => "execution_started"
  | .launchFailed => "launch_failed"

structure LaunchAuditEvent where
  id : String
  assignmentId : String
  type : LaunchAuditType
  occurredAt : Timestamp
  runId : Option String := none
  error : Option String := none
  errorCode : Option String := none
  deriving DecidableEq

inductive AuditDecision where
  | allowed | denied | failed
  deriving DecidableEq

def AuditDecision.text : AuditDecision → String
  | .allowed => "allowed"
  | .denied => "denied"
  | .failed => "failed"

/-- What a caller supplies for a security audit event. -/
structure SecurityAuditInput where
  requesterId : String
  operation : String
  decision : AuditDecision
  reasonCode : String
  correlationId : String
  workspaceId : Option String := none
  projectId : Option String := none
  assignmentId : Option String := none
  deriving DecidableEq

/-- A security audit event without its own hash. -/
structure SecurityAuditBody extends SecurityAuditInput where
  id : String
  sequence : ℕ
  occurredAt : Timestamp
  policyVersion : String
  previousEventHash : String
  deriving DecidableEq

structure SecurityAuditEvent extends SecurityAuditBody where
  eventHash : String
  deriving DecidableEq

structure SecurityAuditHead where
  sequence : ℕ
  eventHash : String
  deriving DecidableEq

inductive LaunchStatus where
  | reserved | dispatching | unknownOutcome | bound
  deriving DecidableEq

def LaunchStatus.text : LaunchStatus → String
  | .reserved => "reserved"
  | .dispatching => "dispatching"
  | .unknownOutcome => "unknown_outcome"
  | .bound => "bound"

structure LaunchIntent where
  idempotencyKey : String
  requestHash : String
  sessionId : String
  batchId : String
  workerId : String
  workspaceId : Option String := none
  attribution : WorkerAttribution
  status : LaunchStatus
  createdAt : Timestamp
  updatedAt : Timestamp
  runId : Option String := none
  diagnostic : Option String := none
  deriving DecidableEq

/-- The content of the state file; the lists that a file may omit default to the empty list. -/
structure DurableState where
  sessions : List Session := []
  batches : List Batch := []
  workers : List Worker := []
  diagnostics : List Diagnostic := []
  assignments : List Assignment := []
  auditEvents : List LaunchAuditEvent := []
  launchIntents : List LaunchIntent := []
  capturedResults : List CapturedResult := []
  securityAuditEvents : List SecurityAuditEvent := []
  securityAuditHead : Option SecurityAuditHead := none
  reconciledAt : Option Timestamp := none
  deriving DecidableEq

def genesisAuditHash : String := String.ofList (List.replicate 64 '0')

/-- `EMPTY_STATE`: the state of a store without a file. -/
def emptyState : DurableState :=
  { securityAuditHead := some { sequence := 0, eventHash := genesisAuditHash } }

/-- What the store takes from outside this module: the `z.iso.datetime()` check, the hexadecimal
SHA-256 digest of a printed JSON value, `localeCompare`, and the redaction of texts and of audit
fields. -/
structure Env where
  isoDatetime : String → Bool
  digest : Json → String
  localeCompare : String → String → Ordering
  redactText : String → String
  auditField : String → String

inductive BatchQueryCode where
  | duplicateIds | invalidCursor | invalidRequest | idempotencyConflict | notFound
  deriving DecidableEq

/-- What an operation rejects with: a `BatchQueryError`, a plain `Error`, a `SecurityError`, a
schema rejection, or a failed write. -/
inductive StoreError where
  | batchQuery (code : BatchQueryCode) (message : String)
  | error (message : String)
  | security (code message : String)
  | schema
  | write
  deriving DecidableEq

end AgentOrchestrator.Store
