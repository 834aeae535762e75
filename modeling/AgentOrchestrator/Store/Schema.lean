import AgentOrchestrator.Store.Types
import Mathlib.Tactic.MkIffOfInductiveProp
import Mathlib.Data.List.Nodup

/-!
# The schema of the state file

`StateSchema` is `stateSchema.parse`: each record against its own schema, and then the relations
between records.  `load` applies it to what it reads and `persist` to what it is about to write,
so it holds of every state on disk.
-/

namespace AgentOrchestrator.Store

variable (env : Env)

/-- `z.iso.datetime().optional()`. -/
def IsoOptional (o : Option Timestamp) : Prop := ∀ t ∈ o, env.isoDatetime t = true

instance (o : Option Timestamp) : Decidable (IsoOptional env o) :=
  inferInstanceAs (Decidable (∀ t ∈ o, env.isoDatetime t = true))

/-- The pattern `^[a-f0-9]{64}$`. -/
def Hex64 (s : String) : Prop :=
  s.toList.length = 64 ∧ ∀ c ∈ s.toList, ('a' ≤ c ∧ c ≤ 'f') ∨ ('0' ≤ c ∧ c ≤ '9')

/-- The byte of a digit. -/
def HexByte (b : UInt8) : Prop :=
  (97 ≤ b.toNat ∧ b.toNat ≤ 102) ∨ (48 ≤ b.toNat ∧ b.toNat ≤ 57)

instance (b : UInt8) : Decidable (HexByte b) :=
  inferInstanceAs (Decidable ((97 ≤ b.toNat ∧ b.toNat ≤ 102) ∨ (48 ≤ b.toNat ∧ b.toNat ≤ 57)))

theorem hexDigit_iff (c : Char) : (('a' ≤ c ∧ c ≤ 'f') ∨ ('0' ≤ c ∧ c ≤ '9')) ↔
    (97 ≤ c.val.toNat ∧ c.val.toNat ≤ 102) ∨ (48 ≤ c.val.toNat ∧ c.val.toNat ≤ 57) := by
  simp only [Char.le_def, UInt32.le_iff_toNat_le]
  rfl

/-- A character is a digit when all bytes of its encoding are. -/
theorem hexDigit_iff_bytes (c : Char) : (('a' ≤ c ∧ c ≤ 'f') ∨ ('0' ≤ c ∧ c ≤ '9')) ↔
    ∀ b ∈ String.utf8EncodeChar c, HexByte b := by
  rw [hexDigit_iff, String.utf8EncodeChar]
  constructor
  · intro h
    rw [if_pos (by omega)]
    simp only [List.mem_singleton, forall_eq, HexByte, UInt8.toNat_ofNat']
    omega
  · intro h
    -- the first byte of a longer encoding is at least 0xc0
    split_ifs at h
    all_goals
      have hfirst := h _ List.mem_cons_self
      simp only [HexByte, UInt8.toNat_ofNat'] at hfirst
      omega

theorem length_utf8EncodeChar_hex {c : Char}
    (h : ('a' ≤ c ∧ c ≤ 'f') ∨ ('0' ≤ c ∧ c ≤ '9')) :
    (String.utf8EncodeChar c).length = 1 := by
  rw [hexDigit_iff] at h
  rw [String.utf8EncodeChar, if_pos (by omega)]
  rfl

theorem hex64_iff_bytes (s : String) : Hex64 s ↔
    s.toByteArray.data.toList.length = 64 ∧ ∀ b ∈ s.toByteArray.data.toList, HexByte b := by
  have hbytes : s.toByteArray.data.toList = s.toList.flatMap String.utf8EncodeChar := by
    rw [← String.utf8Encode_toList]
    simp [List.utf8Encode]
  have hdigits : (∀ c ∈ s.toList, ('a' ≤ c ∧ c ≤ 'f') ∨ ('0' ≤ c ∧ c ≤ '9')) ↔
      ∀ b ∈ s.toList.flatMap String.utf8EncodeChar, HexByte b := by
    simp only [hexDigit_iff_bytes, List.mem_flatMap]
    grind
  rw [hbytes, ← hdigits, Hex64]
  refine and_congr_left ?_
  intro h
  have hlength : (s.toList.flatMap String.utf8EncodeChar).length = s.toList.length := by
    rw [List.length_flatMap,
      List.map_congr_left fun c hc => length_utf8EncodeChar_hex (h c hc)]
    simp
  rw [hlength]

-- Decided on the bytes, which a string literal evaluates to much faster than to its characters.
instance (s : String) : Decidable (Hex64 s) :=
  @decidable_of_iff' _ _ (hex64_iff_bytes s)
    (@instDecidableAnd _ _ (instDecidableEqNat _ _) (List.decidableBAll _ _))

/-- `STOP_REASONS_BY_STATUS`. -/
def stopReasonsByStatus : WorkerStatus → Option (List String)
  | .succeeded => some ["succeeded", "succeeded_before_cancellation"]
  | .failed => some ["invalid_request", "policy_denied", "dependency_unavailable", "launch_error",
      "launch_timeout", "execution_error", "worker_crash", "resource_exhausted",
      "deadline_exceeded", "artifact_error"]
  | .canceled => some ["user_requested", "orchestrator_shutdown", "superseded", "policy_revoked"]
  | .requested | .running | .canceling | .unknownOutcome => none

/-- `CANCELLATION_REASONS`. -/
def cancellationReasons : List String :=
  ["user_requested", "orchestrator_shutdown", "superseded", "policy_revoked"]

/-- The stop reason is one the status allows; a status without a list allows every reason. -/
def StopReasonAllowed (status : WorkerStatus) (reason : Option String) : Prop :=
  ∀ allowed ∈ stopReasonsByStatus status, ∀ r ∈ reason, r ∈ allowed

instance (status : WorkerStatus) (reason : Option String) :
    Decidable (StopReasonAllowed status reason) :=
  inferInstanceAs (Decidable (∀ allowed ∈ stopReasonsByStatus status, ∀ r ∈ reason, r ∈ allowed))

/-! ## Records -/

@[mk_iff] structure AttributionSchema (a : WorkerAttribution) : Prop where
  agent : a.agent ≠ ""
  task : a.task ≠ ""

instance (a : WorkerAttribution) : Decidable (AttributionSchema a) :=
  decidable_of_iff' _ (attributionSchema_iff a)

@[mk_iff] structure SessionSchema (s : Session) : Prop where
  id : s.id ≠ ""
  clientId : s.clientId ≠ ""
  createdAt : env.isoDatetime s.createdAt = true
  lastSeenAt : env.isoDatetime s.lastSeenAt = true

instance (s : Session) : Decidable (SessionSchema env s) :=
  decidable_of_iff' _ (sessionSchema_iff env s)

@[mk_iff] structure BatchSchema (b : Batch) : Prop where
  id : b.id ≠ ""
  name : b.name ≠ ""
  sessionId : b.sessionId ≠ ""
  createdAt : env.isoDatetime b.createdAt = true
  updatedAt : env.isoDatetime b.updatedAt = true
  idempotencyKey : b.idempotencyKey ≠ some ""
  clientId : b.clientId ≠ some ""
  requestFingerprint : ∀ f ∈ b.requestFingerprint, Hex64 f

instance (b : Batch) : Decidable (BatchSchema env b) :=
  decidable_of_iff' _ (batchSchema_iff env b)

@[mk_iff] structure LateObservationSchema (o : LateObservation) : Prop where
  observedAt : env.isoDatetime o.observedAt = true
  status : o.status ≠ ""

instance (o : LateObservation) : Decidable (LateObservationSchema env o) :=
  decidable_of_iff' _ (lateObservationSchema_iff env o)

@[mk_iff] structure WorkerSchema (w : Worker) : Prop where
  id : w.id ≠ ""
  batchId : w.batchId ≠ ""
  sessionId : w.sessionId ≠ ""
  pid : w.pid ≠ some 0
  processStartedAt : w.processStartedAt ≠ some ""
  attribution : AttributionSchema w.attribution
  startedAt : env.isoDatetime w.startedAt = true
  completedAt : IsoOptional env w.completedAt
  runId : w.runId ≠ some ""
  stopReason : w.stopReason ≠ some ""
  stopDetail : w.stopDetail ≠ some ""
  cancelRequestedAt : IsoOptional env w.cancelRequestedAt
  deadlineAt : IsoOptional env w.deadlineAt
  lateObservations : ∀ l ∈ w.lateObservations, ∀ o ∈ l, LateObservationSchema env o
  /-- Running workers require a PID and process start token. -/
  running : w.status = .running → w.pid ≠ none ∧ w.processStartedAt ≠ none
  stopReasonAllowed : StopReasonAllowed w.status w.stopReason

instance (w : Worker) : Decidable (WorkerSchema env w) :=
  decidable_of_iff' _ (workerSchema_iff env w)

@[mk_iff] structure DiagnosticSchema (d : Diagnostic) : Prop where
  id : d.id ≠ ""
  workerId : d.workerId ≠ ""
  message : d.message ≠ ""
  detectedAt : env.isoDatetime d.detectedAt = true

instance (d : Diagnostic) : Decidable (DiagnosticSchema env d) :=
  decidable_of_iff' _ (diagnosticSchema_iff env d)

@[mk_iff] structure AssignmentSchema (a : Assignment) : Prop where
  id : a.id ≠ ""
  idempotencyKey : a.idempotencyKey ≠ ""
  requestFingerprint : Hex64 a.requestFingerprint
  batchId : a.batchId ≠ ""
  sessionId : a.sessionId ≠ ""
  attribution : AttributionSchema a.attribution
  prompt : a.prompt ≠ ""
  workspaceId : a.workspaceId ≠ some ""
  workspacePath : a.workspacePath ≠ ""
  attemptId : a.attemptId ≠ some ""
  attempt : a.attempt ≠ some 0
  acceptedAt : env.isoDatetime a.acceptedAt = true
  updatedAt : env.isoDatetime a.updatedAt = true
  runId : a.runId ≠ some ""
  error : a.error ≠ some ""
  errorCode : a.errorCode ≠ some ""

instance (a : Assignment) : Decidable (AssignmentSchema env a) :=
  decidable_of_iff' _ (assignmentSchema_iff env a)

@[mk_iff] structure ResultClaimSchema (c : AgentResultClaim) : Prop where
  error : c.error ≠ some ""
  stopReason : c.stopReason ≠ some ""
  resume : ∀ r ∈ c.resume, r.adapter ≠ "" ∧ r.token ≠ ""

instance (c : AgentResultClaim) : Decidable (ResultClaimSchema c) :=
  decidable_of_iff' _ (resultClaimSchema_iff c)

@[mk_iff] structure CapturedResultSchema (r : CapturedResult) : Prop where
  deliveryId : r.deliveryId ≠ ""
  deliveryFingerprint : Hex64 r.deliveryFingerprint
  assignmentId : r.assignmentId ≠ ""
  batchId : r.batchId ≠ ""
  sessionId : r.sessionId ≠ ""
  workspaceId : r.workspaceId ≠ none ∧ r.workspaceId ≠ some ""
  workspacePath : r.workspacePath ≠ ""
  attemptId : r.attemptId ≠ ""
  attempt : 0 < r.attempt
  runId : r.runId ≠ ""
  attribution : AttributionSchema r.attribution
  claim : ResultClaimSchema r.claim
  capturedAt : env.isoDatetime r.capturedAt = true

instance (r : CapturedResult) : Decidable (CapturedResultSchema env r) :=
  decidable_of_iff' _ (capturedResultSchema_iff env r)

@[mk_iff] structure AuditEventSchema (e : LaunchAuditEvent) : Prop where
  id : e.id ≠ ""
  assignmentId : e.assignmentId ≠ ""
  occurredAt : env.isoDatetime e.occurredAt = true
  runId : e.runId ≠ some ""
  error : e.error ≠ some ""
  errorCode : e.errorCode ≠ some ""

instance (e : LaunchAuditEvent) : Decidable (AuditEventSchema env e) :=
  decidable_of_iff' _ (auditEventSchema_iff env e)

@[mk_iff] structure SecurityAuditEventSchema (e : SecurityAuditEvent) : Prop where
  id : e.id ≠ ""
  sequence : 0 < e.sequence
  occurredAt : env.isoDatetime e.occurredAt = true
  requesterId : e.requesterId ≠ ""
  operation : e.operation ≠ ""
  reasonCode : e.reasonCode ≠ ""
  correlationId : e.correlationId ≠ ""
  policyVersion : e.policyVersion ≠ ""
  workspaceId : e.workspaceId ≠ some ""
  projectId : e.projectId ≠ some ""
  assignmentId : e.assignmentId ≠ some ""
  previousEventHash : Hex64 e.previousEventHash
  eventHash : Hex64 e.eventHash

instance (e : SecurityAuditEvent) : Decidable (SecurityAuditEventSchema env e) :=
  decidable_of_iff' _ (securityAuditEventSchema_iff env e)

@[mk_iff] structure LaunchIntentSchema (i : LaunchIntent) : Prop where
  idempotencyKey : i.idempotencyKey ≠ ""
  requestHash : Hex64 i.requestHash
  sessionId : i.sessionId ≠ ""
  batchId : i.batchId ≠ ""
  workerId : i.workerId ≠ ""
  workspaceId : i.workspaceId ≠ some ""
  attribution : AttributionSchema i.attribution
  createdAt : env.isoDatetime i.createdAt = true
  updatedAt : env.isoDatetime i.updatedAt = true
  runId : i.runId ≠ some ""
  diagnostic : i.diagnostic ≠ some ""
  /-- Bound launch intents require a run ID. -/
  bound : i.status = .bound → i.runId ≠ none

instance (i : LaunchIntent) : Decidable (LaunchIntentSchema env i) :=
  decidable_of_iff' _ (launchIntentSchema_iff env i)

/-! ## Relations between records -/

/-- The key under which a batch's idempotency identity is indexed. -/
def batchKey (clientId idempotencyKey : String) : String := clientId ++ "\x00" ++ idempotencyKey

/-- The idempotency identity of a batch, when it has one. -/
def Batch.identity (b : Batch) : Option String :=
  match b.clientId, b.idempotencyKey with
  | some clientId, some key => some (batchKey clientId key)
  | _, _ => none

def hasSession (s : DurableState) (id : String) : Prop := ∃ x ∈ s.sessions, x.id = id

instance (s : DurableState) (id : String) : Decidable (hasSession s id) :=
  inferInstanceAs (Decidable (∃ x ∈ s.sessions, x.id = id))

def hasBatch (s : DurableState) (id : String) : Prop := ∃ b ∈ s.batches, b.id = id

instance (s : DurableState) (id : String) : Decidable (hasBatch s id) :=
  inferInstanceAs (Decidable (∃ b ∈ s.batches, b.id = id))

/-- Every identity of a captured result is its assignment's, and the assignment is launched. -/
def ResultMatches (r : CapturedResult) (a : Assignment) : Prop :=
  a.id = r.assignmentId ∧ a.status = .launched ∧ r.batchId = a.batchId ∧
    r.sessionId = a.sessionId ∧ some r.runId = a.runId ∧ r.workspaceId = a.workspaceId ∧
    r.workspacePath = a.workspacePath ∧ some r.attemptId = a.attemptId ∧
    some r.attempt = a.attempt ∧ r.attribution = a.attribution

instance (r : CapturedResult) (a : Assignment) : Decidable (ResultMatches r a) := by
  unfold ResultMatches; infer_instance

/-- Every record parses. -/
@[mk_iff] structure RecordSchemas (s : DurableState) : Prop where
  sessions : ∀ x ∈ s.sessions, SessionSchema env x
  batches : ∀ b ∈ s.batches, BatchSchema env b
  workers : ∀ w ∈ s.workers, WorkerSchema env w
  diagnostics : ∀ d ∈ s.diagnostics, DiagnosticSchema env d
  assignments : ∀ a ∈ s.assignments, AssignmentSchema env a
  auditEvents : ∀ e ∈ s.auditEvents, AuditEventSchema env e
  launchIntents : ∀ i ∈ s.launchIntents, LaunchIntentSchema env i
  capturedResults : ∀ r ∈ s.capturedResults, CapturedResultSchema env r
  securityAuditEvents : ∀ e ∈ s.securityAuditEvents, SecurityAuditEventSchema env e
  securityAuditHead : ∀ h ∈ s.securityAuditHead, Hex64 h.eventHash
  reconciledAt : IsoOptional env s.reconciledAt

instance (s : DurableState) : Decidable (RecordSchemas env s) :=
  decidable_of_iff' _ (recordSchemas_iff env s)

/-- No identity occurs twice. -/
@[mk_iff] structure UniqueIdentities (s : DurableState) : Prop where
  uniqueSessions : (s.sessions.map (·.id)).Nodup
  uniqueBatches : (s.batches.map (·.id)).Nodup
  uniqueWorkers : (s.workers.map (·.id)).Nodup
  uniqueAssignments : (s.assignments.map (·.id)).Nodup
  uniqueAuditEvents : (s.auditEvents.map (·.id)).Nodup
  uniqueKeys : (s.launchIntents.map (·.idempotencyKey)).Nodup
  uniqueDeliveries : (s.capturedResults.map (·.deliveryId)).Nodup
  uniqueAttempts : (s.capturedResults.map (·.attemptId)).Nodup
  uniqueBatchKeys : (s.batches.filterMap Batch.identity).Nodup

instance (s : DurableState) : Decidable (UniqueIdentities s) :=
  decidable_of_iff' _ (uniqueIdentities_iff s)

/-- The records refer to each other as the state schema asks. -/
@[mk_iff] structure RecordRelations (s : DurableState) : Prop where
  /-- Security-controlled assignments require an acceptance audit event. -/
  acceptanceAudit : ∀ a ∈ s.assignments, a.workspaceId ≠ none →
    ∃ e ∈ s.securityAuditEvents, e.assignmentId = some a.id ∧ e.reasonCode = "launch_accepted" ∧
      e.decision = .allowed
  batchSession : ∀ b ∈ s.batches, hasSession s b.sessionId
  batchIdentity : ∀ b ∈ s.batches, (b.clientId = none ↔ b.requestFingerprint = none) ∧
    ¬ (b.idempotencyKey ≠ none ∧ b.clientId = none)
  workerRelations : ∀ w ∈ s.workers, hasBatch s w.batchId ↔ hasSession s w.sessionId
  diagnosticIdentity : ∀ d ∈ s.diagnostics, (∃ w ∈ s.workers, w.id = d.workerId) ∧
    d.id = d.kind.text ++ ":" ++ d.workerId
  assignmentRelations : ∀ a ∈ s.assignments, hasBatch s a.batchId ∧ hasSession s a.sessionId
  auditEventAssignment : ∀ e ∈ s.auditEvents, ∃ a ∈ s.assignments, a.id = e.assignmentId ∧
    (e.type = .executionStarted → e.runId ≠ none ∧ e.runId = a.runId)
  intentBatch : ∀ i ∈ s.launchIntents, ∀ b ∈ s.batches, b.id = i.batchId →
    hasSession s i.sessionId ∧ b.sessionId = i.sessionId
  intentWorker : ∀ i ∈ s.launchIntents, ∀ w ∈ s.workers, w.id = i.workerId →
    hasBatch s i.batchId ∧ w.batchId = i.batchId ∧ w.sessionId = i.sessionId ∧
      w.attribution = i.attribution
  resultIdentity : ∀ r ∈ s.capturedResults, ∃ a ∈ s.assignments, ResultMatches r a

instance (s : DurableState) : Decidable (RecordRelations s) :=
  decidable_of_iff' _ (recordRelations_iff s)

/-- The whole state parses. -/
@[mk_iff] structure StateSchema (s : DurableState) : Prop extends
  RecordSchemas env s, UniqueIdentities s, RecordRelations s

instance (s : DurableState) : Decidable (StateSchema env s) :=
  decidable_of_iff' _ (stateSchema_iff env s)

end AgentOrchestrator.Store
