import AgentOrchestrator.Library.Keyed
import AgentOrchestrator.Store.Audit
import AgentOrchestrator.Store.Workers

/-!
# The operations of the store

Every operation takes the lock, loads the state file, runs its body on the loaded state and, if
the body changed something, persists the result.  `Body` is what a body can end with; `perform`
runs one against the file, with the file system deciding how the write ends.
-/

namespace AgentOrchestrator.Store

variable (env : Env)

/-! ## Bodies and the file -/

/-- How a body ends: it throws, it returns without writing, or it persists `next`.  `memory` is
the in-memory state it leaves behind when it does not write. -/
inductive Body (α : Type) where
  | reject (error : StoreError) (memory : DurableState)
  | reply (value : α) (memory : DurableState)
  | commit (value : α) (next : DurableState)

/-- The state a body asks to persist. -/
def Body.next {α : Type} : Body α → Option DurableState
  | .reject _ _ => none
  | .reply _ _ => none
  | .commit _ next => some next

/-- The state file; `none` before the first write. -/
abbrev Disk := Option DurableState

/-- How a write ends: completed, failed before the rename, or failed after it. -/
inductive WriteOutcome where
  | written | failedBeforeRename | failedAfterRename
  deriving DecidableEq

/-- `load`: parse the file and verify the audit chain. -/
def load (disk : Disk) : Except StoreError DurableState :=
  match disk with
  | none => .ok emptyState
  | some s =>
    if StateSchema env s then (assertSecurityAuditChain env s).map fun _ => s
    else .error .schema

/-- `persist`: check the schema, then write. -/
def persist (io : WriteOutcome) (next : DurableState) (disk : Disk) : Disk × Except StoreError Unit :=
  if StateSchema env next then
    match io with
    | .written => (some next, .ok ())
    | .failedBeforeRename => (disk, .error .write)
    | .failedAfterRename => (some next, .error .write)
  else (disk, .error .schema)

/-- Runs a body on the loaded state. -/
def perform {α : Type} (body : DurableState → Body α) (io : WriteOutcome) (disk : Disk) :
    Disk × Except StoreError α :=
  match load env disk with
  | .error e => (disk, .error e)
  | .ok s =>
    match body s with
    | .reject e _ => (disk, .error e)
    | .reply value _ => (disk, .ok value)
    | .commit value next => ((persist env io next disk).1,
        (persist env io next disk).2.map fun _ => value)

/-! ## Records by identity -/

def DurableState.worker? (s : DurableState) (id : String) : Option Worker :=
  Keyed.lookup (·.id) id s.workers

def DurableState.assignment? (s : DurableState) (id : String) : Option Assignment :=
  Keyed.lookup (·.id) id s.assignments

def DurableState.putWorker (s : DurableState) (w : Worker) : DurableState :=
  { s with workers := Keyed.put (·.id) w s.workers }

def DurableState.putAssignment (s : DurableState) (a : Assignment) : DurableState :=
  { s with assignments := Keyed.put (·.id) a s.assignments }

/-! ## Workers -/

/-- `updateWorker` with the callback of one of the methods of `WorkerUpdate`. -/
def updateWorker (workerId : String) (u : WorkerUpdate) (s : DurableState) :
    Body (Worker × CancellationClaim) :=
  match s.worker? workerId with
  | none => .reject (.batchQuery .notFound ("Unknown session ID: " ++ workerId)) s
  | some w =>
    match u.apply s w with
    | .error e => .reject e s
    | .ok (w', claim) => .commit (w', claim) (s.putWorker w')

/-- One worker of `recoverLifecycleDeliveryClaims`. -/
def recoverDeliveryClaim (w : Worker) : Worker :=
  let w := if raised w.cancellationDeliveryClaimed then
      let w := { w with cancellationDeliveryClaimed := none }
      let w := if w.status = .unknownOutcome then { w with status := .canceling } else w
      if w.runId ≠ none ∧ w.status.isTerminal = false then
        { w with cancellationDeliveryPending := some true }
      else if w.runId ≠ none ∧ w.status = .failed ∧ w.stopReason = some "deadline_exceeded" then
        { w with providerStopPending := some true }
      else w
    else w
  if raised w.providerStopClaimed then
    let w := { w with providerStopClaimed := none }
    if w.runId ≠ none then { w with providerStopPending := some true } else w
  else w

/-- What `recoverDeliveryClaim` does about a cancellation. -/
def recoverCancellation (w : Worker) : Worker :=
  if raised w.cancellationDeliveryClaimed then
    let w := { w with cancellationDeliveryClaimed := none }
    let w := if w.status = .unknownOutcome then { w with status := .canceling } else w
    if w.runId ≠ none ∧ w.status.isTerminal = false then
      { w with cancellationDeliveryPending := some true }
    else if w.runId ≠ none ∧ w.status = .failed ∧ w.stopReason = some "deadline_exceeded" then
      { w with providerStopPending := some true }
    else w
  else w

/-- The claim of a stop is given back after the one of a cancellation. -/
theorem recoverDeliveryClaim_eq (w : Worker) : recoverDeliveryClaim w =
    if raised (recoverCancellation w).providerStopClaimed then
      let w := { recoverCancellation w with providerStopClaimed := none }
      if w.runId ≠ none then { w with providerStopPending := some true } else w
    else recoverCancellation w := rfl

def recoverLifecycleDeliveryClaims (s : DurableState) : Body Unit :=
  if s.workers.any fun w => raised w.cancellationDeliveryClaimed || raised w.providerStopClaimed then
    .commit () { s with workers := s.workers.map recoverDeliveryClaim }
  else .reply () s

/-- `recordWorkerResult`; the statuses it takes are `succeeded` and `failed`. -/
def recordWorkerResult (workerId : String) (succeeded : Bool) (result : Option Json)
    (completedAt : Timestamp) (s : DurableState) : Body Worker :=
  let status : WorkerStatus := if succeeded then .succeeded else .failed
  match s.worker? workerId with
  | none => .reject (.error ("Unknown worker: " ++ workerId)) s
  | some w =>
    if w.status.isTerminal then
      if w.status ≠ status ∨ w.result ≠ result then
        .reject (.error ("Worker " ++ workerId ++ " already has a different terminal result")) s
      else .reply w s
    else
      let w' := { w with status := status, result := result, completedAt := some completedAt }
      .commit w' (s.putWorker w')

/-- The process of the worker is recorded and alive. -/
def processAlive (alive : ℕ → Option String → Bool) (w : Worker) : Bool :=
  w.pid.any fun pid => alive pid w.processStartedAt

/-- The status change `reconcile` makes to one worker: a running worker whose process is gone has
an unknown outcome. -/
def reconcileWorker (alive : ℕ → Option String → Bool) (detectedAt : Timestamp) (w : Worker) :
    Worker :=
  if w.status = .running ∧ processAlive alive w = false then
    { w with status := .unknownOutcome, completedAt := some detectedAt }
  else w

/-- Adds a diagnostic unless one with its identity exists. -/
def diagnose (detectedAt : Timestamp) (kind : DiagnosticKind) (workerId message : String)
    (ds : List Diagnostic) : List Diagnostic :=
  let id := kind.text ++ ":" ++ workerId
  if ds.any fun d => d.id = id then ds
  else ds ++
    [{ id := id, kind := kind, workerId := workerId, message := message, detectedAt := detectedAt }]

/-- The diagnostics `reconcile` adds for one worker. -/
def reconcileDiagnostics (s : DurableState) (alive : ℕ → Option String → Bool)
    (detectedAt : Timestamp) (ds : List Diagnostic) (w : Worker) : List Diagnostic :=
  let w' := reconcileWorker alive detectedAt w
  let ds := if ¬ hasSession s w.sessionId ∨ ¬ hasBatch s w.batchId then
      diagnose detectedAt .orphan w.id
        "Worker references a missing or inconsistent durable session or batch" ds
    else ds
  let ds := if w.status = .running ∧ processAlive alive w = false then
      diagnose detectedAt .unknownOutcome w.id
        "Worker process was absent during startup reconciliation" ds
    else ds
  let ds := if w'.status = .canceling ∧ w'.pid ≠ none ∧
        raised w'.cancellationDeliveryPending = false ∧ processAlive alive w' = false then
      diagnose detectedAt .unknownOutcome w.id
        "Canceling worker process was absent; exact provider reconciliation remains pending" ds
    else ds
  if (w'.status = .succeeded ∨ w'.status = .failed) ∧ w'.result = none then
    diagnose detectedAt .missingResult w.id "Terminal worker has no persisted result" ds
  else ds

def reconcile (alive : ℕ → Option String → Bool) (now : Timestamp) (s : DurableState) : Body Unit :=
  .commit () { s with
    workers := s.workers.map (reconcileWorker alive now)
    diagnostics := s.workers.foldl (reconcileDiagnostics s alive now) s.diagnostics
    reconciledAt := some now }

/-! ## Batches and acceptance -/

/-- `Number.MAX_SAFE_INTEGER`, the position of a worker without one. -/
def maxSafeInteger : ℕ := 9007199254740991

/-- The order of the members of a batch: position, then start, then identity. -/
def memberCompare (left right : Worker) : Ordering :=
  (compare (left.position.getD maxSafeInteger) (right.position.getD maxSafeInteger)).then <|
    (env.localeCompare left.startedAt right.startedAt).then (env.localeCompare left.id right.id)

/-- The members of a batch, in order. -/
def workersForBatch (s : DurableState) (batchId : String) : List Worker :=
  (s.workers.filter (·.batchId = batchId)).mergeSort fun left right =>
    memberCompare env left right ≠ .gt

/-- What `createBatch` returns. -/
structure CreatedBatch where
  batch : Batch
  sessions : List Worker
  duplicate : Bool

/-- The text whose digest identifies a batch request. -/
def batchRequest (name : String) (assignments : List WorkerAttribution) : Json :=
  .obj [("name", .str name), ("assignments", .arr (assignments.map fun a =>
    .obj [("agent", .str a.agent), ("task", .str a.task)]))]

/-- `createBatch` after the check of the number of assignments; `uuid` are the drawn identifiers,
the session's, the batch's and then one for each worker. -/
def createBatch (name clientId : String) (assignments : List WorkerAttribution)
    (idempotencyKey : Option String) (now : Timestamp) (uuid : ℕ → String) (s : DurableState) :
    Body CreatedBatch :=
  let requestFingerprint := env.digest (batchRequest name assignments)
  let existing := idempotencyKey.bind fun key =>
    s.batches.find? fun b => b.identity = some (batchKey clientId key)
  match existing with
  | some existing =>
    if existing.requestFingerprint ≠ some requestFingerprint then
      .reject (.batchQuery .idempotencyConflict
        "Idempotency key was already used with a different batch request") s
    else
      let sessions := workersForBatch env s existing.id
      .reply { batch := existing, sessions := sessions, duplicate := true } s
  | none =>
    let session : Session :=
      { id := uuid 0, clientId := clientId, createdAt := now, lastSeenAt := now }
    let batch : Batch :=
      { id := uuid 1, name := name, sessionId := session.id, createdAt := now, updatedAt := now,
        clientId := some clientId, requestFingerprint := some requestFingerprint,
        idempotencyKey := idempotencyKey }
    let workers := assignments.zipIdx.map fun (attribution, position) =>
      { id := uuid (position + 2), batchId := batch.id, sessionId := session.id,
        status := WorkerStatus.requested, attribution := attribution, startedAt := now,
        position := some position : Worker }
    .commit { batch := batch, sessions := workers, duplicate := false }
      { s with
        sessions := s.sessions ++ [session]
        batches := s.batches ++ [batch]
        workers := s.workers ++ workers }

/-- The records of one accepted launch. -/
structure LaunchInput where
  assignment : Assignment
  session : Session
  worker : Worker
  event : LaunchAuditEvent
  securityAudit : SecurityAuditInput

/-- What accepting a launch returns. -/
structure Acceptance (α : Type) where
  assignment : α
  created : Bool

/-- The worker with its attribution redacted. -/
def redactWorker (w : Worker) : Worker :=
  { w with attribution :=
    { agent := env.redactText w.attribution.agent, task := env.redactText w.attribution.task } }

def assignmentByKey (s : DurableState) (key : String) : Option Assignment :=
  s.assignments.find? fun a => a.idempotencyKey = key

def acceptLaunch (input : LaunchInput) (batch : Batch) (uuid : String) (s : DurableState) :
    Body (Acceptance Assignment) :=
  let worker := redactWorker env input.worker
  if ¬ (AssignmentSchema env input.assignment ∧ SessionSchema env input.session ∧
      BatchSchema env batch ∧ AuditEventSchema env input.event ∧ WorkerSchema env worker) then
    .reject .schema s
  else if input.event.assignmentId ≠ input.assignment.id then
    .reject (.error "Launch acceptance event assignment does not match its target") s
  else if input.event.type ≠ .launchAccepted then
    .reject (.error "Launch acceptance event must have type launch_accepted") s
  else
    match assignmentByKey s input.assignment.idempotencyKey with
    | some existing =>
      if existing.requestFingerprint ≠ input.assignment.requestFingerprint then
        .reject (.error ("Idempotency key " ++ Json.quote input.assignment.idempotencyKey ++
          " was already used for a different launch")) s
      else .reply { assignment := existing, created := false } s
    | none =>
      let next := { s with
        sessions := s.sessions ++ [input.session]
        batches := s.batches ++ [batch]
        assignments := s.assignments ++ [input.assignment]
        workers := s.workers ++ [worker]
        auditEvents := s.auditEvents ++ [input.event] }
      match appendSecurityAuditToState env input.securityAudit uuid input.event.occurredAt next with
      | .error e => .reject e s
      | .ok next => .commit { assignment := input.assignment, created := true } next

/-- The audit events of a batch, appended one after the other. -/
def appendAudits : List LaunchInput → List String → DurableState → Except StoreError DurableState
  | [], _, s => .ok s
  | input :: inputs, uuids, s =>
    match appendSecurityAuditToState env input.securityAudit (uuids.headD "")
        input.event.occurredAt s with
    | .error e => .error e
    | .ok s => appendAudits inputs uuids.tail s

/-- The records of the launches of a batch match in order. -/
def LaunchInput.Matches (i : LaunchInput) : Prop :=
  i.session.id = i.assignment.sessionId ∧ i.worker.sessionId = i.assignment.sessionId ∧
    i.event.assignmentId = i.assignment.id ∧ i.event.type = .launchAccepted ∧
    i.securityAudit.assignmentId = some i.assignment.id

instance (i : LaunchInput) : Decidable i.Matches := by
  unfold LaunchInput.Matches; infer_instance

/-- `acceptLaunchBatch`.  The source's parallel arrays of equal length are one list of inputs. -/
def acceptLaunchBatch (inputs : List LaunchInput) (batch : Batch) (uuids : List String)
    (s : DurableState) : Body (Acceptance (List Assignment)) :=
  if ¬ ((∀ i ∈ inputs, AssignmentSchema env i.assignment) ∧
      (∀ i ∈ inputs, SessionSchema env i.session) ∧ (∀ i ∈ inputs, WorkerSchema env i.worker) ∧
      BatchSchema env batch ∧ ∀ i ∈ inputs, AuditEventSchema env i.event) then .reject .schema s
  else if ¬ ∀ i ∈ inputs, i.Matches then
    .reject (.error "Launch batch records must match assignments in order") s
  else
    let existing := inputs.map fun i => (i, assignmentByKey s i.assignment.idempotencyKey)
    if existing.any fun e => e.2.isSome then
      if existing.any fun e => e.2.isNone then
        .reject (.error "A batch idempotency replay matched only part of the original batch") s
      else if existing.any fun e => e.2.any fun a =>
          a.requestFingerprint ≠ e.1.assignment.requestFingerprint || a.batchId ≠ batch.id then
        .reject (.error "A batch idempotency key was reused with different launch input") s
      else .reply { assignment := existing.filterMap (·.2), created := false } s
    else if hasBatch s batch.id then
      .reject (.error "A batch idempotency key was reused with different assignments") s
    else
      let next := { s with
        sessions := s.sessions ++ inputs.map (·.session)
        batches := s.batches ++ [batch]
        assignments := s.assignments ++ inputs.map (·.assignment)
        workers := s.workers ++ inputs.map (·.worker)
        auditEvents := s.auditEvents ++ inputs.map (·.event) }
      match appendAudits env inputs uuids next with
      | .error e => .reject e s
      | .ok next => .commit { assignment := inputs.map (·.assignment), created := true } next

/-! ## Launch events -/

/-- The statuses `recordLaunchEvent` can be asked to record. -/
inductive LaunchTarget where
  | launching | launched | failed
  deriving DecidableEq

def LaunchTarget.status : LaunchTarget → AssignmentLaunchStatus
  | .launching => .launching
  | .launched => .launched
  | .failed => .failed

/-- `expectedType`. -/
def LaunchTarget.expectedType : LaunchTarget → LaunchAuditType
  | .launching => .launchReserved
  | .launched => .executionStarted
  | .failed => .launchFailed

/-- The transition table of an assignment. -/
def launchAllowed (status : AssignmentLaunchStatus) (target : LaunchTarget) : Bool :=
  match status, target with
  | .accepted, .launching | .accepted, .failed => true
  | .launching, .launched | .launching, .failed => true
  | _, _ => false

/-- What `recordLaunchEvent` returns. -/
structure LaunchRecord where
  assignment : Assignment
  transitioned : Bool

/-- The assignment after an allowed transition. -/
def advanceAssignment (target : LaunchTarget) (event : LaunchAuditEvent) (a : Assignment) :
    Assignment :=
  { a with
    status := target.status
    updatedAt := if event.occurredAt < a.updatedAt then a.updatedAt else event.occurredAt
    runId := event.runId.or a.runId
    error := (event.error.map env.redactText).or a.error
    errorCode := event.errorCode.or a.errorCode }

/-- The worker of a launch event that carries a run: a run that arrives for a terminal session is
to be stopped and reconciled. -/
def bindLaunchedRun (runId : String) (w : Worker) : Worker :=
  if w.status.isTerminal then
    { w with
      runId := some runId
      lifecycleReconcilePending := some true
      providerStopPending := some true }
  else { w with runId := some runId }

/-- The result recorded for a launch the provider refused. -/
def launchFailureResult (error : String) : Json :=
  .obj [("status", .str "failed"), ("completeness", .str "missing"), ("error", .str error)]

/-- The worker of a failed launch. -/
def failLaunchedWorker (event : LaunchAuditEvent) (w : Worker) : Worker :=
  let w := if w.status.isTerminal then w else
    { w with
      status := .failed
      completedAt := some event.occurredAt
      stopReason := some "launch_error"
      result := some (launchFailureResult
        (env.redactText (event.error.getD "Provider launch failed"))) }
  { w with
    preCancelStatus := none
    cancelRequestedAt := none
    cancellationDeliveryPending := none
    cancellationDeliveryClaimed := none
    lifecycleReconcilePending := none
    providerStopPending := none
    providerStopClaimed := none }

def missingLifecycleWorker (assignmentId : String) : StoreError :=
  .error ("Missing lifecycle worker for assignment: " ++ assignmentId)

/-- The state with the run of the event bound to the worker of the session. -/
def bindEventRun (assignmentId sessionId : String) (event : LaunchAuditEvent) (s : DurableState) :
    Except StoreError DurableState :=
  match event.runId with
  | none => .ok s
  | some runId =>
    match s.worker? sessionId with
    | none => .error (missingLifecycleWorker assignmentId)
    | some w =>
      if w.runId ≠ none ∧ w.runId ≠ some runId then
        .error (.error "Worker is already bound to another run")
      else .ok (s.putWorker (bindLaunchedRun runId w))

/-- The state with the worker of the session settled, when the launch failed. -/
def failEventWorker (assignmentId sessionId : String) (target : LaunchTarget)
    (event : LaunchAuditEvent) (s : DurableState) : Except StoreError DurableState :=
  if target = .failed then
    match s.worker? sessionId with
    | none => .error (missingLifecycleWorker assignmentId)
    | some w => .ok (s.putWorker (failLaunchedWorker env event w))
  else .ok s

/-- The body of the `try` block of `recordLaunchEvent`. -/
def advanceLaunch (a : Assignment) (target : LaunchTarget) (event : LaunchAuditEvent)
    (existingEvent : Option LaunchAuditEvent) (audit : Option SecurityAuditInput) (uuid : String)
    (s : DurableState) : Except StoreError DurableState := do
  let s := s.putAssignment (advanceAssignment env target event a)
  let s ← bindEventRun a.id a.sessionId event s
  let s ← failEventWorker env a.id a.sessionId target event s
  let events := if existingEvent.isNone then [{ event with error := event.error.map env.redactText }]
    else []
  appendOptionalAudit env audit uuid event.occurredAt
    { s with auditEvents := s.auditEvents ++ events }

def launchCanceledError : String := "Launch was canceled before provider dispatch"

/-- The assignment of a launch refused because its session is over. -/
def refuseAssignment (event : LaunchAuditEvent) (a : Assignment) : Assignment :=
  { a with status := .failed, updatedAt := event.occurredAt, error := some launchCanceledError }

/-- The branch of `recordLaunchEvent` for a worker that is already terminal, up to the audit. -/
def refuseLaunch (a : Assignment) (event : LaunchAuditEvent) (s : DurableState) : DurableState :=
  { s.putAssignment (refuseAssignment event a) with
    auditEvents := s.auditEvents ++
      [{ event with type := .launchFailed, error := some launchCanceledError }] }

/-- The worker of the assignment is recorded and terminal. -/
def sessionOver (s : DurableState) (a : Assignment) : Bool :=
  (s.worker? a.sessionId).any fun w => w.status.isTerminal

def recordLaunchEvent (assignmentId : String) (target : LaunchTarget) (event : LaunchAuditEvent)
    (audit : Option SecurityAuditInput) (uuid : String) (s : DurableState) : Body LaunchRecord :=
  if ¬ AuditEventSchema env event then .reject .schema s
  else
    match s.assignment? assignmentId with
    | none => .reject (.error ("Unknown assignment: " ++ assignmentId)) s
    | some a =>
      if target = .launching ∧ sessionOver s a then
        match appendOptionalAudit env audit uuid event.occurredAt (refuseLaunch a event s) with
        | .error e => .reject e (refuseLaunch a event s)
        | .ok next =>
          .commit { assignment := refuseAssignment event a, transitioned := false } next
      else if event.assignmentId ≠ assignmentId then
        .reject (.error "Launch event assignment does not match its target") s
      else if event.type ≠ target.expectedType then
        .reject (.error "Launch event type does not match its transition") s
      else
        let existingEvent := Keyed.lookup (·.id) event.id s.auditEvents
        if existingEvent.any fun e => e ≠ event then
          .reject (.error ("Launch audit event ID " ++ Json.quote event.id ++
            " conflicts with existing evidence")) s
        else if launchAllowed a.status target = false then
          .reply { assignment := a, transitioned := false } s
        else
          match advanceLaunch env a target event existingEvent audit uuid s with
          | .error e => .reject e s
          | .ok next => .commit
              { assignment := advanceAssignment env target event a, transitioned := true } next

/-! ## Results -/

/-- The claim as a JSON object. -/
def AgentResultClaim.toJson (c : AgentResultClaim) : Json :=
  Json.defined [("status", some (.str c.status.text)),
    ("completeness", some (.str c.completeness.text)), ("output", c.output.map .str),
    ("error", c.error.map .str), ("retryable", c.retryable.map .bool),
    ("stopReason", c.stopReason.map .str),
    ("resume", c.resume.map fun r =>
      .obj [("adapter", .str r.adapter), ("token", .str r.token)])]

/-- The captured result as the JSON object stored as the worker's result. -/
def CapturedResult.toJson (r : CapturedResult) : Json :=
  Json.defined [("deliveryId", some (.str r.deliveryId)),
    ("deliveryFingerprint", some (.str r.deliveryFingerprint)),
    ("assignmentId", some (.str r.assignmentId)), ("batchId", some (.str r.batchId)),
    ("sessionId", some (.str r.sessionId)), ("workspaceId", r.workspaceId.map .str),
    ("workspacePath", some (.str r.workspacePath)), ("attemptId", some (.str r.attemptId)),
    ("attempt", some (.nat r.attempt)), ("runId", some (.str r.runId)),
    ("attribution", some (.obj [("agent", .str r.attribution.agent),
      ("task", .str r.attribution.task)])),
    ("claim", some r.claim.toJson), ("verifiedArtifacts", some (.arr [])),
    ("capturedAt", some (.str r.capturedAt))]

/-- What `captureResult` returns. -/
structure Capture where
  result : CapturedResult
  duplicate : Bool

/-- The first identity of a result that is not its assignment's. -/
def identityMismatch (a : Assignment) (r : CapturedResult) : Option String :=
  if a.batchId ≠ r.batchId then some "batchId"
  else if a.sessionId ≠ r.sessionId then some "sessionId"
  else if a.workspaceId ≠ r.workspaceId then some "workspaceId"
  else if a.workspacePath ≠ r.workspacePath then some "workspacePath"
  else if a.attemptId ≠ some r.attemptId then some "attemptId"
  else if a.attempt ≠ some r.attempt then some "attempt"
  else if a.runId ≠ some r.runId then some "runId"
  else none

/-- The worker of a captured result. -/
def settleCaptured (r : CapturedResult) (w : Worker) : Worker :=
  if w.status.isTerminal then w
  else
    { w with
      status := match r.claim.status with
        | .succeeded => .succeeded
        | .cancelled => .canceled
        | _ => .failed
      result := some r.toJson
      completedAt := some r.capturedAt
      stopReason := some <| match r.claim.status with
        | .succeeded => "succeeded"
        | .cancelled => "user_requested"
        | .malformed => "artifact_error"
        | _ => "execution_error"
      preCancelStatus := none
      lifecycleReconcilePending := none
      cancellationDeliveryPending := none }

def captureResult (input : CapturedResult) (s : DurableState) : Body Capture :=
  if ¬ CapturedResultSchema env input then .reject .schema s
  else
    match s.assignment? input.assignmentId with
    | none => .reject (.error ("Unknown assignment: " ++ input.assignmentId)) s
    | some a =>
      if a.workspaceId = none ∨ a.attemptId = none ∨ a.attempt = none then
        .reject (.error
          "Legacy assignments without exact workspace and attempt identities cannot accept results") s
      else
        match identityMismatch a input with
        | some identity =>
          .reject (.error ("Result " ++ identity ++ " does not match its assignment")) s
        | none =>
          if a.attribution ≠ input.attribution then
            .reject (.error "Result attribution does not match its assignment") s
          else if a.status ≠ .launched then
            .reject (.error "Results require a launched assignment") s
          else
            match s.capturedResults.find? fun r => r.deliveryId = input.deliveryId with
            | some existing =>
              if existing.deliveryFingerprint ≠ input.deliveryFingerprint then
                .reject (.error ("Result delivery " ++ Json.quote input.deliveryId ++
                  " conflicts with its first payload")) s
              else .reply { result := existing, duplicate := true } s
            | none =>
              match s.capturedResults.find? fun r => r.attemptId = input.attemptId with
              | some existing =>
                if existing.deliveryFingerprint ≠ input.deliveryFingerprint then
                  .reject (.error ("Attempt " ++ Json.quote input.attemptId ++
                    " already has a different authoritative result")) s
                else .reply { result := existing, duplicate := true } s
              | none =>
                -- The result is pushed before the worker is looked up.
                let next := { s with capturedResults := s.capturedResults ++ [input] }
                match s.worker? input.sessionId with
                | none => .reject (.error
                    ("Missing lifecycle worker for result: " ++ input.assignmentId)) next
                | some w => .commit { result := input, duplicate := false }
                    (next.putWorker (settleCaptured input w))

/-! ## Launch intents and audit -/

def reserveLaunch (intent : LaunchIntent) (now : Timestamp) (s : DurableState) :
    Body (LaunchIntent × Bool) :=
  match s.launchIntents.find? fun i => i.idempotencyKey = intent.idempotencyKey with
  | some existing =>
    if existing.requestHash ≠ intent.requestHash then
      .reject (.error "Idempotency key was already used for a different launch request") s
    else .reply (existing, false) s
  | none =>
    let reserved := { intent with status := .reserved, createdAt := now, updatedAt := now }
    .commit (reserved, true) { s with launchIntents := s.launchIntents ++ [reserved] }

/-- The transition table of a launch intent. -/
def intentAllowed : LaunchStatus → LaunchStatus → Bool
  | .reserved, .reserved | .reserved, .dispatching | .reserved, .unknownOutcome => true
  | .dispatching, .dispatching | .dispatching, .unknownOutcome | .dispatching, .bound => true
  | .unknownOutcome, .unknownOutcome | .unknownOutcome, .bound => true
  | .bound, .bound => true
  | _, _ => false

def updateLaunch (idempotencyKey : String) (status : LaunchStatus) (runId diagnostic : Option String)
    (audit : Option SecurityAuditInput) (uuid : String) (now : Timestamp) (s : DurableState) :
    Body LaunchIntent :=
  match Keyed.lookup (·.idempotencyKey) idempotencyKey s.launchIntents with
  | none => .reject (.error ("Unknown launch idempotency key: " ++ idempotencyKey)) s
  | some intent =>
    if intentAllowed intent.status status = false then
      .reject (.error ("Invalid launch transition: " ++ intent.status.text ++ " -> " ++
        status.text)) s
    else
      let updated := { intent with
        status := status
        updatedAt := now
        runId := runId.or intent.runId
        diagnostic := (diagnostic.map env.redactText).or intent.diagnostic }
      if ¬ LaunchIntentSchema env updated then .reject .schema s
      else if intent.status = .bound ∧ updated.runId ≠ intent.runId then
        .reject (.error "A bound launch cannot be rebound") s
      else
        let next := { s with
          launchIntents := Keyed.put (·.idempotencyKey) updated s.launchIntents }
        match appendOptionalAudit env audit uuid now next with
        | .error e => .reject e s
        | .ok next => .commit updated next

def appendSecurityAudit (input : SecurityAuditInput) (uuid : String) (now : Timestamp)
    (s : DurableState) : Body Unit :=
  match appendSecurityAuditToState env input uuid now s with
  | .error e => .reject e s
  | .ok next => .commit () next

/-! ## Queries -/

def pendingAssignments (s : DurableState) : List Assignment :=
  s.assignments.filter fun a =>
    (a.status = .accepted ∨ a.status = .launching) ∧
      (s.worker? a.sessionId).any fun w => !w.status.isTerminal

def assignmentForResult (assignmentId : String) (s : DurableState) : Except StoreError Assignment :=
  match s.assignment? assignmentId with
  | none => .error (.error ("Unknown assignment: " ++ assignmentId))
  | some a => .ok a

/-- The timed-out sessions the lifecycle reconciliation still has to follow up. -/
def workersPendingLifecycleReconciliation (s : DurableState) : List Worker :=
  s.workers.filter fun w =>
    (raised w.lifecycleReconcilePending || raised w.providerStopPending) && w.runId.isSome

end AgentOrchestrator.Store
