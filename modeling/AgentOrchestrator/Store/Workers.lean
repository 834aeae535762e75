import AgentOrchestrator.Store.Schema

/-!
# What the store does to one worker

The bodies of the operations that rewrite a single worker record, one function for each method
of `DurableStore`.  `WorkerUpdate` lists the methods that go through `updateWorker`; a launch
event, a captured result and the two sweeps over all workers have their own functions.
-/

namespace AgentOrchestrator.Store

/-- A flag is raised when it is defined and true. -/
def raised (flag : Option Bool) : Bool := flag.getD false

def maxLateObservations : ℕ := 32

/-- Keeps the last `MAX_LATE_OBSERVATIONS` observations. -/
def appendLateObservation (o : LateObservation) (w : Worker) : Worker :=
  let observations := w.lateObservations.getD [] ++ [o]
  { w with lateObservations := some (observations.drop (observations.length - maxLateObservations)) }

/-! ## Methods that go through `updateWorker` -/

/-- Binds a worker to exactly one execution identity. -/
def bindWorkerRun (runId : String) (execution : Option (ℕ × String)) (w : Worker) :
    Except StoreError Worker :=
  if w.status.isTerminal then
    .error (.batchQuery .invalidRequest "Cannot bind a terminal worker to a run")
  else if w.runId ≠ none ∧ w.runId ≠ some runId then
    .error (.batchQuery .invalidRequest "Worker is already bound to another run")
  else
    match execution with
    | none => .ok { w with runId := some runId }
    | some (pid, processStartedAt) =>
      if w.status = .requested ∨ w.status = .running then
        .ok { w with
          runId := some runId
          status := .running
          pid := some pid
          processStartedAt := some processStartedAt }
      else .ok { w with runId := some runId }

def setWorkerDeadline (deadline : Timestamp) (w : Worker) : Except StoreError Worker :=
  if w.status.isTerminal then
    .error (.batchQuery .invalidRequest "Cannot set a deadline on a terminal session")
  else .ok { w with deadlineAt := some deadline }

/-- The assignment whose session is the worker. -/
def launchOf (s : DurableState) (w : Worker) : Option Assignment :=
  s.assignments.find? fun a => a.sessionId = w.id

/-- The launch of the worker is in progress. -/
def launchInProgress (s : DurableState) (w : Worker) : Bool :=
  (launchOf s w).any fun a => a.status = .launching

/-- What a cancellation request reports: whether this call made the transition, and whether it
settled the session locally. -/
structure CancellationClaim where
  claimed : Bool
  isLocal : Bool
  deriving DecidableEq

/-- Records cancellation intent, or cancels locally when there is nothing to stop. -/
def requestWorkerCancellation (s : DurableState) (reason : String) (detail : Option String)
    (now : Timestamp) (w : Worker) : Worker × CancellationClaim :=
  if w.status.isTerminal ∨ w.status = .canceling then (w, ⟨false, false⟩)
  else if w.runId = none ∧ launchInProgress s w = false then
    ({ w with
        status := .canceled
        completedAt := some now
        stopReason := some reason
        stopDetail := detail.or w.stopDetail }, ⟨true, true⟩)
  else
    ({ w with
        preCancelStatus := some w.status
        status := .canceling
        cancellationDeliveryPending := some true
        cancelRequestedAt := some now
        stopReason := some reason
        stopDetail := detail.or w.stopDetail }, ⟨true, false⟩)

def claimCancellationDelivery (w : Worker) : Worker × Bool :=
  if raised w.cancellationDeliveryPending = false ∨ raised w.cancellationDeliveryClaimed then
    (w, false)
  else
    ({ w with
        cancellationDeliveryPending := none
        cancellationDeliveryClaimed := some true }, true)

def releaseCancellationDelivery (w : Worker) : Worker :=
  let w := { w with cancellationDeliveryClaimed := none }
  if w.status = .canceling then { w with cancellationDeliveryPending := some true }
  else if w.status = .failed ∧ w.stopReason = some "deadline_exceeded" ∧ w.runId ≠ none then
    { w with providerStopPending := some true }
  else w

def markCancellationDelivered (w : Worker) : Worker :=
  { w with
    cancellationDeliveryPending := none
    cancellationDeliveryClaimed := none
    cancellationDelivered := some true
    providerStopPending := none
    providerStopClaimed := none }

def markProviderStopDelivered (w : Worker) : Worker :=
  { w with
    providerStopPending := none
    providerStopClaimed := none
    providerStopUnsupported := none }

def markProviderStopUnsupported (w : Worker) : Worker :=
  { w with
    providerStopPending := none
    providerStopClaimed := none
    providerStopUnsupported := some true }

/-- Drops the cancellation intent of a canceling worker and restores its earlier status. -/
def withdrawCancellation (w : Worker) : Worker :=
  { w with
    status := w.preCancelStatus.getD .requested
    preCancelStatus := none
    cancelRequestedAt := none
    stopReason := none
    stopDetail := none }

def handleUnsupportedCancellation (w : Worker) : Worker :=
  let w := { w with cancellationDeliveryPending := none, cancellationDeliveryClaimed := none }
  if w.status = .failed ∧ w.stopReason = some "deadline_exceeded" then
    { w with
      providerStopPending := none
      providerStopClaimed := none
      providerStopUnsupported := some true }
  else if w.status = .canceling then withdrawCancellation w
  else w

def claimProviderStop (w : Worker) : Worker × Bool :=
  if raised w.providerStopPending = false ∨ raised w.providerStopClaimed then (w, false)
  else ({ w with providerStopPending := none, providerStopClaimed := some true }, true)

def releaseProviderStop (w : Worker) : Worker :=
  let w := { w with providerStopClaimed := none }
  if w.runId ≠ none then { w with providerStopPending := some true } else w

def clearWorkerCancellation (w : Worker) : Worker :=
  if w.status = .canceling then
    { withdrawCancellation w with
      cancellationDeliveryPending := none
      cancellationDeliveryClaimed := none
      cancellationDelivered := none }
  else w

/-- The stop reason a terminal outcome gets: the caller's, or the default for its status. -/
def terminalStopReason (status : TerminalWorkerStatus) (explicit : Option String)
    (succeededReason : String) (recorded : Option String) : Option String :=
  explicit.or <| match status with
    | .succeeded => some succeededReason
    | .canceled => some (recorded.getD "user_requested")
    | .failed => some "execution_error"
    | .unknownOutcome => none

/-- Appends the one winning terminal outcome; on a terminal worker only late evidence. -/
def recordWorkerTerminal (status : TerminalWorkerStatus) (result : Option Json)
    (stopReason : Option String) (now : Timestamp) (w : Worker) : Worker :=
  if w.status.isTerminal then
    let retained := result.isSome && w.result.isNone
    let w := if retained then { w with result := result } else w
    let w := appendLateObservation
      { observedAt := now, status := status.text, retainedResult := retained } w
    { w with lifecycleReconcilePending := none }
  else
    let succeededReason :=
      if w.status = .canceling then "succeeded_before_cancellation" else "succeeded"
    { w with
      status := status.status
      completedAt := some now
      lifecycleReconcilePending := none
      cancellationDeliveryPending := none
      cancellationDeliveryClaimed := none
      result := result.or w.result
      preCancelStatus := none
      stopReason := terminalStopReason status stopReason succeededReason w.stopReason }

/-- Records a provider terminal observation only if cancellation is still pending; late evidence
on a terminal worker. -/
def settleWorkerCancellation (status : TerminalWorkerStatus) (result : Option Json)
    (stopReason : Option String) (now : Timestamp) (keepReconciliationPending : Bool)
    (w : Worker) : Worker × Bool :=
  if w.status.isTerminal then
    let wasPending := raised w.lifecycleReconcilePending
    let retained := result.isSome && w.result.isNone
    let changed := result.isSome && decide (w.result ≠ result)
    let w' := if retained ∨ (result.isSome ∧ wasPending) then { w with result := result } else w
    let w' := if retained ∨ changed ∨ keepReconciliationPending = false then
        appendLateObservation
          { observedAt := now, status := status.text, retainedResult := retained } w'
      else w'
    ({ w' with
        lifecycleReconcilePending :=
          if keepReconciliationPending ∧ wasPending then some true else none
        cancellationDeliveryPending := none
        cancellationDeliveryClaimed := none }, false)
  else if w.status = .canceling then
    ({ w with
        status := status.status
        completedAt := some now
        lifecycleReconcilePending := if keepReconciliationPending then some true else none
        cancellationDeliveryPending := none
        cancellationDeliveryClaimed := none
        result := result.or w.result
        preCancelStatus := none
        stopReason := terminalStopReason status stopReason "succeeded_before_cancellation"
          w.stopReason }, true)
  else (w, false)

/-- The deadline of the worker is recorded and not after `now`. -/
def overdue (now : Timestamp) (w : Worker) : Bool :=
  match w.deadlineAt with
  | none => false
  | some deadline => !decide (now < deadline)

/-- Expires one worker whose deadline passed. -/
def expireWorker (s : DurableState) (deadline : Option Timestamp) (now : Timestamp)
    (w : Worker) : Worker × Bool :=
  let w := { w with deadlineAt := deadline.or w.deadlineAt }
  if w.status.isTerminal ∨ overdue now w = false then (w, false)
  else
    let w' := { w with
      status := .failed
      stopReason := some "deadline_exceeded"
      completedAt := some now
      cancellationDeliveryPending := none
      cancellationDeliveryClaimed :=
        if raised w.cancellationDeliveryClaimed then w.cancellationDeliveryClaimed else none
      preCancelStatus := none }
    if w.runId ≠ none ∨ launchInProgress s w then
      ({ w' with
          lifecycleReconcilePending := some true
          providerStopPending :=
            if raised w.cancellationDeliveryClaimed = false ∧ raised w.cancellationDelivered = false
            then some true else w.providerStopPending }, true)
    else (w', true)

/-- `validateStopReason`. -/
def validateStopReason (status : TerminalWorkerStatus) (reason : Option String) :
    Except StoreError Unit :=
  if status ≠ .unknownOutcome ∧ ¬ StopReasonAllowed status.status reason then
    .error (.batchQuery .invalidRequest
      (status.text ++ " cannot use stop reason " ++ Json.quote (reason.getD "")))
  else .ok ()

/-- The methods that rewrite one worker through `updateWorker`, with their arguments. -/
inductive WorkerUpdate where
  | bindWorkerRun (runId : String) (execution : Option (ℕ × String))
  | setWorkerDeadline (deadline : Timestamp)
  | requestWorkerCancellation (reason : String) (detail : Option String) (now : Timestamp)
  | claimCancellationDelivery
  | releaseCancellationDelivery
  | markCancellationDelivered
  | markProviderStopDelivered
  | markProviderStopUnsupported
  | handleUnsupportedCancellation
  | claimProviderStop
  | releaseProviderStop
  | clearWorkerCancellation
  | recordWorkerTerminal (status : TerminalWorkerStatus) (result : Option Json)
      (stopReason : Option String) (now : Timestamp)
  | settleWorkerCancellation (status : TerminalWorkerStatus) (result : Option Json)
      (stopReason : Option String) (now : Timestamp) (keepReconciliationPending : Bool)
  | expireWorker (deadline : Option Timestamp) (now : Timestamp)
  deriving DecidableEq

/-- The checks a method makes on its arguments before it takes the lock. -/
def WorkerUpdate.validate : WorkerUpdate → Except StoreError Unit
  | .requestWorkerCancellation reason _ _ =>
    if reason ∈ cancellationReasons then .ok ()
    else .error (.batchQuery .invalidRequest ("Unsupported cancellation reason: " ++ reason))
  | .recordWorkerTerminal status _ stopReason _ => validateStopReason status stopReason
  | .settleWorkerCancellation status _ stopReason _ _ => validateStopReason status stopReason
  | _ => .ok ()

/-- The rewritten worker, and what the method reports besides it. -/
def WorkerUpdate.apply (s : DurableState) (w : Worker) :
    WorkerUpdate → Except StoreError (Worker × CancellationClaim)
  | .bindWorkerRun runId execution =>
    (Store.bindWorkerRun runId execution w).map fun w' => (w', ⟨false, false⟩)
  | .setWorkerDeadline deadline =>
    (Store.setWorkerDeadline deadline w).map fun w' => (w', ⟨false, false⟩)
  | .requestWorkerCancellation reason detail now =>
    .ok (Store.requestWorkerCancellation s reason detail now w)
  | .claimCancellationDelivery =>
    .ok ((Store.claimCancellationDelivery w).1, ⟨(Store.claimCancellationDelivery w).2, false⟩)
  | .releaseCancellationDelivery => .ok (Store.releaseCancellationDelivery w, ⟨false, false⟩)
  | .markCancellationDelivered => .ok (Store.markCancellationDelivered w, ⟨false, false⟩)
  | .markProviderStopDelivered => .ok (Store.markProviderStopDelivered w, ⟨false, false⟩)
  | .markProviderStopUnsupported => .ok (Store.markProviderStopUnsupported w, ⟨false, false⟩)
  | .handleUnsupportedCancellation => .ok (Store.handleUnsupportedCancellation w, ⟨false, false⟩)
  | .claimProviderStop =>
    .ok ((Store.claimProviderStop w).1, ⟨(Store.claimProviderStop w).2, false⟩)
  | .releaseProviderStop => .ok (Store.releaseProviderStop w, ⟨false, false⟩)
  | .clearWorkerCancellation => .ok (Store.clearWorkerCancellation w, ⟨false, false⟩)
  | .recordWorkerTerminal status result stopReason now =>
    .ok (Store.recordWorkerTerminal status result stopReason now w, ⟨false, false⟩)
  | .settleWorkerCancellation status result stopReason now keep =>
    let r := Store.settleWorkerCancellation status result stopReason now keep w
    .ok (r.1, ⟨r.2, false⟩)
  | .expireWorker deadline now =>
    let r := Store.expireWorker s deadline now w
    .ok (r.1, ⟨r.2, false⟩)

end AgentOrchestrator.Store
