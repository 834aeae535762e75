import AgentOrchestrator.Launch.Dispatch
import AgentOrchestrator.Store.Versions

/-!
# The lifecycle service

`LifecycleService` cancels sessions, enforces deadlines and reconciles what it has begun.  Every
await is a point where another party may run, so the work on one session is a program counter `Pc`
that `Pc.resume` moves with the answer of the call it waits for.  A stop call that times out while
the adapter ignores the abort goes on in the background, and its claim is released, with retries,
once the call has settled.  A `System` is the launch system with any number of such tasks, over any
number of instances of the service; the limit on concurrent provider calls is left out.
-/

namespace AgentOrchestrator.Lifecycle

open Store

/-! ## The provider -/

inductive RunStatus where
  | queued | running | succeeded | failed | cancelled
  deriving DecidableEq

inductive TerminalRunStatus where
  | succeeded | failed | cancelled
  deriving DecidableEq

def TerminalRunStatus.text : TerminalRunStatus → String
  | .succeeded => "succeeded"
  | .failed => "failed"
  | .cancelled => "cancelled"

def RunStatus.terminal : RunStatus → Option TerminalRunStatus
  | .queued | .running => none
  | .succeeded => some .succeeded
  | .failed => some .failed
  | .cancelled => some .cancelled

/-- The fields of `RunState` that the service reads. -/
structure RunState where
  runId : String
  status : RunStatus
  deriving DecidableEq

inductive RunResult where
  | succeeded (output : String) (resume : Option ResumeMetadata)
  | failed (error : String) (retryable : Bool) (output : Option String)
      (resume : Option ResumeMetadata)
  | cancelled (reason output : Option String) (resume : Option ResumeMetadata)
  deriving DecidableEq

def RunResult.status : RunResult → TerminalRunStatus
  | .succeeded .. => .succeeded
  | .failed .. => .failed
  | .cancelled .. => .cancelled

/-- What `adapter.cancel` returns; `undefined` counts as accepted. -/
inductive CancellationOutcome where
  | accepted | unsupported
  deriving DecidableEq

/-- How a call to the provider fails: with a response that does not parse, or in any other way,
such as a timeout, also one in the queue. -/
inductive ProviderFailure where
  | malformed | oversized | unavailable
  deriving DecidableEq

/-! ## Results -/

inductive ResultDelivery where
  | adapterResult (result : RunResult)
  | stoppedWithoutResult (status : TerminalRunStatus) (stopReason : Option String)
  | malformed (error : String)

def completeness : Option String → ResultCompleteness
  | none => .missing
  | some output => if output.length = 0 then .empty else .partly

def normalize : ResultDelivery → AgentResultClaim
  | .malformed error => { status := .malformed, completeness := .malformed, error := some error }
  | .stoppedWithoutResult _ stopReason =>
    { status := .stoppedWithoutResult, completeness := .missing, stopReason := stopReason }
  | .adapterResult (.succeeded output resume) =>
    { status := .succeeded, completeness := if output.length = 0 then .empty else .complete,
      output := some output, resume := resume }
  | .adapterResult (.failed error retryable output resume) =>
    { status := .failed, completeness := completeness output, error := some error,
      retryable := some retryable, output := output, resume := resume }
  | .adapterResult (.cancelled reason output resume) =>
    { status := .cancelled, completeness := completeness output, stopReason := reason,
      output := output, resume := resume }

/-- The message of a result that could not be retrieved. -/
def resultFailure : ProviderFailure → String
  | .malformed => "Provider result response was malformed"
  | .oversized => "Provider result response was oversized"
  | .unavailable => "Provider terminal result could not be retrieved"

/-- The claim `settleFromProvider` records for an observed status. -/
def observedClaim (observed : TerminalRunStatus) :
    Except ProviderFailure (Option RunResult) → AgentResultClaim
  | .error failure => normalize (.malformed (resultFailure failure))
  | .ok none => normalize (.stoppedWithoutResult observed none)
  | .ok (some result) =>
    if result.status = observed then normalize (.adapterResult result)
    else normalize (.malformed ("Adapter result status " ++ Json.quote result.status.text ++
      " did not match observed status " ++ Json.quote observed.text))

/-- The result is missing or does not fit, so the reconciliation stays pending. -/
def keepsPending (observed : TerminalRunStatus) : Except ProviderFailure (Option RunResult) → Bool
  | .ok (some result) => decide (result.status ≠ observed)
  | _ => true

def terminalStatusFor : TerminalRunStatus → TerminalWorkerStatus
  | .succeeded => .succeeded
  | .failed => .failed
  | .cancelled => .canceled

/-! ## Tasks -/

/-- The calls of the service that stop a run. -/
inductive Caller where
  | cancelSession | reconcileCancellations | enforceDeadlines | reconcileTimedOutResults
  deriving DecidableEq

/-- The call delivers a cancellation; the others stop a run past its deadline. -/
def Caller.delivers : Caller → Bool
  | .cancelSession | .reconcileCancellations => true
  | .enforceDeadlines | .reconcileTimedOutResults => false

/-- The stop of a run on behalf of a call. -/
structure Stop where
  caller : Caller
  sessionId : String
  runId : String
  reason : Option String
  deriving DecidableEq

/-- Where the work on a session stands, that is, which call it waits for. -/
inductive Pc where
  /-- `cancelSession` reads the session. -/
  | reading (supported : Bool) (sessionId reason : String) (detail : Option String)
  | requesting (sessionId reason : String) (detail : Option String)
  | claiming (x : Stop)
  /-- The claim is made; `providerCall` waits for a slot. -/
  | queued (x : Stop)
  /-- `adapter.cancel` is in flight. -/
  | stopping (x : Stop)
  /-- The provider does not support the stop. -/
  | rejected (x : Stop)
  | acknowledged (x : Stop)
  | releasing (x : Stop)
  /-- `adapter.status` of `settleFromProvider`. -/
  | observing (x : Stop)
  /-- `adapter.result` of `settleFromProvider`. -/
  | fetching (x : Stop) (observed : TerminalRunStatus)
  | settling (x : Stop) (observed : TerminalRunStatus) (claim : AgentResultClaim) (keep : Bool)
  deriving DecidableEq

/-- The answer a task resumes with.  `timeout` is the timeout of a stop call, with whether the call
has settled when the claim is to be released. -/
inductive Input where
  | read
  | store (now : Timestamp) (io : WriteOutcome)
  | slot (granted : Bool)
  | cancel (answer : Except ProviderFailure CancellationOutcome)
  | timeout (settled : Bool)
  | status (answer : Except ProviderFailure RunState)
  | result (answer : Except ProviderFailure (Option RunResult))

/-- What happens besides the changes of the file: the provider acknowledges a stop call for a run,
and `markProviderStopDelivered` is recorded for a session. -/
inductive Event where
  | acknowledged (runId : String)
  | stopRecorded (sessionId : String)
  deriving DecidableEq

/-- The state after a task resumed; `pc = none` when it returned or threw.  A stop call may go on
in the background. -/
structure Effect where
  disk : Disk
  pc : Option Pc
  background : Option Stop := none
  events : List Event := []

variable (env : Env)

/-- A method of the store that goes through `updateWorker`. -/
def update (workerId : String) (u : WorkerUpdate) (io : WriteOutcome) (disk : Disk) :
    Disk × Except StoreError (Worker × CancellationClaim) :=
  match u.validate with
  | .error e => (disk, .error e)
  | .ok () => perform env (updateWorker workerId u) io disk

/-- The write took effect, although it may be reported as failed. -/
def recorded {α : Type} (io : WriteOutcome) : Except StoreError α → Bool
  | .ok _ => true
  | .error e => decide (e = .write ∧ io = .failedAfterRename)

def Caller.claim (caller : Caller) : WorkerUpdate :=
  if caller.delivers then .claimCancellationDelivery else .claimProviderStop

def Caller.reject (caller : Caller) : WorkerUpdate :=
  if caller.delivers then .handleUnsupportedCancellation else .markProviderStopUnsupported

def Caller.deliver (caller : Caller) : WorkerUpdate :=
  if caller.delivers then .markCancellationDelivered else .markProviderStopDelivered

def Caller.release (caller : Caller) : WorkerUpdate :=
  if caller.delivers then .releaseCancellationDelivery else .releaseProviderStop

/-- Only `reconcileCancellations` looks at the run after a failed stop. -/
def Stop.afterFailure (x : Stop) : Option Pc :=
  match x.caller with
  | .reconcileCancellations => some (.observing x)
  | _ => none

/-- One step of a task; an input it does not wait for is ignored. -/
def Pc.resume (disk : Disk) : Pc → Input → Effect
  | .reading supported id reason detail, .read =>
    match load env disk with
    | .error _ => { disk := disk, pc := none }
    | .ok s =>
      match s.worker? id with
      | none => { disk := disk, pc := none }
      | some w =>
        { disk := disk
          pc := if w.status.isTerminal ∨ w.status = .canceling ∨ supported = false then none
            else some (.requesting id reason detail) }
  | .requesting id reason detail, .store now io =>
    let r := update env id (.requestWorkerCancellation reason detail now) io disk
    { disk := r.1
      pc := match r.2 with
        | .error _ => none
        | .ok (w, claim) =>
          if claim.claimed = false ∨ claim.isLocal then none
          else w.runId.map fun runId => .claiming
            { caller := .cancelSession, sessionId := id, runId := runId,
              reason := some (detail.getD reason) } }
  | .claiming x, .store _ io =>
    let r := update env x.sessionId x.caller.claim io disk
    { disk := r.1
      pc := match r.2 with
        | .error _ => none
        | .ok (_, claim) =>
          if claim.claimed then some (.queued x)
          else if x.caller.delivers then none
          else some (.observing x) }
  | .queued x, .slot granted =>
    { disk := disk, pc := some (if granted then .stopping x else .releasing x) }
  | .stopping x, .cancel answer =>
    match answer with
    | .ok .accepted =>
      { disk := disk, pc := some (.acknowledged x), events := [.acknowledged x.runId] }
    | .ok .unsupported => { disk := disk, pc := some (.rejected x) }
    | .error _ => { disk := disk, pc := some (.releasing x) }
  | .stopping x, .timeout settled =>
    if settled then { disk := disk, pc := some (.releasing x) }
    else { disk := disk, pc := x.afterFailure, background := some x }
  | .rejected x, .store _ io =>
    let r := update env x.sessionId x.caller.reject io disk
    { disk := r.1
      pc := match r.2 with
        | .error _ => some (.releasing x)
        | .ok _ => if x.caller.delivers then none else some (.observing x) }
  | .acknowledged x, .store _ io =>
    let r := update env x.sessionId x.caller.deliver io disk
    { disk := r.1
      pc := match r.2 with
        | .error _ => some (.releasing x)
        | .ok _ => some (.observing x)
      events :=
        if x.caller.delivers = false ∧ recorded io r.2 then [.stopRecorded x.sessionId] else [] }
  | .releasing x, .store _ io =>
    let r := update env x.sessionId x.caller.release io disk
    { disk := r.1
      pc := match r.2 with
        | .error _ => none
        | .ok _ => x.afterFailure }
  | .observing x, .status answer =>
    { disk := disk
      pc := match answer with
        | .error _ => none
        | .ok state =>
          if state.runId ≠ x.runId then none else state.status.terminal.map (.fetching x) }
  | .fetching x observed, .result answer =>
    { disk := disk
      pc := some (.settling x observed (observedClaim observed answer)
        (keepsPending observed answer)) }
  | .settling x observed claim keep, .store now io =>
    { disk := (update env x.sessionId (.settleWorkerCancellation (terminalStatusFor observed)
        (some claim.toJson) (if observed = .failed then some "execution_error" else none) now keep)
        io disk).1
      pc := none }
  | pc, _ => { disk := disk, pc := some pc }

/-! ## Sweeps -/

def cancelingWorkers (s : DurableState) : List Worker :=
  s.workers.filter fun w => w.status = .canceling ∧ w.runId ≠ none

/-- The overdue sessions, oldest deadline first, at most 250 of them. -/
def overdueWorkers (now : Timestamp) (s : DurableState) : List Worker :=
  let workers := s.workers.filter fun w => overdue now w ∧ w.status.isTerminal = false
  (workers.mergeSort fun left right =>
    env.localeCompare (left.deadlineAt.getD "") (right.deadlineAt.getD "") ≠ .gt).take 250

/-- A call over all sessions of a kind: the overdue ones still to expire, and those whose work has
not begun. -/
structure Sweep where
  caller : Caller
  now : Timestamp
  expiring : List Worker := []
  items : List Worker := []

def Caller.sweep (caller : Caller) (now : Timestamp) (s : DurableState) : Sweep :=
  match caller with
  | .enforceDeadlines => { caller := caller, now := now, expiring := overdueWorkers env now s }
  | .reconcileCancellations => { caller := caller, now := now, items := cancelingWorkers s }
  | .reconcileTimedOutResults =>
    { caller := caller, now := now, items := workersPendingLifecycleReconciliation s }
  | .cancelSession => { caller := caller, now := now }

/-- Where the work on a session of a sweep begins. -/
def Caller.opening (caller : Caller) (supported : Bool) (w : Worker) : Option Pc :=
  w.runId.bind fun runId =>
    let stop := fun reason =>
      ({ caller := caller, sessionId := w.id, runId := runId, reason := reason } : Stop)
    match caller with
    | .enforceDeadlines =>
      if supported then some (.claiming (stop (some "deadline_exceeded"))) else none
    | .reconcileCancellations =>
      let x := stop (w.stopDetail.or w.stopReason)
      some (if raised w.cancellationDeliveryPending then .claiming x else .observing x)
    | .reconcileTimedOutResults =>
      let x := stop w.stopReason
      some (if raised w.providerStopPending ∧ supported then .claiming x else .observing x)
    | .cancelSession => none

/-! ## The system -/

/-- A stop call in the background: in flight, or settled with its claim to be released. -/
structure Background where
  stop : Stop
  settled : Bool := false
  deriving DecidableEq

structure System where
  launch : Launch.System := {}
  tasks : ℕ → Option Pc := fun _ => none
  background : ℕ → Option Background := fun _ => none
  sweeps : ℕ → Option Sweep := fun _ => none
  events : List Event := []

def System.disk (sys : System) : Disk := sys.launch.disk

/-- A worker as the launch service and `createBatch` build it. -/
def Fresh (w : Worker) : Prop :=
  w = { id := w.id, batchId := w.batchId, sessionId := w.sessionId, status := .requested,
        attribution := w.attribution, startedAt := w.startedAt, position := w.position }

instance (w : Worker) : Decidable (Fresh w) := inferInstanceAs (Decidable (w = _))

/-- The calls of the other parties: batches, acceptances, deadlines, launch intents, results,
audit and the reconciliation of processes. -/
def otherCall : Call → Bool
  | .updateWorker _ (.setWorkerDeadline _) => true
  | .updateWorker .. | .recoverLifecycleDeliveryClaims | .recordWorkerResult ..
  | .recordLaunchEvent .. => false
  | .acceptLaunch .. | .acceptLaunchBatch .. | .createBatch .. | .reconcile .. | .reserveLaunch ..
  | .updateLaunch .. | .appendSecurityAudit .. | .captureResult .. => true

/-- The launch system may make the step: the services' calls of it are those of other parties. -/
def launchAct : Launch.Act → Prop
  | .service c _ => otherCall c = true ∧ ∀ w ∈ c.added env, Fresh w
  | _ => True

instance : DecidablePred (launchAct env)
  | .service c _ => inferInstanceAs (Decidable (otherCall c = true ∧ ∀ w ∈ c.added env, Fresh w))
  | .start _ | .lock _ | .skip _ | .resume .. | .crash .. => inferInstanceAs (Decidable True)

inductive Act where
  /-- A step of the launch system, or a call of another party. -/
  | launch (act : Launch.Act)
  /-- A call of `cancelSession` begins as the task `t`. -/
  | cancelSession (t : ℕ) (supported : Bool) (sessionId reason : String) (detail : Option String)
  /-- A sweep takes its snapshot. -/
  | sweep (k : ℕ) (caller : Caller) (now : Timestamp)
  /-- `enforceDeadlines` expires its next session. -/
  | expire (k : ℕ) (io : WriteOutcome)
  /-- The work on the next session of a sweep begins as the task `t`. -/
  | begin (k t : ℕ) (supported : Bool)
  /-- The call a task waits for returns. -/
  | resume (t : ℕ) (input : Input)
  /-- A stop call in the background settles. -/
  | settle (t : ℕ)
  /-- The claim of a settled stop call is released; a failed release is tried again. -/
  | release (t : ℕ) (io : WriteOutcome)
  /-- Processes die, with their tasks and sweeps. -/
  | crash (tasks sweeps : ℕ → Bool)
  | recoverLifecycleDeliveryClaims (io : WriteOutcome)

/-- The sweep after an expiry: a claimed session waits for its stop, an error ends the sweep. -/
def afterExpiry (now : Timestamp) (expiring items : List Worker) :
    Except StoreError (Worker × CancellationClaim) → Option Sweep
  | .error _ => none
  | .ok (settled, claim) => some
      { caller := .enforceDeadlines, now := now, expiring := expiring,
        items := if claim.claimed ∧ settled.status.isTerminal then items ++ [settled] else items }

def System.setDisk (sys : System) (disk : Disk) : System :=
  { sys with launch := { sys.launch with disk := disk } }

def System.setTask (sys : System) (t : ℕ) (pc : Option Pc) : System :=
  { sys with tasks := Function.update sys.tasks t pc }

def System.setSweep (sys : System) (k : ℕ) (x : Option Sweep) : System :=
  { sys with sweeps := Function.update sys.sweeps k x }

def System.setBackground (sys : System) (t : ℕ) (b : Option Background) : System :=
  { sys with background := Function.update sys.background t b }

/-- The system after a task resumed. -/
def System.resumed (sys : System) (t : ℕ) (e : Effect) : System :=
  let background := (e.background.map fun x => { stop := x }).or (sys.background t)
  { ((sys.setDisk e.disk).setTask t e.pc).setBackground t background with
    events := sys.events ++ e.events }

/-- The task number is not in use. -/
def System.idle (sys : System) (t : ℕ) : Bool :=
  (sys.tasks t).isNone && (sys.background t).isNone

def step (sys : System) : Act → System
  | .launch act =>
    if launchAct env act then { sys with launch := Launch.step env sys.launch act } else sys
  | .cancelSession t supported sessionId reason detail =>
    if sys.idle t then sys.setTask t (some (.reading supported sessionId reason detail)) else sys
  | .sweep k caller now =>
    match sys.sweeps k, load env sys.disk with
    | none, .ok s => sys.setSweep k (some (caller.sweep env now s))
    | _, _ => sys
  | .expire k io =>
    match sys.sweeps k with
    | some ⟨.enforceDeadlines, now, w :: expiring, items⟩ =>
      let r := update env w.id (.expireWorker none now) io sys.disk
      (sys.setDisk r.1).setSweep k (afterExpiry now expiring items r.2)
    | _ => sys
  | .begin k t supported =>
    match sys.sweeps k with
    | some ⟨caller, now, [], w :: items⟩ =>
      if sys.idle t then
        (sys.setSweep k (some ⟨caller, now, [], items⟩)).setTask t (caller.opening supported w)
      else sys
    | _ => sys
  | .resume t input =>
    match sys.tasks t with
    | none => sys
    | some pc => sys.resumed t (pc.resume env sys.disk input)
  | .settle t => sys.setBackground t ((sys.background t).map fun b => { b with settled := true })
  | .release t io =>
    match sys.background t with
    | some ⟨x, true⟩ =>
      let r := update env x.sessionId x.caller.release io sys.disk
      (sys.setDisk r.1).setBackground t <| match r.2 with
        | .error _ => some ⟨x, true⟩
        | .ok _ => none
    | _ => sys
  | .crash tasks sweeps =>
    { sys with
      tasks := fun t => if tasks t then none else sys.tasks t
      background := fun t => if tasks t then none else sys.background t
      sweeps := fun k => if sweeps k then none else sys.sweeps k }
  | .recoverLifecycleDeliveryClaims io =>
    sys.setDisk (perform env recoverLifecycleDeliveryClaims io sys.disk).1

end AgentOrchestrator.Lifecycle
