import Mathlib.Logic.Function.Basic
import AgentOrchestrator.Store.Machine

/-!
# Launch dispatch

`LaunchService.dispatch` takes the dispatch lock of an assignment, reads it again, asks the
workspace authorizer and the provider, and records what happened in the store.  Every await is a
point where another party may run, so a dispatch is a program counter `Pc` that `Pc.resume` moves
with the answer of the call it waits for.  A `System` is the state file, the runs the provider
holds, the dispatch locks and any number of dispatchers; a crash drops a dispatcher at any point.
-/

namespace AgentOrchestrator.Launch

open Store

/-! ## What a dispatch records -/

/-- `event`: the identity of a launch event is that of its assignment and type. -/
def event (assignmentId : String) (type : LaunchAuditType) (occurredAt : Timestamp)
    (runId error errorCode : Option String) : LaunchAuditEvent :=
  { id := assignmentId ++ ":" ++ type.text, assignmentId := assignmentId, type := type,
    occurredAt := occurredAt, runId := runId, error := error, errorCode := errorCode }

def auditAssignmentInput (a : Assignment) (decision : AuditDecision) (reason : String)
    (projectId : Option String) : SecurityAuditInput :=
  { requesterId := a.sessionId, operation := "sessions_launch", decision := decision,
    reasonCode := reason, correlationId := a.idempotencyKey, assignmentId := some a.id,
    workspaceId := a.workspaceId, projectId := projectId }

/-! ## The workspace authorizer -/

structure Grant where
  canonicalPath : String
  workspaceId : String
  projectId : Option String
  deriving DecidableEq

/-- Why a launch was refused: whether a retry may help, the reason code and the message. -/
structure Refusal where
  retryable : Bool
  reason : String
  message : String
  deriving DecidableEq

/-- How `authorize` and `revalidate` end. -/
abbrev Authorization := Except Refusal Grant

/-- The check of the workspace before a launch. -/
def authorize (a : Assignment) (answer : Authorization) : Authorization :=
  if a.workspaceId = none then
    .error { retryable := false, reason := "INVALID_ARGUMENT",
             message := "Launch has no workspace identity" }
  else
    match answer with
    | .error refusal => .error refusal
    | .ok grant =>
      if grant.canonicalPath ≠ a.workspacePath then
        .error { retryable := false, reason := "INTEGRITY_FAILURE",
                 message := "Workspace identity changed before launch" }
      else .ok grant

/-! ## The provider -/

/-- What the adapter returns where a run handle is expected. -/
inductive Handle where
  | undefined
  | malformed
  | run (runId : String)
  deriving DecidableEq

/-- What the calls to the provider throw: a malformed handle, or an error with its message, its
error code and the reason code it is audited under. -/
inductive LaunchError where
  | malformedRunHandle
  | other (message : String) (code : Option String) (reason : String)
  deriving DecidableEq

def malformedMessage : String := "Provider returned a malformed run handle"

def validRunHandle : Handle → Except LaunchError (Option String)
  | .undefined => .ok none
  | .malformed => .error .malformedRunHandle
  | .run runId => if runId = "" then .error .malformedRunHandle else .ok (some runId)

/-- The answer of a call to the provider, after the check of its handle. -/
def checkedHandle (answer : Except LaunchError Handle) : Except LaunchError (Option String) :=
  match answer with
  | .error e => .error e
  | .ok handle => validRunHandle handle

/-- The request of `adapter.launch`, less its environment and its revalidation callback. -/
structure LaunchRequest where
  idempotencyKey : String
  prompt : String
  workspacePath : String
  workspaceId : String
  agentPresetId : String
  deriving DecidableEq

def launchRequest (a : Assignment) (grant : Grant) : LaunchRequest :=
  { idempotencyKey := a.idempotencyKey, prompt := a.prompt, workspacePath := grant.canonicalPath,
    workspaceId := grant.workspaceId, agentPresetId := a.attribution.agent }

/-! ## The program of a dispatch -/

/-- Where a dispatch stands, that is, which call it waits for. -/
inductive Pc where
  /-- The lock is held; the assignment is to be read again. -/
  | locked
  | authorizing (a : Assignment)
  /-- A security audit event, after which the dispatch throws. -/
  | auditing (a : Assignment) (decision : AuditDecision) (reason : String)
      (projectId : Option String)
  /-- The launch was refused; an accepted assignment is reserved first. -/
  | reservingRefused (a : Assignment) (refusal : Refusal)
  | failingRefused (a : Assignment) (refusal : Refusal)
  | reserving (a : Assignment) (grant : Grant)
  /-- A recovered launch is looked up at the provider. -/
  | lookingUp (a : Assignment) (grant : Grant)
  | auditingIntent (a : Assignment) (grant : Grant)
  | calling (a : Assignment) (grant : Grant) (request : LaunchRequest)
  /-- The lookup of the `catch` block. -/
  | recovering (a : Assignment) (grant : Grant) (error : LaunchError)
  | failing (a : Assignment) (grant : Grant) (message code : String)
  | recordingLaunched (a : Assignment) (grant : Grant) (runId : String)
  deriving DecidableEq

/-- The answer a dispatch resumes with.  A store call comes with the clock, the identifier it
draws, how its write ends and the text of the error if it throws; a launch call comes with the run
the provider created for it, if any. -/
inductive Input where
  | read
  | authorizer (answer : Authorization)
  | store (now : Timestamp) (uuid : String) (io : WriteOutcome) (failure : String)
  | lookup (answer : Except LaunchError Handle)
  | launch (created : Option String) (answer : Except LaunchError Handle)

/-- The runs the provider holds, by idempotency key. -/
abbrev ProviderRuns := String → Option String

/-- The state after a dispatch resumed; `pc = none` when it returned or threw. -/
structure Effect where
  disk : Disk
  runs : ProviderRuns
  pc : Option Pc

variable (env : Env)

/-- A launch event of the dispatch, and whether it made its transition. -/
def recordEvent (a : Assignment) (target : LaunchTarget) (e : LaunchAuditEvent)
    (audit : Option SecurityAuditInput) (uuid : String) (io : WriteOutcome) (disk : Disk) :
    Disk × Except StoreError LaunchRecord :=
  perform env (recordLaunchEvent env a.id target e audit uuid) io disk

/-- The audit of the dispatch. -/
def auditAssignment (a : Assignment) (decision : AuditDecision) (reason : String)
    (projectId : Option String) (uuid : String) (now : Timestamp) (io : WriteOutcome)
    (disk : Disk) : Disk × Except StoreError Unit :=
  perform env (appendSecurityAudit env (auditAssignmentInput a decision reason projectId) uuid now)
    io disk

/-- The next program counter after the launch was reserved, if it was. -/
def afterReserve (result : Except StoreError LaunchRecord) (next : Assignment → Pc) : Option Pc :=
  match result with
  | .ok record => if record.transitioned then some (next record.assignment) else none
  | .error _ => none

/-- The event that reserves a launch. -/
def reserveEvent (a : Assignment) (now : Timestamp) : LaunchAuditEvent :=
  event a.id .launchReserved now none none none

/-- One step of the dispatch of the assignment `id`; an input it does not wait for is ignored. -/
def Pc.resume (id : String) (disk : Disk) (runs : ProviderRuns) : Pc → Input → Effect
  | .locked, .read =>
    match load env disk with
    | .error _ => ⟨disk, runs, none⟩
    | .ok s =>
      match assignmentForResult id s with
      | .error _ => ⟨disk, runs, none⟩
      | .ok a => ⟨disk, runs,
          if a.status = .accepted ∨ a.status = .launching then some (.authorizing a) else none⟩
  | .authorizing a, .authorizer answer =>
    match authorize a answer with
    | .error refusal => ⟨disk, runs, some <|
        if refusal.retryable then .auditing a .denied refusal.reason none
        else if a.status = .accepted then .reservingRefused a refusal
        else .failingRefused a refusal⟩
    | .ok grant => ⟨disk, runs, some <|
        if a.status = .accepted then .reserving a grant else .lookingUp a grant⟩
  | .auditing a decision reason projectId, .store now uuid io _ =>
    ⟨(auditAssignment env a decision reason projectId uuid now io disk).1, runs, none⟩
  | .reservingRefused a refusal, .store now uuid io _ =>
    let r := recordEvent env a .launching (reserveEvent a now) none uuid io disk
    ⟨r.1, runs, afterReserve r.2 fun _ => .failingRefused a refusal⟩
  | .failingRefused a refusal, .store now uuid io _ =>
    ⟨(recordEvent env a .failed
        (event a.id .launchFailed now none (some (env.redactText refusal.message)) none)
        (some (auditAssignmentInput a .denied refusal.reason none)) uuid io disk).1, runs, none⟩
  | .reserving a grant, .store now uuid io _ =>
    let r := recordEvent env a .launching (reserveEvent a now) none uuid io disk
    ⟨r.1, runs, afterReserve r.2 fun reserved => .auditingIntent reserved grant⟩
  | .lookingUp a grant, .lookup answer =>
    match checkedHandle answer with
    | .ok (some runId) => ⟨disk, runs, some (.recordingLaunched a grant runId)⟩
    | .ok none => ⟨disk, runs, some (.auditingIntent a grant)⟩
    | .error e => ⟨disk, runs, some (.recovering a grant e)⟩
  | .auditingIntent a grant, .store now uuid io failure =>
    let r := auditAssignment env a .allowed "launch_intent" grant.projectId uuid now io disk
    match r.2 with
    | .ok () => ⟨r.1, runs, some (.calling a grant (launchRequest a grant))⟩
    | .error _ => ⟨r.1, runs, some (.recovering a grant (.other failure none "POLICY_DENIED"))⟩
  | .calling a grant request, .launch created answer =>
    let runs := match created with
      | some runId => Function.update runs request.idempotencyKey (some runId)
      | none => runs
    match checkedHandle answer with
    | .ok (some runId) => ⟨disk, runs, some (.recordingLaunched a grant runId)⟩
    | .ok none =>
      ⟨disk, runs, some (.failing a grant malformedMessage "INVALID_PROVIDER_RESPONSE")⟩
    | .error e => ⟨disk, runs, some (.recovering a grant e)⟩
  | .recovering a grant error, .lookup answer =>
    match checkedHandle answer with
    | .error .malformedRunHandle =>
      ⟨disk, runs, some (.failing a grant malformedMessage "INVALID_PROVIDER_RESPONSE")⟩
    | .error (.other _ _ reason) =>
      ⟨disk, runs, some (.auditing a .failed reason grant.projectId)⟩
    | .ok (some runId) => ⟨disk, runs, some (.recordingLaunched a grant runId)⟩
    | .ok none =>
      match error with
      | .malformedRunHandle =>
        ⟨disk, runs, some (.failing a grant malformedMessage "INVALID_PROVIDER_RESPONSE")⟩
      | .other message code _ => ⟨disk, runs,
          if code = some "PROVIDER_UNAVAILABLE" then none
          else some (.failing a grant (env.redactText message) "LAUNCH_REJECTED")⟩
  | .failing a grant message code, .store now uuid io _ =>
    ⟨(recordEvent env a .failed
        (event a.id .launchFailed now none (some message) (some code))
        (some (auditAssignmentInput a .failed code grant.projectId)) uuid io disk).1, runs, none⟩
  | .recordingLaunched a grant runId, .store now uuid io _ =>
    ⟨(recordEvent env a .launched
        (event a.id .executionStarted now (some runId) none none)
        (some (auditAssignmentInput a .allowed "launch_started" grant.projectId)) uuid io disk).1,
      runs, none⟩
  | pc, _ => ⟨disk, runs, some pc⟩

/-! ## The system -/

/-- A dispatch in progress: the assignment whose lock it holds, and whether the worker of that
assignment was terminal when the lock was obtained. -/
structure Frame where
  id : String
  overAtLock : Bool
  pc : Pc

/-- One pass of `dispatchAllPending`: what is left of its snapshot, and its current dispatch. -/
structure Dispatcher where
  todo : List Assignment := []
  frame : Option Frame := none

structure System where
  disk : Disk := none
  runs : ProviderRuns := fun _ => none
  owner : String → Option ℕ := fun _ => none
  dispatchers : ℕ → Dispatcher := fun _ => {}

/-- The launches an acceptance offers, as the launch service builds them. -/
structure Built (offered : List (Assignment × Worker)) : Prop where
  keys : (offered.map (·.1.idempotencyKey)).Nodup
  records : ∀ o ∈ offered, o.1.status = .accepted ∧ o.1.runId = none ∧ o.2.id = o.1.sessionId ∧
    o.2.status = .requested ∧ o.2.runId = none ∧ o.2.preCancelStatus = none

instance (offered : List (Assignment × Worker)) : Decidable (Built offered) :=
  decidable_of_iff ((offered.map (·.1.idempotencyKey)).Nodup ∧
      ∀ o ∈ offered, o.1.status = .accepted ∧ o.1.runId = none ∧ o.2.id = o.1.sessionId ∧
        o.2.status = .requested ∧ o.2.runId = none ∧ o.2.preCancelStatus = none)
    ⟨fun h => ⟨h.1, h.2⟩, fun h => ⟨h.1, h.2⟩⟩

/-- The store calls the other services issue: acceptances, cancellation, deadlines, lifecycle
reconciliation, results and audit.  Launch events are recorded by dispatches only, no service binds
a run or records a terminal outcome directly, and `settleFromProvider` asks the provider about the
bound run of the worker before it settles it. -/
def serviceCall (s : DurableState) : Call → Bool
  | .recordLaunchEvent .. => false
  | .recordWorkerResult .. => false
  | .updateWorker _ (.bindWorkerRun ..) => false
  | .updateWorker _ (.recordWorkerTerminal ..) => false
  | .updateWorker id (.settleWorkerCancellation ..) => (s.worker? id).any fun w => w.runId.isSome
  | c => decide (Built (c.offered env))

inductive Act where
  /-- Another party calls the store. -/
  | service (c : Call) (io : WriteOutcome)
  /-- A dispatcher starts a pass with a snapshot of the pending assignments. -/
  | start (d : ℕ)
  /-- It obtains the lock of the next assignment, or gives up waiting for it. -/
  | lock (d : ℕ)
  | skip (d : ℕ)
  /-- The call its dispatch waits for returns. -/
  | resume (d : ℕ) (input : Input)
  /-- Its dispatch is cut off; the process dies, or the pass goes on. -/
  | crash (d : ℕ) (restart : Bool)

def System.setDispatcher (sys : System) (d : ℕ) (x : Dispatcher) : System :=
  { sys with dispatchers := Function.update sys.dispatchers d x }

/-- The dispatcher gives the lock back. -/
def System.endFrame (sys : System) (d : ℕ) (f : Frame) (todo : List Assignment) : System :=
  { sys.setDispatcher d { todo := todo } with owner := Function.update sys.owner f.id none }

/-- The worker of the assignment is terminal. -/
def overById (s : DurableState) (id : String) : Bool := (s.assignment? id).any (sessionOver s)

/-- One step of the system.  The provider takes a launch up as one step of the dispatch that calls it:
a dispatch that is cut off has made its run before that, or its call makes none. -/
def step (sys : System) : Act → System
  | .service c io =>
    if serviceCall env (contents sys.disk) c then
      { sys with disk := Store.step env sys.disk (c, io) }
    else sys
  | .start d =>
    match (sys.dispatchers d).frame, load env sys.disk with
    | none, .ok s => sys.setDispatcher d { todo := pendingAssignments s }
    | _, _ => sys
  | .lock d =>
    match (sys.dispatchers d).frame, (sys.dispatchers d).todo with
    | none, a :: todo =>
      if sys.owner a.id = none then
        { sys.setDispatcher d
            { todo := todo
              frame := some { id := a.id, overAtLock := overById (contents sys.disk) a.id,
                              pc := .locked } } with
          owner := Function.update sys.owner a.id (some d) }
      else sys
    | _, _ => sys
  | .skip d =>
    match (sys.dispatchers d).frame with
    | none => sys.setDispatcher d { todo := (sys.dispatchers d).todo.tail }
    | some _ => sys
  | .resume d input =>
    match (sys.dispatchers d).frame with
    | none => sys
    | some f =>
      let e := f.pc.resume env f.id sys.disk sys.runs input
      let sys := { sys with disk := e.disk, runs := e.runs }
      match e.pc with
      | some pc => sys.setDispatcher d
          { todo := (sys.dispatchers d).todo, frame := some { f with pc := pc } }
      | none => sys.endFrame d f (sys.dispatchers d).todo
  | .crash d restart =>
    match (sys.dispatchers d).frame with
    | none => sys.setDispatcher d
        { todo := if restart then [] else (sys.dispatchers d).todo }
    | some f => sys.endFrame d f (if restart then [] else (sys.dispatchers d).todo)

end AgentOrchestrator.Launch
