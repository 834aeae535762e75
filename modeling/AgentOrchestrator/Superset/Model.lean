import Mathlib.Logic.Function.Basic
import AgentOrchestrator.Store.Operations

/-!
# The live Superset adapter

`SupersetLocalMcpAdapter` binds idempotency keys to Superset sessions in a run-state file.  A
launch takes the lock of the file, writes a pending intent, calls `agents_create` and replaces the
intent by the binding.  Every await is a point where other launches, other processes or a crash
may come in between, so a launch is a program counter `Pc` that `Pc.resume` moves with the answer
of what it waits for.  A `System` is the file, its lock, the launches in progress in any number of
processes and the `agents_create` calls issued so far.
-/

namespace AgentOrchestrator.Superset

open Store (WriteOutcome)

/-! ## The run-state file -/

structure BoundRecord where
  runId : String
  workspaceId : String
  agentPresetId : String
  createdAt : String
  deriving DecidableEq

/-- The intent written before `agents_create` is sent. -/
structure PendingRecord where
  attemptId : String
  workspaceId : String
  agentPresetId : String
  startedAt : String
  deriving DecidableEq

structure ProviderState where
  runs : String → Option BoundRecord := fun _ => none
  pending : String → Option PendingRecord := fun _ => none

namespace ProviderState

def setPending (state : ProviderState) (key : String) (record : PendingRecord) : ProviderState :=
  { state with pending := Function.update state.pending key (some record) }

/-- `delete state.pending?.[key]`. -/
def clearPending (state : ProviderState) (key : String) : ProviderState :=
  { state with pending := Function.update state.pending key none }

def setRun (state : ProviderState) (key : String) (record : BoundRecord) : ProviderState :=
  { state with runs := Function.update state.runs key (some record) }

end ProviderState

/-- The file on disk; `none` before the first write. -/
abbrev File := Option ProviderState

/-! ## Errors -/

/-- An error as the launch service sees it: its message, its error code and the reason code it is
audited under. -/
structure Thrown where
  message : String
  code : Option String
  reason : String := "POLICY_DENIED"
  deriving DecidableEq

/-- How far a failed tool call got. -/
inductive ToolOutcome where
  | notDispatched | rejected | unknown
  deriving DecidableEq

/-- What a launch or a lookup throws. -/
inductive Failure where
  | revalidation (error : Thrown)
  | missingIdentity
  | lock
  | read
  | unknownOutcome (pending : PendingRecord)
  | lockLost (sessionId : Option String)
  | persist
  | noSession
  | rejected (message : String)
  | tool (code message : String)
  | other (error : Thrown)
  | bindingNotPersisted (sessionId : String)
  deriving DecidableEq

def Failure.thrown : Failure → Thrown
  | .revalidation error | .other error => error
  | .missingIdentity =>
    ⟨"Live Superset launch requires workspaceId and agentPresetId", some "LAUNCH_REJECTED",
      "POLICY_DENIED"⟩
  | .lock => ⟨"Unable to lock live Superset run state", some "PROVIDER_UNAVAILABLE",
      "POLICY_DENIED"⟩
  | .read => ⟨"Unable to read live Superset run state", some "PROVIDER_UNAVAILABLE",
      "POLICY_DENIED"⟩
  | .unknownOutcome pending =>
    ⟨"A previous Superset launch attempt for this idempotency key (attempt " ++ pending.attemptId
        ++ ", started " ++ pending.startedAt ++ ") has an unknown outcome; verify the workspace in "
        ++ "Superset before relaunching under a new idempotency key",
      some "LAUNCH_REJECTED", "POLICY_DENIED"⟩
  | .lockLost sessionId =>
    ⟨(match sessionId with
        | none => ""
        | some id => "Superset started session " ++ id ++ ", but ")
        ++ "the live Superset run-state lock was lost before the outcome could be recorded",
      some "PROVIDER_UNAVAILABLE", "POLICY_DENIED"⟩
  | .persist => ⟨"Unable to persist live Superset run state", some "PROVIDER_UNAVAILABLE",
      "POLICY_DENIED"⟩
  | .noSession => ⟨"Superset agents_create returned no session ID",
      some "PROVIDER_PROTOCOL_ERROR", "POLICY_DENIED"⟩
  | .rejected message => ⟨message, some "LAUNCH_REJECTED", "POLICY_DENIED"⟩
  | .tool code message => ⟨message, some code, "POLICY_DENIED"⟩
  | .bindingNotPersisted sessionId =>
    ⟨"Superset started session " ++ sessionId ++ ", but its binding could not be persisted",
      some "PROVIDER_UNAVAILABLE", "POLICY_DENIED"⟩

/-- The failures of a launch that did not get to see the file. -/
def Failure.beforeRead : Failure → Bool
  | .revalidation _ | .missingIdentity | .lock | .read => true
  | _ => false

/-! ## Reading and writing the file -/

/-- What the file says; a missing file is the empty state. -/
def contents (file : File) : ProviderState := file.getD {}

/-- `readState`: the file may be unreadable or malformed. -/
def readState (file : File) (readable : Bool) : Except Failure ProviderState :=
  if readable then .ok (contents file) else .error .read

/-- `writeState`: the file afterwards, and whether the write reported success. -/
def writeState (state : ProviderState) (io : WriteOutcome) (file : File) : File × Bool :=
  match io with
  | .written => (some state, true)
  | .failedBeforeRename => (file, false)
  | .failedAfterRename => (some state, false)

/-- `findByIdempotencyKey`: the bound session of the key, if any.  Keys that name a property every
object inherits, such as `constructor`, are left out: the lookup in the plain object finds that
property, so no session is created or bound for them. -/
def findByIdempotencyKey (key : String) (file : File) (readable : Bool) :
    Except Failure (Option String) :=
  (readState file readable).map fun state => (state.runs key).map (·.runId)

/-! ## The program of a launch -/

/-- The request of a launch, less the workspace path, the environment and the callback. -/
structure LaunchRequest where
  idempotencyKey : String
  prompt : String
  workspaceId : Option String
  agentPresetId : Option String
  deriving DecidableEq

/-- The identities a live launch requires. -/
structure Target where
  workspaceId : String
  agentPresetId : String
  deriving DecidableEq

/-- The checks before the lock: the revalidation of the workspace, then the identities. -/
def LaunchRequest.target (request : LaunchRequest) (revalidation : Option Thrown) :
    Except Failure Target :=
  match revalidation with
  | some error => .error (.revalidation error)
  | none =>
    match request.workspaceId, request.agentPresetId with
    | some workspaceId, some agentPresetId => .ok ⟨workspaceId, agentPresetId⟩
    | _, _ => .error .missingIdentity

/-- An `agents_create` call that was issued: whether a session was started for it, whether it came
back `not_dispatched` or `rejected`, and whether its session was bound in the file. -/
structure Call where
  key : String
  workspaceId : String
  agent : String
  prompt : String
  started : Bool := false
  refused : Bool := false
  bound : Bool := false
  deriving DecidableEq

/-- The call of a launch. -/
def issue (request : LaunchRequest) (target : Target) : Call :=
  { key := request.idempotencyKey, workspaceId := target.workspaceId,
    agent := target.agentPresetId, prompt := request.prompt }

/-- How `agents_create` comes back: an answer with a session ID or without one, an error of the
tool call, or any other error. -/
inductive ToolAnswer where
  | value (sessionId : Option String)
  | toolError (outcome : ToolOutcome) (code message : String)
  | otherError (error : Thrown)
  deriving DecidableEq

/-- `createResultSchema`: a session ID is not empty. -/
def createResult (sessionId : Option String) : Option String := sessionId.filter (· ≠ "")

/-- What a launch answers. -/
abbrev Reply := Except Failure String

/-- Where a launch stands, with its copy of the file. -/
inductive Pc where
  /-- It waits for its turn in the process and for the lock. -/
  | queued (target : Target)
  | reading (target : Target)
  | savingIntent (target : Target) (state : ProviderState)
  /-- The intent could not be written; it is withdrawn. -/
  | withdrawing (state : ProviderState)
  | calling (target : Target) (state : ProviderState) (call : ℕ)
  /-- The call was not dispatched or rejected; the intent is cleared. -/
  | clearing (state : ProviderState) (outcome : ToolOutcome) (code message : String)
  | binding (state : ProviderState) (call : ℕ) (sessionId : String)
  | done (reply : Reply)

/-- What a launch resumes with: a read with the identifier and the clock, the end of a write, or
the end of the tool call with the clock. -/
inductive Input where
  | read (readable : Bool) (uuid now : String)
  | write (io : WriteOutcome)
  | answer (answer : ToolAnswer) (now : String)

structure Effect where
  file : File
  calls : List Call
  pc : Pc

/-- One step of a launch that holds the lock; an input it does not wait for is ignored. -/
def Pc.resume (request : LaunchRequest) (compromised : Bool) (file : File) (calls : List Call) :
    Pc → Input → Effect
  | .reading target, .read readable uuid now =>
    match readState file readable with
    | .error e => ⟨file, calls, .done (.error e)⟩
    | .ok state =>
      match state.runs request.idempotencyKey with
      | some existing => ⟨file, calls, .done (.ok existing.runId)⟩
      | none =>
        match state.pending request.idempotencyKey with
        | some pending => ⟨file, calls, .done (.error (.unknownOutcome pending))⟩
        | none =>
          if compromised then ⟨file, calls, .done (.error (.lockLost none))⟩
          else ⟨file, calls, .savingIntent target (state.setPending request.idempotencyKey
            { attemptId := uuid, workspaceId := target.workspaceId,
              agentPresetId := target.agentPresetId, startedAt := now })⟩
  | .savingIntent target state, .write io =>
    let w := writeState state io file
    if w.2 then
      ⟨w.1, calls ++ [issue request target], .calling target state calls.length⟩
    else ⟨w.1, calls, .withdrawing (state.clearPending request.idempotencyKey)⟩
  | .withdrawing state, .write io =>
    ⟨(writeState state io file).1, calls, .done (.error .persist)⟩
  | .calling target state call, .answer answer now =>
    match answer with
    | .value sessionId =>
      match createResult sessionId with
      | none => ⟨file, calls, .done (.error .noSession)⟩
      | some id =>
        if compromised then ⟨file, calls, .done (.error (.lockLost (some id)))⟩
        else ⟨file, calls, .binding
          ((state.clearPending request.idempotencyKey).setRun request.idempotencyKey
            { runId := id, workspaceId := target.workspaceId,
              agentPresetId := target.agentPresetId, createdAt := now }) call id⟩
    | .toolError .unknown code message => ⟨file, calls, .done (.error (.tool code message))⟩
    | .toolError outcome code message =>
      ⟨file, calls.modify call fun c => { c with refused := true },
        if compromised then .done (.error (.lockLost none))
        else .clearing (state.clearPending request.idempotencyKey) outcome code message⟩
    | .otherError error => ⟨file, calls, .done (.error (.other error))⟩
  | .clearing state outcome code message, .write io =>
    let w := writeState state io file
    ⟨w.1, calls, .done (.error (
      if w.2 then (if outcome = .rejected then .rejected message else .tool code message)
      else .persist))⟩
  | .binding state call sessionId, .write io =>
    let w := writeState state io file
    ⟨w.1, if io = .failedBeforeRename then calls
      else calls.modify call fun c => { c with bound := true },
      .done (if w.2 then .ok sessionId else .error (.bindingNotPersisted sessionId))⟩
  | pc, _ => ⟨file, calls, pc⟩

/-! ## The system -/

/-- A launch in progress. -/
structure Frame where
  process : ℕ
  request : LaunchRequest
  compromised : Bool := false
  pc : Pc

/-- The file, the launch that holds its lock, the launches that wait or run in each process in the
order of `mutationTail`, the launches in progress, and the calls issued. -/
structure System where
  file : File := none
  lock : Option ℕ := none
  queue : ℕ → List ℕ := fun _ => []
  frames : ℕ → Option Frame := fun _ => none
  calls : List Call := []

inductive Act where
  /-- A process calls `launch`; the revalidation of the workspace may throw. -/
  | launch (i p : ℕ) (request : LaunchRequest) (revalidation : Option Thrown)
  /-- The launch obtains the lock, or gives up. -/
  | acquire (i : ℕ) (obtained : Bool)
  | resume (i : ℕ) (input : Input)
  /-- The launch gives the lock back and answers its caller. -/
  | finish (i : ℕ)
  /-- Anyone calls `findByIdempotencyKey`. -/
  | lookup (key : String) (readable : Bool)
  /-- Superset starts a session for a call. -/
  | start (call : ℕ)
  /-- The launch loses the lock. -/
  | compromise (i : ℕ)
  /-- A process dies; its lock goes stale. -/
  | crash (p : ℕ)

def System.setFrame (sys : System) (i : ℕ) (f : Frame) : System :=
  { sys with frames := Function.update sys.frames i (some f) }

/-- The lock after the launch `i` gave it back. -/
def System.unlock (sys : System) (i : ℕ) : Option ℕ := if sys.lock = some i then none else sys.lock

/-- The launch belongs to the process. -/
def System.inProcess (sys : System) (p i : ℕ) : Bool := (sys.frames i).any (·.process = p)

def step (sys : System) : Act → System
  | .launch i p request revalidation =>
    match sys.frames i with
    | some _ => sys
    | none =>
      match request.target revalidation with
      | .error e => sys.setFrame i { process := p, request := request, pc := .done (.error e) }
      | .ok target =>
        { sys.setFrame i { process := p, request := request, pc := .queued target } with
          queue := Function.update sys.queue p (sys.queue p ++ [i]) }
  | .acquire i obtained =>
    match sys.frames i with
    | some f =>
      match f.pc with
      | .queued target =>
        if (sys.queue f.process).head? = some i then
          if obtained then
            if sys.lock = none then
              { sys.setFrame i { f with pc := .reading target } with lock := some i }
            else sys
          else sys.setFrame i { f with pc := .done (.error .lock) }
        else sys
      | _ => sys
    | none => sys
  | .resume i input =>
    match sys.frames i with
    | some f =>
      let e := f.pc.resume f.request f.compromised sys.file sys.calls input
      { sys.setFrame i { f with pc := e.pc } with file := e.file, calls := e.calls }
    | none => sys
  | .finish i =>
    match sys.frames i with
    | some f =>
      match f.pc with
      | .done _ =>
        { sys with
          lock := sys.unlock i
          queue := Function.update sys.queue f.process ((sys.queue f.process).erase i)
          frames := Function.update sys.frames i none }
      | _ => sys
    | none => sys
  | .lookup _ _ => sys
  | .start call => { sys with calls := sys.calls.modify call fun c => { c with started := true } }
  | .compromise i =>
    match sys.frames i with
    | some f =>
      if sys.lock = some i then
        { sys.setFrame i { f with compromised := true } with lock := none }
      else sys
    | none => sys
  | .crash p =>
    { sys with
      lock := sys.lock.filter (!sys.inProcess p ·)
      queue := Function.update sys.queue p []
      frames := fun i => (sys.frames i).filter (·.process ≠ p) }

end AgentOrchestrator.Superset
