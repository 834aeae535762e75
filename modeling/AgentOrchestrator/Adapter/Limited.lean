import AgentOrchestrator.Scheduler.Permits
import Mathlib.Logic.Function.Basic

/-!
# `ConcurrencyLimitedAgentAdapter`

The adapter takes a permit of the scheduler for every run of the provider it wraps and keeps it
until the run has ended.  A permit is held for a run (`releases`), for a launch or a lookup whose
outcome is unknown (`unresolvedLaunches`, `unresolvedRecoveries`), or by a call that has not
returned.  Calls are known by a number; a call that awaits something is in `calls`, and one step
of the machine is a call up to its first await, the end of an await, or a step of the scheduler.
A release function is known by the number of its permit.
-/

namespace AgentOrchestrator.Limited

open Scheduler

/-! ## The state -/

structure HeldPermit where
  idempotencyKey : String
  release : ℕ
  deriving DecidableEq

inductive RunStatus where
  | queued | running | succeeded | failed | cancelled
  deriving DecidableEq

def RunStatus.isTerminal : RunStatus → Bool
  | .succeeded | .failed | .cancelled => true
  | .queued | .running => false

/-- What a call awaits, with its variables. -/
inductive Call where
  /-- `launch` awaits its permit. -/
  | acquiring (key : String) (ticket : ℕ)
  /-- `launch` awaits the provider. -/
  | launching (key : String) (release : ℕ)
  /-- `recover` awaits the lookup. -/
  | lookingUp (key : String) (unresolvedRelease : Option ℕ) (retainedRunId : Option String)
      (retainedPermit : Option HeldPermit) (recoveryRelease : Option ℕ)
  /-- `inspectRecoveredRun` awaits the status; `recovering` inside the `try` of `recover`. -/
  | inspecting (key runId : String) (recovering : Bool)
  /-- `recover` awaits `inspectRecoveredRun`. -/
  | finishing (key runId : String) (recovering : Bool)
  deriving DecidableEq

/-- An entry of `recoveries`: its promise is pending, or settled and about to be deleted. -/
inductive Recovery where
  | pending | settled
  deriving DecidableEq

structure State where
  scheduler : Scheduler.State := {}
  releases : String → Option HeldPermit := fun _ => none
  runIdsByIdempotencyKey : String → Option String := fun _ => none
  unresolvedLaunches : String → Option ℕ := fun _ => none
  unresolvedRecoveries : String → Option ℕ := fun _ => none
  recoveries : String → Option Recovery := fun _ => none
  recoveringRuns : String → Bool := fun _ => false
  terminalRuns : String → Bool := fun _ => false
  calls : ℕ → Option Call := fun _ => none

/-- A map without a key. -/
def erase {α : Type} (map : String → Option α) (key : String) : String → Option α :=
  Function.update map key none

/-- A map with a value for a key. -/
def insert {α : Type} (map : String → Option α) (key : String) (value : α) : String → Option α :=
  Function.update map key (some value)

/-- The call awaits something else. -/
def State.await (s : State) (c : ℕ) (call : Call) : State :=
  { s with calls := Function.update s.calls c (some call) }

/-- The call returns or throws. -/
def State.leave (s : State) (c : ℕ) : State := { s with calls := Function.update s.calls c none }

/-- `recover` returns or throws, which settles its promise. -/
def State.leaveRecover (s : State) (c : ℕ) (key : String) : State :=
  { s.leave c with recoveries := insert s.recoveries key .settled }

variable (policy : ConcurrencyPolicy) (hooked : Bool)

/-! ## Releases -/

/-- A call of a release function. -/
def callRelease (permit : ℕ) (clock : ℕ → ℤ) (s : State) : State :=
  { s with scheduler := Scheduler.release policy hooked permit clock s.scheduler }

/-- `release?.()` -/
def callRelease? (permit : Option ℕ) (clock : ℕ → ℤ) (s : State) : State :=
  match permit with
  | none => s
  | some permit => callRelease policy hooked permit clock s

/-- `release`: the permit of a run is given back. -/
def releaseRun (runId : String) (clock : ℕ → ℤ) (s : State) : State :=
  match s.releases runId with
  | none => s
  | some permit =>
    { callRelease policy hooked permit.release clock s with
      runIdsByIdempotencyKey := erase s.runIdsByIdempotencyKey permit.idempotencyKey
      releases := erase s.releases runId }

/-- The permit of the key is held for a run from now on. -/
def bind (runId key : String) (permit : ℕ) (s : State) : State :=
  { s with releases := insert s.releases runId ⟨key, permit⟩
           runIdsByIdempotencyKey := insert s.runIdsByIdempotencyKey key runId }

def markTerminalDuringRecovery (runId : String) (s : State) : State :=
  if s.recoveringRuns runId then { s with terminalRuns := Function.update s.terminalRuns runId true }
  else s

/-! ## `launch` -/

/-- `launch` up to its first await; `scope` is what `resolveScope` returns, if it does. -/
def launch (c : ℕ) (key : String) (scope : Option ConcurrencyScope) (clock : ℕ → ℤ) (s : State) :
    State :=
  match scope with
  | none => s
  | some scope =>
    match Scheduler.acquire policy hooked ⟨scope, key, false⟩ false clock s.scheduler with
    | (.error _, scheduler) => { s with scheduler := scheduler }
    | (.ok ticket, scheduler) => { s with scheduler := scheduler }.await c (.acquiring key ticket)

/-- `launch` has its permit, or is rejected. -/
def acquired (c : ℕ) (key : String) (ticket : ℕ) (s : State) : State :=
  match settlement ticket s.scheduler.log with
  | none => s
  | some (.error _) => s.leave c
  | some (.ok permit) => s.await c (.launching key permit)

/-- The provider answers `launch` with a run, or the call fails. -/
def launched (c : ℕ) (key : String) (release : ℕ) (answer : Option String) (clock : ℕ → ℤ)
    (s : State) : State :=
  match answer with
  | none => { s.leave c with unresolvedLaunches := insert s.unresolvedLaunches key release }
  | some runId =>
    match s.releases runId with
    | some existing =>
      if existing.idempotencyKey ≠ key then
        { s.leave c with unresolvedLaunches := insert s.unresolvedLaunches key release }
      else (callRelease policy hooked release clock s).leave c
    | none => (bind runId key release s).leave c

/-! ## `findByIdempotencyKey` -/

/-- `findByIdempotencyKey` up to the first await of `recover`; `scope` is what
`resolveRecoveryScope` returns, if it does. -/
def findByIdempotencyKey (c : ℕ) (key : String) (scope : Option ConcurrencyScope) (s : State) :
    State :=
  if (s.recoveries key).isSome then s
  else
    let unresolvedRelease := s.unresolvedLaunches key
    let retainedRecoveryRelease := s.unresolvedRecoveries key
    let retainedRunId := s.runIdsByIdempotencyKey key
    let retainedPermit := retainedRunId.bind s.releases
    if unresolvedRelease = none ∧ retainedRecoveryRelease = none ∧ retainedPermit = none then
      match scope with
      | none => { s with recoveries := insert s.recoveries key .settled }
      | some scope =>
        match acquireExisting ⟨scope, key, false⟩ s.scheduler with
        | (.error _, _) => { s with recoveries := insert s.recoveries key .settled }
        | (.ok permit, scheduler) =>
          { s with scheduler := scheduler
                   recoveries := insert s.recoveries key .pending }.await c
            (.lookingUp key unresolvedRelease retainedRunId retainedPermit (some permit))
    else
      { s with recoveries := insert s.recoveries key .pending }.await c
        (.lookingUp key unresolvedRelease retainedRunId retainedPermit retainedRecoveryRelease)

/-- The answer of the provider to a lookup. -/
inductive LookupAnswer where
  | failed | absent
  | found (runId : String)
  deriving DecidableEq

/-- The lookup finds no run. -/
def lookupAbsent (c : ℕ) (key : String) (unresolvedRelease : Option ℕ)
    (retainedRunId : Option String) (recoveryRelease : Option ℕ) (clock : ℕ → ℕ → ℤ) (s : State) :
    State :=
  let s := callRelease? policy hooked unresolvedRelease (clock 0) s
  let s := callRelease? policy hooked recoveryRelease (clock 1) s
  let s := match retainedRunId with
    | none => s
    | some runId => releaseRun policy hooked runId (clock 2) s
  { s.leaveRecover c key with
    unresolvedLaunches := erase s.unresolvedLaunches key
    unresolvedRecoveries := erase s.unresolvedRecoveries key }

/-- The lookup finds the run of a launch whose outcome was unknown. -/
def foundLaunch (c : ℕ) (key runId : String) (unresolvedRelease : ℕ) (clock : ℕ → ℤ) (s : State) :
    State :=
  let s := { s with unresolvedLaunches := erase s.unresolvedLaunches key }
  match s.releases runId with
  | some existing =>
    if existing.idempotencyKey ≠ key then s.leaveRecover c key
    else
      { callRelease policy hooked unresolvedRelease clock s with
        runIdsByIdempotencyKey := insert s.runIdsByIdempotencyKey key runId }.await c
        (.inspecting key runId false)
  | none => (bind runId key unresolvedRelease s).await c (.inspecting key runId false)

/-- The lookup finds a run that is not held yet. -/
def foundRun (c : ℕ) (key runId : String) (recoveryRelease : Option ℕ) (clock : ℕ → ℤ)
    (s : State) : State :=
  match recoveryRelease with
  | none =>
    { s.leaveRecover c key with
      recoveringRuns := Function.update s.recoveringRuns runId false
      terminalRuns := Function.update s.terminalRuns runId false }
  | some permit =>
    let s := { s with recoveringRuns := Function.update s.recoveringRuns runId true
                      unresolvedRecoveries := erase s.unresolvedRecoveries key }
    let s := if s.terminalRuns runId then callRelease policy hooked permit clock s
      else bind runId key permit s
    s.await c (.inspecting key runId true)

/-- `recover` goes on after the lookup. -/
def lookedUp (c : ℕ) (key : String) (unresolvedRelease : Option ℕ) (retainedRunId : Option String)
    (retainedPermit : Option HeldPermit) (recoveryRelease : Option ℕ) (answer : LookupAnswer)
    (clock : ℕ → ℕ → ℤ) (s : State) : State :=
  match answer with
  | .failed =>
    match recoveryRelease with
    | none => s.leaveRecover c key
    | some permit =>
      { s.leaveRecover c key with
        unresolvedRecoveries := insert s.unresolvedRecoveries key permit }
  | .absent => lookupAbsent policy hooked c key unresolvedRelease retainedRunId recoveryRelease clock s
  | .found runId =>
    match unresolvedRelease with
    | some permit => foundLaunch policy hooked c key runId permit (clock 0) s
    | none =>
      match s.releases runId with
      | some _ =>
        let s := callRelease? policy hooked recoveryRelease (clock 0) s
        { s.leaveRecover c key with unresolvedRecoveries := erase s.unresolvedRecoveries key }
      | none =>
        if retainedPermit ≠ none ∧ retainedRunId = some runId then s.leaveRecover c key
        else foundRun policy hooked c key runId recoveryRelease (clock 0) s

/-- The status of a run: the run it is about and its value. -/
abbrev RunState := String × RunStatus

/-- `inspectRecoveredRun` goes on after the status, or throws. -/
def inspected (c : ℕ) (key runId : String) (recovering : Bool) (answer : Option RunState)
    (clock : ℕ → ℤ) (s : State) : State :=
  let s := match answer with
    | none => s
    | some (runId', status) =>
      if runId' ≠ runId then s
      else if status.isTerminal then releaseRun policy hooked runId clock s
      else s
  s.await c (.finishing key runId recovering)

/-- `recover` goes on after `inspectRecoveredRun`. -/
def finished (c : ℕ) (key runId : String) (recovering : Bool) (s : State) : State :=
  let s := if recovering then
      { s with recoveringRuns := Function.update s.recoveringRuns runId false
               terminalRuns := Function.update s.terminalRuns runId false }
    else s
  s.leaveRecover c key

/-! ## `status` and `result` -/

/-- `status` goes on after the answer of the provider, or throws. -/
def status (runId : String) (answer : Option RunState) (clock : ℕ → ℤ) (s : State) : State :=
  match answer with
  | none => s
  | some (runId', status) =>
    if runId' ≠ runId then s
    else if status.isTerminal then
      releaseRun policy hooked runId clock (markTerminalDuringRecovery runId s)
    else s

/-- `result` goes on after the answer of the provider; `answer` when it is a result. -/
def result (runId : String) (answer : Bool) (clock : ℕ → ℤ) (s : State) : State :=
  if answer then releaseRun policy hooked runId clock (markTerminalDuringRecovery runId s) else s

/-! ## The machine -/

inductive Act where
  | launch (c : ℕ) (key : String) (scope : Option ConcurrencyScope)
  | findByIdempotencyKey (c : ℕ) (key : String) (scope : Option ConcurrencyScope)
  /-- The permit of `launch` is there. -/
  | acquired (c : ℕ)
  /-- The provider answers `launch`. -/
  | launched (c : ℕ) (answer : Option String)
  /-- The provider answers the lookup of `recover`. -/
  | lookedUp (c : ℕ) (answer : LookupAnswer)
  /-- The provider answers the status of `inspectRecoveredRun`. -/
  | inspected (c : ℕ) (answer : Option RunState)
  /-- `inspectRecoveredRun` has returned or thrown. -/
  | finished (c : ℕ)
  /-- The callback of `findByIdempotencyKey` deletes a settled recovery. -/
  | forget (key : String)
  /-- The provider answers `status`, `result` or `cancel`. -/
  | status (runId : String) (answer : Option RunState)
  | result (runId : String) (answer : Bool)
  | cancel (runId : String)
  /-- A pressure check of the scheduler ends, or its timer fires. -/
  | pressure (answer : PressureAnswer)
  | wake
  deriving DecidableEq

/-- One step, with the readings of the clock in each `drain` of it. -/
def step (s : State) (i : Act × (ℕ → ℕ → ℤ)) : State :=
  match i.1 with
  | .launch c key scope =>
    match s.calls c with
    | none => launch policy hooked c key scope (i.2 0) s
    | some _ => s
  | .findByIdempotencyKey c key scope =>
    match s.calls c with
    | none => findByIdempotencyKey c key scope s
    | some _ => s
  | .acquired c =>
    match s.calls c with
    | some (.acquiring key ticket) => acquired c key ticket s
    | _ => s
  | .launched c answer =>
    match s.calls c with
    | some (.launching key release) => launched policy hooked c key release answer (i.2 0) s
    | _ => s
  | .lookedUp c answer =>
    match s.calls c with
    | some (.lookingUp key unresolvedRelease retainedRunId retainedPermit recoveryRelease) =>
      lookedUp policy hooked c key unresolvedRelease retainedRunId retainedPermit recoveryRelease
        answer i.2 s
    | _ => s
  | .inspected c answer =>
    match s.calls c with
    | some (.inspecting key runId recovering) =>
      inspected policy hooked c key runId recovering answer (i.2 0) s
    | _ => s
  | .finished c =>
    match s.calls c with
    | some (.finishing key runId recovering) => finished c key runId recovering s
    | _ => s
  | .forget key =>
    if s.recoveries key = some .settled then { s with recoveries := erase s.recoveries key } else s
  | .status runId answer => status policy hooked runId answer (i.2 0) s
  | .result runId answer => result policy hooked runId answer (i.2 0) s
  | .cancel _ => s
  | .pressure answer =>
    { s with scheduler := resumeDrain policy hooked answer (i.2 0) s.scheduler }
  | .wake => { s with scheduler := Scheduler.wake policy hooked (i.2 0) s.scheduler }

end AgentOrchestrator.Limited
