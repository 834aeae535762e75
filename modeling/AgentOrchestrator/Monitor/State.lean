import Mathlib.Data.Int.Notation
import Mathlib.Data.List.Basic
import Mathlib.Order.Basic

/-!
# The state of the availability monitor

`update_state` appends the results of a round of probes to the checks, drops the checks that are too
old for every window, and opens, counts up or resolves one incident for each result.  It raises when
there is no service, when a recorded time does not parse, or when the window reaches back before the
first date; then the state is as before.  How a time is parsed is a parameter.
-/

namespace AgentOrchestrator.Monitor

/-- What `update_state` reads of a configured service: its name and `slo.window_days`. -/
structure Service where
  name : String
  windowDays : ℤ
  deriving DecidableEq

/-- What `update_state` reads of the result of a probe. -/
structure Result where
  name : String
  checkedAt : String
  ok : Bool
  errors : List String := []
  deriving DecidableEq

structure Check where
  name : String
  checkedAt : String
  ok : Bool
  deriving DecidableEq

/-- `"open"` and `"resolved"`. -/
inductive IncidentStatus where
  | opened | resolved
  deriving DecidableEq

structure Incident where
  id : String
  name : String
  status : IncidentStatus
  startedAt : String
  lastFailureAt : String
  failureCount : ℕ
  errors : List String
  resolvedAt : Option String := none
  deriving DecidableEq

structure State where
  schemaVersion : ℕ := 1
  checks : List Check := []
  incidents : List Incident := []
  deriving DecidableEq

/-- `empty_state` -/
def emptyState : State := {}

/-! ## Incidents -/

/-- Changes the first element that passes the test, if there is one. -/
def modifyFirst {α : Type} (p : α → Bool) (f : α → α) : List α → Option (List α)
  | [] => none
  | a :: l => if p a then some (f a :: l) else (modifyFirst p f l).map (a :: ·)

def Incident.isOpen (service : String) (incident : Incident) : Bool :=
  incident.name = service && incident.status = .opened

/-- The incident of a first failure. -/
def openIncident (result : Result) : Incident where
  id := result.name ++ ":" ++ result.checkedAt
  name := result.name
  status := .opened
  startedAt := result.checkedAt
  lastFailureAt := result.checkedAt
  failureCount := 1
  errors := result.errors

/-- One more failure of an open incident. -/
def Incident.fail (result : Result) (incident : Incident) : Incident :=
  { incident with
    lastFailureAt := result.checkedAt
    failureCount := incident.failureCount + 1
    errors := result.errors }

def Incident.resolve (result : Result) (incident : Incident) : Incident :=
  { incident with status := .resolved, resolvedAt := some result.checkedAt }

/-- The incidents after one result; `open_incident` is the last open one of the service. -/
def recordResult (incidents : List Incident) (result : Result) : List Incident :=
  let change f := (modifyFirst (Incident.isOpen result.name) f incidents.reverse).map List.reverse
  if result.ok then (change (Incident.resolve result)).getD incidents
  else (change (Incident.fail result)).getD (incidents ++ [openIncident result])

/-! ## `update_state` -/

/-- A call of `update_state`; `now` is in microseconds since the first date. -/
structure Call where
  services : List Service
  results : List Result
  now : ℤ

/-- The days that checks are kept. -/
def keepDays (services : List Service) : Option ℤ :=
  (services.map (·.windowDays)).max?.map fun longest => max longest 7 * 8

/-- `keep_after`; a date before the first one is an error. -/
def keepAfter (call : Call) : Option ℤ :=
  (keepDays call.services).bind fun days =>
    let span := days * 86400000000
    if span ≤ call.now then some (call.now - span) else none

/-- The checks of the results. -/
def newChecks (results : List Result) : List Check :=
  results.map fun result => { name := result.name, checkedAt := result.checkedAt, ok := result.ok }

/-- The checks that are kept, unless a time does not parse. -/
def keptChecks (parseTime : String → Option ℤ) (after : ℤ) : List Check → Option (List Check)
  | [] => some []
  | check :: checks =>
    match parseTime check.checkedAt, keptChecks parseTime after checks with
    | some time, some kept => some (if after ≤ time then check :: kept else kept)
    | _, _ => none

/-- `update_state`, or `none` when it raises. -/
def updateState (parseTime : String → Option ℤ) (state : State) (call : Call) : Option State :=
  (keepAfter call).bind fun after =>
    (keptChecks parseTime after state.checks).map fun kept =>
      { state with
        checks := kept ++ newChecks call.results
        incidents := call.results.foldl recordResult state.incidents }

end AgentOrchestrator.Monitor
