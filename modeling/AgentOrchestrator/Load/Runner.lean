import Mathlib.Data.List.Dedup
import Mathlib.Algebra.Order.Field.Rat
import Mathlib.Algebra.Order.Floor.Ring
import Mathlib.Data.Rat.Floor

/-!
# The load runner

`runRealLoad` launches thirty sessions in stages of 5, 10 and 15, each stage in chunks of at most
`maxInFlight`, and takes a sample of the resources before and after each chunk.  A failed launch or
a sample above a ceiling ends the run.  Numbers are the rationals that floating point has; the sum
of two of them and their text are parameters.
-/

namespace AgentOrchestrator.Load

/-! ## Measurements -/

structure ResourceSample where
  elapsedMs : ℚ
  cpuUserMs : ℚ
  cpuSystemMs : ℚ
  rssBytes : ℚ
  descriptors : Option ℚ
  deriving DecidableEq

/-- `percentile`; an index beyond the end falls back on the least value. -/
def percentile (values : List ℚ) (fraction : ℚ) : ℚ :=
  if values.length = 0 then 0
  else
    let sorted := values.mergeSort fun left right => left ≤ right
    let index := ⌈fraction * sorted.length⌉ - 1
    ((if index < 0 then none else sorted[index.toNat]?) <|> sorted[0]?).getD 0

/-- `Math.max(0, ...values)` -/
def maxOf (values : List ℚ) : ℚ := values.foldl max 0

/-! ## Options and environment -/

structure Options where
  execute : Bool
  workspaceIds : List String
  agent : String
  launchTimeoutMs : ℚ
  maxRssBytes : ℚ
  maxCpuMs : ℚ
  maxDescriptors : ℚ
  maxInFlight : ℕ := 15
  deriving DecidableEq

/-- How a launch ends, a timeout included.  A launch that fails `early` throws before it awaits. -/
inductive Outcome where
  | launched (sessionId kind : String) (latencyMs : ℚ)
  | failed (error : String) (early : Bool)
  deriving DecidableEq

/-- What a run meets: the local workspaces when it is not given a `launch`, the samples in order,
and the outcome for each workspace by its position. -/
structure Environment where
  localWorkspaces : Option (List String) := none
  resources : ℕ → ResourceSample
  outcome : ℕ → Outcome

/-! ## The report -/

structure AcceptedSession where
  workspaceId : String
  task : String
  stage : ℕ
  sessionId : String
  kind : String
  latencyMs : ℚ
  deriving DecidableEq

structure Failure where
  workspaceId : String
  error : String
  deriving DecidableEq

structure StageEvidence where
  stage : ℕ
  planned : ℕ
  offered : ℕ
  admitted : ℕ
  failed : ℕ
  withheld : ℕ
  deriving DecidableEq

structure Ceilings where
  maxRssBytes : ℚ
  maxCpuMs : ℚ
  maxDescriptors : ℚ
  deriving DecidableEq

structure Configuration where
  sessions : ℕ
  stages : List ℕ
  uniqueWorkspaces : Bool
  agent : String
  launchTimeoutMs : ℚ
  maxInFlight : ℕ
  ceilings : Ceilings
  deriving DecidableEq

structure Admission where
  planned : ℕ
  offered : ℕ
  admitted : ℕ
  failed : ℕ
  withheld : ℕ
  maxObservedInFlight : ℕ
  stages : List StageEvidence
  deriving DecidableEq

structure Latency where
  p50 : ℚ
  p95 : ℚ
  max : ℚ
  deriving DecidableEq

structure Launch where
  attempted : ℕ
  accepted : ℕ
  failures : List Failure
  acceptedSessions : List AcceptedSession
  latencyMs : Latency
  deriving DecidableEq

structure Abort where
  aborted : Bool
  reason : Option String
  deriving DecidableEq

structure Validation where
  passed : Bool
  blocked : Bool
  reason : Option String
  deriving DecidableEq

structure Capabilities where
  launchAcceptance : String
  completion : String
  results : String
  cancellation : String
  recovery : String
  deriving DecidableEq

structure Report where
  schema : String
  mode : String
  configuration : Configuration
  admission : Admission
  launch : Launch
  samples : List ResourceSample
  abort : Abort
  validation : Validation
  capabilities : Capabilities
  deriving DecidableEq

/-! ## The run -/

def realLoadSchema : String := "per-351.real-agent-load.v1"

def sessionCount : ℕ := 30

def stageSizes : List ℕ := [5, 10, 15]

section Run

variable (plus : ℚ → ℚ → ℚ) (text : ℚ → String)

/-- The ceilings a sample exceeds, in the order of the checks. -/
def violations (maxRssBytes maxCpuMs maxDescriptors : ℚ) (sample : ResourceSample) : List String :=
  (if sample.rssBytes > maxRssBytes then ["RSS ceiling exceeded: " ++ text sample.rssBytes]
    else []) ++
  (if plus sample.cpuUserMs sample.cpuSystemMs > maxCpuMs then
    ["CPU ceiling exceeded: " ++ text (plus sample.cpuUserMs sample.cpuSystemMs)] else []) ++
  match sample.descriptors with
  | none => []
  | some descriptors =>
    if descriptors > maxDescriptors then ["descriptor ceiling exceeded: " ++ text descriptors]
    else []

def ceilingViolation (options : Options) (sample : ResourceSample) : Option String :=
  if sample.rssBytes > options.maxRssBytes then
    some ("RSS ceiling exceeded: " ++ text sample.rssBytes)
  else if plus sample.cpuUserMs sample.cpuSystemMs > options.maxCpuMs then
    some ("CPU ceiling exceeded: " ++ text (plus sample.cpuUserMs sample.cpuSystemMs))
  else
    match sample.descriptors with
    | none => none
    | some descriptors =>
      if descriptors > options.maxDescriptors then
        some ("descriptor ceiling exceeded: " ++ text descriptors)
      else none

variable (options : Options) (env : Environment)

/-- What a run has gathered. -/
structure Run where
  accepted : List AcceptedSession := []
  failures : List Failure := []
  samples : List ResourceSample := []
  aborted : Option String := none
  maxObservedInFlight : ℕ := 0
  deriving DecidableEq

/-- A workspace with its position among the thirty. -/
abbrev Planned := String × ℕ

/-- The session of a launch that succeeds in a stage, which counts from 0. -/
def acceptedSession (stage : ℕ) (planned : Planned) : Option AcceptedSession :=
  match env.outcome planned.2 with
  | .launched sessionId kind latencyMs =>
    some { workspaceId := planned.1, task := "load-task-" ++ toString (planned.2 + 1)
           stage := stage + 1, sessionId := sessionId, kind := kind, latencyMs := latencyMs }
  | .failed .. => none

def failure (planned : Planned) : Option Failure :=
  match env.outcome planned.2 with
  | .launched .. => none
  | .failed error _ => some { workspaceId := planned.1, error := error }

/-- The most launches that are active at once while those of a chunk start one after the other. -/
def peak : ℕ → List Planned → ℕ
  | _, [] => 0
  | active, planned :: chunk =>
    max (active + 1)
      (peak (match env.outcome planned.2 with | .failed _ true => active | _ => active + 1) chunk)

/-- A stage under way. -/
structure StageRun where
  run : Run
  offered : ℕ := 0
  admitted : ℕ := 0
  failed : ℕ := 0

/-- The sample before a chunk. -/
def sampleBefore (run : Run) : Run :=
  let before := env.resources run.samples.length
  { run with samples := run.samples ++ [before]
             aborted := ceilingViolation plus text options before }

/-- A chunk of launches, and the sample after it. -/
def runChunk (stage : ℕ) (chunk : List Planned) (s : StageRun) : StageRun :=
  let admitted := chunk.filterMap (acceptedSession env stage)
  let failed := chunk.filterMap (failure env)
  let aborted := if s.failed + failed.length > 0 then some "launch failure" else s.run.aborted
  let after := env.resources s.run.samples.length
  { offered := s.offered + chunk.length
    admitted := s.admitted + admitted.length
    failed := s.failed + failed.length
    run := { accepted := s.run.accepted ++ admitted
             failures := s.run.failures ++ failed
             samples := s.run.samples ++ [after]
             aborted := aborted <|> ceilingViolation plus text options after
             maxObservedInFlight := max s.run.maxObservedInFlight (peak env 0 chunk) } }

/-- The loop over the chunks of a stage; each of them offers at least one workspace. -/
def stageLoop (stage : ℕ) (stageIds : List Planned) : ℕ → StageRun → StageRun
  | 0, s => s
  | fuel + 1, s =>
    if s.offered < stageIds.length ∧ s.run.aborted = none then
      let run := sampleBefore plus text options env s.run
      if run.aborted ≠ none then { s with run := run }
      else
        stageLoop stage stageIds fuel
          (runChunk plus text options env stage
            ((stageIds.drop s.offered).take options.maxInFlight) { s with run := run })
    else s

/-- The stages after an abort. -/
def withheldStages (stage : ℕ) (sizes : List ℕ) : List StageEvidence :=
  (sizes.zipIdx (stage + 1)).map fun (planned, stage) =>
    { stage := stage, planned := planned, offered := 0, admitted := 0, failed := 0
      withheld := planned }

/-- The loop over the stages. -/
def runStages : ℕ → ℕ → List ℕ → Run → Run × List StageEvidence
  | _, _, [], run => (run, [])
  | stage, offset, size :: sizes, run =>
    let stageIds := (options.workspaceIds.zipIdx.drop offset).take size
    let s := stageLoop plus text options env stage stageIds size { run := run }
    let evidence : StageEvidence :=
      { stage := stage + 1, planned := size, offered := s.offered, admitted := s.admitted
        failed := s.failed, withheld := size - s.offered }
    if s.run.aborted ≠ none then (s.run, evidence :: withheldStages (stage + 1) sizes)
    else
      let (run, stages) := runStages (stage + 1) (offset + size) sizes s.run
      (run, evidence :: stages)

/-- The report of a run. -/
def report (run : Run) (stages : List StageEvidence) : Report :=
  let offered := (stages.map (·.offered)).sum
  let withheld := (stages.map (·.withheld)).sum
  let latencies := run.accepted.map (·.latencyMs)
  { schema := realLoadSchema
    mode := if options.execute then "execute" else "dry-run"
    configuration :=
      { sessions := sessionCount, stages := stageSizes, uniqueWorkspaces := true
        agent := options.agent, launchTimeoutMs := options.launchTimeoutMs
        maxInFlight := options.maxInFlight
        ceilings := ⟨options.maxRssBytes, options.maxCpuMs, options.maxDescriptors⟩ }
    admission :=
      { planned := sessionCount, offered := offered, admitted := run.accepted.length
        failed := run.failures.length, withheld := withheld
        maxObservedInFlight := run.maxObservedInFlight, stages := stages }
    launch :=
      { attempted := offered, accepted := run.accepted.length, failures := run.failures
        acceptedSessions := run.accepted
        latencyMs := ⟨percentile latencies (1 / 2), percentile latencies (19 / 20),
          maxOf latencies⟩ }
    samples := run.samples
    abort := { aborted := run.aborted.isSome, reason := run.aborted }
    validation :=
      { passed := if options.execute then
          run.accepted.length = sessionCount && run.failures.length = 0 && run.aborted.isNone &&
            withheld = 0
          else true
        blocked := !options.execute
        reason := if options.execute then none
          else some
            "Paid execution requires 30 explicitly authorized isolated workspaces and operator opt-in." }
    capabilities :=
      { launchAcceptance := "measured when explicitly executed", completion := "unavailable"
        results := "unavailable", cancellation := "unavailable"
        recovery := "unavailable through supported Superset APIs" } }

/-- The workspaces that are not among the local ones. -/
def unresolved : List String :=
  match env.localWorkspaces with
  | none => []
  | some localIds => options.workspaceIds.filter fun workspaceId => workspaceId ∉ localIds

def runRealLoad : Except String Report :=
  if options.workspaceIds.length ≠ sessionCount ∨
      options.workspaceIds.dedup.length ≠ sessionCount then
    .error "Exactly 30 unique workspace IDs are required; shared writers are forbidden"
  else if options.maxInFlight = 0 ∨ options.maxInFlight > sessionCount then
    .error "maxInFlight must be an integer from 1 to 30"
  else if options.execute then
    if (unresolved options env).length > 0 then
      .error ("Workspace IDs are not present in the local workspace snapshot: " ++
        ", ".intercalate (unresolved options env))
    else
      let (run, stages) := runStages plus text options env 0 0 stageSizes {}
      .ok (report options run stages)
  else
    .ok (report options { samples := [env.resources 0] }
      ((stageSizes.zipIdx 1).map fun (planned, stage) =>
        { stage := stage, planned := planned, offered := 0, admitted := 0, failed := 0
          withheld := planned }))

end Run

end AgentOrchestrator.Load
