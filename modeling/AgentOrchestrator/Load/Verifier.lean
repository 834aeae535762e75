import AgentOrchestrator.Load.Runner
import Mathlib.Tactic.MkIffOfInductiveProp

/-!
# The load report's schema

`realSchema` has a shape, with the bounds of its fields, and a refinement that adds an issue for
each inconsistency.  It accepts a report of that shape without an issue.  An integer is at most
`Number.MAX_SAFE_INTEGER` in absolute value.
-/

namespace AgentOrchestrator.Load

/-! ## The shape -/

def IsSafeInteger (value : ℚ) : Prop := value.den = 1 ∧ |value| ≤ 9007199254740991

instance (value : ℚ) : Decidable (IsSafeInteger value) :=
  inferInstanceAs (Decidable (_ ∧ _))

@[mk_iff] structure resourceSampleSchema (sample : ResourceSample) : Prop where
  elapsedMs : 0 ≤ sample.elapsedMs
  cpuUserMs : 0 ≤ sample.cpuUserMs
  cpuSystemMs : 0 ≤ sample.cpuSystemMs
  rssBytes : 0 < sample.rssBytes
  descriptors : ∀ descriptors ∈ sample.descriptors, IsSafeInteger descriptors ∧ 0 ≤ descriptors

@[mk_iff] structure acceptedSessionSchema (session : AcceptedSession) : Prop where
  workspaceId : session.workspaceId ≠ ""
  task : session.task ≠ ""
  stage : 1 ≤ session.stage ∧ session.stage ≤ 3
  sessionId : session.sessionId ≠ ""
  kind : session.kind = "terminal" ∨ session.kind = "chat"
  latencyMs : 0 ≤ session.latencyMs

@[mk_iff] structure configurationSchema (configuration : Configuration) : Prop where
  sessions : configuration.sessions = 30
  stages : configuration.stages = [5, 10, 15]
  uniqueWorkspaces : configuration.uniqueWorkspaces = true
  maxInFlight : 1 ≤ configuration.maxInFlight ∧ configuration.maxInFlight ≤ 30
  maxRssBytes : 0 < configuration.ceilings.maxRssBytes
  maxCpuMs : 0 < configuration.ceilings.maxCpuMs
  maxDescriptors : 0 < configuration.ceilings.maxDescriptors

@[mk_iff] structure stageSchema (evidence : StageEvidence) : Prop where
  stage : 1 ≤ evidence.stage ∧ evidence.stage ≤ 3
  planned : 0 < evidence.planned
  safe : evidence.planned ≤ 9007199254740991 ∧ evidence.offered ≤ 9007199254740991 ∧
    evidence.admitted ≤ 9007199254740991 ∧ evidence.failed ≤ 9007199254740991 ∧
    evidence.withheld ≤ 9007199254740991

@[mk_iff] structure admissionSchema (admission : Admission) : Prop where
  planned : admission.planned = 30
  offered : admission.offered ≤ 30
  admitted : admission.admitted ≤ 30
  failed : admission.failed ≤ 30
  withheld : admission.withheld ≤ 30
  maxObservedInFlight : admission.maxObservedInFlight ≤ 30
  stages : (∀ evidence ∈ admission.stages, stageSchema evidence) ∧ admission.stages.length = 3

@[mk_iff] structure launchSchema (launch : Launch) : Prop where
  attempted : launch.attempted ≤ 30
  accepted : launch.accepted ≤ 30
  acceptedSessions : (∀ session ∈ launch.acceptedSessions, acceptedSessionSchema session) ∧
    launch.acceptedSessions.length ≤ 30
  p50 : 0 ≤ launch.latencyMs.p50
  p95 : 0 ≤ launch.latencyMs.p95
  max : 0 ≤ launch.latencyMs.max

@[mk_iff] structure capabilitiesSchema (capabilities : Capabilities) : Prop where
  completion : capabilities.completion = "unavailable"
  results : capabilities.results = "unavailable"
  cancellation : capabilities.cancellation = "unavailable"
  recovery : capabilities.recovery = "unavailable through supported Superset APIs"

/-- The object schema without its refinement. -/
@[mk_iff] structure shape (report : Report) : Prop where
  schema : report.schema = realLoadSchema
  mode : report.mode = "dry-run" ∨ report.mode = "execute"
  configuration : configurationSchema report.configuration
  admission : admissionSchema report.admission
  launch : launchSchema report.launch
  samples : (∀ sample ∈ report.samples, resourceSampleSchema sample) ∧
    1 ≤ report.samples.length ∧ report.samples.length ≤ 60
  abort : report.abort.reason ≠ some ""
  validation : report.validation.reason ≠ some ""
  capabilities : capabilitiesSchema report.capabilities

/-! ## Decidability -/

instance (sample : ResourceSample) : Decidable (resourceSampleSchema sample) :=
  decidable_of_iff _ (resourceSampleSchema_iff sample).symm

instance (session : AcceptedSession) : Decidable (acceptedSessionSchema session) :=
  decidable_of_iff _ (acceptedSessionSchema_iff session).symm

instance (configuration : Configuration) : Decidable (configurationSchema configuration) :=
  decidable_of_iff _ (configurationSchema_iff configuration).symm

instance (evidence : StageEvidence) : Decidable (stageSchema evidence) :=
  decidable_of_iff _ (stageSchema_iff evidence).symm

instance (admission : Admission) : Decidable (admissionSchema admission) :=
  decidable_of_iff _ (admissionSchema_iff admission).symm

instance (launch : Launch) : Decidable (launchSchema launch) :=
  decidable_of_iff _ (launchSchema_iff launch).symm

instance (capabilities : Capabilities) : Decidable (capabilitiesSchema capabilities) :=
  decidable_of_iff _ (capabilitiesSchema_iff capabilities).symm

instance (report : Report) : Decidable (shape report) :=
  decidable_of_iff _ (shape_iff report).symm

/-! ## The refinement -/

def uniqueAttribution (accepted : List AcceptedSession) : Bool :=
  (accepted.map (·.workspaceId)).dedup.length = accepted.length &&
    (accepted.map (·.task)).dedup.length = accepted.length &&
    (accepted.map (·.sessionId)).dedup.length = accepted.length

def countsConsistent (launch : Launch) : Bool :=
  launch.attempted = launch.accepted + launch.failures.length &&
    launch.accepted = launch.acceptedSessions.length

/-- The sessions of one stage. -/
def acceptedIn (accepted : List AcceptedSession) (stage : ℕ) : ℕ :=
  (accepted.filter (·.stage = stage)).length

/-- The check of each stage in turn, from the stage `index` on. -/
def stagesConsistent (accepted : List AcceptedSession) : ℕ → Bool → List StageEvidence → Bool
  | _, _, [] => true
  | index, priorStageIncomplete, stage :: stages =>
    (stage.stage = index + 1 &&
      [5, 10, 15][index]? = some stage.planned &&
      stage.planned = stage.offered + stage.withheld &&
      stage.offered = stage.admitted + stage.failed &&
      stage.admitted = acceptedIn accepted stage.stage &&
      (!priorStageIncomplete || stage.offered = 0)) &&
    stagesConsistent accepted (index + 1)
      (priorStageIncomplete || stage.offered < stage.planned || stage.failed > 0) stages

def admissionConsistent (report : Report) : Bool :=
  let admission := report.admission
  admission.planned = admission.offered + admission.withheld &&
    admission.offered = admission.admitted + admission.failed &&
    admission.offered = report.launch.attempted &&
    admission.admitted = report.launch.accepted &&
    admission.failed = report.launch.failures.length &&
    (admission.stages.map (·.planned)).sum = admission.planned &&
    (admission.stages.map (·.offered)).sum = admission.offered &&
    (admission.stages.map (·.admitted)).sum = admission.admitted &&
    (admission.stages.map (·.failed)).sum = admission.failed &&
    (admission.stages.map (·.withheld)).sum = admission.withheld &&
    stagesConsistent report.launch.acceptedSessions 0 false admission.stages &&
    admission.maxObservedInFlight ≤ report.configuration.maxInFlight

def latencyConsistent (launch : Launch) : Bool :=
  let latencies := launch.acceptedSessions.map (·.latencyMs)
  launch.latencyMs.p50 = percentile latencies (1 / 2) &&
    launch.latencyMs.p95 = percentile latencies (19 / 20) &&
    launch.latencyMs.max = maxOf latencies

section Refinement

variable (plus : ℚ → ℚ → ℚ) (text : ℚ → String)

def resourceViolations (report : Report) : List String :=
  report.samples.flatMap (violations plus text report.configuration.ceilings.maxRssBytes
    report.configuration.ceilings.maxCpuMs report.configuration.ceilings.maxDescriptors)

/-- An issue unless the check holds. -/
def issue (check : Bool) (message : String) : List String := if check then [] else [message]

def abortIssues (report : Report) : List String :=
  if report.abort.aborted then
    issue (report.abort.reason = some "launch failure" && report.admission.failed > 0 ||
        (report.abort.reason.getD "") ∈ resourceViolations plus text report)
      "Abort is not supported by failure or ceiling evidence"
  else
    issue ((resourceViolations plus text report).length = 0)
      "Resource ceiling violation was not aborted"

/-- What a run that did not end early has to show. -/
def completed (report : Report) : Bool :=
  report.launch.attempted = 30 && report.launch.accepted = 30 &&
    report.launch.failures.length = 0 &&
    report.validation.passed && !report.validation.blocked &&
    report.validation.reason = none && report.admission.withheld = 0 &&
    acceptedIn report.launch.acceptedSessions 1 = 5 &&
    acceptedIn report.launch.acceptedSessions 2 = 10 &&
    acceptedIn report.launch.acceptedSessions 3 = 15

def modeIssues (report : Report) : List String :=
  if report.mode = "dry-run" then
    issue (report.launch.attempted = 0 && report.launch.accepted = 0 &&
        report.launch.failures.length = 0 && report.validation.passed &&
        report.validation.blocked && report.validation.reason ≠ none)
      "Dry-run must launch nothing and declare its external execution blocker"
  else if !report.abort.aborted then
    issue (completed report) "Completed load evidence must prove all 30 staged acceptances"
  else
    issue (!report.validation.passed && !report.validation.blocked &&
        report.validation.reason = none && report.admission.withheld ≠ 0 &&
        report.launch.attempted < 30)
      "Overload evidence must fail validation and withhold unoffered work"

def issues (report : Report) : List String :=
  issue (uniqueAttribution report.launch.acceptedSessions)
    "Accepted sessions require unique workspace, task, and session attribution" ++
  issue (countsConsistent report.launch) "Launch counts are inconsistent" ++
  issue (admissionConsistent report) "Admission and backpressure arithmetic is inconsistent" ++
  issue (latencyConsistent report.launch) "Launch latency arithmetic is inconsistent" ++
  issue (report.abort.aborted = decide (report.abort.reason ≠ none)) "Abort reason is inconsistent" ++
  abortIssues plus text report ++ modeIssues report

/-- The schema accepts a report. -/
def realSchema (report : Report) : Prop := shape report ∧ issues plus text report = []

instance (report : Report) : Decidable (realSchema plus text report) :=
  inferInstanceAs (Decidable (_ ∧ _))

end Refinement

@[simp] theorem issue_eq_nil (check : Bool) (message : String) :
    issue check message = [] ↔ check = true := by
  cases check <;> simp [issue]

end AgentOrchestrator.Load
