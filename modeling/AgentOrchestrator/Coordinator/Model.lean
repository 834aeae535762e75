import AgentOrchestrator.Calls.Schema
import AgentOrchestrator.Launch.Dispatch

/-!
# `LaunchCoordinator`

`launch` reserves an intent in the store, looks its key up at the provider, marks the intent as
dispatching, calls the provider and binds the run; `reconcile` binds the runs of the intents that
the store instance has in memory.  Every await is a point where another call may go on, so a call
is a program counter.  A `System` is the state file, the intents each store instance has in memory,
the provider with the keys it has been sent and the runs it holds, and any number of calls.
-/

namespace AgentOrchestrator.Coordinator

open Store
open Launch (Grant Refusal Authorization ProviderRuns)

/-- What the coordinator takes from outside: that of the store, and the SHA-256 digest of the text
`launch-request:v1`, a zero byte and a printed value. -/
structure Env extends Store.Env where
  launchDigest : Json → String

/-! ## Requests -/

structure AttributedLaunchRequest where
  idempotencyKey : String
  prompt : String
  workspaceId : String
  resume : Option ResumeMetadata := none
  sessionId : String
  batchId : String
  workerId : String
  attribution : WorkerAttribution
  deriving DecidableEq

def invalidArgument (message : String) : Refusal :=
  { retryable := false, reason := "INVALID_ARGUMENT", message := message }

/-- `CONTROL_CHARACTERS` -/
def isControl (c : Char) : Bool :=
  let n := c.toNat
  n ≤ 8 || n = 11 || n = 12 || (14 ≤ n && n ≤ 31) || (127 ≤ n && n ≤ 159)

/-- `assertBoundedText`; a Lean string is well-formed Unicode. -/
def assertBoundedText (value name : String) (maxBytes : ℕ) : Except Refusal Unit :=
  if value = "" then .error (invalidArgument (name ++ " must be a non-empty string"))
  else if value.toList.any isControl then
    .error (invalidArgument (name ++ " must not contain control characters"))
  else if maxBytes < value.utf8ByteSize then
    .error (invalidArgument (name ++ " exceeds the " ++ toString maxBytes ++ " byte limit"))
  else .ok ()

def assertIdentifier (value name : String) (maxBytes : ℕ) : Except Refusal Unit := do
  assertBoundedText value name maxBytes
  if value.toList.any Calls.isSpace then
    .error (invalidArgument (name ++ " must not contain whitespace"))
  else .ok ()

def assertDataOperand (value name : String) : Except Refusal Unit := do
  assertBoundedText value name 4096
  if value.toList.any fun c => c = '\n' || c = '\r' || c = '\t' then
    .error (invalidArgument (name ++ " must not contain line or tab separators"))
  else if value.toList.head? = some '-' then
    .error (invalidArgument (name ++ " must not begin with an option marker"))
  else .ok ()

variable (env : Env)

/-- The redaction leaves the texts as they are. -/
def assertUnredacted (texts : List String) (message : String) : Except Refusal Unit :=
  if texts.any fun text => env.redactText text ≠ text then .error (invalidArgument message)
  else .ok ()

/-- The checks of `launch` before the workspace is authorized. -/
def checkRequest (request : AttributedLaunchRequest) : Except Refusal Unit := do
  assertIdentifier request.idempotencyKey "idempotencyKey" 256
  assertIdentifier request.sessionId "sessionId" 256
  assertIdentifier request.batchId "batchId" 256
  assertIdentifier request.workerId "workerId" 256
  assertIdentifier request.workspaceId "workspaceId" 256
  assertUnredacted env [request.idempotencyKey, request.sessionId, request.batchId,
    request.workerId, request.workspaceId] "Launch identities must not contain credentials"
  assertIdentifier request.attribution.agent "attribution.agent" 1024
  assertBoundedText request.attribution.task "attribution.task" 1024
  match request.resume with
  | none => .ok ()
  | some resume => do
    assertIdentifier resume.adapter "resume.adapter" 256
    assertBoundedText resume.token "resume.token" 4096
    assertUnredacted env [resume.adapter, resume.token]
      "Resume metadata must not contain credentials"
  assertBoundedText request.prompt "prompt" 131072

def redactAttribution (attribution : WorkerAttribution) : WorkerAttribution :=
  { agent := env.redactText attribution.agent, task := env.redactText attribution.task }

/-- The request as it is hashed and stored. -/
def redacted (request : AttributedLaunchRequest) : AttributedLaunchRequest :=
  { request with
    prompt := env.redactText request.prompt
    attribution := redactAttribution env request.attribution }

/-- `LaunchCoordinator.requestHash`; the fields stand in the order of `canonicalJson`. -/
def requestHash (request : AttributedLaunchRequest) : String :=
  env.launchDigest <| .obj [
    ("attribution", .obj [("agent", .str request.attribution.agent),
      ("task", .str request.attribution.task)]),
    ("batchId", .str request.batchId), ("prompt", .str request.prompt),
    ("resume", match request.resume with
      | none => .null
      | some resume => .obj [("adapter", .str resume.adapter), ("token", .str resume.token)]),
    ("sessionId", .str request.sessionId), ("workerId", .str request.workerId),
    ("workspaceId", .str request.workspaceId)]

/-- The hash under which `launch` reserves the request. -/
def launchHash (request : AttributedLaunchRequest) : String :=
  requestHash env (redacted env request)

/-- The intent `launch` reserves; the store sets its status and its times. -/
def intentOf (request : AttributedLaunchRequest) : LaunchIntent :=
  { idempotencyKey := request.idempotencyKey, requestHash := launchHash env request,
    sessionId := request.sessionId, batchId := request.batchId, workerId := request.workerId,
    workspaceId := some request.workspaceId,
    attribution := redactAttribution env request.attribution, status := .reserved,
    createdAt := "", updatedAt := "" }

def auditInput (request : AttributedLaunchRequest) (decision : AuditDecision) (reason : String)
    (projectId : Option String) : SecurityAuditInput :=
  { requesterId := if request.sessionId = "" then "invalid-requester" else request.sessionId
    operation := "sessions_launch", decision := decision, reasonCode := reason
    correlationId :=
      if request.idempotencyKey = "" then "invalid-correlation" else request.idempotencyKey
    workspaceId := if request.workspaceId = "" then none else some request.workspaceId
    projectId := projectId }

/-- The audit of an intent, by `bind` and by `reconcile`. -/
def intentAudit (intent : LaunchIntent) (decision : AuditDecision) (reason : String) :
    SecurityAuditInput :=
  { requesterId := intent.sessionId, operation := "sessions_launch", decision := decision,
    reasonCode := reason, correlationId := intent.idempotencyKey, workspaceId := intent.workspaceId }

def legacyRefusal : Refusal :=
  { retryable := false, reason := "INTEGRITY_FAILURE",
    message := "Legacy launch has no workspace identity" }

/-! ## Calls to the store -/

/-- What a call throws: its message and its reason code. -/
structure LaunchError where
  message : String
  reason : String
  deriving DecidableEq

/-- The error of a refusal. -/
def refusalError (refusal : Refusal) : LaunchError := ⟨refusal.message, refusal.reason⟩

/-- The error of a store call, with the text of its message. -/
def storeError (message : String) : StoreError → LaunchError
  | .security code _ => ⟨message, code⟩
  | _ => ⟨message, "POLICY_DENIED"⟩

/-- The intents in memory after `load`, which keeps a state whose audit chain is broken. -/
def loadIntents (disk : Disk) (memory : List LaunchIntent) : List LaunchIntent :=
  match disk with
  | none => []
  | some s => if StateSchema env.toEnv s then s.launchIntents else memory

/-- What a store call does: to the file, to the intents in memory, and its result. -/
structure Stored (α : Type) where
  disk : Disk
  memory : List LaunchIntent
  result : Except StoreError α

/-- A store call whose intents in memory are the ones on file before it. -/
def storedOn {α : Type} (body : DurableState → Body α) (io : WriteOutcome) (disk : Disk)
    (memory : List LaunchIntent) : Stored α :=
  ⟨(perform env.toEnv body io disk).1, loadIntents env disk memory,
    (perform env.toEnv body io disk).2⟩

/-- `reserveLaunch` adds the intent to the state in memory before it persists it. -/
def reserve (intent : LaunchIntent) (now : Timestamp) (io : WriteOutcome) (disk : Disk)
    (memory : List LaunchIntent) : Stored (LaunchIntent × Bool) :=
  { storedOn env (reserveLaunch intent now) io disk memory with
    memory := match load env.toEnv disk with
      | .error _ => loadIntents env disk memory
      | .ok s =>
        match (reserveLaunch intent now s).next with
        | none => s.launchIntents
        | some next => next.launchIntents }

/-- `updateLaunch` changes a copy of the state, which it keeps when it has been persisted. -/
def update (key : String) (status : LaunchStatus) (runId diagnostic : Option String)
    (audit : Option SecurityAuditInput) (uuid : String) (now : Timestamp) (io : WriteOutcome)
    (disk : Disk) (memory : List LaunchIntent) : Stored LaunchIntent :=
  let stored := storedOn env (updateLaunch env.toEnv key status runId diagnostic audit uuid now) io
    disk memory
  match stored.result with
  | .error _ => stored
  | .ok _ => { stored with memory := (contents stored.disk).launchIntents }

def appendAudit (audit : SecurityAuditInput) (uuid : String) (now : Timestamp) (io : WriteOutcome)
    (disk : Disk) (memory : List LaunchIntent) : Stored Unit :=
  storedOn env (appendSecurityAudit env.toEnv audit uuid now) io disk memory

/-- `bind` -/
def bind (intent : LaunchIntent) (runId reason uuid : String) (now : Timestamp) (io : WriteOutcome)
    (disk : Disk) (memory : List LaunchIntent) : Stored LaunchIntent :=
  update env intent.idempotencyKey .bound (some runId) none
    (some (intentAudit intent .allowed reason)) uuid now io disk memory

/-! ## The programs -/

/-- Where a `launch` stands, that is, which call it waits for. -/
inductive LaunchPc where
  /-- The first authorization of the workspace. -/
  | authorizing
  /-- An audit event, after which the launch throws. -/
  | auditing (audit : SecurityAuditInput)
  | reserving (grant : Grant)
  | lookingUp (grant : Grant) (intent : LaunchIntent) (created : Bool)
  /-- The provider has a run; the workspace of the intent is authorized again. -/
  | reauthorizing (intent : LaunchIntent) (runId : String)
  | bindingRecovered (intent : LaunchIntent) (runId : String)
  | revalidating (grant : Grant) (intent : LaunchIntent)
  | auditingIntent (grant : Grant) (intent : LaunchIntent)
  | dispatching (grant : Grant) (intent : LaunchIntent)
  | calling (grant : Grant) (intent : LaunchIntent)
  | bindingLaunched (grant : Grant) (intent : LaunchIntent) (runId : String)
  /-- The outcome of the call is recorded as unknown, and the launch throws. -/
  | recordingUnknown (grant : Grant) (error : LaunchError)
  | returned (intent : LaunchIntent)
  | threw
  deriving DecidableEq

/-- Where a `reconcile` stands; `todo` are the intents after the current one. -/
inductive ReconcilePc where
  | lookingUp (intent : LaunchIntent) (todo reconciled : List LaunchIntent)
  | authorizing (intent : LaunchIntent) (runId : String) (todo reconciled : List LaunchIntent)
  | auditing (intent : LaunchIntent) (reason : String) (todo reconciled : List LaunchIntent)
  | binding (intent : LaunchIntent) (runId : String) (todo reconciled : List LaunchIntent)
  | returned (reconciled : List LaunchIntent)
  | threw
  deriving DecidableEq

/-- The answer a call resumes with.  A store call comes with the clock, the identifier it draws,
how its write ends and the text of the error if it throws.  A failpoint that throws after the
provider has accepted a launch is an error of the launch call. -/
inductive Input where
  | authorizer (answer : Authorization)
  | revalidated (answer : Except Refusal Unit)
  | store (now : Timestamp) (uuid : String) (io : WriteOutcome) (failure : String)
  | lookup (answer : Except LaunchError (Option String))
  | launched (answer : Except LaunchError String)

/-- The state after a call resumed; `sends` when it calls the provider to launch. -/
structure Effect (α : Type) where
  disk : Disk
  memory : List LaunchIntent
  sends : Bool := false
  pc : α

/-- The next program counter after a store call. -/
def Stored.then {α β : Type} (stored : Stored α) (ok : α → β) (error : StoreError → β) : Effect β :=
  { disk := stored.disk, memory := stored.memory
    pc := match stored.result with
      | .ok value => ok value
      | .error e => error e }

/-- One step of `launch`; an input it does not wait for is ignored. -/
def LaunchPc.resume (request : AttributedLaunchRequest) (disk : Disk) (memory : List LaunchIntent) :
    LaunchPc → Input → Effect LaunchPc
  | .authorizing, .authorizer answer =>
    { disk, memory
      pc := match answer with
        | .error refusal => .auditing (auditInput request .denied refusal.reason none)
        | .ok grant => .reserving grant }
  | .auditing audit, .store now uuid io _ =>
    (appendAudit env audit uuid now io disk memory).then (fun _ => .threw) (fun _ => .threw)
  | .reserving grant, .store now _ io _ =>
    (reserve env (intentOf env request) now io disk memory).then
      (fun (intent, created) =>
        if intent.status = .bound then .returned intent else .lookingUp grant intent created)
      (fun _ => .threw)
  | .lookingUp grant intent created, .lookup answer =>
    { disk, memory
      pc := match answer with
        | .error _ => .threw
        | .ok (some runId) =>
          if intent.workspaceId = none then
            .auditing (auditInput request .denied legacyRefusal.reason none)
          else .reauthorizing intent runId
        | .ok none =>
          if created = false ∧ intent.status ≠ .reserved then .threw
          else .revalidating grant intent }
  | .reauthorizing intent runId, .authorizer answer =>
    { disk, memory
      pc := match answer with
        | .error refusal => .auditing (auditInput request .denied refusal.reason none)
        | .ok _ => .bindingRecovered intent runId }
  | .bindingRecovered intent runId, .store now uuid io _ =>
    (bind env intent runId "launch_recovered" uuid now io disk memory).then .returned
      (fun _ => .threw)
  | .revalidating grant intent, .revalidated answer =>
    { disk, memory
      pc := match answer with
        | .error refusal => .auditing (auditInput request .denied refusal.reason grant.projectId)
        | .ok () => .auditingIntent grant intent }
  | .auditingIntent grant intent, .store now uuid io _ =>
    (appendAudit env (auditInput request .allowed "launch_intent" grant.projectId) uuid now io disk
      memory).then (fun _ => .dispatching grant intent) (fun _ => .threw)
  | .dispatching grant intent, .store now uuid io _ =>
    let stored := update env request.idempotencyKey .dispatching none none none uuid now io disk memory
    match stored.result, assertDataOperand grant.canonicalPath "workspace path" with
    | .ok _, .ok () =>
      { disk := stored.disk, memory := stored.memory, sends := true, pc := .calling grant intent }
    | .ok _, .error refusal =>
      { disk := stored.disk, memory := stored.memory
        pc := .recordingUnknown grant (refusalError refusal) }
    | .error _, _ => { disk := stored.disk, memory := stored.memory, pc := .threw }
  | .calling grant intent, .launched answer =>
    { disk, memory
      pc := match answer with
        | .error error => .recordingUnknown grant error
        | .ok runId => .bindingLaunched grant intent runId }
  | .bindingLaunched grant intent runId, .store now uuid io failure =>
    (bind env intent runId "launch_started" uuid now io disk memory).then .returned
      (fun e => .recordingUnknown grant (storeError failure e))
  | .recordingUnknown grant error, .store now uuid io _ =>
    (update env request.idempotencyKey .unknownOutcome none (some (env.redactText error.message))
      (some (auditInput request .failed error.reason grant.projectId)) uuid now io disk memory).then
      (fun _ => .threw) (fun _ => .threw)
  | pc, _ => { disk, memory, pc }

/-- The loop of `reconcile`, up to the next call it waits for. -/
def advance : List LaunchIntent → List LaunchIntent → ReconcilePc
  | [], reconciled => .returned reconciled
  | intent :: todo, reconciled =>
    if intent.status = .bound then advance todo reconciled else .lookingUp intent todo reconciled

/-- One step of `reconcile`. -/
def ReconcilePc.resume (disk : Disk) (memory : List LaunchIntent) :
    ReconcilePc → Input → Effect ReconcilePc
  | .lookingUp intent todo reconciled, .lookup answer =>
    { disk, memory
      pc := match answer with
        | .error _ => .threw
        | .ok none => advance todo reconciled
        | .ok (some runId) =>
          if intent.workspaceId = none then .auditing intent legacyRefusal.reason todo reconciled
          else .authorizing intent runId todo reconciled }
  | .authorizing intent runId todo reconciled, .authorizer answer =>
    { disk, memory
      pc := match answer with
        | .error refusal => .auditing intent refusal.reason todo reconciled
        | .ok _ => .binding intent runId todo reconciled }
  | .auditing intent reason todo reconciled, .store now uuid io _ =>
    (appendAudit env (intentAudit intent .denied reason) uuid now io disk memory).then
      (fun _ => advance todo reconciled) (fun _ => .threw)
  | .binding intent runId todo reconciled, .store now uuid io _ =>
    (bind env intent runId "launch_recovered" uuid now io disk memory).then
      (fun bound => advance todo (reconciled ++ [bound])) (fun _ => .threw)
  | pc, _ => { disk, memory, pc }

/-! ## The system -/

/-- What a call of the coordinator is doing. -/
inductive Activity where
  | launch (request : AttributedLaunchRequest) (pc : LaunchPc)
  | reconcile (pc : ReconcilePc)
  deriving DecidableEq

/-- A call, and the store instance it works on. -/
structure Frame where
  store : ℕ
  activity : Activity
  deriving DecidableEq

structure System where
  disk : Disk := none
  /-- The intents in the memory of the store instances. -/
  memory : ℕ → List LaunchIntent := fun _ => []
  /-- The keys the provider has been called to launch. -/
  sent : String → Bool := fun _ => false
  runs : ProviderRuns := fun _ => none
  frames : ℕ → Option Frame := fun _ => none

inductive Act where
  /-- Another service calls the store through an instance. -/
  | service (store : ℕ) (c : Call) (io : WriteOutcome)
  | launch (call store : ℕ) (request : AttributedLaunchRequest)
  | reconcile (call store : ℕ)
  /-- What a call waits for returns. -/
  | resume (call : ℕ) (input : Input)
  /-- The provider accepts a launch it has been sent, at any time after the call. -/
  | accept (key runId : String)
  /-- A call is cut off, by a failpoint or otherwise. -/
  | cut (call : ℕ)
  /-- The process with the store instance dies and a new one takes its place. -/
  | crash (store : ℕ)

def System.setFrame (sys : System) (call : ℕ) (frame : Frame) : System :=
  { sys with frames := Function.update sys.frames call (some frame) }

/-- A call that is cut off; one that has returned is not changed. -/
def Activity.end : Activity → Activity
  | .launch request (.returned intent) => .launch request (.returned intent)
  | .launch request _ => .launch request .threw
  | .reconcile (.returned reconciled) => .reconcile (.returned reconciled)
  | .reconcile _ => .reconcile .threw

/-- The first program counter of a `launch`. -/
def LaunchPc.start (request : AttributedLaunchRequest) : LaunchPc :=
  match checkRequest env request with
  | .error refusal => .auditing (auditInput request .denied refusal.reason none)
  | .ok () => .authorizing

/-- The system after a call of the instance resumed with the effect. -/
def System.apply {α : Type} (sys : System) (call store : ℕ) (key : String) (e : Effect α)
    (activity : α → Activity) : System :=
  { sys with
    disk := e.disk
    memory := Function.update sys.memory store e.memory
    sent := if e.sends then Function.update sys.sent key true else sys.sent
    frames := Function.update sys.frames call (some ⟨store, activity e.pc⟩) }

def step (sys : System) : Act → System
  | .service store c io =>
    -- Only the coordinator reserves and updates launch intents.
    if c.isIntent then sys
    else
      { sys with
        disk := Store.step env.toEnv sys.disk (c, io)
        memory := Function.update sys.memory store (loadIntents env sys.disk (sys.memory store)) }
  | .launch call store request =>
    if sys.frames call = none then
      sys.setFrame call ⟨store, .launch request (LaunchPc.start env request)⟩
    else sys
  | .reconcile call store =>
    if sys.frames call = none then
      sys.setFrame call ⟨store, .reconcile (advance (sys.memory store) [])⟩
    else sys
  | .resume call input =>
    match sys.frames call with
    | none => sys
    | some ⟨store, .launch request pc⟩ =>
      sys.apply call store request.idempotencyKey
        (pc.resume env request sys.disk (sys.memory store) input) (.launch request)
    | some ⟨store, .reconcile pc⟩ =>
      sys.apply call store "" (pc.resume env sys.disk (sys.memory store) input) .reconcile
  | .accept key runId =>
    if sys.sent key ∧ sys.runs key = none then
      { sys with runs := Function.update sys.runs key (some runId) }
    else sys
  | .cut call =>
    match sys.frames call with
    | none => sys
    | some frame => sys.setFrame call { frame with activity := frame.activity.end }
  | .crash store =>
    { sys with
      memory := Function.update sys.memory store []
      frames := fun call => (sys.frames call).map fun frame =>
        if frame.store = store then { frame with activity := frame.activity.end } else frame }

end AgentOrchestrator.Coordinator
