import AgentOrchestrator.Coordinator.Model
import AgentOrchestrator.Library.Except
import AgentOrchestrator.Security.Redaction

/-!
# Acceptance of launches

`LaunchService.accept` and `acceptBatch` check a request, redact its texts, authorize its workspace
and derive every identity of the launch from the client and the idempotency key.  What they hand to
the store is a list of `LaunchInput` and a batch; `Accepts` says which store calls they make.
-/

namespace AgentOrchestrator.Launch

open Store
open Coordinator (assertBoundedText assertIdentifier assertDataOperand invalidArgument isControl)

/-- What acceptance takes from outside: that of the store, and the hexadecimal SHA-256 digest of a
text. -/
structure AcceptEnv extends Store.Env where
  sha256 : String → String

/-! ## Requests -/

/-- A request without an attribution reaches the service through untyped callers. -/
structure AsynchronousLaunchRequest where
  idempotencyKey : String
  clientId : String
  batchName : String
  attribution : Option WorkerAttribution
  prompt : String
  workspaceId : String
  deriving DecidableEq

/-- One assignment of a batch. -/
structure BatchItem where
  idempotencyKey : String
  attribution : Option WorkerAttribution
  prompt : String
  workspaceId : String
  deriving DecidableEq

structure AsynchronousBatchLaunchRequest where
  idempotencyKey : String
  clientId : String
  batchName : String
  assignments : List BatchItem
  deriving DecidableEq

/-- A request as it is stored: checked, and with its texts redacted. -/
structure SanitizedRequest where
  idempotencyKey : String
  clientId : String
  batchName : String
  attribution : WorkerAttribution
  prompt : String
  workspaceId : String
  deriving DecidableEq

/-- The request of one assignment of a batch. -/
def AsynchronousBatchLaunchRequest.full (request : AsynchronousBatchLaunchRequest)
    (item : BatchItem) : AsynchronousLaunchRequest :=
  { idempotencyKey := item.idempotencyKey, clientId := request.clientId,
    batchName := request.batchName, attribution := item.attribution, prompt := item.prompt,
    workspaceId := item.workspaceId }

/-! ## Identities -/

variable (env : AcceptEnv)

def stableId (kind key : String) : String :=
  kind ++ "_" ++ String.ofList ((env.sha256 (kind ++ "\x00" ++ key)).toList.take 24)

def scopedKey (clientId key : String) : String := clientId ++ "\x00" ++ key

def fingerprint (request : SanitizedRequest) : String :=
  env.digest <| .obj [("idempotencyKey", .str request.idempotencyKey),
    ("clientId", .str request.clientId), ("batchName", .str request.batchName),
    ("attribution", .obj [("agent", .str request.attribution.agent),
      ("task", .str request.attribution.task)]),
    ("prompt", .str request.prompt), ("workspaceId", .str request.workspaceId)]

/-! ## Checks -/

/-- Why a request is not accepted, and the denial that is audited before the error is thrown. -/
structure Denial where
  audit : Option SecurityAuditInput := none
  refusal : Refusal
  deriving DecidableEq

def auditInput (clientId idempotencyKey workspaceId : String) (decision : AuditDecision)
    (reason : String) (assignmentId projectId : Option String) : SecurityAuditInput :=
  { requesterId := if clientId = "" then "invalid-requester" else clientId
    operation := "sessions_launch"
    decision := decision
    reasonCode := reason
    correlationId := if idempotencyKey = "" then "invalid-correlation" else idempotencyKey
    workspaceId := if workspaceId = "" then none else some workspaceId
    projectId := projectId
    assignmentId := assignmentId }

/-- The text fields of a request must not be empty. -/
def assertFilled : List (String × String) → Except Refusal Unit
  | [] => .ok ()
  | (name, value) :: fields =>
    if value = "" then .error (invalidArgument (name ++ " must not be empty"))
    else assertFilled fields

def assertAttribution : Option WorkerAttribution → Except Refusal WorkerAttribution
  | none => .error (invalidArgument "attribution requires non-empty agent and task values")
  | some attribution =>
    if attribution.agent = "" ∨ attribution.task = "" then
      .error (invalidArgument "attribution requires non-empty agent and task values")
    else .ok attribution

/-- The redaction leaves the identities as they are. -/
def assertNoCredentials (identities : List String) : Except Refusal Unit :=
  if identities.any fun identity => env.redactText identity ≠ identity then
    .error (invalidArgument "Launch identities must not contain credentials")
  else .ok ()

/-- The checks of one launch before its workspace is authorized. -/
def sanitize (request : AsynchronousLaunchRequest) : Except Refusal SanitizedRequest := do
  assertFilled [("idempotencyKey", request.idempotencyKey), ("clientId", request.clientId),
    ("batchName", request.batchName), ("prompt", request.prompt),
    ("workspaceId", request.workspaceId)]
  let attribution ← assertAttribution request.attribution
  assertIdentifier request.idempotencyKey "idempotencyKey" 256
  assertIdentifier request.workspaceId "workspaceId" 256
  assertNoCredentials env [request.idempotencyKey, request.workspaceId]
  assertIdentifier attribution.agent "attribution.agent" 1024
  assertBoundedText attribution.task "attribution.task" 1024
  assertBoundedText request.prompt "prompt" 131072
  assertBoundedText request.clientId "clientId" 256
  assertBoundedText request.batchName "batchName" 256
  return {
    idempotencyKey := request.idempotencyKey
    clientId := env.redactText request.clientId
    batchName := env.redactText request.batchName
    attribution :=
      { agent := env.redactText attribution.agent, task := env.redactText attribution.task }
    prompt := env.redactText request.prompt
    workspaceId := request.workspaceId }

/-- The checks of one launch and the authorization of its workspace; a denial is audited. -/
def admission (request : AsynchronousLaunchRequest) (answer : Authorization) :
    Except Denial (SanitizedRequest × Grant) :=
  match (do return (← sanitize env request, ← answer) : Except Refusal _) with
  | .ok launch => .ok launch
  | .error refusal => .error
      { refusal := refusal
        audit := some (auditInput request.clientId request.idempotencyKey request.workspaceId
          .denied refusal.reason none none) }

/-- A check whose failure is not audited. -/
def unaudited {α : Type} (check : Except Refusal α) : Except Denial α :=
  check.mapError fun refusal => { refusal := refusal }

/-! ## Records -/

/-- The records of one launch of a batch.  `requester` is the client the audit event names. -/
def launchInput (requester clientId batchId : String) (acceptedAt : Timestamp) (position : ℕ)
    (launch : SanitizedRequest × Grant) : LaunchInput :=
  let key := scopedKey clientId launch.1.idempotencyKey
  { assignment :=
      { id := stableId env "assignment" key, idempotencyKey := key,
        requestFingerprint := fingerprint env launch.1, batchId := batchId,
        sessionId := stableId env "session" key, status := .accepted,
        attribution := launch.1.attribution, prompt := launch.1.prompt,
        workspaceId := some launch.1.workspaceId, workspacePath := launch.2.canonicalPath,
        attemptId := some (stableId env "attempt" key), attempt := some 1,
        acceptedAt := acceptedAt, updatedAt := acceptedAt }
    session :=
      { id := stableId env "session" key, clientId := clientId, createdAt := acceptedAt,
        lastSeenAt := acceptedAt }
    worker :=
      { id := stableId env "session" key, batchId := batchId,
        sessionId := stableId env "session" key, status := .requested,
        attribution := launch.1.attribution, startedAt := acceptedAt, position := some position }
    event := event (stableId env "assignment" key) .launchAccepted acceptedAt none none none
    securityAudit := auditInput requester launch.1.idempotencyKey launch.1.workspaceId .allowed
      "launch_accepted" (some (stableId env "assignment" key)) launch.2.projectId }

/-- The batch of accepted launches. -/
def launchBatch (clientId batchName key sessionId : String) (acceptedAt : Timestamp) : Batch :=
  { id := stableId env "batch" (scopedKey clientId key), name := batchName, sessionId := sessionId,
    createdAt := acceptedAt, updatedAt := acceptedAt }

/-- `LaunchService.accept`, up to the call of the store. -/
def accept (request : AsynchronousLaunchRequest) (answer : Authorization) (acceptedAt : Timestamp) :
    Except Denial (LaunchInput × Batch) := do
  let launch ← admission env request answer
  unaudited (assertDataOperand launch.2.canonicalPath "workspace path")
  let clientId := launch.1.clientId
  let batch := launchBatch env clientId launch.1.batchName launch.1.idempotencyKey
    (stableId env "session" (scopedKey clientId launch.1.idempotencyKey)) acceptedAt
  return (launchInput env request.clientId clientId batch.id acceptedAt 0 launch, batch)

/-- The launches of a batch, checked one after the other. -/
def admissions : List (AsynchronousLaunchRequest × Authorization) →
    Except Denial (List (SanitizedRequest × Grant))
  | [] => .ok []
  | (request, answer) :: rest => do
    let launch ← admission env request answer
    let launches ← admissions rest
    return launch :: launches

/-- The checks of `acceptBatch` before it looks at its assignments. -/
def checkBatch (request : AsynchronousBatchLaunchRequest) : Except Refusal Unit := do
  if request.assignments.length = 0 ∨ request.assignments.length > 100 then
    throw { retryable := false, reason := "POLICY_DENIED",
            message := "A launch batch requires between 1 and 100 assignments" }
  if ¬ (request.assignments.map (·.idempotencyKey)).Nodup then
    throw { retryable := false, reason := "POLICY_DENIED",
            message := "Batch assignment idempotency keys must be unique" }
  assertBoundedText request.clientId "clientId" 256
  assertBoundedText request.batchName "batchName" 256
  assertIdentifier request.idempotencyKey "idempotencyKey" 256
  assertNoCredentials env [request.idempotencyKey]

/-- `LaunchService.acceptBatch`, up to the call of the store; `answers` are the answers of the
authorizer for the assignments in order. -/
def acceptBatch (request : AsynchronousBatchLaunchRequest) (answers : ℕ → Authorization)
    (acceptedAt : Timestamp) : Except Denial (List LaunchInput × Batch) := do
  unaudited (checkBatch env request)
  let clientId := env.redactText request.clientId
  let launches ← admissions env
    (request.assignments.zipIdx.map fun (item, n) => (request.full item, answers n))
  unaudited (launches.forM fun launch => assertDataOperand launch.2.canonicalPath "workspace path")
  let sessions := launches.map fun launch =>
    stableId env "session" (scopedKey clientId launch.1.idempotencyKey)
  let batch := launchBatch env clientId (env.redactText request.batchName) request.idempotencyKey
    (sessions.headD "") acceptedAt
  return (launches.zipIdx.map fun (launch, position) =>
    launchInput env launch.1.clientId clientId batch.id acceptedAt position launch, batch)

/-- The call accepts launches only as the launch service builds them. -/
def Accepts : Call → Prop
  | .acceptLaunch input batch _ =>
    ∃ request answer acceptedAt, accept env request answer acceptedAt = .ok (input, batch)
  | .acceptLaunchBatch inputs batch _ =>
    ∃ request answers acceptedAt, acceptBatch env request answers acceptedAt = .ok (inputs, batch)
  | _ => True

/-! ## What is accepted -/

variable {env}

theorem assertBoundedText_ok {value name : String} {maxBytes : ℕ} {u : Unit}
    (h : assertBoundedText value name maxBytes = .ok u) :
    value ≠ "" ∧ value.toList.any isControl = false := by
  unfold assertBoundedText at h
  obtain ⟨hfilled, h⟩ := not_of_ite_error h
  obtain ⟨hcontrol, -⟩ := not_of_ite_error h
  exact ⟨hfilled, Bool.eq_false_iff.2 hcontrol⟩

theorem assertIdentifier_ok {value name : String} {maxBytes : ℕ} {u : Unit}
    (h : assertIdentifier value name maxBytes = .ok u) :
    value ≠ "" ∧ value.toList.any isControl = false := by
  obtain ⟨_, h, -⟩ := bind_eq_ok h
  exact assertBoundedText_ok h

theorem assertDataOperand_ok {value name : String} {u : Unit}
    (h : assertDataOperand value name = .ok u) : value ≠ "" := by
  obtain ⟨_, h, -⟩ := bind_eq_ok h
  exact (assertBoundedText_ok h).1

theorem assertAttribution_ok {attribution : Option WorkerAttribution} {a : WorkerAttribution}
    (h : assertAttribution attribution = .ok a) : a.agent ≠ "" ∧ a.task ≠ "" := by
  unfold assertAttribution at h
  split at h
  · cases h
  · split_ifs at h with hempty
    obtain rfl := Except.ok.inj h
    exact not_or.1 hempty

/-- What the checks of a launch guarantee. -/
structure Sanitized (env : AcceptEnv) (request : AsynchronousLaunchRequest) (r : SanitizedRequest) :
    Prop where
  idempotencyKey : r.idempotencyKey = request.idempotencyKey
  keyText : request.idempotencyKey.toList.any isControl = false
  clientId : r.clientId = env.redactText request.clientId
  client : request.clientId ≠ ""
  batchName : r.batchName = env.redactText request.batchName
  batch : request.batchName ≠ ""
  attribution : ∃ a : WorkerAttribution, a.agent ≠ "" ∧ a.task ≠ "" ∧
    r.attribution = { agent := env.redactText a.agent, task := env.redactText a.task }
  prompt : ∃ text, text ≠ "" ∧ r.prompt = env.redactText text
  workspaceId : r.workspaceId ≠ ""

theorem sanitize_ok {request : AsynchronousLaunchRequest} {r : SanitizedRequest}
    (h : sanitize env request = .ok r) : Sanitized env request r := by
  unfold sanitize at h
  obtain ⟨_, -, h⟩ := bind_eq_ok h
  obtain ⟨attribution, hattribution, h⟩ := bind_eq_ok h
  obtain ⟨_, hkey, h⟩ := bind_eq_ok h
  obtain ⟨_, hworkspace, h⟩ := bind_eq_ok h
  obtain ⟨_, -, h⟩ := bind_eq_ok h
  obtain ⟨_, -, h⟩ := bind_eq_ok h
  obtain ⟨_, -, h⟩ := bind_eq_ok h
  obtain ⟨_, hprompt, h⟩ := bind_eq_ok h
  obtain ⟨_, hclient, h⟩ := bind_eq_ok h
  obtain ⟨_, hbatch, h⟩ := bind_eq_ok h
  obtain rfl := Except.ok.inj h
  obtain ⟨hagent, htask⟩ := assertAttribution_ok hattribution
  exact
    { idempotencyKey := rfl
      keyText := (assertIdentifier_ok hkey).2
      clientId := rfl
      client := (assertBoundedText_ok hclient).1
      batchName := rfl
      batch := (assertBoundedText_ok hbatch).1
      attribution := ⟨attribution, hagent, htask, rfl⟩
      prompt := ⟨request.prompt, (assertBoundedText_ok hprompt).1, rfl⟩
      workspaceId := (assertIdentifier_ok hworkspace).1 }

theorem admission_ok {request : AsynchronousLaunchRequest} {answer : Authorization}
    {launch : SanitizedRequest × Grant} (h : admission env request answer = .ok launch) :
    Sanitized env request launch.1 := by
  unfold admission at h
  split at h
  · rename_i launch' hchecks
    obtain rfl := Except.ok.inj h
    obtain ⟨r, hr, hrest⟩ := bind_eq_ok hchecks
    obtain ⟨grant, -, hgrant⟩ := bind_eq_ok hrest
    obtain rfl := Except.ok.inj hgrant
    exact sanitize_ok hr
  · cases h

/-- What `accept` hands to the store. -/
theorem accept_ok {request : AsynchronousLaunchRequest} {answer : Authorization}
    {acceptedAt : Timestamp} {input : LaunchInput} {batch : Batch}
    (h : accept env request answer acceptedAt = .ok (input, batch)) :
    ∃ launch : SanitizedRequest × Grant, Sanitized env request launch.1 ∧
      launch.2.canonicalPath ≠ "" ∧
      batch = launchBatch env launch.1.clientId launch.1.batchName launch.1.idempotencyKey
        (stableId env "session" (scopedKey launch.1.clientId launch.1.idempotencyKey)) acceptedAt ∧
      input = launchInput env request.clientId launch.1.clientId batch.id acceptedAt 0 launch := by
  obtain ⟨launch, hlaunch, h⟩ := bind_eq_ok h
  obtain ⟨_, hpath, h⟩ := bind_eq_ok h
  obtain ⟨rfl, rfl⟩ := Prod.mk.inj (Except.ok.inj h)
  exact ⟨launch, admission_ok hlaunch, assertDataOperand_ok (mapError_eq_ok hpath), rfl, rfl⟩

theorem admissions_ok {requests : List (AsynchronousLaunchRequest × Authorization)}
    {launches : List (SanitizedRequest × Grant)} (h : admissions env requests = .ok launches) :
    List.Forall₂ (fun request launch => Sanitized env request.1 launch.1) requests launches := by
  induction requests generalizing launches with
  | nil =>
    obtain rfl := Except.ok.inj h
    exact .nil
  | cons request requests ih =>
    obtain ⟨launch, hlaunch, h⟩ := bind_eq_ok h
    obtain ⟨rest, hrest, h⟩ := bind_eq_ok h
    obtain rfl := Except.ok.inj h
    exact .cons (admission_ok hlaunch) (ih hrest)

/-- What the checks of a batch guarantee. -/
structure BatchChecked (request : AsynchronousBatchLaunchRequest) : Prop where
  assignments : request.assignments ≠ []
  keys : (request.assignments.map (·.idempotencyKey)).Nodup
  client : request.clientId ≠ ""
  batchName : request.batchName ≠ ""
  keyText : request.idempotencyKey.toList.any isControl = false

theorem checkBatch_ok {request : AsynchronousBatchLaunchRequest} {u : Unit}
    (h : checkBatch env request = .ok u) : BatchChecked request := by
  unfold checkBatch at h
  by_cases hcount : request.assignments.length = 0 ∨ request.assignments.length > 100
  · rw [if_pos hcount] at h
    cases h
  rw [if_neg hcount] at h
  by_cases hkeys : (request.assignments.map (·.idempotencyKey)).Nodup
  swap
  · rw [if_pos hkeys] at h
    cases h
  rw [if_neg (not_not.2 hkeys)] at h
  obtain ⟨_, hclient, h⟩ := bind_eq_ok h
  obtain ⟨_, hname, h⟩ := bind_eq_ok h
  obtain ⟨_, hkey, -⟩ := bind_eq_ok h
  exact
    { assignments := fun hnil => hcount (Or.inl (by rw [hnil]; rfl))
      keys := hkeys
      client := (assertBoundedText_ok hclient).1
      batchName := (assertBoundedText_ok hname).1
      keyText := (assertIdentifier_ok hkey).2 }

/-- What `acceptBatch` hands to the store. -/
structure BatchBuilt (env : AcceptEnv) (request : AsynchronousBatchLaunchRequest)
    (acceptedAt : Timestamp) (launches : List (SanitizedRequest × Grant))
    (inputs : List LaunchInput) (batch : Batch) : Prop where
  checked : BatchChecked request
  sanitized : List.Forall₂ (fun item launch => Sanitized env (request.full item) launch.1)
    request.assignments launches
  paths : ∀ launch ∈ launches, launch.2.canonicalPath ≠ ""
  batch_eq : batch = launchBatch env (env.redactText request.clientId) (env.redactText request.batchName)
    request.idempotencyKey ((launches.map fun launch => stableId env "session"
      (scopedKey (env.redactText request.clientId) launch.1.idempotencyKey)).headD "") acceptedAt
  inputs_eq : inputs = launches.zipIdx.map fun (launch, position) => launchInput env launch.1.clientId
    (env.redactText request.clientId) batch.id acceptedAt position launch

theorem acceptBatch_ok {request : AsynchronousBatchLaunchRequest} {answers : ℕ → Authorization}
    {acceptedAt : Timestamp} {inputs : List LaunchInput} {batch : Batch}
    (h : acceptBatch env request answers acceptedAt = .ok (inputs, batch)) :
    ∃ launches, BatchBuilt env request acceptedAt launches inputs batch := by
  obtain ⟨_, hcheck, h⟩ := bind_eq_ok h
  obtain ⟨launches, hlaunches, h⟩ := bind_eq_ok h
  obtain ⟨_, hpaths, h⟩ := bind_eq_ok h
  obtain ⟨rfl, rfl⟩ := Prod.mk.inj (Except.ok.inj h)
  refine ⟨launches, checkBatch_ok (mapError_eq_ok hcheck), ?_, ?_, rfl, rfl⟩
  · have hsanitized := List.forall₂_map_left_iff.1 (admissions_ok hlaunches)
    have hitems : request.assignments = request.assignments.zipIdx.map Prod.fst :=
      (List.zipIdx_map_fst 0 _).symm
    rw [hitems]
    exact List.forall₂_map_left_iff.2 hsanitized
  · intro launch hlaunch
    exact assertDataOperand_ok (forM_eq_ok (mapError_eq_ok hpaths) launch hlaunch)

/-- Every launch of a batch comes from one of its assignments. -/
theorem BatchBuilt.sanitized_of_mem {request : AsynchronousBatchLaunchRequest}
    {acceptedAt : Timestamp} {launches : List (SanitizedRequest × Grant)}
    {inputs : List LaunchInput} {batch : Batch}
    (h : BatchBuilt env request acceptedAt launches inputs batch) {launch : SanitizedRequest × Grant}
    (hlaunch : launch ∈ launches) : ∃ item, Sanitized env (request.full item) launch.1 := by
  obtain ⟨n, hn, rfl⟩ := List.getElem_of_mem hlaunch
  exact ⟨_, (List.forall₂_iff_get.1 h.sanitized).2 n (h.sanitized.length_eq ▸ hn) hn⟩

theorem BatchBuilt.launches_ne_nil {request : AsynchronousBatchLaunchRequest}
    {acceptedAt : Timestamp} {launches : List (SanitizedRequest × Grant)}
    {inputs : List LaunchInput} {batch : Batch}
    (h : BatchBuilt env request acceptedAt launches inputs batch) : launches ≠ [] := by
  rintro rfl
  have hlength := h.sanitized.length_eq
  exact h.checked.assignments (List.length_eq_zero_iff.1 hlength)

end AgentOrchestrator.Launch
