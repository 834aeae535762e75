import AgentOrchestrator.Coordinator.Model
import AgentOrchestrator.Library.Except
import AgentOrchestrator.Results.Protocol
import AgentOrchestrator.Security.RedactValue
import AgentOrchestrator.Store.Deliveries
import Mathlib.Data.List.Infix

/-!
# Result capture

`ResultCaptureService` asks the provider how a run ended, makes a claim of what it says, redacts and
bounds the claim, and hands it to the store together with the identities of the assignment.  A
response that breaks the protocol is itself captured, as a malformed result.
-/

namespace AgentOrchestrator.Results

open Store (AgentResultClaim ResultClaimStatus ResultCompleteness ResumeMetadata Assignment
  CapturedResult Timestamp)
open Lifecycle (RunStatus TerminalRunStatus RunResult ResultDelivery completeness)
open Launch (Refusal)
open Coordinator (invalidArgument isControl assertIdentifier)
open Security (redactText)

def maxResultBytes : ℕ := 4 * 1024 * 1024

/-- `assertBoundedOptionalText` -/
def assertBoundedOptionalText (value name : String) (maxBytes : ℕ) : Except Refusal Unit :=
  if value.toList.any isControl then
    .error (invalidArgument (name ++ " must not contain control characters"))
  else if maxBytes < value.utf8ByteSize then
    .error (invalidArgument (name ++ " exceeds the " ++ toString maxBytes ++ " byte limit"))
  else .ok ()

/-! ## What the provider delivers -/

/-- An error of the adapter: its message, its `code`, and whether it is a `ProviderProtocolError`. -/
structure Thrown where
  message : String
  code : Option String := none
  protocol : Bool := false
  deriving DecidableEq

def isTransientProviderError (e : Thrown) : Bool := e.code = some "PROVIDER_UNAVAILABLE"

/-- How a call of the adapter ends. -/
abbrev Answer := Except Thrown Response

/-- The check of an output before the response is parsed; `in` throws on `null`. -/
def checkOutput : Response → Except String Unit
  | .json .null => .error "Cannot use 'in' operator to search for 'output' in null"
  | .json (.obj fields) =>
    match field? "output" fields with
    | some (.str output) =>
      (assertBoundedOptionalText output "result output" maxResultBytes).mapError (·.message)
    | _ => .ok ()
  | .unprintable (some output) =>
    (assertBoundedOptionalText output "result output" maxResultBytes).mapError (·.message)
  | _ => .ok ()

/-- The message a failed result is captured with. -/
def failureMessage (message : String) : String :=
  if "exceeds the 4194304 byte limit".toList <:+: message.toList then
    "Provider result response was oversized"
  else message

/-- What `collect` comes to: an error, a run that goes on, or a delivery to ingest. -/
inductive Collected where
  | threw (error : Thrown)
  | observed (status : RunStatus) (attention : Option String)
  | delivers (delivery : ResultDelivery) (observed : Option TerminalRunStatus)

variable (number : Json.NumberFormat) (isoDatetime : String → Bool)

/-- The result of a run that has ended. -/
def collectResult (terminal : TerminalRunStatus) (answer : Answer) : Collected :=
  let malformed (message : String) : Collected :=
    .delivers (.malformed (failureMessage message)) (some terminal)
  match answer with
  | .error e => if isTransientProviderError e then .threw e else malformed e.message
  | .ok response =>
    match checkOutput response with
    | .error message => malformed message
    | .ok () =>
      match parseProviderResult number response with
      | .error e => malformed e.message
      | .ok none => .delivers (.stoppedWithoutResult terminal none) (some terminal)
      | .ok (some result) =>
        if result.status ≠ terminal then
          .delivers (.malformed ("Adapter result status " ++ Json.quote result.status.text ++
            " did not match observed status " ++ Json.quote terminal.text)) (some terminal)
        else .delivers (.adapterResult result) (some terminal)

/-- `collect`, up to the ingestion, with the answers of `status` and `result`. -/
def collect (runId : String) (status result : Answer) : Collected :=
  match status with
  | .error e =>
    if e.protocol then .delivers (.malformed e.message) none else .threw e
  | .ok response =>
    match parseProviderStatus number isoDatetime response with
    | .error e => .delivers (.malformed e.message) none
    | .ok state =>
      if state.runId ≠ runId then
        .delivers (.malformed "Provider status response used a different execution identity") none
      else
        match state.status.terminal with
        | none => .observed state.status state.attention
        | some terminal => collectResult number terminal result

/-! ## The claim that is stored -/

section

variable (canaries : List String) (lower : String → String)

/-- The field of an object, if it is defined. -/
def entry (key : String) (value : Option (Security.Tree Bool)) :
    List (String × Security.Tree Bool) := value.toList.map fun tree => (key, tree)

def resumeTree (m : ResumeMetadata) : Security.Tree Bool :=
  .container false [("adapter", .text m.adapter), ("token", .text m.token)]

/-- The claim as `redactValue` meets it. -/
def claimTree (c : AgentResultClaim) : Security.Tree Bool :=
  .container false <| entry "status" (some (.text c.status.text)) ++
    entry "completeness" (some (.text c.completeness.text)) ++
    entry "output" (c.output.map .text) ++ entry "error" (c.error.map .text) ++
    entry "retryable" (c.retryable.map .prim) ++ entry "stopReason" (c.stopReason.map .text) ++
    entry "resume" (c.resume.map resumeTree)

/-- The claim after its redaction; the token of a resume stands under a sensitive key. -/
def redactClaim (c : AgentResultClaim) : AgentResultClaim :=
  { c with
    output := c.output.map (redactText canaries)
    error := c.error.map (redactText canaries)
    stopReason := c.stopReason.map (redactText canaries)
    resume := c.resume.map fun m =>
      { adapter := redactText canaries m.adapter, token := Security.keyMarker lower "token" } }

/-- The names of the status and of the completeness are texts too. -/
def Named (c : AgentResultClaim) : Prop :=
  redactText canaries c.status.text = c.status.text ∧
    redactText canaries c.completeness.text = c.completeness.text

instance (c : AgentResultClaim) : Decidable (Named canaries c) :=
  inferInstanceAs (Decidable (_ ∧ _))

end

/-- `bounded`: what is left of the bytes after a text. -/
def bounded (value : Option String) (name : String) (remaining : ℕ) : Except Refusal ℕ :=
  match value with
  | none => .ok remaining
  | some text => do
    assertBoundedOptionalText text name remaining
    .ok (remaining - text.utf8ByteSize)

def boundedClaim (c : AgentResultClaim) : Except Refusal AgentResultClaim := do
  let remaining ← bounded c.output "result output" maxResultBytes
  let remaining ← bounded c.error "result error" remaining
  let remaining ← bounded c.stopReason "result stop reason" remaining
  let remaining ← bounded (c.resume.map (·.adapter)) "result resume adapter" remaining
  let _ ← bounded (c.resume.map (·.token)) "result resume token" remaining
  .ok c

/-! ## Ingestion -/

/-- What the service throws before it calls the store, or for a claim the store cannot parse. -/
inductive IngestError where
  | security (refusal : Refusal)
  | error (message : String)
  | schema
  deriving DecidableEq

structure ExactIdentities where
  workspaceId : String
  attemptId : String
  attempt : ℕ

def requireExactIdentities (a : Assignment) : Except IngestError ExactIdentities :=
  match a.workspaceId, a.attemptId, a.attempt with
  | some workspaceId, some attemptId, some attempt =>
    .ok { workspaceId := workspaceId, attemptId := attemptId, attempt := attempt }
  | _, _, _ => .error (.error
      "Legacy assignments without exact workspace and attempt identities cannot accept results")

/-- The run `collect` asks about. -/
def collectedRun (a : Assignment) : Except IngestError String :=
  match a.status, a.runId with
  | .launched, some runId => (requireExactIdentities a).map fun _ => runId
  | _, _ => .error (.error
      "Result collection requires a launched assignment with a bound run ID")

/-- A result with its fingerprint. -/
def fingerprinted (env : Store.Env) (r : CapturedResult) : CapturedResult :=
  { r with deliveryFingerprint := env.digest r.canonical }

/-- `ingest`: what is handed to `captureResult`. -/
def ingest (env : Store.Env) (canaries : List String) (lower : String → String) (a : Assignment)
    (deliveryId : String) (delivery : ResultDelivery) (now : Timestamp) :
    Except IngestError CapturedResult := do
  (assertIdentifier deliveryId "deliveryId" 256).mapError .security
  match a.runId with
  | none => .error (.error "Result ingestion requires a bound run ID")
  | some runId => do
    let identities ← requireExactIdentities a
    let claim ←
      (boundedClaim (redactClaim canaries lower (Lifecycle.normalize delivery))).mapError .security
    if ¬ Named canaries claim then .error .schema
    else .ok (fingerprinted env
      { deliveryId := deliveryId, deliveryFingerprint := "", assignmentId := a.id,
        batchId := a.batchId, sessionId := a.sessionId, workspaceId := some identities.workspaceId,
        workspacePath := a.workspacePath, attemptId := identities.attemptId, attempt := identities.attempt,
        runId := runId, attribution := a.attribution, claim := claim, capturedAt := now })

/-! ## The redaction of a claim -/

section

variable {canaries : List String} {lower : String → String}

theorem redactFields_append (fields more : List (String × Security.Tree Bool)) :
    Security.redactFields canaries lower (fields ++ more) =
      Security.redactFields canaries lower fields ++ Security.redactFields canaries lower more := by
  induction fields with
  | nil => simp [Security.redactFields]
  | cons field fields ih =>
    obtain ⟨key, tree⟩ := field
    simp [Security.redactFields, ih]

/-- The entry of a key that is not sensitive. -/
theorem redactFields_entry {key : String} (hkey : Security.isSensitiveKey key = false)
    (value : Option (Security.Tree Bool)) :
    Security.redactFields canaries lower (entry key value) =
      entry key (value.map (Security.redactTree canaries lower)) := by
  cases value with
  | none => simp [entry, Security.redactFields]
  | some tree => simp [entry, Security.redactFields, hkey]

/-- `redactClaim` is what `redactValue` makes of a claim whose names it keeps. -/
theorem redactTree_claimTree {c : AgentResultClaim} (h : Named canaries c) :
    Security.redactTree canaries lower (claimTree c) =
      claimTree (redactClaim canaries lower c) := by
  have hplain : ∀ key ∈ ["status", "completeness", "output", "error", "retryable", "stopReason",
      "resume", "adapter"], Security.isSensitiveKey key = false := by decide +kernel
  have htoken : Security.isSensitiveKey "token" = true := by decide +kernel
  have htext : ∀ o : Option String, (o.map Security.Tree.text).map
      (Security.redactTree (P := Bool) canaries lower) =
        (o.map (redactText canaries)).map Security.Tree.text := by
    intro o
    cases o <;> simp [Security.redactTree]
  have hprim : ∀ o : Option Bool, (o.map Security.Tree.prim).map
      (Security.redactTree canaries lower) = o.map Security.Tree.prim := by
    intro o
    cases o <;> simp [Security.redactTree]
  have hresume : ∀ o : Option ResumeMetadata, (o.map resumeTree).map
      (Security.redactTree canaries lower) =
        (o.map fun m => ({ adapter := redactText canaries m.adapter,
                           token := Security.keyMarker lower "token" } : ResumeMetadata)).map
          resumeTree := by
    intro o
    cases o with
    | none => rfl
    | some m =>
      simp [resumeTree, Security.redactTree, Security.redactFields, Security.copyEntries, htoken,
        hplain "adapter" (by simp)]
  rw [claimTree, Security.redactTree]
  simp only [redactFields_append]
  rw [redactFields_entry (hplain _ (by simp)), redactFields_entry (hplain _ (by simp)),
    redactFields_entry (hplain _ (by simp)), redactFields_entry (hplain _ (by simp)),
    redactFields_entry (hplain _ (by simp)), redactFields_entry (hplain _ (by simp)),
    redactFields_entry (hplain _ (by simp)), htext, htext, htext, hprim, hresume]
  simp [Security.copyEntries, claimTree, redactClaim, Security.redactTree, h.1, h.2]

end

end AgentOrchestrator.Results
