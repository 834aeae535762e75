import AgentOrchestrator.Calls.Replay
import AgentOrchestrator.Canonical.Encoder
import AgentOrchestrator.Coordinator.Model

/-!
# The hash of a launch request

`LaunchCoordinator.requestHash` parses the request, encodes all of its fields but the idempotency key
and hashes the text.  Two valid requests have one hash exactly when they differ in that key at most.
-/

namespace AgentOrchestrator.Canonical

open Coordinator (AttributedLaunchRequest)
open Store (ResumeMetadata WorkerAttribution)
open Calls (canonicalJson)

/-! ## `attributedLaunchRequestSchema` -/

/-- The entries of an object that has no other keys. -/
def strictObject (keys : List String) : JsValue → Option (List (String × JsValue))
  | .obj fields => if ∀ field ∈ fields, field.1 ∈ keys then some fields else none
  | _ => none

def stringField (fields : List (String × JsValue)) (key : String) : Option String :=
  match fields.lookup key with
  | some (.str s) => some s
  | _ => none

def parseResume (value : JsValue) : Option ResumeMetadata := do
  let fields ← strictObject ["adapter", "token"] value
  return { adapter := ← stringField fields "adapter", token := ← stringField fields "token" }

/-- `.optional()` -/
def parseOptionalResume : Option JsValue → Option (Option ResumeMetadata)
  | none | some .undefined => some none
  | some value => (parseResume value).map some

def parseAttribution (value : JsValue) : Option WorkerAttribution := do
  let fields ← strictObject ["agent", "task"] value
  return { agent := ← stringField fields "agent", task := ← stringField fields "task" }

/-- `attributedLaunchRequestSchema.parse`, nothing when it throws. -/
def parseRequest (request : JsValue) : Option AttributedLaunchRequest := do
  let fields ← strictObject ["idempotencyKey", "prompt", "workspaceId", "resume", "sessionId",
    "batchId", "workerId", "attribution"] request
  return {
    idempotencyKey := ← stringField fields "idempotencyKey"
    prompt := ← stringField fields "prompt"
    workspaceId := ← stringField fields "workspaceId"
    resume := ← parseOptionalResume (fields.lookup "resume")
    sessionId := ← stringField fields "sessionId"
    batchId := ← stringField fields "batchId"
    workerId := ← stringField fields "workerId"
    attribution := ← (fields.lookup "attribution").bind parseAttribution }

/-! ## `requestHash` -/

def attributionJson (attribution : WorkerAttribution) : Json :=
  .obj [("agent", .str attribution.agent), ("task", .str attribution.task)]

/-- `normalized.resume ?? null` -/
def resumeJson : Option ResumeMetadata → Json
  | none => .null
  | some resume => .obj [("adapter", .str resume.adapter), ("token", .str resume.token)]

/-- What is hashed of a request. -/
def requestJson (normalized : AttributedLaunchRequest) : Json :=
  .obj [("sessionId", .str normalized.sessionId), ("batchId", .str normalized.batchId),
    ("workerId", .str normalized.workerId), ("attribution", attributionJson normalized.attribution),
    ("prompt", .str normalized.prompt), ("workspaceId", .str normalized.workspaceId),
    ("resume", resumeJson normalized.resume)]

section RequestHash

variable (number : Json.NumberFormat) (sha256 : List Char → List (Fin 256))

/-- The digest of the text `launch-request:v1`, a zero byte and a canonical text. -/
def launchDigest (canonical : List Char) : String :=
  String.ofList (Calls.Replay.toHex (sha256 ("launch-request:v1\x00".toList ++ canonical)))

/-- `LaunchCoordinator.requestHash`, nothing when it throws. -/
def requestHash (request : JsValue) : Option String := do
  let normalized ← parseRequest request
  let canonical ← (coordinatorCanonicalJson number (ofJson (requestJson normalized))).toOption
  return launchDigest sha256 canonical

end RequestHash

variable {number : Json.NumberFormat} {sha256 : List Char → List (Fin 256)}

theorem launchDigest_injective (hsha : Function.Injective sha256) :
    Function.Injective (launchDigest sha256) := fun _ _ h =>
  List.append_cancel_left (hsha (Calls.Replay.toHex_injective (String.ofList_injective h)))

theorem requestHash_of_parsed {request : JsValue} {normalized : AttributedLaunchRequest}
    (h : parseRequest request = some normalized) : requestHash number sha256 request =
      some (launchDigest sha256 (canonicalJson number (requestJson normalized))) := by
  unfold requestHash
  rw [h, Option.bind_eq_bind, Option.bind_some, coordinatorCanonicalJson_ofJson]
  rfl

theorem distinctKeys_requestJson (normalized : AttributedLaunchRequest) :
    (requestJson normalized).DistinctKeys := by
  obtain ⟨_, _, _, resume, _, _, _, _⟩ := normalized
  cases resume <;>
    simp [requestJson, resumeJson, attributionJson, Json.DistinctKeys, Json.DistinctFields]

theorem same_attributionJson {a b : WorkerAttribution} :
    (attributionJson a).Same (attributionJson b) ↔ a = b := by
  obtain ⟨agent, task⟩ := a
  obtain ⟨agent', task'⟩ := b
  rw [attributionJson, attributionJson, Json.Same, Json.sameFields_cons rfl, Json.sameFields_cons rfl]
  simp [Json.Same, Json.SameFields]

theorem same_resumeJson {a b : Option ResumeMetadata} :
    (resumeJson a).Same (resumeJson b) ↔ a = b := by
  rcases a with - | ⟨adapter, token⟩ <;> rcases b with - | ⟨adapter', token'⟩
  · simp [resumeJson, Json.Same]
  · simp [resumeJson, Json.Same]
  · simp [resumeJson, Json.Same]
  · rw [resumeJson, resumeJson, Json.Same, Json.sameFields_cons rfl, Json.sameFields_cons rfl]
    simp [Json.Same, Json.SameFields]

/-- The hashed values are the same exactly when the requests differ in their keys at most. -/
theorem same_requestJson {a b : AttributedLaunchRequest} :
    (requestJson a).Same (requestJson b) ↔ { a with idempotencyKey := b.idempotencyKey } = b := by
  obtain ⟨key, prompt, workspaceId, resume, sessionId, batchId, workerId, attribution⟩ := a
  obtain ⟨key', prompt', workspaceId', resume', sessionId', batchId', workerId', attribution'⟩ := b
  rw [requestJson, requestJson, Json.Same, Json.sameFields_cons rfl, Json.sameFields_cons rfl,
    Json.sameFields_cons rfl, Json.sameFields_cons rfl, Json.sameFields_cons rfl,
    Json.sameFields_cons rfl, Json.sameFields_cons rfl, same_attributionJson, same_resumeJson]
  simp [Json.Same, Json.SameFields]
  tauto

/-- **Two valid requests have one hash exactly when they differ in their idempotency keys at most.** -/
theorem requestHash_eq_iff (hsha : Function.Injective sha256) {request request' : JsValue}
    {normalized normalized' : AttributedLaunchRequest} (h : parseRequest request = some normalized)
    (h' : parseRequest request' = some normalized') :
    requestHash number sha256 request = requestHash number sha256 request' ↔
      { normalized with idempotencyKey := normalized'.idempotencyKey } = normalized' := by
  rw [requestHash_of_parsed h, requestHash_of_parsed h', Option.some.injEq,
    (launchDigest_injective hsha).eq_iff,
    Calls.canonicalJson_eq_iff (distinctKeys_requestJson normalized), same_requestJson]

theorem cloneJson_attributionJson (attribution : WorkerAttribution) :
    Calls.cloneJson (attributionJson attribution) = attributionJson attribution :=
  Calls.cloneJson_eq_of_sorted (by simp) le_rfl
    (by simp only [List.forall_mem_cons]; exact ⟨rfl, rfl, List.forall_mem_nil _⟩)
    (by simp only [List.map_cons, List.map_nil]; decide)

theorem cloneJson_resumeJson (resume : Option ResumeMetadata) :
    Calls.cloneJson (resumeJson resume) = resumeJson resume := by
  cases resume with
  | none => rfl
  | some resume =>
    exact Calls.cloneJson_eq_of_sorted (by simp) le_rfl
      (by simp only [List.forall_mem_cons]; exact ⟨rfl, rfl, List.forall_mem_nil _⟩)
      (by simp only [List.map_cons, List.map_nil]; decide)

/-- The hashed value with its keys sorted. -/
theorem cloneJson_requestJson (normalized : AttributedLaunchRequest) :
    Calls.cloneJson (requestJson normalized) = .obj [
      ("attribution", attributionJson normalized.attribution), ("batchId", .str normalized.batchId),
      ("prompt", .str normalized.prompt), ("resume", resumeJson normalized.resume),
      ("sessionId", .str normalized.sessionId), ("workerId", .str normalized.workerId),
      ("workspaceId", .str normalized.workspaceId)] := by
  refine Calls.cloneJson_eq_of_sorted (by simp) le_rfl ?_
    (by simp only [List.map_cons, List.map_nil]; decide)
  simp only [List.forall_mem_cons]
  refine ⟨rfl, rfl, rfl, ?_, rfl, rfl, ?_, List.forall_mem_nil _⟩
  · rw [cloneJson_attributionJson]
    rfl
  · rw [cloneJson_resumeJson]
    rfl

/-- The coordinator's hash of a parsed request is that of the request. -/
theorem requestHash_eq (env : Coordinator.Env)
    (henv : env.launchDigest = fun value => launchDigest sha256 (Json.print number value))
    {request : JsValue} {normalized : AttributedLaunchRequest}
    (h : parseRequest request = some normalized) :
    requestHash number sha256 request = some (Coordinator.requestHash env normalized) := by
  rw [requestHash_of_parsed h, canonicalJson, cloneJson_requestJson, Coordinator.requestHash, henv]
  cases normalized.resume <;> rfl

/-! ## The canonical form -/

/-- A value is the same as its copy. -/
theorem same_cloneJson {a : Json} (h : a.Readable number) : (Calls.cloneJson a).Same a :=
  Calls.same_of_cloneJson_eq (Calls.readable_cloneJson h).distinctKeys (Calls.cloneJson_cloneJson a)

/-- **`canonicalJson` is a canonical form.**  Two values have one text exactly when they are equal up
to the order of their keys, a text is read as a value that is equal up to this order, and the two
encoders agree; so two valid requests have one hash exactly when they differ in their idempotency
keys at most. -/
theorem canonical_form (number : Json.NumberFormat) :
    (∀ a b : Json, a.DistinctKeys → b.DistinctKeys → ∃ s t,
      executorCanonicalJson number (ofJson a) = .ok s ∧
      executorCanonicalJson number (ofJson b) = .ok t ∧ (s = t ↔ a.Same b)) ∧
    (∀ a : Json, a.Readable number → ∃ text value,
      executorCanonicalJson number (ofJson a) = .ok text ∧ Json.parse text = some value ∧
      value.Same a) ∧
    (∀ a : Json, a.DistinctKeys →
      coordinatorCanonicalJson number (ofJson a) = executorCanonicalJson number (ofJson a)) ∧
    ∀ sha256 : List Char → List (Fin 256), Function.Injective sha256 →
      ∀ request request' normalized normalized', parseRequest request = some normalized →
      parseRequest request' = some normalized' → ∃ hash hash',
        requestHash number sha256 request = some hash ∧
        requestHash number sha256 request' = some hash' ∧
        (hash = hash' ↔
          { normalized with idempotencyKey := normalized'.idempotencyKey } = normalized') := by
  refine ⟨fun a b ha hb => ?_, fun a ha => ?_, fun a ha => ?_,
    fun sha256 hsha request request' normalized normalized' h h' => ?_⟩
  · exact ⟨_, _, executorCanonicalJson_ofJson ha, executorCanonicalJson_ofJson hb,
      Calls.canonicalJson_eq_iff ha⟩
  · exact ⟨_, _, executorCanonicalJson_ofJson ha.distinctKeys, Calls.parse_canonicalJson ha,
      same_cloneJson ha⟩
  · rw [coordinatorCanonicalJson_ofJson, executorCanonicalJson_ofJson ha]
  · have hiff := @requestHash_eq_iff number _ hsha _ _ _ _ h h'
    rw [requestHash_of_parsed h, requestHash_of_parsed h', Option.some.injEq] at hiff
    exact ⟨_, _, requestHash_of_parsed h, requestHash_of_parsed h', hiff⟩

/-- An object with its keys in two orders. -/
def leftValue : Json := .obj [("b", .nat 1), ("a", .arr [.bool true, .null])]

def rightValue : Json := .obj [("a", .arr [.bool true, .null]), ("b", .nat 1)]

/-- A launch request with an idempotency key. -/
def keyedRequest (key : String) : JsValue :=
  .obj [("idempotencyKey", .str key), ("prompt", .str "p"), ("workspaceId", .str "w"),
    ("resume", .undefined), ("sessionId", .str "s"), ("batchId", .str "b"), ("workerId", .str "k"),
    ("attribution", .obj [("agent", .str "codex"), ("task", .str "t")])]

theorem canonical_form_sample :
    (∃ s t, executorCanonicalJson Json.fractions (ofJson leftValue) = .ok s ∧
      executorCanonicalJson Json.fractions (ofJson rightValue) = .ok t ∧
      (s = t ↔ leftValue.Same rightValue)) ∧
    (∃ text value, executorCanonicalJson Json.fractions (ofJson leftValue) = .ok text ∧
      Json.parse text = some value ∧ value.Same leftValue) ∧
    coordinatorCanonicalJson Json.fractions (ofJson leftValue) =
      executorCanonicalJson Json.fractions (ofJson leftValue) ∧
    ∃ hash, requestHash Json.fractions Calls.Replay.charBytes (keyedRequest "x") = some hash ∧
      requestHash Json.fractions Calls.Replay.charBytes (keyedRequest "y") = some hash := by
  have hone : Json.fractions.Reads 1 := by
    simpa using @Json.NumberFormat.reads_natural Json.fractions 1 (by decide)
  have hleft : leftValue.Readable Json.fractions := by
    simp [leftValue, Json.Readable, Json.ReadableFields, Json.ReadableItems, Json.nat, hone]
  have hright : rightValue.DistinctKeys := by
    simp [rightValue, Json.DistinctKeys, Json.DistinctFields, Json.DistinctItems, Json.nat]
  have hform := canonical_form Json.fractions
  obtain ⟨hash, hash', hhash, hhash', hiff⟩ := hform.2.2.2 Calls.Replay.charBytes
    Calls.Replay.charBytes_injective (keyedRequest "x") (keyedRequest "y") _ _ rfl rfl
  refine ⟨hform.1 leftValue rightValue hleft.distinctKeys hright, hform.2.1 leftValue hleft,
    hform.2.2.1 leftValue hleft.distinctKeys, hash, hhash, ?_⟩
  rw [hhash', hiff.2 rfl]

end AgentOrchestrator.Canonical
