import AgentOrchestrator.JsonPrint
import AgentOrchestrator.Lifecycle.Model

/-!
# Provider responses

What a provider returns is untrusted: its size is bounded before its shape is checked, and a value
of another shape is not looked into.  A result is accepted exactly when its texts have the lengths
the schema allows and the printed response is not too large.
-/

namespace AgentOrchestrator.Results

open Store (ResumeMetadata)
open Lifecycle (RunStatus RunResult)

def maxProviderStatusBytes : ℕ := 16 * 1024
def maxProviderResultBytes : ℕ := 1024 * 1024
def maxProviderOutputLength : ℕ := 1000000
def maxProviderTextLength : ℕ := 16384
def maxProviderIdLength : ℕ := 512

/-! ## Schemas -/

/-- The value of a field. -/
def field? (name : String) (fields : List (String × Json)) : Option Json :=
  (fields.find? fun f => f.1 = name).map (·.2)

/-- `z.strictObject`: an object with these fields only. -/
def strictObject (names : List String) : Json → Option (List (String × Json))
  | .obj fields => if fields.all fun f => names.contains f.1 then some fields else none
  | _ => none

section

variable {α : Type} (read : Json → Option α) (name : String) (fields : List (String × Json))

def required : Option α := (field? name fields).bind read

/-- A field that may be left out. -/
def optionalField : Option (Option α) :=
  match field? name fields with
  | none => some none
  | some value => (read value).map some

end

/-- The length of a text, in code units. -/
def units (text : String) : ℕ := (Utf16.toUnits text).length

/-- `z.string().min(least).max(most)` -/
def boundedString (least most : ℕ) : Json → Option String
  | .str text => if least ≤ units text ∧ units text ≤ most then some text else none
  | _ => none

def boolean : Json → Option Bool
  | .bool b => some b
  | _ => none

/-- `resumeMetadataSchema` -/
def resumeMetadataSchema (value : Json) : Option ResumeMetadata := do
  let fields ← strictObject ["adapter", "token"] value
  let adapter ← required (boundedString 1 maxProviderIdLength) "adapter" fields
  let token ← required (boundedString 1 maxProviderTextLength) "token" fields
  some { adapter := adapter, token := token }

structure ProviderState where
  runId : String
  status : RunStatus
  updatedAt : String
  attention : Option String
  deriving DecidableEq

def runStatus : Json → Option RunStatus
  | .str "queued" => some .queued
  | .str "running" => some .running
  | .str "succeeded" => some .succeeded
  | .str "failed" => some .failed
  | .str "cancelled" => some .cancelled
  | _ => none

/-- The literal `waiting_for_input`. -/
def runAttention : Json → Option String
  | .str "waiting_for_input" => some "waiting_for_input"
  | _ => none

/-- `z.iso.datetime` -/
def datetime (isoDatetime : String → Bool) : Json → Option String
  | .str text => if isoDatetime text then some text else none
  | _ => none

/-- `providerStatusSchema` -/
def providerStatusSchema (isoDatetime : String → Bool) (value : Json) : Option ProviderState := do
  let fields ← strictObject ["runId", "status", "updatedAt", "attention"] value
  let runId ← required (boundedString 1 maxProviderIdLength) "runId" fields
  let status ← required runStatus "status" fields
  let updatedAt ← required (datetime isoDatetime) "updatedAt" fields
  let attention ← optionalField runAttention "attention" fields
  if attention = none ∨ status = .running then
    some { runId := runId, status := status, updatedAt := updatedAt, attention := attention }
  else none

def outputSchema : Json → Option String := boundedString 0 maxProviderOutputLength

/-- `providerResultSchema` -/
def providerResultSchema (value : Json) : Option RunResult :=
  match value with
  | .obj fields =>
    match field? "status" fields with
    | some (.str "succeeded") => do
      let fields ← strictObject ["status", "output", "resume"] value
      let output ← required outputSchema "output" fields
      let resume ← optionalField resumeMetadataSchema "resume" fields
      some (.succeeded output resume)
    | some (.str "failed") => do
      let fields ← strictObject ["status", "error", "retryable", "output", "resume"] value
      let error ← required (boundedString 1 maxProviderTextLength) "error" fields
      let retryable ← required boolean "retryable" fields
      let output ← optionalField outputSchema "output" fields
      let resume ← optionalField resumeMetadataSchema "resume" fields
      some (.failed error retryable output resume)
    | some (.str "cancelled") => do
      let fields ← strictObject ["status", "reason", "output", "resume"] value
      let reason ← optionalField (boundedString 0 maxProviderTextLength) "reason" fields
      let output ← optionalField outputSchema "output" fields
      let resume ← optionalField resumeMetadataSchema "resume" fields
      some (.cancelled reason output resume)
    | _ => none
  | _ => none

/-! ## Responses -/

/-- What a call of the adapter returns; `unprintable` where `JSON.stringify` throws or returns
nothing, with the output if there is a text. -/
inductive Response where
  | undefined
  | json (value : Json)
  | unprintable (output : Option String)

inductive ProtocolReason where
  | malformed | oversized
  deriving DecidableEq

/-- A `ProviderProtocolError`. -/
structure ProtocolError where
  operation : String
  reason : ProtocolReason
  deriving DecidableEq

def ProtocolReason.text : ProtocolReason → String
  | .malformed => "malformed"
  | .oversized => "oversized"

def ProtocolError.message (e : ProtocolError) : String :=
  "Provider " ++ e.operation ++ " response was " ++ e.reason.text

variable (number : Json.NumberFormat)

/-- `Buffer.byteLength(JSON.stringify(value), "utf8")` -/
def printedBytes (value : Json) : ℕ := (String.ofList (Json.print number value)).utf8ByteSize

/-- `parseProviderResponse`, for a schema that does not accept `undefined`. -/
def parseProviderResponse {α : Type} (operation : String) (maxBytes : ℕ) (schema : Json → Option α) :
    Response → Except ProtocolError α
  | .undefined | .unprintable _ => .error { operation := operation, reason := .malformed }
  | .json value =>
    if maxBytes < printedBytes number value then
      .error { operation := operation, reason := .oversized }
    else
      match schema value with
      | some parsed => .ok parsed
      | none => .error { operation := operation, reason := .malformed }

def parseProviderStatus (isoDatetime : String → Bool) : Response → Except ProtocolError ProviderState :=
  parseProviderResponse number "status" maxProviderStatusBytes (providerStatusSchema isoDatetime)

def parseProviderResult (response : Response) : Except ProtocolError (Option RunResult) :=
  match response with
  | .undefined => .ok none
  | _ => (parseProviderResponse number "result" maxProviderResultBytes providerResultSchema
      response).map some

/-! ## What a result may hold -/

def Fits (least most : ℕ) (text : String) : Prop := least ≤ units text ∧ units text ≤ most

structure ResumeFits (m : ResumeMetadata) : Prop where
  adapter : Fits 1 maxProviderIdLength m.adapter
  token : Fits 1 maxProviderTextLength m.token

/-- The texts of a result have the lengths the protocol allows. -/
def Within : RunResult → Prop
  | .succeeded output resume => Fits 0 maxProviderOutputLength output ∧ ∀ m ∈ resume, ResumeFits m
  | .failed error _ output resume => Fits 1 maxProviderTextLength error ∧
      (∀ text ∈ output, Fits 0 maxProviderOutputLength text) ∧ ∀ m ∈ resume, ResumeFits m
  | .cancelled reason output resume => (∀ text ∈ reason, Fits 0 maxProviderTextLength text) ∧
      (∀ text ∈ output, Fits 0 maxProviderOutputLength text) ∧ ∀ m ∈ resume, ResumeFits m

theorem boundedString_some {least most : ℕ} {value : Json} {text : String} :
    boundedString least most value = some text ↔ value = .str text ∧ Fits least most text := by
  unfold Fits
  cases value with
  | str s =>
    simp only [boundedString, Option.ite_none_right_eq_some, Option.some.injEq, Json.str.injEq]
    constructor
    · rintro ⟨h, rfl⟩
      exact ⟨rfl, h⟩
    · rintro ⟨rfl, h⟩
      exact ⟨h, rfl⟩
  | _ => simp [boundedString]

theorem required_some {α : Type} {read : Json → Option α} {name : String}
    {fields : List (String × Json)} {a : α} (h : required read name fields = some a) :
    ∃ value, read value = some a := by
  obtain ⟨value, -, hvalue⟩ := Option.bind_eq_some_iff.1 h
  exact ⟨value, hvalue⟩

theorem optionalField_some {α : Type} {read : Json → Option α} {name : String}
    {fields : List (String × Json)} {o : Option α} (h : optionalField read name fields = some o) :
    ∀ a ∈ o, ∃ value, read value = some a := by
  unfold optionalField at h
  split at h
  · obtain rfl := Option.some.inj h
    intro a ha
    cases ha
  · rename_i value _
    obtain ⟨b, hb, rfl⟩ := Option.map_eq_some_iff.1 h
    intro a ha
    obtain rfl := Option.mem_some.1 ha
    exact ⟨value, hb⟩

theorem resumeMetadataSchema_fits {value : Json} {m : ResumeMetadata}
    (h : resumeMetadataSchema value = some m) : ResumeFits m := by
  unfold resumeMetadataSchema at h
  obtain ⟨fields, -, h⟩ := Option.bind_eq_some_iff.1 h
  obtain ⟨adapter, hadapter, h⟩ := Option.bind_eq_some_iff.1 h
  obtain ⟨token, htoken, h⟩ := Option.bind_eq_some_iff.1 h
  obtain rfl := Option.some.inj h
  obtain ⟨_, hadapter⟩ := required_some hadapter
  obtain ⟨_, htoken⟩ := required_some htoken
  exact ⟨(boundedString_some.1 hadapter).2, (boundedString_some.1 htoken).2⟩

theorem optionalString_fits {least most : ℕ} {name : String} {fields : List (String × Json)}
    {o : Option String} (h : optionalField (boundedString least most) name fields = some o) :
    ∀ text ∈ o, Fits least most text := by
  intro text htext
  obtain ⟨_, hread⟩ := optionalField_some h text htext
  exact (boundedString_some.1 hread).2

theorem optionalResume_fits {fields : List (String × Json)} {o : Option ResumeMetadata}
    (h : optionalField resumeMetadataSchema "resume" fields = some o) : ∀ m ∈ o, ResumeFits m := by
  intro m hm
  obtain ⟨_, hread⟩ := optionalField_some h m hm
  exact resumeMetadataSchema_fits hread

/-- What the schema accepts is within the limits. -/
theorem providerResultSchema_within {value : Json} {r : RunResult}
    (h : providerResultSchema value = some r) : Within r := by
  unfold providerResultSchema at h
  split at h
  · split at h
    · obtain ⟨fields, -, h⟩ := Option.bind_eq_some_iff.1 h
      obtain ⟨output, houtput, h⟩ := Option.bind_eq_some_iff.1 h
      obtain ⟨resume, hresume, h⟩ := Option.bind_eq_some_iff.1 h
      obtain rfl := Option.some.inj h
      obtain ⟨_, houtput⟩ := required_some houtput
      exact ⟨(boundedString_some.1 houtput).2, optionalResume_fits hresume⟩
    · obtain ⟨fields, -, h⟩ := Option.bind_eq_some_iff.1 h
      obtain ⟨error, herror, h⟩ := Option.bind_eq_some_iff.1 h
      obtain ⟨retryable, -, h⟩ := Option.bind_eq_some_iff.1 h
      obtain ⟨output, houtput, h⟩ := Option.bind_eq_some_iff.1 h
      obtain ⟨resume, hresume, h⟩ := Option.bind_eq_some_iff.1 h
      obtain rfl := Option.some.inj h
      obtain ⟨_, herror⟩ := required_some herror
      exact ⟨(boundedString_some.1 herror).2, optionalString_fits houtput,
        optionalResume_fits hresume⟩
    · obtain ⟨fields, -, h⟩ := Option.bind_eq_some_iff.1 h
      obtain ⟨reason, hreason, h⟩ := Option.bind_eq_some_iff.1 h
      obtain ⟨output, houtput, h⟩ := Option.bind_eq_some_iff.1 h
      obtain ⟨resume, hresume, h⟩ := Option.bind_eq_some_iff.1 h
      obtain rfl := Option.some.inj h
      exact ⟨optionalString_fits hreason, optionalString_fits houtput, optionalResume_fits hresume⟩
    · cases h
  · cases h

/-! ## The values that are accepted -/

def resumeJson (m : ResumeMetadata) : Json :=
  .obj [("adapter", .str m.adapter), ("token", .str m.token)]

/-- A result as a provider returns it. -/
def resultJson : RunResult → Json
  | .succeeded output resume => .defined [("status", some (.str "succeeded")),
      ("output", some (.str output)), ("resume", resume.map resumeJson)]
  | .failed error retryable output resume => .defined [("status", some (.str "failed")),
      ("error", some (.str error)), ("retryable", some (.bool retryable)),
      ("output", output.map .str), ("resume", resume.map resumeJson)]
  | .cancelled reason output resume => .defined [("status", some (.str "cancelled")),
      ("reason", reason.map .str), ("output", output.map .str), ("resume", resume.map resumeJson)]

theorem boundedString_str {least most : ℕ} {text : String} (h : Fits least most text) :
    boundedString least most (.str text) = some text := boundedString_some.2 ⟨rfl, h⟩

theorem resumeMetadataSchema_json {m : ResumeMetadata} (h : ResumeFits m) :
    resumeMetadataSchema (resumeJson m) = some m := by
  simp [resumeMetadataSchema, resumeJson, strictObject, required, field?,
    boundedString_str h.adapter, boundedString_str h.token]

theorem providerResultSchema_json {r : RunResult} (h : Within r) :
    providerResultSchema (resultJson r) = some r := by
  have hresume : ∀ {resume : Option ResumeMetadata}, (∀ m ∈ resume, ResumeFits m) →
      ∀ m, resume = some m → resumeMetadataSchema (resumeJson m) = some m :=
    fun hr m hm => resumeMetadataSchema_json (hr m hm)
  have htext : ∀ {most : ℕ} {o : Option String}, (∀ text ∈ o, Fits 0 most text) →
      ∀ text, o = some text → boundedString 0 most (.str text) = some text :=
    fun ho text hs => boundedString_str (ho text hs)
  cases r with
  | succeeded output resume =>
    obtain ⟨houtput, hr⟩ := h
    have houtput := boundedString_str houtput
    have hr := hresume hr
    cases resume <;> simp_all [providerResultSchema, resultJson, Json.defined, strictObject,
      required, optionalField, field?, outputSchema]
  | failed error retryable output resume =>
    obtain ⟨herror, ho, hr⟩ := h
    have herror := boundedString_str herror
    have ho := htext ho
    have hr := hresume hr
    cases output <;> cases resume <;> simp_all [providerResultSchema, resultJson, Json.defined,
      strictObject, required, optionalField, field?, outputSchema, boolean]
  | cancelled reason output resume =>
    obtain ⟨hreason, ho, hr⟩ := h
    have hreason := htext hreason
    have ho := htext ho
    have hr := hresume hr
    cases reason <;> cases output <;> cases resume <;> simp_all [providerResultSchema, resultJson,
      Json.defined, strictObject, optionalField, field?, outputSchema]

theorem parseProviderResult_some {response : Response} {r : RunResult} :
    parseProviderResult number response = .ok (some r) ↔ ∃ value, response = .json value ∧
      printedBytes number value ≤ maxProviderResultBytes ∧
      providerResultSchema value = some r := by
  cases response with
  | undefined => simp [parseProviderResult]
  | unprintable output => simp [parseProviderResult, parseProviderResponse, Except.map]
  | json value =>
    by_cases hsize : maxProviderResultBytes < printedBytes number value
    · simp [parseProviderResult, parseProviderResponse, hsize, Except.map, Nat.not_le.2 hsize]
    · have hle := Nat.not_lt.1 hsize
      cases hparsed : providerResultSchema value <;>
        simp [parseProviderResult, parseProviderResponse, hsize, hparsed, hle, Except.map]

/-- **What passes the provider boundary.** Every result that is accepted is within the limits of
the protocol, and a result comes back from what a provider prints for it exactly when it is within
the limits and its print is not too large. -/
theorem providerResult_exact :
    (∀ response r, parseProviderResult number response = .ok (some r) → Within r) ∧
    ∀ r, parseProviderResult number (.json (resultJson r)) = .ok (some r) ↔
      Within r ∧ printedBytes number (resultJson r) ≤ maxProviderResultBytes := by
  constructor
  · intro response r h
    obtain ⟨value, -, -, hparsed⟩ := (parseProviderResult_some number).1 h
    exact providerResultSchema_within hparsed
  · intro r
    rw [parseProviderResult_some]
    constructor
    · rintro ⟨value, heq, hsize, hparsed⟩
      obtain rfl := Response.json.inj heq
      exact ⟨providerResultSchema_within hparsed, hsize⟩
    · rintro ⟨hwithin, hsize⟩
      exact ⟨_, rfl, hsize, providerResultSchema_json hwithin⟩

end AgentOrchestrator.Results
