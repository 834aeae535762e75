import AgentOrchestrator.Calls.Canonical
import AgentOrchestrator.Library.Except
import Mathlib.Algebra.GroupWithZero.Nat

/-!
# Recording and replaying a call graph

`executeCallGraph` with all of its policy: the bounds, the audit trail and its callback, the
sandbox, and the records of a run.  A record run issues one record for each call, authenticated
under the replay key; a replay run takes the outputs from the records it is given.  Graph, tools and
records are copied before they are read.  The hash, the keyed hash, how numbers are printed, which
texts are URLs and how deep calls may nest are those of the platform; what a child process writes is
the sandbox's.
-/

namespace AgentOrchestrator.Calls.Replay

/-! ## Policies and results -/

inductive AuditDecision where
  | validationDenied | capabilityDenied | attempted | executed | failed | replayed
  deriving DecidableEq

structure AuditEntry where
  sequence : ℕ := 0
  nodeId : Option String
  tool : Option String
  capability : Option String
  decision : AuditDecision
  input : Json
  output : Json
  error : Option String
  deriving DecidableEq

/-- The policy of a run.  `audit` tells what the callback throws, if it does; a number that is not
finite is refused as a fraction is. -/
structure ExecutionPolicy where
  allowedCapabilities : Option (List String) := none
  timeoutMs : ℚ
  maxInputBytes : Option ℚ := none
  maxOutputBytes : ℚ
  maxMemoryMb : Option ℚ := none
  maxNodes : Option ℚ := none
  replayMode : Option ReplayMode := none
  replayKey : Option String := none
  audit : Option (AuditEntry → Option String) := none

structure ReplayRecord where
  sequence : ℚ
  nodeId : String
  tool : String
  inputHash : String
  output : Json
  toolHash : String
  recordHash : String
  deriving DecidableEq

structure ExecutionResult where
  outputs : Outputs
  audit : List AuditEntry
  replay : List ReplayRecord
  deriving DecidableEq

/-- An error, with the audit trail `withAudit` gives it; `trail` is what the run has appended, also
where the error does not carry it. -/
structure ExecutionError where
  message : String
  audit : Option (List AuditEntry) := none
  trail : List AuditEntry := []
  deriving DecidableEq

structure Platform where
  /-- How `JSON.stringify` prints numbers. -/
  number : Json.NumberFormat
  isUrl : String → Bool
  sha256 : List Char → List (Fin 256)
  hmacSha256 : String → List Char → List (Fin 256)
  /-- `JSON.stringify` of the sorted diagnostics. -/
  diagnosticsText : List ValidationDiagnostic → String
  /-- How deep the calls of `visit` may nest. -/
  depth : ℕ

/-- The host of one run. -/
structure Sandbox where
  /-- `process.platform === "darwin"` -/
  darwin : Bool
  /-- What the child of a call writes to its output, or why it is refused. -/
  spawnBounded : ℕ → String → List Char → ExecutionPolicy → Except String (List Char)

/-! ## `assertPolicy` -/

def isSafeInteger (value : ℚ) : Bool := value.den = 1 && value.num.natAbs ≤ 9007199254740991

def bounded (name : String) (value least most : ℚ) : Except String Unit :=
  if isSafeInteger value ∧ 0 < value ∧ least ≤ value ∧ value ≤ most then .ok ()
  else .error (name ++ " must be a bounded positive safe integer")

def ExecutionPolicy.mode (policy : ExecutionPolicy) : ReplayMode :=
  policy.replayMode.getD .disabled

def ExecutionPolicy.key (policy : ExecutionPolicy) : String := policy.replayKey.getD ""

def assertPolicy (policy : ExecutionPolicy) : Except String Unit := do
  bounded "timeoutMs" policy.timeoutMs 1 300000
  bounded "maxInputBytes" (policy.maxInputBytes.getD 1048576) 1 16777216
  bounded "maxOutputBytes" policy.maxOutputBytes 1 16777216
  bounded "maxMemoryMb" (policy.maxMemoryMb.getD 128) 16 1024
  bounded "maxNodes" (policy.maxNodes.getD 100) 1 10000
  if policy.mode ≠ .disabled ∧ (Utf16.toUnits policy.key).length < 32 then
    .error "record and replay modes require a 32-character replayKey"
  else .ok ()

/-! ## Tools -/

def SchemaType.ofText? (text : String) : Option SchemaType :=
  [.object, .array, .string, .number, .integer, .boolean, .null].find? (·.text = text)

def Format.ofText? (text : String) : Option Format :=
  [.dateTime, .email, .uri, .uuid].find? (·.text = text)

mutual

/-- The schema a value stands for. -/
def readSchema : Json → JsonSchema
  | .obj fields => readSchemaFields fields
  | _ => {}

def readSchemaFields : List (String × Json) → JsonSchema
  | [] => {}
  | (key, value) :: fields =>
    let schema := readSchemaFields fields
    match key, value with
    | "type", .str text => { schema with type := SchemaType.ofText? text }
    | "properties", .obj properties => { schema with properties := readProperties properties }
    | "required", .arr items => { schema with required := (texts? items).getD [] }
    | "additionalProperties", .bool allowed => { schema with additionalProperties := some allowed }
    | "items", item => { schema with items := some (readSchema item) }
    | "enum", .arr values => { schema with enum := some values }
    | "format", .str text => { schema with format := Format.ofText? text }
    | _, _ => schema

def readProperties : List (String × Json) → List (String × JsonSchema)
  | [] => []
  | (key, value) :: fields => (key, readSchema value) :: readProperties fields

end

/-- A field of an object. -/
def field? (name : String) : Json → Option Json
  | .obj fields => fields.lookup name
  | _ => none

def textField (name : String) (value : Json) : String :=
  match field? name value with
  | some (.str text) => text
  | _ => ""

/-- What the executor reads of a tool. -/
def readTool (tool : Json) : ExecutableTool where
  capability := textField "capability" tool
  input := readSchema ((field? "input" tool).getD .null)
  output := readSchema ((field? "output" tool).getD .null)

/-- The tools of a registry. -/
def readTools (tools : List (String × Json)) : List (String × ExecutableTool) :=
  tools.map fun tool => (tool.1, readTool tool.2)

/-! ## Hashes -/

def hexDigit (n : ℕ) : Char := Nat.digitChar n

/-- `digest("hex")` -/
def toHex (bytes : List (Fin 256)) : List Char :=
  bytes.flatMap fun b => [hexDigit (b / 16), hexDigit (b % 16)]

/-- `Buffer.from(text, "hex")`, which stops at the first pair that is no byte. -/
def fromHex : List Char → List ℕ
  | a :: b :: rest =>
    match Json.hexValue a, Json.hexValue b with
    | some high, some low => (16 * high + low) :: fromHex rest
    | _, _ => []
  | _ => []

/-- `Buffer.byteLength` -/
def byteLength (text : List Char) : ℕ := (text.map Char.utf8Size).sum

section Execute

variable (platform : Platform)

def canonical (value : Json) : List Char := canonicalJson platform.number value

def hashJson (value : Json) : String := String.ofList (toHex (platform.sha256 (canonical platform value)))

def authenticate (value : Json) (key : String) : String :=
  String.ofList (toHex (platform.hmacSha256 key (canonical platform value)))

def authenticated (value : Json) (signature key : String) : Bool :=
  fromHex (authenticate platform value key).toList = fromHex signature.toList

/-! ## Records -/

/-- The authenticated fields of a record. -/
def ReplayRecord.core (record : ReplayRecord) : Json :=
  .obj [("sequence", .num record.sequence), ("nodeId", .str record.nodeId),
    ("tool", .str record.tool), ("inputHash", .str record.inputHash), ("output", record.output),
    ("toolHash", .str record.toolHash)]

/-- A record in `cloneJson(replayRecords)`. -/
def ReplayRecord.clone (record : ReplayRecord) : ReplayRecord :=
  { record with output := cloneJson record.output }

def makeReplay (sequence : ℕ) (node : CallNode) (input output tool : Json) (key : String) :
    ReplayRecord :=
  let core : ReplayRecord :=
    { sequence := sequence, nodeId := node.id, tool := node.tool
      inputHash := hashJson platform input, output := cloneJson output
      toolHash := hashJson platform tool, recordHash := "" }
  { core with recordHash := authenticate platform core.core key }

def verifyReplay (record : ReplayRecord) (sequence : ℕ) (node : CallNode) (input tool : Json)
    (key : String) : Except String Json :=
  if !authenticated platform record.core record.recordHash key ∨ record.sequence ≠ sequence ∨
      record.nodeId ≠ node.id ∨ record.tool ≠ node.tool ∨
      record.inputHash ≠ hashJson platform input ∨ record.toolHash ≠ hashJson platform tool then
    .error "replay record does not match the trajectory"
  else .ok (cloneJson record.output)

/-- `verifyReplay` of the record at a position. -/
def verifyRecord (record : Option ReplayRecord) (sequence : ℕ) (node : CallNode)
    (input tool : Json) (key : String) : Except String Json :=
  match record with
  | none => .error "Cannot read properties of undefined"
  | some record => verifyReplay platform record sequence node input tool key

/-! ## The audit trail -/

/-- The entry as it is appended to a trail. -/
def complete (audit : List AuditEntry) (entry : AuditEntry) : AuditEntry :=
  { entry with sequence := audit.length, input := cloneJson entry.input
               output := cloneJson entry.output }

/-- What the callback throws when it is handed the entry. -/
def thrown (policy : ExecutionPolicy) (audit : List AuditEntry) (entry : AuditEntry) :
    Option String :=
  policy.audit.bind fun callback => callback (complete audit entry)

/-- `appendAudit`; the entry is kept also when the callback throws. -/
def appendAudit (policy : ExecutionPolicy) (audit : List AuditEntry) (entry : AuditEntry) :
    Except (String × List AuditEntry) (List AuditEntry) :=
  match thrown policy audit entry with
  | some message => .error (message, audit ++ [complete audit entry])
  | none => .ok (audit ++ [complete audit entry])

/-- The entry, and then the error, unless the callback throws. -/
def denied (policy : ExecutionPolicy) (audit : List AuditEntry) (entry : AuditEntry)
    (message : String) : ExecutionError :=
  match appendAudit policy audit entry with
  | .error (thrown, audit) => { message := thrown, trail := audit }
  | .ok audit => { message, audit := some audit, trail := audit }

def boundedAuditValue (value : Json) (maximum : ℚ) : Json :=
  if (byteLength (canonical platform value) : ℚ) ≤ maximum then cloneJson value
  else .obj [("truncated", .bool true),
    ("reason", .str ("output exceeds " ++ String.ofList (platform.number.text maximum) ++ " bytes"))]

/-! ## One call -/

/-- An error inside the `try` of a call, with the audit trail and the output seen so far. -/
structure Interruption where
  message : String
  audit : List AuditEntry
  observed : Json := .null

def assertOutputSize (output : Json) (maximum : ℚ) : Except String Unit :=
  if maximum < byteLength (canonical platform output) then
    .error ("tool output exceeds " ++ String.ofList (platform.number.text maximum) ++ " bytes")
  else .ok ()

/-- `validateOutput` and `assertOutputSize`. -/
def checkOutput (policy : ExecutionPolicy) (node : CallNode) (tool output : Json) :
    Except String Unit := do
  if validateOutput platform.isUrl node (readTool tool) output then .ok ()
  else .error ("tool " ++ node.tool ++ " returned an invalid output")
  assertOutputSize platform output policy.maxOutputBytes

def runSandboxed (sandbox : Sandbox) (policy : ExecutionPolicy) (sequence : ℕ) (source : String)
    (input : Json) : Except String Json :=
  let maxInputBytes := policy.maxInputBytes.getD 1048576
  if !sandbox.darwin then
    .error "live execution requires the supported macOS sandbox; use strict replay elsewhere"
  else if byteLength source.toList > 65536 then .error "tool source exceeds 64 KiB"
  else if maxInputBytes < byteLength (canonical platform input) then
    .error ("tool input exceeds " ++ String.ofList (platform.number.text maxInputBytes) ++ " bytes")
  else
    match sandbox.spawnBounded sequence source (canonical platform input) policy with
    | .error message => .error message
    | .ok text =>
      match Json.parse text with
      | none => .error "Unexpected token in JSON"
      | some output => .ok output

/-- The entry of a call. -/
def callEntry (node : CallNode) (tool input : Json) (decision : AuditDecision) (output : Json) :
    AuditEntry where
  nodeId := some node.id
  tool := some node.tool
  capability := some (textField "capability" tool)
  decision := decision
  input := input
  output := output
  error := none

/-- The entry of a call that failed. -/
def failedEntry (policy : ExecutionPolicy) (node : CallNode) (tool input : Json)
    (interruption : Interruption) : AuditEntry :=
  { callEntry node tool input .failed
      (boundedAuditValue platform interruption.observed policy.maxOutputBytes) with
    error := some interruption.message }

/-- The output of a call that is taken from a record, once it has passed its checks. -/
def replayOutput (policy : ExecutionPolicy) (record : Option ReplayRecord) (sequence : ℕ)
    (node : CallNode) (input tool : Json) (audit : List AuditEntry) :
    Except Interruption (Json × List AuditEntry) := do
  let output ← (verifyRecord platform record sequence node input tool policy.key).mapError
    fun message => { message, audit }
  (checkOutput platform policy node tool output).mapError
    fun message => { message, audit, observed := output }
  return (output, audit)

/-- The output of a call that is taken from the sandbox, once it has passed its checks. -/
def liveOutput (sandbox : Sandbox) (policy : ExecutionPolicy) (sequence : ℕ) (node : CallNode)
    (input tool : Json) (audit : List AuditEntry) :
    Except Interruption (Json × List AuditEntry) := do
  let audit ← (appendAudit policy audit (callEntry node tool input .attempted .null)).mapError
    fun thrown => ⟨thrown.1, thrown.2, .null⟩
  let output ← (runSandboxed platform sandbox policy sequence (textField "source" tool)
    input).mapError fun message => { message, audit }
  (checkOutput platform policy node tool output).mapError
    fun message => { message, audit, observed := output }
  return (output, audit)

def replayCall (policy : ExecutionPolicy) (record : Option ReplayRecord) (sequence : ℕ)
    (node : CallNode) (input tool : Json) (audit : List AuditEntry) :
    Except Interruption (Json × List AuditEntry) := do
  let (output, audit) ← replayOutput platform policy record sequence node input tool audit
  let audit ← (appendAudit policy audit (callEntry node tool input .replayed output)).mapError
    fun thrown => ⟨thrown.1, thrown.2, output⟩
  return (output, audit)

def liveCall (sandbox : Sandbox) (policy : ExecutionPolicy) (sequence : ℕ) (node : CallNode)
    (input tool : Json) (audit : List AuditEntry) :
    Except Interruption (Json × List AuditEntry) := do
  let (output, audit) ← liveOutput platform sandbox policy sequence node input tool audit
  let audit ← (appendAudit policy audit
    (callEntry node tool input .executed (cloneJson output))).mapError
    fun thrown => ⟨thrown.1, thrown.2, output⟩
  return (cloneJson output, audit)

/-! ## The run -/

/-- What the loop over the calls has built. -/
structure Progress where
  outputs : Outputs := []
  audit : List AuditEntry := []
  generated : List ReplayRecord := []

/-- The output of a call, its trail and, in a record run, its record. -/
def Progress.add (policy : ExecutionPolicy) (sequence : ℕ) (node : CallNode)
    (input tool output : Json) (audit : List AuditEntry) (progress : Progress) : Progress :=
  let safeOutput := cloneJson output
  { outputs := progress.outputs ++ [(node.id, safeOutput)], audit
    generated := if policy.mode = .record then
        progress.generated ++ [makeReplay platform sequence node input safeOutput tool policy.key]
      else progress.generated }

def executeNode (sandbox : Sandbox) (policy : ExecutionPolicy) (tools : List (String × Json))
    (records : List ReplayRecord) (sequence : ℕ) (node : CallNode) (progress : Progress) :
    Except ExecutionError Progress :=
  match tools.lookup node.tool, resolveReferences progress.outputs node.arguments with
  | some tool, some value =>
    let input := cloneJson value
    let call := if policy.mode = .replay then
        replayCall platform policy records[sequence]? sequence node input tool progress.audit
      else liveCall platform sandbox policy sequence node input tool progress.audit
    match call with
    | .error interruption => .error (denied policy interruption.audit
        (failedEntry platform policy node tool input interruption) interruption.message)
    | .ok (output, audit) => .ok (progress.add platform policy sequence node input tool output audit)
  | _, _ => .error { message := "tool values must be JSON serializable", trail := progress.audit }

def executeNodes (sandbox : Sandbox) (policy : ExecutionPolicy) (tools : List (String × Json))
    (records : List ReplayRecord) : List CallNode → ℕ → Progress → Except ExecutionError Progress
  | [], _, progress => .ok progress
  | node :: rest, sequence, progress => do
    let progress ← executeNode platform sandbox policy tools records sequence node progress
    executeNodes sandbox policy tools records rest (sequence + 1) progress

/-- The check of all capabilities before the first call. -/
def checkCapabilities (policy : ExecutionPolicy) (tools : List (String × Json)) :
    List CallNode → Except ExecutionError Unit
  | [] => .ok ()
  | node :: rest =>
    match tools.lookup node.tool with
    | none => .error { message := "Cannot read properties of undefined" }
    | some tool =>
      let capability := textField "capability" tool
      if (policy.allowedCapabilities.getD []).contains capability then
        checkCapabilities policy tools rest
      else .error (denied policy []
        { callEntry node tool node.arguments .capabilityDenied .null with
          error := some ("capability " ++ capability ++ " is not allowed") }
        ("denied capability " ++ capability))

/-- The entry of a graph that is refused as a whole. -/
def refusedGraph (input : Json) (error : String) : AuditEntry where
  nodeId := none
  tool := none
  capability := none
  decision := .validationDenied
  input := input
  output := .null
  error := some error

/-- What is done before the first call: the nodes in the order of their calls. -/
def prepare (graph : Json) (tools : List (String × Json)) (policy : ExecutionPolicy)
    (replayRecords : List ReplayRecord) : Except ExecutionError (List CallNode) := do
  (assertPolicy policy).mapError fun message => { message }
  let maxNodes := policy.maxNodes.getD 100
  if maxNodes < (candidates graph).length then
    .error (denied policy [] (refusedGraph (.obj [("nodeCount", .nat (candidates graph).length),
      ("maxNodes", .num maxNodes)]) "graph exceeds maximum node count")
      "call graph failed validation")
  else
    let graphSnapshot := cloneJson graph
    let toolSnapshot := cloneFields tools
    let validation := validateCallGraph platform.isUrl graphSnapshot (schemas (readTools toolSnapshot))
    if !validation.valid then
      .error (denied policy [] (refusedGraph graphSnapshot
        (platform.diagnosticsText validation.diagnostics)) "call graph failed validation")
    else if policy.mode ≠ .replay ∧ 0 < replayRecords.length then
      .error { message := "replay records require replay mode" }
    else
      match topologicalOrder platform.depth (graphNodes graphSnapshot) with
      | .error .typeError => .error { message := "Cannot read properties of undefined" }
      | .error .depth => .error { message := "Maximum call stack size exceeded" }
      | .ok ordered =>
        if policy.mode = .replay ∧ replayRecords.length ≠ ordered.length then
          .error { message := "replay must contain exactly one record per node" }
        else
          checkCapabilities policy toolSnapshot ordered
          return ordered

def executeCallGraph (sandbox : Sandbox) (graph : Json) (tools : List (String × Json))
    (policy : ExecutionPolicy) (replayRecords : List ReplayRecord) :
    Except ExecutionError ExecutionResult := do
  let ordered ← prepare platform graph tools policy replayRecords
  let toolSnapshot := cloneFields tools
  let replaySnapshot := replayRecords.map ReplayRecord.clone
  let progress ← executeNodes platform sandbox policy toolSnapshot replaySnapshot ordered 0 {}
  return { outputs := progress.outputs, audit := progress.audit, replay := progress.generated }

end Execute

end AgentOrchestrator.Calls.Replay
