import AgentOrchestrator.Calls.Validator

/-!
# `executeCallGraph`

The executor validates a graph, orders its nodes so that each one comes after the nodes it depends
on, and calls the tools in that order with the outputs of earlier nodes put in place of the
references.  What a tool answers, from the sandbox or from a replay record, is a parameter; copies
of JSON values (`cloneJson`) are the values.
-/

namespace AgentOrchestrator.Calls

/-! ## References -/

mutual

def collectReferences : Json → List String → List String
  | value, references =>
    match reference? value with
    | some ref => addTo references ref
    | none =>
      match value with
      | .arr items => collectItems items references
      | .obj fields => collectFields fields references
      | _ => references

def collectItems : List Json → List String → List String
  | [], references => references
  | item :: items, references => collectItems items (collectReferences item references)

def collectFields : List (String × Json) → List String → List String
  | [], references => references
  | (_, item) :: fields, references => collectFields fields (collectReferences item references)

end

/-- The outputs of the nodes so far. -/
abbrev Outputs := List (String × Json)

mutual

/-- `resolveReferences`, or the error that `cloneJson` throws for an output that is not there. -/
def resolveReferences (outputs : Outputs) (value : Json) : Option Json :=
  match reference? value with
  | some ref => outputs.lookup ref
  | none =>
    match value with
    | .arr items => (resolveItems outputs items).map .arr
    | .obj fields => (resolveFields outputs fields).map .obj
    | .null => some .null
    | .bool b => some (.bool b)
    | .num n => some (.num n)
    | .str s => some (.str s)

def resolveItems (outputs : Outputs) : List Json → Option (List Json)
  | [] => some []
  | item :: items =>
    match resolveReferences outputs item, resolveItems outputs items with
    | some item, some items => some (item :: items)
    | _, _ => none

def resolveFields (outputs : Outputs) : List (String × Json) → Option (List (String × Json))
  | [] => some []
  | (key, item) :: fields =>
    match resolveReferences outputs item, resolveFields outputs fields with
    | some item, some fields => some ((key, item) :: fields)
    | _, _ => none

end

/-! ## `topologicalOrder` -/

/-- The nodes a node comes after: `dependsOn` and the references in its arguments. -/
def dependencies (node : CallNode) : List String :=
  collectReferences node.arguments (node.dependsOn.foldl addTo [])

/-- Why `topologicalOrder` does not return. -/
inductive Stop where
  /-- `visit` reads the id of a node that is not there. -/
  | typeError
  /-- The calls of `visit` are deeper than the bound. -/
  | depth
  deriving DecidableEq

structure Ordering where
  visited : List String := []
  ordered : List CallNode := []

/-- A function for each element of a list, until one stops. -/
def visitEach {α : Type} (visit : α → Ordering → Except Stop Ordering) :
    List α → Ordering → Except Stop Ordering
  | [], s => .ok s
  | a :: l, s =>
    match visit a s with
    | .error stop => .error stop
    | .ok s => visitEach visit l s

/-- `byId`: a later node with the same id replaces an earlier one. -/
def byId (nodes : List CallNode) (id : String) : Option CallNode :=
  nodes.reverse.find? (·.id = id)

/-- `visit(byId.get(dependency)!)` -/
def visitDependency (nodes : List CallNode) (visit : CallNode → Ordering → Except Stop Ordering)
    (dependency : String) (s : Ordering) : Except Stop Ordering :=
  match byId nodes dependency with
  | none => .error .typeError
  | some node => visit node s

/-- `visit`, with a bound on the depth of its calls. -/
def visit (nodes : List CallNode) : ℕ → CallNode → Ordering → Except Stop Ordering
  | 0, _, _ => .error .depth
  | fuel + 1, node, s =>
    if s.visited.contains node.id then .ok s
    else
      match visitEach (visitDependency nodes (visit nodes fuel)) (dependencies node) s with
      | .error stop => .error stop
      | .ok s => .ok { visited := s.visited ++ [node.id], ordered := s.ordered ++ [node] }

def topologicalOrder (fuel : ℕ) (nodes : List CallNode) : Except Stop (List CallNode) :=
  (visitEach (visit nodes fuel) nodes {}).map Ordering.ordered

/-! ## `executeCallGraph` -/

structure ExecutableTool where
  capability : String
  input : JsonSchema
  output : JsonSchema

inductive ReplayMode where
  | disabled | record | replay
  deriving DecidableEq

structure ExecutionPolicy where
  allowedCapabilities : List String := []
  maxNodes : ℕ := 100
  replayMode : ReplayMode := .disabled

/-- The graph `validateOutput` makes of an output. -/
def outputGraph (nodeId : String) (output : Json) : Json :=
  .obj [("nodes", .arr [.obj [("id", .str nodeId), ("tool", .str "output"),
    ("arguments", .obj [("value", output)])]])]

/-- The tool `validateOutput` checks an output with. -/
def outputTools (schema : JsonSchema) : List (String × ToolSchema) :=
  [("output", { input := { type := some .object, properties := [("value", schema)]
                           required := ["value"], additionalProperties := some false } })]

def validateOutput (isUrl : String → Bool) (node : CallNode) (tool : ExecutableTool)
    (output : Json) : Bool :=
  (validateCallGraph isUrl (outputGraph node.id output) (outputTools tool.output)).valid

/-- Why nothing is called. -/
inductive Refusal where
  | tooManyNodes
  | invalid (diagnostics : List ValidationDiagnostic)
  | replayRecords
  | order (stop : Stop)
  | replayLength
  | capability (capability : String)

/-- The arguments handed to the tools, in order, and the outputs when all tools have answered. -/
structure Execution where
  handed : List (CallNode × Json)
  outputs : Option Outputs

section Execute

variable (isUrl : String → Bool) (tools : List (String × ExecutableTool))

/-- The loop over the ordered nodes; `observe` is what the sandbox or the replay record of a call
gives, `none` when it throws. -/
def executeNodes (observe : ℕ → CallNode → Json → Option Json) :
    List CallNode → ℕ → Outputs → Execution
  | [], _, outputs => ⟨[], some outputs⟩
  | node :: rest, sequence, outputs =>
    match tools.lookup node.tool, resolveReferences outputs node.arguments with
    | some tool, some arguments =>
      match observe sequence node arguments with
      | some output =>
        if validateOutput isUrl node tool output then
          let execution := executeNodes observe rest (sequence + 1) (outputs ++ [(node.id, output)])
          { execution with handed := (node, arguments) :: execution.handed }
        else ⟨[(node, arguments)], none⟩
      | none => ⟨[(node, arguments)], none⟩
    | _, _ => ⟨[], none⟩

/-- The schemas the validator is given. -/
def schemas : List (String × ToolSchema) :=
  tools.map fun tool => (tool.1, { input := tool.2.input, output := some tool.2.output })

/-- The candidates of `graph.nodes`. -/
def candidates : Json → List Json
  | .obj fields =>
    match fields.lookup "nodes" with
    | some (.arr candidates) => candidates
    | _ => []
  | _ => []

/-- The nodes of a valid graph. -/
def graphNodes (graph : Json) : List CallNode := (candidates graph).filterMap node?

/-- The first tool, in the order of the nodes, whose capability is not allowed. -/
def deniedCapability (allowed : List String) : List CallNode → Option String
  | [] => none
  | node :: rest =>
    match tools.lookup node.tool with
    | none => deniedCapability allowed rest
    | some tool =>
      if allowed.contains tool.capability then deniedCapability allowed rest
      else some tool.capability

def executeCallGraph (fuel : ℕ) (graph : Json) (policy : ExecutionPolicy) (replayRecords : ℕ)
    (observe : ℕ → CallNode → Json → Option Json) : Except Refusal Execution :=
  if policy.maxNodes < (candidates graph).length then .error .tooManyNodes
  else
    let validation := validateCallGraph isUrl graph (schemas tools)
    if !validation.valid then .error (.invalid validation.diagnostics)
    else if policy.replayMode ≠ .replay ∧ 0 < replayRecords then .error .replayRecords
    else
      match topologicalOrder fuel (graphNodes graph) with
      | .error stop => .error (.order stop)
      | .ok ordered =>
        if policy.replayMode = .replay ∧ replayRecords ≠ ordered.length then .error .replayLength
        else
          match deniedCapability tools policy.allowedCapabilities ordered with
          | some capability => .error (.capability capability)
          | none => .ok (executeNodes isUrl tools observe ordered 0 [])

end Execute

end AgentOrchestrator.Calls
