import AgentOrchestrator.Calls.Schema

/-!
# `validateCallGraph`

The static validator of call graphs.  A check reads and extends the dependencies of the node it is
about and reports diagnostics; the result of the validator is valid when none of them is an error.
The source sorts the diagnostics before it returns them, which nothing below depends on.
-/

namespace AgentOrchestrator.Calls

structure CallNode where
  id : String
  tool : String
  arguments : Json
  dependsOn : List String
  deriving DecidableEq

inductive DiagnosticId where
  | CFV001 | CFV002 | CFV003 | CFV004 | CFV005 | CFV101 | CFV102 | CFV103 | CFV104 | CFV105
  | CFV106 | CFV201
  deriving DecidableEq

inductive Severity where
  | error | warning
  deriving DecidableEq

structure ValidationDiagnostic where
  id : DiagnosticId
  severity : Severity := .error
  nodeId : Option String
  path : String
  message : String
  deriving DecidableEq

/-- `diagnosticTaxonomy` -/
def DiagnosticId.category : DiagnosticId → String
  | .CFV001 => "graph_shape"
  | .CFV002 => "duplicate_node"
  | .CFV003 => "unknown_tool"
  | .CFV004 => "missing_dependency"
  | .CFV005 => "cycle"
  | .CFV101 => "type_mismatch"
  | .CFV102 => "required_field"
  | .CFV103 => "enum_constraint"
  | .CFV104 => "format_constraint"
  | .CFV105 => "unknown_field"
  | .CFV106 => "edge_type_mismatch"
  | .CFV201 => "implicit_dependency"

/-! ## Checks -/

/-- `Set.add` -/
def addTo (set : List String) (a : String) : List String := if set.contains a then set else set ++ [a]

/-- What a check does with the dependencies of its node, and what it reports. -/
abbrev Check := List String → List String × List ValidationDiagnostic

namespace Check

def ok : Check := fun dependencies => (dependencies, [])

def report (diagnostic : ValidationDiagnostic) : Check := fun dependencies =>
  (dependencies, [diagnostic])

/-- One check after another. -/
def andThen (a b : Check) : Check := fun dependencies =>
  let (dependencies, reported) := a dependencies
  let (dependencies, reported') := b dependencies
  (dependencies, reported ++ reported')

/-- A check for each element of a list. -/
def forEach {α : Type} (check : α → Check) : List α → Check
  | [] => ok
  | a :: l => (check a).andThen (forEach check l)

end Check

/-! ## Values -/

section Value

variable (isUrl : String → Bool) (nodes : List CallNode) (tools : List (String × ToolSchema))
  (nodeId : String)

/-- The value is a reference to the output of a node. -/
def validateReference (ref : String) (schema : JsonSchema) (path : String) : Check :=
  match nodes.find? (·.id = ref) with
  | none => .report { id := .CFV004, nodeId := nodeId, path := path
                      message := "reference " ++ ref ++ " does not exist" }
  | some source => fun dependencies =>
    let implied := if dependencies.contains ref then [] else
      [{ id := .CFV201, severity := .warning, nodeId := some nodeId, path := path
         message := "reference " ++ ref ++ " should be declared in dependsOn" }]
    let mismatch := match (tools.lookup source.tool).bind ToolSchema.output with
      | some output => if compatible output schema then [] else
        [{ id := .CFV106, nodeId := some nodeId, path := path
           message := "output of " ++ ref ++ " is incompatible" }]
      | none => [{ id := .CFV106, nodeId := some nodeId, path := path
                   message := "output of " ++ ref ++ " is incompatible" }]
    (addTo dependencies ref, implied ++ mismatch)

def checkEnum (value : Json) (schema : JsonSchema) (path : String) : Check :=
  match schema.enum with
  | none => .ok
  | some candidates =>
    if candidates.any fun candidate => deepEqual candidate value then .ok
    else .report { id := .CFV103, nodeId := nodeId, path := path
                   message := "value is not in enum" }

def checkFormat (value : Json) (schema : JsonSchema) (path : String) : Check :=
  match schema.format, value with
  | some format, .str text =>
    if matchesFormat isUrl text format then .ok
    else .report { id := .CFV104, nodeId := nodeId, path := path
                   message := "value is not a valid " ++ format.text }
  | _, _ => .ok

def checkRequired (fields : List (String × Json)) (schema : JsonSchema) (path : String) : Check :=
  .forEach (fun required =>
    if hasKey required fields then .ok
    else .report { id := .CFV102, nodeId := nodeId, path := path ++ "." ++ required
                   message := "required field is missing" }) schema.required

mutual

def validateValue : Json → JsonSchema → String → Check
  | value, schema, path =>
    match reference? value with
    | some ref => validateReference nodes tools nodeId ref schema path
    | none =>
      if !matchesType value schema.type then
        .report { id := .CFV101, nodeId := nodeId, path := path
                  message := "expected " ++ (schema.type.map SchemaType.text).getD "any" }
      else
        ((checkEnum nodeId value schema path).andThen
          (checkFormat isUrl nodeId value schema path)).andThen
          (match value with
          | .obj fields =>
            if schema.type = some .object then
              (checkRequired nodeId fields schema path).andThen (validateFields fields schema path)
            else .ok
          | .arr items =>
            match schema.items with
            | some itemSchema =>
              if schema.type = some .array then validateItems items itemSchema path 0 else .ok
            | none => .ok
          | _ => .ok)

def validateFields : List (String × Json) → JsonSchema → String → Check
  | [], _, _ => .ok
  | (key, child) :: fields, schema, path =>
    Check.andThen
      (match schema.properties.lookup key with
      | some childSchema => validateValue child childSchema (path ++ "." ++ key)
      | none =>
        if schema.additionalProperties = some false then
          .report { id := .CFV105, nodeId := nodeId, path := path ++ "." ++ key
                    message := "field is not allowed" }
        else .ok)
      (validateFields fields schema path)

def validateItems : List Json → JsonSchema → String → ℕ → Check
  | [], _, _, _ => .ok
  | child :: items, schema, path, index =>
    (validateValue child schema (path ++ "[" ++ toString index ++ "]")).andThen
      (validateItems items schema path (index + 1))

end

end Value

/-! ## Cycles -/

/-- A `Map` from ids to sets of ids, in the order in which its keys were set. -/
abbrev Adjacency := List (String × List String)

/-- `Map.set` -/
def Adjacency.set (adjacency : Adjacency) (id : String) (dependencies : List String) : Adjacency :=
  if adjacency.any (·.1 = id) then
    adjacency.map fun entry => if entry.1 = id then (id, dependencies) else entry
  else adjacency ++ [(id, dependencies)]

/-- `adjacency.get(id) ?? []` -/
def Adjacency.get (adjacency : Adjacency) (id : String) : List String :=
  (adjacency.lookup id).getD []

/-- The sets of `detectCycles`. -/
structure Marks where
  visited : List String := []
  active : List String := []

/-- `some` with a function that changes the marks. -/
def someWalk (walk : String → Marks → Bool × Marks) : List String → Marks → Bool × Marks
  | [], marks => (false, marks)
  | node :: nodes, marks =>
    let (cyclic, marks) := walk node marks
    if cyclic then (true, marks) else someWalk walk nodes marks

/-- `walk`, with a bound on the depth of its calls (`walk_fuel`: the number of nodes is enough). -/
def walk (adjacency : Adjacency) : ℕ → String → Marks → Bool × Marks
  | 0, _, marks => (true, marks)
  | fuel + 1, node, marks =>
    if marks.active.contains node then (true, marks)
    else if marks.visited.contains node then (false, marks)
    else
      let (cyclic, marks) := someWalk (walk adjacency fuel) (adjacency.get node)
        ⟨node :: marks.visited, node :: marks.active⟩
      (cyclic, { marks with active := marks.active.erase node })

/-- The nodes `detectCycles` reports. -/
def detectCycles (adjacency : Adjacency) : List String → Marks → List String
  | [], _ => []
  | node :: nodes, marks =>
    let (cyclic, marks) := walk adjacency (adjacency.length + 1) node marks
    if cyclic then node :: detectCycles adjacency nodes marks
    else detectCycles adjacency nodes marks

/-! ## Graphs -/

/-- The texts of an array of texts. -/
def texts? : List Json → Option (List String)
  | [] => some []
  | .str s :: items => (texts? items).map (s :: ·)
  | _ :: _ => none

/-- The node a candidate stands for, if its shape is right. -/
def node? : Json → Option CallNode
  | .obj fields =>
    match fields.lookup "id", fields.lookup "tool", fields.lookup "arguments" with
    | some (.str id), some (.str tool), some arguments =>
      if id = "" then none
      else match fields.lookup "dependsOn" with
        | none => some ⟨id, tool, arguments, []⟩
        | some (.arr items) => (texts? items).map fun dependsOn => ⟨id, tool, arguments, dependsOn⟩
        | some _ => none
    | _, _, _ => none
  | _ => none

/-- The nodes of the graph, and what is reported about candidates; `nodes` are the ones before the
candidate with the index. -/
def readNodes : List Json → ℕ → List CallNode → List CallNode × List ValidationDiagnostic
  | [], _, nodes => (nodes, [])
  | candidate :: candidates, index, nodes =>
    match node? candidate with
    | none =>
      let (nodes, reported) := readNodes candidates (index + 1) nodes
      (nodes, { id := .CFV001, nodeId := none, path := "$.nodes[" ++ toString index ++ "]"
                message := "node shape is invalid" } :: reported)
    | some node =>
      let duplicate := if nodes.any (·.id = node.id) then
        [{ id := .CFV002, nodeId := some node.id, path := "$.nodes[" ++ toString index ++ "].id"
           message := "node id is duplicated" }] else []
      let (nodes, reported) := readNodes candidates (index + 1) (nodes ++ [node])
      (nodes, duplicate ++ reported)

section Graph

variable (isUrl : String → Bool) (nodes : List CallNode) (tools : List (String × ToolSchema))

/-- One entry of `dependsOn`. -/
def checkDependency (node : CallNode) (dependency : String) : Check := fun dependencies =>
  if nodes.any (·.id = dependency) then (addTo dependencies dependency, [])
  else
    (dependencies, [{ id := .CFV004, nodeId := some node.id
                      path := "$.nodes." ++ node.id ++ ".dependsOn"
                      message := "dependency " ++ dependency ++ " does not exist" }])

/-- The arguments of a node against the schema of its tool. -/
def checkArguments (node : CallNode) : Check :=
  match tools.lookup node.tool with
  | none => .report { id := .CFV003, nodeId := some node.id
                      path := "$.nodes." ++ node.id ++ ".tool"
                      message := "unknown tool " ++ node.tool }
  | some tool => validateValue isUrl nodes tools node.id node.arguments tool.input
      ("$.nodes." ++ node.id ++ ".arguments")

def checkNode (node : CallNode) : Check :=
  (Check.forEach (checkDependency nodes node) node.dependsOn).andThen
    (checkArguments isUrl nodes tools node)

/-- The loop over the nodes. -/
def checkNodes : List CallNode → Adjacency → Adjacency × List ValidationDiagnostic
  | [], adjacency => (adjacency, [])
  | node :: rest, adjacency =>
    let (dependencies, reported) := checkNode isUrl nodes tools node (adjacency.get node.id)
    let (adjacency, reported') := checkNodes rest (adjacency.set node.id dependencies)
    (adjacency, reported ++ reported')

/-- The keys of the map before the loop. -/
def emptyAdjacency (nodes : List CallNode) : Adjacency :=
  nodes.foldl (fun adjacency node => adjacency.set node.id []) []

end Graph

structure ValidationResult where
  valid : Bool
  diagnostics : List ValidationDiagnostic

def finish (diagnostics : List ValidationDiagnostic) : ValidationResult :=
  { valid := !diagnostics.any (·.severity = .error), diagnostics }

def validateCallGraph (isUrl : String → Bool) (graph : Json) (tools : List (String × ToolSchema)) :
    ValidationResult :=
  let shape : ValidationResult := finish
    [{ id := .CFV001, nodeId := none, path := "$", message := "graph must contain a nodes array" }]
  match graph with
  | .obj fields =>
    match fields.lookup "nodes" with
    | some (.arr candidates) =>
      let (nodes, reported) := readNodes candidates 0 []
      let (adjacency, reported') := checkNodes isUrl nodes tools nodes (emptyAdjacency nodes)
      let cycles := (detectCycles adjacency (adjacency.map (·.1)) {}).map fun node =>
        { id := .CFV005, nodeId := some node, path := "$.nodes." ++ node
          message := "dependency graph contains a cycle" }
      finish (reported ++ reported' ++ cycles)
    | _ => shape
  | _ => shape

end AgentOrchestrator.Calls
