import AgentOrchestrator.Library.CodePoints
import Mathlib.Logic.Function.Basic
import Mathlib.Data.Rat.Defs

/-!
# The call graph IR

`CallGraph.validate` reports what is wrong with a graph: its ids and annotations, the bindings of
its arguments, the types against the registered tool schemas, and cycles.  A mapping is a list of
entries, and a set is listed in some order; a `str` is its code points, and its `repr`, which escapes
surrogates, is a parameter.
-/

namespace AgentOrchestrator.Ir

/-- A Python `str`. -/
structure PyStr where
  points : List CodePoint
  deriving DecidableEq

namespace PyStr

def ofString (s : String) : PyStr := ⟨CodePoint.ofChars s.toList⟩

instance : Coe String PyStr := ⟨ofString⟩

instance : Append PyStr := ⟨fun s t => ⟨s.points ++ t.points⟩⟩

@[simp] theorem ofString_inj {s t : String} : ofString s = ofString t ↔ s = t := by
  rw [ofString, ofString, mk.injEq, CodePoint.ofChars_inj, String.toList_inj]

@[simp] theorem ofString_beq (s t : String) : (ofString s == ofString t) = (s == t) := by
  rw [Bool.eq_iff_iff, beq_iff_eq, beq_iff_eq, ofString_inj]

end PyStr

/-! ## The graph -/

/-- A JSON Schema type, optionally anchored in a registered tool schema. -/
structure TypeRef where
  jsonType : PyStr
  schemaRef : Option PyStr := none
  deriving DecidableEq

def TypeRef.accepts (self other : TypeRef) : Bool :=
  if self.jsonType = "any" ∨ self = other then true
  else
    decide (self.schemaRef = none ∧ other.schemaRef = none ∧ self.jsonType = "number" ∧
      other.jsonType = "integer")

/-- A Python value.  A float is `none` when it is not finite, a dict lists its entries in insertion
order, and of a value that is not of a JSON type only its truth value is kept. -/
inductive PyValue where
  | none
  | bool (b : Bool)
  | int (n : ℤ)
  | float (x : Option ℚ)
  | str (s : PyStr)
  | list (items : List PyValue)
  | dict (entries : List (PyStr × PyValue))
  | other (truth : Bool)

namespace PyValue

mutual

/-- Equality of two values of one type, with the entries of dicts in the same order. -/
def decEq : (a b : PyValue) → Decidable (a = b)
  | .none, .none => isTrue rfl
  | .bool a, .bool b => decidable_of_iff (a = b) (by simp)
  | .int a, .int b => decidable_of_iff (a = b) (by simp)
  | .float a, .float b => decidable_of_iff (a = b) (by simp)
  | .str a, .str b => decidable_of_iff (a = b) (by simp)
  | .list a, .list b => @decidable_of_iff _ (a = b) (by simp) (decEqItems a b)
  | .dict a, .dict b => @decidable_of_iff _ (a = b) (by simp) (decEqEntries a b)
  | .other a, .other b => decidable_of_iff (a = b) (by simp)
  | .none, .bool _ | .none, .int _ | .none, .float _ | .none, .str _ | .none, .list _
  | .none, .dict _ | .none, .other _ | .bool _, .none | .bool _, .int _ | .bool _, .float _
  | .bool _, .str _ | .bool _, .list _ | .bool _, .dict _ | .bool _, .other _ | .int _, .none
  | .int _, .bool _ | .int _, .float _ | .int _, .str _ | .int _, .list _ | .int _, .dict _
  | .int _, .other _ | .float _, .none | .float _, .bool _ | .float _, .int _ | .float _, .str _
  | .float _, .list _ | .float _, .dict _ | .float _, .other _ | .str _, .none | .str _, .bool _
  | .str _, .int _ | .str _, .float _ | .str _, .list _ | .str _, .dict _ | .str _, .other _
  | .list _, .none | .list _, .bool _ | .list _, .int _ | .list _, .float _ | .list _, .str _
  | .list _, .dict _ | .list _, .other _ | .dict _, .none | .dict _, .bool _ | .dict _, .int _
  | .dict _, .float _ | .dict _, .str _ | .dict _, .list _ | .dict _, .other _
  | .other _, .none | .other _, .bool _ | .other _, .int _ | .other _, .float _
  | .other _, .str _ | .other _, .list _ | .other _, .dict _ => isFalse (by simp)

/-- Equality of the items of two lists. -/
def decEqItems : (a b : List PyValue) → Decidable (a = b)
  | [], [] => isTrue rfl
  | [], _ :: _ | _ :: _, [] => isFalse (by simp)
  | x :: a, y :: b =>
    have := decEq x y
    have := decEqItems a b
    decidable_of_iff (x = y ∧ a = b) (by simp)

/-- Equality of the entries of two dicts. -/
def decEqEntries : (a b : List (PyStr × PyValue)) → Decidable (a = b)
  | [], [] => isTrue rfl
  | [], _ :: _ | _ :: _, [] => isFalse (by simp)
  | (k, x) :: a, (l, y) :: b =>
    have := decEq x y
    have := decEqEntries a b
    decidable_of_iff ((k = l ∧ x = y) ∧ a = b) (by simp)

end

instance : DecidableEq PyValue := decEq

def isBool : PyValue → Bool
  | .bool _ => true
  | _ => false

/-- The truth value: zeros and empty values are false. -/
def truthy : PyValue → Bool
  | .none => false
  | .bool b => b
  | .int n => decide (n ≠ 0)
  | .float x => decide (x ≠ some 0)
  | .str s => !s.points.isEmpty
  | .list items => !items.isEmpty
  | .dict entries => !entries.isEmpty
  | .other truth => truth

end PyValue

structure ValueSource where
  nodeId : PyStr
  output : PyStr
  deriving DecidableEq

/-- The literal is absent when it is `UNSET`. -/
structure Binding where
  argument : PyStr
  valueType : TypeRef
  literal : Option PyValue := none
  source : Option ValueSource := none
  deriving DecidableEq

structure CallNode where
  id : PyStr
  toolId : PyStr
  arguments : List Binding := []
  outputs : List (PyStr × TypeRef) := []
  parallelizable : PyValue := .bool true
  optional : PyValue := .bool false
  repairOf : Option PyStr := none
  deriving DecidableEq

structure ToolSchema where
  arguments : List (PyStr × TypeRef) := []
  required : List PyStr := []
  outputs : List (PyStr × TypeRef) := []
  deriving DecidableEq

structure ValidationIssue where
  code : String
  message : PyStr
  path : String
  deriving DecidableEq

structure CallGraph where
  nodes : List CallNode
  version : PyStr := "1.0"
  deriving DecidableEq

/-- The checks of `_literal_matches`. -/
def literalChecks : List (PyStr × (PyValue → Bool)) :=
  [("null", fun | .none => true | _ => false),
    ("boolean", PyValue.isBool),
    ("integer", fun | .int _ => true | _ => false),
    ("number", fun | .int _ => true | .float x => x.isSome | _ => false),
    ("string", fun | .str _ => true | _ => false),
    ("array", fun | .list _ => true | _ => false),
    ("object", fun | .dict _ => true | _ => false),
    ("any", fun _ => true)]

/-- `_literal_matches`. -/
def literalMatches (value : PyValue) (typeRef : TypeRef) : Bool :=
  (literalChecks.lookup typeRef.jsonType).elim false fun check => check value

/-! ## `validate` -/

section Validate

variable (repr : PyStr → String)

abbrev ById := List (PyStr × CallNode)

/-- The check of the ids, and the entry a node adds to `by_id`. -/
def idIssues (index : ℕ) (node : CallNode) (byId : ById) : List ValidationIssue :=
  if node.id = "" then
    [⟨"empty_id", "node id must not be empty", s!"nodes[{index}].id"⟩]
  else if (byId.lookup node.id).isSome then
    [⟨"duplicate_node", "duplicate node id " ++ repr node.id, s!"nodes[{index}].id"⟩]
  else []

def addNode (node : CallNode) (byId : ById) : ById :=
  if node.id = "" ∨ (byId.lookup node.id).isSome then byId else byId ++ [(node.id, node)]

def annotationIssues (index : ℕ) (node : CallNode) : List ValidationIssue :=
  (if node.parallelizable.isBool then []
    else [⟨"invalid_annotation", "parallelizable must be a boolean",
      s!"nodes[{index}].parallelizable"⟩]) ++
  if node.optional.isBool then []
  else [⟨"invalid_annotation", "optional must be a boolean", s!"nodes[{index}].optional"⟩]

/-- The first loop over the nodes. -/
def indexIssues : ℕ → ById → List CallNode → List ValidationIssue
  | _, _, [] => []
  | index, byId, node :: nodes =>
    idIssues repr index node byId ++ annotationIssues index node ++
      indexIssues (index + 1) (addNode node byId) nodes

def byIdOf (nodes : List CallNode) : ById := nodes.foldl (fun byId node => addNode node byId) []

/-- The checks of the source of a binding. -/
def sourceIssues (byId : ById) (path : String) (binding : Binding) : List ValidationIssue :=
  match binding.source with
  | none => []
  | some valueSource =>
    match byId.lookup valueSource.nodeId with
    | none =>
      [⟨"dangling_source", "unknown source node " ++ repr valueSource.nodeId, path ++ ".source"⟩]
    | some source =>
      match source.outputs.lookup valueSource.output with
      | none => [⟨"dangling_output",
          "unknown output " ++ repr valueSource.output ++ " on " ++ repr source.id,
          path ++ ".source"⟩]
      | some outputType =>
        if binding.valueType.accepts outputType then []
        else [⟨"type_mismatch", outputType.jsonType ++ " output cannot bind to " ++
          binding.valueType.jsonType ++ " argument", path⟩]

def bindingIssues (byId : ById) (path : String) (seen : List PyStr) (binding : Binding) :
    List ValidationIssue :=
  (if binding.argument ∈ seen then
    [⟨"duplicate_argument", "duplicate argument " ++ repr binding.argument, path⟩] else []) ++
  (if binding.literal.isSome = binding.source.isSome then
    [⟨"invalid_binding", "binding must have exactly one of literal or source", path⟩] else []) ++
  (match binding.literal with
    | none => []
    | some value =>
      if literalMatches value binding.valueType then []
      else [⟨"literal_type_mismatch", "literal does not match " ++ binding.valueType.jsonType,
        path⟩]) ++
  sourceIssues repr byId path binding

/-- The loop over the bindings of a node. -/
def argumentIssues (byId : ById) (index : ℕ) :
    ℕ → List PyStr → List Binding → List ValidationIssue
  | _, _, [] => []
  | bindingIndex, seen, binding :: bindings =>
    bindingIssues repr byId s!"nodes[{index}].arguments[{bindingIndex}]" seen binding ++
      argumentIssues byId index (bindingIndex + 1) (binding.argument :: seen) bindings

def repairIssues (byId : ById) (index : ℕ) (node : CallNode) : List ValidationIssue :=
  match node.repairOf with
  | none => []
  | some repaired =>
    if (byId.lookup repaired).isSome then []
    else [⟨"dangling_repair", "unknown repaired node " ++ repr repaired,
      s!"nodes[{index}].repair_of"⟩]

/-- An entry of a dict comes to stand for a key. -/
def setEntry {α : Type} (key : PyStr) (value : α) : List (PyStr × α) → List (PyStr × α)
  | [] => [(key, value)]
  | (k, v) :: entries =>
    if k = key then (k, value) :: entries else (k, v) :: setEntry key value entries

/-- The types the bindings of a node supply. -/
def suppliedTypes (node : CallNode) : List (PyStr × TypeRef) :=
  node.arguments.foldl (fun supplied binding => setEntry binding.argument binding.valueType supplied)
    []

/-- The checks of a node against the schema of its tool. -/
def schemaIssues (expected : ToolSchema) (index : ℕ) (node : CallNode) : List ValidationIssue :=
  (((suppliedTypes node).filter fun entry => (expected.arguments.lookup entry.1).isNone).map
    fun entry => ⟨"unknown_argument", "unknown argument " ++ repr entry.1,
      s!"nodes[{index}].arguments"⟩) ++
  ((expected.required.filter fun name => ((suppliedTypes node).lookup name).isNone).map
    fun name => ⟨"missing_argument", "missing required argument " ++ repr name,
      s!"nodes[{index}].arguments"⟩) ++
  ((suppliedTypes node).flatMap fun entry =>
    match expected.arguments.lookup entry.1 with
    | none => []
    | some expectedType =>
      if expectedType.accepts entry.2 then []
      else [⟨"argument_type_mismatch",
        "argument " ++ repr entry.1 ++ " must be " ++ expectedType.jsonType,
        s!"nodes[{index}].arguments"⟩]) ++
  node.outputs.flatMap fun entry =>
    match expected.outputs.lookup entry.1 with
    | none => [⟨"unknown_output", "unknown output " ++ repr entry.1, s!"nodes[{index}].outputs"⟩]
    | some expectedType =>
      if expectedType.accepts entry.2 then []
      else [⟨"output_type_mismatch",
        "output " ++ repr entry.1 ++ " must be " ++ expectedType.jsonType,
        s!"nodes[{index}].outputs"⟩]

def toolIssues (schemas : Option (List (PyStr × ToolSchema))) (index : ℕ) (node : CallNode) :
    List ValidationIssue :=
  match schemas with
  | none => []
  | some schemas =>
    match schemas.lookup node.toolId with
    | none => [⟨"unknown_tool", "unknown tool " ++ repr node.toolId, s!"nodes[{index}].tool_id"⟩]
    | some expected => schemaIssues repr expected index node

/-- The second loop over the nodes. -/
def nodeIssues (schemas : Option (List (PyStr × ToolSchema))) (byId : ById) :
    ℕ → List CallNode → List ValidationIssue
  | _, [] => []
  | index, node :: nodes =>
    argumentIssues repr byId index 0 [] node.arguments ++ repairIssues repr byId index node ++
      toolIssues repr schemas index node ++ nodeIssues schemas byId (index + 1) nodes

/-- The dependencies of a node: the sources of its arguments and the node it repairs, as far as
they are in the graph. -/
def nodeDependencies (byId : ById) (node : CallNode) : List PyStr :=
  (node.arguments.filterMap fun binding =>
    (binding.source.bind fun valueSource => byId.lookup valueSource.nodeId).map (·.id)) ++
  (node.repairOf.filter fun repaired => (byId.lookup repaired).isSome).toList

/-- The dependencies by node id; nodes with one id share them. -/
def dependencies (byId : ById) (nodes : List CallNode) (id : PyStr) : List PyStr :=
  (nodes.filter (·.id = id)).flatMap (nodeDependencies byId)

/-- `any` over the dependencies, from left to right. -/
def anyVisit (visit : PyStr → List PyStr → Bool × List PyStr) :
    List PyStr → List PyStr → Bool × List PyStr
  | [], visited => (false, visited)
  | id :: ids, visited =>
    match visit id visited with
    | (true, visited) => (true, visited)
    | (false, visited) => anyVisit visit ids visited

/-- `visit`, with the ids being visited and those visited; its calls nest at most once for each id
of the graph. -/
def visit (byId : ById) (deps : PyStr → List PyStr) :
    ℕ → List PyStr → PyStr → List PyStr → Bool × List PyStr
  | 0, _, _, visited => (true, visited)
  | fuel + 1, visiting, id, visited =>
    if id ∈ visiting then (true, visited)
    else if id ∈ visited then (false, visited)
    else
      let known := (deps id).filter fun dependency => (byId.lookup dependency).isSome
      let (cyclic, visited) := anyVisit (visit byId deps fuel (id :: visiting)) known visited
      (cyclic, id :: visited)

def cycleIssues (byId : ById) (nodes : List CallNode) : List ValidationIssue :=
  let deps := dependencies byId nodes
  if (anyVisit (visit byId deps (byId.length + 1) []) (byId.map (·.1)) []).1 then
    [⟨"cycle", "call graph contains a dependency cycle", "nodes"⟩]
  else []

def CallGraph.validate (self : CallGraph) (schemas : Option (List (PyStr × ToolSchema))) :
    List ValidationIssue :=
  indexIssues repr 0 [] self.nodes ++ nodeIssues repr schemas (byIdOf self.nodes) 0 self.nodes ++
    cycleIssues (byIdOf self.nodes) self.nodes

end Validate

end AgentOrchestrator.Ir
