import AgentOrchestrator.Ir.Json

/-!
# Graphs as JSON

`CallGraph.to_json` and `CallGraph.from_json`.  No field of a loaded graph is checked against its
annotation, so a loaded graph holds whatever values the payload has for them; a graph is one of
these.
-/

namespace AgentOrchestrator.Ir

/-! ## `to_json` -/

/-- `None` or the string. -/
def optionalStr (s : Option PyStr) : PyValue := s.elim .none .str

def TypeRef.asDict (self : TypeRef) : PyValue :=
  .dict [("json_type", .str self.jsonType), ("schema_ref", optionalStr self.schemaRef)]

def ValueSource.asDict (self : ValueSource) : PyValue :=
  .dict [("node_id", .str self.nodeId), ("output", .str self.output)]

def encodeBinding (binding : Binding) : PyValue :=
  .dict (("argument", .str binding.argument) :: ("value_type", binding.valueType.asDict) ::
    ((binding.literal.map fun literal => (("literal" : PyStr), literal)).toList ++
      (binding.source.map fun source => (("source" : PyStr), source.asDict)).toList))

/-- `asdict(node)` with its bindings encoded. -/
def encodeNode (node : CallNode) : PyValue :=
  .dict [("id", .str node.id), ("tool_id", .str node.toolId),
    ("arguments", .list (node.arguments.map encodeBinding)),
    ("outputs", .dict (node.outputs.map fun entry => (entry.1, entry.2.asDict))),
    ("parallelizable", node.parallelizable), ("optional", node.optional),
    ("repair_of", optionalStr node.repairOf)]

def CallGraph.encode (self : CallGraph) : PyValue :=
  .dict [("version", .str self.version), ("nodes", .list (self.nodes.map encodeNode))]

def CallGraph.toJson (float : FloatFormat) (self : CallGraph) : Option PyStr :=
  dumps float self.encode

/-! ## `from_json` -/

namespace Loaded

structure TypeRef where
  jsonType : PyValue
  schemaRef : PyValue

structure ValueSource where
  nodeId : PyValue
  output : PyValue

structure Binding where
  argument : PyValue
  valueType : TypeRef
  literal : Option PyValue
  source : Option ValueSource

structure CallNode where
  id : PyValue
  toolId : PyValue
  arguments : List Binding
  outputs : List (PyStr × TypeRef)
  parallelizable : PyValue
  optional : PyValue
  repairOf : PyValue

structure CallGraph where
  nodes : List CallNode
  version : PyValue

end Loaded

/-- What `from_json` raises. -/
inductive PyError where
  | jsonDecode
  | attribute
  | key (key : PyStr)
  | type
  | value (message : String)

/-- `value.get`, of a dict only. -/
def attributes : PyValue → Except PyError (List (PyStr × PyValue))
  | .dict entries => .ok entries
  | _ => .error .attribute

/-- `entries.get(key, default)` -/
def get (entries : List (PyStr × PyValue)) (key : PyStr) (default : PyValue) : PyValue :=
  (entries.lookup key).getD default

/-- `entries[key]` -/
def subscript (entries : List (PyStr × PyValue)) (key : PyStr) : Except PyError PyValue :=
  (entries.lookup key).elim (.error (.key key)) .ok

/-- What a loop goes through: the items of a list, the keys of a dict, the code points of a `str`. -/
def iterate : PyValue → Except PyError (List PyValue)
  | .list items => .ok items
  | .dict entries => .ok (entries.map fun entry => .str entry.1)
  | .str s => .ok (s.points.map fun p => .str ⟨[p]⟩)
  | _ => .error .type

/-- `**value`, for a call that takes the keywords. -/
def keywords (allowed : List PyStr) : PyValue → Except PyError (List (PyStr × PyValue))
  | .dict entries => if ∀ entry ∈ entries, entry.1 ∈ allowed then .ok entries else .error .type
  | _ => .error .type

/-- A keyword that a call cannot do without. -/
def required (entries : List (PyStr × PyValue)) (key : PyStr) : Except PyError PyValue :=
  (entries.lookup key).elim (.error .type) .ok

/-- `TypeRef(**value)` -/
def loadTypeRef (value : PyValue) : Except PyError Loaded.TypeRef := do
  let entries ← keywords ["json_type", "schema_ref"] value
  let jsonType ← required entries "json_type"
  return { jsonType, schemaRef := get entries "schema_ref" .none }

/-- `ValueSource(**value)` -/
def loadSource (value : PyValue) : Except PyError Loaded.ValueSource := do
  let entries ← keywords ["node_id", "output"] value
  let nodeId ← required entries "node_id"
  let output ← required entries "output"
  return { nodeId, output }

/-- The source of a binding, absent when it is `None`. -/
def loadOptionalSource : PyValue → Except PyError (Option Loaded.ValueSource)
  | .none => .ok none
  | value => (loadSource value).map some

/-- One item of the arguments; only a dict can be subscripted with a string. -/
def loadBinding : PyValue → Except PyError Loaded.Binding
  | .dict item => do
    let argument ← subscript item "argument"
    let valueType ← loadTypeRef (← subscript item "value_type")
    let source ← loadOptionalSource (get item "source" .none)
    return { argument, valueType, literal := item.lookup ("literal" : PyStr), source }
  | _ => .error .type

def loadOutput (entry : PyStr × PyValue) : Except PyError (PyStr × Loaded.TypeRef) :=
  (loadTypeRef entry.2).map (Prod.mk entry.1)

def loadNode (value : PyValue) : Except PyError Loaded.CallNode := do
  let rawNode ← attributes value
  let items ← iterate (get rawNode "arguments" (.list []))
  let arguments ← items.mapM loadBinding
  let types ← attributes (get rawNode "outputs" (.dict []))
  let outputs ← types.mapM loadOutput
  let id ← subscript rawNode "id"
  let toolId ← subscript rawNode "tool_id"
  return { id, toolId, arguments, outputs,
           parallelizable := get rawNode "parallelizable" (.bool true),
           optional := get rawNode "optional" (.bool false),
           repairOf := get rawNode "repair_of" .none }

section FromJson

variable (float : FloatFormat) (repr : PyValue → String)

def decode (raw : PyValue) : Except PyError Loaded.CallGraph := do
  let entries ← attributes raw
  let version := get entries "version" .none
  if version ≠ .str "1.0" then throw (.value ("unsupported IR version " ++ repr version))
  let nodes ← (← iterate (← subscript entries "nodes")).mapM loadNode
  return { nodes, version := ← subscript entries "version" }

end FromJson

/-! ## A graph as it is loaded -/

def TypeRef.loaded (self : TypeRef) : Loaded.TypeRef :=
  { jsonType := .str self.jsonType, schemaRef := optionalStr self.schemaRef }

def ValueSource.loaded (self : ValueSource) : Loaded.ValueSource :=
  { nodeId := .str self.nodeId, output := .str self.output }

def Binding.loaded (self : Binding) : Loaded.Binding :=
  { argument := .str self.argument, valueType := self.valueType.loaded, literal := self.literal,
    source := self.source.map ValueSource.loaded }

def CallNode.loaded (self : CallNode) : Loaded.CallNode :=
  { id := .str self.id, toolId := .str self.toolId, arguments := self.arguments.map Binding.loaded,
    outputs := self.outputs.map fun entry => (entry.1, entry.2.loaded),
    parallelizable := self.parallelizable, optional := self.optional,
    repairOf := optionalStr self.repairOf }

def CallGraph.loaded (self : CallGraph) : Loaded.CallGraph :=
  { nodes := self.nodes.map CallNode.loaded, version := .str self.version }

theorem optionalStr_injective : Function.Injective optionalStr := by
  rintro (- | s) (- | t) h
  · rfl
  · cases h
  · cases h
  · exact congrArg some (PyValue.str.inj h)

theorem TypeRef.loaded_injective : Function.Injective TypeRef.loaded := by
  rintro ⟨s, a⟩ ⟨t, b⟩ h
  obtain ⟨hs, ha⟩ := Loaded.TypeRef.mk.inj h
  rw [TypeRef.mk.injEq]
  exact ⟨PyValue.str.inj hs, optionalStr_injective ha⟩

theorem ValueSource.loaded_injective : Function.Injective ValueSource.loaded := by
  rintro ⟨s, a⟩ ⟨t, b⟩ h
  obtain ⟨hs, ha⟩ := Loaded.ValueSource.mk.inj h
  rw [ValueSource.mk.injEq]
  exact ⟨PyValue.str.inj hs, PyValue.str.inj ha⟩

theorem Binding.loaded_injective : Function.Injective Binding.loaded := by
  rintro ⟨a, t, l, s⟩ ⟨a', t', l', s'⟩ h
  obtain ⟨ha, ht, hl, hs⟩ := Loaded.Binding.mk.inj h
  rw [Binding.mk.injEq]
  exact ⟨PyValue.str.inj ha, TypeRef.loaded_injective ht, hl,
    Option.map_injective ValueSource.loaded_injective hs⟩

theorem CallNode.loaded_injective : Function.Injective CallNode.loaded := by
  have houtputs : Function.Injective fun entry : PyStr × TypeRef => (entry.1, entry.2.loaded) :=
    fun a b h => Prod.ext (Prod.mk.inj h).1 (TypeRef.loaded_injective (Prod.mk.inj h).2)
  rintro ⟨i, t, a, o, p, q, r⟩ ⟨i', t', a', o', p', q', r'⟩ h
  obtain ⟨hi, ht, ha, ho, hp, hq, hr⟩ := Loaded.CallNode.mk.inj h
  rw [CallNode.mk.injEq]
  exact ⟨PyValue.str.inj hi, PyValue.str.inj ht, Binding.loaded_injective.list_map ha,
    houtputs.list_map ho, hp, hq, optionalStr_injective hr⟩

theorem CallGraph.loaded_injective : Function.Injective CallGraph.loaded := by
  rintro ⟨n, v⟩ ⟨n', v'⟩ h
  obtain ⟨hn, hv⟩ := Loaded.CallGraph.mk.inj h
  rw [CallGraph.mk.injEq]
  exact ⟨CallNode.loaded_injective.list_map hn, PyValue.str.inj hv⟩

end AgentOrchestrator.Ir
