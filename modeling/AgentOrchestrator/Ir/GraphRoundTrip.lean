import AgentOrchestrator.Ir.GraphJson
import AgentOrchestrator.Ir.JsonRoundTrip
import AgentOrchestrator.Library.Except

/-!
# What `from_json` makes of `to_json`

A graph that was printed and is loaded again is the same up to the order of the entries of its
dicts, which Python's `==` does not see.
-/

namespace AgentOrchestrator.Ir

/-! ## What a printed graph is loaded as -/

def Binding.sorted (self : Binding) : Binding :=
  { self with literal := self.literal.map PyValue.sorted }

def CallNode.sorted (self : CallNode) : CallNode :=
  { self with
    arguments := self.arguments.map Binding.sorted
    outputs := self.outputs.insertionSort (Entries.KeyLe (· ≤ ·))
    parallelizable := self.parallelizable.sorted
    optional := self.optional.sorted }

/-- The graph with the entries of its dicts sorted by their keys. -/
def CallGraph.sorted (self : CallGraph) : CallGraph :=
  { self with nodes := self.nodes.map CallNode.sorted }

theorem optionalStr_sorted (s : Option PyStr) : (optionalStr s).sorted = optionalStr s := by
  cases s <;> rfl

theorem keywords_sorted {allowed : List PyStr} {entries : List (PyStr × PyValue)}
    (h : ∀ entry ∈ entries, entry.1 ∈ allowed) :
    keywords allowed (PyValue.dict entries).sorted = .ok (PyValue.sortedEntries entries) := by
  refine if_pos fun entry hentry => ?_
  obtain ⟨e, he, rfl⟩ := PyValue.mem_sortedEntries.1 hentry
  exact h e he

section Lookup

variable {entries : List (PyStr × PyValue)} {key : PyStr} {value : PyValue}
  (h : entries.lookup key = some value)

include h

theorem lookup_sorted : (PyValue.sortedEntries entries).lookup key = some value.sorted := by
  rw [PyValue.lookup_sortedEntries, h]
  rfl

theorem required_sorted : required (PyValue.sortedEntries entries) key = .ok value.sorted := by
  rw [required, lookup_sorted h]
  rfl

theorem get_sorted (default : PyValue) :
    get (PyValue.sortedEntries entries) key default = value.sorted := by
  rw [get, lookup_sorted h, Option.getD_some]

theorem subscript_sorted : subscript (PyValue.sortedEntries entries) key = .ok value.sorted := by
  rw [subscript, lookup_sorted h]
  rfl

end Lookup

theorem loadTypeRef_asDict (t : TypeRef) : loadTypeRef t.asDict.sorted = .ok t.loaded := by
  unfold loadTypeRef TypeRef.asDict
  rw [keywords_sorted (by simp), ok_bind, required_sorted rfl, ok_bind,
    get_sorted rfl, optionalStr_sorted]
  rfl

theorem loadSource_asDict (source : ValueSource) :
    loadSource source.asDict.sorted = .ok source.loaded := by
  unfold loadSource ValueSource.asDict
  rw [keywords_sorted (by simp), ok_bind, required_sorted rfl, ok_bind,
    required_sorted rfl, ok_bind]
  rfl

/-- The encoded source of a binding is absent where the source is. -/
theorem loadOptionalSource_encoded (source : Option ValueSource) :
    loadOptionalSource (((source.map ValueSource.asDict).map PyValue.sorted).getD .none) =
      .ok (source.map ValueSource.loaded) := by
  cases source with
  | none => rfl
  | some source =>
    show (loadSource source.asDict.sorted).map some = _
    rw [loadSource_asDict]
    rfl

theorem lookup_encodedBinding (binding : Binding) :
    ∃ entries, encodeBinding binding = .dict entries ∧
      entries.lookup ("argument" : PyStr) = some (.str binding.argument) ∧
      entries.lookup ("value_type" : PyStr) = some binding.valueType.asDict ∧
      entries.lookup ("literal" : PyStr) = binding.literal ∧
      entries.lookup ("source" : PyStr) = binding.source.map ValueSource.asDict := by
  obtain ⟨argument, valueType, literal, source⟩ := binding
  refine ⟨_, rfl, ?_, ?_, ?_, ?_⟩ <;> cases literal <;> cases source <;> simp [List.lookup_cons]

theorem loadBinding_encoded (binding : Binding) :
    loadBinding (encodeBinding binding).sorted = .ok binding.sorted.loaded := by
  obtain ⟨entries, hentries, hargument, htype, hliteral, hsource⟩ := lookup_encodedBinding binding
  rw [hentries, PyValue.sorted, loadBinding, subscript_sorted hargument, ok_bind,
    subscript_sorted htype, ok_bind, loadTypeRef_asDict, ok_bind, get, PyValue.lookup_sortedEntries,
    hsource, loadOptionalSource_encoded, ok_bind, PyValue.lookup_sortedEntries, hliteral]
  rfl

/-- Sorting the outputs as they are encoded is sorting the outputs. -/
theorem sortedEntries_outputs (outputs : List (PyStr × TypeRef)) :
    PyValue.sortedEntries (outputs.map fun entry => (entry.1, entry.2.asDict)) =
      (outputs.insertionSort (Entries.KeyLe (· ≤ ·))).map
        fun entry => (entry.1, entry.2.asDict.sorted) := by
  rw [PyValue.sortedEntries_eq, List.map_map]
  exact (List.map_insertionSort (Entries.KeyLe (· ≤ ·)) PyValue.KeyLe
    (fun entry => (entry.1, entry.2.asDict.sorted)) outputs fun _ _ _ _ => Iff.rfl).symm

theorem loadNode_encoded (node : CallNode) :
    loadNode (encodeNode node).sorted = .ok node.sorted.loaded := by
  have harguments : (PyValue.sortedItems (node.arguments.map encodeBinding)).mapM loadBinding =
      .ok (node.sorted.arguments.map Binding.loaded) := by
    rw [PyValue.sortedItems_eq, CallNode.sorted, List.map_map, List.map_map, List.mapM_map]
    exact mapM_eq_ok fun binding _ => loadBinding_encoded binding
  have houtputs : (PyValue.sortedEntries (node.outputs.map fun e => (e.1, e.2.asDict))).mapM
      loadOutput = .ok (node.sorted.outputs.map fun e => (e.1, e.2.loaded)) := by
    rw [sortedEntries_outputs, List.mapM_map]
    refine mapM_eq_ok fun entry _ => ?_
    show (loadTypeRef entry.2.asDict.sorted).map (Prod.mk entry.1) = _
    rw [loadTypeRef_asDict]
    rfl
  rw [encodeNode, PyValue.sorted]
  unfold loadNode
  rw [attributes, ok_bind, get_sorted rfl, PyValue.sorted, iterate, ok_bind, harguments, ok_bind,
    get_sorted rfl, PyValue.sorted, attributes, ok_bind, houtputs, ok_bind, subscript_sorted rfl,
    ok_bind, subscript_sorted rfl, ok_bind, get_sorted rfl, get_sorted rfl, get_sorted rfl,
    optionalStr_sorted]
  rfl

/-- **An encoded graph of the version is loaded with its entries sorted.** -/
theorem decode_encode (repr : PyValue → String) {g : CallGraph} (h : g.version = "1.0") :
    decode repr g.encode.sorted = .ok g.sorted.loaded := by
  have hnodes : (PyValue.sortedItems (g.nodes.map encodeNode)).mapM loadNode =
      .ok (g.sorted.nodes.map CallNode.loaded) := by
    rw [PyValue.sortedItems_eq, CallGraph.sorted, List.map_map, List.map_map, List.mapM_map]
    exact mapM_eq_ok fun node _ => loadNode_encoded node
  rw [CallGraph.encode, PyValue.sorted]
  unfold decode
  rw [attributes, ok_bind, get_sorted rfl, PyValue.sorted, h, if_neg (by simp)]
  dsimp only
  rw [subscript_sorted rfl, PyValue.sorted, ok_bind, iterate, ok_bind, hnodes, ok_bind,
    subscript_sorted rfl, ok_bind, PyValue.sorted, CallGraph.loaded, CallGraph.sorted, h]
  rfl

def TypeRef.texts (self : TypeRef) : List PyStr := self.jsonType :: self.schemaRef.toList

def ValueSource.texts (self : ValueSource) : List PyStr := [self.nodeId, self.output]

def Binding.texts (self : Binding) : List PyStr :=
  self.argument :: (self.valueType.texts ++ self.source.toList.flatMap ValueSource.texts)

/-- The texts of the node outside its literals and annotations. -/
def CallNode.texts (self : CallNode) : List PyStr :=
  self.id :: self.toolId :: (self.arguments.flatMap Binding.texts ++
    self.outputs.flatMap (fun entry => entry.1 :: entry.2.texts) ++ self.repairOf.toList)

section JsonOf

variable (float : FloatFormat) (text : PyStr → Prop) (int : ℤ → Prop)

/-- The literals and annotations of the node are finite JSON values, with such texts and integers,
and no mapping of outputs has a name twice. -/
structure CallNode.JsonOf (node : CallNode) : Prop where
  texts : ∀ s ∈ node.texts, text s
  literals : ∀ binding ∈ node.arguments, ∀ literal ∈ binding.literal, literal.JsonOf float text int
  outputs : (node.outputs.map Prod.fst).Nodup
  parallelizable : node.parallelizable.JsonOf float text int
  optional : node.optional.JsonOf float text int

def CallGraph.JsonOf (self : CallGraph) : Prop := ∀ node ∈ self.nodes, node.JsonOf float text int

end JsonOf

abbrev CallNode.Restorable (float : FloatFormat) : CallNode → Prop :=
  CallNode.JsonOf float PyStr.IsUnpaired Convertible

/-- The literals of the graph are finite JSON values, no text in it holds the halves of a pair next
to each other, and `str` converts its integers. -/
abbrev CallGraph.Restorable (float : FloatFormat) : CallGraph → Prop :=
  CallGraph.JsonOf float PyStr.IsUnpaired Convertible

@[simp] theorem isUnpaired_ofString (s : String) : (PyStr.ofString s).IsUnpaired :=
  CodePoint.unpaired_ofChars s.toList

section Encoded

variable {float : FloatFormat}

end Encoded

variable {float : FloatFormat} {text : PyStr → Prop} {int : ℤ → Prop}

theorem CallNode.mem_texts_sorted {node : CallNode} {s : PyStr} :
    s ∈ node.sorted.texts ↔ s ∈ node.texts := by
  have hbinding : ∀ binding : Binding, binding.sorted.texts = binding.texts := fun _ => rfl
  simp [CallNode.texts, CallNode.sorted, List.mem_flatMap, hbinding]

theorem CallNode.JsonOf.sorted {node : CallNode} (h : node.JsonOf float text int) :
    node.sorted.JsonOf float text int where
  texts s hs := h.texts s (CallNode.mem_texts_sorted.1 hs)
  literals := by
    rw [CallNode.sorted, List.forall_mem_map]
    rintro binding hbinding literal hliteral
    obtain ⟨value, hvalue, rfl⟩ := Option.mem_map.1 hliteral
    exact (h.literals binding hbinding value hvalue).sorted
  outputs := by
    have hperm := (List.perm_insertionSort (Entries.KeyLe (· ≤ ·)) node.outputs).map Prod.fst
    exact hperm.nodup_iff.2 h.outputs
  parallelizable := h.parallelizable.sorted
  optional := h.optional.sorted

theorem CallGraph.JsonOf.sorted {g : CallGraph} (h : g.JsonOf float text int) :
    g.sorted.JsonOf float text int := by
  unfold JsonOf CallGraph.sorted
  rw [List.forall_mem_map]
  exact fun node hnode => (h node hnode).sorted

namespace PyValue

mutual

/-- `==` of two values of one type: two dicts are equal when each key of the first has an equal
value in the second, which has no more keys. -/
def Same : PyValue → PyValue → Prop
  | .none, .none => True
  | .bool a, .bool b => a = b
  | .int a, .int b => a = b
  | .float a, .float b => a = b
  | .str a, .str b => a = b
  | .list a, .list b => SameItems a b
  | .dict a, .dict b => a.length = b.length ∧ SameEntries a b
  | .other a, .other b => a = b
  | _, _ => False

def SameItems : List PyValue → List PyValue → Prop
  | [], [] => True
  | x :: a, y :: b => x.Same y ∧ SameItems a b
  | _, _ => False

/-- The second entries have every key of the first, with an equal value. -/
def SameEntries : List (PyStr × PyValue) → List (PyStr × PyValue) → Prop
  | [], _ => True
  | (key, value) :: a, b => (∃ w, b.lookup key = some w ∧ value.Same w) ∧ SameEntries a b

end

/-- Two dicts that are sorted alike have the same keys, with values that are sorted alike. -/
theorem lookup_of_sorted_eq {a b : List (PyStr × PyValue)}
    (h : sortedEntries a = sortedEntries b) {key : PyStr} {value : PyValue}
    (hvalue : a.lookup key = some value) : ∃ w, b.lookup key = some w ∧ value.sorted = w.sorted := by
  have hlookup := lookup_sortedEntries key a
  rw [h, lookup_sortedEntries, hvalue] at hlookup
  obtain ⟨w, hw, heq⟩ := Option.map_eq_some_iff.1 hlookup
  exact ⟨w, hw, heq.symm⟩

theorem length_of_sorted_eq {a b : List (PyStr × PyValue)}
    (h : sortedEntries a = sortedEntries b) : a.length = b.length := by
  have hkeys := (keys_sortedEntries a).symm.trans (h ▸ keys_sortedEntries b)
  rw [← List.length_map Prod.fst, hkeys.length_eq, List.length_map]

mutual

/-- **Values that are sorted alike are equal.** -/
theorem same_of_sorted_eq : ∀ {a b : PyValue}, a.JsonOf float text int → a.sorted = b.sorted → a.Same b
  | .none, b, _, h => by
    cases b <;> cases h
    trivial
  | .bool _, b, _, h => by
    cases b <;> cases h
    rfl
  | .int _, b, _, h => by
    cases b <;> cases h
    rfl
  | .float _, b, _, h => by
    cases b <;> cases h
    rfl
  | .str _, b, _, h => by
    cases b <;> cases h
    rfl
  | .list a, b, ha, h => by
    cases b with
    | list b => exact sameItems_of_sorted_eq ha (PyValue.list.inj h)
    | none | bool | int | float | str | dict | other => cases h
  | .dict a, b, ha, h => by
    cases b with
    | dict b =>
      have hentries : sortedEntries a = sortedEntries b := PyValue.dict.inj h
      have hkeys := (jsonEntries_iff.1 ha).1
      refine ⟨length_of_sorted_eq hentries, sameEntries_of_lookup ha fun entry hentry => ?_⟩
      exact lookup_of_sorted_eq hentries (Entries.lookup_of_mem hkeys hentry)
    | none | bool | int | float | str | list | other => cases h
  | .other _, _, ha, _ => ha.elim

theorem sameItems_of_sorted_eq : ∀ {a b : List PyValue}, JsonItems float text int a →
    sortedItems a = sortedItems b → SameItems a b
  | [], b, _, h => by
    cases b <;> cases h
    trivial
  | x :: a, b, ha, h => by
    cases b with
    | nil => cases h
    | cons y b =>
      obtain ⟨hx, hrest⟩ := List.cons.inj h
      exact ⟨same_of_sorted_eq ha.1 hx, sameItems_of_sorted_eq ha.2 hrest⟩

theorem sameEntries_of_lookup : ∀ {a b : List (PyStr × PyValue)}, JsonEntries float text int a →
    (∀ entry ∈ a, ∃ w, b.lookup entry.1 = some w ∧ entry.2.sorted = w.sorted) → SameEntries a b
  | [], _, _, _ => trivial
  | (key, value) :: a, b, ha, h => by
    rw [List.forall_mem_cons] at h
    obtain ⟨w, hlookup, hw⟩ := h.1
    exact ⟨⟨w, hlookup, same_of_sorted_eq ha.1 hw⟩, sameEntries_of_lookup ha.2.2 h.2⟩

end

end PyValue

/-- Two lists whose items have the same images, which only related items have. -/
theorem forall₂_of_map_eq {α β : Type} {f : α → β} {R : α → α → Prop} {a b : List α}
    (hr : ∀ x ∈ a, ∀ y, f x = f y → R x y) (h : a.map f = b.map f) : List.Forall₂ R a b := by
  induction a generalizing b with
  | nil =>
    rw [List.map_eq_nil_iff.1 h.symm]
    exact .nil
  | cons x a ih =>
    obtain ⟨y, b, rfl, hy, hb⟩ := List.map_eq_cons_iff.1 h.symm
    rw [List.forall_mem_cons] at hr
    exact .cons (hr.1 y hy.symm) (ih hr.2 hb.symm)

structure Binding.Same (a b : Binding) : Prop where
  argument : a.argument = b.argument
  valueType : a.valueType = b.valueType
  literal : Option.Rel PyValue.Same a.literal b.literal
  source : a.source = b.source

structure CallNode.Same (a b : CallNode) : Prop where
  id : a.id = b.id
  toolId : a.toolId = b.toolId
  arguments : List.Forall₂ Binding.Same a.arguments b.arguments
  outputs : ∀ name, a.outputs.lookup name = b.outputs.lookup name
  parallelizable : a.parallelizable.Same b.parallelizable
  optional : a.optional.Same b.optional
  repairOf : a.repairOf = b.repairOf

/-- `==` of graphs, field by field. -/
structure CallGraph.Same (a b : CallGraph) : Prop where
  nodes : List.Forall₂ CallNode.Same a.nodes b.nodes
  version : a.version = b.version

theorem Binding.same_of_sorted_eq {a b : Binding}
    (ha : ∀ literal ∈ a.literal, literal.JsonOf float text int) (h : a.sorted = b.sorted) : a.Same b := by
  obtain ⟨argument, valueType, literal, source⟩ := a
  obtain ⟨argument', valueType', literal', source'⟩ := b
  obtain ⟨hargument, htype, hliteral, hsource⟩ := Binding.mk.inj h
  refine ⟨hargument, htype, ?_, hsource⟩
  cases literal with
  | none =>
    cases literal' with
    | none => exact .none
    | some value' => cases hliteral
  | some value =>
    cases literal' with
    | none => cases hliteral
    | some value' =>
      exact .some (PyValue.same_of_sorted_eq (ha value rfl) (Option.some.inj hliteral))

theorem CallNode.same_of_sorted_eq {a b : CallNode} (ha : a.JsonOf float text int)
    (h : a.sorted = b.sorted) : a.Same b := by
  obtain ⟨hid, htool, harguments, houtputs, hparallelizable, hoptional, hrepair⟩ :=
    CallNode.mk.inj h
  refine ⟨hid, htool, ?_, fun name => ?_, PyValue.same_of_sorted_eq ha.parallelizable hparallelizable,
    PyValue.same_of_sorted_eq ha.optional hoptional, hrepair⟩
  · exact forall₂_of_map_eq
      (fun binding hbinding _ => Binding.same_of_sorted_eq (ha.literals binding hbinding)) harguments
  · rw [← Entries.lookup_insertionSort (· ≤ ·) name a.outputs, houtputs,
      Entries.lookup_insertionSort]

theorem CallGraph.same_of_sorted_eq {a b : CallGraph} (ha : a.JsonOf float text int)
    (h : a.sorted = b.sorted) : a.Same b := by
  obtain ⟨hnodes, hversion⟩ := CallGraph.mk.inj h
  exact ⟨forall₂_of_map_eq (fun node hnode _ => CallNode.same_of_sorted_eq (ha node hnode)) hnodes,
    hversion⟩

theorem CallNode.sorted_sorted (node : CallNode) : node.sorted.sorted = node.sorted := by
  have hbinding : ∀ binding : Binding, binding.sorted.sorted = binding.sorted := by
    rintro ⟨argument, valueType, literal, source⟩
    simp [Binding.sorted, Function.comp_def, PyValue.sorted_sorted]
  have houtputs := (List.pairwise_insertionSort (Entries.KeyLe (· ≤ ·)) node.outputs).insertionSort_eq
  simp [CallNode.sorted, hbinding, houtputs, PyValue.sorted_sorted]

theorem CallGraph.sorted_sorted (g : CallGraph) : g.sorted.sorted = g.sorted := by
  simp [CallGraph.sorted, CallNode.sorted_sorted]

end AgentOrchestrator.Ir
