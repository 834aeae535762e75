import AgentOrchestrator.Ir.Graph
import AgentOrchestrator.Library.Entries
import Mathlib.Data.List.Basic
import Mathlib.Data.List.Nodup

/-!
# Types along an edge

Four types meet where an argument takes the output of another node: the one the consumer's tool
registers, the one of the binding, the one the producer declares, and the one the producer's tool
registers.  `validate` compares neighbours, and it compares the two types of the output as it
compares those of an argument: the registered type is to accept the declared one.  So a producer
may declare a type narrower than what its tool returns.
-/

namespace AgentOrchestrator.Ir

variable {repr : PyStr → String}

/-! ## Acceptance -/

theorem TypeRef.accepts_iff {t u : TypeRef} :
    t.accepts u = true ↔ t.jsonType = "any" ∨ t = u ∨
      (t.schemaRef = none ∧ u.schemaRef = none ∧ t.jsonType = "number" ∧
        u.jsonType = "integer") := by
  unfold TypeRef.accepts
  split_ifs with h
  · exact iff_of_true rfl (h.elim Or.inl fun h => Or.inr (Or.inl h))
  · rw [decide_eq_true_eq]
    constructor
    · intro hnumber
      exact Or.inr (Or.inr hnumber)
    · rintro (hany | heq | hnumber)
      · exact absurd (Or.inl hany) h
      · exact absurd (Or.inr heq) h
      · exact hnumber

theorem TypeRef.accepts_refl (t : TypeRef) : t.accepts t = true :=
  TypeRef.accepts_iff.2 (Or.inr (Or.inl rfl))

theorem TypeRef.accepts_trans {t u v : TypeRef} (htu : t.accepts u = true)
    (huv : u.accepts v = true) : t.accepts v = true := by
  rcases TypeRef.accepts_iff.1 htu with hany | rfl | ⟨-, -, -, hinteger⟩
  · exact TypeRef.accepts_iff.2 (Or.inl hany)
  · exact huv
  · rcases TypeRef.accepts_iff.1 huv with hany | rfl | ⟨-, -, hnumber, -⟩
    · rw [hinteger] at hany
      exact absurd hany (by decide)
    · exact htu
    · rw [hinteger] at hnumber
      exact absurd hnumber (by decide)

/-- Between two types that both accept a third one: the first accepts the second when the second is
the third one itself, or when it accepts it for another reason than that of numbers. -/
theorem TypeRef.accepts_iff_of_narrower {expected declared registered : TypeRef}
    (hexpected : expected.accepts declared = true)
    (hregistered : registered.accepts declared = true) :
    expected.accepts registered = true ↔
      declared = registered ∨ expected.jsonType = "any" ∨ expected = registered := by
  constructor
  · intro h
    rcases TypeRef.accepts_iff.1 h with hany | heq | ⟨-, -, -, hinteger⟩
    · exact Or.inr (Or.inl hany)
    · exact Or.inr (Or.inr heq)
    · rcases TypeRef.accepts_iff.1 hregistered with hany | heq | ⟨-, -, hnumber, -⟩
      · rw [hinteger] at hany
        exact absurd hany (by decide)
      · exact Or.inl heq.symm
      · rw [hinteger] at hnumber
        exact absurd hnumber (by decide)
  · rintro (rfl | hany | rfl)
    · exact hexpected
    · exact TypeRef.accepts_iff.2 (Or.inl hany)
    · exact TypeRef.accepts_refl expected

/-! ## What a graph without issues satisfies -/

theorem setEntry_of_notMem {α : Type} {key : PyStr} {value : α} {entries : List (PyStr × α)}
    (h : key ∉ entries.map (·.1)) : setEntry key value entries = entries ++ [(key, value)] := by
  induction entries with
  | nil => rfl
  | cons entry entries ih =>
    obtain ⟨hne, htail⟩ := not_or.1 (fun hmem => h (List.mem_cons.2 hmem))
    rw [setEntry, if_neg (fun e => hne e.symm), ih htail]
    rfl

/-- The node found under an id is a node of the graph with that id. -/
theorem mem_byIdOf {nodes : List CallNode} {entry : PyStr × CallNode}
    (h : entry ∈ byIdOf nodes) : entry.2 ∈ nodes ∧ entry.2.id = entry.1 := by
  suffices hfold : ∀ byId : ById, entry ∈ nodes.foldl (fun byId node => addNode node byId) byId →
      entry ∈ byId ∨ entry.2 ∈ nodes ∧ entry.2.id = entry.1 from
    (hfold [] h).resolve_left List.not_mem_nil
  clear h
  induction nodes with
  | nil =>
    intro byId h
    exact Or.inl h
  | cons node nodes ih =>
    intro byId h
    rcases ih (addNode node byId) h with h | ⟨hnode, hid⟩
    · unfold addNode at h
      split_ifs at h
      · exact Or.inl h
      · rcases List.mem_append.1 h with h | h
        · exact Or.inl h
        · rw [List.mem_singleton.1 h]
          exact Or.inr ⟨List.mem_cons_self, rfl⟩
    · exact Or.inr ⟨List.mem_cons_of_mem node hnode, hid⟩

/-- Without issues on its id, a node is new and is added. -/
theorem indexIssues_cons {index : ℕ} {byId : ById} {node : CallNode} {nodes : List CallNode}
    (h : indexIssues repr index byId (node :: nodes) = []) :
    byId.lookup node.id = none ∧ addNode node byId = byId ++ [(node.id, node)] ∧
      indexIssues repr (index + 1) (byId ++ [(node.id, node)]) nodes = [] := by
  obtain ⟨hhead, htail⟩ := List.append_eq_nil_iff.1 h
  have hids : idIssues repr index node byId = [] := (List.append_eq_nil_iff.1 hhead).1
  unfold idIssues at hids
  split_ifs at hids with hempty hknown
  have hadd : addNode node byId = byId ++ [(node.id, node)] := by
    rw [addNode, if_neg (not_or.2 ⟨hempty, hknown⟩)]
  rw [hadd] at htail
  exact ⟨Option.not_isSome_iff_eq_none.1 hknown, hadd, htail⟩

/-- Without issues on the ids, every node of the graph is found under its id. -/
theorem lookup_byIdOf {nodes : List CallNode} (h : indexIssues repr 0 [] nodes = [])
    {node : CallNode} (hnode : node ∈ nodes) : (byIdOf nodes).lookup node.id = some node := by
  suffices hfold : ∀ index byId, indexIssues repr index byId nodes = [] →
      (∀ key value, byId.lookup key = some value →
        (nodes.foldl (fun byId node => addNode node byId) byId).lookup key = some value) ∧
      ∀ node ∈ nodes,
        (nodes.foldl (fun byId node => addNode node byId) byId).lookup node.id = some node from
    (hfold 0 [] h).2 node hnode
  clear h hnode
  induction nodes with
  | nil =>
    intro index byId _
    exact ⟨fun _ _ h => h, fun _ h => absurd h List.not_mem_nil⟩
  | cons head nodes ih =>
    intro index byId h
    obtain ⟨hnone, hadd, htail⟩ := indexIssues_cons h
    obtain ⟨hkept, hfound⟩ := ih (index + 1) _ htail
    rw [List.foldl_cons, hadd]
    constructor
    · intro key value hvalue
      refine hkept key value ?_
      rw [List.lookup_append, hvalue]
      rfl
    · intro node hnode
      rcases List.mem_cons.1 hnode with rfl | hnode
      · refine hkept node.id node ?_
        rw [List.lookup_append, hnone]
        exact List.lookup_cons_self
      · exact hfound node hnode

/-- The second loop reports the issues of every node. -/
theorem issues_of_node {schemas : Option (List (PyStr × ToolSchema))} {byId : ById}
    {nodes : List CallNode} {index : ℕ} (h : nodeIssues repr schemas byId index nodes = [])
    {node : CallNode} (hnode : node ∈ nodes) :
    ∃ i, argumentIssues repr byId i 0 [] node.arguments = [] ∧
      toolIssues repr schemas i node = [] := by
  induction nodes generalizing index with
  | nil => cases hnode
  | cons head nodes ih =>
    obtain ⟨hhead, htail⟩ := List.append_eq_nil_iff.1 h
    rcases List.mem_cons.1 hnode with rfl | hnode
    · obtain ⟨hhead, htool⟩ := List.append_eq_nil_iff.1 hhead
      exact ⟨index, (List.append_eq_nil_iff.1 hhead).1, htool⟩
    · exact ih htail hnode

/-- The loop over the bindings reports those of a repeated argument and the issues of each source.
-/
theorem issues_of_arguments {byId : ById} {index bindingIndex : ℕ} {seen : List PyStr}
    {bindings : List Binding}
    (h : argumentIssues repr byId index bindingIndex seen bindings = []) :
    (bindings.map (·.argument)).Nodup ∧ (∀ binding ∈ bindings, binding.argument ∉ seen) ∧
      ∀ binding ∈ bindings, ∃ path, sourceIssues repr byId path binding = [] := by
  induction bindings generalizing bindingIndex seen with
  | nil => exact ⟨List.nodup_nil, fun _ h => absurd h List.not_mem_nil,
      fun _ h => absurd h List.not_mem_nil⟩
  | cons head bindings ih =>
    obtain ⟨hhead, htail⟩ := List.append_eq_nil_iff.1 h
    obtain ⟨hchecks, hsource⟩ := List.append_eq_nil_iff.1 hhead
    have hfirst := (List.append_eq_nil_iff.1 (List.append_eq_nil_iff.1 hchecks).1).1
    have hunseen : head.argument ∉ seen := by
      intro hseen
      rw [if_pos hseen] at hfirst
      cases hfirst
    obtain ⟨hnodup, hlater, hsources⟩ := ih htail
    refine ⟨?_, ?_, ?_⟩
    · rw [List.map_cons, List.nodup_cons]
      refine ⟨?_, hnodup⟩
      intro hmem
      obtain ⟨binding, hbinding, hsame⟩ := List.mem_map.1 hmem
      exact hlater binding hbinding (hsame ▸ List.mem_cons_self)
    · intro binding hbinding
      rcases List.mem_cons.1 hbinding with rfl | hbinding
      · exact hunseen
      · exact fun hseen => hlater binding hbinding (List.mem_cons_of_mem _ hseen)
    · intro binding hbinding
      rcases List.mem_cons.1 hbinding with rfl | hbinding
      · exact ⟨_, hsource⟩
      · exact hsources binding hbinding

/-- Bindings of distinct arguments all supply their types. -/
theorem mem_suppliedTypes {node : CallNode} (h : (node.arguments.map (·.argument)).Nodup)
    {binding : Binding} (hbinding : binding ∈ node.arguments) :
    (binding.argument, binding.valueType) ∈ suppliedTypes node := by
  suffices hfold : ∀ (bindings : List Binding) (supplied : List (PyStr × TypeRef)),
      (supplied.map (·.1) ++ bindings.map (·.argument)).Nodup →
      bindings.foldl (fun supplied binding => setEntry binding.argument binding.valueType supplied)
        supplied = supplied ++ bindings.map fun binding => (binding.argument, binding.valueType) by
    have hsupplied : suppliedTypes node =
        node.arguments.map fun binding => (binding.argument, binding.valueType) :=
      hfold node.arguments [] h
    rw [hsupplied]
    exact List.mem_map_of_mem hbinding
  intro bindings
  induction bindings with
  | nil =>
    intro supplied _
    exact (List.append_nil supplied).symm
  | cons head bindings ih =>
    intro supplied hnodup
    have hnew : head.argument ∉ supplied.map (·.1) := fun hmem =>
      List.disjoint_of_nodup_append hnodup hmem List.mem_cons_self
    rw [List.foldl_cons, setEntry_of_notMem hnew, ih]
    · rw [List.append_assoc]
      rfl
    · rw [List.map_append, List.append_assoc]
      exact hnodup

/-- A source without issues: the producer declares the output, with a type the binding accepts. -/
theorem declared_of_source {byId : ById} {path : String} {binding : Binding}
    {valueSource : ValueSource} (hsource : binding.source = some valueSource)
    (h : sourceIssues repr byId path binding = []) :
    ∃ producer declared, byId.lookup valueSource.nodeId = some producer ∧
      producer.outputs.lookup valueSource.output = some declared ∧
      binding.valueType.accepts declared = true := by
  unfold sourceIssues at h
  rw [hsource] at h
  dsimp only at h
  cases hproducer : byId.lookup valueSource.nodeId with
  | none =>
    rw [hproducer] at h
    cases h
  | some producer =>
    rw [hproducer] at h
    dsimp only at h
    cases hdeclared : producer.outputs.lookup valueSource.output with
    | none =>
      rw [hdeclared] at h
      cases h
    | some declared =>
      rw [hdeclared] at h
      dsimp only at h
      split_ifs at h with haccepts
      exact ⟨producer, declared, rfl, hdeclared, haccepts⟩

/-- A node without issues against its tool: the tool is known, it accepts the types of the
bindings, and it accepts the declared types of the outputs. -/
theorem registered_of_tool {schemas : List (PyStr × ToolSchema)} {index : ℕ} {node : CallNode}
    (h : toolIssues repr (some schemas) index node = []) :
    ∃ expected, schemas.lookup node.toolId = some expected ∧
      (∀ entry ∈ suppliedTypes node, ∃ expectedType,
        expected.arguments.lookup entry.1 = some expectedType ∧
          expectedType.accepts entry.2 = true) ∧
      ∀ entry ∈ node.outputs, ∃ registered,
        expected.outputs.lookup entry.1 = some registered ∧ registered.accepts entry.2 = true := by
  unfold toolIssues at h
  dsimp only at h
  cases htool : schemas.lookup node.toolId with
  | none =>
    rw [htool] at h
    cases h
  | some expected =>
    rw [htool] at h
    obtain ⟨harguments, houtputs⟩ := List.append_eq_nil_iff.1 h
    obtain ⟨harguments, htypes⟩ := List.append_eq_nil_iff.1 harguments
    have hunknown := (List.append_eq_nil_iff.1 harguments).1
    rw [List.map_eq_nil_iff, List.filter_eq_nil_iff] at hunknown
    rw [List.flatMap_eq_nil_iff] at htypes houtputs
    refine ⟨expected, rfl, ?_, ?_⟩
    · intro entry hentry
      have hknown := hunknown entry hentry
      have htype := htypes entry hentry
      cases hexpected : expected.arguments.lookup entry.1 with
      | none =>
        rw [hexpected] at hknown
        exact absurd rfl hknown
      | some expectedType =>
        rw [hexpected] at htype
        dsimp only at htype
        split_ifs at htype with haccepts
        exact ⟨expectedType, rfl, haccepts⟩
    · intro entry hentry
      have htype := houtputs entry hentry
      cases hregistered : expected.outputs.lookup entry.1 with
      | none =>
        rw [hregistered] at htype
        cases htype
      | some registered =>
        rw [hregistered] at htype
        dsimp only at htype
        split_ifs at htype with haccepts
        exact ⟨registered, rfl, haccepts⟩

/-! ## Edges -/

/-- An argument bound to the output of a node. -/
structure Edge where
  consumer : CallNode
  binding : Binding
  valueSource : ValueSource
  producer : CallNode
  deriving DecidableEq

/-- The edge is one of the graph. -/
structure CallGraph.HasEdge (graph : CallGraph) (e : Edge) : Prop where
  consumer : e.consumer ∈ graph.nodes
  binding : e.binding ∈ e.consumer.arguments
  source : e.binding.source = some e.valueSource
  producer : e.producer ∈ graph.nodes
  found : e.producer.id = e.valueSource.nodeId

/-- The type the consuming tool registers for the argument. -/
def Edge.expected (schemas : List (PyStr × ToolSchema)) (e : Edge) : Option TypeRef :=
  (schemas.lookup e.consumer.toolId).bind fun tool => tool.arguments.lookup e.binding.argument

/-- The type the producing tool registers for the output. -/
def Edge.registered (schemas : List (PyStr × ToolSchema)) (e : Edge) : Option TypeRef :=
  (schemas.lookup e.producer.toolId).bind fun tool => tool.outputs.lookup e.valueSource.output

/-- The type the producing node declares for the output. -/
def Edge.declared (e : Edge) : Option TypeRef := e.producer.outputs.lookup e.valueSource.output

/-- Every bound argument takes an output of a node of the graph, and the registered type of the
argument accepts the registered type of the output. -/
def CallGraph.TypeSound (self : CallGraph) (schemas : List (PyStr × ToolSchema)) : Prop :=
  ∀ consumer ∈ self.nodes, ∀ binding ∈ consumer.arguments, ∀ valueSource,
    binding.source = some valueSource → ∃ producer expected registered,
      self.HasEdge ⟨consumer, binding, valueSource, producer⟩ ∧
      Edge.expected schemas ⟨consumer, binding, valueSource, producer⟩ = some expected ∧
      Edge.registered schemas ⟨consumer, binding, valueSource, producer⟩ = some registered ∧
      expected.accepts registered = true

/-- Every output an argument is bound to is declared with the type its tool registers, unless the
argument takes anything or is of that registered type. -/
def CallGraph.Aligned (self : CallGraph) (schemas : List (PyStr × ToolSchema)) : Prop :=
  ∀ e, self.HasEdge e → ∀ expected declared registered, e.expected schemas = some expected →
    e.declared = some declared → e.registered schemas = some registered →
    declared = registered ∨ expected.jsonType = "any" ∨ expected = registered

/-- What `validate` says of an edge of a graph without issues: both the argument and the registered
output accept what the producer declares. -/
theorem types_of_edge {self : CallGraph} {schemas : List (PyStr × ToolSchema)}
    (h : self.validate repr (some schemas) = []) {consumer : CallNode}
    (hconsumer : consumer ∈ self.nodes) {binding : Binding}
    (hbinding : binding ∈ consumer.arguments) {valueSource : ValueSource}
    (hsource : binding.source = some valueSource) :
    ∃ producer expected declared registered,
      self.HasEdge ⟨consumer, binding, valueSource, producer⟩ ∧
      (byIdOf self.nodes).lookup valueSource.nodeId = some producer ∧
      Edge.expected schemas ⟨consumer, binding, valueSource, producer⟩ = some expected ∧
      Edge.declared ⟨consumer, binding, valueSource, producer⟩ = some declared ∧
      Edge.registered schemas ⟨consumer, binding, valueSource, producer⟩ = some registered ∧
      expected.accepts declared = true ∧ registered.accepts declared = true := by
  have hnodes : nodeIssues repr (some schemas) (byIdOf self.nodes) 0 self.nodes = [] :=
    (List.append_eq_nil_iff.1 (List.append_eq_nil_iff.1 h).1).2
  -- the consumer: its argument and its binding
  obtain ⟨i, harguments, htool⟩ := issues_of_node hnodes hconsumer
  obtain ⟨hnodup, -, hsources⟩ := issues_of_arguments harguments
  obtain ⟨path, hpath⟩ := hsources binding hbinding
  obtain ⟨producer, declared, hproducer, hdeclared, hbound⟩ := declared_of_source hsource hpath
  obtain ⟨tool, htoolId, hsupplied, -⟩ := registered_of_tool htool
  obtain ⟨expected, hexpected, htaken⟩ := hsupplied _ (mem_suppliedTypes hnodup hbinding)
  -- the producer: its declared output
  obtain ⟨hmem, hid⟩ := mem_byIdOf (Entries.mem_of_lookup hproducer)
  obtain ⟨j, -, htool'⟩ := issues_of_node hnodes hmem
  obtain ⟨tool', htoolId', -, houtputs⟩ := registered_of_tool htool'
  obtain ⟨registered, hregistered, hwider⟩ := houtputs _ (Entries.mem_of_lookup hdeclared)
  refine ⟨producer, expected, declared, registered,
    ⟨hconsumer, hbinding, hsource, hmem, hid⟩, hproducer, ?_, hdeclared, ?_,
    TypeRef.accepts_trans htaken hbound, hwider⟩
  · show (schemas.lookup consumer.toolId).bind _ = _
    rw [htoolId]
    exact hexpected
  · show (schemas.lookup producer.toolId).bind _ = _
    rw [htoolId']
    exact hregistered

/-- **A graph without issues is type sound exactly when its producers declare what their tools
register.**  Only where an argument takes anything, or just what the tool returns, does a narrower
declaration do no harm. -/
theorem typeSound_iff_aligned (repr : PyStr → String) (self : CallGraph)
    (schemas : List (PyStr × ToolSchema)) (h : self.validate repr (some schemas) = []) :
    self.TypeSound schemas ↔ self.Aligned schemas := by
  constructor
  · intro hsound e he expected declared registered hexpected hdeclared hregistered
    have hids : indexIssues repr 0 [] self.nodes = [] :=
      (List.append_eq_nil_iff.1 (List.append_eq_nil_iff.1 h).1).1
    have hlookup := lookup_byIdOf hids he.producer
    rw [he.found] at hlookup
    -- the edge of the validated graph and the edge of the typing are this one
    obtain ⟨producer, expected', declared', registered', -, hproducer, hE, hD, hR, haccepts,
      hwider⟩ := types_of_edge h he.consumer he.binding he.source
    obtain rfl : producer = e.producer := Option.some.inj (hproducer.symm.trans hlookup)
    obtain rfl : expected' = expected := Option.some.inj (hE.symm.trans hexpected)
    obtain rfl : declared' = declared := Option.some.inj (hD.symm.trans hdeclared)
    obtain rfl : registered' = registered := Option.some.inj (hR.symm.trans hregistered)
    obtain ⟨producer, expected'', registered'', hedge, hE', hR', hsame⟩ :=
      hsound e.consumer he.consumer e.binding he.binding e.valueSource he.source
    have hother := lookup_byIdOf hids hedge.producer
    rw [hedge.found, hproducer] at hother
    obtain rfl : e.producer = producer := Option.some.inj hother
    obtain rfl : expected'' = expected' := Option.some.inj (hE'.symm.trans hE)
    obtain rfl : registered'' = registered' := Option.some.inj (hR'.symm.trans hR)
    exact (TypeRef.accepts_iff_of_narrower haccepts hwider).1 hsame
  · intro haligned consumer hconsumer binding hbinding valueSource hsource
    obtain ⟨producer, expected, declared, registered, hedge, -, hexpected, hdeclared, hregistered,
      haccepts, hwider⟩ := types_of_edge h hconsumer hbinding hsource
    refine ⟨producer, expected, registered, hedge, hexpected, hregistered, ?_⟩
    exact (TypeRef.accepts_iff_of_narrower haccepts hwider).2
      (haligned _ hedge _ _ _ hexpected hdeclared hregistered)

/-! ## A narrowing declaration -/

/-- `repr` of a text that has neither quotes nor anything to escape. -/
def plainRepr (s : PyStr) : String := "'" ++ String.ofList (CodePoint.splitChars s.points).1 ++ "'"

/-- A tool that returns a number, and one that takes an integer. -/
def sampleSchemas : List (PyStr × ToolSchema) :=
  [("measure", { outputs := [("value", { jsonType := "number" })] }),
    ("repeat", { arguments := [("count", { jsonType := "integer" })], required := ["count"] })]

/-- The number, declared with the given type, is bound to the integer. -/
def sampleGraph (declared : PyStr) : CallGraph where
  nodes := [
    { id := "a", toolId := "measure", outputs := [("value", { jsonType := declared })] },
    { id := "b", toolId := "repeat"
      arguments := [{ argument := "count", valueType := { jsonType := "integer" }
                      source := some ⟨"a", "value"⟩ }] }]

example : (sampleGraph "number").validate plainRepr (some sampleSchemas) =
    [⟨"type_mismatch", "number output cannot bind to integer argument",
      "nodes[1].arguments[0]"⟩] := by decide

/-- **A graph without issues that is not type sound**: the tool returns a number, the node declares
an integer, and the argument takes an integer. -/
theorem narrowing_declaration_accepted :
    (sampleGraph "integer").validate plainRepr (some sampleSchemas) = [] ∧
      ¬ (sampleGraph "integer").TypeSound sampleSchemas := by
  refine ⟨by decide, ?_⟩
  intro hsound
  obtain ⟨producer, expected, registered, hedge, hexpected, hregistered, haccepts⟩ :=
    hsound _ (List.mem_cons_of_mem _ List.mem_cons_self) _ List.mem_cons_self _ rfl
  obtain rfl : expected = { jsonType := "integer" } := (Option.some.inj hexpected).symm
  have hproducer := hedge.producer
  have hfound := hedge.found
  dsimp only [sampleGraph] at hproducer hfound
  rcases List.mem_cons.1 hproducer with rfl | hproducer
  · obtain rfl : registered = { jsonType := "number" } := (Option.some.inj hregistered).symm
    exact absurd haccepts (by decide)
  · rw [List.mem_singleton.1 hproducer] at hfound
    exact absurd hfound (by decide)

theorem typeSound_iff_aligned_sample :
    (sampleGraph "integer").validate plainRepr (some sampleSchemas) = [] ∧
      ((sampleGraph "integer").TypeSound sampleSchemas ↔
        (sampleGraph "integer").Aligned sampleSchemas) :=
  ⟨by decide,
    typeSound_iff_aligned plainRepr (sampleGraph "integer") sampleSchemas (by decide)⟩

end AgentOrchestrator.Ir
