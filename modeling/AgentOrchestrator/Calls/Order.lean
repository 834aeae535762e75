import AgentOrchestrator.Library.PostOrder
import AgentOrchestrator.Calls.Executor

/-!
# The order of a validated graph

The validator finds the references of a node by walking its arguments along the schema of the tool;
the executor collects them from the whole value.  A reference that the validator does not see, below
a property without a schema, an array without `items` or a schema without a type, may name a node
that is not there or close a cycle.  `topologicalOrder` orders a validated graph exactly when no
unseen reference does.
-/

namespace AgentOrchestrator.Calls

open Relation PostOrder

/-! ## References -/

/-- A `$ref` object that names the node occurs in the value. -/
inductive RefersTo (ref : String) : Json → Prop where
  | here {value : Json} (h : reference? value = some ref) : RefersTo ref value
  | item {items : List Json} {item : Json} (h : item ∈ items) (hitem : RefersTo ref item) :
      RefersTo ref (.arr items)
  | field {fields : List (String × Json)} {key : String} {item : Json} (h : (key, item) ∈ fields)
      (hitem : RefersTo ref item) : RefersTo ref (.obj fields)

theorem mem_addTo {set : List String} {a b : String} : b ∈ addTo set a ↔ b ∈ set ∨ b = a := by
  unfold addTo
  split_ifs with h
  · constructor
    · exact Or.inl
    · rintro (h' | rfl)
      · exact h'
      · exact List.contains_iff_mem.1 h
  · simp

/-- An object that is a reference holds no other one. -/
theorem refersTo_reference {value : Json} {ref ref' : String} (h : reference? value = some ref') :
    RefersTo ref value ↔ ref = ref' := by
  constructor
  · intro hrefers
    unfold reference? at h
    split at h
    · cases h
      cases hrefers with
      | here h' => exact (Option.some.inj h').symm
      | field hmem hitem =>
        obtain ⟨rfl, rfl⟩ := Prod.mk.inj (List.mem_singleton.1 hmem)
        cases hitem with
        | here h' => cases h'
    · cases h
  · rintro rfl
    exact .here h

theorem refersTo_arr {items : List Json} {ref : String} :
    RefersTo ref (.arr items) ↔ ∃ item ∈ items, RefersTo ref item := by
  constructor
  · intro h
    cases h with
    | here h => cases h
    | item h hitem => exact ⟨_, h, hitem⟩
  · rintro ⟨item, h, hitem⟩
    exact .item h hitem

theorem refersTo_obj {fields : List (String × Json)} {ref : String}
    (hnone : reference? (.obj fields) = none) :
    RefersTo ref (.obj fields) ↔ ∃ field ∈ fields, RefersTo ref field.2 := by
  constructor
  · intro h
    cases h with
    | here h =>
      rw [hnone] at h
      cases h
    | field h hitem => exact ⟨_, h, hitem⟩
  · rintro ⟨⟨key, item⟩, h, hitem⟩
    exact .field h hitem

@[simp] theorem not_refersTo_null {ref : String} : ¬ RefersTo ref .null := by
  rintro ⟨⟨⟩⟩

@[simp] theorem not_refersTo_bool {ref : String} {b : Bool} : ¬ RefersTo ref (.bool b) := by
  rintro ⟨⟨⟩⟩

@[simp] theorem not_refersTo_num {ref : String} {n : ℚ} : ¬ RefersTo ref (.num n) := by
  rintro ⟨⟨⟩⟩

@[simp] theorem not_refersTo_str {ref s : String} : ¬ RefersTo ref (.str s) := by
  rintro ⟨⟨⟩⟩

mutual

/-- The executor collects exactly the references that occur in the value. -/
theorem mem_collectReferences (ref : String) : ∀ (value : Json) (references : List String),
    ref ∈ collectReferences value references ↔ ref ∈ references ∨ RefersTo ref value
  | .null, references => by
    simp [collectReferences, reference?]
  | .bool b, references => by
    simp [collectReferences, reference?]
  | .num n, references => by
    simp [collectReferences, reference?]
  | .str s, references => by
    simp [collectReferences, reference?]
  | .arr items, references => by
    rw [refersTo_arr, ← mem_collectItems ref items references]
    rfl
  | .obj fields, references => by
    rw [collectReferences]
    cases href : reference? (.obj fields) with
    | some ref' =>
      dsimp only
      rw [mem_addTo, refersTo_reference href]
    | none =>
      dsimp only
      rw [refersTo_obj href, mem_collectFields ref fields references]

theorem mem_collectItems (ref : String) : ∀ (items : List Json) (references : List String),
    ref ∈ collectItems items references ↔
      ref ∈ references ∨ ∃ item ∈ items, RefersTo ref item
  | [], references => by simp [collectItems]
  | item :: items, references => by
    rw [collectItems, mem_collectItems ref items, mem_collectReferences ref item]
    simp [or_assoc]

theorem mem_collectFields (ref : String) :
    ∀ (fields : List (String × Json)) (references : List String),
    ref ∈ collectFields fields references ↔
      ref ∈ references ∨ ∃ field ∈ fields, RefersTo ref field.2
  | [], references => by simp [collectFields]
  | (key, item) :: fields, references => by
    rw [collectFields, mem_collectFields ref fields, mem_collectReferences ref item]
    simp [or_assoc]

end

/-- The node comes after the node with the id. -/
def After (node : CallNode) (id : String) : Prop :=
  id ∈ node.dependsOn ∨ RefersTo id node.arguments

theorem mem_dependencies {node : CallNode} {id : String} :
    id ∈ dependencies node ↔ After node id := by
  have hset : ∀ (l set : List String), id ∈ l.foldl addTo set ↔ id ∈ set ∨ id ∈ l := by
    intro l
    induction l with
    | nil => simp
    | cons a l ih =>
      intro set
      rw [List.foldl_cons, ih, mem_addTo, List.mem_cons, or_assoc]
  unfold dependencies After
  rw [mem_collectReferences, hset]
  simp

/-! ## What the validator has seen -/

/-- None of the diagnostics is an error. -/
def Clean (diagnostics : List ValidationDiagnostic) : Prop :=
  ∀ d ∈ diagnostics, d.severity ≠ .error

theorem clean_append {a b : List ValidationDiagnostic} : Clean (a ++ b) ↔ Clean a ∧ Clean b := by
  simp only [Clean, List.mem_append, or_imp, forall_and]

theorem finish_valid {diagnostics : List ValidationDiagnostic} :
    (finish diagnostics).valid = true ↔ Clean diagnostics := by
  simp [finish, Clean]

/-- The id is one of a node. -/
def Known (nodes : List CallNode) (id : String) : Prop := ∃ node ∈ nodes, node.id = id

/-- The check adds only ids of nodes to the dependencies. -/
def Check.Within (nodes : List CallNode) (check : Check) : Prop :=
  ∀ dependencies, (∀ d ∈ dependencies, d ∈ (check dependencies).1) ∧
    ∀ d ∈ (check dependencies).1, d ∈ dependencies ∨ Known nodes d

namespace Check

variable {nodes : List CallNode} {a b : Check}

theorem within_ok : Within nodes ok := fun _ => ⟨fun _ h => h, fun _ h => Or.inl h⟩

theorem within_report {d : ValidationDiagnostic} : Within nodes (report d) :=
  fun _ => ⟨fun _ h => h, fun _ h => Or.inl h⟩

theorem Within.andThen (ha : Within nodes a) (hb : Within nodes b) :
    Within nodes (a.andThen b) := by
  intro dependencies
  obtain ⟨ha₁, ha₂⟩ := ha dependencies
  obtain ⟨hb₁, hb₂⟩ := hb (a dependencies).1
  refine ⟨fun d hd => hb₁ d (ha₁ d hd), ?_⟩
  intro d hd
  rcases hb₂ d hd with hd | hd
  · exact ha₂ d hd
  · exact Or.inr hd

/-- What the first check has added stays. -/
theorem Within.keeps (hb : Within nodes b) {dependencies : List String} {d : String}
    (h : d ∈ (a dependencies).1) : d ∈ (a.andThen b dependencies).1 :=
  (hb (a dependencies).1).1 d h

theorem within_forEach {α : Type} {check : α → Check} (h : ∀ a, Within nodes (check a))
    (l : List α) : Within nodes (forEach check l) := by
  induction l with
  | nil => exact within_ok
  | cons a l ih => exact (h a).andThen ih

theorem within_add {id : String} (h : Known nodes id)
    (reported : List String → List ValidationDiagnostic) : Within nodes (fun dependencies =>
      (if dependencies.contains id then dependencies else dependencies ++ [id],
        reported dependencies)) := by
  intro dependencies
  have hmem : ∀ d, d ∈ addTo dependencies id ↔ d ∈ dependencies ∨ d = id := fun d => mem_addTo
  refine ⟨fun d hd => (hmem d).2 (Or.inl hd), ?_⟩
  intro d hd
  rcases (hmem d).1 hd with hd | rfl
  · exact Or.inl hd
  · exact Or.inr h

end Check

section Seen

variable (isUrl : String → Bool) (nodes : List CallNode) (tools : List (String × ToolSchema))
  (nodeId : String)

theorem within_validateReference (ref : String) (schema : JsonSchema) (path : String) :
    Check.Within nodes (validateReference nodes tools nodeId ref schema path) := by
  unfold validateReference
  cases hfind : nodes.find? (·.id = ref) with
  | none => exact Check.within_report
  | some source =>
    have hid : source.id = ref := by simpa using List.find?_some hfind
    exact Check.within_add ⟨source, List.mem_of_find?_eq_some hfind, hid⟩ _

theorem within_checkEnum (value : Json) (schema : JsonSchema) (path : String) :
    Check.Within nodes (checkEnum nodeId value schema path) := by
  unfold checkEnum
  cases schema.enum with
  | none => exact Check.within_ok
  | some candidates =>
    dsimp only
    split_ifs
    · exact Check.within_ok
    · exact Check.within_report

theorem within_checkFormat (value : Json) (schema : JsonSchema) (path : String) :
    Check.Within nodes (checkFormat isUrl nodeId value schema path) := by
  unfold checkFormat
  split
  · split_ifs
    · exact Check.within_ok
    · exact Check.within_report
  · exact Check.within_ok

theorem within_checkRequired (fields : List (String × Json)) (schema : JsonSchema)
    (path : String) : Check.Within nodes (checkRequired nodeId fields schema path) := by
  refine Check.within_forEach ?_ schema.required
  intro required
  split_ifs
  · exact Check.within_ok
  · exact Check.within_report

/-- The part of `validateValue` that walks into a value. -/
def validateChildren (value : Json) (schema : JsonSchema) (path : String) : Check :=
  match value with
  | .obj fields =>
    if schema.type = some .object then
      (checkRequired nodeId fields schema path).andThen
        (validateFields isUrl nodes tools nodeId fields schema path)
    else .ok
  | .arr items =>
    match schema.items with
    | some itemSchema =>
      if schema.type = some .array then validateItems isUrl nodes tools nodeId items itemSchema path 0
      else .ok
    | none => .ok
  | _ => .ok

/-- `validateValue` with the walk into the value as one check. -/
theorem validateValue_eq (value : Json) (schema : JsonSchema) (path : String) :
    validateValue isUrl nodes tools nodeId value schema path =
      match reference? value with
      | some ref => validateReference nodes tools nodeId ref schema path
      | none =>
        if !matchesType value schema.type then
          .report { id := .CFV101, nodeId := nodeId, path := path
                    message := "expected " ++ (schema.type.map SchemaType.text).getD "any" }
        else
          ((checkEnum nodeId value schema path).andThen
            (checkFormat isUrl nodeId value schema path)).andThen
            (validateChildren isUrl nodes tools nodeId value schema path) := by
  cases value <;> rfl

theorem within_validateValue_of (value : Json) (schema : JsonSchema) (path : String)
    (h : Check.Within nodes (validateChildren isUrl nodes tools nodeId value schema path)) :
    Check.Within nodes (validateValue isUrl nodes tools nodeId value schema path) := by
  rw [validateValue_eq]
  split
  · exact within_validateReference nodes tools nodeId _ schema path
  · split_ifs
    · exact Check.within_report
    · exact ((within_checkEnum nodes nodeId value schema path).andThen
        (within_checkFormat isUrl nodes nodeId value schema path)).andThen h

mutual

theorem within_validateValue : ∀ (value : Json) (schema : JsonSchema) (path : String),
    Check.Within nodes (validateValue isUrl nodes tools nodeId value schema path)
  | .null, schema, path => within_validateValue_of isUrl nodes tools nodeId _ _ _ Check.within_ok
  | .bool _, schema, path => within_validateValue_of isUrl nodes tools nodeId _ _ _ Check.within_ok
  | .num _, schema, path => within_validateValue_of isUrl nodes tools nodeId _ _ _ Check.within_ok
  | .str _, schema, path => within_validateValue_of isUrl nodes tools nodeId _ _ _ Check.within_ok
  | .arr items, schema, path => by
    refine within_validateValue_of isUrl nodes tools nodeId _ _ _ ?_
    unfold validateChildren
    cases schema.items with
    | none => exact Check.within_ok
    | some itemSchema =>
      dsimp only
      split_ifs
      · exact within_validateItems items itemSchema path 0
      · exact Check.within_ok
  | .obj fields, schema, path => by
    refine within_validateValue_of isUrl nodes tools nodeId _ _ _ ?_
    unfold validateChildren
    dsimp only
    split_ifs
    · exact (within_checkRequired nodes nodeId fields schema path).andThen
        (within_validateFields fields schema path)
    · exact Check.within_ok

theorem within_validateFields : ∀ (fields : List (String × Json)) (schema : JsonSchema)
    (path : String), Check.Within nodes (validateFields isUrl nodes tools nodeId fields schema path)
  | [], _, _ => Check.within_ok
  | (key, child) :: fields, schema, path => by
    rw [validateFields]
    refine Check.Within.andThen ?_ (within_validateFields fields schema path)
    cases schema.properties.lookup key with
    | some childSchema => exact within_validateValue child childSchema (path ++ "." ++ key)
    | none =>
      dsimp only
      split_ifs
      · exact Check.within_report
      · exact Check.within_ok

theorem within_validateItems : ∀ (items : List Json) (schema : JsonSchema) (path : String)
    (index : ℕ), Check.Within nodes (validateItems isUrl nodes tools nodeId items schema path index)
  | [], _, _, _ => Check.within_ok
  | child :: items, schema, path, index => by
    rw [validateItems]
    exact (within_validateValue child schema _).andThen (within_validateItems items schema path _)

end

theorem within_checkDependency (node : CallNode) (dependency : String) :
    Check.Within nodes (checkDependency nodes node dependency) := by
  intro dependencies
  unfold checkDependency
  split_ifs with hknown
  · have hnode : Known nodes dependency := by simpa [Known] using hknown
    exact Check.within_add hnode (fun _ => []) dependencies
  · exact ⟨fun _ h => h, fun _ h => Or.inl h⟩

theorem within_checkArguments (node : CallNode) :
    Check.Within nodes (checkArguments isUrl nodes tools node) := by
  unfold checkArguments
  cases tools.lookup node.tool with
  | none => exact Check.within_report
  | some tool => exact within_validateValue isUrl nodes tools node.id node.arguments tool.input _

theorem within_checkNode (node : CallNode) :
    Check.Within nodes (checkNode isUrl nodes tools node) :=
  (Check.within_forEach (within_checkDependency nodes node) node.dependsOn).andThen
    (within_checkArguments isUrl nodes tools node)

/-- The dependencies of a node that the validator has seen. -/
def seen (node : CallNode) : List String := (checkNode isUrl nodes tools node []).1

theorem known_of_seen {node : CallNode} {id : String} (h : id ∈ seen isUrl nodes tools node) :
    Known nodes id := by
  rcases (within_checkNode isUrl nodes tools node []).2 id h with h | h
  · cases h
  · exact h

theorem mem_checkDependencies {node : CallNode} {id : String} {l : List String} (hid : id ∈ l) :
    ∀ {dependencies : List String},
      Clean (Check.forEach (checkDependency nodes node) l dependencies).2 →
      id ∈ (Check.forEach (checkDependency nodes node) l dependencies).1 := by
  induction l with
  | nil => cases hid
  | cons a l ih =>
    intro dependencies hclean
    have hsplit := clean_append.1 hclean
    rcases List.mem_cons.1 hid with rfl | hid
    · -- the entry is known, so it is added, and the later entries keep it
      refine (Check.within_forEach (within_checkDependency nodes node) l _).1 id ?_
      have hfirst : Clean (checkDependency nodes node id dependencies).2 := hsplit.1
      show id ∈ (checkDependency nodes node id dependencies).1
      unfold checkDependency at hfirst ⊢
      by_cases hknown : nodes.any (·.id = id) = true
      · rw [if_pos hknown]
        exact mem_addTo.2 (Or.inr rfl)
      · rw [if_neg hknown] at hfirst
        exact absurd rfl (hfirst _ List.mem_cons_self)
    · exact ih hid hsplit.2

/-- Without an error every entry of `dependsOn` has been seen. -/
theorem seen_of_dependsOn {node : CallNode}
    (hclean : Clean (checkNode isUrl nodes tools node []).2) {id : String}
    (hid : id ∈ node.dependsOn) : id ∈ seen isUrl nodes tools node := by
  have hsplit := clean_append.1 hclean
  exact (within_checkArguments isUrl nodes tools node).keeps (mem_checkDependencies nodes hid hsplit.1)

end Seen

/-! ## Candidates -/

/-- Without an error every candidate is a node, and the ids are distinct. -/
theorem readNodes_clean : ∀ {candidates : List Json} {index : ℕ} {nodes : List CallNode},
    Clean (readNodes candidates index nodes).2 → (nodes.map (·.id)).Nodup →
    (readNodes candidates index nodes).1 = nodes ++ candidates.filterMap node? ∧
      ((readNodes candidates index nodes).1.map (·.id)).Nodup
  | [], index, nodes, _, hnodup => by
    simpa [readNodes] using hnodup
  | candidate :: candidates, index, nodes, hclean, hnodup => by
    cases hnode : node? candidate with
    | none =>
      simp only [readNodes, hnode] at hclean
      exact absurd rfl (hclean _ List.mem_cons_self)
    | some node =>
      simp only [readNodes, hnode] at hclean ⊢
      rw [clean_append] at hclean
      have hnew : ∀ n ∈ nodes, n.id ≠ node.id := by
        intro n hn hid
        have hany : nodes.any (·.id = node.id) = true :=
          List.any_eq_true.2 ⟨n, hn, decide_eq_true hid⟩
        rw [if_pos hany] at hclean
        exact absurd rfl (hclean.1 _ List.mem_cons_self)
      have hnodup' : ((nodes ++ [node]).map (·.id)).Nodup := by
        rw [List.map_append, List.nodup_append]
        refine ⟨hnodup, List.nodup_singleton _, ?_⟩
        intro a ha b hb
        obtain ⟨n, hn, rfl⟩ := List.mem_map.1 ha
        rw [List.mem_singleton.1 hb]
        exact hnew n hn
      obtain ⟨hnodes, hids⟩ := readNodes_clean hclean.2 hnodup'
      refine ⟨?_, hids⟩
      rw [hnodes, List.filterMap_cons_some hnode, List.append_assoc]
      rfl

/-! ## The adjacency -/

/-- The nodes with what the validator has seen of them. -/
def seenAdjacency (isUrl : String → Bool) (nodes : List CallNode)
    (tools : List (String × ToolSchema)) (l : List CallNode) : Adjacency :=
  l.map fun node => (node.id, seen isUrl nodes tools node)

theorem Adjacency.set_of_new {adjacency : Adjacency} {id : String} {l : List String}
    (h : ∀ entry ∈ adjacency, entry.1 ≠ id) : adjacency.set id l = adjacency ++ [(id, l)] := by
  unfold Adjacency.set
  rw [if_neg]
  intro hany
  obtain ⟨entry, hentry, hid⟩ := List.any_eq_true.1 hany
  exact h entry hentry (of_decide_eq_true hid)

theorem emptyAdjacency_eq {nodes : List CallNode} (h : (nodes.map (·.id)).Nodup) :
    emptyAdjacency nodes = nodes.map fun node => (node.id, []) := by
  suffices hfold : ∀ (done rest : List CallNode), ((done ++ rest).map (·.id)).Nodup →
      rest.foldl (fun adjacency node => Adjacency.set adjacency node.id [])
        (done.map fun node => (node.id, [])) = (done ++ rest).map fun node => (node.id, []) from
    hfold [] nodes h
  intro done rest
  induction rest generalizing done with
  | nil => simp
  | cons node rest ih =>
    intro hnodup
    rw [List.foldl_cons, Adjacency.set_of_new]
    · have := ih (done ++ [node]) (by simpa using hnodup)
      simpa using this
    · intro entry hentry hid
      obtain ⟨n, hn, rfl⟩ := List.mem_map.1 hentry
      rw [List.map_append, List.nodup_append] at hnodup
      exact hnodup.2.2 n.id (List.mem_map_of_mem hn) node.id (by simp) hid

theorem Adjacency.get_append {a b : Adjacency} {id : String} {l : List String}
    (ha : ∀ entry ∈ a, entry.1 ≠ id) : Adjacency.get (a ++ (id, l) :: b) id = l := by
  unfold Adjacency.get
  induction a with
  | nil => simp
  | cons entry a ih =>
    have hne : id ≠ entry.1 := (ha entry List.mem_cons_self).symm
    rw [List.cons_append, List.lookup_cons, beq_false_of_ne hne]
    exact ih fun e he => ha e (List.mem_cons_of_mem _ he)

theorem Adjacency.set_append {a b : Adjacency} {id : String} {l l' : List String}
    (ha : ∀ entry ∈ a, entry.1 ≠ id) (hb : ∀ entry ∈ b, entry.1 ≠ id) :
    Adjacency.set (a ++ (id, l) :: b) id l' = a ++ (id, l') :: b := by
  have hsame : ∀ {c : Adjacency}, (∀ entry ∈ c, entry.1 ≠ id) →
      c.map (fun entry => if entry.1 = id then (id, l') else entry) = c := by
    intro c hc
    exact (List.map_congr_left fun entry hentry => if_neg (hc entry hentry)).trans (List.map_id c)
  unfold Adjacency.set
  rw [if_pos (by simp), List.map_append, List.map_cons, if_pos rfl, hsame ha, hsame hb]

theorem checkNodes_cons (isUrl : String → Bool) (nodes : List CallNode)
    (tools : List (String × ToolSchema)) (node : CallNode) (rest : List CallNode)
    (adjacency : Adjacency) :
    checkNodes isUrl nodes tools (node :: rest) adjacency =
      let checked := checkNode isUrl nodes tools node (adjacency.get node.id)
      let others := checkNodes isUrl nodes tools rest (adjacency.set node.id checked.1)
      (others.1, checked.2 ++ others.2) := rfl

/-- The loop fills in the nodes one after another. -/
theorem checkNodes_eq (isUrl : String → Bool) (nodes : List CallNode)
    (tools : List (String × ToolSchema)) (rest : List CallNode) : ∀ (done : List CallNode),
    ((done ++ rest).map (·.id)).Nodup →
    checkNodes isUrl nodes tools rest
        (seenAdjacency isUrl nodes tools done ++ rest.map fun node => (node.id, [])) =
      (seenAdjacency isUrl nodes tools (done ++ rest),
        rest.flatMap fun node => (checkNode isUrl nodes tools node []).2) := by
  induction rest with
  | nil => simp [checkNodes]
  | cons node rest ih =>
    intro done hnodup
    have hdone : ∀ entry ∈ seenAdjacency isUrl nodes tools done, entry.1 ≠ node.id := by
      intro entry hentry hid
      obtain ⟨n, hn, rfl⟩ := List.mem_map.1 hentry
      rw [List.map_append, List.nodup_append] at hnodup
      exact hnodup.2.2 n.id (List.mem_map_of_mem hn) node.id (by simp) hid
    have hrest : ∀ entry ∈ rest.map (fun node => (node.id, ([] : List String))),
        entry.1 ≠ node.id := by
      intro entry hentry hid
      obtain ⟨n, hn, rfl⟩ := List.mem_map.1 hentry
      rw [List.map_append, List.nodup_append, List.map_cons, List.nodup_cons] at hnodup
      exact hnodup.2.1.1 (hid ▸ List.mem_map_of_mem hn)
    have hnext := ih (done ++ [node]) (by simpa using hnodup)
    rw [List.append_assoc] at hnext
    have hadjacency : seenAdjacency isUrl nodes tools (done ++ [node]) ++
        rest.map (fun node => (node.id, [])) = seenAdjacency isUrl nodes tools done ++
          (node.id, (checkNode isUrl nodes tools node []).1) ::
            rest.map (fun node => (node.id, [])) := by
      simp [seenAdjacency, seen]
    rw [hadjacency] at hnext
    rw [checkNodes_cons, List.map_cons, Adjacency.get_append hdone]
    dsimp only
    rw [Adjacency.set_append hdone hrest, hnext]
    rfl

/-- What the validator has checked of a valid graph. -/
structure Checked (isUrl : String → Bool) (nodes : List CallNode)
    (tools : List (String × ToolSchema)) : Prop where
  ids : (nodes.map (·.id)).Nodup
  clean : ∀ node ∈ nodes, Clean (checkNode isUrl nodes tools node []).2
  cycles : detectCycles (seenAdjacency isUrl nodes tools nodes) (nodes.map (·.id)) {} = []

theorem checked_of_valid {isUrl : String → Bool} {graph : Json}
    {tools : List (String × ToolSchema)} (h : (validateCallGraph isUrl graph tools).valid = true) :
    Checked isUrl (graphNodes graph) tools := by
  unfold validateCallGraph at h
  dsimp only at h
  split at h
  · rename_i fields
    split at h
    · rename_i candidates hcandidates
      have hread : graphNodes (.obj fields) = candidates.filterMap node? := by
        simp only [graphNodes, Calls.candidates, hcandidates]
      rw [finish_valid, clean_append, clean_append] at h
      obtain ⟨⟨hshape, hnodes⟩, hcycles⟩ := h
      obtain ⟨hparsed, hids⟩ := readNodes_clean hshape List.nodup_nil
      rw [List.nil_append, ← hread] at hparsed
      rw [hparsed] at hids hnodes hcycles
      have hchecked := checkNodes_eq isUrl (graphNodes (.obj fields)) tools
        (graphNodes (.obj fields)) [] hids
      rw [emptyAdjacency_eq hids] at hnodes hcycles
      simp only [seenAdjacency, List.map_nil, List.nil_append] at hchecked
      rw [hchecked] at hnodes hcycles
      refine ⟨hids, ?_, ?_⟩
      · intro node hnode d hd
        exact hnodes d (List.mem_flatMap.2 ⟨node, hnode, hd⟩)
      · have hkeys : (seenAdjacency isUrl (graphNodes (.obj fields)) tools
            (graphNodes (.obj fields))).map (·.1) = (graphNodes (.obj fields)).map (·.id) := by
          simp [seenAdjacency]
        rw [← hkeys]
        by_contra hne
        obtain ⟨node, hnode⟩ := List.exists_mem_of_ne_nil _ hne
        exact hcycles _ (List.mem_map_of_mem hnode) rfl
    · exact absurd rfl (finish_valid.1 h _ List.mem_cons_self)
  · exact absurd rfl (finish_valid.1 h _ List.mem_cons_self)

/-! ## Cycles -/

section Cycles

variable {adjacency : Adjacency}

/-- What a search without a cycle has finished: a list in post-order that holds the visited nodes
but for the active ones. -/
structure Finished (adjacency : Adjacency) (done : List String) (marks : Marks) : Prop where
  sorted : Sorted adjacency.get done
  visited : ∀ id ∈ marks.visited, id ∈ done ∨ id ∈ marks.active

/-- A step of the search: it finishes more, and the active nodes are the same. -/
def Continues (adjacency : Adjacency) (done : List String) (marks marks' : Marks)
    (ids : List String) : Prop :=
  ∃ done', Finished adjacency done' marks' ∧ (∀ id ∈ done, id ∈ done') ∧
    marks'.active = marks.active ∧ ∀ id ∈ ids, id ∈ done'

theorem someWalk_continues {walk : String → Marks → Bool × Marks}
    (hwalk : ∀ {id done marks marks'}, Finished adjacency done marks →
      walk id marks = (false, marks') → Continues adjacency done marks marks' [id])
    {ids : List String} : ∀ {done : List String} {marks marks' : Marks},
    Finished adjacency done marks → someWalk walk ids marks = (false, marks') →
    Continues adjacency done marks marks' ids := by
  induction ids with
  | nil =>
    intro done marks marks' hdone h
    obtain ⟨-, rfl⟩ := Prod.mk.inj h
    exact ⟨done, hdone, fun _ h => h, rfl, fun _ h => nomatch h⟩
  | cons id ids ih =>
    intro done marks marks' hdone h
    rw [someWalk] at h
    cases hid : walk id marks with
    | mk cyclic marks₁ =>
      rw [hid] at h
      dsimp only at h
      split_ifs at h with hcyclic
      · cases h
      rw [Bool.not_eq_true] at hcyclic
      subst hcyclic
      obtain ⟨done₁, hdone₁, hmore₁, hactive₁, hid₁⟩ := hwalk hdone hid
      obtain ⟨done₂, hdone₂, hmore₂, hactive₂, hids₂⟩ := ih hdone₁ h
      refine ⟨done₂, hdone₂, fun x hx => hmore₂ x (hmore₁ x hx), hactive₂.trans hactive₁, ?_⟩
      intro x hx
      rcases List.mem_cons.1 hx with rfl | hx
      · exact hmore₂ x (hid₁ x List.mem_cons_self)
      · exact hids₂ x hx

/-- A walk that finds no cycle finishes its node after the successors of it. -/
theorem walk_continues {fuel : ℕ} : ∀ {id : String} {done : List String} {marks marks' : Marks},
    Finished adjacency done marks → walk adjacency fuel id marks = (false, marks') →
    Continues adjacency done marks marks' [id] := by
  induction fuel with
  | zero =>
    intro id done marks marks' _ h
    cases h
  | succ fuel ih =>
    intro id done marks marks' hdone h
    rw [walk] at h
    split_ifs at h with hactive hvisited
    · cases h
    · obtain ⟨-, rfl⟩ := Prod.mk.inj h
      have hid : id ∈ done := by
        rcases hdone.visited id (List.contains_iff_mem.1 hvisited) with h | h
        · exact h
        · exact absurd (List.contains_iff_mem.2 h) hactive
      exact ⟨done, hdone, fun _ h => h, rfl, fun x hx => List.mem_singleton.1 hx ▸ hid⟩
    · have hstart : Finished adjacency done ⟨id :: marks.visited, id :: marks.active⟩ := by
        refine ⟨hdone.sorted, ?_⟩
        intro x hx
        rcases List.mem_cons.1 hx with rfl | hx
        · exact Or.inr List.mem_cons_self
        · rcases hdone.visited x hx with h | h
          · exact Or.inl h
          · exact Or.inr (List.mem_cons_of_mem _ h)
      cases hsome : someWalk (walk adjacency fuel) (adjacency.get id)
          ⟨id :: marks.visited, id :: marks.active⟩ with
      | mk cyclic marks₁ =>
        rw [hsome] at h
        dsimp only at h
        obtain ⟨rfl, rfl⟩ := Prod.mk.inj h
        obtain ⟨done₁, hdone₁, hmore₁, hactive₁, hnext⟩ := someWalk_continues ih hstart hsome
        have herase : marks₁.active.erase id = marks.active := by
          simp [hactive₁]
        refine ⟨done₁ ++ [id], ⟨hdone₁.sorted.snoc hnext, ?_⟩, ?_, herase, ?_⟩
        · intro x hx
          rw [List.mem_append, List.mem_singleton]
          rcases hdone₁.visited x hx with h | h
          · exact Or.inl (Or.inl h)
          · rw [hactive₁] at h
            rcases List.mem_cons.1 h with rfl | h
            · exact Or.inl (Or.inr rfl)
            · exact Or.inr (herase.symm ▸ h)
        · intro x hx
          exact List.mem_append_left _ (hmore₁ x hx)
        · intro x hx
          exact List.mem_append_right _ hx

/-- When no node is reported, all nodes are in post-order. -/
theorem sorted_of_detectCycles {ids : List String} : ∀ {done : List String} {marks : Marks},
    Finished adjacency done marks → detectCycles adjacency ids marks = [] →
    ∃ done', Sorted adjacency.get done' ∧ (∀ id ∈ done, id ∈ done') ∧ ∀ id ∈ ids, id ∈ done' := by
  induction ids with
  | nil =>
    intro done marks hdone _
    exact ⟨done, hdone.sorted, fun _ h => h, fun _ h => nomatch h⟩
  | cons id ids ih =>
    intro done marks hdone h
    rw [detectCycles] at h
    cases hid : walk adjacency (adjacency.length + 1) id marks with
    | mk cyclic marks₁ =>
      rw [hid] at h
      dsimp only at h
      split_ifs at h with hcyclic
      rw [Bool.not_eq_true] at hcyclic
      subst hcyclic
      obtain ⟨done₁, hdone₁, hmore₁, -, hid₁⟩ := walk_continues hdone hid
      obtain ⟨done₂, hsorted, hmore₂, hids⟩ := ih hdone₁ h
      refine ⟨done₂, hsorted, fun x hx => hmore₂ x (hmore₁ x hx), ?_⟩
      intro x hx
      rcases List.mem_cons.1 hx with rfl | hx
      · exact hmore₂ x (hid₁ x List.mem_cons_self)
      · exact hids x hx

/-- The nodes not visited yet bound the depth of a walk. -/
def unvisited (adjacency : Adjacency) (marks : Marks) : ℕ :=
  adjacency.countP fun entry => !marks.visited.contains entry.1

theorem unvisited_le {marks marks' : Marks} (h : ∀ x ∈ marks.visited, x ∈ marks'.visited) :
    unvisited adjacency marks' ≤ unvisited adjacency marks := by
  refine List.countP_mono_left ?_
  intro entry _ hentry
  simp only [List.contains_eq_mem, Bool.not_eq_true', decide_eq_false_iff_not] at hentry ⊢
  exact fun hmem => hentry (h _ hmem)

theorem unvisited_lt {marks marks' : Marks} {id : String} (hid : id ∈ adjacency.map (·.1))
    (hnew : id ∉ marks.visited) (hvisited : marks'.visited = id :: marks.visited) :
    unvisited adjacency marks' < unvisited adjacency marks := by
  have hmore : ∀ x ∈ marks.visited, x ∈ marks'.visited := by
    intro x hx
    rw [hvisited]
    exact List.mem_cons_of_mem _ hx
  obtain ⟨entry, hentry, rfl⟩ := List.mem_map.1 hid
  obtain ⟨a, b, rfl⟩ := List.append_of_mem hentry
  have ha : unvisited a marks' ≤ unvisited a marks := unvisited_le hmore
  have hb : unvisited b marks' ≤ unvisited b marks := unvisited_le hmore
  have hold : (!marks.visited.contains entry.1) = true := by simpa using hnew
  have hnow : (!marks'.visited.contains entry.1) = false := by simp [hvisited]
  unfold unvisited at ha hb ⊢
  rw [List.countP_append, List.countP_append, List.countP_cons, List.countP_cons, hold, hnow]
  simp only [if_true, Bool.false_eq_true, if_false]
  omega

theorem visited_someWalk {walk : String → Marks → Bool × Marks}
    (hwalk : ∀ id marks, ∀ x ∈ marks.visited, x ∈ (walk id marks).2.visited) (ids : List String)
    (marks : Marks) : ∀ x ∈ marks.visited, x ∈ (someWalk walk ids marks).2.visited := by
  induction ids generalizing marks with
  | nil => exact fun x hx => hx
  | cons id ids ih =>
    intro x hx
    rw [someWalk]
    dsimp only
    split_ifs
    · exact hwalk id marks x hx
    · exact ih _ x (hwalk id marks x hx)

theorem visited_walk (fuel : ℕ) (id : String) (marks : Marks) :
    ∀ x ∈ marks.visited, x ∈ (walk adjacency fuel id marks).2.visited := by
  induction fuel generalizing id marks with
  | zero => exact fun x hx => hx
  | succ fuel ih =>
    intro x hx
    rw [walk]
    split_ifs
    · exact hx
    · exact hx
    · exact visited_someWalk ih _ _ x (List.mem_cons_of_mem _ hx)

/-- More depth than there are nodes not visited yet changes nothing. -/
theorem walk_fuel (hclosed : ∀ id, ∀ b ∈ adjacency.get id, b ∈ adjacency.map (·.1)) {fuel : ℕ} :
    ∀ {id : String} {marks : Marks}, id ∈ adjacency.map (·.1) →
      unvisited adjacency marks < fuel →
      walk adjacency (fuel + 1) id marks = walk adjacency fuel id marks := by
  induction fuel with
  | zero => exact fun _ h => absurd h (Nat.not_lt_zero _)
  | succ fuel ih =>
    intro id marks hid hfuel
    rw [walk, walk]
    split_ifs with hactive hvisited
    · rfl
    · rfl
    · -- the walks of the successors start with one more node visited
      have hsome : ∀ (ids : List String) (m : Marks), (∀ b ∈ ids, b ∈ adjacency.map (·.1)) →
          unvisited adjacency m < fuel →
          someWalk (walk adjacency (fuel + 1)) ids m = someWalk (walk adjacency fuel) ids m := by
        intro ids
        induction ids with
        | nil => exact fun _ _ _ => rfl
        | cons b ids ihids =>
          intro m hids hm
          rw [someWalk, someWalk, ih (hids b List.mem_cons_self) hm]
          dsimp only
          split_ifs
          · rfl
          · exact ihids _ (fun x hx => hids x (List.mem_cons_of_mem _ hx))
              (lt_of_le_of_lt (unvisited_le (visited_walk fuel b m)) hm)
      have hnew : id ∉ marks.visited := fun h => hvisited (List.contains_iff_mem.2 h)
      rw [hsome _ _ (hclosed id)]
      have hlt : unvisited adjacency ⟨id :: marks.visited, id :: marks.active⟩ <
          unvisited adjacency marks := unvisited_lt hid hnew rfl
      omega

end Cycles

/-! ## The executor's search -/

section Visit

variable {nodes : List CallNode}

/-- The nodes the node with the id comes after. -/
def successors (nodes : List CallNode) (id : String) : List String :=
  match byId nodes id with
  | none => []
  | some node => dependencies node

theorem byId_of_mem (hids : (nodes.map (·.id)).Nodup) {node : CallNode} (h : node ∈ nodes) :
    byId nodes node.id = some node := by
  unfold byId
  cases hfind : nodes.reverse.find? (·.id = node.id) with
  | none =>
    have hnone := List.find?_eq_none.1 hfind node (List.mem_reverse.2 h)
    simp at hnone
  | some node' =>
    have hid : node'.id = node.id := by simpa using List.find?_some hfind
    have hmem : node' ∈ nodes := List.mem_reverse.1 (List.mem_of_find?_eq_some hfind)
    rw [List.inj_on_of_nodup_map hids hmem h hid]

theorem mem_successors (hids : (nodes.map (·.id)).Nodup) {node : CallNode} (h : node ∈ nodes)
    {id : String} : Edge (successors nodes) node.id id ↔ After node id := by
  unfold Edge successors
  rw [byId_of_mem hids h]
  exact mem_dependencies

/-- The state of `topologicalOrder`: the ordered nodes are distinct, their ids have been visited,
and each one comes after its successors. -/
structure Sound (nodes : List CallNode) (s : Ordering) : Prop where
  visited : s.visited = s.ordered.map (·.id)
  nodup : s.visited.Nodup
  mem : ∀ node ∈ s.ordered, node ∈ nodes
  sorted : Sorted (successors nodes) s.visited

/-- What a visit of the ids does: they have been visited, and so has nothing that they do not
lead to. -/
structure Visited (nodes : List CallNode) (ids : List String) (s s' : Ordering) : Prop where
  sound : Sound nodes s'
  kept : ∀ id ∈ s.visited, id ∈ s'.visited
  visited : ∀ id ∈ ids, id ∈ s'.visited
  reached : ∀ id ∈ s'.visited, id ∈ s.visited ∨
    ∃ start ∈ ids, ReflTransGen (Edge (successors nodes)) start id

theorem Visited.nil {s : Ordering} (h : Sound nodes s) : Visited nodes [] s s := by
  refine ⟨h, fun _ h => h, ?_, fun _ h => Or.inl h⟩
  intro x hx
  cases hx

/-- A visit of one id, and then of the others. -/
theorem Visited.cons {id : String} {ids : List String} {s s₁ s₂ : Ordering}
    (h₁ : Visited nodes [id] s s₁) (h₂ : Visited nodes ids s₁ s₂) :
    Visited nodes (id :: ids) s s₂ := by
  refine ⟨h₂.sound, fun x hx => h₂.kept x (h₁.kept x hx), ?_, ?_⟩
  · intro x hx
    rcases List.mem_cons.1 hx with rfl | hx
    · exact h₂.kept _ (h₁.visited _ List.mem_cons_self)
    · exact h₂.visited x hx
  · intro x hx
    rcases h₂.reached x hx with hx | ⟨start, hstart, hreach⟩
    · rcases h₁.reached x hx with hx | ⟨start, hstart, hreach⟩
      · exact Or.inl hx
      · rw [List.mem_singleton.1 hstart] at hreach
        exact Or.inr ⟨id, List.mem_cons_self, hreach⟩
    · exact Or.inr ⟨start, List.mem_cons_of_mem _ hstart, hreach⟩

theorem visitEach_visited {α : Type} {visit : α → Ordering → Except Stop Ordering}
    (key : α → String) {l : List α}
    (hvisit : ∀ a ∈ l, ∀ s, Sound nodes s → ∃ s', visit a s = .ok s' ∧ Visited nodes [key a] s s') :
    ∀ {s : Ordering}, Sound nodes s →
      ∃ s', visitEach visit l s = .ok s' ∧ Visited nodes (l.map key) s s' := by
  induction l with
  | nil =>
    intro s hs
    exact ⟨s, rfl, Visited.nil hs⟩
  | cons a l ih =>
    intro s hs
    obtain ⟨s₁, h₁, hv₁⟩ := hvisit a List.mem_cons_self s hs
    obtain ⟨s₂, h₂, hv₂⟩ := ih (fun b hb => hvisit b (List.mem_cons_of_mem _ hb)) hv₁.sound
    exact ⟨s₂, by rw [visitEach, h₁]; exact h₂, hv₁.cons hv₂⟩

/-- What a function does on a list when it returns. -/
theorem visitEach_ok {α : Type} {visit : α → Ordering → Except Stop Ordering} (key : α → String)
    {l : List α}
    (hvisit : ∀ a ∈ l, ∀ s s', Sound nodes s → visit a s = .ok s' → Visited nodes [key a] s s') :
    ∀ {s s' : Ordering}, Sound nodes s → visitEach visit l s = .ok s' →
      Visited nodes (l.map key) s s' := by
  induction l with
  | nil =>
    intro s s' hs h
    cases h
    exact Visited.nil hs
  | cons a l ih =>
    intro s s' hs h
    rw [visitEach] at h
    split at h
    · cases h
    · next s₁ h₁ =>
      have hv₁ := hvisit a List.mem_cons_self s s₁ hs h₁
      exact hv₁.cons (ih (fun b hb => hvisit b (List.mem_cons_of_mem _ hb)) hv₁.sound h)

/-- The node is put at the end when its dependencies have been visited. -/
theorem Visited.push {s s' : Ordering} {node : CallNode}
    (h : Visited nodes (dependencies node) s s') (hids : (nodes.map (·.id)).Nodup)
    (hnode : node ∈ nodes) (hnew : node.id ∉ s'.visited) :
    Visited nodes [node.id] s
      { visited := s'.visited ++ [node.id], ordered := s'.ordered ++ [node] } := by
  have hedge : ∀ {d}, d ∈ dependencies node ↔ d ∈ successors nodes node.id := by
    intro d
    rw [mem_dependencies]
    exact (mem_successors hids hnode).symm
  refine ⟨⟨?_, ?_, ?_, ?_⟩, ?_, ?_, ?_⟩
  · simp [h.sound.visited]
  · refine List.nodup_append.2 ⟨h.sound.nodup, List.nodup_singleton _, ?_⟩
    rintro a ha b hb rfl
    exact hnew (List.mem_singleton.1 hb ▸ ha)
  · intro n hn
    rcases List.mem_append.1 hn with hn | hn
    · exact h.sound.mem n hn
    · rw [List.mem_singleton.1 hn]
      exact hnode
  · exact h.sound.sorted.snoc fun d hd => h.visited d (hedge.2 hd)
  · intro x hx
    exact List.mem_append_left _ (h.kept x hx)
  · intro x hx
    exact List.mem_append_right _ hx
  · intro x hx
    rcases List.mem_append.1 hx with hx | hx
    · rcases h.reached x hx with hx | ⟨start, hstart, hreach⟩
      · exact Or.inl hx
      · exact Or.inr ⟨node.id, List.mem_cons_self, hreach.head (hedge.1 hstart)⟩
    · exact Or.inr ⟨node.id, List.mem_cons_self, List.mem_singleton.1 hx ▸ .refl⟩

/-- Depths for the elements of a list have a common bound. -/
theorem exists_depth {α : Type} {P : α → ℕ → Prop} {l : List α}
    (h : ∀ a ∈ l, ∃ depth, ∀ fuel ≥ depth, P a fuel) :
    ∃ depth, ∀ fuel ≥ depth, ∀ a ∈ l, P a fuel := by
  induction l with
  | nil => exact ⟨0, fun _ _ a ha => nomatch ha⟩
  | cons a l ih =>
    obtain ⟨d₁, h₁⟩ := h a List.mem_cons_self
    obtain ⟨d₂, h₂⟩ := ih fun b hb => h b (List.mem_cons_of_mem _ hb)
    refine ⟨max d₁ d₂, ?_⟩
    intro fuel hfuel b hb
    rcases List.mem_cons.1 hb with rfl | hb
    · exact h₁ fuel (le_trans (le_max_left _ _) hfuel)
    · exact h₂ fuel (le_trans (le_max_right _ _) hfuel) b hb

/-- On a graph without missing nodes and cycles a visit returns, given enough depth. -/
theorem visit_visited (hids : (nodes.map (·.id)).Nodup)
    (hclosed : ∀ node ∈ nodes, ∀ id, After node id → Known nodes id)
    (hacyclic : ∀ node ∈ nodes, ¬ TransGen (Edge (successors nodes)) node.id node.id)
    {id : String} (hacc : Acc (fun b a => Edge (successors nodes) a b) id) :
    ∃ depth, ∀ fuel ≥ depth, ∀ node ∈ nodes, node.id = id → ∀ s, Sound nodes s →
      ∃ s', visit nodes fuel node s = .ok s' ∧ Visited nodes [id] s s' := by
  induction hacc with
  | intro id _ ih =>
    obtain ⟨depth, hdepth⟩ := exists_depth (l := successors nodes id) ih
    refine ⟨depth + 1, ?_⟩
    rintro fuel hfuel node hnode rfl s hs
    obtain ⟨fuel, rfl⟩ : ∃ k, fuel = k + 1 := ⟨fuel - 1, by omega⟩
    have hedge : ∀ {d}, d ∈ dependencies node ↔ d ∈ successors nodes node.id := by
      intro d
      rw [mem_dependencies]
      exact (mem_successors hids hnode).symm
    rw [visit]
    split_ifs with hvisited
    · refine ⟨s, rfl, hs, fun _ h => h, ?_, fun _ h => Or.inl h⟩
      intro x hx
      rw [List.mem_singleton.1 hx]
      exact List.contains_iff_mem.1 hvisited
    · have hnew : node.id ∉ s.visited := fun h => hvisited (List.contains_iff_mem.2 h)
      have hvisit : ∀ d ∈ dependencies node, ∀ s, Sound nodes s →
          ∃ s', visitDependency nodes (visit nodes fuel) d s = .ok s' ∧ Visited nodes [d] s s' := by
        intro d hd s hs
        obtain ⟨m, hm, rfl⟩ := hclosed node hnode d (mem_dependencies.1 hd)
        unfold visitDependency
        rw [byId_of_mem hids hm]
        exact hdepth fuel (by omega) m.id (hedge.1 hd) m hm rfl s hs
      obtain ⟨s₁, h₁, hv₁⟩ := visitEach_visited (fun d => d) hvisit hs
      rw [h₁]
      rw [List.map_id'] at hv₁
      -- the node itself is not visited on the way, since it lies on no cycle
      have hnot : node.id ∉ s₁.visited := by
        intro hmem
        rcases hv₁.reached _ hmem with h | ⟨start, hstart, hreach⟩
        · exact hnew h
        · exact hacyclic node hnode (TransGen.head' (hedge.1 hstart) hreach)
      exact ⟨_, rfl, hv₁.push hids hnode hnot⟩

/-- A visit that returns has put the node behind its dependencies. -/
theorem visit_ok (hids : (nodes.map (·.id)).Nodup) {fuel : ℕ} : ∀ {node : CallNode} {s s' : Ordering},
    node ∈ nodes → Sound nodes s → visit nodes fuel node s = .ok s' →
      Visited nodes [node.id] s s' := by
  induction fuel with
  | zero =>
    intro node s s' _ _ h
    cases h
  | succ fuel ih =>
    intro node s s' hnode hs h
    rw [visit] at h
    split_ifs at h with hvisited
    · cases h
      refine ⟨hs, fun _ h => h, ?_, fun _ h => Or.inl h⟩
      intro x hx
      rw [List.mem_singleton.1 hx]
      exact List.contains_iff_mem.1 hvisited
    · split at h
      · cases h
      · next s₁ h₁ =>
        cases h
        have hv₁ : Visited nodes (dependencies node) s s₁ := by
          rw [← List.map_id' (dependencies node)]
          refine visitEach_ok _ ?_ hs h₁
          intro d _ t t' ht h
          unfold visitDependency at h
          split at h
          · cases h
          · next m hm =>
            have hid : m.id = d := by simpa using List.find?_some hm
            exact hid ▸ ih (List.mem_reverse.1 (List.mem_of_find?_eq_some hm)) ht h
        refine hv₁.push hids hnode ?_
        -- a node visited on the way to its own end would lie on a cycle of sorted nodes
        intro hmem
        rcases hv₁.reached _ hmem with h | ⟨start, hstart, hreach⟩
        · exact hvisited (List.contains_iff_mem.2 h)
        · have hedge : Edge (successors nodes) node.id start :=
            (mem_successors hids hnode).2 (mem_dependencies.1 hstart)
          exact hv₁.sound.sorted.acyclic hmem (TransGen.head' hedge hreach)

/-- What a visit of all nodes has ordered. -/
theorem Visited.order (hids : (nodes.map (·.id)).Nodup) {s : Ordering}
    (h : Visited nodes (nodes.map (·.id)) {} s) :
    s.ordered.Perm nodes ∧ ∀ l₁ node l₂, s.ordered = l₁ ++ node :: l₂ →
      ∀ id, After node id → ∃ m ∈ l₁, m.id = id := by
  have hsound := h.sound
  constructor
  · have hnodup : s.ordered.Nodup := List.Nodup.of_map _ (hsound.visited ▸ hsound.nodup)
    refine (List.perm_ext_iff_of_nodup hnodup (List.Nodup.of_map _ hids)).2 ?_
    intro node
    refine ⟨hsound.mem node, ?_⟩
    intro hnode
    have hmem := h.visited node.id (List.mem_map_of_mem hnode)
    rw [hsound.visited] at hmem
    obtain ⟨n, hn, hid⟩ := List.mem_map.1 hmem
    rwa [← List.inj_on_of_nodup_map hids (hsound.mem n hn) hnode hid]
  · intro l₁ node l₂ hsplit id hafter
    have hnode : node ∈ nodes := hsound.mem node (by simp [hsplit])
    have hids' : s.visited = l₁.map (·.id) ++ node.id :: l₂.map (·.id) := by
      rw [hsound.visited, hsplit, List.map_append, List.map_cons]
    have hbefore := hsound.sorted _ _ _ hids' id ((mem_successors hids hnode).2 hafter)
    exact List.mem_map.1 hbefore

theorem sound_start : Sound nodes {} := by
  refine ⟨rfl, List.nodup_nil, ?_, sorted_nil⟩
  intro node hnode
  cases hnode

/-- The order that is returned is one of all nodes, each after the nodes it comes after. -/
theorem order_of_ok (hids : (nodes.map (·.id)).Nodup) {fuel : ℕ} {ordered : List CallNode}
    (h : topologicalOrder fuel nodes = .ok ordered) :
    ordered.Perm nodes ∧ ∀ l₁ node l₂, ordered = l₁ ++ node :: l₂ →
      ∀ id, After node id → ∃ m ∈ l₁, m.id = id := by
  unfold topologicalOrder at h
  cases hs : visitEach (visit nodes fuel) nodes {} with
  | error stop =>
    rw [hs] at h
    cases h
  | ok s =>
    rw [hs] at h
    cases h
    refine Visited.order hids (visitEach_ok (·.id) ?_ sound_start hs)
    intro node hnode s s' hsound h
    exact visit_ok hids hnode hsound h

/-- A function that returns where another one does gives the same on a list. -/
theorem visitEach_mono {α : Type} {visit visit' : α → Ordering → Except Stop Ordering}
    (h : ∀ {a s s'}, visit a s = .ok s' → visit' a s = .ok s') {l : List α} :
    ∀ {s s' : Ordering}, visitEach visit l s = .ok s' → visitEach visit' l s = .ok s' := by
  induction l with
  | nil => exact fun hs => hs
  | cons a l ih =>
    intro s s' hs
    rw [visitEach] at hs ⊢
    cases ha : visit a s with
    | error stop =>
      rw [ha] at hs
      cases hs
    | ok s₁ =>
      rw [ha] at hs
      rw [h ha]
      exact ih hs

/-- More depth gives the same. -/
theorem visit_mono {fuel : ℕ} : ∀ {node : CallNode} {s s' : Ordering},
    visit nodes fuel node s = .ok s' → visit nodes (fuel + 1) node s = .ok s' := by
  induction fuel with
  | zero =>
    intro node s s' h
    cases h
  | succ fuel ih =>
    intro node s s' h
    have hdependency : ∀ {d s s'}, visitDependency nodes (visit nodes fuel) d s = .ok s' →
        visitDependency nodes (visit nodes (fuel + 1)) d s = .ok s' := by
      intro d s s' hd
      unfold visitDependency at hd ⊢
      split at hd
      · cases hd
      · exact ih hd
    rw [visit] at h ⊢
    split_ifs at h ⊢
    · exact h
    · cases hdependencies : visitEach (visitDependency nodes (visit nodes fuel))
          (dependencies node) s with
      | error stop =>
        rw [hdependencies] at h
        cases h
      | ok s₁ =>
        rw [hdependencies] at h
        rw [visitEach_mono hdependency hdependencies]
        exact h

theorem topologicalOrder_mono {fuel fuel' : ℕ} (h : fuel ≤ fuel') {ordered : List CallNode}
    (hordered : topologicalOrder fuel nodes = .ok ordered) :
    topologicalOrder fuel' nodes = .ok ordered := by
  induction h with
  | refl => exact hordered
  | @step k _ ih =>
    unfold topologicalOrder at ih ⊢
    cases hl : visitEach (visit nodes k) nodes {} with
    | error stop =>
      rw [hl] at ih
      cases ih
    | ok s =>
      rw [hl] at ih
      rw [visitEach_mono visit_mono hl]
      exact ih

end Visit

/-! ## Validated graphs -/

/-- One node comes after another. -/
def DependsOn (nodes : List CallNode) (a b : String) : Prop :=
  ∃ node ∈ nodes, node.id = a ∧ After node b

/-- `topologicalOrder` returns, given enough depth, the nodes in an order in which every node comes
after the nodes of its `dependsOn` and of the references in its arguments. -/
def Orders (nodes : List CallNode) : Prop :=
  ∃ depth ordered, (∀ fuel ≥ depth, topologicalOrder fuel nodes = .ok ordered) ∧
    ordered.Perm nodes ∧ ∀ l₁ node l₂, ordered = l₁ ++ node :: l₂ →
      ∀ id, After node id → ∃ m ∈ l₁, m.id = id

/-- Every reference that the validator has not seen names a node that does not depend on the node
of the reference. -/
def UnseenSafe (isUrl : String → Bool) (nodes : List CallNode) (tools : List (String × ToolSchema)) :
    Prop :=
  ∀ node ∈ nodes, ∀ ref, RefersTo ref node.arguments → ref ∉ seen isUrl nodes tools node →
    Known nodes ref ∧ ¬ ReflTransGen (DependsOn nodes) ref node.id

section Validated

variable {isUrl : String → Bool} {nodes : List CallNode} {tools : List (String × ToolSchema)}

theorem dependsOn_eq (hids : (nodes.map (·.id)).Nodup) :
    DependsOn nodes = Edge (successors nodes) := by
  funext a b
  refine propext ⟨?_, ?_⟩
  · rintro ⟨node, hnode, rfl, hafter⟩
    exact (mem_successors hids hnode).2 hafter
  · intro h
    cases hfind : byId nodes a with
    | none =>
      unfold Edge successors at h
      rw [hfind] at h
      cases h
    | some node =>
      have hid : node.id = a := by simpa using List.find?_some hfind
      have hnode : node ∈ nodes := List.mem_reverse.1 (List.mem_of_find?_eq_some hfind)
      subst hid
      exact ⟨node, hnode, rfl, (mem_successors hids hnode).1 h⟩

/-- An order is a list of ids in post-order. -/
theorem sorted_of_orders (hids : (nodes.map (·.id)).Nodup) {ordered : List CallNode}
    (hperm : ordered.Perm nodes) (hafter : ∀ l₁ node l₂, ordered = l₁ ++ node :: l₂ →
      ∀ id, After node id → ∃ m ∈ l₁, m.id = id) :
    Sorted (successors nodes) (ordered.map (·.id)) := by
  intro l₁ a l₂ hsplit b hb
  obtain ⟨k₁, k₂, rfl, rfl, htail⟩ := List.map_eq_append_iff.1 hsplit
  obtain ⟨node, k₃, rfl, rfl, rfl⟩ := List.map_eq_cons_iff.1 htail
  have hnode : node ∈ nodes := hperm.subset (by simp)
  obtain ⟨m, hm, rfl⟩ := hafter k₁ node k₃ rfl b ((mem_successors hids hnode).1 hb)
  exact List.mem_map_of_mem hm

theorem unseenSafe_of_orders (hids : (nodes.map (·.id)).Nodup) (h : Orders nodes) :
    UnseenSafe isUrl nodes tools := by
  obtain ⟨depth, ordered, -, hperm, hafter⟩ := h
  have hsorted := sorted_of_orders hids hperm hafter
  intro node hnode ref hrefers _
  have hmem : node ∈ ordered := hperm.symm.subset hnode
  refine ⟨?_, ?_⟩
  · obtain ⟨l₁, l₂, rfl⟩ := List.append_of_mem hmem
    obtain ⟨m, hm, hid⟩ := hafter l₁ node l₂ rfl ref (Or.inr hrefers)
    exact ⟨m, hperm.subset (List.mem_append_left _ hm), hid⟩
  · intro hreach
    rw [dependsOn_eq hids] at hreach
    have hfirst : Edge (successors nodes) node.id ref := (mem_successors hids hnode).2 (Or.inr hrefers)
    exact hsorted.acyclic (List.mem_map_of_mem hmem) (TransGen.head' hfirst hreach)

theorem get_seenAdjacency {l : List CallNode} (hids : (l.map (·.id)).Nodup) {node : CallNode}
    (h : node ∈ l) :
    (seenAdjacency isUrl nodes tools l).get node.id = seen isUrl nodes tools node := by
  obtain ⟨l₁, l₂, rfl⟩ := List.append_of_mem h
  unfold seenAdjacency
  rw [List.map_append, List.map_cons]
  refine Adjacency.get_append ?_
  intro entry hentry hid
  obtain ⟨n, hn, rfl⟩ := List.mem_map.1 hentry
  rw [List.map_append, List.nodup_append] at hids
  exact hids.2.2 n.id (List.mem_map_of_mem hn) node.id (by simp) hid

/-- A way between two nodes is one the validator has seen, or goes over an unseen reference. -/
theorem seen_or_unseen (hchecked : Checked isUrl nodes tools) {a b : String}
    (h : TransGen (DependsOn nodes) a b) :
    TransGen (Edge (seenAdjacency isUrl nodes tools nodes).get) a b ∨
      ∃ node ∈ nodes, ∃ ref, RefersTo ref node.arguments ∧ ref ∉ seen isUrl nodes tools node ∧
        ReflTransGen (DependsOn nodes) a node.id ∧ ReflTransGen (DependsOn nodes) ref b := by
  have hedge : ∀ {c d}, DependsOn nodes c d →
      Edge (seenAdjacency isUrl nodes tools nodes).get c d ∨ ∃ node ∈ nodes, node.id = c ∧
        RefersTo d node.arguments ∧ d ∉ seen isUrl nodes tools node := by
    rintro c d ⟨node, hnode, rfl, hafter⟩
    by_cases hseen : d ∈ seen isUrl nodes tools node
    · left
      unfold Edge
      rwa [get_seenAdjacency hchecked.ids hnode]
    · right
      rcases hafter with hdepends | hrefers
      · exact absurd (seen_of_dependsOn isUrl nodes tools (hchecked.clean node hnode) hdepends) hseen
      · exact ⟨node, hnode, rfl, hrefers, hseen⟩
  induction h with
  | single hab =>
    rcases hedge hab with h | ⟨node, hnode, rfl, hrefers, hunseen⟩
    · exact Or.inl (.single h)
    · exact Or.inr ⟨node, hnode, _, hrefers, hunseen, .refl, .refl⟩
  | tail hway hbc ih =>
    rcases ih with ih | ⟨node, hnode, ref, hrefers, hunseen, hbefore, hbehind⟩
    · rcases hedge hbc with h | ⟨node, hnode, rfl, hrefers, hunseen⟩
      · exact Or.inl (ih.tail h)
      · exact Or.inr ⟨node, hnode, _, hrefers, hunseen, hway.to_reflTransGen, .refl⟩
    · exact Or.inr ⟨node, hnode, ref, hrefers, hunseen, hbefore, hbehind.tail hbc⟩

theorem known_of_after (hchecked : Checked isUrl nodes tools)
    (hsafe : UnseenSafe isUrl nodes tools) {node : CallNode} (hnode : node ∈ nodes) {id : String}
    (hafter : After node id) : Known nodes id := by
  by_cases hseen : id ∈ seen isUrl nodes tools node
  · exact known_of_seen isUrl nodes tools hseen
  · rcases hafter with hdepends | hrefers
    · exact absurd (seen_of_dependsOn isUrl nodes tools (hchecked.clean node hnode) hdepends) hseen
    · exact (hsafe node hnode id hrefers hseen).1

theorem acyclic_of_safe (hchecked : Checked isUrl nodes tools)
    (hsafe : UnseenSafe isUrl nodes tools) {node : CallNode} (hnode : node ∈ nodes) :
    ¬ TransGen (DependsOn nodes) node.id node.id := by
  intro hcycle
  rcases seen_or_unseen hchecked hcycle with h | ⟨n, hn, ref, hrefers, hunseen, hbefore, hbehind⟩
  · have hstart : Finished (seenAdjacency isUrl nodes tools nodes) [] {} :=
      ⟨sorted_nil, fun _ h => (nomatch h)⟩
    obtain ⟨done, hsorted, -, hids⟩ := sorted_of_detectCycles hstart hchecked.cycles
    exact hsorted.acyclic (hids node.id (List.mem_map_of_mem hnode)) h
  · exact (hsafe n hn ref hrefers hunseen).2 (hbehind.trans hbefore)

theorem orders_of_safe (hchecked : Checked isUrl nodes tools)
    (hsafe : UnseenSafe isUrl nodes tools) : Orders nodes := by
  have hids := hchecked.ids
  have hclosed : ∀ node ∈ nodes, ∀ id, After node id → Known nodes id :=
    fun node hnode id hafter => known_of_after hchecked hsafe hnode hafter
  have hacyclic : ∀ node ∈ nodes, ¬ TransGen (Edge (successors nodes)) node.id node.id := by
    intro node hnode
    rw [← dependsOn_eq hids]
    exact acyclic_of_safe hchecked hsafe hnode
  have hacc : ∀ node ∈ nodes, Acc (fun b a => Edge (successors nodes) a b) node.id := by
    intro node hnode
    refine acc_of_acyclic (l := nodes.map (·.id)) ?_ ?_ (List.mem_map_of_mem hnode)
    · intro a ha b hb
      obtain ⟨n, hn, rfl⟩ := List.mem_map.1 ha
      obtain ⟨m, hm, rfl⟩ := hclosed n hn b ((mem_successors hids hn).1 hb)
      exact List.mem_map_of_mem hm
    · intro a ha
      obtain ⟨n, hn, rfl⟩ := List.mem_map.1 ha
      exact hacyclic n hn
  obtain ⟨depth, hdepth⟩ := exists_depth (l := nodes) fun node hnode =>
    visit_visited hids hclosed hacyclic (hacc node hnode)
  obtain ⟨s, hs, hvisited⟩ := visitEach_visited (·.id)
    (fun node hnode s hs => hdepth depth (le_refl _) node hnode node hnode rfl s hs) sound_start
  have hordered : topologicalOrder depth nodes = .ok s.ordered := by
    unfold topologicalOrder
    rw [hs]
    rfl
  exact ⟨depth, s.ordered, fun fuel hfuel => topologicalOrder_mono hfuel hordered,
    hvisited.order hids⟩

/-- **A validated graph is ordered exactly when its unseen references are safe.** -/
theorem orders_iff_unseenSafe (isUrl : String → Bool) (graph : Json)
    (tools : List (String × ToolSchema))
    (hvalid : (validateCallGraph isUrl graph tools).valid = true) :
    Orders (graphNodes graph) ↔ UnseenSafe isUrl (graphNodes graph) tools := by
  have hchecked := checked_of_valid hvalid
  constructor
  · exact unseenSafe_of_orders hchecked.ids
  · exact orders_of_safe hchecked

end Validated

/-- A tool that takes any object. -/
def openTools : List (String × ToolSchema) := [("work", { input := { type := some .object } })]

/-- The node `b` refers to the node `a` from a place that has no schema. -/
def unseenReference : Json :=
  .obj [("nodes", .arr [
    .obj [("id", .str "b"), ("tool", .str "work"),
      ("arguments", .obj [("argument", .obj [("$ref", .str "a")])])],
    .obj [("id", .str "a"), ("tool", .str "work"), ("arguments", .obj [])]])]

/-- The validator does not see the reference, and the executor orders the nodes by it. -/
theorem orders_iff_unseenSafe_open :
    (∃ node ∈ graphNodes unseenReference, node.id = "b" ∧ RefersTo "a" node.arguments ∧
      "a" ∉ seen (fun _ => true) (graphNodes unseenReference) openTools node) ∧
    Orders (graphNodes unseenReference) := by
  have hnodes : graphNodes unseenReference =
      [⟨"b", "work", .obj [("argument", .obj [("$ref", .str "a")])], []⟩,
        ⟨"a", "work", .obj [], []⟩] := by decide +kernel
  refine ⟨⟨_, hnodes ▸ List.mem_cons_self, rfl, .field List.mem_cons_self (.here rfl),
    by decide +kernel⟩, ?_⟩
  refine (orders_iff_unseenSafe (fun _ => true) unseenReference openTools (by decide +kernel)).2 ?_
  have honly : ∀ node ∈ graphNodes unseenReference, ∀ id ∈ dependencies node,
      node.id = "b" ∧ id = "a" := by decide +kernel
  intro node hnode ref href _
  obtain ⟨hid, rfl⟩ := honly node hnode ref (mem_dependencies.2 (.inr href))
  refine ⟨⟨_, hnodes ▸ List.mem_cons_of_mem _ List.mem_cons_self, rfl⟩, ?_⟩
  -- nothing comes before the node `a`
  intro hpath
  rcases ReflTransGen.cases_head hpath with heq | ⟨id, ⟨m, hm, hmid, hafter⟩, -⟩
  · rw [hid] at heq
    exact absurd heq (by decide)
  · obtain ⟨hmb, -⟩ := honly m hm id (mem_dependencies.2 hafter)
    exact absurd (hmid.symm.trans hmb) (by decide)

/-- A graph of one node whose only argument has no schema. -/
def openGraph (argument : Json) : Json :=
  .obj [("nodes", .arr [.obj [("id", .str "a"), ("tool", .str "work"),
    ("arguments", .obj [("argument", argument)])]])]

/-- A reference below a property without a schema is not seen, and names a missing node. -/
theorem missing_node_not_ordered :
    (validateCallGraph (fun _ => true) (openGraph (.obj [("$ref", .str "missing")]))
        openTools).valid = true ∧
      ¬ Orders (graphNodes (openGraph (.obj [("$ref", .str "missing")]))) := by
  refine ⟨by decide +kernel, ?_⟩
  intro horders
  have hvalid : (validateCallGraph (fun _ => true) (openGraph (.obj [("$ref", .str "missing")]))
      openTools).valid = true := by decide +kernel
  have hsafe : UnseenSafe (fun _ => true)
      (graphNodes (openGraph (.obj [("$ref", .str "missing")]))) openTools :=
    unseenSafe_of_orders (checked_of_valid hvalid).ids horders
  have hnode : (⟨"a", "work", .obj [("argument", .obj [("$ref", .str "missing")])], []⟩ : CallNode) ∈
      graphNodes (openGraph (.obj [("$ref", .str "missing")])) := by decide +kernel
  obtain ⟨⟨m, hm, hid⟩, -⟩ := hsafe _ hnode "missing" (.field List.mem_cons_self (.here rfl))
    (by decide +kernel)
  have hnone : ∀ m ∈ graphNodes (openGraph (.obj [("$ref", .str "missing")])), m.id ≠ "missing" := by
    decide +kernel
  exact hnone m hm hid

end AgentOrchestrator.Calls
