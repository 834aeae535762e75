import AgentOrchestrator.Calls.Order

/-!
# The search for cycles is exact

`validateCallGraph` searches the nodes for cycles of the relation that the known entries of
`dependsOn` and the references it reaches along the schemas form.  The search stops at the first
successor from which it meets an active node, and a node is visited once; still it reports a node
exactly when there is a cycle.  As no other check depends on the order of the nodes, neither does
the verdict.
-/

namespace AgentOrchestrator.Calls

open Relation PostOrder

/-! ## References along a schema -/

/-- A reference to the node stands in the value where the schema leads to it. -/
inductive Reached (ref : String) : Json → JsonSchema → Prop where
  | here {value : Json} {schema : JsonSchema} (h : reference? value = some ref) :
      Reached ref value schema
  | field {fields : List (String × Json)} {schema childSchema : JsonSchema} {key : String}
      {child : Json} (hnone : reference? (.obj fields) = none)
      (htype : schema.type = some .object) (hmem : (key, child) ∈ fields)
      (hschema : schema.properties.lookup key = some childSchema)
      (hchild : Reached ref child childSchema) : Reached ref (.obj fields) schema
  | item {items : List Json} {schema itemSchema : JsonSchema} {child : Json}
      (htype : schema.type = some .array) (hschema : schema.items = some itemSchema)
      (hmem : child ∈ items) (hchild : Reached ref child itemSchema) :
      Reached ref (.arr items) schema

/-- The node with the first id depends on the one with the second. -/
def Follows (nodes : List CallNode) (tools : List (String × ToolSchema)) (a b : String) : Prop :=
  ∃ node ∈ nodes, node.id = a ∧ Known nodes b ∧ (b ∈ node.dependsOn ∨
    ∃ tool, tools.lookup node.tool = some tool ∧ Reached b node.arguments tool.input)

/-- The check adds the known ids that satisfy the predicate, and it reports no cycle. -/
structure Check.Sees (nodes : List CallNode) (P : String → Prop) (check : Check) : Prop where
  mem : ∀ dependencies id, id ∈ (check dependencies).1 ↔
    id ∈ dependencies ∨ Known nodes id ∧ P id
  silent : ∀ dependencies, ∀ d ∈ (check dependencies).2, d.id ≠ .CFV005

namespace Check

variable {nodes : List CallNode} {P Q : String → Prop} {a b : Check}

theorem sees_ok : Sees nodes (fun _ => False) ok := by
  constructor
  · intro dependencies id
    simp [ok]
  · intro dependencies d hd
    cases hd

theorem sees_report {d : ValidationDiagnostic} (h : d.id ≠ .CFV005) :
    Sees nodes (fun _ => False) (report d) := by
  constructor
  · intro dependencies id
    simp [report]
  · intro dependencies d' hd'
    rw [List.mem_singleton.1 hd']
    exact h

theorem Sees.congr (h : Sees nodes P a) (hiff : ∀ id, P id ↔ Q id) : Sees nodes Q a :=
  ⟨fun dependencies id => (h.mem dependencies id).trans (by rw [hiff id]), h.silent⟩

theorem Sees.andThen (ha : Sees nodes P a) (hb : Sees nodes Q b) :
    Sees nodes (fun id => P id ∨ Q id) (a.andThen b) := by
  constructor
  · intro dependencies id
    have hboth := hb.mem (a dependencies).1 id
    rw [ha.mem dependencies id] at hboth
    show id ∈ (b (a dependencies).1).1 ↔ _
    rw [hboth, or_assoc, ← and_or_left]
  · intro dependencies d hd
    rcases List.mem_append.1 hd with hd | hd
    · exact ha.silent _ d hd
    · exact hb.silent _ d hd

theorem sees_forEach {α : Type} {check : α → Check} {P : α → String → Prop}
    (h : ∀ a, Sees nodes (P a) (check a)) (l : List α) :
    Sees nodes (fun id => ∃ a ∈ l, P a id) (forEach check l) := by
  induction l with
  | nil => exact sees_ok.congr (by simp)
  | cons a l ih => exact ((h a).andThen ih).congr (by simp)

end Check

section Value

variable (isUrl : String → Bool) (nodes : List CallNode) (tools : List (String × ToolSchema))
  (nodeId : String)

theorem sees_validateReference (ref : String) (schema : JsonSchema) (path : String) :
    Check.Sees nodes (fun id => id = ref)
      (validateReference nodes tools nodeId ref schema path) := by
  unfold validateReference
  cases hfind : nodes.find? (·.id = ref) with
  | none =>
    refine ⟨?_, (@Check.sees_report nodes _ (by simp)).silent⟩
    intro dependencies id
    have hunknown : ¬ (Known nodes id ∧ id = ref) := by
      rintro ⟨⟨node, hnode, hid⟩, rfl⟩
      exact List.find?_eq_none.1 hfind node hnode (decide_eq_true hid)
    simp [Check.report, hunknown]
  | some source =>
    have hknown : Known nodes ref :=
      ⟨source, List.mem_of_find?_eq_some hfind, by simpa using List.find?_some hfind⟩
    constructor
    · intro dependencies id
      rw [mem_addTo]
      refine or_congr_right ⟨?_, fun h => h.2⟩
      rintro rfl
      exact ⟨hknown, rfl⟩
    · intro dependencies d hd
      rcases List.mem_append.1 hd with hd | hd
      · split_ifs at hd
        · cases hd
        · rw [List.mem_singleton.1 hd]
          simp
      · split at hd
        · split_ifs at hd
          · cases hd
          · rw [List.mem_singleton.1 hd]
            simp
        · rw [List.mem_singleton.1 hd]
          simp

theorem sees_checkEnum (value : Json) (schema : JsonSchema) (path : String) :
    Check.Sees nodes (fun _ => False) (checkEnum nodeId value schema path) := by
  unfold checkEnum
  split
  · exact Check.sees_ok
  · split_ifs
    · exact Check.sees_ok
    · exact Check.sees_report (by simp)

theorem sees_checkFormat (value : Json) (schema : JsonSchema) (path : String) :
    Check.Sees nodes (fun _ => False) (checkFormat isUrl nodeId value schema path) := by
  unfold checkFormat
  split
  · split_ifs
    · exact Check.sees_ok
    · exact Check.sees_report (by simp)
  · exact Check.sees_ok

theorem sees_checkRequired (fields : List (String × Json)) (schema : JsonSchema)
    (path : String) :
    Check.Sees nodes (fun _ => False) (checkRequired nodeId fields schema path) := by
  have heach : ∀ required : String, Check.Sees nodes (fun _ => False)
      (if hasKey required fields then .ok
        else .report { id := .CFV102, nodeId := nodeId, path := path ++ "." ++ required
                       message := "required field is missing" }) := by
    intro required
    split_ifs
    · exact Check.sees_ok
    · exact Check.sees_report (by simp)
  exact (Check.sees_forEach heach schema.required).congr (by simp)

/-- A value that is no reference: what is reached in it is what the walk into it sees. -/
theorem sees_validateValue_of {value : Json} {schema : JsonSchema} (path : String)
    {P : String → Prop} (hnone : reference? value = none)
    (htype : ∀ id, P id → matchesType value schema.type = true)
    (h : Check.Sees nodes P (validateChildren isUrl nodes tools nodeId value schema path)) :
    Check.Sees nodes P (validateValue isUrl nodes tools nodeId value schema path) := by
  rw [validateValue_eq, hnone]
  dsimp only
  split_ifs with hmismatch
  · refine (Check.sees_report (by simp)).congr ?_
    intro id
    rw [false_iff]
    intro hid
    rw [htype id hid] at hmismatch
    cases hmismatch
  · exact (((sees_checkEnum nodes nodeId value schema path).andThen
      (sees_checkFormat isUrl nodes nodeId value schema path)).andThen h).congr (by simp)

theorem reached_reference {value : Json} {schema : JsonSchema} {ref id : String}
    (h : reference? value = some ref) : Reached id value schema ↔ id = ref := by
  constructor
  · intro hreached
    cases hreached with
    | here h' => exact Option.some.inj (h'.symm.trans h)
    | field hnone => cases hnone.symm.trans h
    | item => cases h
  · rintro rfl
    exact .here h

theorem reached_scalar {value : Json} {schema : JsonSchema} {id : String}
    (hnone : reference? value = none) (hobj : ∀ fields, value ≠ .obj fields)
    (harr : ∀ items, value ≠ .arr items) : ¬ Reached id value schema := by
  intro hreached
  cases hreached with
  | here h => cases h.symm.trans hnone
  | field => exact hobj _ rfl
  | item => exact harr _ rfl

theorem reached_obj {fields : List (String × Json)} {schema : JsonSchema} {id : String}
    (hnone : reference? (.obj fields) = none) :
    Reached id (.obj fields) schema ↔ schema.type = some .object ∧
      ∃ field ∈ fields, ∃ childSchema, schema.properties.lookup field.1 = some childSchema ∧
        Reached id field.2 childSchema := by
  constructor
  · intro hreached
    cases hreached with
    | here h => cases h.symm.trans hnone
    | field _ htype hmem hschema hchild => exact ⟨htype, _, hmem, _, hschema, hchild⟩
  · rintro ⟨htype, ⟨key, child⟩, hmem, childSchema, hschema, hchild⟩
    exact .field hnone htype hmem hschema hchild

theorem reached_arr {items : List Json} {schema : JsonSchema} {id : String} :
    Reached id (.arr items) schema ↔ schema.type = some .array ∧
      ∃ itemSchema, schema.items = some itemSchema ∧ ∃ child ∈ items,
        Reached id child itemSchema := by
  constructor
  · intro hreached
    cases hreached with
    | here h => cases h
    | item htype hschema hmem hchild => exact ⟨htype, _, hschema, _, hmem, hchild⟩
  · rintro ⟨htype, itemSchema, hschema, child, hmem, hchild⟩
    exact .item htype hschema hmem hchild

theorem sees_scalar (value : Json) (schema : JsonSchema) (path : String)
    (hnone : reference? value = none) (hobj : ∀ fields, value ≠ .obj fields)
    (harr : ∀ items, value ≠ .arr items)
    (hchildren : validateChildren isUrl nodes tools nodeId value schema path = .ok) :
    Check.Sees nodes (fun id => Reached id value schema)
      (validateValue isUrl nodes tools nodeId value schema path) := by
  have hunreached : ∀ id, ¬ Reached id value schema := fun id => reached_scalar hnone hobj harr
  refine sees_validateValue_of isUrl nodes tools nodeId path hnone
    (fun id hid => absurd hid (hunreached id)) ?_
  rw [hchildren]
  exact Check.sees_ok.congr (by simp [hunreached])

mutual

/-- `validateValue` adds exactly the known references that the schema leads to. -/
theorem sees_validateValue : ∀ (value : Json) (schema : JsonSchema) (path : String),
    Check.Sees nodes (fun id => Reached id value schema)
      (validateValue isUrl nodes tools nodeId value schema path)
  | .null, schema, path =>
    sees_scalar isUrl nodes tools nodeId .null schema path rfl (by simp) (by simp) rfl
  | .bool b, schema, path =>
    sees_scalar isUrl nodes tools nodeId (.bool b) schema path rfl (by simp) (by simp) rfl
  | .num n, schema, path =>
    sees_scalar isUrl nodes tools nodeId (.num n) schema path rfl (by simp) (by simp) rfl
  | .str s, schema, path =>
    sees_scalar isUrl nodes tools nodeId (.str s) schema path rfl (by simp) (by simp) rfl
  | .arr items, schema, path => by
    refine sees_validateValue_of isUrl nodes tools nodeId path rfl ?_ ?_
    · intro id hreached
      rw [(reached_arr.1 hreached).1]
      rfl
    · unfold validateChildren
      cases hitems : schema.items with
      | none => exact Check.sees_ok.congr (by simp [reached_arr, hitems])
      | some itemSchema =>
        dsimp only
        split_ifs with htype
        · exact (sees_validateItems items itemSchema path 0).congr
            (by simp [reached_arr, hitems, htype])
        · exact Check.sees_ok.congr (by simp [reached_arr, htype])
  | .obj fields, schema, path => by
    cases href : reference? (.obj fields) with
    | some ref =>
      rw [validateValue_eq, href]
      exact (sees_validateReference nodes tools nodeId ref schema path).congr
        fun id => (reached_reference href).symm
    | none =>
      refine sees_validateValue_of isUrl nodes tools nodeId path href ?_ ?_
      · intro id hreached
        rw [((reached_obj href).1 hreached).1]
        rfl
      · unfold validateChildren
        dsimp only
        split_ifs with htype
        · exact ((sees_checkRequired nodes nodeId fields schema path).andThen
            (sees_validateFields fields schema path)).congr (by simp [reached_obj href, htype])
        · exact Check.sees_ok.congr (by simp [reached_obj href, htype])

theorem sees_validateFields : ∀ (fields : List (String × Json)) (schema : JsonSchema)
    (path : String), Check.Sees nodes (fun id => ∃ field ∈ fields, ∃ childSchema,
        schema.properties.lookup field.1 = some childSchema ∧ Reached id field.2 childSchema)
      (validateFields isUrl nodes tools nodeId fields schema path)
  | [], _, _ => Check.sees_ok.congr (by simp)
  | (key, child) :: fields, schema, path => by
    rw [validateFields]
    cases hschema : schema.properties.lookup key with
    | some childSchema =>
      exact ((sees_validateValue child childSchema (path ++ "." ++ key)).andThen
        (sees_validateFields fields schema path)).congr (by simp [hschema])
    | none =>
      dsimp only
      split_ifs
      · exact ((Check.sees_report (by simp)).andThen
          (sees_validateFields fields schema path)).congr (by simp [hschema])
      · exact (Check.sees_ok.andThen
          (sees_validateFields fields schema path)).congr (by simp [hschema])

theorem sees_validateItems : ∀ (items : List Json) (schema : JsonSchema) (path : String)
    (index : ℕ), Check.Sees nodes (fun id => ∃ child ∈ items, Reached id child schema)
      (validateItems isUrl nodes tools nodeId items schema path index)
  | [], _, _, _ => Check.sees_ok.congr (by simp)
  | child :: items, schema, path, index => by
    rw [validateItems]
    exact ((sees_validateValue child schema _).andThen
      (sees_validateItems items schema path (index + 1))).congr (by simp)

end

theorem sees_checkDependency (node : CallNode) (dependency : String) :
    Check.Sees nodes (fun id => id = dependency) (checkDependency nodes node dependency) := by
  unfold checkDependency
  have hknown : nodes.any (·.id = dependency) = true ↔ Known nodes dependency := by simp [Known]
  constructor
  · intro dependencies id
    split_ifs with h
    · rw [mem_addTo]
      refine or_congr_right ⟨?_, fun h => h.2⟩
      rintro rfl
      exact ⟨hknown.1 h, rfl⟩
    · refine (or_iff_left ?_).symm
      rintro ⟨hid, rfl⟩
      exact h (hknown.2 hid)
  · intro dependencies d hd
    split_ifs at hd
    · cases hd
    · rw [List.mem_singleton.1 hd]
      simp

theorem sees_checkNode (node : CallNode) :
    Check.Sees nodes (fun id => id ∈ node.dependsOn ∨
        ∃ tool, tools.lookup node.tool = some tool ∧ Reached id node.arguments tool.input)
      (checkNode isUrl nodes tools node) := by
  have hdeclared := Check.sees_forEach (sees_checkDependency nodes node) node.dependsOn
  have harguments : Check.Sees nodes (fun id => ∃ tool, tools.lookup node.tool = some tool ∧
      Reached id node.arguments tool.input) (checkArguments isUrl nodes tools node) := by
    unfold checkArguments
    cases htool : tools.lookup node.tool with
    | none => exact (Check.sees_report (by simp)).congr (by simp)
    | some tool =>
      exact (sees_validateValue isUrl nodes tools node.id node.arguments tool.input _).congr
        (by simp)
  exact (hdeclared.andThen harguments).congr (by simp)

end Value

section Graph

variable {isUrl : String → Bool} {nodes : List CallNode} {tools : List (String × ToolSchema)}

/-- The adjacency that the search walks is the relation. -/
theorem edge_seenAdjacency (hids : (nodes.map (·.id)).Nodup) {a b : String} :
    Edge (seenAdjacency isUrl nodes tools nodes).get a b ↔ Follows nodes tools a b := by
  have hseen : ∀ node ∈ nodes, (seenAdjacency isUrl nodes tools nodes).get node.id =
      seen isUrl nodes tools node := by
    intro node hnode
    obtain ⟨before, after, rfl⟩ := List.append_of_mem hnode
    rw [List.map_append, List.map_cons] at hids
    simp only [seenAdjacency, List.map_append, List.map_cons]
    refine Adjacency.get_append ?_
    intro entry hentry hid
    obtain ⟨other, hother, rfl⟩ := List.mem_map.1 hentry
    exact (List.nodup_append.1 hids).2.2 other.id (List.mem_map_of_mem hother) node.id
      List.mem_cons_self hid
  have hmem : ∀ node, b ∈ seen isUrl nodes tools node ↔ Known nodes b ∧ (b ∈ node.dependsOn ∨
      ∃ tool, tools.lookup node.tool = some tool ∧ Reached b node.arguments tool.input) := by
    intro node
    unfold seen
    rw [(sees_checkNode isUrl nodes tools node).mem]
    simp
  unfold Edge
  constructor
  · intro h
    -- only an id of a node has successors
    have hkey : ∃ node ∈ nodes, node.id = a := by
      by_contra hnone
      have hlookup : (seenAdjacency isUrl nodes tools nodes).lookup a = none := by
        rw [List.lookup_eq_none_iff]
        intro entry hentry
        obtain ⟨node, hnode, rfl⟩ := List.mem_map.1 hentry
        exact bne_iff_ne.2 fun hid => hnone ⟨node, hnode, hid.symm⟩
      rw [Adjacency.get, hlookup] at h
      cases h
    obtain ⟨node, hnode, rfl⟩ := hkey
    rw [hseen node hnode] at h
    exact ⟨node, hnode, rfl, (hmem node).1 h⟩
  · rintro ⟨node, hnode, rfl, h⟩
    rw [hseen node hnode]
    exact (hmem node).2 h

/-! ## The search -/

variable {adjacency : Adjacency}

theorem active_someWalk {walk : String → Marks → Bool × Marks}
    (hwalk : ∀ id marks, (walk id marks).2.active = marks.active) (ids : List String)
    (marks : Marks) : (someWalk walk ids marks).2.active = marks.active := by
  induction ids generalizing marks with
  | nil => rfl
  | cons id ids ih =>
    rw [someWalk]
    dsimp only
    split_ifs
    · exact hwalk id marks
    · exact (ih _).trans (hwalk id marks)

/-- A walk leaves the active nodes as they were. -/
theorem active_walk (fuel : ℕ) (id : String) (marks : Marks) :
    (walk adjacency fuel id marks).2.active = marks.active := by
  induction fuel generalizing id marks with
  | zero => rfl
  | succ fuel ih =>
    rw [walk]
    split_ifs
    · rfl
    · rfl
    · dsimp only
      rw [active_someWalk ih]
      exact List.erase_cons_head id marks.active

/-- `some` is true: a walk of one of the nodes is, with the active nodes from before it. -/
theorem exists_of_someWalk {walk : String → Marks → Bool × Marks}
    (hactive : ∀ id marks, (walk id marks).2.active = marks.active)
    (hvisited : ∀ id marks, ∀ x ∈ marks.visited, x ∈ (walk id marks).2.visited)
    {ids : List String} {marks : Marks} (h : (someWalk walk ids marks).1 = true) :
    ∃ id ∈ ids, ∃ marks', marks'.active = marks.active ∧
      (∀ x ∈ marks.visited, x ∈ marks'.visited) ∧ (walk id marks').1 = true := by
  induction ids generalizing marks with
  | nil => cases h
  | cons id ids ih =>
    rw [someWalk] at h
    dsimp only at h
    split_ifs at h with hcyclic
    · exact ⟨id, List.mem_cons_self, marks, rfl, fun _ hx => hx, hcyclic⟩
    · obtain ⟨id', hid', marks', hactive', hvisited', h'⟩ := ih h
      exact ⟨id', List.mem_cons_of_mem _ hid', marks', hactive'.trans (hactive id marks),
        fun x hx => hvisited' x (hvisited id marks x hx), h'⟩

/-- A walk that reports a cycle has met one, as every active node leads to the node it is at. -/
theorem cycle_of_walk (hclosed : ∀ id, ∀ b ∈ adjacency.get id, b ∈ adjacency.map (·.1))
    {fuel : ℕ} : ∀ {id : String} {marks : Marks}, id ∈ adjacency.map (·.1) →
    unvisited adjacency marks < fuel →
    (∀ a ∈ marks.active, TransGen (Edge adjacency.get) a id) →
    (walk adjacency fuel id marks).1 = true → ∃ a, TransGen (Edge adjacency.get) a a := by
  induction fuel with
  | zero => exact fun _ h => absurd h (Nat.not_lt_zero _)
  | succ fuel ih =>
    intro id marks hid hfuel hleads h
    rw [walk] at h
    split_ifs at h with hactive hvisited
    · exact ⟨id, hleads id (List.contains_iff_mem.1 hactive)⟩
    · dsimp only at h
      obtain ⟨b, hb, marks', hactive', hvisited', hcyclic⟩ :=
        exists_of_someWalk (active_walk fuel) (visited_walk fuel) h
      have hnew : id ∉ marks.visited := fun hmem => hvisited (List.contains_iff_mem.2 hmem)
      have hlt : unvisited adjacency ⟨id :: marks.visited, id :: marks.active⟩ <
          unvisited adjacency marks := unvisited_lt hid hnew rfl
      have hle : unvisited adjacency marks' ≤
          unvisited adjacency ⟨id :: marks.visited, id :: marks.active⟩ := unvisited_le hvisited'
      refine ih (hclosed id b hb) (by omega) ?_ hcyclic
      intro a ha
      rw [hactive'] at ha
      rcases List.mem_cons.1 ha with rfl | ha
      · exact TransGen.single hb
      · exact (hleads a ha).tail hb

theorem cycle_of_detectCycles
    (hclosed : ∀ id, ∀ b ∈ adjacency.get id, b ∈ adjacency.map (·.1)) {ids : List String}
    {marks : Marks} (hids : ids ⊆ adjacency.map (·.1)) (hactive : marks.active = [])
    (h : detectCycles adjacency ids marks ≠ []) : ∃ a, TransGen (Edge adjacency.get) a a := by
  induction ids generalizing marks with
  | nil => exact absurd rfl h
  | cons id ids ih =>
    rw [detectCycles] at h
    dsimp only at h
    split_ifs at h with hcyclic
    · refine cycle_of_walk hclosed (hids List.mem_cons_self) ?_ ?_ hcyclic
      · exact Nat.lt_succ_of_le List.countP_le_length
      · rw [hactive]
        exact fun a ha => absurd ha List.not_mem_nil
    · exact ih (fun x hx => hids (List.mem_cons_of_mem _ hx))
        ((active_walk _ id marks).trans hactive) h

/-- The search reports a node exactly when there is a cycle. -/
theorem detectCycles_ne_nil_iff
    (hclosed : ∀ id, ∀ b ∈ adjacency.get id, b ∈ adjacency.map (·.1)) :
    detectCycles adjacency (adjacency.map (·.1)) {} ≠ [] ↔
      ∃ a, TransGen (Edge adjacency.get) a a := by
  refine ⟨cycle_of_detectCycles hclosed (List.Subset.refl _) rfl, ?_⟩
  rintro ⟨a, hcycle⟩ hnone
  have hstart : Finished adjacency [] {} := ⟨sorted_nil, fun _ h => absurd h List.not_mem_nil⟩
  obtain ⟨done, hsorted, -, hdone⟩ := sorted_of_detectCycles hstart hnone
  have hkey : a ∈ adjacency.map (·.1) := by
    cases hcycle with
    | single h => exact hclosed a a h
    | tail _ h => exact hclosed _ a h
  exact hsorted.acyclic (hdone a hkey) hcycle

/-! ## The order of the nodes -/

/-- Among nodes with distinct ids, the one found under an id is the one that has it. -/
theorem find?_id_eq_some (hids : (nodes.map (·.id)).Nodup) {ref : String} {node : CallNode} :
    nodes.find? (·.id = ref) = some node ↔ node ∈ nodes ∧ node.id = ref := by
  constructor
  · intro h
    exact ⟨List.mem_of_find?_eq_some h, by simpa using List.find?_some h⟩
  · rintro ⟨hnode, rfl⟩
    cases hfind : nodes.find? (·.id = node.id) with
    | none =>
      have hnone := List.find?_eq_none.1 hfind node hnode
      simp at hnone
    | some other =>
      have hid : other.id = node.id := by simpa using List.find?_some hfind
      rw [List.inj_on_of_nodup_map hids (List.mem_of_find?_eq_some hfind) hnode hid]

theorem find?_id_perm {nodes' : List CallNode} (hids : (nodes.map (·.id)).Nodup)
    (hperm : nodes.Perm nodes') (ref : String) :
    nodes.find? (·.id = ref) = nodes'.find? (·.id = ref) := by
  have hids' : (nodes'.map (·.id)).Nodup := (hperm.map _).nodup_iff.1 hids
  apply Option.ext
  intro node
  rw [find?_id_eq_some hids, find?_id_eq_some hids', hperm.mem_iff]

section Congr

variable {nodes' : List CallNode} {nodeId : String}

mutual

/-- The checks of a value look nodes up by their ids only. -/
theorem validateValue_congr
    (h : validateReference nodes tools nodeId = validateReference nodes' tools nodeId) :
    ∀ (value : Json) (schema : JsonSchema) (path : String),
      validateValue isUrl nodes tools nodeId value schema path =
        validateValue isUrl nodes' tools nodeId value schema path
  | .null, schema, path => by
    rw [validateValue_eq, validateValue_eq, h]
    rfl
  | .bool _, schema, path => by
    rw [validateValue_eq, validateValue_eq, h]
    rfl
  | .num _, schema, path => by
    rw [validateValue_eq, validateValue_eq, h]
    rfl
  | .str _, schema, path => by
    rw [validateValue_eq, validateValue_eq, h]
    rfl
  | .arr items, schema, path => by
    rw [validateValue, validateValue, h]
    simp only [validateItems_congr h items]
  | .obj fields, schema, path => by
    rw [validateValue, validateValue, h]
    simp only [validateFields_congr h fields]

theorem validateFields_congr
    (h : validateReference nodes tools nodeId = validateReference nodes' tools nodeId) :
    ∀ (fields : List (String × Json)) (schema : JsonSchema) (path : String),
      validateFields isUrl nodes tools nodeId fields schema path =
        validateFields isUrl nodes' tools nodeId fields schema path
  | [], _, _ => rfl
  | (key, child) :: fields, schema, path => by
    rw [validateFields, validateFields, validateFields_congr h fields]
    simp only [validateValue_congr h child]

theorem validateItems_congr
    (h : validateReference nodes tools nodeId = validateReference nodes' tools nodeId) :
    ∀ (items : List Json) (schema : JsonSchema) (path : String) (index : ℕ),
      validateItems isUrl nodes tools nodeId items schema path index =
        validateItems isUrl nodes' tools nodeId items schema path index
  | [], _, _, _ => rfl
  | child :: items, schema, path, index => by
    rw [validateItems, validateItems, validateItems_congr h items, validateValue_congr h child]

end

end Congr

/-- The checks of a node do not depend on the order of the nodes. -/
theorem checkNode_perm {nodes' : List CallNode} (hids : (nodes.map (·.id)).Nodup)
    (hperm : nodes.Perm nodes') (node : CallNode) :
    checkNode isUrl nodes tools node = checkNode isUrl nodes' tools node := by
  have hreference : validateReference nodes tools node.id =
      validateReference nodes' tools node.id := by
    funext ref schema path
    unfold validateReference
    rw [find?_id_perm hids hperm]
  have hdependency : checkDependency nodes node = checkDependency nodes' node := by
    funext dependency dependencies
    have hany : nodes.any (·.id = dependency) = nodes'.any (·.id = dependency) :=
      hperm.any_eq
    unfold checkDependency
    rw [hany]
  unfold checkNode checkArguments
  rw [hdependency]
  congr 1
  cases tools.lookup node.tool with
  | none => rfl
  | some tool => exact validateValue_congr hreference _ _ _

theorem follows_perm {nodes' : List CallNode} (hperm : nodes.Perm nodes') {a b : String} :
    Follows nodes tools a b ↔ Follows nodes' tools a b := by
  simp only [Follows, Known, hperm.mem_iff]

/-! ## The diagnostics of a graph -/

/-- Every candidate is a node, and the ids are distinct. -/
structure WellNamed (candidates : List Json) : Prop where
  shape : ∀ candidate ∈ candidates, (node? candidate).isSome
  ids : ((candidates.filterMap node?).map (·.id)).Nodup

theorem readNodes_eq {candidates : List Json} {index : ℕ} {nodes : List CallNode}
    (hshape : ∀ candidate ∈ candidates, (node? candidate).isSome)
    (hids : ((nodes ++ candidates.filterMap node?).map (·.id)).Nodup) :
    readNodes candidates index nodes = (nodes ++ candidates.filterMap node?, []) := by
  induction candidates generalizing index nodes with
  | nil => simp [readNodes]
  | cons candidate candidates ih =>
    obtain ⟨node, hnode⟩ := Option.isSome_iff_exists.1 (hshape candidate List.mem_cons_self)
    rw [List.filterMap_cons_some hnode] at hids ⊢
    have hnew : nodes.any (·.id = node.id) = false := by
      rw [List.any_eq_false]
      intro other hother hid
      rw [List.map_append, List.map_cons] at hids
      exact (List.nodup_append.1 hids).2.2 other.id (List.mem_map_of_mem hother) node.id
        List.mem_cons_self (of_decide_eq_true hid)
    have hrest := @ih (index + 1) (nodes ++ [node])
      (fun c hc => hshape c (List.mem_cons_of_mem _ hc)) (by simpa using hids)
    rw [readNodes, hnode]
    dsimp only
    rw [hrest, hnew]
    simp

theorem WellNamed.perm {candidates candidates' : List Json} (h : WellNamed candidates)
    (hperm : candidates.Perm candidates') : WellNamed candidates' := by
  constructor
  · intro candidate hcandidate
    exact h.shape candidate (hperm.mem_iff.2 hcandidate)
  · exact ((hperm.filterMap node?).map _).nodup_iff.1 h.ids

/-- What is reported about a node on a cycle. -/
def cycleDiagnostic (node : String) : ValidationDiagnostic :=
  { id := .CFV005, nodeId := some node, path := "$.nodes." ++ node
    message := "dependency graph contains a cycle" }

/-- The diagnostics of a graph whose nodes are well named: those of each node, and the cycles. -/
theorem validateCallGraph_eq {fields : List (String × Json)} {candidates : List Json}
    (hcandidates : fields.lookup "nodes" = some (.arr candidates))
    (h : WellNamed candidates) (hnodes : candidates.filterMap node? = nodes) :
    validateCallGraph isUrl (.obj fields) tools =
      finish ((nodes.flatMap fun node => (checkNode isUrl nodes tools node []).2) ++
        (detectCycles (seenAdjacency isUrl nodes tools nodes)
          ((seenAdjacency isUrl nodes tools nodes).map (·.1)) {}).map cycleDiagnostic) := by
  have hids : (nodes.map (·.id)).Nodup := hnodes ▸ h.ids
  have hread : readNodes candidates 0 [] = (nodes, []) := by
    rw [readNodes_eq h.shape (by simpa using h.ids), List.nil_append, hnodes]
  have hchecked := checkNodes_eq isUrl nodes tools nodes [] hids
  simp only [seenAdjacency, List.map_nil, List.nil_append] at hchecked
  unfold validateCallGraph
  dsimp only
  rw [hcandidates]
  dsimp only
  rw [hread]
  dsimp only
  rw [emptyAdjacency_eq hids, hchecked]
  rfl

theorem seenAdjacency_closed (hids : (nodes.map (·.id)).Nodup) (id : String) :
    ∀ b ∈ (seenAdjacency isUrl nodes tools nodes).get id,
      b ∈ (seenAdjacency isUrl nodes tools nodes).map (·.1) := by
  intro b hb
  obtain ⟨-, -, -, ⟨node, hnode, rfl⟩, -⟩ := (edge_seenAdjacency hids).1 hb
  refine List.mem_map.2 ⟨(node.id, seen isUrl nodes tools node), ?_, rfl⟩
  exact List.mem_map_of_mem hnode

/-- The search among the nodes reports one exactly when the relation has a cycle. -/
theorem cycles_iff (isUrl : String → Bool) (hids : (nodes.map (·.id)).Nodup) :
    detectCycles (seenAdjacency isUrl nodes tools nodes)
        ((seenAdjacency isUrl nodes tools nodes).map (·.1)) {} ≠ [] ↔
      ∃ id, TransGen (Follows nodes tools) id id := by
  have hrel : Edge (seenAdjacency isUrl nodes tools nodes).get = Follows nodes tools := by
    funext a b
    exact propext (edge_seenAdjacency hids)
  rw [detectCycles_ne_nil_iff (seenAdjacency_closed hids), hrel]

/-- The graph is valid when no node has an error and there is no cycle. -/
theorem valid_iff {fields : List (String × Json)} {candidates : List Json}
    (hcandidates : fields.lookup "nodes" = some (.arr candidates))
    (h : WellNamed candidates) (hnodes : candidates.filterMap node? = nodes) :
    (validateCallGraph isUrl (.obj fields) tools).valid = true ↔
      (∀ node ∈ nodes, Clean (checkNode isUrl nodes tools node []).2) ∧
        ¬ ∃ id, TransGen (Follows nodes tools) id id := by
  have hids : (nodes.map (·.id)).Nodup := hnodes ▸ h.ids
  rw [validateCallGraph_eq hcandidates h hnodes, finish_valid, clean_append,
    ← cycles_iff isUrl hids, not_not]
  refine and_congr ?_ ?_
  · simp only [Clean, List.mem_flatMap]
    constructor
    · intro hclean node hnode d hd
      exact hclean d ⟨node, hnode, hd⟩
    · rintro hclean d ⟨node, hnode, hd⟩
      exact hclean node hnode d hd
  · constructor
    · intro hclean
      by_contra hne
      obtain ⟨node, hnode⟩ := List.exists_mem_of_ne_nil _ hne
      exact hclean _ (List.mem_map_of_mem hnode) rfl
    · intro hnone
      rw [hnone]
      exact fun d hd => absurd hd List.not_mem_nil

end Graph

/-- **Cycle detection is exact and independent of the order of the nodes.** -/
theorem cycles_exact (isUrl : String → Bool) (tools : List (String × ToolSchema))
    (fields : List (String × Json)) (candidates : List Json)
    (hcandidates : fields.lookup "nodes" = some (.arr candidates)) (h : WellNamed candidates) :
    ((∃ d ∈ (validateCallGraph isUrl (.obj fields) tools).diagnostics, d.id = .CFV005) ↔
      ∃ id, TransGen (Follows (candidates.filterMap node?) tools) id id) ∧
    ∀ fields' candidates', fields'.lookup "nodes" = some (.arr candidates') →
      candidates.Perm candidates' →
      (validateCallGraph isUrl (.obj fields') tools).valid =
        (validateCallGraph isUrl (.obj fields) tools).valid := by
  constructor
  · rw [validateCallGraph_eq hcandidates h rfl, ← cycles_iff isUrl h.ids]
    constructor
    · rintro ⟨d, hd, hid⟩
      rcases List.mem_append.1 hd with hd | hd
      · obtain ⟨node, -, hd⟩ := List.mem_flatMap.1 hd
        exact absurd hid ((sees_checkNode isUrl _ tools node).silent _ d hd)
      · obtain ⟨id, hcycle, -⟩ := List.mem_map.1 hd
        exact List.ne_nil_of_mem hcycle
    · intro hne
      obtain ⟨id, hcycle⟩ := List.exists_mem_of_ne_nil _ hne
      exact ⟨cycleDiagnostic id, List.mem_append_right _ (List.mem_map_of_mem hcycle), rfl⟩
  · intro fields' candidates' hcandidates' hperm
    have hnodes : (candidates.filterMap node?).Perm (candidates'.filterMap node?) :=
      hperm.filterMap node?
    have hrel : Follows (candidates.filterMap node?) tools =
        Follows (candidates'.filterMap node?) tools := by
      funext a b
      exact propext (follows_perm hnodes)
    rw [Bool.eq_iff_iff, valid_iff hcandidates h rfl,
      valid_iff hcandidates' (h.perm hperm) rfl, hrel]
    refine and_congr_left' ⟨?_, ?_⟩
    · intro hclean node hnode
      rw [checkNode_perm h.ids hnodes]
      exact hclean node (hnodes.mem_iff.1 hnode)
    · intro hclean node hnode
      rw [← checkNode_perm h.ids hnodes]
      exact hclean node (hnodes.mem_iff.2 hnode)

/-- Two nodes that refer to each other's output along the schema of their tool. -/
def pairTools : List (String × ToolSchema) :=
  [("echo", { input := { type := some .object, properties := [("value", {})] }
              output := some {} })]

def pairNode (id ref : String) : Json :=
  .obj [("id", .str id), ("tool", .str "echo"),
    ("arguments", .obj [("value", .obj [("$ref", .str ref)])])]

theorem cycles_exact_pair :
    (∃ id, TransGen (Follows ([pairNode "a" "b", pairNode "b" "a"].filterMap node?) pairTools)
        id id) ∧
      (validateCallGraph (fun _ => true) (.obj [("nodes", .arr [pairNode "b" "a",
        pairNode "a" "b"])]) pairTools).valid = false := by
  have h : WellNamed [pairNode "a" "b", pairNode "b" "a"] := ⟨by decide, by decide⟩
  obtain ⟨hcycle, horder⟩ := cycles_exact (fun _ => true) pairTools
    [("nodes", .arr [pairNode "a" "b", pairNode "b" "a"])] _ rfl h
  refine ⟨hcycle.1 ⟨cycleDiagnostic "a", by decide, rfl⟩, ?_⟩
  rw [horder _ _ rfl (List.Perm.swap _ _ _)]
  decide

end AgentOrchestrator.Calls
