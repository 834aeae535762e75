import AgentOrchestrator.Calls.Soundness
import AgentOrchestrator.JsonRoundTrip
import AgentOrchestrator.Library.Utf16
import Mathlib.Data.List.Sort

/-!
# Canonical texts and copies

`canonicalJson` prints a value with the keys of every object sorted by their code units, and
`cloneJson` reads that text back (`parse_canonicalJson`), so a copy is the value with its keys
sorted.  A copy has the text of the value, and what a schema accepts it accepts as a copy.
-/

namespace AgentOrchestrator.Calls

/-! ## Sorted keys -/

/-- The order of `Array.prototype.sort` on texts, by their code units. -/
def unitsLe : List ℕ → List ℕ → Bool
  | [], _ => true
  | _ :: _, [] => false
  | a :: l, b :: m => decide (a < b) || (decide (a = b) && unitsLe l m)

theorem unitsLe_refl : ∀ l : List ℕ, unitsLe l l = true
  | [] => rfl
  | a :: l => by simp [unitsLe, unitsLe_refl l]

theorem unitsLe_total : ∀ l m : List ℕ, unitsLe l m = true ∨ unitsLe m l = true
  | [], _ => Or.inl rfl
  | _ :: _, [] => Or.inr rfl
  | a :: l, b :: m => by
    have ih := unitsLe_total l m
    rcases lt_trichotomy a b with h | h | h
    · simp [unitsLe, h]
    · simpa [unitsLe, h] using ih
    · simp [unitsLe, h]

theorem unitsLe_trans : ∀ {l m n : List ℕ}, unitsLe l m = true → unitsLe m n = true →
    unitsLe l n = true
  | [], _, _, _, _ => rfl
  | a :: l, b :: m, c :: n, hlm, hmn => by
    simp only [unitsLe, Bool.or_eq_true, Bool.and_eq_true, decide_eq_true_eq] at hlm hmn ⊢
    rcases hlm with hab | ⟨rfl, hlm⟩
    · rcases hmn with hbc | ⟨rfl, hmn⟩
      · exact Or.inl (hab.trans hbc)
      · exact Or.inl hab
    · rcases hmn with hbc | ⟨rfl, hmn⟩
      · exact Or.inl hbc
      · exact Or.inr ⟨rfl, unitsLe_trans hlm hmn⟩

/-- The order of texts by their code units. -/
def TextLe (s t : String) : Prop := unitsLe (Utf16.toUnits s) (Utf16.toUnits t) = true

instance : DecidableRel TextLe := fun s t =>
  inferInstanceAs (Decidable (unitsLe (Utf16.toUnits s) (Utf16.toUnits t) = true))

instance : Std.Refl TextLe := ⟨fun s => unitsLe_refl (Utf16.toUnits s)⟩

/-- The order of two fields by their keys. -/
def KeyLe (a b : String × Json) : Prop :=
  unitsLe (Utf16.toUnits a.1) (Utf16.toUnits b.1) = true

instance : DecidableRel KeyLe := fun a b =>
  inferInstanceAs (Decidable (unitsLe (Utf16.toUnits a.1) (Utf16.toUnits b.1) = true))

instance : Std.Total KeyLe := ⟨fun a b => unitsLe_total (Utf16.toUnits a.1) (Utf16.toUnits b.1)⟩

instance : IsTrans (String × Json) KeyLe := ⟨fun _ _ _ hab hbc => unitsLe_trans hab hbc⟩

mutual

/-- `JSON.parse(canonicalJson(value))`.  An object of the language lists the keys that are array
indices first; here all keys stay in the order of the text. -/
def cloneJson : Json → Json
  | .null => .null
  | .bool b => .bool b
  | .num n => .num n
  | .str s => .str s
  | .arr items => .arr (cloneItems items)
  | .obj fields => .obj (cloneFields fields)

def cloneItems : List Json → List Json
  | [] => []
  | item :: items => cloneJson item :: cloneItems items

def cloneFields : List (String × Json) → List (String × Json)
  | [] => []
  | (key, value) :: fields => (cloneFields fields).orderedInsert KeyLe (key, cloneJson value)

end

/-- `canonicalJson`: the text of the value with sorted keys. -/
def canonicalJson (number : Json.NumberFormat) (value : Json) : List Char :=
  Json.print number (cloneJson value)

theorem cloneItems_eq (items : List Json) : cloneItems items = items.map cloneJson := by
  induction items with
  | nil => rfl
  | cons item items ih => rw [cloneItems, List.map_cons, ih]

theorem cloneFields_eq (fields : List (String × Json)) :
    cloneFields fields = (fields.map fun f => (f.1, cloneJson f.2)).insertionSort KeyLe := by
  induction fields with
  | nil => rfl
  | cons field fields ih => rw [cloneFields, List.map_cons, List.insertionSort_cons, ih]

theorem cloneFields_perm (fields : List (String × Json)) :
    (cloneFields fields).Perm (fields.map fun f => (f.1, cloneJson f.2)) := by
  rw [cloneFields_eq]
  exact List.perm_insertionSort KeyLe _

theorem cloneFields_pairwise (fields : List (String × Json)) :
    (cloneFields fields).Pairwise KeyLe := by
  rw [cloneFields_eq]
  exact List.pairwise_insertionSort KeyLe _

theorem mem_cloneFields {fields : List (String × Json)} {field : String × Json} :
    field ∈ cloneFields fields ↔ ∃ f ∈ fields, (f.1, cloneJson f.2) = field := by
  rw [(cloneFields_perm fields).mem_iff, List.mem_map]

theorem cloneFields_keys (fields : List (String × Json)) :
    ((cloneFields fields).map (·.1)).Perm (fields.map (·.1)) := by
  have h := (cloneFields_perm fields).map Prod.fst
  rwa [List.map_map] at h

theorem lookup_cloneFields (key : String) (fields : List (String × Json)) :
    (cloneFields fields).lookup key = (fields.lookup key).map cloneJson := by
  induction fields with
  | nil => rfl
  | cons field fields ih =>
    -- the insertion is stable, so the first field with a key stays the first one
    have hinsert : (cloneFields (field :: fields)).lookup key =
        ((field.1, cloneJson field.2) :: cloneFields fields).lookup key :=
      Entries.lookup_orderedInsert TextLe field.1 (cloneJson field.2) key (cloneFields fields)
    rw [hinsert, List.lookup_cons, ih, List.lookup_cons]
    by_cases hk : key = field.1
    · simp [hk]
    · simp [beq_false_of_ne hk]

/-! ## Copies of copies -/

mutual

/-- A copy is its own copy. -/
theorem cloneJson_cloneJson : ∀ value : Json, cloneJson (cloneJson value) = cloneJson value
  | .null => rfl
  | .bool _ => rfl
  | .num _ => rfl
  | .str _ => rfl
  | .arr items => by
    rw [cloneJson, cloneJson, cloneItems_eq, cloneItems_eq, List.map_map]
    exact congrArg Json.arr (List.map_congr_left (cloneItems_cloneItems items))
  | .obj fields => by
    rw [cloneJson, cloneJson, cloneFields_eq (cloneFields fields)]
    have hmap : ((cloneFields fields).map fun f => (f.1, cloneJson f.2)) = cloneFields fields := by
      conv_rhs => rw [← List.map_id (cloneFields fields)]
      refine List.map_congr_left fun field hfield => ?_
      obtain ⟨f, hf, rfl⟩ := mem_cloneFields.1 hfield
      exact Prod.ext rfl (cloneFields_cloneFields fields f hf)
    rw [hmap, (cloneFields_pairwise fields).insertionSort_eq]

theorem cloneItems_cloneItems : ∀ items : List Json, ∀ item ∈ items,
    cloneJson (cloneJson item) = cloneJson item
  | [] => fun _ h => absurd h List.not_mem_nil
  | item :: items =>
    List.forall_mem_cons.2 ⟨cloneJson_cloneJson item, cloneItems_cloneItems items⟩

theorem cloneFields_cloneFields : ∀ fields : List (String × Json), ∀ f ∈ fields,
    cloneJson (cloneJson f.2) = cloneJson f.2
  | [] => fun _ h => absurd h List.not_mem_nil
  | (_, value) :: fields =>
    List.forall_mem_cons.2 ⟨cloneJson_cloneJson value, cloneFields_cloneFields fields⟩

end

variable {number : Json.NumberFormat}

@[simp] theorem canonicalJson_cloneJson (value : Json) :
    canonicalJson number (cloneJson value) = canonicalJson number value := by
  unfold canonicalJson
  rw [cloneJson_cloneJson]

/-- Values with one text have one copy. -/
theorem cloneJson_eq_of_canonicalJson {a b : Json}
    (h : canonicalJson number a = canonicalJson number b) : cloneJson a = cloneJson b :=
  Json.print_injective h

/-! ## Reading a canonical text -/

mutual

theorem readable_cloneJson : ∀ {value : Json}, Json.Readable number value →
    Json.Readable number (cloneJson value)
  | .null, h => h
  | .bool _, h => h
  | .num _, h => h
  | .str _, h => h
  | .arr items, h => by
    rw [cloneJson, Json.Readable, cloneItems_eq, Json.readableItems_iff]
    rw [Json.Readable, Json.readableItems_iff] at h
    intro item hitem
    obtain ⟨item', hmem, rfl⟩ := List.mem_map.1 hitem
    exact readable_cloneItems items h item' hmem
  | .obj fields, h => by
    rw [cloneJson, Json.Readable, Json.readableFields_iff]
    rw [Json.Readable, Json.readableFields_iff] at h
    refine ⟨fun field hfield => ?_, (cloneFields_keys fields).nodup_iff.2 h.2⟩
    obtain ⟨f, hf, rfl⟩ := mem_cloneFields.1 hfield
    exact readable_cloneFields fields h.1 f hf

theorem readable_cloneItems : ∀ items : List Json, (∀ item ∈ items, Json.Readable number item) →
    ∀ item ∈ items, Json.Readable number (cloneJson item)
  | [], _ => fun _ h => absurd h List.not_mem_nil
  | item :: items, h => by
    rw [List.forall_mem_cons] at h ⊢
    exact ⟨readable_cloneJson h.1, readable_cloneItems items h.2⟩

theorem readable_cloneFields : ∀ fields : List (String × Json),
    (∀ f ∈ fields, Json.Readable number f.2) → ∀ f ∈ fields, Json.Readable number (cloneJson f.2)
  | [], _ => fun _ h => absurd h List.not_mem_nil
  | (key, value) :: fields, h => by
    rw [List.forall_mem_cons] at h ⊢
    exact ⟨readable_cloneJson h.1, readable_cloneFields fields h.2⟩

end

/-- A copy is what the canonical text is read as. -/
theorem parse_canonicalJson {value : Json} (h : Json.Readable number value) :
    Json.parse (canonicalJson number value) = some (cloneJson value) :=
  Json.parse_print (readable_cloneJson h)

/-! ## A copy meets the same schemas -/

theorem reference?_of_length {fields : List (String × Json)} (h : fields.length ≠ 1) :
    reference? (.obj fields) = none := by
  unfold reference?
  split
  · next heq =>
    cases heq
    exact absurd rfl h
  · rfl

theorem reference?_of_ne_str {key : String} {item : Json} (h : ∀ s, item ≠ .str s) :
    reference? (.obj [(key, item)]) = none := by
  unfold reference?
  split
  · next s heq =>
    cases heq
    exact absurd rfl (h s)
  · rfl

@[simp] theorem reference?_cloneJson (value : Json) :
    reference? (cloneJson value) = reference? value := by
  cases value with
  | obj fields =>
    by_cases hone : fields.length = 1
    · obtain ⟨⟨key, item⟩, rfl⟩ := List.length_eq_one_iff.1 hone
      have hclone : cloneJson (.obj [(key, item)]) = .obj [(key, cloneJson item)] := rfl
      rw [hclone]
      cases item with
      | str s => rfl
      | arr items =>
        rw [cloneJson, reference?_of_ne_str (fun s h => by cases h),
          reference?_of_ne_str (fun s h => by cases h)]
      | obj fields =>
        rw [cloneJson, reference?_of_ne_str (fun s h => by cases h),
          reference?_of_ne_str (fun s h => by cases h)]
      | _ => rfl
    · have hlength : (cloneFields fields).length ≠ 1 := by
        rw [(cloneFields_perm fields).length_eq, List.length_map]
        exact hone
      rw [cloneJson, reference?_of_length hone, reference?_of_length hlength]
  | _ => rfl

theorem matchesType_cloneJson (value : Json) (type : Option SchemaType) :
    matchesType (cloneJson value) type = matchesType value type := by
  cases value with
  | arr items => exact matchesType_arr _ _ type
  | obj fields => exact matchesType_obj _ _ type
  | _ => rfl

mutual

theorem deepEqual_cloneJson : ∀ candidate value : Json,
    deepEqual candidate (cloneJson value) = deepEqual candidate value
  | .arr a, .arr b => by
    rw [cloneJson, deepEqual, deepEqual, deepEqualItems_clone a b]
  | .obj a, .obj b => by
    have hkeys : (a.map (·.1)).isPerm ((cloneFields b).map (·.1)) =
        (a.map (·.1)).isPerm (b.map (·.1)) := by
      rw [Bool.eq_iff_iff, List.isPerm_iff, List.isPerm_iff]
      exact ⟨fun h => h.trans (cloneFields_keys b), fun h => h.trans (cloneFields_keys b).symm⟩
    rw [cloneJson, deepEqual, deepEqual, hkeys, deepEqualFields_clone a b]
  | candidate, .null => rfl
  | candidate, .bool _ => rfl
  | candidate, .num _ => rfl
  | candidate, .str _ => rfl
  | .null, .arr _ => rfl
  | .bool _, .arr _ => rfl
  | .num _, .arr _ => rfl
  | .str _, .arr _ => rfl
  | .obj _, .arr _ => rfl
  | .null, .obj _ => rfl
  | .bool _, .obj _ => rfl
  | .num _, .obj _ => rfl
  | .str _, .obj _ => rfl
  | .arr _, .obj _ => rfl

theorem deepEqualItems_clone : ∀ a b : List Json,
    deepEqualItems a (cloneItems b) = deepEqualItems a b
  | [], [] => rfl
  | [], _ :: _ => rfl
  | _ :: _, [] => rfl
  | x :: a, y :: b => by
    rw [cloneItems, deepEqualItems, deepEqualItems, deepEqual_cloneJson x y,
      deepEqualItems_clone a b]

theorem deepEqualFields_clone : ∀ a b : List (String × Json),
    deepEqualFields a (cloneFields b) = deepEqualFields a b
  | [], _ => rfl
  | (key, x) :: a, b => by
    rw [deepEqualFields, deepEqualFields, deepEqualFields_clone a b, lookup_cloneFields]
    cases b.lookup key with
    | none => rfl
    | some y =>
      dsimp only [Option.map_some]
      rw [deepEqual_cloneJson x y]

end

theorem InEnum.clone {schema : JsonSchema} {value : Json} (h : InEnum schema value) :
    InEnum schema (cloneJson value) := by
  intro candidates hcandidates
  obtain ⟨c, hc, hequal⟩ := h candidates hcandidates
  exact ⟨c, hc, (deepEqual_cloneJson c value).trans hequal⟩

theorem HasFormat.clone {isUrl : String → Bool} {schema : JsonSchema} {value : Json}
    (h : HasFormat isUrl schema value) : HasFormat isUrl schema (cloneJson value) := by
  cases value with
  | arr items =>
    intro format text _ htext
    cases htext
  | obj fields =>
    intro format text _ htext
    cases htext
  | _ => exact h

theorem hasKey_cloneFields (key : String) (fields : List (String × Json)) :
    hasKey key (cloneFields fields) = hasKey key fields := by
  have hany : (cloneFields fields).any (·.1 = key) = fields.any (·.1 = key) := by
    have h : ((cloneFields fields).map (·.1)).any (fun k => decide (k = key)) =
        (fields.map (·.1)).any fun k => decide (k = key) := (cloneFields_keys fields).any_eq
    rwa [List.any_map, List.any_map] at h
  unfold hasKey
  rw [hany]

/-- A schema accepts the copy of a value it accepts. -/
theorem Accepts.clone {isUrl : String → Bool} {Ref : String → JsonSchema → Prop}
    {schema : JsonSchema} {value : Json} (h : Accepts isUrl Ref schema value) :
    Accepts isUrl Ref schema (cloneJson value) := by
  induction h with
  | reference h href => exact .reference ((reference?_cloneJson _).trans h) href
  | @scalar schema value harr hobj htype henum hformat =>
    have hsame : cloneJson value = value := by
      cases value with
      | arr items => exact absurd rfl (harr items)
      | obj fields => exact absurd rfl (hobj fields)
      | _ => rfl
    rw [hsame]
    exact .scalar harr hobj htype henum hformat
  | @array schema items htype henum hitems ih =>
    refine .array ((matchesType_cloneJson (.arr items) _).trans htype) henum.clone ?_
    intro harray child hchild item hitem
    rw [cloneItems_eq] at hitem
    obtain ⟨item', hmem, rfl⟩ := List.mem_map.1 hitem
    exact ih harray child hchild item' hmem
  | @object schema fields h htype henum hrequired hfields hclosed ih =>
    refine .object ((reference?_cloneJson (.obj fields)).trans h)
      ((matchesType_cloneJson (.obj fields) _).trans htype) henum.clone ?_ ?_ ?_
    · intro hobject key hkey
      rw [hasKey_cloneFields]
      exact hrequired hobject key hkey
    · intro hobject field hfield child hchild
      obtain ⟨f, hf, rfl⟩ := mem_cloneFields.1 hfield
      exact ih hobject f hf child hchild
    · intro hobject hadditional field hfield
      obtain ⟨f, hf, rfl⟩ := mem_cloneFields.1 hfield
      exact hclosed hobject hadditional f hf

/-! ## `validateOutput` of a copy -/

/-- The check adds no dependency. -/
def Check.Quiet (check : Check) : Prop := ∀ dependencies, (check dependencies).1 = dependencies

theorem Check.quiet_ok : Check.Quiet .ok := fun _ => rfl

theorem Check.quiet_report (d : ValidationDiagnostic) : Check.Quiet (.report d) := fun _ => rfl

theorem Check.Quiet.andThen {a b : Check} (ha : a.Quiet) (hb : b.Quiet) : (a.andThen b).Quiet :=
  fun dependencies => (hb (a dependencies).1).trans (ha dependencies)

section Quiet

variable (isUrl : String → Bool) (nodes : List CallNode) (tools : List (String × ToolSchema))
  (nodeId : String)

theorem quiet_checkEnum (value : Json) (schema : JsonSchema) (path : String) :
    (checkEnum nodeId value schema path).Quiet := by
  unfold checkEnum
  cases schema.enum with
  | none => exact Check.quiet_ok
  | some candidates =>
    dsimp only
    split_ifs
    · exact Check.quiet_ok
    · exact Check.quiet_report _

theorem quiet_checkFormat (value : Json) (schema : JsonSchema) (path : String) :
    (checkFormat isUrl nodeId value schema path).Quiet := by
  unfold checkFormat
  split
  · split_ifs
    · exact Check.quiet_ok
    · exact Check.quiet_report _
  · exact Check.quiet_ok

theorem quiet_checkRequired (fields : List (String × Json)) (schema : JsonSchema) (path : String) :
    (checkRequired nodeId fields schema path).Quiet := by
  unfold checkRequired
  induction schema.required with
  | nil => exact Check.quiet_ok
  | cons key l ih =>
    refine Check.Quiet.andThen ?_ ih
    dsimp only
    split_ifs
    · exact Check.quiet_ok
    · exact Check.quiet_report _

/-- The checks of a value that is no reference are quiet when those of its parts are. -/
theorem quiet_validateValue {value : Json} (hnone : reference? value = none) {schema : JsonSchema}
    {path : String}
    (h : (validateChildren isUrl nodes tools nodeId value schema path).Quiet) :
    (validateValue isUrl nodes tools nodeId value schema path).Quiet := by
  rw [validateValue_eq, hnone]
  dsimp only
  split_ifs
  · exact Check.quiet_report _
  · exact ((quiet_checkEnum nodeId value schema path).andThen
      (quiet_checkFormat isUrl nodeId value schema path)).andThen h

theorem quiet_validateItems {items : List Json} {schema : JsonSchema} {path : String}
    (h : ∀ item ∈ items, ∀ path, (validateValue isUrl nodes tools nodeId item schema path).Quiet)
    (index : ℕ) : (validateItems isUrl nodes tools nodeId items schema path index).Quiet := by
  induction items generalizing index with
  | nil =>
    rw [validateItems]
    exact Check.quiet_ok
  | cons item items ih =>
    rw [List.forall_mem_cons] at h
    rw [validateItems]
    exact (h.1 _).andThen (ih h.2 (index + 1))

theorem quiet_validateFields {fields : List (String × Json)} {schema : JsonSchema} {path : String}
    (h : ∀ field ∈ fields, ∀ child, schema.properties.lookup field.1 = some child →
      ∀ path, (validateValue isUrl nodes tools nodeId field.2 child path).Quiet) :
    (validateFields isUrl nodes tools nodeId fields schema path).Quiet := by
  induction fields with
  | nil =>
    rw [validateFields]
    exact Check.quiet_ok
  | cons field fields ih =>
    rw [List.forall_mem_cons] at h
    rw [validateFields]
    refine Check.Quiet.andThen ?_ (ih h.2)
    cases hlookup : schema.properties.lookup field.1 with
    | some child => exact h.1 child hlookup _
    | none =>
      dsimp only
      split_ifs
      · exact Check.quiet_report _
      · exact Check.quiet_ok

/-- A value accepted without references adds no dependency. -/
theorem quiet_of_accepts {schema : JsonSchema} {value : Json}
    (h : Accepts isUrl (fun _ _ => False) schema value) :
    ∀ path, (validateValue isUrl nodes tools nodeId value schema path).Quiet := by
  induction h with
  | reference h href => exact href.elim
  | @scalar schema value harr hobj htype henum hformat =>
    intro path
    cases value with
    | arr items => exact absurd rfl (harr items)
    | obj fields => exact absurd rfl (hobj fields)
    | _ => exact quiet_validateValue isUrl nodes tools nodeId rfl Check.quiet_ok
  | @array schema items htype henum hitems ih =>
    intro path
    refine quiet_validateValue isUrl nodes tools nodeId rfl ?_
    unfold validateChildren
    dsimp only
    split
    · next child hchild =>
      split_ifs with harray
      · exact quiet_validateItems isUrl nodes tools nodeId
          (fun item hitem => ih harray child hchild item hitem) 0
      · exact Check.quiet_ok
    · exact Check.quiet_ok
  | @object schema fields h htype henum hrequired hfields hclosed ih =>
    intro path
    refine quiet_validateValue isUrl nodes tools nodeId h ?_
    unfold validateChildren
    dsimp only
    split_ifs with hobject
    · exact (quiet_checkRequired nodeId fields schema path).andThen
        (quiet_validateFields isUrl nodes tools nodeId
          fun field hfield child hchild => ih hobject field hfield child hchild)
    · exact Check.quiet_ok

end Quiet

/-- The node `validateOutput` checks. -/
def outputNode (nodeId : String) (output : Json) : CallNode :=
  ⟨nodeId, "output", .obj [("value", output)], []⟩

theorem readNodes_outputGraph {id : String} (hid : id ≠ "") (output : Json) :
    readNodes [.obj [("id", .str id), ("tool", .str "output"),
      ("arguments", .obj [("value", output)])]] 0 [] = ([outputNode id output], []) := by
  simp [readNodes, node?, outputNode, hid, List.lookup_cons]

/-- One node without dependencies is no cycle. -/
theorem detectCycles_single (id : String) : detectCycles [(id, [])] [id] {} = [] := by
  simp [detectCycles, walk, someWalk, Adjacency.get, List.lookup_cons]

/-- The input schema of the tool `validateOutput` checks an output with. -/
def outputInput (schema : JsonSchema) : JsonSchema :=
  { type := some .object, properties := [("value", schema)], required := ["value"]
    additionalProperties := some false }

theorem accepts_outputInput {isUrl : String → Bool} {schema : JsonSchema} {output : Json}
    (h : Accepts isUrl (fun _ _ => False) schema output) :
    Accepts isUrl (fun _ _ => False) (outputInput schema) (.obj [("value", output)]) := by
  refine .object ?_ rfl (fun _ h => by cases h) ?_ ?_ ?_
  · unfold reference?
    split
    · next heq => simp at heq
    · rfl
  · intro _ key hkey
    rw [List.mem_singleton.1 hkey]
    rfl
  · intro _ field hfield child hchild
    rw [List.mem_singleton.1 hfield] at hchild ⊢
    cases hchild
    exact h
  · intro _ _ field hfield
    rw [List.mem_singleton.1 hfield]
    exact Option.some_ne_none schema

/-- An output that meets the output schema passes `validateOutput`. -/
theorem validateOutput_of_accepts {isUrl : String → Bool} {node : CallNode} {tool : ExecutableTool}
    {output : Json} (hid : node.id ≠ "")
    (h : Accepts isUrl (fun _ _ => False) tool.output output) :
    validateOutput isUrl node tool output = true := by
  have hwrapped := accepts_outputInput h
  have hquiet := quiet_of_accepts isUrl [outputNode node.id output] (outputTools tool.output)
    node.id hwrapped ("$.nodes." ++ node.id ++ ".arguments")
  have hclean := (clean_iff_accepts isUrl [outputNode node.id output] (outputTools tool.output)
    node.id _ _ ("$.nodes." ++ node.id ++ ".arguments") []).2
    (hwrapped.mono fun _ _ => False.elim)
  have hcheck : checkNode isUrl [outputNode node.id output] (outputTools tool.output)
      (outputNode node.id output) [] =
      ([], (validateValue isUrl [outputNode node.id output] (outputTools tool.output) node.id
        (.obj [("value", output)]) (outputInput tool.output)
        ("$.nodes." ++ node.id ++ ".arguments") []).2) :=
    Prod.ext (hquiet []) (List.nil_append _)
  have hnodes : checkNodes isUrl [outputNode node.id output] (outputTools tool.output)
      [outputNode node.id output] (emptyAdjacency [outputNode node.id output]) =
      ([(node.id, [])], (validateValue isUrl [outputNode node.id output] (outputTools tool.output)
        node.id (.obj [("value", output)]) (outputInput tool.output)
        ("$.nodes." ++ node.id ++ ".arguments") []).2) := by
    have hempty : emptyAdjacency [outputNode node.id output] = [(node.id, [])] := rfl
    have hget : Adjacency.get [(node.id, [])] (outputNode node.id output).id = [] := by
      simp [Adjacency.get, outputNode]
    have hset : Adjacency.set [(node.id, [])] (outputNode node.id output).id [] =
        [(node.id, [])] := by
      simp [Adjacency.set, outputNode]
    rw [hempty, checkNodes, hget, hcheck]
    dsimp only
    rw [hset, checkNodes, List.append_nil]
  have hlookup (candidates : Json) : [("nodes", candidates)].lookup "nodes" = some candidates :=
    List.lookup_cons_self
  unfold validateOutput validateCallGraph outputGraph
  dsimp only
  rw [hlookup]
  dsimp only
  rw [readNodes_outputGraph hid]
  dsimp only
  rw [hnodes]
  dsimp only
  rw [List.map_singleton, detectCycles_single, List.map_nil, List.append_nil, List.nil_append]
  exact finish_valid.2 hclean

/-- `validateOutput` takes the copy of what it takes. -/
theorem validateOutput_cloneJson {isUrl : String → Bool} {node : CallNode} {tool : ExecutableTool}
    {output : Json} (hid : node.id ≠ "") (h : validateOutput isUrl node tool output = true) :
    validateOutput isUrl node tool (cloneJson output) = true :=
  validateOutput_of_accepts hid (accepts_of_validateOutput hid h).clone

end AgentOrchestrator.Calls
