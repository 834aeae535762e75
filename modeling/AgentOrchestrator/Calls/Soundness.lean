import AgentOrchestrator.Calls.Order
import AgentOrchestrator.Library.Entries

/-!
# Types of the arguments

`Accepts` says when a value meets a schema, with a parameter for what holds of a reference; it is
what `validateValue` decides (`clean_iff_accepts`).  A run hands a tool arguments that meet its
input schema when `compatible` has compared all that the places of the references demand
(`Compared`), and no reference sits inside a value that an `enum` was compared with.
-/

namespace AgentOrchestrator.Calls

/-! ## Accepted values -/

/-- The value is one of the enumeration, if there is one. -/
def InEnum (schema : JsonSchema) (value : Json) : Prop :=
  ∀ candidates, schema.enum = some candidates → ∃ c ∈ candidates, deepEqual c value = true

/-- A text has the format, if there is one. -/
def HasFormat (isUrl : String → Bool) (schema : JsonSchema) (value : Json) : Prop :=
  ∀ format text, schema.format = some format → value = .str text →
    matchesFormat isUrl text format = true

/-- The value meets the schema; `Ref` is what holds of a reference and the schema of its place. -/
inductive Accepts (isUrl : String → Bool) (Ref : String → JsonSchema → Prop) :
    JsonSchema → Json → Prop where
  | reference {schema : JsonSchema} {value : Json} {ref : String}
      (h : reference? value = some ref) (href : Ref ref schema) : Accepts isUrl Ref schema value
  | scalar {schema : JsonSchema} {value : Json} (harr : ∀ items, value ≠ .arr items)
      (hobj : ∀ fields, value ≠ .obj fields) (htype : matchesType value schema.type = true)
      (henum : InEnum schema value) (hformat : HasFormat isUrl schema value) :
      Accepts isUrl Ref schema value
  | array {schema : JsonSchema} {items : List Json}
      (htype : matchesType (.arr items) schema.type = true) (henum : InEnum schema (.arr items))
      (hitems : schema.type = some .array → ∀ child, schema.items = some child →
        ∀ item ∈ items, Accepts isUrl Ref child item) : Accepts isUrl Ref schema (.arr items)
  | object {schema : JsonSchema} {fields : List (String × Json)}
      (h : reference? (.obj fields) = none) (htype : matchesType (.obj fields) schema.type = true)
      (henum : InEnum schema (.obj fields))
      (hrequired : schema.type = some .object → ∀ key ∈ schema.required, hasKey key fields = true)
      (hfields : schema.type = some .object → ∀ field ∈ fields, ∀ child,
        schema.properties.lookup field.1 = some child → Accepts isUrl Ref child field.2)
      (hclosed : schema.type = some .object → schema.additionalProperties = some false →
        ∀ field ∈ fields, schema.properties.lookup field.1 ≠ none) :
      Accepts isUrl Ref schema (.obj fields)

/-- The value holds no reference. -/
def RefFree (value : Json) : Prop := ∀ ref, ¬ RefersTo ref value

/-- The reference names a node whose output is compatible with the schema. -/
def Resolves (nodes : List CallNode) (tools : List (String × ToolSchema)) (ref : String)
    (schema : JsonSchema) : Prop :=
  ∃ source output, nodes.find? (·.id = ref) = some source ∧
    (tools.lookup source.tool).bind ToolSchema.output = some output ∧
    compatible output schema = true

section Decides

variable (isUrl : String → Bool) (nodes : List CallNode) (tools : List (String × ToolSchema))
  (nodeId : String)

theorem clean_nil : Clean [] := fun _ h => (nomatch h)

theorem not_clean_cons {d : ValidationDiagnostic} {l : List ValidationDiagnostic}
    (h : d.severity = .error) : ¬ Clean (d :: l) := fun hclean => hclean d List.mem_cons_self h

theorem clean_validateReference {ref : String} {schema : JsonSchema} {path : String}
    {dependencies : List String} :
    Clean (validateReference nodes tools nodeId ref schema path dependencies).2 ↔
      Resolves nodes tools ref schema := by
  unfold validateReference Resolves
  cases hfind : nodes.find? (·.id = ref) with
  | none =>
    constructor
    · intro h
      exact absurd h (not_clean_cons rfl)
    · rintro ⟨source, output, h, -⟩
      cases h
  | some source =>
    dsimp only
    rw [clean_append]
    have himplied : Clean (if dependencies.contains ref then [] else
        [{ id := .CFV201, severity := .warning, nodeId := some nodeId, path := path
           message := "reference " ++ ref ++ " should be declared in dependsOn" }]) := by
      split_ifs
      · exact clean_nil
      · intro d hd
        rw [List.mem_singleton.1 hd]
        nofun
    rw [and_iff_right himplied]
    cases houtput : (tools.lookup source.tool).bind ToolSchema.output with
    | none =>
      constructor
      · intro h
        exact absurd h (not_clean_cons rfl)
      · rintro ⟨source', output, hsource, h, -⟩
        cases hsource
        rw [houtput] at h
        cases h
    | some output =>
      dsimp only
      constructor
      · intro h
        split_ifs at h with hcompatible
        · exact ⟨source, output, rfl, houtput, hcompatible⟩
        · exact absurd h (not_clean_cons rfl)
      · rintro ⟨source', output', hsource, h, hcompatible⟩
        cases hsource
        rw [houtput] at h
        cases h
        rw [if_pos hcompatible]
        exact clean_nil

theorem clean_checkEnum {value : Json} {schema : JsonSchema} {path : String}
    {dependencies : List String} :
    Clean (checkEnum nodeId value schema path dependencies).2 ↔ InEnum schema value := by
  unfold checkEnum InEnum
  cases schema.enum with
  | none => exact ⟨fun _ _ h => (nomatch h), fun _ => clean_nil⟩
  | some candidates =>
    dsimp only
    split_ifs with hany
    · refine ⟨fun _ candidates' h => ?_, fun _ => clean_nil⟩
      cases h
      simpa using hany
    · refine ⟨fun h => absurd h (not_clean_cons rfl), ?_⟩
      intro h
      exact absurd (by simpa using h candidates rfl) hany

theorem clean_checkFormat {value : Json} {schema : JsonSchema} {path : String}
    {dependencies : List String} :
    Clean (checkFormat isUrl nodeId value schema path dependencies).2 ↔
      HasFormat isUrl schema value := by
  unfold checkFormat HasFormat
  cases schema.format with
  | none => exact ⟨fun _ _ _ h => (nomatch h), fun _ => clean_nil⟩
  | some format =>
    cases value with
    | str text =>
      dsimp only
      split_ifs with hmatches
      · refine ⟨fun _ format' text' hf ht => ?_, fun _ => clean_nil⟩
        cases hf
        cases ht
        exact hmatches
      · refine ⟨fun h => absurd h (not_clean_cons rfl), ?_⟩
        intro h
        exact absurd (h format text rfl rfl) hmatches
    | _ => exact ⟨fun _ _ _ _ h => (nomatch h), fun _ => clean_nil⟩

theorem clean_checkRequired {fields : List (String × Json)} {schema : JsonSchema} {path : String}
    {dependencies : List String} :
    Clean (checkRequired nodeId fields schema path dependencies).2 ↔
      ∀ key ∈ schema.required, hasKey key fields = true := by
  unfold checkRequired
  induction schema.required generalizing dependencies with
  | nil => exact ⟨fun _ _ h => (nomatch h), fun _ => clean_nil⟩
  | cons key l ih =>
    rw [Check.forEach, List.forall_mem_cons]
    by_cases hkey : hasKey key fields = true
    · rw [if_pos hkey, and_iff_right hkey]
      exact ih
    · rw [if_neg hkey]
      exact ⟨fun h => absurd h (not_clean_cons rfl), fun h => absurd h.1 hkey⟩

/-- The checks of a value that is no reference. -/
theorem clean_validateValue {value : Json} (hnone : reference? value = none) {schema : JsonSchema}
    {path : String} {dependencies : List String} :
    Clean (validateValue isUrl nodes tools nodeId value schema path dependencies).2 ↔
      matchesType value schema.type = true ∧ InEnum schema value ∧ HasFormat isUrl schema value ∧
        Clean (validateChildren isUrl nodes tools nodeId value schema path
          ((checkEnum nodeId value schema path).andThen
            (checkFormat isUrl nodeId value schema path) dependencies).1).2 := by
  rw [validateValue_eq, hnone]
  dsimp only
  by_cases htype : matchesType value schema.type = true
  · rw [if_neg (by simp [htype]), and_iff_right htype, Check.andThen, clean_append, Check.andThen,
      clean_append, clean_checkEnum, clean_checkFormat, and_assoc]
  · rw [if_pos (by simp [htype])]
    exact ⟨fun h => absurd h (not_clean_cons rfl), fun h => absurd h.1 htype⟩

theorem clean_scalar {value : Json} (harr : ∀ items, value ≠ .arr items)
    (hobj : ∀ fields, value ≠ .obj fields) {schema : JsonSchema} {path : String}
    {dependencies : List String} :
    Clean (validateValue isUrl nodes tools nodeId value schema path dependencies).2 ↔
      Accepts isUrl (Resolves nodes tools) schema value := by
  have hnone : reference? value = none := by
    cases value with
    | obj fields => exact absurd rfl (hobj fields)
    | _ => rfl
  have hchildren : validateChildren isUrl nodes tools nodeId value schema path = Check.ok := by
    cases value with
    | obj fields => exact absurd rfl (hobj fields)
    | arr items => exact absurd rfl (harr items)
    | _ => rfl
  rw [clean_validateValue isUrl nodes tools nodeId hnone, hchildren]
  constructor
  · rintro ⟨htype, henum, hformat, -⟩
    exact .scalar harr hobj htype henum hformat
  · intro h
    cases h with
    | reference h => cases hnone.symm.trans h
    | scalar _ _ htype henum hformat => exact ⟨htype, henum, hformat, clean_nil⟩
    | array => exact absurd rfl (harr _)
    | object => exact absurd rfl (hobj _)

mutual

/-- `validateValue` reports no error exactly when the value is accepted. -/
theorem clean_iff_accepts : ∀ (value : Json) (schema : JsonSchema) (path : String)
    (dependencies : List String),
    Clean (validateValue isUrl nodes tools nodeId value schema path dependencies).2 ↔
      Accepts isUrl (Resolves nodes tools) schema value
  | .null, _, _, _ => clean_scalar isUrl nodes tools nodeId (fun _ => by nofun) (fun _ => by nofun)
  | .bool _, _, _, _ => clean_scalar isUrl nodes tools nodeId (fun _ => by nofun) (fun _ => by nofun)
  | .num _, _, _, _ => clean_scalar isUrl nodes tools nodeId (fun _ => by nofun) (fun _ => by nofun)
  | .str _, _, _, _ => clean_scalar isUrl nodes tools nodeId (fun _ => by nofun) (fun _ => by nofun)
  | .arr items, schema, path, dependencies => by
    have hnone : reference? (.arr items) = none := rfl
    have hformat : HasFormat isUrl schema (.arr items) := fun _ _ _ h => (nomatch h)
    rw [clean_validateValue isUrl nodes tools nodeId hnone, and_iff_right hformat]
    have hchildren : ∀ d, Clean (validateChildren isUrl nodes tools nodeId (.arr items) schema path
        d).2 ↔ (schema.type = some .array → ∀ child, schema.items = some child →
          ∀ item ∈ items, Accepts isUrl (Resolves nodes tools) child item) := by
      intro d
      unfold validateChildren
      cases schema.items with
      | none => exact ⟨fun _ _ _ h => (nomatch h), fun _ => clean_nil⟩
      | some child =>
        dsimp only
        split_ifs with harray
        · rw [clean_validateItems items child path 0]
          simp [harray]
        · exact ⟨fun _ h => absurd h harray, fun _ => clean_nil⟩
    rw [hchildren]
    constructor
    · rintro ⟨htype, henum, hitems⟩
      exact .array htype henum hitems
    · intro h
      cases h with
      | reference h => cases h
      | scalar harr => exact absurd rfl (harr items)
      | array htype henum hitems => exact ⟨htype, henum, hitems⟩
  | .obj fields, schema, path, dependencies => by
    cases hnone : reference? (.obj fields) with
    | some ref =>
      rw [validateValue_eq, hnone]
      dsimp only
      rw [clean_validateReference]
      constructor
      · intro h
        exact .reference hnone h
      · intro h
        cases h with
        | reference h href =>
          cases hnone.symm.trans h
          exact href
        | scalar _ hobj => exact absurd rfl (hobj fields)
        | object h => cases hnone.symm.trans h
    | none =>
      have hformat : HasFormat isUrl schema (.obj fields) := fun _ _ _ h => (nomatch h)
      rw [clean_validateValue isUrl nodes tools nodeId hnone, and_iff_right hformat]
      unfold validateChildren
      dsimp only
      split_ifs with hobject
      · rw [Check.andThen, clean_append, clean_checkRequired, clean_validateFields fields schema path]
        constructor
        · rintro ⟨htype, henum, hrequired, hfields, hclosed⟩
          exact .object hnone htype henum (fun _ => hrequired) (fun _ => hfields)
            (fun _ => hclosed)
        · intro h
          cases h with
          | reference h => cases hnone.symm.trans h
          | scalar _ hobj => exact absurd rfl (hobj fields)
          | object _ htype henum hrequired hfields hclosed =>
            exact ⟨htype, henum, hrequired hobject, hfields hobject, hclosed hobject⟩
      · constructor
        · rintro ⟨htype, henum, -⟩
          exact .object hnone htype henum (fun h => absurd h hobject) (fun h => absurd h hobject)
            (fun h => absurd h hobject)
        · intro h
          cases h with
          | reference h => cases hnone.symm.trans h
          | scalar _ hobj => exact absurd rfl (hobj fields)
          | object _ htype henum => exact ⟨htype, henum, clean_nil⟩

theorem clean_validateFields : ∀ (fields : List (String × Json)) (schema : JsonSchema)
    (path : String) (dependencies : List String),
    Clean (validateFields isUrl nodes tools nodeId fields schema path dependencies).2 ↔
      (∀ field ∈ fields, ∀ child, schema.properties.lookup field.1 = some child →
        Accepts isUrl (Resolves nodes tools) child field.2) ∧
      (schema.additionalProperties = some false →
        ∀ field ∈ fields, schema.properties.lookup field.1 ≠ none)
  | [], schema, path, dependencies =>
    ⟨fun _ => ⟨fun _ h => (nomatch h), fun _ _ h => (nomatch h)⟩, fun _ => clean_nil⟩
  | (key, child) :: fields, schema, path, dependencies => by
    rw [validateFields, Check.andThen, clean_append, clean_validateFields fields schema path,
      List.forall_mem_cons, List.forall_mem_cons]
    cases hlookup : schema.properties.lookup key with
    | some childSchema =>
      dsimp only
      rw [clean_iff_accepts child childSchema]
      simp only [Option.some.injEq, forall_eq', ne_eq, reduceCtorEq, not_false_eq_true,
        true_and, and_assoc]
    | none =>
      dsimp only
      simp only [reduceCtorEq, false_implies, implies_true, true_and, ne_eq,
        not_true_eq_false, false_and, imp_false]
      split_ifs with hclosed
      · exact ⟨fun h => absurd h.1 (not_clean_cons rfl), fun h => absurd hclosed h.2⟩
      · exact ⟨fun h => ⟨h.2.1, hclosed⟩, fun h => ⟨clean_nil, h.1, fun h' => absurd h' hclosed⟩⟩

theorem clean_validateItems : ∀ (items : List Json) (schema : JsonSchema) (path : String)
    (index : ℕ) (dependencies : List String),
    Clean (validateItems isUrl nodes tools nodeId items schema path index dependencies).2 ↔
      ∀ item ∈ items, Accepts isUrl (Resolves nodes tools) schema item
  | [], schema, path, index, dependencies => ⟨fun _ _ h => (nomatch h), fun _ => clean_nil⟩
  | item :: items, schema, path, index, dependencies => by
    rw [validateItems, Check.andThen, clean_append, clean_iff_accepts item schema,
      clean_validateItems items schema path, List.forall_mem_cons]

end

end Decides

/-! ## Equal values -/

theorem lookup_of_deepEqualFields : ∀ {a b : List (String × Json)} {key : String} {x : Json},
    deepEqualFields a b = true → a.lookup key = some x →
      ∃ y, b.lookup key = some y ∧ deepEqual x y = true
  | (k, x') :: a, b, key, x, h, hlookup => by
    rw [deepEqualFields, Bool.and_eq_true] at h
    obtain ⟨hx, hrest⟩ := h
    rw [List.lookup_cons] at hlookup
    split at hlookup
    · rename_i hkey
      rw [← eq_of_beq hkey] at hx
      cases hlookup
      split at hx
      · cases hx
      · rename_i y hy
        exact ⟨y, hy, hx⟩
    · exact lookup_of_deepEqualFields hrest hlookup

mutual

theorem deepEqual_trans : ∀ {a b c : Json}, deepEqual a b = true → deepEqual b c = true →
    deepEqual a c = true
  | .null, b, c, hab, hbc => by
    cases b with
    | null => exact hbc
    | _ => cases hab
  | .bool x, b, c, hab, hbc => by
    cases b with
    | bool y =>
      rw [deepEqual, decide_eq_true_iff] at hab
      rw [hab]
      exact hbc
    | _ => cases hab
  | .num x, b, c, hab, hbc => by
    cases b with
    | num y =>
      rw [deepEqual, decide_eq_true_iff] at hab
      rw [hab]
      exact hbc
    | _ => cases hab
  | .str x, b, c, hab, hbc => by
    cases b with
    | str y =>
      rw [deepEqual, decide_eq_true_iff] at hab
      rw [hab]
      exact hbc
    | _ => cases hab
  | .arr x, b, c, hab, hbc => by
    cases b with
    | arr y =>
      cases c with
      | arr z =>
        rw [deepEqual] at hab hbc ⊢
        exact deepEqualItems_trans hab hbc
      | _ => cases hbc
    | _ => cases hab
  | .obj x, b, c, hab, hbc => by
    cases b with
    | obj y =>
      cases c with
      | obj z =>
        rw [deepEqual, Bool.and_eq_true, List.isPerm_iff] at hab hbc ⊢
        exact ⟨hab.1.trans hbc.1, deepEqualFields_trans hab.2 hbc.2⟩
      | _ => cases hbc
    | _ => cases hab

theorem deepEqualItems_trans : ∀ {a b c : List Json}, deepEqualItems a b = true →
    deepEqualItems b c = true → deepEqualItems a c = true
  | [], [], _, _, hbc => hbc
  | x :: a, y :: b, z :: c, hab, hbc => by
    rw [deepEqualItems, Bool.and_eq_true] at hab hbc ⊢
    exact ⟨deepEqual_trans hab.1 hbc.1, deepEqualItems_trans hab.2 hbc.2⟩

theorem deepEqualFields_trans : ∀ {a b c : List (String × Json)}, deepEqualFields a b = true →
    deepEqualFields b c = true → deepEqualFields a c = true
  | [], _, _, _, _ => rfl
  | (k, x) :: a, b, c, hab, hbc => by
    rw [deepEqualFields, Bool.and_eq_true] at hab ⊢
    obtain ⟨hx, hrest⟩ := hab
    refine ⟨?_, deepEqualFields_trans hrest hbc⟩
    split at hx
    · cases hx
    · rename_i y hy
      obtain ⟨z, hz, hyz⟩ := lookup_of_deepEqualFields hbc hy
      rw [hz]
      exact deepEqual_trans hx hyz

end

/-! ## Compatible schemas -/

/-- What `compatible` compares when both schemas have the same type. -/
structure Agrees (source target : JsonSchema) : Prop where
  enum : enumWithin source.enum target.enum = true
  format : target.format ≠ none → source.format = target.format
  items : target.type = some .array → ∀ child, target.items = some child →
    ∃ s, source.items = some s ∧ compatible s child = true
  required : target.type = some .object → ∀ key ∈ target.required, key ∈ source.required
  closed : target.type = some .object → target.additionalProperties = some false →
    source.additionalProperties = some false ∧
      ∀ property ∈ source.properties, (target.properties.lookup property.1).isSome = true

theorem agrees_of_compatible {source target : JsonSchema} {t : SchemaType}
    (hs : source.type = some t) (ht : target.type = some t) (h : compatible source target = true) :
    Agrees source target := by
  obtain ⟨type, properties, required, additionalProperties, items, enum, format⟩ := target
  dsimp only at ht
  subst ht
  unfold compatible at h
  rw [hs] at h
  dsimp only at h
  split_ifs at h with hnumber hne henum hformat harray hobject
  · exact absurd (hnumber.1.symm.trans hnumber.2) (by decide)
  all_goals
    have hwithin : enumWithin source.enum enum = true := by simpa using henum
    have hequal : format ≠ none → source.format = format := by
      intro hsome
      by_contra hdiffers
      exact hformat ⟨hsome, hdiffers⟩
  · obtain ⟨rfl, -⟩ := harray
    refine ⟨hwithin, hequal, ?_, (nomatch ·), (nomatch ·)⟩
    rintro - child rfl
    unfold compatibleItems at h
    split at h
    · cases h
    · rename_i s hitems
      exact ⟨s, hitems, h⟩
  · subst hobject
    rw [Bool.and_eq_true, List.all_eq_true] at h
    obtain ⟨hrequired, hclosed⟩ := h
    refine ⟨hwithin, hequal, (nomatch ·), ?_, ?_⟩
    · intro _ key hkey
      exact List.contains_iff_mem.1 ((Bool.and_eq_true _ _).mp (hrequired key hkey)).1
    · rintro - rfl
      simpa using hclosed
  · refine ⟨hwithin, hequal, ?_, fun h => absurd (Option.some.inj h) hobject,
      fun h => absurd (Option.some.inj h) hobject⟩
    rintro htype child rfl
    exact absurd ⟨Option.some.inj htype, rfl⟩ harray

/-- The source is as narrow as the target where `compatible` does not look: the `enum` and the
`format` of an untyped schema, the `enum` of a number, the properties that are not required. -/
inductive Covers : JsonSchema → JsonSchema → Prop where
  | untyped {source target : JsonSchema} (htype : target.type = none)
      (henum : enumWithin source.enum target.enum = true)
      (hformat : target.format ≠ none → source.format = target.format) : Covers source target
  | number {source target : JsonSchema} (hs : source.type = some .integer)
      (ht : target.type = some .number) (henum : enumWithin source.enum target.enum = true) :
      Covers source target
  | same {source target : JsonSchema} {t : SchemaType} (hs : source.type = some t)
      (ht : target.type = some t)
      (hitems : t = .array → ∀ s child, source.items = some s → target.items = some child →
        Covers s child)
      (hopen : t = .object → ∀ key child, target.properties.lookup key = some child →
        source.properties.lookup key = none → source.additionalProperties = some false)
      (hproperties : t = .object → ∀ key s child, source.properties.lookup key = some s →
        target.properties.lookup key = some child → compatible s child = true)
      (hchildren : t = .object → ∀ key s child, source.properties.lookup key = some s →
        target.properties.lookup key = some child → Covers s child) : Covers source target

theorem InEnum.within {source target : JsonSchema} {value : Json} (h : InEnum source value)
    (henum : enumWithin source.enum target.enum = true) : InEnum target value := by
  intro candidates hcandidates
  rw [hcandidates] at henum
  unfold enumWithin at henum
  dsimp only at henum
  split at henum
  · cases henum
  · rename_i values hvalues
    obtain ⟨c, hc, hcv⟩ := h values hvalues
    obtain ⟨item, hitem, hic⟩ := List.any_eq_true.1 (List.all_eq_true.1 henum c hc)
    exact ⟨item, hitem, deepEqual_trans hic hcv⟩

theorem HasFormat.of_eq {isUrl : String → Bool} {source target : JsonSchema} {value : Json}
    (h : HasFormat isUrl source value)
    (hformat : target.format ≠ none → source.format = target.format) :
    HasFormat isUrl target value := by
  intro format text hf ht
  have heq : source.format = target.format := hformat (by rw [hf]; nofun)
  exact h format text (heq.trans hf) ht

theorem RefFree.item {items : List Json} (h : RefFree (.arr items)) {item : Json}
    (hitem : item ∈ items) : RefFree item := fun ref hrefers => h ref (.item hitem hrefers)

theorem RefFree.field {fields : List (String × Json)} (h : RefFree (.obj fields))
    {field : String × Json} (hfield : field ∈ fields) : RefFree field.2 :=
  fun ref hrefers => h ref (.field hfield hrefers)

theorem RefFree.none {value : Json} (h : RefFree value) : reference? value = none := by
  cases hvalue : reference? value with
  | none => rfl
  | some ref => exact absurd (.here hvalue) (h ref)

theorem matchesType_none {value : Json} {type : Option SchemaType} (h : type = none) :
    matchesType value type = true := by
  rw [h]
  rfl

/-- The type of an array does not depend on its items. -/
theorem matchesType_arr (a b : List Json) (type : Option SchemaType) :
    matchesType (.arr a) type = matchesType (.arr b) type := by
  rcases type with _ | type
  · rfl
  · cases type <;> rfl

theorem matchesType_obj (a b : List (String × Json)) (type : Option SchemaType) :
    matchesType (.obj a) type = matchesType (.obj b) type := by
  rcases type with _ | type
  · rfl
  · cases type <;> rfl

/-- An integer is a number, and has no format. -/
theorem matchesType_number {value : Json} (h : matchesType value (some .integer) = true) :
    matchesType value (some .number) = true ∧ ∀ text, value ≠ .str text := by
  cases value with
  | num n => exact ⟨rfl, fun _ => by nofun⟩
  | _ => cases h

/-- A value without references that meets the source meets the target. -/
theorem accepts_of_covers {isUrl : String → Bool} {Ref Ref' : String → JsonSchema → Prop}
    {source : JsonSchema} {value : Json} (h : Accepts isUrl Ref source value) :
    ∀ {target : JsonSchema}, compatible source target = true → Covers source target →
      RefFree value → Accepts isUrl Ref' target value := by
  induction h with
  | reference h => exact fun _ _ hfree => absurd (.here h) (hfree _)
  | @scalar source value harr hobj htype henum hformat =>
    intro target hcompatible hcovers hfree
    cases hcovers with
    | untyped ht he hf =>
      exact .scalar harr hobj (matchesType_none ht) (henum.within he) (hformat.of_eq hf)
    | number hs ht he =>
      rw [hs] at htype
      obtain ⟨hnumber, htext⟩ := matchesType_number htype
      refine .scalar harr hobj (ht ▸ hnumber) (henum.within he) ?_
      intro format text _ hvalue
      exact absurd hvalue (htext text)
    | same hs ht =>
      have hagrees := agrees_of_compatible hs ht hcompatible
      exact .scalar harr hobj (by rwa [ht, ← hs]) (henum.within hagrees.enum)
        (hformat.of_eq hagrees.format)
  | @array source items htype henum hitems ih =>
    intro target hcompatible hcovers hfree
    cases hcovers with
    | untyped ht he hf =>
      exact .array (matchesType_none ht) (henum.within he) fun h => by cases ht.symm.trans h
    | number hs ht he =>
      rw [hs] at htype
      cases htype
    | same hs ht hchild =>
      have hagrees := agrees_of_compatible hs ht hcompatible
      refine .array (by rwa [ht, ← hs]) (henum.within hagrees.enum) ?_
      intro harray child hchild' item hitem
      obtain ⟨s, hs', hcompatible'⟩ := hagrees.items harray child hchild'
      have hsource : source.type = some .array := hs.trans (ht.symm.trans harray)
      exact ih hsource s hs' item hitem hcompatible'
        (hchild (Option.some.inj (ht.symm.trans harray)) s child hs' hchild') (hfree.item hitem)
  | @object source fields hnone htype henum hrequired hfields hclosed ih =>
    intro target hcompatible hcovers hfree
    cases hcovers with
    | untyped ht he hf =>
      exact .object hnone (matchesType_none ht) (henum.within he) (fun h => by cases ht.symm.trans h)
        (fun h => by cases ht.symm.trans h) (fun h => by cases ht.symm.trans h)
    | number hs ht he =>
      rw [hs] at htype
      cases htype
    | same hs ht _ hopen hproperties hchildren =>
      have hagrees := agrees_of_compatible hs ht hcompatible
      have hsource : ∀ {t}, target.type = some t → source.type = some t := by
        intro t h
        rw [hs, ← ht, h]
      have htarget : ∀ {t}, target.type = some t → _ = t := fun h => Option.some.inj (ht.symm.trans h)
      refine .object hnone (by rwa [ht, ← hs]) (henum.within hagrees.enum) ?_ ?_ ?_
      · intro hobject key hkey
        exact hrequired (hsource hobject) key (hagrees.required hobject key hkey)
      · intro hobject field hfield child hchild
        cases hlookup : source.properties.lookup field.1 with
        | none =>
          have hshut := hopen (htarget hobject) field.1 child hchild hlookup
          exact absurd hlookup (hclosed (hsource hobject) hshut field hfield)
        | some s =>
          exact ih (hsource hobject) field hfield s hlookup
            (hproperties (htarget hobject) _ s child hlookup hchild)
            (hchildren (htarget hobject) _ s child hlookup hchild) (hfree.field hfield)
      · intro hobject hshut field hfield hunknown
        obtain ⟨hshut', hall⟩ := hagrees.closed hobject hshut
        have hknown := hclosed (hsource hobject) hshut' field hfield
        obtain ⟨s, hs'⟩ := Option.ne_none_iff_exists'.1 hknown
        have hsome := hall _ (Entries.mem_of_lookup hs')
        rw [hunknown] at hsome
        cases hsome

/-! ## Resolved arguments -/

/-- The walk of the validator from the schema and the value comes to another schema and value. -/
inductive Reaches : JsonSchema → Json → JsonSchema → Json → Prop where
  | here {schema : JsonSchema} {value : Json} : Reaches schema value schema value
  | item {schema child schema' : JsonSchema} {items : List Json} {item value' : Json}
      (htype : schema.type = some .array) (hchild : schema.items = some child) (h : item ∈ items)
      (hitem : Reaches child item schema' value') : Reaches schema (.arr items) schema' value'
  | field {schema child schema' : JsonSchema} {fields : List (String × Json)}
      {field : String × Json} {value' : Json} (htype : schema.type = some .object)
      (hchild : schema.properties.lookup field.1 = some child) (h : field ∈ fields)
      (hfield : Reaches child field.2 schema' value') : Reaches schema (.obj fields) schema' value'

/-- Wherever the walk comes, the output a reference stands for is as narrow as the place, and an
`enum` is compared with the value that is handed over. -/
structure Compared (nodes : List CallNode) (tools : List (String × ToolSchema)) (schema : JsonSchema)
    (value : Json) : Prop where
  covers : ∀ {schema' value' ref source output}, Reaches schema value schema' value' →
    reference? value' = some ref → nodes.find? (·.id = ref) = some source →
    (tools.lookup source.tool).bind ToolSchema.output = some output → Covers output schema'
  enum : ∀ {schema' value'}, Reaches schema value schema' value' → schema'.enum ≠ none →
    reference? value' = none → RefFree value'

theorem Compared.item {nodes : List CallNode} {tools : List (String × ToolSchema)}
    {schema child : JsonSchema} {items : List Json} (h : Compared nodes tools schema (.arr items))
    (htype : schema.type = some .array) (hchild : schema.items = some child) {item : Json}
    (hitem : item ∈ items) : Compared nodes tools child item :=
  ⟨fun hreach => h.covers (.item htype hchild hitem hreach),
    fun hreach => h.enum (.item htype hchild hitem hreach)⟩

theorem Compared.field {nodes : List CallNode} {tools : List (String × ToolSchema)}
    {schema child : JsonSchema} {fields : List (String × Json)}
    (h : Compared nodes tools schema (.obj fields)) (htype : schema.type = some .object)
    {field : String × Json} (hchild : schema.properties.lookup field.1 = some child)
    (hfield : field ∈ fields) : Compared nodes tools child field.2 :=
  ⟨fun hreach => h.covers (.field htype hchild hfield hreach),
    fun hreach => h.enum (.field htype hchild hfield hreach)⟩

section Resolve

variable {outputs : Outputs}

theorem resolveReferences_arr {items : List Json} {value : Json}
    (h : resolveReferences outputs (.arr items) = some value) :
    ∃ items', value = .arr items' ∧ resolveItems outputs items = some items' := by
  rw [resolveReferences] at h
  obtain ⟨items', hitems, rfl⟩ := Option.map_eq_some_iff.1 h
  exact ⟨items', rfl, hitems⟩

theorem resolveReferences_obj {fields : List (String × Json)} {value : Json}
    (hnone : reference? (.obj fields) = none)
    (h : resolveReferences outputs (.obj fields) = some value) :
    ∃ fields', value = .obj fields' ∧ resolveFields outputs fields = some fields' := by
  rw [resolveReferences, hnone] at h
  obtain ⟨fields', hfields, rfl⟩ := Option.map_eq_some_iff.1 h
  exact ⟨fields', rfl, hfields⟩

theorem resolveReferences_scalar {value value' : Json} (harr : ∀ items, value ≠ .arr items)
    (hobj : ∀ fields, value ≠ .obj fields) (h : resolveReferences outputs value = some value') :
    value' = value := by
  cases value with
  | arr items => exact absurd rfl (harr items)
  | obj fields => exact absurd rfl (hobj fields)
  | _ => exact (Option.some.inj h).symm

theorem resolveItems_cons {item : Json} {items items' : List Json}
    (h : resolveItems outputs (item :: items) = some items') :
    ∃ a l, items' = a :: l ∧ resolveReferences outputs item = some a ∧
      resolveItems outputs items = some l := by
  rw [resolveItems] at h
  split at h
  · rename_i a l ha hl
    cases h
    exact ⟨a, l, rfl, ha, hl⟩
  · cases h

theorem resolveFields_cons {key : String} {item : Json} {fields fields' : List (String × Json)}
    (h : resolveFields outputs ((key, item) :: fields) = some fields') :
    ∃ a l, fields' = (key, a) :: l ∧ resolveReferences outputs item = some a ∧
      resolveFields outputs fields = some l := by
  rw [resolveFields] at h
  split at h
  · rename_i a l ha hl
    cases h
    exact ⟨a, l, rfl, ha, hl⟩
  · cases h

/-- Every resolved item comes from an item. -/
theorem mem_resolveItems {items : List Json} : ∀ {items' : List Json},
    resolveItems outputs items = some items' → ∀ item' ∈ items',
      ∃ item ∈ items, resolveReferences outputs item = some item' := by
  induction items with
  | nil =>
    intro items' h item' hmem
    cases h
    cases hmem
  | cons item items ih =>
    intro items' h item' hmem
    obtain ⟨a, l, rfl, ha, hl⟩ := resolveItems_cons h
    rcases List.mem_cons.1 hmem with rfl | hmem
    · exact ⟨item, List.mem_cons_self, ha⟩
    · obtain ⟨x, hx, hresolve⟩ := ih hl item' hmem
      exact ⟨x, List.mem_cons_of_mem _ hx, hresolve⟩

/-- Every resolved field comes from a field of the same key. -/
theorem mem_resolveFields {fields : List (String × Json)} : ∀ {fields' : List (String × Json)},
    resolveFields outputs fields = some fields' → ∀ field' ∈ fields',
      ∃ field ∈ fields, field.1 = field'.1 ∧ resolveReferences outputs field.2 = some field'.2 := by
  induction fields with
  | nil =>
    intro fields' h field' hmem
    cases h
    cases hmem
  | cons field fields ih =>
    intro fields' h field' hmem
    obtain ⟨a, l, rfl, ha, hl⟩ := resolveFields_cons h
    rcases List.mem_cons.1 hmem with rfl | hmem
    · exact ⟨field, List.mem_cons_self, rfl, ha⟩
    · obtain ⟨x, hx, hkey, hresolve⟩ := ih hl field' hmem
      exact ⟨x, List.mem_cons_of_mem _ hx, hkey, hresolve⟩

theorem keys_resolveFields {fields : List (String × Json)} : ∀ {fields' : List (String × Json)},
    resolveFields outputs fields = some fields' → fields'.map (·.1) = fields.map (·.1) := by
  induction fields with
  | nil =>
    intro fields' h
    cases h
    rfl
  | cons field fields ih =>
    intro fields' h
    obtain ⟨a, l, rfl, -, hl⟩ := resolveFields_cons h
    rw [List.map_cons, List.map_cons, ih hl]

theorem hasKey_eq_of_keys {fields fields' : List (String × Json)} (key : String)
    (h : fields'.map (·.1) = fields.map (·.1)) : hasKey key fields' = hasKey key fields := by
  have hany : ∀ l : List (String × Json), l.any (·.1 = key) = (l.map (·.1)).any (· = key) := by
    intro l
    rw [List.any_map]
    rfl
  rw [hasKey, hasKey, hany, hany, h]

mutual

/-- A value without references is handed over as it is. -/
theorem resolveReferences_of_refFree : ∀ {value : Json}, RefFree value →
    resolveReferences outputs value = some value
  | .null, _ => rfl
  | .bool _, _ => rfl
  | .num _, _ => rfl
  | .str _, _ => rfl
  | .arr items, h => by
    rw [resolveReferences]
    dsimp only [reference?]
    rw [resolveItems_of_refFree fun item hitem => h.item hitem]
    rfl
  | .obj fields, h => by
    rw [resolveReferences, h.none]
    dsimp only
    rw [resolveFields_of_refFree fun field hfield => h.field hfield]
    rfl

theorem resolveItems_of_refFree : ∀ {items : List Json}, (∀ item ∈ items, RefFree item) →
    resolveItems outputs items = some items
  | [], _ => rfl
  | item :: items, h => by
    rw [resolveItems, resolveReferences_of_refFree (h item List.mem_cons_self),
      resolveItems_of_refFree fun x hx => h x (List.mem_cons_of_mem _ hx)]

theorem resolveFields_of_refFree : ∀ {fields : List (String × Json)},
    (∀ field ∈ fields, RefFree field.2) → resolveFields outputs fields = some fields
  | [], _ => rfl
  | (key, item) :: fields, h => by
    rw [resolveFields, resolveReferences_of_refFree (h (key, item) List.mem_cons_self),
      resolveFields_of_refFree fun x hx => h x (List.mem_cons_of_mem _ hx)]

end

variable {isUrl : String → Bool} {nodes : List CallNode} {tools : List (String × ToolSchema)}

/-- The outputs meet the output schemas of the tools of their nodes. -/
def Typed (isUrl : String → Bool) (nodes : List CallNode) (tools : List (String × ToolSchema))
    (outputs : Outputs) : Prop :=
  ∀ id value, outputs.lookup id = some value → ∃ source output,
    nodes.find? (·.id = id) = some source ∧
      (tools.lookup source.tool).bind ToolSchema.output = some output ∧
      Accepts isUrl (fun _ _ => False) output value

theorem InEnum.resolved {schema : JsonSchema} {value value' : Json} (henum : InEnum schema value)
    (hcompared : Compared nodes tools schema value) (hnone : reference? value = none)
    (hvalue : resolveReferences outputs value = some value') : InEnum schema value' := by
  intro candidates hcandidates
  have hfree : RefFree value := hcompared.enum .here (by rw [hcandidates]; nofun) hnone
  rw [resolveReferences_of_refFree hfree] at hvalue
  cases hvalue
  exact henum candidates hcandidates

/-- Accepted arguments are accepted with the outputs in place of the references. -/
theorem accepts_resolved {Ref : String → JsonSchema → Prop} (houtputs : Typed isUrl nodes tools outputs)
    {schema : JsonSchema} {value : Json} (h : Accepts isUrl (Resolves nodes tools) schema value) :
    ∀ {value' : Json}, Compared nodes tools schema value →
      resolveReferences outputs value = some value' → RefFree value' →
      Accepts isUrl Ref schema value' := by
  induction h with
  | @reference schema value ref h href =>
    intro value' hcompared hvalue hfree
    obtain ⟨source, output, hsource, houtput, hcompatible⟩ := href
    rw [resolveReferences.eq_def, h] at hvalue
    obtain ⟨source', output', hsource', houtput', haccepts⟩ := houtputs ref value' hvalue
    cases hsource.symm.trans hsource'
    cases houtput.symm.trans houtput'
    exact accepts_of_covers haccepts hcompatible (hcompared.covers .here h hsource houtput) hfree
  | scalar harr hobj htype henum hformat =>
    intro value' hcompared hvalue hfree
    rw [resolveReferences_scalar harr hobj hvalue]
    exact .scalar harr hobj htype henum hformat
  | @array schema items htype henum hitems ih =>
    intro value' hcompared hvalue hfree
    have henum' := henum.resolved hcompared rfl hvalue
    obtain ⟨items', rfl, hresolved⟩ := resolveReferences_arr hvalue
    refine .array ?_ henum' ?_
    · rwa [matchesType_arr items' items]
    · intro harray child hchild item' hitem'
      obtain ⟨item, hitem, hresolve⟩ := mem_resolveItems hresolved item' hitem'
      exact ih harray child hchild item hitem (hcompared.item harray hchild hitem) hresolve
        (hfree.item hitem')
  | @object schema fields hnone htype henum hrequired hfields hclosed ih =>
    intro value' hcompared hvalue hfree
    have henum' := henum.resolved hcompared hnone hvalue
    obtain ⟨fields', rfl, hresolved⟩ := resolveReferences_obj hnone hvalue
    refine .object hfree.none ?_ henum' ?_ ?_ ?_
    · rwa [matchesType_obj fields' fields]
    · intro hobject key hkey
      rw [hasKey_eq_of_keys key (keys_resolveFields hresolved)]
      exact hrequired hobject key hkey
    · intro hobject field' hfield' child hchild
      obtain ⟨field, hfield, hkey, hresolve⟩ := mem_resolveFields hresolved field' hfield'
      rw [← hkey] at hchild
      exact ih hobject field hfield child hchild (hcompared.field hobject hchild hfield) hresolve
        (hfree.field hfield')
    · intro hobject hshut field' hfield'
      obtain ⟨field, hfield, hkey, -⟩ := mem_resolveFields hresolved field' hfield'
      rw [← hkey]
      exact hclosed hobject hshut field hfield

end Resolve

/-! ## Runs -/

theorem Accepts.mono {isUrl : String → Bool} {Ref Ref' : String → JsonSchema → Prop}
    (hRef : ∀ ref schema, Ref ref schema → Ref' ref schema) {schema : JsonSchema} {value : Json}
    (h : Accepts isUrl Ref schema value) : Accepts isUrl Ref' schema value := by
  induction h with
  | reference h href => exact .reference h (hRef _ _ href)
  | scalar harr hobj htype henum hformat => exact .scalar harr hobj htype henum hformat
  | array htype henum _ ih => exact .array htype henum ih
  | object h htype henum hrequired _ hclosed ih => exact .object h htype henum hrequired ih hclosed

/-- The arguments of a node of a valid graph are accepted. -/
theorem Checked.accepts {isUrl : String → Bool} {nodes : List CallNode}
    {tools : List (String × ToolSchema)} (h : Checked isUrl nodes tools) {node : CallNode}
    (hnode : node ∈ nodes) : ∃ tool, tools.lookup node.tool = some tool ∧
      Accepts isUrl (Resolves nodes tools) tool.input node.arguments := by
  have hclean := h.clean node hnode
  rw [checkNode, Check.andThen, clean_append] at hclean
  replace hclean := hclean.2
  unfold checkArguments at hclean
  cases htool : tools.lookup node.tool with
  | none =>
    rw [htool] at hclean
    exact absurd hclean (not_clean_cons rfl)
  | some tool =>
    rw [htool] at hclean
    exact ⟨tool, rfl, (clean_iff_accepts isUrl nodes tools node.id _ _ _ _).1 hclean⟩

theorem graphNodes_outputGraph {id : String} (hid : id ≠ "") (output : Json) :
    graphNodes (outputGraph id output) =
      [⟨id, "output", .obj [("value", output)], []⟩] := by
  simp [graphNodes, outputGraph, candidates, node?, hid, List.lookup_cons]

/-- An output that has passed `validateOutput` meets the output schema. -/
theorem accepts_of_validateOutput {isUrl : String → Bool} {node : CallNode} {tool : ExecutableTool}
    {output : Json} (hid : node.id ≠ "") (h : validateOutput isUrl node tool output = true) :
    Accepts isUrl (fun _ _ => False) tool.output output := by
  have hchecked := checked_of_valid h
  rw [graphNodes_outputGraph hid] at hchecked
  obtain ⟨wrapper, hwrapper, haccepts⟩ := hchecked.accepts List.mem_cons_self
  cases hwrapper
  -- No node of the graph has an output, so no reference resolves.
  have hnever : ∀ ref schema, Resolves [⟨node.id, "output", .obj [("value", output)], []⟩]
      (outputTools tool.output) ref schema → False := by
    rintro ref schema ⟨source, out, hsource, hout, -⟩
    have hmem := List.mem_of_find?_eq_some hsource
    rw [List.mem_singleton.1 hmem] at hout
    cases hout
  cases haccepts with
  | reference h => cases h
  | scalar _ hobj => exact absurd rfl (hobj _)
  | object _ _ _ _ hfields =>
    exact (hfields rfl ("value", output) List.mem_cons_self _ rfl).mono hnever

theorem mem_visitEach {α : Type} {nodes : List CallNode}
    {visit : α → Ordering → Except Stop Ordering} {l : List α}
    (hvisit : ∀ a ∈ l, ∀ s s', visit a s = .ok s' → (∀ n ∈ s.ordered, n ∈ nodes) →
      ∀ n ∈ s'.ordered, n ∈ nodes) :
    ∀ {s s' : Ordering}, visitEach visit l s = .ok s' → (∀ n ∈ s.ordered, n ∈ nodes) →
      ∀ n ∈ s'.ordered, n ∈ nodes := by
  induction l with
  | nil =>
    intro s s' h hs
    cases h
    exact hs
  | cons a l ih =>
    intro s s' h hs
    rw [visitEach] at h
    split at h
    · cases h
    · rename_i s₁ h₁
      exact ih (fun b hb => hvisit b (List.mem_cons_of_mem _ hb)) h
        (hvisit a List.mem_cons_self s s₁ h₁ hs)

theorem mem_visit {nodes : List CallNode} {fuel : ℕ} : ∀ {node : CallNode} {s s' : Ordering},
    node ∈ nodes → visit nodes fuel node s = .ok s' → (∀ n ∈ s.ordered, n ∈ nodes) →
      ∀ n ∈ s'.ordered, n ∈ nodes := by
  induction fuel with
  | zero =>
    intro node s s' _ h
    cases h
  | succ fuel ih =>
    intro node s s' hnode h hs
    rw [visit] at h
    split_ifs at h with hvisited
    · cases h
      exact hs
    · split at h
      · cases h
      · rename_i s₁ h₁
        cases h
        have hs₁ : ∀ n ∈ s₁.ordered, n ∈ nodes := by
          refine mem_visitEach ?_ h₁ hs
          intro dependency _ s s' h hs
          unfold visitDependency at h
          split at h
          · cases h
          · rename_i n hn
            exact ih (List.mem_reverse.1 (List.mem_of_find?_eq_some hn)) h hs
        intro n hn
        rcases List.mem_append.1 hn with hn | hn
        · exact hs₁ n hn
        · rw [List.mem_singleton.1 hn]
          exact hnode

/-- The ordered nodes are nodes of the graph. -/
theorem mem_topologicalOrder {fuel : ℕ} {nodes ordered : List CallNode}
    (h : topologicalOrder fuel nodes = .ok ordered) : ∀ node ∈ ordered, node ∈ nodes := by
  unfold topologicalOrder at h
  cases hvisit : visitEach (visit nodes fuel) nodes {} with
  | error stop =>
    rw [hvisit] at h
    cases h
  | ok s =>
    rw [hvisit] at h
    cases h
    exact mem_visitEach (fun node hnode s s' => mem_visit hnode) hvisit (fun _ h => (nomatch h))

theorem id_ne_of_node? {candidate : Json} {node : CallNode} (h : node? candidate = some node) :
    node.id ≠ "" := by
  unfold node? at h
  repeat' split at h
  all_goals first | cases h | skip
  · assumption
  · obtain ⟨l, -, rfl⟩ := Option.map_eq_some_iff.1 h
    assumption

theorem lookup_schemas (tools : List (String × ExecutableTool)) (name : String) :
    (schemas tools).lookup name =
      (tools.lookup name).map fun tool => { input := tool.input, output := some tool.output } := by
  induction tools with
  | nil => rfl
  | cons tool tools ih =>
    rw [schemas, List.map_cons, List.lookup_cons, List.lookup_cons]
    split
    · rfl
    · exact ih

section Execute

variable {isUrl : String → Bool} {tools : List (String × ExecutableTool)} {nodes : List CallNode}

/-- A new output that has been validated keeps the outputs typed. -/
theorem Typed.append {outputs : Outputs} (h : Typed isUrl nodes (schemas tools) outputs)
    (hids : (nodes.map (·.id)).Nodup) {node : CallNode} (hnode : node ∈ nodes) (hid : node.id ≠ "")
    {tool : ExecutableTool} (htool : tools.lookup node.tool = some tool) {output : Json}
    (houtput : validateOutput isUrl node tool output = true) :
    Typed isUrl nodes (schemas tools) (outputs ++ [(node.id, output)]) := by
  intro id value hlookup
  rw [List.lookup_append, Option.or_eq_some_iff] at hlookup
  rcases hlookup with hlookup | ⟨-, hlookup⟩
  · exact h id value hlookup
  · rw [List.lookup_cons] at hlookup
    split at hlookup
    · rename_i hkey
      cases hlookup
      rw [eq_of_beq hkey]
      refine ⟨node, tool.output, ?_, ?_, accepts_of_validateOutput hid houtput⟩
      · obtain ⟨m, hm⟩ : ∃ m, nodes.find? (·.id = node.id) = some m := by
          rw [← Option.isSome_iff_exists, List.find?_isSome]
          exact ⟨node, hnode, by simp⟩
        have heq : m.id = node.id := by simpa using List.find?_some hm
        rw [hm, List.inj_on_of_nodup_map hids (List.mem_of_find?_eq_some hm) hnode heq]
      · rw [lookup_schemas, htool]
        rfl
    · cases hlookup

/-- **Every value handed over meets the input schema of its tool.** -/
theorem accepts_of_handed (hchecked : Checked isUrl nodes (schemas tools))
    (hnamed : ∀ node ∈ nodes, node.id ≠ "")
    (hcompared : ∀ node ∈ nodes, ∀ tool, tools.lookup node.tool = some tool →
      Compared nodes (schemas tools) tool.input node.arguments)
    {observe : ℕ → CallNode → Json → Option Json} {ordered : List CallNode} :
    ∀ {sequence : ℕ} {outputs : Outputs}, (∀ node ∈ ordered, node ∈ nodes) →
      Typed isUrl nodes (schemas tools) outputs →
      ∀ p ∈ (executeNodes isUrl tools observe ordered sequence outputs).handed, RefFree p.2 →
        ∃ tool, tools.lookup p.1.tool = some tool ∧ ∀ Ref, Accepts isUrl Ref tool.input p.2 := by
  induction ordered with
  | nil =>
    intro sequence outputs _ _ p hp
    cases hp
  | cons node rest ih =>
    intro sequence outputs hmem htyped p hp hfree
    have hnode := hmem node List.mem_cons_self
    rw [executeNodes] at hp
    split at hp
    · rename_i tool arguments htool harguments
      -- What is said of the node itself, whatever its tool answers.
      have hhead : p = (node, arguments) → ∃ tool, tools.lookup p.1.tool = some tool ∧
          ∀ Ref, Accepts isUrl Ref tool.input p.2 := by
        rintro rfl
        refine ⟨tool, htool, fun Ref => ?_⟩
        obtain ⟨schema, hschema, haccepts⟩ := hchecked.accepts hnode
        rw [lookup_schemas, htool] at hschema
        cases hschema
        exact accepts_resolved htyped haccepts (hcompared node hnode tool htool) harguments hfree
      split at hp
      · rename_i output _
        split_ifs at hp with hvalid
        · rcases List.mem_cons.1 hp with hp | hp
          · exact hhead hp
          · exact ih (fun n hn => hmem n (List.mem_cons_of_mem _ hn))
              (htyped.append hchecked.ids hnode (hnamed node hnode) htool hvalid) p hp hfree
        · exact hhead (List.mem_singleton.1 hp)
      · exact hhead (List.mem_singleton.1 hp)
    · cases hp

end Execute

/-- The comparisons of the validator miss nothing about the edges of the graph. -/
def EdgesCompared (tools : List (String × ExecutableTool)) (graph : Json) : Prop :=
  ∀ node ∈ graphNodes graph, ∀ tool, tools.lookup node.tool = some tool →
    Compared (graphNodes graph) (schemas tools) tool.input node.arguments

/-- Every value that is handed to a tool and holds no reference passes `validateValue` against the
input schema of the tool. -/
def WellTyped (isUrl : String → Bool) (tools : List (String × ExecutableTool))
    (execution : Execution) : Prop :=
  ∀ p ∈ execution.handed, RefFree p.2 → ∃ tool, tools.lookup p.1.tool = some tool ∧
    ∀ nodes schemas nodeId path dependencies,
      Clean (validateValue isUrl nodes schemas nodeId p.2 tool.input path dependencies).2

/-- **The arguments handed to the tools are of the right type** when the comparisons of the
validator miss nothing. -/
theorem wellTyped_of_edgesCompared (isUrl : String → Bool) (tools : List (String × ExecutableTool))
    (fuel : ℕ) (graph : Json) (policy : ExecutionPolicy) (replayRecords : ℕ)
    (observe : ℕ → CallNode → Json → Option Json) (execution : Execution)
    (hcompared : EdgesCompared tools graph)
    (h : executeCallGraph isUrl tools fuel graph policy replayRecords observe = .ok execution) :
    WellTyped isUrl tools execution := by
  unfold executeCallGraph at h
  dsimp only at h
  split_ifs at h with _ hvalid
  split at h
  · cases h
  · rename_i ordered hordered
    split_ifs at h
    split at h
    · cases h
    · cases h
      have hchecked := checked_of_valid (by simpa using hvalid)
      have hnamed : ∀ node ∈ graphNodes graph, node.id ≠ "" := by
        intro node hnode
        obtain ⟨candidate, -, hcandidate⟩ := List.mem_filterMap.1 hnode
        exact id_ne_of_node? hcandidate
      have htyped : Typed isUrl (graphNodes graph) (schemas tools) [] := by
        intro id value hlookup
        cases hlookup
      intro p hp hfree
      obtain ⟨tool, htool, haccepts⟩ := accepts_of_handed hchecked hnamed hcompared
        (mem_topologicalOrder hordered) htyped p hp hfree
      refine ⟨tool, htool, fun nodes schemas nodeId path dependencies => ?_⟩
      exact (clean_iff_accepts isUrl nodes schemas nodeId _ _ _ _).2 (haccepts _)

/-- A tool with the output schema, and one that takes a number. -/
def pipeTools (output : JsonSchema) : List (String × ExecutableTool) :=
  [("produce", { capability := "read", input := { type := some .object }, output }),
    ("consume", { capability := "read"
                  input := { type := some .object, properties := [("value", { type := some .number })] }
                  output := { type := some .null } })]

/-- The output of the one is the argument of the other. -/
def pipeGraph : Json :=
  .obj [("nodes", .arr [
    .obj [("id", .str "a"), ("tool", .str "produce"), ("arguments", .obj [])],
    .obj [("id", .str "b"), ("tool", .str "consume"), ("dependsOn", .arr [.str "a"]),
      ("arguments", .obj [("value", .obj [("$ref", .str "a")])])]])]

/-- `a` answers with the value, and `b` with `null`. -/
def pipeObserve (value : Json) : ℕ → CallNode → Json → Option Json := fun _ node _ =>
  if node.id = "a" then some value else some .null

def pipeRun (output : JsonSchema) (value : Json) : Except Refusal Execution :=
  executeCallGraph (fun _ => true) (pipeTools output) 3 pipeGraph { allowedCapabilities := ["read"] }
    0 (pipeObserve value)

/-- The two nodes of the graph. -/
def pipeNodes : List CallNode :=
  [⟨"a", "produce", .obj [], []⟩,
    ⟨"b", "consume", .obj [("value", .obj [("$ref", .str "a")])], ["a"]⟩]

/-- `b` is handed what `a` has answered. -/
def pipeExecution (value : Json) : Execution :=
  ⟨pipeNodes.zip [.obj [], .obj [("value", value)]], some [("a", value), ("b", .null)]⟩

theorem edgesCompared_pipe : EdgesCompared (pipeTools { type := some .number }) pipeGraph := by
  have hnodes : graphNodes pipeGraph = pipeNodes := by decide +kernel
  intro node hnode tool htool
  rw [hnodes] at hnode ⊢
  rcases List.mem_cons.1 hnode with rfl | hnode
  · cases htool
    constructor
    · intro _ _ _ _ _ hreach href
      cases hreach with
      | here => cases href
      | field _ _ h => cases h
    · intro _ _ hreach henum
      cases hreach with
      | here => exact absurd rfl henum
      | field _ _ h => cases h
  · rw [List.mem_singleton.1 hnode] at htool ⊢
    cases htool
    constructor
    · intro _ _ _ _ _ hreach href hsource houtput
      cases hreach with
      | here => cases href
      | field _ hchild h hfield =>
        rw [List.mem_singleton.1 h] at hchild hfield
        cases hchild
        cases hfield with
        | here =>
          cases href
          cases hsource
          cases houtput
          exact .same rfl rfl (nomatch ·) (nomatch ·) (nomatch ·) (nomatch ·)
        | field htype => cases htype
    · intro _ _ hreach henum hnone
      cases hreach with
      | here => exact absurd rfl henum
      | field _ hchild h hfield =>
        rw [List.mem_singleton.1 h] at hchild hfield
        cases hchild
        cases hfield with
        | here => exact absurd rfl henum
        | field htype => cases htype

/-- The number that `a` answers with is handed to `b`. -/
theorem wellTyped_of_edgesCompared_pipe :
    pipeRun { type := some .number } (.num 1) = .ok (pipeExecution (.num 1)) ∧
      WellTyped (fun _ => true) (pipeTools { type := some .number }) (pipeExecution (.num 1)) :=
  ⟨rfl, wellTyped_of_edgesCompared _ _ 3 _ { allowedCapabilities := ["read"] } 0
    (pipeObserve (.num 1)) _ edgesCompared_pipe rfl⟩

/-- An output without a type is compatible with a number, and a text is handed to `b`. -/
theorem untyped_output_not_wellTyped :
    (validateCallGraph (fun _ => true) pipeGraph (schemas (pipeTools {}))).valid = true ∧
      pipeRun {} (.str "text") = .ok (pipeExecution (.str "text")) ∧
      ¬ WellTyped (fun _ => true) (pipeTools {}) (pipeExecution (.str "text")) := by
  refine ⟨by decide +kernel, rfl, ?_⟩
  intro h
  have hfree : RefFree (.obj [("value", .str "text")]) := by
    intro ref hrefers
    obtain ⟨field, hfield, hrefers⟩ := (refersTo_obj rfl).1 hrefers
    rw [List.mem_singleton.1 hfield] at hrefers
    exact not_refersTo_str hrefers
  obtain ⟨tool, htool, hclean⟩ := h _ (List.mem_cons_of_mem _ List.mem_cons_self) hfree
  cases htool
  exact hclean [] [] "b" "$" [] _ List.mem_cons_self rfl

end AgentOrchestrator.Calls
