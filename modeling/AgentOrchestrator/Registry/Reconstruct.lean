import AgentOrchestrator.Registry.Diff
import Mathlib.Data.List.Nodup

/-!
# Reconstructing one side from the other

The changes of a comparison turn one side into the other, and back, exactly when no key that
objects inherit is an object's own on one side only.
-/

namespace AgentOrchestrator.Registry

/-! ## Values up to the order of keys -/

/-- Values that are equal up to the order of keys, except in arrays. -/
inductive Same : Json → Json → Prop where
  | refl (value : Json) : Same value value
  | obj {a b : List (String × Json)} (hkeys : ∀ key, a.lookup key = none ↔ b.lookup key = none)
      (hvalues : ∀ key x y, a.lookup key = some x → b.lookup key = some y → Same x y) :
      Same (.obj a) (.obj b)

theorem rel_refl (value : Option Json) : Option.Rel Same value value := by
  cases value with
  | none => exact .none
  | some value => exact .some (.refl value)

theorem Same.of_rel {a b : List (String × Json)}
    (h : ∀ key, Option.Rel Same (a.lookup key) (b.lookup key)) : Same (.obj a) (.obj b) := by
  refine .obj ?_ ?_
  · intro key
    have hkey := h key
    constructor
    · intro hnone
      rw [hnone] at hkey
      generalize b.lookup key = y at hkey
      cases hkey
      rfl
    · intro hnone
      rw [hnone] at hkey
      generalize a.lookup key = x at hkey
      cases hkey
      rfl
  · intro key x y hx hy
    have hkey := h key
    rw [hx, hy] at hkey
    cases hkey with
    | some hsame => exact hsame

theorem Same.lookup {a b : List (String × Json)} (h : Same (.obj a) (.obj b)) (key : String) :
    Option.Rel Same (a.lookup key) (b.lookup key) := by
  cases h with
  | refl => exact rel_refl _
  | obj hkeys hvalues =>
    cases hx : a.lookup key with
    | none =>
      rw [(hkeys key).1 hx]
      exact .none
    | some x =>
      cases hy : b.lookup key with
      | none =>
        rw [(hkeys key).2 hy] at hx
        cases hx
      | some y => exact .some (hvalues key x y hx hy)

/-! ## Applying changes -/

/-- The segments of the pointer. -/
def segments (path : String) : Option (List String) :=
  (JsonPointer.decode path.toList).map fun l => l.map String.ofList

/-- The fields with another value, or without one, at the key. -/
def put (key : String) (value : Option Json) (fields : List (String × Json)) :
    List (String × Json) :=
  match value with
  | none => fields.filter fun field => field.1 ≠ key
  | some value =>
    if fields.any fun field => field.1 = key then
      fields.map fun field => if field.1 = key then (key, value) else field
    else fields ++ [(key, value)]

/-- What a change writes: nothing, or a JSON value.  Inherited members are no JSON values. -/
def written : Option Value → Option (Option Json)
  | none => some none
  | some (.json value) => some (some value)
  | some _ => none

/-- The document with another value, or without one, at the pointer. -/
def setAt : List String → Option Value → Option Json → Option (Option Json)
  | [], new, _ => written new
  | key :: rest, new, some (.obj fields) =>
    (setAt rest new (fields.lookup key)).map fun value => some (.obj (put key value fields))
  | _, _, _ => none

def applyChange (pick : Change → Option Value) (document : Option Json) (change : Change) :
    Option (Option Json) :=
  (segments change.path).bind fun segments => setAt segments (pick change) document

/-- The document after the changes; `pick` is the side of a change that is applied. -/
def apply (pick : Change → Option Value) (changes : List Change) (document : Option Json) :
    Option (Option Json) :=
  changes.foldlM (applyChange pick) document

theorem apply_append (pick : Change → Option Value) (a b : List Change) (document : Option Json) :
    apply pick (a ++ b) document = (apply pick a document).bind (apply pick b) :=
  List.foldlM_append

theorem lookup_filter_ne (key k : String) (fields : List (String × Json)) :
    (fields.filter fun field => field.1 ≠ key).lookup k =
      if k = key then none else fields.lookup k := by
  induction fields with
  | nil => simp
  | cons field fields ih =>
    by_cases hfield : field.1 = key
    · rw [List.filter_cons_of_neg (by simpa using hfield), ih, List.lookup_cons, hfield]
      split_ifs with hk
      · rfl
      · rw [beq_false_of_ne hk]
    · rw [List.filter_cons_of_pos (by simpa using hfield), List.lookup_cons, List.lookup_cons, ih]
      by_cases hk : k = key
      · have hne : k ≠ field.1 := fun h => hfield (h.symm.trans hk)
        simp [hk, beq_false_of_ne (hk ▸ hne)]
      · simp [hk]

theorem lookup_replace (key k : String) (value : Json) (fields : List (String × Json)) :
    (fields.map fun field => if field.1 = key then (key, value) else field).lookup k =
      if k = key then (fields.lookup key).map fun _ => value else fields.lookup k := by
  induction fields with
  | nil => simp
  | cons field fields ih =>
    rw [List.map_cons, List.lookup_cons, List.lookup_cons, List.lookup_cons, ih]
    by_cases hfield : field.1 = key
    · rw [if_pos hfield, hfield]
      by_cases hk : k = key <;> simp [hk, beq_false_of_ne]
    · rw [if_neg hfield]
      have hne : (key == field.1) = false := beq_false_of_ne fun h => hfield h.symm
      by_cases hk : k = key
      · simp [hk, hne]
      · simp [hk]

theorem lookup_append_singleton (key k : String) (value : Json) (fields : List (String × Json)) :
    (fields ++ [(key, value)]).lookup k =
      (fields.lookup k).or (if k = key then some value else none) := by
  rw [List.lookup_append, List.lookup_cons, List.lookup_nil]
  by_cases hk : k = key
  · simp [hk]
  · simp [hk, beq_false_of_ne hk]

theorem lookup_isSome (key : String) (fields : List (String × Json)) :
    (fields.lookup key).isSome = fields.any fun field => field.1 = key := by
  induction fields with
  | nil => rfl
  | cons field fields ih =>
    rw [List.lookup_cons, List.any_cons, ← ih]
    by_cases hk : key = field.1
    · simp [hk]
    · rw [beq_false_of_ne hk, decide_eq_false fun h : field.1 = key => hk h.symm, Bool.false_or]

@[simp] theorem lookup_put (key k : String) (value : Option Json) (fields : List (String × Json)) :
    (put key value fields).lookup k = if k = key then value else fields.lookup k := by
  cases value with
  | none => exact lookup_filter_ne key k fields
  | some value =>
    unfold put
    dsimp only
    rw [← lookup_isSome]
    split_ifs with hsome hk hk
    · rw [lookup_replace, if_pos hk]
      obtain ⟨old, hold⟩ := Option.isSome_iff_exists.1 hsome
      rw [hold, Option.map_some]
    · rw [lookup_replace, if_neg hk]
    · rw [lookup_append_singleton, if_pos hk, hk]
      simp only [Bool.not_eq_true, Option.isSome_eq_false_iff, Option.isNone_iff_eq_none] at hsome
      rw [hsome, Option.none_or]
    · rw [lookup_append_singleton, if_neg hk, Option.or_none]

/-! ## Changes below a key -/

/-- The change of a value that stands below a pointer. -/
def Change.under (start : String) (change : Change) : Change :=
  { change with path := start ++ change.path }

theorem pointer_toList (segment : String) :
    (pointer segment).toList = JsonPointer.escape segment.toList := by
  unfold pointer replaceAll JsonPointer.escape
  rw [String.toList_ofList, List.flatMap_assoc]
  refine List.flatMap_congr ?_
  intro c _
  unfold JsonPointer.escapeChar
  split_ifs <;> simp_all

theorem segments_under {key path : String} {l : List String} (h : segments path = some l) :
    segments ("/" ++ pointer key ++ path) = some (key :: l) := by
  obtain ⟨m, hm, rfl⟩ := Option.map_eq_some_iff.1 h
  have htext : ("/" ++ pointer key ++ path).toList =
      '/' :: (JsonPointer.escape key.toList ++ path.toList) := by
    rw [String.toList_append, String.toList_append, pointer_toList]
    rfl
  unfold segments
  rw [htext, JsonPointer.decode_cons hm, Option.map_some, List.map_cons, String.ofList_toList]

/-- The paths of the changes are pointers. -/
def Pointed (changes : List Change) : Prop := ∀ change ∈ changes, ∃ l, segments change.path = some l

section Apply

variable {pick : Change → Option Value} (hpick : ∀ start change, pick (change.under start) = pick change)

include hpick

/-- Changes below a key change the value of the key. -/
theorem apply_under_some {key : String} {changes : List Change} (hpointed : Pointed changes) :
    ∀ {fields : List (String × Json)} {value : Option Json},
    apply pick changes (fields.lookup key) = some value →
      ∃ fields', apply pick (changes.map (Change.under ("/" ++ pointer key))) (some (.obj fields)) =
        some (some (.obj fields')) ∧
          ∀ k, fields'.lookup k = if k = key then value else fields.lookup k := by
  induction changes with
  | nil =>
    intro fields value h
    refine ⟨fields, rfl, ?_⟩
    intro k
    obtain rfl := Option.some.inj h
    split_ifs with hk
    · rw [hk]
    · rfl
  | cons change changes ih =>
    intro fields value h
    unfold Pointed at hpointed
    rw [List.forall_mem_cons] at hpointed
    obtain ⟨⟨l, hl⟩, hpointed⟩ := hpointed
    unfold apply at h
    rw [List.foldlM_cons, applyChange, hl] at h
    obtain ⟨new, hnew, h⟩ := Option.bind_eq_some_iff.1 h
    rw [Option.bind_some] at hnew
    have hset : applyChange pick (some (.obj fields)) (change.under ("/" ++ pointer key)) =
        some (some (.obj (put key new fields))) := by
      unfold applyChange
      rw [hpick, Change.under, segments_under hl, Option.bind_some, setAt, hnew, Option.map_some]
    have hlookup : (put key new fields).lookup key = new := by rw [lookup_put, if_pos rfl]
    rw [← hlookup] at h
    obtain ⟨fields', hfields', hk⟩ := ih hpointed h
    refine ⟨fields', ?_, ?_⟩
    · unfold apply
      rw [List.map_cons, List.foldlM_cons, hset]
      exact hfields'
    · intro k
      rw [hk, lookup_put]
      split_ifs <;> rfl

theorem apply_under_none {key : String} {changes : List Change} (hpointed : Pointed changes) :
    ∀ {fields : List (String × Json)}, apply pick changes (fields.lookup key) = none →
      apply pick (changes.map (Change.under ("/" ++ pointer key))) (some (.obj fields)) = none := by
  induction changes with
  | nil =>
    intro fields h
    cases h
  | cons change changes ih =>
    intro fields h
    unfold Pointed at hpointed
    rw [List.forall_mem_cons] at hpointed
    obtain ⟨⟨l, hl⟩, hpointed⟩ := hpointed
    have hset : applyChange pick (some (.obj fields)) (change.under ("/" ++ pointer key)) =
        (setAt l (pick change) (fields.lookup key)).map fun value =>
          some (.obj (put key value fields)) := by
      unfold applyChange
      rw [hpick, Change.under, segments_under hl, Option.bind_some, setAt]
    unfold apply at h ⊢
    rw [List.map_cons, List.foldlM_cons, hset]
    rw [List.foldlM_cons, applyChange, hl, Option.bind_some] at h
    cases hnew : setAt l (pick change) (fields.lookup key) with
    | none => rfl
    | some new =>
      rw [hnew] at h
      have hlookup : (put key new fields).lookup key = new := by rw [lookup_put, if_pos rfl]
      rw [← hlookup] at h
      exact ih hpointed h

/-- Changes below several keys change the values of the keys. -/
theorem apply_keys {branch : String → List Change} {value : String → Option Json}
    {l : List String} (hpointed : ∀ key ∈ l, Pointed (branch key)) (hnodup : l.Nodup) :
    ∀ {fields : List (String × Json)},
    (∀ key ∈ l, apply pick (branch key) (fields.lookup key) = some (value key)) →
      ∃ fields', apply pick (l.flatMap fun key => (branch key).map
          (Change.under ("/" ++ pointer key))) (some (.obj fields)) = some (some (.obj fields')) ∧
        ∀ k, fields'.lookup k = if k ∈ l then value k else fields.lookup k := by
  induction l with
  | nil =>
    intro fields _
    exact ⟨fields, rfl, fun k => by simp⟩
  | cons key l ih =>
    intro fields h
    rw [List.forall_mem_cons] at hpointed h
    obtain ⟨hkey, hnodup⟩ := List.nodup_cons.1 hnodup
    obtain ⟨fields₁, h₁, hlookup₁⟩ := apply_under_some hpick hpointed.1 h.1
    have hrest : ∀ k ∈ l, apply pick (branch k) (fields₁.lookup k) = some (value k) := by
      intro k hk
      have hne : k ≠ key := fun heq => hkey (heq ▸ hk)
      rw [hlookup₁, if_neg hne]
      exact h.2 k hk
    obtain ⟨fields₂, h₂, hlookup₂⟩ := ih hpointed.2 hnodup hrest
    refine ⟨fields₂, ?_, ?_⟩
    · rw [List.flatMap_cons, apply_append, h₁]
      exact h₂
    · intro k
      rw [hlookup₂, hlookup₁]
      by_cases hk : k = key
      · simp [hk, hkey]
      · simp [hk]

/-- Changes below several keys can be applied when those below each of them can. -/
theorem apply_keys_some {branch : String → List Change} {l : List String}
    (hpointed : ∀ key ∈ l, Pointed (branch key)) (hnodup : l.Nodup) :
    ∀ {fields : List (String × Json)} {document : Option Json},
    apply pick (l.flatMap fun key => (branch key).map (Change.under ("/" ++ pointer key)))
        (some (.obj fields)) = some document →
      ∀ key ∈ l, ∃ value, apply pick (branch key) (fields.lookup key) = some value := by
  induction l with
  | nil =>
    intro fields document _ key hkey
    cases hkey
  | cons key l ih =>
    intro fields document h
    rw [List.forall_mem_cons] at hpointed
    obtain ⟨hkey, hnodup⟩ := List.nodup_cons.1 hnodup
    rw [List.flatMap_cons, apply_append] at h
    obtain ⟨document₁, h₁, h₂⟩ := Option.bind_eq_some_iff.1 h
    cases hfirst : apply pick (branch key) (fields.lookup key) with
    | none =>
      rw [apply_under_none hpick hpointed.1 hfirst] at h₁
      cases h₁
    | some value =>
      obtain ⟨fields₁, hfields₁, hlookup₁⟩ := apply_under_some hpick hpointed.1 hfirst
      rw [hfields₁] at h₁
      obtain rfl := Option.some.inj h₁
      have hrest := ih hpointed.2 hnodup h₂
      intro k hk
      rcases List.mem_cons.1 hk with rfl | hk
      · exact ⟨value, hfirst⟩
      · have hne : k ≠ key := fun heq => hkey (heq ▸ hk)
        obtain ⟨v, hv⟩ := hrest k hk
        rw [hlookup₁, if_neg hne] at hv
        exact ⟨v, hv⟩

end Apply

/-! ## The changes of a comparison -/

section Compare

variable {number : Json.NumberFormat}

/-- What holds of two values when it holds of their members holds of all values. -/
theorem diff_induction {motive : Option Value → Option Value → Prop}
    (h : ∀ baseline experiment, (∀ key ∈ keys baseline experiment,
      motive (member baseline key) (member experiment key)) → motive baseline experiment)
    (baseline experiment : Option Value) : motive baseline experiment := by
  induction hn : weight baseline + weight experiment using Nat.strong_induction_on
    generalizing baseline experiment with
  | _ n ih =>
    subst hn
    refine h baseline experiment ?_
    intro key hkey
    exact ih _ (weight_members_lt hkey) _ _ rfl

theorem under_under (start path : String) (change : Change) :
    (change.under path).under start = change.under (start ++ path) := by
  simp [Change.under, String.append_assoc]

theorem diffValues_path (path : String) (baseline experiment : Option Value) :
    diffValues number path baseline experiment =
      (diffValues number "" baseline experiment).map (Change.under path) := by
  induction baseline, experiment using diff_induction generalizing path with
  | h baseline experiment ih =>
    rw [diffValues_eq, diffValues_eq number ""]
    split_ifs with htext hobject
    · rfl
    · rw [List.map_flatMap]
      refine List.flatMap_congr ?_
      intro key hkey
      rw [ih key hkey, ih key hkey ("" ++ "/" ++ pointer key), List.map_map]
      refine List.map_congr_left ?_
      intro change _
      rw [Function.comp_apply, under_under]
      simp [String.append_assoc]
    · simp [Change.under]

/-- The changes of the values at a key. -/
def branch (number : Json.NumberFormat) (baseline experiment : Option Value) (key : String) :
    List Change :=
  diffValues number "" (member baseline key) (member experiment key)

theorem diffValues_of_eq {baseline experiment : Option Value}
    (h : stringify number baseline = stringify number experiment) :
    diffValues number "" baseline experiment = [] := by
  rw [diffValues_eq, if_pos h]

theorem diffValues_objects {baseline experiment : Option Value}
    (h : stringify number baseline ≠ stringify number experiment)
    (hobject : isObject baseline ∧ isObject experiment) :
    diffValues number "" baseline experiment = (keys baseline experiment).flatMap fun key =>
      (branch number baseline experiment key).map (Change.under ("/" ++ pointer key)) := by
  rw [diffValues_eq, if_neg h, if_pos hobject]
  refine List.flatMap_congr ?_
  intro key _
  rw [diffValues_path]
  simp [branch]

theorem diffValues_leaf {baseline experiment : Option Value}
    (h : stringify number baseline ≠ stringify number experiment)
    (hobject : ¬ (isObject baseline ∧ isObject experiment)) :
    diffValues number "" baseline experiment = [⟨"", baseline, experiment⟩] := by
  rw [diffValues_eq, if_neg h, if_neg hobject]

theorem pointed_diffValues (baseline experiment : Option Value) :
    Pointed (diffValues number "" baseline experiment) := by
  induction baseline, experiment using diff_induction with
  | h baseline experiment ih =>
    by_cases htext : stringify number baseline = stringify number experiment
    · rw [diffValues_of_eq htext]
      intro change hchange
      cases hchange
    · by_cases hobject : isObject baseline ∧ isObject experiment
      · rw [diffValues_objects htext hobject]
        intro change hchange
        obtain ⟨key, hkey, hchange⟩ := List.mem_flatMap.1 hchange
        obtain ⟨change, hmem, rfl⟩ := List.mem_map.1 hchange
        obtain ⟨l, hl⟩ := ih key hkey change hmem
        exact ⟨key :: l, segments_under hl⟩
      · rw [diffValues_leaf htext hobject]
        intro change hchange
        rw [List.mem_singleton.1 hchange]
        exact ⟨[], rfl⟩

theorem nodup_keys (baseline experiment : Option Value) : (keys baseline experiment).Nodup :=
  (List.perm_insertionSort _ _).nodup_iff.2 (List.nodup_dedup _)

/-! ## Neither path leads to the other -/

/-- The pointer of one change is no prefix of that of the other. -/
def Apart (c d : Change) : Prop :=
  ∀ l m, segments c.path = some l → segments d.path = some m → ¬ l <+: m ∧ ¬ m <+: l

theorem pairwise_apart (baseline experiment : Option Value) :
    (diffValues number "" baseline experiment).Pairwise Apart := by
  induction baseline, experiment using diff_induction with
  | h baseline experiment ih =>
    by_cases htext : stringify number baseline = stringify number experiment
    · rw [diffValues_of_eq htext]
      exact List.Pairwise.nil
    · by_cases hobject : isObject baseline ∧ isObject experiment
      · rw [diffValues_objects htext hobject, List.pairwise_flatMap]
        constructor
        · intro key hkey
          rw [List.pairwise_map]
          refine List.Pairwise.imp_of_mem ?_ (ih key hkey)
          intro c d hc hd hapart l m hl hm
          obtain ⟨p, hp⟩ := pointed_diffValues _ _ c hc
          obtain ⟨q, hq⟩ := pointed_diffValues _ _ d hd
          obtain rfl := Option.some.inj ((segments_under hp).symm.trans hl)
          obtain rfl := Option.some.inj ((segments_under hq).symm.trans hm)
          rw [List.cons_prefix_cons, List.cons_prefix_cons]
          obtain ⟨hpq, hqp⟩ := hapart p q hp hq
          exact ⟨fun h => hpq h.2, fun h => hqp h.2⟩
        · refine List.Pairwise.imp ?_ (nodup_keys baseline experiment)
          intro key key' hne c hc d hd l m hl hm
          obtain ⟨c, hmem, rfl⟩ := List.mem_map.1 hc
          obtain ⟨d, hmem', rfl⟩ := List.mem_map.1 hd
          obtain ⟨p, hp⟩ := pointed_diffValues _ _ c hmem
          obtain ⟨q, hq⟩ := pointed_diffValues _ _ d hmem'
          obtain rfl := Option.some.inj ((segments_under hp).symm.trans hl)
          obtain rfl := Option.some.inj ((segments_under hq).symm.trans hm)
          rw [List.cons_prefix_cons, List.cons_prefix_cons]
          exact ⟨fun h => hne h.1, fun h => hne h.1.symm⟩
      · rw [diffValues_leaf htext hobject]
        exact List.pairwise_singleton _ _

/-! ## Equal values -/

theorem stringify_json {x y : Json} :
    stringify number (some (.json x)) = stringify number (some (.json y)) ↔ x = y := by
  constructor
  · intro h
    exact Json.print_injective (Option.some.inj h)
  · rintro rfl
    rfl

theorem member_of_lookup {fields : List (String × Json)} {key : String} {item : Json}
    (h : fields.lookup key = some item) :
    member (some (.json (.obj fields))) key = some (.json item) := by
  simp only [member, h]

theorem member_of_lookup_none {fields : List (String × Json)} {key : String}
    (h : fields.lookup key = none) : member (some (.json (.obj fields))) key = inherited key := by
  simp only [member, h]

/-- Nothing is reported of values that are the same up to the order of keys. -/
theorem diffValues_of_same {x y : Json} (h : Same x y) :
    diffValues number "" (some (.json x)) (some (.json y)) = [] := by
  induction h with
  | refl value => exact diffValues_of_eq rfl
  | @obj a b hkeys hvalues ih =>
    by_cases htext : stringify number (some (.json (.obj a))) = stringify number (some (.json (.obj b)))
    · exact diffValues_of_eq htext
    · rw [diffValues_objects htext ⟨rfl, rfl⟩, List.flatMap_eq_nil_iff]
      intro key hkey
      rw [List.map_eq_nil_iff]
      have hboth : ∃ v w, a.lookup key = some v ∧ b.lookup key = some w := by
        rcases mem_keys.1 hkey with hmem | hmem
        · obtain ⟨v, hv⟩ := lookup_of_mem_keys hmem
          cases hw : b.lookup key with
          | none =>
            rw [(hkeys key).2 hw] at hv
            cases hv
          | some w => exact ⟨v, w, hv, rfl⟩
        · obtain ⟨w, hw⟩ := lookup_of_mem_keys hmem
          cases hv : a.lookup key with
          | none =>
            rw [(hkeys key).1 hv] at hw
            cases hw
          | some v => exact ⟨v, w, rfl, hw⟩
      obtain ⟨v, w, hv, hw⟩ := hboth
      unfold branch
      rw [member_of_lookup hv, member_of_lookup hw]
      exact ih key v w hv hw

end Compare

end AgentOrchestrator.Registry
