import AgentOrchestrator.Calls.Canonical

/-!
# A canonical form

Two JSON values are the same up to the order of their keys exactly when they are equal once their
keys are sorted, hence exactly when they have one canonical text.
-/

namespace AgentOrchestrator

namespace Json

/-! ## Equality up to the order of keys -/

mutual

/-- No object has a key twice. -/
def DistinctKeys : Json → Prop
  | .null | .bool _ | .num _ | .str _ => True
  | .arr items => DistinctItems items
  | .obj fields => DistinctFields fields

def DistinctItems : List Json → Prop
  | [] => True
  | item :: items => item.DistinctKeys ∧ DistinctItems items

def DistinctFields : List (String × Json) → Prop
  | [] => True
  | (key, value) :: fields =>
    value.DistinctKeys ∧ key ∉ fields.map Prod.fst ∧ DistinctFields fields

end

mutual

/-- Equality up to the order of keys: each key of the first object has the same value in the second,
which has no more keys. -/
def Same : Json → Json → Prop
  | .null, .null => True
  | .bool a, .bool b => a = b
  | .num a, .num b => a = b
  | .str a, .str b => a = b
  | .arr a, .arr b => SameItems a b
  | .obj a, .obj b => a.length = b.length ∧ SameFields a b
  | _, _ => False

def SameItems : List Json → List Json → Prop
  | [], [] => True
  | x :: a, y :: b => x.Same y ∧ SameItems a b
  | _, _ => False

/-- The second fields have every key of the first, with the same value. -/
def SameFields : List (String × Json) → List (String × Json) → Prop
  | [], _ => True
  | (key, value) :: a, b => (∃ w, b.lookup key = some w ∧ value.Same w) ∧ SameFields a b

end

theorem sameFields_cons {key : String} {value w : Json} {a b : List (String × Json)}
    (h : b.lookup key = some w) :
    SameFields ((key, value) :: a) b ↔ value.Same w ∧ SameFields a b := by
  simp [SameFields, h]

theorem distinctFields_iff {fields : List (String × Json)} :
    DistinctFields fields ↔
      (fields.map Prod.fst).Nodup ∧ ∀ field ∈ fields, field.2.DistinctKeys := by
  induction fields with
  | nil => simp [DistinctFields]
  | cons field fields ih =>
    rw [DistinctFields, ih, List.map_cons, List.nodup_cons, List.forall_mem_cons]
    tauto

variable {number : NumberFormat}

mutual

/-- What is read back has distinct keys. -/
theorem Readable.distinctKeys : ∀ {value : Json}, value.Readable number → value.DistinctKeys
  | .null, _ => trivial
  | .bool _, _ => trivial
  | .num _, _ => trivial
  | .str _, _ => trivial
  | .arr items, h => distinctItems_of_readable items h
  | .obj fields, h => distinctFields_of_readable fields h

theorem distinctItems_of_readable : ∀ items, ReadableItems number items → DistinctItems items
  | [], _ => trivial
  | _ :: items, h => ⟨Readable.distinctKeys h.1, distinctItems_of_readable items h.2⟩

theorem distinctFields_of_readable : ∀ fields, ReadableFields number fields → DistinctFields fields
  | [], _ => trivial
  | _ :: fields, h =>
    ⟨Readable.distinctKeys h.1, h.2.1, distinctFields_of_readable fields h.2.2⟩

end

end Json

namespace Calls

open Json (DistinctKeys DistinctItems DistinctFields Same SameItems SameFields)

/-! ## Sorted keys -/

theorem unitsLe_antisymm : ∀ {l m : List ℕ}, unitsLe l m = true → unitsLe m l = true → l = m
  | [], [], _, _ => rfl
  | [], _ :: _, _, h => nomatch h
  | _ :: _, [], h, _ => nomatch h
  | a :: l, b :: m, hlm, hml => by
    simp only [unitsLe, Bool.or_eq_true, Bool.and_eq_true, decide_eq_true_eq] at hlm hml
    rcases hlm with hab | ⟨rfl, hlm⟩
    · rcases hml with hba | ⟨rfl, -⟩ <;> omega
    · rcases hml with haa | ⟨-, hml⟩
      · omega
      · rw [unitsLe_antisymm hlm hml]

instance : Std.Antisymm TextLe where
  antisymm s t hst hts := by
    rw [← Utf16.ofUnits_toUnits s, ← Utf16.ofUnits_toUnits t, unitsLe_antisymm hst hts]

mutual

/-- **Values that are the same up to the order of their keys have one copy.** -/
theorem cloneJson_eq_of_same : ∀ {a b : Json}, a.DistinctKeys → a.Same b → cloneJson a = cloneJson b
  | .null, b, _, h => by
    cases b <;> trivial
  | .bool _, b, _, h => by
    cases b <;> cases h
    rfl
  | .num _, b, _, h => by
    cases b <;> cases h
    rfl
  | .str _, b, _, h => by
    cases b <;> cases h
    rfl
  | .arr a, b, ha, h => by
    cases b with
    | arr b => exact congrArg Json.arr (cloneItems_eq_of_same ha h)
    | null | bool | num | str | obj => cases h
  | .obj a, b, ha, h => by
    cases b with
    | obj b =>
      have hkeys := (Json.distinctFields_iff.1 ha).1
      have hlookup := lookup_cloneFields_of_same ha h.2
      have hmapped : ((a.map fun f => (f.1, cloneJson f.2)).map Prod.fst).Nodup := by
        rw [List.map_map]
        exact hkeys
      have hlength : (cloneFields b).length ≤ (a.map fun f => (f.1, cloneJson f.2)).length := by
        rw [(cloneFields_perm b).length_eq, List.length_map, List.length_map, h.1]
      have hperm := Entries.perm_of_lookup hmapped hlength
        (List.forall_mem_map.2 hlookup)
      exact congrArg Json.obj (Entries.eq_of_perm TextLe ((cloneFields_keys a).nodup_iff.2 hkeys)
        ((cloneFields_perm a).trans hperm) (cloneFields_pairwise a) (cloneFields_pairwise b))
    | null | bool | num | str | arr => cases h

theorem cloneItems_eq_of_same : ∀ {a b : List Json}, DistinctItems a → SameItems a b →
    cloneItems a = cloneItems b
  | [], b, _, h => by
    cases b with
    | nil => rfl
    | cons y b => cases h
  | x :: a, b, ha, h => by
    cases b with
    | nil => cases h
    | cons y b =>
      rw [cloneItems, cloneItems, cloneJson_eq_of_same ha.1 h.1, cloneItems_eq_of_same ha.2 h.2]

theorem lookup_cloneFields_of_same : ∀ {a b : List (String × Json)}, DistinctFields a →
    SameFields a b → ∀ f ∈ a, (cloneFields b).lookup f.1 = some (cloneJson f.2)
  | [], _, _, _ => nofun
  | (key, value) :: a, b, ha, h => by
    obtain ⟨⟨w, hw, hsame⟩, hrest⟩ := h
    refine List.forall_mem_cons.2 ⟨?_, lookup_cloneFields_of_same ha.2.2 hrest⟩
    rw [lookup_cloneFields, hw, cloneJson_eq_of_same ha.1 hsame]
    rfl

end

/-- Objects with one copy have the same keys, with values of one copy. -/
theorem lookup_of_cloneFields_eq {a b : List (String × Json)} (h : cloneFields a = cloneFields b)
    {key : String} {value : Json} (hvalue : a.lookup key = some value) :
    ∃ w, b.lookup key = some w ∧ cloneJson value = cloneJson w := by
  have hlookup := lookup_cloneFields key a
  rw [h, lookup_cloneFields, hvalue] at hlookup
  obtain ⟨w, hw, heq⟩ := Option.map_eq_some_iff.1 hlookup
  exact ⟨w, hw, heq.symm⟩

theorem length_of_cloneFields_eq {a b : List (String × Json)} (h : cloneFields a = cloneFields b) :
    a.length = b.length := by
  have hkeys := (cloneFields_keys a).symm.trans (h ▸ cloneFields_keys b)
  rw [← List.length_map Prod.fst, hkeys.length_eq, List.length_map]

mutual

/-- **Values with one copy are the same up to the order of their keys.** -/
theorem same_of_cloneJson_eq : ∀ {a b : Json}, a.DistinctKeys → cloneJson a = cloneJson b → a.Same b
  | .null, b, _, h => by
    cases b <;> cases h
    trivial
  | .bool _, b, _, h => by
    cases b <;> cases h
    rfl
  | .num _, b, _, h => by
    cases b <;> cases h
    rfl
  | .str _, b, _, h => by
    cases b <;> cases h
    rfl
  | .arr a, b, ha, h => by
    cases b with
    | arr b => exact sameItems_of_cloneItems_eq ha (Json.arr.inj h)
    | null | bool | num | str | obj => cases h
  | .obj a, b, ha, h => by
    cases b with
    | obj b =>
      have hfields : cloneFields a = cloneFields b := Json.obj.inj h
      have hkeys := (Json.distinctFields_iff.1 ha).1
      refine ⟨length_of_cloneFields_eq hfields, sameFields_of_lookup ha fun field hfield => ?_⟩
      exact lookup_of_cloneFields_eq hfields (Entries.lookup_of_mem hkeys hfield)
    | null | bool | num | str | arr => cases h

theorem sameItems_of_cloneItems_eq : ∀ {a b : List Json}, DistinctItems a →
    cloneItems a = cloneItems b → SameItems a b
  | [], b, _, h => by
    cases b <;> cases h
    trivial
  | x :: a, b, ha, h => by
    cases b with
    | nil => cases h
    | cons y b =>
      obtain ⟨hx, hrest⟩ := List.cons.inj h
      exact ⟨same_of_cloneJson_eq ha.1 hx, sameItems_of_cloneItems_eq ha.2 hrest⟩

theorem sameFields_of_lookup : ∀ {a b : List (String × Json)}, DistinctFields a →
    (∀ f ∈ a, ∃ w, b.lookup f.1 = some w ∧ cloneJson f.2 = cloneJson w) → SameFields a b
  | [], _, _, _ => trivial
  | (key, value) :: a, b, ha, h => by
    rw [List.forall_mem_cons] at h
    obtain ⟨w, hlookup, hw⟩ := h.1
    exact ⟨⟨w, hlookup, same_of_cloneJson_eq ha.1 hw⟩, sameFields_of_lookup ha.2.2 h.2⟩

end

/-- The copy of an object is any object with its fields in order. -/
theorem cloneJson_eq_of_sorted {a b : List (String × Json)}
    (ha : (a.map Prod.fst).Nodup) (hlength : b.length ≤ a.length)
    (h : ∀ field ∈ a, b.lookup field.1 = some (cloneJson field.2))
    (hb : (b.map Prod.fst).Pairwise TextLe) : cloneJson (.obj a) = .obj b := by
  have hmapped : ((a.map fun f => (f.1, cloneJson f.2)).map Prod.fst).Nodup := by
    rw [List.map_map]
    exact ha
  have hperm := Entries.perm_of_lookup hmapped (by rwa [List.length_map]) (List.forall_mem_map.2 h)
  have hsorted := List.pairwise_map.1 hb
  exact congrArg Json.obj (Entries.eq_of_perm TextLe ((cloneFields_keys a).nodup_iff.2 ha)
    ((cloneFields_perm a).trans hperm) (cloneFields_pairwise a) hsorted)

variable {number : Json.NumberFormat}

/-- **Two values have one canonical text exactly when they are the same up to the order of their
keys.** -/
theorem canonicalJson_eq_iff {a b : Json} (ha : a.DistinctKeys) :
    canonicalJson number a = canonicalJson number b ↔ a.Same b := by
  refine ⟨fun h => same_of_cloneJson_eq ha (cloneJson_eq_of_canonicalJson h), fun h => ?_⟩
  rw [canonicalJson, canonicalJson, cloneJson_eq_of_same ha h]

end Calls

end AgentOrchestrator
