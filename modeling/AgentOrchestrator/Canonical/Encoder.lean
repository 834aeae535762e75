import AgentOrchestrator.Canonical.Form
import AgentOrchestrator.Library.Except

/-!
# Two encoders

`canonicalJson` is written twice: the executor's takes the values of the sorted keys, and the
coordinator's drops the entries that are undefined and sorts the others with a comparison of its
own.  They agree on JSON values.
-/

namespace AgentOrchestrator

open Calls (TextLe unitsLe cloneJson cloneItems cloneFields canonicalJson)

/-- What a variable of type `unknown` holds, as far as the encoders tell.  A number is `none` when it
is not finite, and an object lists its entries. -/
inductive JsValue where
  | undefined
  | null
  | bool (b : Bool)
  | num (x : Option ℚ)
  | str (s : String)
  | arr (items : List JsValue)
  | obj (fields : List (String × JsValue))
  | other

namespace Canonical

/-! ## The encoders -/

/-- `parts.join(",")` -/
def join (parts : List (List Char)) : List Char := [','].intercalate parts

def brackets (parts : List (List Char)) : List Char := '[' :: join parts ++ [']']

def braces (parts : List (List Char)) : List Char := '{' :: join parts ++ ['}']

/-- A quoted key and the text of its value. -/
def member (key : String) (text : List Char) : List Char := (Json.quote key).toList ++ ':' :: text

/-- The member of an entry whose value is encoded. -/
def entryMember (entry : String × Except String (List Char)) : Except String (List Char) :=
  entry.2.map (member entry.1)

section Encoders

variable (number : Json.NumberFormat)

mutual

/-- `canonicalJson` of the executor. -/
def executorCanonicalJson : JsValue → Except String (List Char)
  | .null => .ok "null".toList
  | .bool true => .ok "true".toList
  | .bool false => .ok "false".toList
  | .str s => .ok (Json.quote s).toList
  | .num (some q) => .ok (number.text q)
  | .arr items => (executorItems items).map brackets
  | .obj fields =>
    let texts := executorFields fields
    let keys := (fields.map Prod.fst).insertionSort TextLe
    (keys.mapM fun key => entryMember
      (key, (texts.lookup key).getD (.error "tool values must be JSON serializable"))).map braces
  | .num none | .undefined | .other => .error "tool values must be JSON serializable"

def executorItems : List JsValue → Except String (List (List Char))
  | [] => .ok []
  | item :: items => do
    let text ← executorCanonicalJson item
    let texts ← executorItems items
    return text :: texts

/-- What each value is encoded as, under its key. -/
def executorFields : List (String × JsValue) → List (String × Except String (List Char))
  | [] => []
  | (key, value) :: fields => (key, executorCanonicalJson value) :: executorFields fields

end

/-- `left < right`, by their code units. -/
def unitsLt : List ℕ → List ℕ → Bool
  | _, [] => false
  | [], _ :: _ => true
  | a :: l, b :: m => decide (a < b) || (decide (a = b) && unitsLt l m)

/-- `left < right ? -1 : left > right ? 1 : 0` -/
def compareKeys (left right : String) : ℤ :=
  if unitsLt (Utf16.toUnits left) (Utf16.toUnits right) then -1
  else if unitsLt (Utf16.toUnits right) (Utf16.toUnits left) then 1
  else 0

mutual

/-- `canonicalJson` of the coordinator. -/
def coordinatorCanonicalJson : JsValue → Except String (List Char)
  | .null => .ok "null".toList
  | .str s => .ok (Json.quote s).toList
  | .bool true => .ok "true".toList
  | .bool false => .ok "false".toList
  | .num (some q) => .ok (number.text q)
  | .arr items => (coordinatorItems items).map brackets
  | .obj fields =>
    let entries := (coordinatorFields fields).insertionSort
      (Entries.KeyLe fun left right => compareKeys left right ≤ 0)
    (entries.mapM entryMember).map braces
  | .num none | .undefined | .other =>
    .error "Launch request contains an unsupported hash value"

def coordinatorItems : List JsValue → Except String (List (List Char))
  | [] => .ok []
  | item :: items => do
    let text ← coordinatorCanonicalJson item
    let texts ← coordinatorItems items
    return text :: texts

/-- What each value that is defined is encoded as, under its key. -/
def coordinatorFields : List (String × JsValue) → List (String × Except String (List Char))
  | [] => []
  | (_, .undefined) :: fields => coordinatorFields fields
  | (key, value) :: fields => (key, coordinatorCanonicalJson value) :: coordinatorFields fields

end

end Encoders

mutual

/-- A JSON value as a value of JavaScript. -/
def ofJson : Json → JsValue
  | .null => .null
  | .bool b => .bool b
  | .num q => .num (some q)
  | .str s => .str s
  | .arr items => .arr (ofItems items)
  | .obj fields => .obj (ofFields fields)

def ofItems : List Json → List JsValue
  | [] => []
  | item :: items => ofJson item :: ofItems items

def ofFields : List (String × Json) → List (String × JsValue)
  | [] => []
  | (key, value) :: fields => (key, ofJson value) :: ofFields fields

end

/-! ## Printed parts -/

theorem join_cons_cons (x y : List Char) (parts : List (List Char)) :
    join (x :: y :: parts) = x ++ ',' :: join (y :: parts) := by
  simp [join, List.intercalate]

variable {number : Json.NumberFormat}

theorem printMoreItems_eq (x : List Char) (items : List Json) :
    x ++ Json.printMoreItems number items =
      join (x :: items.map (Json.print number)) ++ [']'] := by
  induction items generalizing x with
  | nil => simp [Json.printMoreItems, join, List.intercalate]
  | cons item items ih =>
    rw [Json.printMoreItems, ih, List.map_cons, join_cons_cons, List.append_assoc]
    rfl

/-- An array is printed as its items in brackets. -/
theorem print_arr (items : List Json) :
    Json.print number (.arr items) = brackets (items.map (Json.print number)) := by
  cases items with
  | nil => rfl
  | cons item items =>
    rw [Json.print, Json.printItems, printMoreItems_eq]
    rfl

/-- A printed field. -/
def printMember (number : Json.NumberFormat) (field : String × Json) : List Char :=
  member field.1 (Json.print number field.2)

theorem printMember_append (field : String × Json) (rest : List Char) :
    (Json.quote field.1).toList ++ ':' :: (Json.print number field.2 ++ rest) =
      printMember number field ++ rest := by
  rw [printMember, member, List.append_assoc, List.cons_append]

theorem printMoreFields_eq (x : List Char) (fields : List (String × Json)) :
    x ++ Json.printMoreFields number fields =
      join (x :: fields.map (printMember number)) ++ ['}'] := by
  induction fields generalizing x with
  | nil => simp [Json.printMoreFields, join, List.intercalate]
  | cons field fields ih =>
    rw [Json.printMoreFields, printMember_append, ih, List.map_cons, join_cons_cons, List.append_assoc]
    rfl

/-- An object is printed as its fields in braces. -/
theorem print_obj (fields : List (String × Json)) :
    Json.print number (.obj fields) = braces (fields.map (printMember number)) := by
  cases fields with
  | nil => rfl
  | cons field fields =>
    rw [Json.print, Json.printFields, printMember_append, printMoreFields_eq]
    rfl

/-! ## The order of the keys -/

theorem not_unitsLt_iff (l m : List ℕ) : unitsLt m l = false ↔ unitsLe l m = true := by
  induction l generalizing m with
  | nil => cases m <;> simp [unitsLt, unitsLe]
  | cons a l ih =>
    cases m with
    | nil => simp [unitsLt, unitsLe]
    | cons b m =>
      simp only [unitsLt, unitsLe, Bool.or_eq_false_iff, Bool.and_eq_false_imp, Bool.or_eq_true,
        Bool.and_eq_true, decide_eq_true_eq, decide_eq_false_iff_not, ← ih m]
      grind

/-- The comparison of the coordinator is the order of the executor. -/
theorem compareKeys_le (left right : String) : compareKeys left right ≤ 0 ↔ TextLe left right := by
  unfold compareKeys TextLe
  split_ifs with hlt hgt
  · have hle : ¬ unitsLe (Utf16.toUnits right) (Utf16.toUnits left) = true := by
      intro hle
      rw [← not_unitsLt_iff, hlt] at hle
      cases hle
    simpa using (Calls.unitsLe_total _ _).resolve_right hle
  · rw [← not_unitsLt_iff, hgt]
    simp
  · rw [← not_unitsLt_iff]
    simpa using hgt

theorem insertionSort_compareKeys {α : Type} (entries : List (String × α)) :
    entries.insertionSort (Entries.KeyLe fun left right => compareKeys left right ≤ 0) =
      entries.insertionSort (Entries.KeyLe TextLe) := by
  have h := List.map_insertionSort (Entries.KeyLe fun left right => compareKeys left right ≤ 0)
    (Entries.KeyLe TextLe) id entries fun a _ b _ => compareKeys_le a.1 b.1
  rwa [List.map_id, List.map_id] at h

/-! ## The encoders on JSON values -/

theorem keys_ofFields (fields : List (String × Json)) :
    (ofFields fields).map Prod.fst = fields.map Prod.fst := by
  induction fields with
  | nil => rfl
  | cons field fields ih => rw [ofFields, List.map_cons, List.map_cons, ih]

/-- The text of a value with sorted keys, under its key. -/
def encodedField (number : Json.NumberFormat) (field : String × Json) :
    String × Except String (List Char) :=
  (field.1, .ok (canonicalJson number field.2))

theorem distinct_encodedFields {fields : List (String × Json)} (h : Json.DistinctFields fields) :
    ((fields.map (encodedField number)).map Prod.fst).Nodup := by
  rw [List.map_map]
  exact (Json.distinctFields_iff.1 h).1

theorem insertionSort_keys (fields : List (String × Json)) :
    (fields.map Prod.fst).insertionSort TextLe = (cloneFields fields).map Prod.fst := by
  rw [Calls.cloneFields_eq, List.map_insertionSort Calls.KeyLe TextLe Prod.fst _
    (fun _ _ _ _ => Iff.rfl), List.map_map]
  rfl

theorem insertionSort_encodedFields (fields : List (String × Json)) :
    (fields.map (encodedField number)).insertionSort
        (Entries.KeyLe fun left right => compareKeys left right ≤ 0) =
      (cloneFields fields).map fun field => (field.1, .ok (Json.print number field.2)) := by
  rw [insertionSort_compareKeys, Calls.cloneFields_eq,
    List.map_insertionSort Calls.KeyLe (Entries.KeyLe TextLe)
      (fun field : String × Json => (field.1, Except.ok (Json.print number field.2))) _
      (fun _ _ _ _ => Iff.rfl), List.map_map]
  rfl

/-- The members of an object are joined when each is what is printed for its field. -/
theorem braces_members {α : Type} {f : α → Except String (List Char)} {parts : List α}
    {fields : List (String × Json)} {g : α → List Char} (hf : ∀ a ∈ parts, f a = .ok (g a))
    (hg : parts.map g = (cloneFields fields).map (printMember number)) :
    (parts.mapM f).map braces = .ok (canonicalJson number (.obj fields)) := by
  rw [mapM_eq_ok hf, hg, canonicalJson, cloneJson, print_obj]
  rfl

mutual

/-- **The executor encodes a JSON value as its canonical text.** -/
theorem executorCanonicalJson_ofJson : ∀ {a : Json}, a.DistinctKeys →
    executorCanonicalJson number (ofJson a) = .ok (canonicalJson number a)
  | .null, _ => rfl
  | .bool true, _ => rfl
  | .bool false, _ => rfl
  | .num _, _ => rfl
  | .str _, _ => rfl
  | .arr items, h => by
    rw [ofJson, executorCanonicalJson, executorItems_ofItems h, canonicalJson, cloneJson, print_arr,
      Calls.cloneItems_eq, List.map_map]
    rfl
  | .obj fields, h => by
    rw [ofJson, executorCanonicalJson, executorFields_ofFields h, keys_ofFields, insertionSort_keys,
      List.mapM_map]
    refine braces_members (fun field hfield => ?_) rfl
    obtain ⟨f, hf, rfl⟩ := Calls.mem_cloneFields.1 hfield
    have hlookup := Entries.lookup_of_mem (distinct_encodedFields h)
      (List.mem_map_of_mem (f := encodedField number) hf)
    dsimp only [Function.comp_apply]
    rw [show f.1 = (encodedField number f).1 from rfl, hlookup]
    rfl

theorem executorItems_ofItems : ∀ {items : List Json}, Json.DistinctItems items →
    executorItems number (ofItems items) = .ok (items.map (canonicalJson number))
  | [], _ => rfl
  | item :: items, h => by
    rw [ofItems, executorItems, executorCanonicalJson_ofJson h.1, ok_bind, executorItems_ofItems h.2]
    rfl

theorem executorFields_ofFields : ∀ {fields : List (String × Json)}, Json.DistinctFields fields →
    executorFields number (ofFields fields) = fields.map (encodedField number)
  | [], _ => rfl
  | (key, value) :: fields, h => by
    rw [ofFields, executorFields, executorCanonicalJson_ofJson h.1, executorFields_ofFields h.2.2]
    rfl

end

mutual

/-- **The coordinator encodes a JSON value as its canonical text.** -/
theorem coordinatorCanonicalJson_ofJson : ∀ a : Json,
    coordinatorCanonicalJson number (ofJson a) = .ok (canonicalJson number a)
  | .null => rfl
  | .bool true => rfl
  | .bool false => rfl
  | .num _ => rfl
  | .str _ => rfl
  | .arr items => by
    rw [ofJson, coordinatorCanonicalJson, coordinatorItems_ofItems items, canonicalJson, cloneJson,
      print_arr, Calls.cloneItems_eq, List.map_map]
    rfl
  | .obj fields => by
    rw [ofJson, coordinatorCanonicalJson, coordinatorFields_ofFields fields,
      insertionSort_encodedFields, List.mapM_map]
    exact braces_members (fun field _ => rfl) rfl

theorem coordinatorItems_ofItems : ∀ items : List Json,
    coordinatorItems number (ofItems items) = .ok (items.map (canonicalJson number))
  | [] => rfl
  | item :: items => by
    rw [ofItems, coordinatorItems, coordinatorCanonicalJson_ofJson item, ok_bind,
      coordinatorItems_ofItems items]
    rfl

theorem coordinatorFields_ofFields : ∀ fields : List (String × Json),
    coordinatorFields number (ofFields fields) = fields.map (encodedField number)
  | [] => rfl
  | (key, value) :: fields => by
    have hvalue := coordinatorCanonicalJson_ofJson value
    rw [List.map_cons, encodedField, ← hvalue, ← coordinatorFields_ofFields fields, ofFields]
    cases value <;> rfl

end

end Canonical

end AgentOrchestrator
