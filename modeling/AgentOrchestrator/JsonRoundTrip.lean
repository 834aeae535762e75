import AgentOrchestrator.JsonPrint
import Mathlib.Data.List.TakeWhile

/-!
# Reading printed JSON back

`JSON.parse` of what `JSON.stringify` prints is the value again.  A value of the language has no
key twice in an object, and its numbers are those whose text is read back (`Readable`).
-/

namespace AgentOrchestrator.Json

/-! ## Readable values -/

/-- What follows a value in a printed text. -/
def Closes (r : List Char) : Prop := ∀ c ∈ r.head?, c = ',' ∨ c = ']' ∨ c = '}'

theorem closes_nil : Closes [] := nofun

theorem closes_more_items (number : NumberFormat) (items : List Json) (r : List Char) :
    Closes (printMoreItems number items ++ r) := by
  cases items with
  | nil => rintro _ ⟨⟩; exact .inr (.inl rfl)
  | cons item items => rintro _ ⟨⟩; exact .inl rfl

theorem closes_more_fields (number : NumberFormat) (fields : List (String × Json))
    (r : List Char) : Closes (printMoreFields number fields ++ r) := by
  cases fields with
  | nil => rintro _ ⟨⟩; exact .inr (.inr rfl)
  | cons field fields => rintro _ ⟨⟩; exact .inl rfl

/-- The text of the number is read as the number. -/
def NumberFormat.Reads (number : NumberFormat) (q : ℚ) : Prop :=
  ∀ r, Closes r → parseNumber (number.text q ++ r) = some (.num q, r)

mutual

/-- The values of the language: numbers are read back, and no object has a key twice. -/
def Readable (number : NumberFormat) : Json → Prop
  | .null => True
  | .bool _ => True
  | .num q => number.Reads q
  | .str _ => True
  | .arr items => ReadableItems number items
  | .obj fields => ReadableFields number fields

def ReadableItems (number : NumberFormat) : List Json → Prop
  | [] => True
  | item :: items => Readable number item ∧ ReadableItems number items

def ReadableFields (number : NumberFormat) : List (String × Json) → Prop
  | [] => True
  | (key, value) :: fields =>
    Readable number value ∧ key ∉ fields.map Prod.fst ∧ ReadableFields number fields

end

variable {number : NumberFormat}

theorem readableItems_iff {items : List Json} :
    ReadableItems number items ↔ ∀ item ∈ items, Readable number item := by
  induction items with
  | nil => simp [ReadableItems]
  | cons item items ih => rw [ReadableItems, ih, List.forall_mem_cons]

theorem readableFields_iff {fields : List (String × Json)} :
    ReadableFields number fields ↔
      (∀ field ∈ fields, Readable number field.2) ∧ (fields.map Prod.fst).Nodup := by
  induction fields with
  | nil => simp [ReadableFields]
  | cons field fields ih =>
    rw [ReadableFields, ih, List.forall_mem_cons, List.map_cons, List.nodup_cons]
    tauto

/-! ## Natural numbers -/

theorem parseUnsigned_end (n : ℕ) : parseUnsigned (Nat.toDigits 10 n) = some ((n : ℚ), []) := by
  have hdigits : parseDigits (Nat.toDigits 10 n) = some (Nat.toDigits 10 n, []) := by
    have hall : ∀ c ∈ Nat.toDigits 10 n, c.isDigit = true := fun c hc => isDigit_toDigits hc
    unfold parseDigits
    rw [List.takeWhile_eq_self_iff.mpr hall, List.dropWhile_eq_nil_iff.mpr hall]
    split
    next hnil => exact absurd hnil Nat.toDigits_ne_nil
    next => rfl
  unfold parseUnsigned
  rw [hdigits]
  dsimp only [Option.bind_eq_bind, Option.bind_some]
  rw [if_neg (not_leadingZero n)]
  show some (scale (Nat.ofDigitChars 10 (Nat.toDigits 10 n ++ []) 0) 0, []) = _
  rw [List.append_nil, Nat.ofDigitChars_ten_toDigits]
  simp [scale]

/-- A safe natural number is read back. -/
theorem NumberFormat.reads_natural (number : NumberFormat) {n : ℕ} (hn : n < 2 ^ 53) :
    number.Reads n := by
  intro r hr
  have hunsigned : parseUnsigned (number.text n ++ r) = some ((n : ℚ), r) := by
    rw [number.natural n hn]
    cases r with
    | nil =>
      rw [List.append_nil]
      exact parseUnsigned_end n
    | cons c r =>
      rcases hr c rfl with rfl | rfl | rfl <;>
        exact parseUnsigned_toDigits n r (by decide) (by decide) (by decide)
  have hhead : ∀ l, number.text n ++ r ≠ '-' :: l := by
    intro l h
    rw [number.natural n hn] at h
    obtain ⟨d, digits, hdigits⟩ := List.exists_cons_of_ne_nil (Nat.toDigits_ne_nil (b := 10) (n := n))
    rw [hdigits] at h
    have hd : d.isDigit = true := isDigit_toDigits (by rw [hdigits]; exact List.mem_cons_self)
    rw [(List.cons.inj h).1] at hd
    cases hd
  unfold parseNumber
  split
  next heq => exact absurd heq (hhead _)
  next =>
    rw [hunsigned]
    rfl

/-! ## Beginnings -/

theorem skipBlank_print (a : Json) (r : List Char) :
    skipBlank (print number a ++ r) = print number a ++ r := by
  obtain ⟨c, l, ha, hc⟩ := @print_head number a
  rw [ha]
  refine List.dropWhile_cons_of_neg ?_
  intro hblank
  have hkind : kindOf c = 7 := by
    simp only [isBlank, Bool.or_eq_true, decide_eq_true_eq] at hblank
    rcases hblank with ((rfl | rfl) | rfl) | rfl <;> decide
  rw [hkind] at hc
  cases a with
  | bool b => cases b <;> cases hc
  | _ => cases hc

/-- A number is read as a number. -/
theorem parseValue_number (fuel : ℕ) {q : ℚ} (hq : number.Reads q) {r : List Char}
    (hr : Closes r) : parseValue (fuel + 1) (number.text q ++ r) = some (.num q, r) := by
  have hread := hq r hr
  have hskip := @skipBlank_print number (.num q) r
  rw [print] at hskip
  obtain ⟨c, l, htext⟩ := List.exists_cons_of_ne_nil (number.nonempty q)
  have hc : isNumeric c = true := number.numeric q c (by rw [htext]; exact List.mem_cons_self)
  have hother : ∀ x : Char, isNumeric x = false → c ≠ x := by
    rintro x hx rfl
    rw [hc] at hx
    cases hx
  rw [htext, List.cons_append] at hread hskip ⊢
  unfold parseValue
  rw [hskip]
  split
  next heq => exact absurd (List.cons.inj heq).1 (hother '"' (by decide))
  next heq => exact absurd (List.cons.inj heq).1 (hother '\x7b' (by decide))
  next heq => exact absurd (List.cons.inj heq).1 (hother '[' (by decide))
  next heq => exact absurd (List.cons.inj heq).1 (hother 'n' (by decide))
  next heq => exact absurd (List.cons.inj heq).1 (hother 't' (by decide))
  next heq => exact absurd (List.cons.inj heq).1 (hother 'f' (by decide))
  next => exact hread

/-- An array that has an item is read item by item. -/
theorem parseValue_array (fuel : ℕ) (item : Json) (r : List Char) :
    parseValue (fuel + 1) ('[' :: (print number item ++ r)) =
      (parseItems fuel (print number item ++ r)).map fun read => (.arr read.1, read.2) := by
  have hskip : skipBlank ('[' :: (print number item ++ r)) = '[' :: (print number item ++ r) := rfl
  unfold parseValue
  rw [hskip]
  simp only [skipBlank_print]
  split
  next heq => exact absurd heq (print_append_ne item _ _)
  next => rfl

theorem assign_of_notMem {key : String} {value : Json} {fields : List (String × Json)}
    (h : key ∉ fields.map Prod.fst) : assign key value fields = fields ++ [(key, value)] := by
  induction fields with
  | nil => rfl
  | cons field fields ih =>
    obtain ⟨k, v⟩ := field
    rw [List.map_cons, List.mem_cons, not_or] at h
    rw [assign, if_neg (Ne.symm h.1), ih h.2, List.cons_append]

theorem printMoreItems_cons (item : Json) (items : List Json) :
    printMoreItems number (item :: items) = ',' :: printItems number (item :: items) := by
  rw [printMoreItems, printItems]

theorem printMoreFields_cons (field : String × Json) (fields : List (String × Json)) :
    printMoreFields number (field :: fields) = ',' :: printFields number (field :: fields) := by
  rw [printMoreFields, printFields]

theorem print_length_pos (a : Json) : 0 < (print number a).length := by
  obtain ⟨c, l, ha, _⟩ := @print_head number a
  rw [ha]
  exact Nat.succ_pos _

/-! ## The round trip -/

/-- What is read with some fuel: values, items and fields whose text is no longer than it. -/
def ReadsBack (number : NumberFormat) (fuel : ℕ) : Prop :=
  (∀ (a : Json) (r : List Char), Readable number a → (print number a).length ≤ fuel → Closes r →
    parseValue fuel (print number a ++ r) = some (a, r)) ∧
  (∀ (item : Json) (items : List Json) (r : List Char), ReadableItems number (item :: items) →
    (printItems number (item :: items)).length ≤ fuel →
    parseItems fuel (printItems number (item :: items) ++ r) = some (item :: items, r)) ∧
  ∀ (field : String × Json) (fields read : List (String × Json)) (r : List Char),
    ReadableFields number (field :: fields) →
    (∀ key ∈ (field :: fields).map Prod.fst, key ∉ read.map Prod.fst) →
    (printFields number (field :: fields)).length ≤ fuel →
    parseFields fuel read (printFields number (field :: fields) ++ r) =
      some (read ++ field :: fields, r)

section Step

variable {fuel : ℕ} (ih : ReadsBack number fuel)

include ih

theorem parseValue_print (a : Json) (r : List Char) (h : Readable number a)
    (hfuel : (print number a).length ≤ fuel + 1) (hr : Closes r) :
    parseValue (fuel + 1) (print number a ++ r) = some (a, r) := by
  rcases a with - | (_ | _) | q | s | items | fields
  · rfl
  · rfl
  · rfl
  · rw [Readable] at h
    rw [print]
    exact parseValue_number fuel h hr
  · rw [print]
    exact parseValue_quote fuel s r
  · rw [Readable] at h
    cases items with
    | nil => rfl
    | cons item items =>
      rw [print, List.length_cons] at hfuel
      have hitems := ih.2.1 item items r h (by omega)
      rw [print, List.cons_append]
      rw [printItems, List.append_assoc] at hitems ⊢
      rw [parseValue_array, hitems]
      rfl
  · rw [Readable] at h
    rcases fields with - | ⟨⟨key, value⟩, fields⟩
    · rfl
    · rw [print, List.length_cons] at hfuel
      have hfields := ih.2.2 (key, value) fields [] r h (by simp) (by omega)
      rw [print, List.cons_append]
      rw [printFields, List.append_assoc] at hfields ⊢
      rw [parseValue_object, hfields]
      rfl

theorem parseItems_print (item : Json) (items : List Json) (r : List Char)
    (h : ReadableItems number (item :: items))
    (hfuel : (printItems number (item :: items)).length ≤ fuel + 1) :
    parseItems (fuel + 1) (printItems number (item :: items) ++ r) = some (item :: items, r) := by
  rw [ReadableItems] at h
  cases items with
  | nil =>
    rw [printItems, List.length_append, printMoreItems, List.length_singleton] at hfuel
    have hvalue := ih.1 item (']' :: r) h.1 (by omega) (closes_more_items number [] r)
    rw [printItems, printMoreItems, List.append_assoc, List.singleton_append]
    unfold parseItems
    dsimp only [Option.bind_eq_bind]
    rw [hvalue]
    rfl
  | cons next items =>
    rw [printItems, List.length_append, printMoreItems_cons, List.length_cons] at hfuel
    have hvalue := ih.1 item (',' :: (printItems number (next :: items) ++ r)) h.1 (by omega)
      (by rintro _ ⟨⟩; exact .inl rfl)
    have hitems := ih.2.1 next items r h.2 (by omega)
    rw [printItems, printMoreItems_cons, List.append_assoc, List.cons_append]
    unfold parseItems
    dsimp only [Option.bind_eq_bind]
    rw [hvalue]
    show (parseItems fuel (printItems number (next :: items) ++ r)).map _ = _
    rw [hitems]
    rfl

theorem parseFields_print (field : String × Json) (fields read : List (String × Json))
    (r : List Char) (h : ReadableFields number (field :: fields))
    (hfresh : ∀ key ∈ (field :: fields).map Prod.fst, key ∉ read.map Prod.fst)
    (hfuel : (printFields number (field :: fields)).length ≤ fuel + 1) :
    parseFields (fuel + 1) read (printFields number (field :: fields) ++ r) =
      some (read ++ field :: fields, r) := by
  obtain ⟨key, value⟩ := field
  rw [ReadableFields] at h
  obtain ⟨hreadable, hkey, hrest⟩ := h
  have hassign : assign key value read = read ++ [(key, value)] :=
    assign_of_notMem (hfresh key List.mem_cons_self)
  cases fields with
  | nil =>
    rw [printFields, List.length_append, List.length_cons, List.length_append] at hfuel
    have hvalue := ih.1 value ('}' :: r) hreadable (by omega) (closes_more_fields number [] r)
    rw [printFields, printMoreFields, List.append_assoc, List.cons_append, List.append_assoc,
      List.singleton_append, (parseFields_field hvalue).2 rfl, hassign]
  | cons next fields =>
    rw [printFields, List.length_append, List.length_cons, List.length_append,
      printMoreFields_cons, List.length_cons] at hfuel
    have hvalue := ih.1 value (',' :: (printFields number (next :: fields) ++ r)) hreadable
      (by omega) (by rintro _ ⟨⟩; exact .inl rfl)
    have hmore := ih.2.2 next fields (read ++ [(key, value)]) r hrest
      (by
        intro k hk
        rw [List.map_append, List.mem_append, not_or]
        refine ⟨hfresh k (List.mem_cons_of_mem _ hk), ?_⟩
        rw [List.map_singleton, List.mem_singleton]
        rintro rfl
        exact hkey hk)
      (by omega)
    rw [printFields, printMoreFields_cons, List.append_assoc, List.cons_append, List.append_assoc,
      List.cons_append, (parseFields_field hvalue).1 rfl, hassign, hmore, List.append_assoc]
    rfl

end Step

theorem readsBack (number : NumberFormat) (fuel : ℕ) : ReadsBack number fuel := by
  induction fuel with
  | zero =>
    refine ⟨fun a r _ hfuel _ => ?_, fun item items r _ hfuel => ?_,
      fun field fields read r _ _ hfuel => ?_⟩
    · have hpos := @print_length_pos number a
      omega
    · have hpos := @print_length_pos number item
      rw [printItems, List.length_append] at hfuel
      omega
    · rw [printFields, List.length_append, List.length_cons] at hfuel
      omega
  | succ fuel ih => exact ⟨parseValue_print ih, parseItems_print ih, parseFields_print ih⟩

/-- **`JSON.parse` inverts `JSON.stringify`.** -/
theorem parse_print {a : Json} (h : Readable number a) : parse (print number a) = some a := by
  have hvalue := (readsBack number ((print number a).length + 1)).1 a [] h (Nat.le_succ _) closes_nil
  rw [List.append_nil] at hvalue
  unfold parse
  rw [hvalue]
  rfl

/-! ## Lines -/

theorem digitChar_ne_newline : ∀ d < 16, Nat.digitChar d ≠ '\n' := by decide

theorem newline_notMem_escapeChar (c : Char) : '\n' ∉ escapeChar c := by
  unfold escapeChar
  split_ifs with h1 h2 h3 h4 h5 h6 h7 h8
  iterate 7 decide
  · have hdigit : ∀ d, '\n' ≠ Nat.digitChar (d % 16) :=
      fun d => (digitChar_ne_newline (d % 16) (Nat.mod_lt d (by decide))).symm
    unfold escapeUnicode
    simp only [List.mem_cons, List.not_mem_nil, or_false, not_or]
    exact ⟨by decide, by decide, hdigit _, hdigit _, hdigit _, hdigit _⟩
  · rw [List.mem_singleton]
    rintro rfl
    exact h8 (by decide)

theorem newline_notMem_quote (s : String) : '\n' ∉ (quote s).toList := by
  intro hx
  have h := quote_toList s []
  rw [List.append_nil] at h
  rw [h] at hx
  rcases List.mem_cons.mp hx with hopen | hx
  · exact absurd hopen (by decide)
  · rcases List.mem_append.mp hx with hbody | hclose
    · obtain ⟨c, _, hc⟩ := List.mem_flatMap.mp hbody
      exact newline_notMem_escapeChar c hc
    · exact absurd (List.mem_singleton.mp hclose) (by decide)

mutual

/-- A printed value is on one line. -/
theorem newline_notMem_print : ∀ (a : Json), '\n' ∉ print number a
  | .null => by rw [print]; decide
  | .bool true => by rw [print]; decide
  | .bool false => by rw [print]; decide
  | .num q => by
    rw [print]
    intro h
    have hnumeric := number.numeric q '\n' h
    exact absurd hnumeric (by decide)
  | .str s => by
    rw [print]
    exact newline_notMem_quote s
  | .arr [] => by rw [print, printItems]; decide
  | .arr (item :: items) => by
    rw [print, printItems]
    simp only [List.mem_cons, List.mem_append, not_or]
    exact ⟨by decide, newline_notMem_print item, newline_notMem_items items⟩
  | .obj [] => by rw [print, printFields]; decide
  | .obj ((key, value) :: fields) => by
    rw [print, printFields]
    simp only [List.mem_cons, List.mem_append, not_or]
    exact ⟨by decide, newline_notMem_quote key, by decide, newline_notMem_print value,
      newline_notMem_fields fields⟩

theorem newline_notMem_items : ∀ (items : List Json), '\n' ∉ printMoreItems number items
  | [] => by rw [printMoreItems]; decide
  | item :: items => by
    rw [printMoreItems]
    simp only [List.mem_cons, List.mem_append, not_or]
    exact ⟨by decide, newline_notMem_print item, newline_notMem_items items⟩

theorem newline_notMem_fields : ∀ (fields : List (String × Json)),
    '\n' ∉ printMoreFields number fields
  | [] => by rw [printMoreFields]; decide
  | (key, value) :: fields => by
    rw [printMoreFields]
    simp only [List.mem_cons, List.mem_append, not_or]
    exact ⟨by decide, newline_notMem_quote key, by decide, newline_notMem_print value,
      newline_notMem_fields fields⟩

end

end AgentOrchestrator.Json
