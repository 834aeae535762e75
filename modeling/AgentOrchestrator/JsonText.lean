import AgentOrchestrator.Json
import AgentOrchestrator.Library.Utf16

/-!
# Reading JSON texts

`JSON.parse`: white space, literals, numbers, strings with their escapes, arrays and objects.  A
string is read as UTF-16 code units, so that a pair of `\u` escapes is one character.  A number is
taken as the value it denotes; its rounding to a double is left out.  What `JSON.stringify` prints
for strings and natural numbers is read back.
-/

namespace AgentOrchestrator.Json

open Utf16

/-! ## The parser -/

/-- White space between tokens. -/
def isBlank (c : Char) : Bool := c = ' ' || c = '\t' || c = '\n' || c = '\r'

def skipBlank (input : List Char) : List Char := input.dropWhile isBlank

/-- The value of a hexadecimal digit. -/
def hexValue (c : Char) : Option ℕ :=
  let n := c.toNat
  if 48 ≤ n ∧ n ≤ 57 then some (n - 48)
  else if 97 ≤ n ∧ n ≤ 102 then some (n - 87)
  else if 65 ≤ n ∧ n ≤ 70 then some (n - 55)
  else none

/-- The code unit of four hexadecimal digits. -/
def hexUnit (a b c d : Char) : Option ℕ := do
  return (((← hexValue a) * 16 + (← hexValue b)) * 16 + (← hexValue c)) * 16 + (← hexValue d)

/-- The code unit of an escape of one character. -/
def escapedUnit (c : Char) : Option ℕ :=
  if c = '"' ∨ c = '\\' ∨ c = '/' then some c.toNat
  else if c = 'b' then some 8
  else if c = 't' then some 9
  else if c = 'n' then some 10
  else if c = 'f' then some 12
  else if c = 'r' then some 13
  else none

/-- Adds code units in front of a text that was read. -/
def prepend (units : List ℕ) (read : List ℕ × List Char) : List ℕ × List Char :=
  (units ++ read.1, read.2)

/-- The code units of a string up to its closing quote, and what follows it. -/
def parseUnits (input : List Char) : Option (List ℕ × List Char) :=
  match input with
  | [] => none
  | c :: rest =>
    if c = '"' then some ([], rest)
    else if c = '\\' then
      match rest with
      | [] => none
      | e :: rest =>
        if e = 'u' then
          match rest with
          | h₁ :: h₂ :: h₃ :: h₄ :: rest =>
            (hexUnit h₁ h₂ h₃ h₄).bind fun unit => (parseUnits rest).map (prepend [unit])
          | _ => none
        else (escapedUnit e).bind fun unit => (parseUnits rest).map (prepend [unit])
    else if c.toNat < 32 then none
    else (parseUnits rest).map (prepend (charUnits c))
termination_by structural input

/-- A string after its opening quote. -/
def parseString (input : List Char) : Option (String × List Char) :=
  (parseUnits input).map fun read => (ofUnits read.1, read.2)

/-- A number scaled by a power of ten. -/
def scale (m : ℚ) (e : ℤ) : ℚ :=
  match e with
  | .ofNat n => m * 10 ^ n
  | .negSucc n => m / 10 ^ (n + 1)

/-- The digits at the start of a text, at least one. -/
def parseDigits (input : List Char) : Option (List Char × List Char) :=
  match input.takeWhile Char.isDigit with
  | [] => none
  | digits => some (digits, input.dropWhile Char.isDigit)

/-- The fraction of a number. -/
def parseFraction : List Char → Option (List Char × List Char)
  | '.' :: rest => parseDigits rest
  | rest => some ([], rest)

/-- The exponent of a number. -/
def parseExponent : List Char → Option (ℤ × List Char)
  | [] => some (0, [])
  | c :: rest =>
    if c = 'e' ∨ c = 'E' then
      match rest with
      | '-' :: rest => (parseDigits rest).map fun d => (-(Nat.ofDigitChars 10 d.1 0 : ℤ), d.2)
      | '+' :: rest => (parseDigits rest).map fun d => (Nat.ofDigitChars 10 d.1 0, d.2)
      | rest => (parseDigits rest).map fun d => (Nat.ofDigitChars 10 d.1 0, d.2)
    else some (0, c :: rest)

/-- A number without its sign. -/
def parseUnsigned (input : List Char) : Option (ℚ × List Char) := do
  let (digits, rest) ← parseDigits input
  if digits.head? = some '0' ∧ 1 < digits.length then none
  else
    let (fraction, rest) ← parseFraction rest
    let (exponent, rest) ← parseExponent rest
    some (scale (Nat.ofDigitChars 10 (digits ++ fraction) 0) (exponent - fraction.length), rest)

def parseNumber : List Char → Option (Json × List Char)
  | '-' :: rest => (parseUnsigned rest).map fun read => (.num (-read.1), read.2)
  | rest => (parseUnsigned rest).map fun read => (.num read.1, read.2)

/-- A field of an object; a repeated key keeps its place and takes the later value. -/
def assign (key : String) (value : Json) : List (String × Json) → List (String × Json)
  | [] => [(key, value)]
  | (k, v) :: fields => if k = key then (k, value) :: fields else (k, v) :: assign key value fields

/-- The token at the start of a text. -/
def expect (token : Char) (input : List Char) : Option (List Char) :=
  match skipBlank input with
  | [] => none
  | c :: rest => if c = token then some rest else none

mutual

/-- A value, and what follows it. -/
def parseValue : ℕ → List Char → Option (Json × List Char)
  | 0, _ => none
  | fuel + 1, input =>
    match skipBlank input with
    | '"' :: rest => (parseString rest).map fun read => (.str read.1, read.2)
    | '{' :: rest =>
      match skipBlank rest with
      | '}' :: rest => some (.obj [], rest)
      | rest => (parseFields fuel [] rest).map fun read => (.obj read.1, read.2)
    | '[' :: rest =>
      match skipBlank rest with
      | ']' :: rest => some (.arr [], rest)
      | rest => (parseItems fuel rest).map fun read => (.arr read.1, read.2)
    | 'n' :: 'u' :: 'l' :: 'l' :: rest => some (.null, rest)
    | 't' :: 'r' :: 'u' :: 'e' :: rest => some (.bool true, rest)
    | 'f' :: 'a' :: 'l' :: 's' :: 'e' :: rest => some (.bool false, rest)
    | rest => parseNumber rest

/-- The items of an array, up to its closing bracket. -/
def parseItems : ℕ → List Char → Option (List Json × List Char)
  | 0, _ => none
  | fuel + 1, input => do
    let (item, rest) ← parseValue fuel input
    match skipBlank rest with
    | ',' :: rest => (parseItems fuel rest).map fun read => (item :: read.1, read.2)
    | ']' :: rest => some ([item], rest)
    | _ => none

/-- The fields of an object after those read so far, up to its closing brace. -/
def parseFields : ℕ → List (String × Json) → List Char → Option (List (String × Json) × List Char)
  | 0, _, _ => none
  | fuel + 1, fields, input => do
    let rest ← expect '"' input
    let (key, rest) ← parseString rest
    let rest ← expect ':' rest
    let (value, rest) ← parseValue fuel rest
    match skipBlank rest with
    | ',' :: rest => parseFields fuel (assign key value fields) rest
    | '}' :: rest => some (assign key value fields, rest)
    | _ => none

end

/-- `JSON.parse`; `none` when it throws. -/
def parse (text : List Char) : Option Json := do
  let (value, rest) ← parseValue (text.length + 1) text
  if skipBlank rest = [] then some value else none

/-! ## Strings -/

theorem hexValue_digitChar : ∀ d < 16, hexValue (Nat.digitChar d) = some d := by decide

theorem hexUnit_digits {n : ℕ} (h : n < 0x10000) :
    hexUnit (Nat.digitChar (n / 4096 % 16)) (Nat.digitChar (n / 256 % 16))
      (Nat.digitChar (n / 16 % 16)) (Nat.digitChar (n % 16)) = some n := by
  unfold hexUnit
  rw [hexValue_digitChar _ (by omega), hexValue_digitChar _ (by omega),
    hexValue_digitChar _ (by omega), hexValue_digitChar _ (by omega)]
  refine congrArg some ?_
  omega

theorem parseUnits_quote (rest : List Char) : parseUnits ('"' :: rest) = some ([], rest) := by
  unfold parseUnits
  rw [if_pos rfl]

theorem parseUnits_escape {e : Char} {unit : ℕ} (rest : List Char) (hu : e ≠ 'u')
    (he : escapedUnit e = some unit) :
    parseUnits ('\\' :: e :: rest) = (parseUnits rest).map (prepend [unit]) := by
  conv_lhs => unfold parseUnits
  dsimp only
  rw [if_neg (by decide), if_pos rfl, if_neg hu, he]
  rfl

theorem parseUnits_unicode {h₁ h₂ h₃ h₄ : Char} {unit : ℕ} (rest : List Char)
    (h : hexUnit h₁ h₂ h₃ h₄ = some unit) :
    parseUnits ('\\' :: 'u' :: h₁ :: h₂ :: h₃ :: h₄ :: rest) =
      (parseUnits rest).map (prepend [unit]) := by
  conv_lhs => unfold parseUnits
  dsimp only
  rw [if_neg (by decide), if_pos rfl, if_pos rfl, h]
  rfl

theorem parseUnits_plain {c : Char} (rest : List Char) (hquote : c ≠ '"') (hslash : c ≠ '\\')
    (hcontrol : ¬ c.toNat < 32) :
    parseUnits (c :: rest) = (parseUnits rest).map (prepend (charUnits c)) := by
  conv_lhs => unfold parseUnits
  rw [if_neg hquote, if_neg hslash, if_neg hcontrol]

/-- A character as it is printed is read as its code units. -/
theorem parseUnits_escapeChar (c : Char) (rest : List Char) :
    parseUnits (escapeChar c ++ rest) = (parseUnits rest).map (prepend (charUnits c)) := by
  have hunits : c.toNat < 0x10000 → charUnits c = [c.toNat] := fun hc => by
    unfold charUnits
    rw [if_pos hc]
  unfold escapeChar
  split_ifs with h1 h2 h3 h4 h5 h6 h7 h8
  · subst h1
    exact parseUnits_escape rest (by decide) (by decide)
  · subst h2
    exact parseUnits_escape rest (by decide) (by decide)
  · rw [hunits (by omega), h3]
    exact parseUnits_escape rest (by decide) (by decide)
  · rw [hunits (by omega), h4]
    exact parseUnits_escape rest (by decide) (by decide)
  · rw [hunits (by omega), h5]
    exact parseUnits_escape rest (by decide) (by decide)
  · rw [hunits (by omega), h6]
    exact parseUnits_escape rest (by decide) (by decide)
  · rw [hunits (by omega), h7]
    exact parseUnits_escape rest (by decide) (by decide)
  · rw [hunits (by omega)]
    exact parseUnits_unicode rest (hexUnit_digits (by omega))
  · exact parseUnits_plain rest h1 h2 h8

theorem parseUnits_escaped (chars rest : List Char) :
    parseUnits (chars.flatMap escapeChar ++ '"' :: rest) =
      some (chars.flatMap charUnits, rest) := by
  induction chars with
  | nil => exact parseUnits_quote rest
  | cons c chars ih =>
    rw [List.flatMap_cons, List.append_assoc, parseUnits_escapeChar, ih]
    rfl

theorem parseString_escaped (text : String) (rest : List Char) :
    parseString (text.toList.flatMap escapeChar ++ '"' :: rest) = some (text, rest) := by
  unfold parseString
  rw [parseUnits_escaped]
  exact congrArg some (Prod.ext (ofUnits_toUnits text) rfl)

theorem quote_toList (text : String) (rest : List Char) :
    (quote text).toList ++ rest = '"' :: (text.toList.flatMap escapeChar ++ '"' :: rest) := by
  unfold quote
  rw [String.toList_ofList, List.cons_append, List.append_assoc]
  rfl

/-- A printed string is read back. -/
theorem parseValue_quote (fuel : ℕ) (text : String) (rest : List Char) :
    parseValue (fuel + 1) ((quote text).toList ++ rest) = some (.str text, rest) := by
  rw [quote_toList]
  have hskip : ∀ l, skipBlank ('"' :: l) = '"' :: l := fun _ => rfl
  unfold parseValue
  rw [hskip]
  show (parseString (text.toList.flatMap escapeChar ++ '"' :: rest)).map _ = _
  rw [parseString_escaped]
  rfl

/-! ## Natural numbers -/

theorem head_toDigits {n : ℕ} (h : 0 < n) : (Nat.toDigits 10 n).head? ≠ some '0' := by
  induction n using Nat.strongRecOn with
  | _ n ih =>
    by_cases hn : n < 10
    · rw [Nat.toDigits_of_lt_base hn]
      intro he
      have hzero : Nat.digitChar n = '0' := Option.some.inj he
      rw [Nat.digitChar_eq_zero] at hzero
      omega
    · rw [Nat.toDigits_of_base_le (by decide) (by omega), List.head?_append]
      have hhead := ih (n / 10) (by omega) (by omega)
      cases hd : (Nat.toDigits 10 (n / 10)).head? with
      | none =>
        rw [List.head?_eq_none_iff] at hd
        exact absurd hd Nat.toDigits_ne_nil
      | some d =>
        rw [hd] at hhead
        exact hhead

theorem isDigit_toDigits {n : ℕ} {c : Char} (h : c ∈ Nat.toDigits 10 n) : c.isDigit = true :=
  Nat.isDigit_of_mem_toDigits (by decide) (by decide) h

theorem parseDigits_toDigits (n : ℕ) {c : Char} (rest : List Char) (hc : c.isDigit = false) :
    parseDigits (Nat.toDigits 10 n ++ c :: rest) = some (Nat.toDigits 10 n, c :: rest) := by
  unfold parseDigits
  have hneg : ¬ c.isDigit = true := by
    rw [hc]
    decide
  have htake : (Nat.toDigits 10 n ++ c :: rest).takeWhile Char.isDigit = Nat.toDigits 10 n := by
    rw [List.takeWhile_append_of_pos fun x hx => isDigit_toDigits hx,
      List.takeWhile_cons_of_neg hneg, List.append_nil]
  have hdrop : (Nat.toDigits 10 n ++ c :: rest).dropWhile Char.isDigit = c :: rest := by
    rw [List.dropWhile_append_of_pos fun x hx => isDigit_toDigits hx,
      List.dropWhile_cons_of_neg hneg]
  rw [htake, hdrop]
  split
  · rename_i hnil
    exact absurd hnil Nat.toDigits_ne_nil
  · rfl

/-- The digits of a natural number have no zero in front. -/
theorem not_leadingZero (n : ℕ) :
    ¬ ((Nat.toDigits 10 n).head? = some '0' ∧ 1 < (Nat.toDigits 10 n).length) := by
  rintro ⟨hhead, hlength⟩
  rcases Nat.eq_zero_or_pos n with rfl | hn
  · rw [Nat.toDigits_zero] at hlength
    exact absurd hlength (by decide)
  · exact head_toDigits hn hhead

/-- The digits of a natural number are read as the number. -/
theorem parseUnsigned_toDigits (n : ℕ) {c : Char} (rest : List Char) (hc : c.isDigit = false)
    (hpoint : c ≠ '.') (hexponent : ¬ (c = 'e' ∨ c = 'E')) :
    parseUnsigned (Nat.toDigits 10 n ++ c :: rest) = some ((n : ℚ), c :: rest) := by
  have hfraction : parseFraction (c :: rest) = some ([], c :: rest) := by
    unfold parseFraction
    split
    · rename_i hdot
      exact absurd (List.cons.inj hdot).1 hpoint
    · rfl
  have hexp : parseExponent (c :: rest) = some (0, c :: rest) := by
    unfold parseExponent
    dsimp only
    rw [if_neg hexponent]
  unfold parseUnsigned
  rw [parseDigits_toDigits n rest hc]
  dsimp only [Option.bind_eq_bind, Option.bind_some]
  rw [if_neg (not_leadingZero n), hfraction]
  dsimp only [Option.bind_some]
  rw [hexp]
  dsimp only [Option.bind_some]
  rw [List.append_nil, Nat.ofDigitChars_ten_toDigits]
  simp [scale]

/-- A printed natural number is read back. -/
theorem parseValue_toDigits (fuel n : ℕ) {c : Char} (rest : List Char) (hc : c.isDigit = false)
    (hpoint : c ≠ '.') (hexponent : ¬ (c = 'e' ∨ c = 'E')) :
    parseValue (fuel + 1) (Nat.toDigits 10 n ++ c :: rest) = some (.nat n, c :: rest) := by
  have hread := parseUnsigned_toDigits n rest hc hpoint hexponent
  cases hdigits : Nat.toDigits 10 n with
  | nil => exact absurd hdigits Nat.toDigits_ne_nil
  | cons d digits =>
    have hd : d.isDigit = true := isDigit_toDigits (by rw [hdigits]; exact List.mem_cons_self)
    rw [hdigits] at hread
    rw [List.cons_append] at hread ⊢
    generalize digits ++ c :: rest = input at *
    -- A digit is neither white space nor the start of any other value.
    have hother : ∀ x : Char, x.isDigit = false → d ≠ x := by
      rintro x hx rfl
      rw [hd] at hx
      cases hx
    have hblank : isBlank d = false := by
      simp [isBlank, hother ' ' (by decide), hother '\t' (by decide), hother '\n' (by decide),
        hother '\r' (by decide)]
    have hskip : skipBlank (d :: input) = d :: input :=
      List.dropWhile_cons_of_neg (by rw [hblank]; decide)
    have hnumber : parseNumber (d :: input) = some (.nat n, c :: rest) := by
      unfold parseNumber
      split
      · rename_i heq
        exact absurd (List.cons.inj heq).1 (hother '-' (by decide))
      · rw [hread]
        rfl
    unfold parseValue
    rw [hskip]
    split
    · rename_i heq
      exact absurd (List.cons.inj heq).1 (hother '"' (by decide))
    · rename_i heq
      exact absurd (List.cons.inj heq).1 (hother '\x7b' (by decide))
    · rename_i heq
      exact absurd (List.cons.inj heq).1 (hother '[' (by decide))
    · rename_i heq
      exact absurd (List.cons.inj heq).1 (hother 'n' (by decide))
    · rename_i heq
      exact absurd (List.cons.inj heq).1 (hother 't' (by decide))
    · rename_i heq
      exact absurd (List.cons.inj heq).1 (hother 'f' (by decide))
    · exact hnumber

/-! ## Fields -/

/-- One printed field of an object is read, up to the token after its value. -/
theorem parseFields_field {fuel : ℕ} {fields : List (String × Json)} {key : String} {value : Json}
    {input : List Char} {token : Char} {rest : List Char}
    (hvalue : parseValue fuel input = some (value, token :: rest)) :
    (token = ',' → parseFields (fuel + 1) fields ((quote key).toList ++ ':' :: input) =
        parseFields fuel (assign key value fields) rest) ∧
      (token = '\x7d' → parseFields (fuel + 1) fields ((quote key).toList ++ ':' :: input) =
        some (assign key value fields, rest)) := by
  have hquote : expect '"' ((quote key).toList ++ ':' :: input) =
      some (key.toList.flatMap escapeChar ++ '"' :: ':' :: input) := by
    rw [quote_toList]
    rfl
  have hcolon : expect ':' (':' :: input) = some input := rfl
  constructor
  all_goals
    rintro rfl
    conv_lhs => unfold parseFields
    dsimp only [Option.bind_eq_bind]
    rw [hquote, Option.bind_some, parseString_escaped, Option.bind_some]
    dsimp only
    rw [hcolon, Option.bind_some, hvalue]
    rfl

/-- A printed object that starts with a field is read field by field. -/
theorem parseValue_object (fuel : ℕ) (key : String) (rest : List Char) :
    parseValue (fuel + 1) ('\x7b' :: ((quote key).toList ++ rest)) =
      (parseFields fuel [] ((quote key).toList ++ rest)).map fun read => (.obj read.1, read.2) := by
  rw [quote_toList]
  rfl

end AgentOrchestrator.Json
