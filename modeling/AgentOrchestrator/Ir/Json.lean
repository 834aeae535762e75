import AgentOrchestrator.Ir.Graph
import AgentOrchestrator.JsonText
import AgentOrchestrator.Library.Entries

/-!
# Python's `json`

`json.dumps` with sorted keys and without white space, which prints ASCII only, and `json.loads`,
which tells integers from floats by their spelling and takes two escaped halves of a pair for one
character.  How floats are printed and read is a parameter; the limit of recursions is left out.
-/

namespace AgentOrchestrator.Ir

open CodePoint Utf16
open Json (escapeUnicode hexUnit escapedUnit)

instance : LinearOrder PyStr := LinearOrder.lift' PyStr.points fun _ _ h => congrArg PyStr.mk h

/-! ## Numbers -/

/-- The parts of a number. -/
structure Numeral where
  integer : List Char
  fraction : List Char
  exponent : List Char
  deriving DecidableEq

def Numeral.text (n : Numeral) : List Char := n.integer ++ n.fraction ++ n.exponent

/-- A number with a fraction or an exponent is a float. -/
def Numeral.isFloat (n : Numeral) : Bool := !(n.fraction.isEmpty && n.exponent.isEmpty)

/-- `0|[1-9][0-9]*` -/
def scanNatural : List Char → Option (List Char × List Char)
  | [] => none
  | c :: rest =>
    if c = '0' then some (['0'], rest)
    else if c.isDigit then some (c :: rest.takeWhile Char.isDigit, rest.dropWhile Char.isDigit)
    else none

/-- `-?(?:0|[1-9][0-9]*)` -/
def scanInteger : List Char → Option (List Char × List Char)
  | [] => none
  | c :: rest =>
    if c = '-' then (scanNatural rest).map fun read => ('-' :: read.1, read.2)
    else scanNatural (c :: rest)

/-- `(\.[0-9]+)?` -/
def scanFraction : List Char → List Char × List Char
  | [] => ([], [])
  | c :: rest =>
    if c = '.' ∧ rest.takeWhile Char.isDigit ≠ [] then
      ('.' :: rest.takeWhile Char.isDigit, rest.dropWhile Char.isDigit)
    else ([], c :: rest)

/-- `[-+]?` -/
def scanSign : List Char → List Char × List Char
  | [] => ([], [])
  | c :: rest => if c = '+' ∨ c = '-' then ([c], rest) else ([], c :: rest)

/-- `([eE][-+]?[0-9]+)?` -/
def scanExponent : List Char → List Char × List Char
  | [] => ([], [])
  | c :: rest =>
    let digits := (scanSign rest).2.takeWhile Char.isDigit
    if (c = 'e' ∨ c = 'E') ∧ digits ≠ [] then
      (c :: (scanSign rest).1 ++ digits, (scanSign rest).2.dropWhile Char.isDigit)
    else ([], c :: rest)

/-- `NUMBER_RE` -/
def scanNumber (input : List Char) : Option (Numeral × List Char) :=
  (scanInteger input).map fun integer =>
    let fraction := scanFraction integer.2
    let exponent := scanExponent fraction.2
    ({ integer := integer.1, fraction := fraction.1, exponent := exponent.1 }, exponent.2)

/-- The text of an integer. -/
def intText (n : ℤ) : List Char :=
  if n < 0 then '-' :: Nat.toDigits 10 n.natAbs else Nat.toDigits 10 n.natAbs

/-- `int(text)` of an integer. -/
def intValue : List Char → ℤ
  | '-' :: digits => -(Nat.ofDigitChars 10 digits 0 : ℤ)
  | digits => Nat.ofDigitChars 10 digits 0

/-- The digits that `int` and `str` convert at most. -/
def maxStrDigits : ℕ := 4300

/-- `str` converts the integer. -/
def Convertible (n : ℤ) : Prop := (Nat.toDigits 10 n.natAbs).length ≤ maxStrDigits

instance : DecidablePred Convertible := fun n =>
  inferInstanceAs (Decidable ((Nat.toDigits 10 n.natAbs).length ≤ maxStrDigits))

/-- The text is as a whole a number with a fraction or an exponent. -/
def Decimal (text : List Char) : Prop :=
  ∃ n : Numeral, scanNumber text = some (n, []) ∧ n.text = text ∧ n.isFloat = true

/-- How floats are printed and read: which rational numbers are floats, `float.__repr__` of these,
and `float(text)`, nothing when it overflows.  A printed float is read back. -/
structure FloatFormat where
  isFloat : ℚ → Prop
  repr : ℚ → List Char
  read : List Char → Option ℚ
  decimal : ∀ x, isFloat x → Decimal (repr x)
  read_repr : ∀ x, isFloat x → read (repr x) = some x

/-! ## `dumps` -/

/-- `ensure_ascii` of one code point. -/
def escapeAscii : CodePoint → List Char
  | .char c =>
    if c = '"' then ['\\', '"']
    else if c = '\\' then ['\\', '\\']
    else if c = '\n' then ['\\', 'n']
    else if c = '\r' then ['\\', 'r']
    else if c = '\t' then ['\\', 't']
    else if c.toNat = 12 then ['\\', 'f']
    else if c.toNat = 8 then ['\\', 'b']
    else if 32 ≤ c.toNat ∧ c.toNat ≤ 126 then [c]
    else (charUnits c).flatMap escapeUnicode
  | surrogate => escapeUnicode surrogate.toNat

/-- `py_encode_basestring_ascii`, after the opening quote. -/
def quoted (s : PyStr) : List Char := s.points.flatMap escapeAscii ++ ['"']

namespace PyValue

mutual

/-- The value with the entries of its dicts sorted by their keys. -/
def sorted : PyValue → PyValue
  | .list items => .list (sortedItems items)
  | .dict entries => .dict (sortedEntries entries)
  | .none => .none
  | .bool b => .bool b
  | .int n => .int n
  | .float x => .float x
  | .str s => .str s
  | .other truth => .other truth

def sortedItems : List PyValue → List PyValue
  | [] => []
  | item :: items => item.sorted :: sortedItems items

def sortedEntries : List (PyStr × PyValue) → List (PyStr × PyValue)
  | [] => []
  | (key, value) :: entries =>
    (sortedEntries entries).orderedInsert (Entries.KeyLe (· ≤ ·)) (key, value.sorted)

end

mutual

/-- The value is of JSON types throughout, and no integer has more digits than `str` converts.  A
float that is not finite, which Python prints as no JSON, is left out. -/
def encodable : PyValue → Bool
  | .none | .bool _ | .str _ => true
  | .int n => decide (Convertible n)
  | .float x => x.isSome
  | .list items => encodableItems items
  | .dict entries => encodableEntries entries
  | .other _ => false

def encodableItems : List PyValue → Bool
  | [] => true
  | item :: items => item.encodable && encodableItems items

def encodableEntries : List (PyStr × PyValue) → Bool
  | [] => true
  | (_, value) :: entries => value.encodable && encodableEntries entries

end

section Print

variable (float : FloatFormat)

mutual

/-- An encodable value without white space. -/
def print : PyValue → List Char
  | .none => "null".toList
  | .bool true => "true".toList
  | .bool false => "false".toList
  | .int n => intText n
  | .float x => x.elim [] float.repr
  | .str s => '"' :: quoted s
  | .list items => '[' :: printItems items
  | .dict entries => '\x7b' :: printEntries entries
  | .other _ => []

/-- The items of a list and its closing bracket. -/
def printItems : List PyValue → List Char
  | [] => [']']
  | item :: items => print item ++ printMoreItems items

def printMoreItems : List PyValue → List Char
  | [] => [']']
  | item :: items => ',' :: (print item ++ printMoreItems items)

/-- The entries of a dict and its closing brace. -/
def printEntries : List (PyStr × PyValue) → List Char
  | [] => ['\x7d']
  | (key, value) :: entries => '"' :: (quoted key ++ ':' :: (print value ++ printMoreEntries entries))

def printMoreEntries : List (PyStr × PyValue) → List Char
  | [] => ['\x7d']
  | (key, value) :: entries =>
    ',' :: '"' :: (quoted key ++ ':' :: (print value ++ printMoreEntries entries))

end

end Print

end PyValue

/-- `json.dumps(value, separators=(",", ":"), sort_keys=True)`, nothing when it raises. -/
def dumps (float : FloatFormat) (value : PyValue) : Option PyStr :=
  if value.encodable then some ⟨ofChars (value.sorted.print float)⟩ else none

/-! ## `loads` -/

def isBlank : CodePoint → Bool
  | .char c => Json.isBlank c
  | _ => false

/-- White space between tokens. -/
def skipBlank (input : List CodePoint) : List CodePoint := input.dropWhile isBlank

/-- The token at the start of a text. -/
def expect (token : Char) (input : List CodePoint) : Option (List CodePoint) :=
  match skipBlank input with
  | [] => none
  | p :: rest => if p = .char token then some rest else none

/-- A code point of a string as it is written: by the escape of its code unit, or otherwise. -/
inductive Piece where
  | plain (p : CodePoint)
  | escaped (p : CodePoint)
  deriving DecidableEq

/-- An escaped high surrogate and the escaped low one after it are one character. -/
def joinPieces : List Piece → List CodePoint
  | .escaped (.high h) :: .escaped (.low l) :: pieces => .char (pair h l) :: joinPieces pieces
  | .escaped p :: pieces => p :: joinPieces pieces
  | .plain p :: pieces => p :: joinPieces pieces
  | [] => []

/-- Adds a piece in front of a string that was read. -/
def prepend (piece : Piece) (read : List Piece × List CodePoint) : List Piece × List CodePoint :=
  (piece :: read.1, read.2)

/-- The pieces of a string up to its closing quote, and what follows it. -/
def readPieces (input : List CodePoint) : Option (List Piece × List CodePoint) :=
  match input with
  | .char c :: rest =>
    if c = '"' then some ([], rest)
    else if c = '\\' then
      match rest with
      | .char e :: rest =>
        if e = 'u' then
          match rest with
          | .char h₁ :: .char h₂ :: .char h₃ :: .char h₄ :: rest =>
            (hexUnit h₁ h₂ h₃ h₄).bind fun unit =>
              (readPieces rest).map (prepend (.escaped (ofUnit unit)))
          | _ => none
        else (escapedUnit e).bind fun unit => (readPieces rest).map (prepend (.plain (ofUnit unit)))
      | _ => none
    else if c.toNat < 32 then none
    else (readPieces rest).map (prepend (.plain (.char c)))
  | p :: rest => (readPieces rest).map (prepend (.plain p))
  | [] => none
termination_by structural input

/-- `scanstring`, after the opening quote. -/
def readString (input : List CodePoint) : Option (PyStr × List CodePoint) :=
  (readPieces input).map fun read => (⟨joinPieces read.1⟩, read.2)

section Read

variable (float : FloatFormat)

/-- The value of a number; `int` raises on more digits than it converts. -/
def Numeral.value (n : Numeral) : Option PyValue :=
  if n.isFloat then some (.float (float.read n.text))
  else if (n.integer.filter Char.isDigit).length ≤ maxStrDigits then some (.int (intValue n.integer))
  else none

def readNumber (input : List CodePoint) : Option (PyValue × List CodePoint) := do
  let (number, rest) ← scanNumber (splitChars input).1
  let value ← number.value float
  some (value, ofChars rest ++ (splitChars input).2)

def constants : List (List Char × PyValue) :=
  [("null".toList, .none), ("true".toList, .bool true), ("false".toList, .bool false),
    ("NaN".toList, .float none), ("Infinity".toList, .float none),
    ("-Infinity".toList, .float none)]

/-- A constant, and what follows it. -/
def readConstant (input : List CodePoint) : Option (PyValue × List CodePoint) :=
  constants.findSome? fun (text, value) =>
    if (ofChars text).isPrefixOf input then some (value, input.drop text.length) else none

mutual

/-- A value, and what follows it. -/
def readValue : ℕ → List CodePoint → Option (PyValue × List CodePoint)
  | 0, _ => none
  | fuel + 1, input =>
    match skipBlank input with
    | .char '"' :: rest => (readString rest).map fun read => (.str read.1, read.2)
    | .char '\x7b' :: rest =>
      match skipBlank rest with
      | .char '\x7d' :: rest => some (.dict [], rest)
      | rest => (readEntries fuel [] rest).map fun read => (.dict read.1, read.2)
    | .char '[' :: rest =>
      match skipBlank rest with
      | .char ']' :: rest => some (.list [], rest)
      | rest => (readItems fuel rest).map fun read => (.list read.1, read.2)
    | input => (readConstant input).or (readNumber float input)

/-- The items of a list, up to its closing bracket. -/
def readItems : ℕ → List CodePoint → Option (List PyValue × List CodePoint)
  | 0, _ => none
  | fuel + 1, input => do
    let (item, rest) ← readValue fuel input
    match skipBlank rest with
    | .char ',' :: rest => (readItems fuel rest).map fun read => (item :: read.1, read.2)
    | .char ']' :: rest => some ([item], rest)
    | _ => none

/-- The entries of a dict after those read so far, up to its closing brace. -/
def readEntries : ℕ → List (PyStr × PyValue) → List CodePoint →
    Option (List (PyStr × PyValue) × List CodePoint)
  | 0, _, _ => none
  | fuel + 1, entries, input => do
    let rest ← expect '"' input
    let (key, rest) ← readString rest
    let rest ← expect ':' rest
    let (value, rest) ← readValue fuel rest
    match skipBlank rest with
    | .char ',' :: rest => readEntries fuel (setEntry key value entries) rest
    | .char '\x7d' :: rest => some (setEntry key value entries, rest)
    | _ => none

end

/-- `json.loads`, nothing when it raises; a repeated key of a dict keeps its place and takes the later
value. -/
def loads (text : PyStr) : Option PyValue := do
  let (value, rest) ← readValue float (text.points.length + 1) text.points
  if skipBlank rest = [] then some value else none

end Read

end AgentOrchestrator.Ir
