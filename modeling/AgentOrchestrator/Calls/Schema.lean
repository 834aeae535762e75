import AgentOrchestrator.Json
import Mathlib.Data.List.Perm.Basic

/-!
# Schemas of tools

The subset of JSON Schema that `call-validator.ts` implements, the checks of one value against one
schema that need no graph, and `compatible`, which compares two schemas.  The fields of an object
stand in the order of `Object.entries`; an absent `properties` or `required` is an empty one, which
the code does not tell apart.
-/

namespace AgentOrchestrator.Calls

inductive SchemaType where
  | object | array | string | number | integer | boolean | null
  deriving DecidableEq

def SchemaType.text : SchemaType → String
  | .object => "object"
  | .array => "array"
  | .string => "string"
  | .number => "number"
  | .integer => "integer"
  | .boolean => "boolean"
  | .null => "null"

inductive Format where
  | dateTime | email | uri | uuid
  deriving DecidableEq

def Format.text : Format → String
  | .dateTime => "date-time"
  | .email => "email"
  | .uri => "uri"
  | .uuid => "uuid"

structure JsonSchema where
  type : Option SchemaType := none
  properties : List (String × JsonSchema) := []
  required : List String := []
  additionalProperties : Option Bool := none
  items : Option JsonSchema := none
  enum : Option (List Json) := none
  format : Option Format := none

structure ToolSchema where
  input : JsonSchema
  output : Option JsonSchema := none

/-! ## Values -/

def isRecord : Json → Bool
  | .obj _ => true
  | _ => false

/-- `isReference`: the node a value refers to.  The keys of an object are distinct, so an object
whose keys are all `$ref` has that one field. -/
def reference? : Json → Option String
  | .obj [("$ref", .str ref)] => some ref
  | _ => none

/-- The names every object inherits. -/
def prototypeNames : List String :=
  ["constructor", "__defineGetter__", "__defineSetter__", "hasOwnProperty", "__lookupGetter__",
    "__lookupSetter__", "isPrototypeOf", "propertyIsEnumerable", "toString", "valueOf",
    "__proto__", "toLocaleString"]

/-- `key in value` -/
def hasKey (key : String) (fields : List (String × Json)) : Bool :=
  fields.any (·.1 = key) || prototypeNames.contains key

def matchesType (value : Json) : Option SchemaType → Bool
  | none => true
  | some .null => match value with | .null => true | _ => false
  | some .array => match value with | .arr _ => true | _ => false
  | some .object => isRecord value
  | some .integer => match value with | .num n => n.den = 1 | _ => false
  | some .string => match value with | .str _ => true | _ => false
  | some .number => match value with | .num _ => true | _ => false
  | some .boolean => match value with | .bool _ => true | _ => false

mutual

/-- `deepEqual`; the sorted keys of two objects are equal when one list of keys is a permutation
of the other. -/
def deepEqual : Json → Json → Bool
  | .null, .null => true
  | .bool a, .bool b => a = b
  | .num a, .num b => a = b
  | .str a, .str b => a = b
  | .arr a, .arr b => deepEqualItems a b
  | .obj a, .obj b => (a.map (·.1)).isPerm (b.map (·.1)) && deepEqualFields a b
  | _, _ => false

def deepEqualItems : List Json → List Json → Bool
  | [], [] => true
  | x :: a, y :: b => deepEqual x y && deepEqualItems a b
  | _, _ => false

def deepEqualFields : List (String × Json) → List (String × Json) → Bool
  | [], _ => true
  | (k, x) :: a, b =>
    (match b.lookup k with | none => false | some y => deepEqual x y) && deepEqualFields a b

end

/-! ## Formats -/

/-- The whole text matches one class of characters after another. -/
def matchesClasses : List (Char → Bool) → List Char → Bool
  | [], [] => true
  | p :: classes, c :: chars => p c && matchesClasses classes chars
  | _, _ => false

/-- `\s` of a regular expression. -/
def isSpace (c : Char) : Bool :=
  let n := c.toNat
  (9 ≤ n && n ≤ 13) || n = 32 || n = 0xa0 || n = 0x1680 || (0x2000 ≤ n && n ≤ 0x200a) ||
    n = 0x2028 || n = 0x2029 || n = 0x202f || n = 0x205f || n = 0x3000 || n = 0xfeff

/-- `/^[^\s@]+@[^\s@]+\.[^\s@]+$/` -/
def isEmail (chars : List Char) : Bool :=
  let user := chars.takeWhile (· ≠ '@')
  let host := (chars.dropWhile (· ≠ '@')).drop 1
  chars.count '@' = 1 && user ≠ [] && chars.all (!isSpace ·) &&
    (host.drop 1).dropLast.contains '.'

def isHex (c : Char) : Bool :=
  c.isDigit || ('a' ≤ c && c ≤ 'f') || ('A' ≤ c && c ≤ 'F')

def isUuid (chars : List Char) : Bool :=
  matchesClasses (List.replicate 8 isHex ++ [(· == '-')] ++ List.replicate 4 isHex ++ [(· == '-')] ++
    [fun c => '1' ≤ c && c ≤ '5'] ++ List.replicate 3 isHex ++ [(· == '-')] ++
    [fun c => ['8', '9', 'a', 'b', 'A', 'B'].contains c] ++ List.replicate 3 isHex ++ [(· == '-')] ++
    List.replicate 12 isHex) chars

/-- `Number` of a text of digits. -/
def digits (chars : List Char) : ℕ := chars.foldl (fun n c => 10 * n + (c.toNat - '0'.toNat)) 0

/-- `new Date(Date.UTC(year, month, 0)).getUTCDate()`; `Date.UTC` reads a year below 100 as one of
the twentieth century. -/
def daysInMonth (year month : ℕ) : ℕ :=
  let year := if year ≤ 99 then 1900 + year else year
  if month = 2 then
    if year % 4 = 0 && (year % 100 ≠ 0 || year % 400 = 0) then 29 else 28
  else if month = 4 || month = 6 || month = 9 || month = 11 then 30
  else 31

def isZone : List Char → Bool
  | ['Z'] => true
  | [sign, h, h', colon, m, m'] =>
    (sign = '+' || sign = '-') && colon = ':' && [h, h', m, m'].all Char.isDigit &&
      digits [h, h'] ≤ 23 && digits [m, m'] ≤ 59
  | _ => false

/-- The text after the seconds: a fraction, if any, and the zone. -/
def isFractionAndZone : List Char → Bool
  | '.' :: rest => rest.takeWhile Char.isDigit ≠ [] && isZone (rest.dropWhile Char.isDigit)
  | rest => isZone rest

def isDateTime (chars : List Char) : Bool :=
  let digit := Char.isDigit
  let field (start length : ℕ) := digits ((chars.drop start).take length)
  matchesClasses [digit, digit, digit, digit, (· == '-'), digit, digit, (· == '-'), digit, digit,
      (· == 'T'), digit, digit, (· == ':'), digit, digit, (· == ':'), digit, digit] (chars.take 19) &&
    isFractionAndZone (chars.drop 19) &&
    1 ≤ field 5 2 && field 5 2 ≤ 12 && field 11 2 ≤ 23 && field 14 2 ≤ 59 && field 17 2 ≤ 59 &&
    1 ≤ field 8 2 && field 8 2 ≤ daysInMonth (field 0 4) (field 5 2)

/-- `matchesFormat`; `isUrl` says whether `new URL` accepts the text. -/
def matchesFormat (isUrl : String → Bool) (value : String) : Format → Bool
  | .email => isEmail value.toList
  | .uuid => isUuid value.toList
  | .uri => isUrl value
  | .dateTime => isDateTime value.toList

example : isDateTime "2024-02-29T00:00:00Z".toList = true ∧
    isDateTime "2024-02-30T00:00:00Z".toList = false ∧
    isDateTime "2026-07-26T11:00:00".toList = false := by
  decide

/-! ## Two schemas -/

/-- Every value of the enumeration of the source is one of the target. -/
def enumWithin (source target : Option (List Json)) : Bool :=
  match target with
  | none => true
  | some items =>
    match source with
    | none => false
    | some values => values.all fun value => items.any fun item => deepEqual item value

mutual

def compatible (source : JsonSchema) : JsonSchema → Bool
  | { type, properties, required, additionalProperties, items, enum, format } =>
    match source.type, type with
    | none, _ => true
    | some _, none => true
    | some sourceType, some targetType =>
      if sourceType = .integer ∧ targetType = .number then true
      else if sourceType ≠ targetType then false
      else if !enumWithin source.enum enum then false
      else if format ≠ none ∧ source.format ≠ format then false
      else if targetType = .array ∧ items.isSome then compatibleItems source.items items
      else if targetType = .object then
        (required.all fun required =>
          source.required.contains required &&
            compatibleProperty required source.properties properties) &&
          (additionalProperties ≠ some false || (source.additionalProperties = some false &&
            source.properties.all fun property => (properties.lookup property.1).isSome))
      else true

def compatibleItems (source : Option JsonSchema) : Option JsonSchema → Bool
  | none => true
  | some target =>
    match source with
    | none => false
    | some source => compatible source target

/-- Both schemas have the property, and theirs are compatible. -/
def compatibleProperty (key : String) (source : List (String × JsonSchema)) :
    List (String × JsonSchema) → Bool
  | [] => false
  | (k, target) :: properties =>
    if k = key then
      match source.lookup key with
      | none => false
      | some source => compatible source target
    else compatibleProperty key source properties

end

example : compatible { type := some .integer } { type := some .number } = true ∧
    compatible { type := some .number } { type := some .integer } = false := by
  decide

end AgentOrchestrator.Calls
