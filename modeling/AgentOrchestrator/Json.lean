import Mathlib.Data.Rat.Defs

/-!
# JSON values

The values `JSON.parse` can return, and what `JSON.stringify` prints for a string.  Objects are
lists of fields in insertion order.  The orchestrator compares two values by comparing their
printed texts; on parsed values this is equality of the trees.
-/

namespace AgentOrchestrator

/-- A JSON value. -/
inductive Json where
  | null
  | bool (b : Bool)
  | num (n : ℚ)
  | str (s : String)
  | arr (items : List Json)
  | obj (fields : List (String × Json))

namespace Json

mutual

/-- Equality of two values. -/
def decEq : (a b : Json) → Decidable (a = b)
  | .null, .null => isTrue rfl
  | .bool a, .bool b => decidable_of_iff (a = b) (by simp)
  | .num a, .num b => decidable_of_iff (a = b) (by simp)
  | .str a, .str b => decidable_of_iff (a = b) (by simp)
  | .arr a, .arr b => @decidable_of_iff _ (a = b) (by simp) (decEqItems a b)
  | .obj a, .obj b => @decidable_of_iff _ (a = b) (by simp) (decEqFields a b)
  | .null, .bool _ | .null, .num _ | .null, .str _ | .null, .arr _ | .null, .obj _
  | .bool _, .null | .bool _, .num _ | .bool _, .str _ | .bool _, .arr _ | .bool _, .obj _
  | .num _, .null | .num _, .bool _ | .num _, .str _ | .num _, .arr _ | .num _, .obj _
  | .str _, .null | .str _, .bool _ | .str _, .num _ | .str _, .arr _ | .str _, .obj _
  | .arr _, .null | .arr _, .bool _ | .arr _, .num _ | .arr _, .str _ | .arr _, .obj _
  | .obj _, .null | .obj _, .bool _ | .obj _, .num _ | .obj _, .str _ | .obj _, .arr _ =>
    isFalse (by simp)

/-- Equality of the items of two arrays. -/
def decEqItems : (a b : List Json) → Decidable (a = b)
  | [], [] => isTrue rfl
  | [], _ :: _ | _ :: _, [] => isFalse (by simp)
  | x :: a, y :: b =>
    have := decEq x y
    have := decEqItems a b
    decidable_of_iff (x = y ∧ a = b) (by simp)

/-- Equality of the fields of two objects. -/
def decEqFields : (a b : List (String × Json)) → Decidable (a = b)
  | [], [] => isTrue rfl
  | [], _ :: _ | _ :: _, [] => isFalse (by simp)
  | (k, x) :: a, (l, y) :: b =>
    have := decEq x y
    have := decEqFields a b
    decidable_of_iff ((k = l ∧ x = y) ∧ a = b) (by simp)

end

instance : DecidableEq Json := decEq

/-- A natural number as a JSON number. -/
def nat (n : ℕ) : Json := .num n

theorem nat_injective : Function.Injective nat := by
  intro a b h
  exact_mod_cast num.inj h

/-- An optional text, `null` when it is undefined. -/
def optStr : Option String → Json
  | none => .null
  | some s => .str s

theorem optStr_injective : Function.Injective optStr := by
  intro a b h
  cases a with
  | none =>
    cases b with
    | none => rfl
    | some b => cases h
  | some a =>
    cases b with
    | none => cases h
    | some b => rw [str.inj h]

/-- The fields of an object that are defined. -/
def defined (fields : List (String × Option Json)) : Json :=
  .obj (fields.filterMap fun f => f.2.map fun v => (f.1, v))

/-- The hexadecimal digits of the `\u` escape of a control character. -/
def escapeUnicode (n : ℕ) : List Char :=
  let digit (d : ℕ) : Char := Nat.digitChar (d % 16)
  ['\\', 'u', digit (n / 4096), digit (n / 256), digit (n / 16), digit n]

/-- How `JSON.stringify` prints one character of a string. -/
def escapeChar (c : Char) : List Char :=
  if c = '"' then ['\\', '"']
  else if c = '\\' then ['\\', '\\']
  else if c.toNat = 8 then ['\\', 'b']
  else if c.toNat = 9 then ['\\', 't']
  else if c.toNat = 10 then ['\\', 'n']
  else if c.toNat = 12 then ['\\', 'f']
  else if c.toNat = 13 then ['\\', 'r']
  else if c.toNat < 32 then escapeUnicode c.toNat
  else [c]

/-- `JSON.stringify` of a string. -/
def quote (s : String) : String :=
  String.ofList ('"' :: (s.toList.flatMap escapeChar ++ ['"']))

example : quote "a\"b\n" = "\"a\\\"b\\n\"" := by decide

end Json

end AgentOrchestrator
