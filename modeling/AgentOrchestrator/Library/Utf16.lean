import Mathlib.Data.List.Basic

/-!
# UTF-16

The code units of a text, and the text of code units.  Decoding inverts encoding.
-/

namespace AgentOrchestrator.Utf16

/-- The code units of a character. -/
def charUnits (c : Char) : List ℕ :=
  if c.toNat < 0x10000 then [c.toNat]
  else [0xD800 + (c.toNat - 0x10000) / 0x400, 0xDC00 + (c.toNat - 0x10000) % 0x400]

/-- The code units of a text. -/
def toUnits (text : String) : List ℕ := text.toList.flatMap charUnits

/-- A code unit on its own; a surrogate is the replacement character. -/
def loneUnit (u : ℕ) : Char := Char.ofNat (if 0xD800 ≤ u ∧ u < 0xE000 then 0xFFFD else u)

/-- The characters of code units. -/
def decodeUnits : List ℕ → List Char
  | [] => []
  | [u] => [loneUnit u]
  | u :: v :: units =>
    if 0xD800 ≤ u ∧ u < 0xDC00 ∧ 0xDC00 ≤ v ∧ v < 0xE000 then
      Char.ofNat (0x10000 + (u - 0xD800) * 0x400 + (v - 0xDC00)) :: decodeUnits units
    else loneUnit u :: decodeUnits (v :: units)

def ofUnits (units : List ℕ) : String := String.ofList (decodeUnits units)

theorem toUnits_ne_nil {text : String} (h : text ≠ "") : toUnits text ≠ [] := by
  unfold toUnits
  cases hl : text.toList with
  | nil => exact absurd (String.toList_eq_nil_iff.1 hl) h
  | cons c l =>
    rw [List.flatMap_cons]
    refine List.append_ne_nil_of_left_ne_nil ?_ _
    unfold charUnits
    split_ifs <;> exact List.cons_ne_nil _ _

theorem ofUnits_ne_empty {units : List ℕ} (h : units ≠ []) : ofUnits units ≠ "" := by
  unfold ofUnits
  intro he
  have hnil : decodeUnits units = [] := by
    have hlist := congrArg String.toList he
    rwa [String.toList_ofList] at hlist
  match units with
  | [] => exact h rfl
  | [u] => cases hnil
  | u :: v :: units =>
    unfold decodeUnits at hnil
    split_ifs at hnil

theorem decodeUnits_lone {u : ℕ} (h : ¬ (0xD800 ≤ u ∧ u < 0xE000)) (units : List ℕ) :
    decodeUnits (u :: units) = Char.ofNat u :: decodeUnits units := by
  have hlone : loneUnit u = Char.ofNat u := by
    unfold loneUnit
    rw [if_neg h]
  cases units with
  | nil =>
    unfold decodeUnits
    rw [hlone]
  | cons v units =>
    rw [decodeUnits, if_neg (by omega), hlone]

theorem decodeUnits_char (c : Char) (units : List ℕ) :
    decodeUnits (charUnits c ++ units) = c :: decodeUnits units := by
  have hrange : c.toNat < 0xD800 ∨ (0xDFFF < c.toNat ∧ c.toNat < 0x110000) := c.valid
  have hofNat : ∀ n, n = c.toNat → Char.ofNat n = c := by
    rintro n rfl
    exact Char.ofNat_toNat c
  unfold charUnits
  split_ifs with h
  · rw [List.cons_append, List.nil_append, decodeUnits_lone (by omega), hofNat _ rfl]
  · rw [List.cons_append, List.cons_append, List.nil_append, decodeUnits, if_pos (by omega),
      hofNat _ (by omega)]

theorem decodeUnits_chars (chars : List Char) : decodeUnits (chars.flatMap charUnits) = chars := by
  induction chars with
  | nil => rfl
  | cons c chars ih => rw [List.flatMap_cons, decodeUnits_char, ih]

theorem ofUnits_toUnits (text : String) : ofUnits (toUnits text) = text := by
  unfold ofUnits toUnits
  rw [decodeUnits_chars, String.ofList_toList]

end AgentOrchestrator.Utf16
