import AgentOrchestrator.Library.Utf16
import Mathlib.Data.List.Lex

/-!
# Texts of code points

A code point is a character or a surrogate on its own, so a text of code points may hold the two
halves of a pair next to each other.  In an `Unpaired` text they never are.
-/

namespace AgentOrchestrator

open Utf16

/-- A code point: a character, or a high or a low surrogate. -/
inductive CodePoint where
  | char (c : Char)
  | high (h : Fin 0x400)
  | low (l : Fin 0x400)
  deriving DecidableEq

namespace CodePoint

def toNat : CodePoint → ℕ
  | .char c => c.toNat
  | .high h => 0xD800 + h
  | .low l => 0xDC00 + l

theorem toNat_injective : Function.Injective toNat := by
  have hchar (c : Char) : c.toNat < 0xD800 ∨ (0xDFFF < c.toNat ∧ c.toNat < 0x110000) := c.valid
  intro p q h
  cases p <;> cases q <;> simp only [toNat] at h
  case char.char c d => exact congrArg CodePoint.char (Char.ext (UInt32.toNat_inj.1 h))
  case high.high a b => exact congrArg CodePoint.high (Fin.ext (by omega))
  case low.low a b => exact congrArg CodePoint.low (Fin.ext (by omega))
  case char.high c a | char.low c a | high.char a c | low.char a c =>
    have := hchar c
    omega
  case high.low | low.high => omega

theorem toNat_high_lt (h : Fin 0x400) : (high h).toNat < 0x10000 := by
  rw [toNat]
  omega

theorem toNat_low_lt (l : Fin 0x400) : (low l).toNat < 0x10000 := by
  rw [toNat]
  omega

instance : LinearOrder CodePoint := LinearOrder.lift' toNat toNat_injective

/-- The character whose code units are the two surrogates. -/
def pair (h l : Fin 0x400) : Char := Char.ofNat (0x10000 + h * 0x400 + l)

/-- The high surrogate of a character that has two code units. -/
def highHalf (c : Char) : Fin 0x400 := Fin.ofNat 0x400 ((c.toNat - 0x10000) / 0x400)

/-- The low surrogate of a character that has two code units. -/
def lowHalf (c : Char) : Fin 0x400 := Fin.ofNat 0x400 ((c.toNat - 0x10000) % 0x400)

section Halves

variable {c : Char} (h : 0x10000 ≤ c.toNat)

include h

theorem highHalf_val : (highHalf c : ℕ) = (c.toNat - 0x10000) / 0x400 := by
  have hrange : c.toNat < 0xD800 ∨ (0xDFFF < c.toNat ∧ c.toNat < 0x110000) := c.valid
  exact Nat.mod_eq_of_lt (by omega)

omit h in
theorem lowHalf_val : (lowHalf c : ℕ) = (c.toNat - 0x10000) % 0x400 := Nat.mod_mod _ _

theorem charUnits_halves : charUnits c = [(high (highHalf c)).toNat, (low (lowHalf c)).toNat] := by
  rw [toNat, toNat, highHalf_val h, lowHalf_val]
  exact if_neg (by omega)

theorem pair_halves : pair (highHalf c) (lowHalf c) = c := by
  have hvalue : 0x10000 + (highHalf c : ℕ) * 0x400 + lowHalf c = c.toNat := by
    rw [highHalf_val h, lowHalf_val]
    omega
  rw [pair, hvalue, Char.ofNat_toNat]

end Halves

/-- The code point of a code unit. -/
def ofUnit (u : ℕ) : CodePoint :=
  if 0xD800 ≤ u ∧ u < 0xDC00 then .high (Fin.ofNat 0x400 (u - 0xD800))
  else if 0xDC00 ≤ u ∧ u < 0xE000 then .low (Fin.ofNat 0x400 (u - 0xDC00))
  else .char (Char.ofNat u)

theorem ofUnit_toNat (p : CodePoint) : ofUnit p.toNat = p := by
  unfold ofUnit
  cases p with
  | char c =>
    have hrange : c.toNat < 0xD800 ∨ (0xDFFF < c.toNat ∧ c.toNat < 0x110000) := c.valid
    rw [toNat, if_neg (by omega), if_neg (by omega), Char.ofNat_toNat]
  | high h =>
    rw [toNat, if_pos (by omega)]
    exact congrArg CodePoint.high (Fin.ext (by simp))
  | low l =>
    rw [toNat, if_neg (by omega), if_pos (by omega)]
    exact congrArg CodePoint.low (Fin.ext (by simp))

/-- The code points are the two halves of a pair. -/
def Halves : CodePoint → CodePoint → Prop
  | .high _, .low _ => True
  | _, _ => False

instance : DecidableRel Halves
  | .high _, .low _ => isTrue trivial
  | .high _, .char _ | .high _, .high _ | .char _, _ | .low _, _ => isFalse id

/-- No two neighbours are the halves of a pair. -/
def Unpaired (text : List CodePoint) : Prop := text.IsChain fun p q => ¬ Halves p q

instance : DecidablePred Unpaired := fun text =>
  inferInstanceAs (Decidable (text.IsChain fun p q => ¬ Halves p q))

/-! ## Texts of characters -/

/-- The code points of characters. -/
def ofChars (chars : List Char) : List CodePoint := chars.map .char

@[simp] theorem ofChars_nil : ofChars [] = [] := rfl

@[simp] theorem ofChars_cons (c : Char) (chars : List Char) :
    ofChars (c :: chars) = .char c :: ofChars chars := rfl

@[simp] theorem ofChars_append (a b : List Char) : ofChars (a ++ b) = ofChars a ++ ofChars b :=
  List.map_append

theorem ofChars_inj {a b : List Char} : ofChars a = ofChars b ↔ a = b :=
  List.map_inj_right fun _ _ => CodePoint.char.inj

theorem unpaired_ofChars (chars : List Char) : Unpaired (ofChars chars) := by
  unfold Unpaired
  rw [List.isChain_iff_getElem]
  simp [ofChars, Halves]

/-- The characters up to the first surrogate, and the rest. -/
def splitChars : List CodePoint → List Char × List CodePoint
  | .char c :: text => (c :: (splitChars text).1, (splitChars text).2)
  | text => ([], text)

theorem splitChars_ofChars (chars : List Char) : splitChars (ofChars chars) = (chars, []) := by
  induction chars with
  | nil => rfl
  | cons c chars ih => rw [ofChars_cons, splitChars, ih]

end CodePoint

end AgentOrchestrator
