import Mathlib.Logic.Function.Basic

/-!
# Texts of blocks

A text in which every element is written as a block of one length is read block by block.
-/

namespace Blocks

variable {α β : Type*} {code : α → List β}

theorem flatMap_injective (hcode : Function.Injective code)
    (hlength : ∀ x y, (code x).length = (code y).length) (hne : ∀ x, code x ≠ []) :
    Function.Injective (List.flatMap code) := by
  intro a
  induction a with
  | nil =>
    intro b h
    cases b with
    | nil => rfl
    | cons y b => exact absurd (List.append_eq_nil_iff.1 h.symm).1 (hne y)
  | cons x a ih =>
    intro b h
    cases b with
    | nil => exact absurd (List.append_eq_nil_iff.1 h).1 (hne x)
    | cons y b =>
      rw [List.flatMap_cons, List.flatMap_cons] at h
      obtain ⟨hblock, hrest⟩ := List.append_inj h (hlength x y)
      rw [hcode hblock, ih hrest]

end Blocks
