import Mathlib.Data.List.Basic
import Mathlib.Data.Set.Finite.Basic
import Mathlib.Order.WellFounded
import Mathlib.Logic.Relation

/-!
# Lists in post-order

A directed graph is a function `next` from an element to its successors.  A list is in post-order
when every element of it comes after its successors; a depth-first search puts an element at the
end of such a list once all its successors are there.  Elements of a list in post-order lie on no
cycle, and conversely the edges of a finite graph without cycles are well-founded.
-/

namespace PostOrder

open Relation

variable {α : Type*} (next : α → List α)

/-- Every element comes after its successors. -/
def Sorted (l : List α) : Prop := ∀ l₁ a l₂, l = l₁ ++ a :: l₂ → ∀ b ∈ next a, b ∈ l₁

/-- There is an edge from the first element to the second. -/
def Edge (a b : α) : Prop := b ∈ next a

variable {next}

theorem sorted_nil : Sorted next [] := by
  intro l₁ a l₂ h
  cases l₁ <;> cases h

/-- An element may be put at the end when its successors are in the list. -/
theorem Sorted.snoc {l : List α} (h : Sorted next l) {a : α} (ha : ∀ b ∈ next a, b ∈ l) :
    Sorted next (l ++ [a]) := by
  intro l₁ c l₂ hl b hb
  rcases List.eq_nil_or_concat l₂ with rfl | ⟨l₂, z, rfl⟩
  · obtain ⟨rfl, hc⟩ := List.append_inj' hl rfl
    obtain rfl := (List.cons.inj hc).1
    exact ha b hb
  · rw [List.concat_eq_append, ← List.cons_append, ← List.append_assoc] at hl
    obtain ⟨rfl, -⟩ := List.append_inj' hl rfl
    exact h l₁ c l₂ rfl b hb

variable [DecidableEq α]

theorem Sorted.idxOf_lt {l : List α} (h : Sorted next l) {a b : α} (ha : a ∈ l) (hb : Edge next a b) :
    b ∈ l ∧ l.idxOf b < l.idxOf a := by
  obtain ⟨l₁, l₂, rfl, hnot⟩ := List.eq_append_cons_of_mem ha
  have hmem : b ∈ l₁ := h l₁ a l₂ rfl b hb
  have hb' : (l₁ ++ a :: l₂).idxOf b = l₁.idxOf b := by rw [List.idxOf_append, if_pos hmem]
  have ha' : (l₁ ++ a :: l₂).idxOf a = l₁.length := by
    rw [List.idxOf_append, if_neg hnot, List.idxOf_cons_self, Nat.zero_add]
  rw [hb', ha']
  exact ⟨List.mem_append_left _ hmem, List.idxOf_lt_length_of_mem hmem⟩

/-- The elements of a list in post-order lie on no cycle. -/
theorem Sorted.acyclic {l : List α} (h : Sorted next l) {a : α} (ha : a ∈ l) :
    ¬ TransGen (Edge next) a a := by
  have hlt : ∀ {b}, TransGen (Edge next) a b → b ∈ l ∧ l.idxOf b < l.idxOf a := by
    intro b hb
    induction hb with
    | single hb => exact h.idxOf_lt ha hb
    | tail _ hbc ih =>
      obtain ⟨hc, hlt⟩ := h.idxOf_lt ih.1 hbc
      exact ⟨hc, hlt.trans ih.2⟩
  intro hcycle
  exact lt_irrefl _ (hlt hcycle).2

omit [DecidableEq α] in
/-- The edges of a finite graph without cycles are well-founded. -/
theorem acc_of_acyclic {l : List α} (hclosed : ∀ a ∈ l, ∀ b, Edge next a b → b ∈ l)
    (hacyclic : ∀ a ∈ l, ¬ TransGen (Edge next) a a) {a : α} (ha : a ∈ l) :
    Acc (fun b a => Edge next a b) a := by
  have hfinite : Finite { x // x ∈ l } := l.finite_toSet.to_subtype
  let r : { x // x ∈ l } → { x // x ∈ l } → Prop := fun b a => TransGen (Edge next) a.1 b.1
  have htrans : IsTrans _ r := ⟨fun _ _ _ hab hbc => hbc.trans hab⟩
  have hirrefl : Std.Irrefl r := ⟨fun a h => hacyclic a.1 a.2 h⟩
  have hwf : WellFounded r := Finite.wellFounded_of_trans_of_irrefl r
  suffices h : ∀ x : { x // x ∈ l }, Acc (fun b a => Edge next a b) x.1 from h ⟨a, ha⟩
  intro x
  induction x using hwf.induction with
  | _ x ih =>
    refine Acc.intro _ ?_
    intro b hb
    exact ih ⟨b, hclosed x.1 x.2 b hb⟩ (TransGen.single hb)

end PostOrder
