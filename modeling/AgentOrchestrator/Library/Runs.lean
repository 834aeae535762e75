import Mathlib.Logic.Relation
import Mathlib.Data.List.Basic

/-!
# Runs of a state machine

A state machine is a total step function `step : σ → ι → σ`; an input that is not enabled leaves
the state as it is.  `run` feeds a list of inputs to it.  The rules below turn a fact about one
step into a fact about every run: `run_invariant` for predicates, `run_invariant_of` for
predicates that need every input to be admissible where it is consumed, and `run_related` for
relations between the first state and the last one.
-/

namespace Runs

variable {σ ι : Type*} (step : σ → ι → σ)

/-- The state after the inputs of a list, in order. -/
def run (s : σ) (l : List ι) : σ := l.foldl step s

@[simp] theorem run_nil (s : σ) : run step s [] = s := rfl

@[simp] theorem run_cons (s : σ) (i : ι) (l : List ι) :
    run step s (i :: l) = run step (step s i) l := rfl

theorem run_append (s : σ) (l l' : List ι) :
    run step s (l ++ l') = run step (run step s l) l' := List.foldl_append

/-- A predicate that every step keeps holds after every run. -/
theorem run_invariant {P : σ → Prop} (hstep : ∀ s i, P s → P (step s i)) {s : σ} (hs : P s)
    (l : List ι) : P (run step s l) := by
  induction l generalizing s with
  | nil => exact hs
  | cons i l ih => exact ih (hstep s i hs)

/-- Every input of the run is admissible in the state that consumes it. -/
def Admissible (ok : σ → ι → Prop) : σ → List ι → Prop
  | _, [] => True
  | s, i :: l => ok s i ∧ Admissible ok (step s i) l

instance decidableAdmissible {ok : σ → ι → Prop} [∀ s i, Decidable (ok s i)] :
    ∀ s l, Decidable (Admissible step ok s l)
  | _, [] => inferInstanceAs (Decidable True)
  | s, i :: l => @instDecidableAnd _ _ _ (decidableAdmissible (step s i) l)

theorem admissible_append {ok : σ → ι → Prop} {s : σ} {l l' : List ι} :
    Admissible step ok s (l ++ l') ↔
      Admissible step ok s l ∧ Admissible step ok (run step s l) l' := by
  induction l generalizing s with
  | nil => exact ⟨fun h => ⟨trivial, h⟩, fun h => h.2⟩
  | cons i l ih =>
    constructor
    · rintro ⟨hi, h⟩
      obtain ⟨hl, hl'⟩ := ih.1 h
      exact ⟨⟨hi, hl⟩, hl'⟩
    · rintro ⟨⟨hi, hl⟩, hl'⟩
      exact ⟨hi, ih.2 ⟨hl, hl'⟩⟩

/-- A run is admissible when every input is admissible after the inputs before it. -/
theorem admissible_of_forall_prefix {ok : σ → ι → Prop} {s : σ} {l : List ι}
    (h : ∀ l' i, l' ++ [i] <+: l → ok (run step s l') i) : Admissible step ok s l := by
  induction l generalizing s with
  | nil => trivial
  | cons j l ih =>
    refine ⟨h [] j ⟨l, rfl⟩, ih ?_⟩
    intro l' i hl'
    exact h (j :: l') i (List.cons_prefix_cons.2 ⟨rfl, hl'⟩)

theorem admissible_mono {ok ok' : σ → ι → Prop} (h : ∀ s i, ok s i → ok' s i) {s : σ} {l : List ι}
    (hl : Admissible step ok s l) : Admissible step ok' s l := by
  induction l generalizing s with
  | nil => trivial
  | cons i l ih => exact ⟨h s i hl.1, ih hl.2⟩

/-- A condition on the inputs alone makes the run admissible. -/
theorem admissible_of_forall {ok : ι → Prop} {l : List ι} (h : ∀ i ∈ l, ok i) (s : σ) :
    Admissible step (fun _ i => ok i) s l := by
  induction l generalizing s with
  | nil => trivial
  | cons i l ih =>
    exact ⟨h i List.mem_cons_self, ih (fun j hj => h j (List.mem_cons_of_mem i hj)) (step s i)⟩

/-- A predicate that every admissible step keeps holds after every admissible run. -/
theorem run_invariant_of {P : σ → Prop} {ok : σ → ι → Prop}
    (hstep : ∀ s i, P s → ok s i → P (step s i)) {s : σ} (hs : P s) {l : List ι}
    (hl : Admissible step ok s l) : P (run step s l) := by
  induction l generalizing s with
  | nil => exact hs
  | cons i l ih => exact ih (hstep s i hs hl.1) hl.2

/-- When, in states of an invariant, a step keeps a predicate exactly if it is admissible, the
predicate holds all along a run exactly if the run is admissible. -/
theorem forall_prefix_iff_admissible {I P : σ → Prop} {ok : σ → ι → Prop}
    (hinv : ∀ s i, I s → I (step s i))
    (hstep : ∀ s i, I s → P s → (P (step s i) ↔ ok s i)) {s : σ} (hI : I s) (hs : P s)
    (l : List ι) : (∀ l', l' <+: l → P (run step s l')) ↔ Admissible step ok s l := by
  induction l generalizing s with
  | nil =>
    refine ⟨fun _ => trivial, ?_⟩
    intro _ l' hl'
    rw [List.prefix_nil.1 hl']
    exact hs
  | cons i l ih =>
    constructor
    · intro h
      have hi : P (step s i) := h [i] ⟨l, rfl⟩
      refine ⟨(hstep s i hI hs).1 hi, (ih (hinv s i hI) hi).1 ?_⟩
      intro l' hl'
      exact h (i :: l') (List.cons_prefix_cons.2 ⟨rfl, hl'⟩)
    · rintro ⟨hi, hl⟩ l' hl'
      cases l' with
      | nil => exact hs
      | cons j l' =>
        obtain ⟨rfl, htail⟩ := List.cons_prefix_cons.1 hl'
        exact (ih (hinv s j hI) ((hstep s j hI hs).2 hi)).2 hl l' htail

/-- A reflexive and transitive relation that every step of an invariant state respects relates
the first state of a run to the last one. -/
theorem run_related {I : σ → Prop} {R : σ → σ → Prop} (hrefl : ∀ s, R s s)
    (htrans : ∀ {a b c}, R a b → R b c → R a c) (hinv : ∀ s i, I s → I (step s i))
    (hstep : ∀ s i, I s → R s (step s i)) {s : σ} (hs : I s) (l : List ι) :
    R s (run step s l) := by
  induction l generalizing s with
  | nil => exact hrefl s
  | cons i l ih => exact htrans (hstep s i hs) (ih (hinv s i hs))

end Runs
