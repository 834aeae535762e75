import Mathlib.Data.List.Basic

/-!
# Computations that may fail

How a computation that succeeded is taken apart.
-/

namespace AgentOrchestrator

theorem ok_bind {ε α β : Type} (a : α) (f : α → Except ε β) : (Except.ok a >>= f) = f a := rfl

theorem bind_eq_ok {ε α β : Type} {x : Except ε α} {f : α → Except ε β} {b : β}
    (h : (x >>= f) = .ok b) : ∃ a, x = .ok a ∧ f a = .ok b := by
  cases x with
  | error e => cases h
  | ok a => exact ⟨a, rfl, h⟩

/-- A check that failed otherwise. -/
theorem bind_eq_ok_iff {ε α β : Type} {x : Except ε α} {f : α → Except ε β} {b : β} :
    (x >>= f) = .ok b ↔ ∃ a, x = .ok a ∧ f a = .ok b := by
  refine ⟨bind_eq_ok, ?_⟩
  rintro ⟨a, rfl, h⟩
  exact h

theorem ite_error_eq_ok_iff {ε α : Type} {P : Prop} [Decidable P] {e : ε} {x : Except ε α} {a : α} :
    (if P then .error e else x) = .ok a ↔ ¬ P ∧ x = .ok a := by
  by_cases hp : P <;> simp [hp]

theorem not_of_ite_error {ε : Type} {P : Prop} [Decidable P] {e : ε} {x : Except ε Unit} {u : Unit}
    (h : (if P then .error e else x) = .ok u) : ¬ P ∧ x = .ok u := by
  by_cases hp : P
  · rw [if_pos hp] at h
    cases h
  · rw [if_neg hp] at h
    exact ⟨hp, h⟩

theorem mapError_eq_ok {ε δ α : Type} {x : Except ε α} {f : ε → δ} {a : α}
    (h : x.mapError f = .ok a) : x = .ok a := by
  cases x with
  | error e => cases h
  | ok b => cases h; rfl

/-- A check of every item of a list that passed. -/
theorem forM_eq_ok {ε α : Type} {check : α → Except ε Unit} {l : List α} {u : Unit}
    (h : l.forM check = .ok u) : ∀ a ∈ l, check a = .ok () := by
  induction l with
  | nil =>
    intro a ha
    cases ha
  | cons b l ih =>
    obtain ⟨u, hb, hl⟩ := bind_eq_ok h
    intro a ha
    rcases List.mem_cons.1 ha with rfl | ha
    · exact hb
    · exact ih hl a ha

/-- Every item of a list is computed, when each is. -/
theorem mapM_eq_ok {ε α β : Type} {f : α → Except ε β} {g : α → β} {l : List α}
    (h : ∀ a ∈ l, f a = .ok (g a)) : l.mapM f = .ok (l.map g) := by
  induction l with
  | nil => rfl
  | cons a l ih =>
    rw [List.forall_mem_cons] at h
    rw [List.mapM_cons, h.1, ih h.2]
    rfl

end AgentOrchestrator
