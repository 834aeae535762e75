import Mathlib.Data.List.DropRight

/-!
# Maximal runs in a list

The elements of a list that pass a test cut it into runs of elements that fail it.  The run at the
end of the list is the current one; it may be empty, and the next element extends or closes it.
-/

namespace AgentOrchestrator.MaximalRuns

variable {α : Type*} (p : α → Bool)

/-- The maximal runs of elements that fail the test. -/
def runs (l : List α) : List (List α) := (l.splitOnP p).filter (!·.isEmpty)

/-- The run at the end of the list, which may be empty. -/
def current (l : List α) : List α := l.rtakeWhile (!p ·)

/-- The runs that an element has ended. -/
def closed (l : List α) : List (List α) := (l.splitOnP p).dropLast.filter (!·.isEmpty)

@[simp] theorem current_nil : current p ([] : List α) = [] := List.rtakeWhile_nil _

@[simp] theorem closed_nil : closed p ([] : List α) = [] := by simp [closed]

variable {p}

@[simp] theorem current_snoc_pos {a : α} (h : p a = true) (l : List α) :
    current p (l ++ [a]) = [] :=
  List.rtakeWhile_concat_neg _ _ _ (by simp [h])

@[simp] theorem current_snoc_neg {a : α} (h : p a = false) (l : List α) :
    current p (l ++ [a]) = current p l ++ [a] :=
  List.rtakeWhile_concat_pos _ _ _ (by simp [h])

theorem fails_of_mem_current {l : List α} {a : α} (h : a ∈ current p l) : p a = false := by
  have := List.mem_rtakeWhile_imp h
  simpa using this

/-- The current run is all of the list, or an element that passes the test stands before it. -/
theorem eq_current_or (l : List α) :
    l = current p l ∨ ∃ front a, p a = true ∧ l = front ++ a :: current p l := by
  induction l using List.reverseRecOn with
  | nil => exact Or.inl rfl
  | append_singleton l a ih =>
    by_cases ha : p a = true
    · exact Or.inr ⟨l, a, ha, by rw [current_snoc_pos ha]⟩
    · rw [Bool.not_eq_true] at ha
      rw [current_snoc_neg ha]
      rcases ih with ih | ⟨front, b, hb, ih⟩
      · exact Or.inl (congrArg (· ++ [a]) ih)
      · exact Or.inr ⟨front, b, hb, by rw [← List.cons_append, ← List.append_assoc, ← ih]⟩

/-- Elements that fail the test extend the current run. -/
theorem splitOnP_append (l : List α) : ∃ front, ∀ m, (∀ a ∈ m, p a = false) →
    (l ++ m).splitOnP p = front ++ [current p l ++ m] := by
  have hfails : ∀ m, (∀ a ∈ m, p a = false) → ∀ a ∈ current p l ++ m, p a = false := by
    intro m hm a ha
    rcases List.mem_append.1 ha with ha | ha
    · exact fails_of_mem_current ha
    · exact hm a ha
  rcases eq_current_or (p := p) l with h | ⟨front, a, ha, h⟩
  · refine ⟨[], fun m hm => ?_⟩
    conv_lhs => rw [h]
    rw [List.splitOnP_eq_singleton (hfails m hm), List.nil_append]
  · refine ⟨front.splitOnP p, fun m hm => ?_⟩
    conv_lhs => rw [h]
    rw [List.append_assoc, List.cons_append, List.splitOnP_append_cons _ _ ha,
      List.splitOnP_eq_singleton (hfails m hm)]

theorem splitOnP_eq (l : List α) :
    l.splitOnP p = (l.splitOnP p).dropLast ++ [current p l] := by
  obtain ⟨front, h⟩ := splitOnP_append (p := p) l
  have h := h [] (by simp)
  rw [List.append_nil, List.append_nil] at h
  rw [h, List.dropLast_concat]

/-- The runs are the closed ones and the current one, unless it is empty. -/
theorem runs_eq (l : List α) :
    runs p l = closed p l ++ if current p l = [] then [] else [current p l] := by
  unfold runs closed
  conv_lhs => rw [splitOnP_eq, List.filter_append]
  by_cases h : current p l = [] <;> simp [h]

theorem runs_of_current_nil {l : List α} (h : current p l = []) : runs p l = closed p l := by
  rw [runs_eq, if_pos h, List.append_nil]

theorem runs_of_current_ne_nil {l : List α} (h : current p l ≠ []) :
    runs p l = closed p l ++ [current p l] := by
  rw [runs_eq, if_neg h]

/-- An element that passes the test closes the current run. -/
theorem closed_snoc_pos {a : α} (h : p a = true) (l : List α) :
    closed p (l ++ [a]) = runs p l := by
  unfold closed runs
  rw [List.splitOnP_append_cons _ _ h, List.splitOnP_nil, List.dropLast_concat]

theorem closed_snoc_neg {a : α} (h : p a = false) (l : List α) :
    closed p (l ++ [a]) = closed p l := by
  obtain ⟨front, hfront⟩ := splitOnP_append (p := p) l
  have hl := hfront [] (by simp)
  have ha := hfront [a] (by simpa using h)
  rw [List.append_nil, List.append_nil] at hl
  unfold closed
  rw [hl, ha, List.dropLast_concat, List.dropLast_concat]

/-- The current run is not empty exactly when the last element fails the test. -/
theorem current_ne_nil_iff {l : List α} :
    current p l ≠ [] ↔ ∃ a ∈ l.getLast?, p a = false := by
  induction l using List.reverseRecOn with
  | nil => simp
  | append_singleton l a _ =>
    by_cases ha : p a = true
    · simp [ha]
    · rw [Bool.not_eq_true] at ha
      simp [ha]

end AgentOrchestrator.MaximalRuns
