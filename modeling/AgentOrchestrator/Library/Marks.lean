import AgentOrchestrator.Library.RegexMatch

/-!
# Replacing a text by a mark

Replacing every occurrence of a text from the left by a mark removes the text when the mark cannot
be part of another occurrence, and brings no other such text in.
-/

namespace AgentOrchestrator.Regex

variable {α : Type}

/-- No occurrence of the text has a part of the mark, whatever stands around the mark. -/
def Clear (mark part : List α) : Prop :=
  ∀ front rest, part <:+: front ++ (mark ++ rest) → part <:+: front ∨ part <:+: rest

/-- A text that has no item of the mark. -/
theorem clear_of_disjoint {mark part : List α} (hmark : mark ≠ []) (hpart : part ≠ [])
    (h : ∀ a ∈ part, a ∉ mark) : Clear mark part := by
  obtain ⟨b, mark, rfl⟩ := List.exists_cons_of_ne_nil hmark
  intro front rest hin
  rcases List.infix_append_iff_ne_nil.1 hin with hfront | hrest | ⟨l, t, -, ht, rfl, -, hbegin⟩
  · exact .inl hfront
  · rcases List.infix_append_iff_ne_nil.1 hrest with hin | hrest | ⟨l, t, hl, -, rfl, hsuffix, -⟩
    · obtain ⟨a, ha⟩ := List.exists_mem_of_ne_nil part hpart
      exact absurd (hin.subset ha) (h a ha)
    · exact .inr hrest
    · obtain ⟨a, ha⟩ := List.exists_mem_of_ne_nil l hl
      exact absurd (hsuffix.subset ha) (h a (List.mem_append_left t ha))
  · obtain ⟨a, t, rfl⟩ := List.exists_cons_of_ne_nil ht
    rw [List.cons_append, List.cons_prefix_cons] at hbegin
    refine absurd ?_ (h a (List.mem_append_right l List.mem_cons_self))
    rw [hbegin.1]
    exact List.mem_cons_self

variable [DecidableEq α]

/-- A text as a pattern. -/
def text (part : List α) : Regex α := .concat (part.map fun a => .one fun u => u = a)

/-- The pattern matches where the text stands. -/
theorem exec_text {part : List α} {k : Continuation α} {p : Position α} (h : part <+: p.rest) :
    ∃ q, Consumes p part q ∧ (text part).exec p k = k q := by
  unfold text
  induction part generalizing p with
  | nil => exact ⟨p, .refl p, rfl⟩
  | cons a part ih =>
    obtain ⟨l, hl⟩ := h
    rw [List.cons_append] at hl
    have hskip := consumes_skip p 1
    rw [← hl, List.take_succ_cons, List.take_zero] at hskip
    have hrest : (p.skip 1).rest = part ++ l := by
      have hsplit := hskip.rest
      rw [← hl] at hsplit
      exact (List.cons.inj hsplit).2.symm
    obtain ⟨q, hq, heq⟩ := ih (show part <+: (p.skip 1).rest from ⟨l, hrest.symm⟩)
    refine ⟨q, hskip.trans hq, ?_⟩
    rw [List.map_cons, exec_concat_cons, exec_one hl.symm (by simp)]
    exact heq

section

variable {r : Regex α} {mark : List α} {before : Option α} {l out : List α}

/-- A replacement by a mark brings no text in that the mark is clear of. -/
theorem Replaced.infix_of_clear {part : List α} (hclear : Clear mark part)
    (h : Replaced r (fun _ => mark) before l out) (front : List α)
    (hin : part <:+: front ++ out) : part <:+: front ++ l := by
  induction h generalizing front with
  | nil => exact hin
  | @keep before a l out _ _ ih =>
    rw [List.append_cons] at hin ⊢
    exact ih (front ++ [a]) hin
  | swap h _ _ ih =>
    rcases hclear front _ hin with hfront | hrest
    · exact List.infix_append_of_infix_left hfront
    · obtain ⟨m, hm⟩ := (matches_of_exec h).consumes
      have hsplit := hm.rest
      dsimp only at hsplit
      rw [hsplit]
      exact List.infix_append_of_infix_right (List.infix_append_of_infix_right (ih [] hrest))

/-- What is left of the text after its replacement begins before the replaced text. -/
theorem Replaced.begins_before {part : List α} (hpart : part ≠ []) (hclear : Clear mark part)
    (h : Replaced (text part) (fun _ => mark) before l out) (front : List α)
    (hin : part <:+: front ++ out) :
    ∃ x y, front ++ l = x ++ part ++ y ∧ x.length < front.length := by
  have hshorter : ∀ {front : List α}, part <:+: front → ∀ l,
      ∃ x y, front ++ l = x ++ part ++ y ∧ x.length < front.length := by
    rintro front ⟨x, y, rfl⟩ l
    refine ⟨x, y ++ l, by simp, ?_⟩
    have hpos := List.length_pos_of_ne_nil hpart
    rw [List.length_append, List.length_append]
    omega
  induction h generalizing front with
  | nil =>
    rw [List.append_nil] at hin
    exact hshorter hin []
  | @keep before a l out hno _ ih =>
    rw [List.append_cons] at hin
    obtain ⟨x, y, heq, hlength⟩ := ih (front ++ [a]) hin
    rw [← List.append_cons] at heq
    refine ⟨x, y, heq, ?_⟩
    rw [List.length_append, List.length_singleton] at hlength
    refine Nat.lt_of_le_of_ne (Nat.le_of_lt_succ hlength) fun hx => ?_
    -- the text stands where nothing was found
    rw [List.append_assoc] at heq
    have hhere : part <+: a :: l := ⟨y, (List.append_inj heq hx.symm).2.symm⟩
    obtain ⟨q, hq, hexec⟩ :=
      @exec_text α _ part some { before := before, rest := a :: l } hhere
    refine hno q hexec ?_
    have hsplit := congrArg List.length hq.rest
    have hpos := List.length_pos_of_ne_nil hpart
    rw [List.length_append, List.length_cons] at hsplit
    omega
  | swap h _ _ ih =>
    rcases hclear front _ hin with hfront | hrest
    · exact hshorter hfront _
    · obtain ⟨x, y, -, hlength⟩ := ih [] hrest
      exact absurd hlength (Nat.not_lt_zero _)

/-- **A replaced text is gone.** -/
theorem not_infix_replaceAll {part : List α} (hpart : part ≠ []) (hclear : Clear mark part)
    (l : List α) : ¬ part <:+: replaceAll (text part) (fun _ => mark) l := by
  intro h
  obtain ⟨x, y, -, hlength⟩ :=
    (replaced_replaceAll (text part) (fun _ => mark) l).begins_before hpart hclear [] h
  exact Nat.not_lt_zero _ hlength

end

end AgentOrchestrator.Regex
