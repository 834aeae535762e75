import AgentOrchestrator.Library.Utf8Lines

/-!
# Reading lines from chunks

Bytes arrive in chunks, a decoder keeps what a chunk leaves of a character, and a reader what it
leaves of a line.  What has been read depends on the bytes only (`completed_append`,
`emitted_append`), and of lines that were written as a whole a prefix has been read
(`completed_prefix_lines`).
-/

namespace AgentOrchestrator.LineReader

open Utf8

/-! ## The decoder -/

theorem after_append (st : State) (bytes more : List ℕ) :
    after st (bytes ++ more) = after (after st bytes) more := by
  induction bytes generalizing st with
  | nil => rfl
  | cons b bytes ih => exact ih (step st b).2

theorem emitted_append (st : State) (bytes more : List ℕ) :
    emitted st (bytes ++ more) = emitted st bytes ++ emitted (after st bytes) more := by
  induction bytes generalizing st with
  | nil => rfl
  | cons b bytes ih => rw [List.cons_append, emitted, ih, emitted, after, List.append_assoc]

theorem emitted_prefix (st : State) {bytes more : List ℕ} (h : bytes <+: more) :
    emitted st bytes <+: emitted st more := by
  obtain ⟨rest, rfl⟩ := h
  rw [emitted_append]
  exact List.prefix_append _ _

/-- The decoder has completed a text that ends with a newline. -/
theorem emitted_encode {text : List Char} (h : text = [] ∨ text.getLast? = some '\n') :
    emitted {} (encode text) = text := by
  rcases h with rfl | h
  · rfl
  · have hdecoded : decodeFrom {} (encode text) = text := decode_encode text
    have hneeded := needed_of_newline (hdecoded.symm ▸ h)
    rw [decodeFrom_eq, decodeFrom, if_pos hneeded, List.append_nil] at hdecoded
    exact hdecoded

/-! ## The reader -/

/-- The lines a text completes, behind the part of a line that was there. -/
def completed (pending : List Char) : List Char → List (List Char)
  | [] => []
  | c :: text => if c = '\n' then pending :: completed [] text else completed (pending ++ [c]) text

/-- The part of a line that is left. -/
def remaining (pending : List Char) : List Char → List Char
  | [] => pending
  | c :: text => if c = '\n' then remaining [] text else remaining (pending ++ [c]) text

theorem completed_append (pending text more : List Char) :
    completed pending (text ++ more) =
      completed pending text ++ completed (remaining pending text) more := by
  induction text generalizing pending with
  | nil => rfl
  | cons c text ih =>
    simp only [List.cons_append, completed, remaining]
    split_ifs
    · rw [ih, List.cons_append]
    · exact ih _

theorem remaining_append (pending text more : List Char) :
    remaining pending (text ++ more) = remaining (remaining pending text) more := by
  induction text generalizing pending with
  | nil => rfl
  | cons c text ih =>
    simp only [List.cons_append, remaining]
    split_ifs <;> exact ih _

theorem completed_line {line : List Char} (h : '\n' ∉ line) (pending text : List Char) :
    completed pending (line ++ '\n' :: text) = (pending ++ line) :: completed [] text := by
  induction line generalizing pending with
  | nil => simp [completed]
  | cons c line ih =>
    have hc : c ≠ '\n' := by
      rintro rfl
      exact h List.mem_cons_self
    simp only [List.cons_append, completed, if_neg hc]
    rw [ih fun hmem => h (List.mem_cons_of_mem c hmem), List.append_assoc]
    rfl

/-- Lines, each with its newline. -/
def joined (lines : List (List Char)) : List Char := lines.flatMap fun line => line ++ ['\n']

theorem joined_concat (lines : List (List Char)) (line : List Char) :
    joined (lines ++ [line]) = joined lines ++ (line ++ ['\n']) := by
  simp [joined]

theorem completed_joined {lines : List (List Char)} (h : ∀ line ∈ lines, '\n' ∉ line) :
    completed [] (joined lines) = lines := by
  induction lines with
  | nil => rfl
  | cons line lines ih =>
    have hjoined : joined (line :: lines) = line ++ '\n' :: joined lines := by
      simp [joined]
    rw [hjoined, completed_line (h line List.mem_cons_self), List.nil_append,
      ih fun l hl => h l (List.mem_cons_of_mem line hl)]

theorem joined_getLast (lines : List (List Char)) :
    joined lines = [] ∨ (joined lines).getLast? = some '\n' := by
  rcases List.eq_nil_or_concat lines with rfl | ⟨front, line, rfl⟩
  · exact Or.inl rfl
  · right
    rw [List.concat_eq_append, joined_concat, ← List.append_assoc, List.getLast?_concat]

/-- **Of the bytes of lines, a reader completes a prefix of the lines.** -/
theorem completed_prefix_lines {lines : List (List Char)} (h : ∀ line ∈ lines, '\n' ∉ line)
    {bytes : List ℕ} (hbytes : bytes <+: encode (joined lines)) :
    completed [] (emitted {} bytes) <+: lines := by
  have htext := emitted_prefix {} hbytes
  rw [emitted_encode (joined_getLast lines)] at htext
  obtain ⟨rest, hrest⟩ := htext
  have hall := completed_joined h
  rw [← hrest, completed_append] at hall
  exact ⟨_, hall⟩

end AgentOrchestrator.LineReader
