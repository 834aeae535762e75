import AgentOrchestrator.Library.Utf8

/-!
# Lines of UTF-8

Bytes that decode to a text ending in a newline end with the byte of the newline, so a text can be
continued behind a newline without a change to what it was (`decode_append`).  Bytes that end with
another byte never decode to a finished line.
-/

namespace AgentOrchestrator.Utf8

/-! ## The decoder on a prefix -/

/-- The state of the decoder after some bytes. -/
def after (st : State) : List ℕ → State
  | [] => st
  | b :: bytes => after (step st b).2 bytes

/-- The characters the decoder has completed within some bytes. -/
def emitted (st : State) : List ℕ → List Char
  | [] => []
  | b :: bytes => (step st b).1 ++ emitted (step st b).2 bytes

theorem decodeFrom_append (st : State) (bytes more : List ℕ) :
    decodeFrom st (bytes ++ more) = emitted st bytes ++ decodeFrom (after st bytes) more := by
  induction bytes generalizing st with
  | nil => rfl
  | cons b bytes ih => rw [List.cons_append, decodeFrom, ih, emitted, after, List.append_assoc]

theorem decodeFrom_eq (st : State) (bytes : List ℕ) :
    decodeFrom st bytes = emitted st bytes ++ decodeFrom (after st bytes) [] := by
  rw [← decodeFrom_append, List.append_nil]

/-- A decoder between two characters is like new. -/
theorem decodeFrom_of_needed {st : State} (h : st.needed = 0) (bytes : List ℕ) :
    decodeFrom st bytes = decode bytes := by
  cases bytes with
  | nil => simp [decode, decodeFrom, h]
  | cons b bytes => simp [decode, decodeFrom, step, h]

/-- The decoder is between two characters after a newline. -/
theorem needed_of_newline {st : State} {bytes : List ℕ}
    (h : (decodeFrom st bytes).getLast? = some '\n') : (after st bytes).needed = 0 := by
  by_contra hneeded
  rw [decodeFrom_eq, decodeFrom, if_neg hneeded, List.getLast?_concat] at h
  exact absurd (Option.some.inj h) (by decide)

/-- **A text goes on behind a newline.** -/
theorem decode_append {bytes : List ℕ}
    (h : bytes = [] ∨ (decode bytes).getLast? = some '\n') (more : List ℕ) :
    decode (bytes ++ more) = decode bytes ++ decode more := by
  rcases h with rfl | hnewline
  · rfl
  · have hneeded := needed_of_newline hnewline
    have hall := decodeFrom_eq {} bytes
    rw [decodeFrom_of_needed hneeded] at hall
    rw [show decode [] = [] from rfl, List.append_nil] at hall
    rw [decode, decodeFrom_append, decodeFrom_of_needed hneeded, ← hall]
    rfl

/-! ## The last byte -/

/-- A byte that completes nothing is followed by more bytes. -/
theorem needed_of_step {st : State} {b : ℕ} (h : (step st b).1 = []) :
    (step st b).2.needed ≠ 0 := by
  have hfirst : (first b).1 = [] → (first b).2.needed ≠ 0 := by
    unfold first
    split
    · exact fun hnil => by cases hnil
    · split
      · exact fun _ => by simp
      · split
        · exact fun _ => by simp
        · split
          · exact fun _ => by simp
          · exact fun hnil => by cases hnil
  unfold step at h ⊢
  split at h
  next hneeded =>
    rw [if_pos hneeded]
    exact hfirst h
  next hneeded =>
    rw [if_neg hneeded]
    split at h
    next hrange =>
      rw [if_pos hrange]
      dsimp only at h ⊢
      split at h
      · cases h
      next hlast =>
        rw [if_neg hlast]
        dsimp only
        omega
    · cases h

theorem decodeFrom_concat (st : State) (bytes : List ℕ) (b : ℕ) :
    decodeFrom st (bytes ++ [b]) = emitted st bytes ++
      ((step (after st bytes) b).1 ++ decodeFrom (step (after st bytes) b).2 []) :=
  decodeFrom_append st bytes [b]

/-- Some bytes have some characters. -/
theorem decode_concat_ne_nil (bytes : List ℕ) (b : ℕ) : decode (bytes ++ [b]) ≠ [] := by
  intro h
  rw [decode, decodeFrom_concat, List.append_eq_nil_iff, List.append_eq_nil_iff, decodeFrom] at h
  rw [if_neg (needed_of_step h.2.1)] at h
  exact List.cons_ne_nil _ _ h.2.2

theorem encode_append (chars more : List Char) :
    encode (chars ++ more) = encode chars ++ encode more := by
  rw [encode, List.flatMap_append, List.map_append]
  rfl

end AgentOrchestrator.Utf8
