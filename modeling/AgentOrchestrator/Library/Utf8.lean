import Mathlib.Data.List.Basic

/-!
# UTF-8

The bytes of characters, and the decoder of the encoding standard, which reads one byte at a time
and puts the replacement character where the bytes are no character.  Decoding inverts encoding.
-/

namespace AgentOrchestrator.Utf8

/-- The bytes of characters. -/
def encode (chars : List Char) : List ℕ :=
  (chars.flatMap String.utf8EncodeChar).map UInt8.toNat

/-- What the decoder knows of the character it is reading: the bytes it still needs, the bits so
far, and the bounds of the next byte. -/
structure State where
  needed : ℕ := 0
  point : ℕ := 0
  lower : ℕ := 0x80
  upper : ℕ := 0xBF
  deriving DecidableEq

def replacement : Char := Char.ofNat 0xFFFD

/-- The first byte of a character. -/
def first (b : ℕ) : List Char × State :=
  if b ≤ 0x7F then ([Char.ofNat b], {})
  else if 0xC2 ≤ b ∧ b ≤ 0xDF then ([], { needed := 1, point := b - 0xC0 })
  else if 0xE0 ≤ b ∧ b ≤ 0xEF then
    ([], { needed := 2, point := b - 0xE0, lower := if b = 0xE0 then 0xA0 else 0x80,
           upper := if b = 0xED then 0x9F else 0xBF })
  else if 0xF0 ≤ b ∧ b ≤ 0xF4 then
    ([], { needed := 3, point := b - 0xF0, lower := if b = 0xF0 then 0x90 else 0x80,
           upper := if b = 0xF4 then 0x8F else 0xBF })
  else ([replacement], {})

/-- One byte: the characters it completes, and the state after it.  A byte that cannot continue
a character starts the next one. -/
def step (st : State) (b : ℕ) : List Char × State :=
  if st.needed = 0 then first b
  else if st.lower ≤ b ∧ b ≤ st.upper then
    let point := st.point * 64 + (b - 0x80)
    if st.needed = 1 then ([Char.ofNat point], {})
    else ([], { needed := st.needed - 1, point := point })
  else (replacement :: (first b).1, (first b).2)

def decodeFrom (st : State) : List ℕ → List Char
  | [] => if st.needed = 0 then [] else [replacement]
  | b :: bytes => (step st b).1 ++ decodeFrom (step st b).2 bytes

/-- The characters of bytes. -/
def decode (bytes : List ℕ) : List Char := decodeFrom {} bytes

/-! ## Reading a character back -/

/-- The last byte of a character. -/
theorem decodeFrom_last {st : State} {b : ℕ} {c : Char} (bytes : List ℕ) (hneeded : st.needed = 1)
    (hlower : st.lower ≤ b) (hupper : b ≤ st.upper)
    (hpoint : Char.ofNat (st.point * 64 + (b - 0x80)) = c) :
    decodeFrom st (b :: bytes) = c :: decodeFrom {} bytes := by
  have hstep : step st b = ([c], {}) := by
    unfold step
    rw [if_neg (by omega), if_pos ⟨hlower, hupper⟩, if_pos hneeded, hpoint]
  rw [decodeFrom, hstep]
  rfl

/-- A byte of a character that is not its last. -/
theorem decodeFrom_more {st : State} {b n : ℕ} (bytes : List ℕ) (hneeded : st.needed = n + 2)
    (hlower : st.lower ≤ b) (hupper : b ≤ st.upper) :
    decodeFrom st (b :: bytes) =
      decodeFrom { needed := n + 1, point := st.point * 64 + (b - 0x80) } bytes := by
  have hstep : step st b = ([], { needed := n + 1, point := st.point * 64 + (b - 0x80) }) := by
    unfold step
    rw [if_neg (by omega), if_pos ⟨hlower, hupper⟩, if_neg (by omega), hneeded]
    rfl
  rw [decodeFrom, hstep]
  rfl

/-- The first byte of a character of several bytes. -/
theorem decodeFrom_first {b : ℕ} {st : State} (bytes : List ℕ) (h : first b = ([], st)) :
    decodeFrom {} (b :: bytes) = decodeFrom st bytes := by
  have hstep : step {} b = ([], st) := by
    unfold step
    rw [if_pos rfl, h]
  rw [decodeFrom, hstep]
  rfl

theorem first_two {b : ℕ} (h : 0xC2 ≤ b) (h' : b ≤ 0xDF) :
    first b = ([], { needed := 1, point := b - 0xC0 }) := by
  unfold first
  rw [if_neg (by omega), if_pos ⟨h, h'⟩]

theorem first_three {b : ℕ} (h : 0xE0 ≤ b) (h' : b ≤ 0xEF) :
    first b = ([], { needed := 2, point := b - 0xE0, lower := if b = 0xE0 then 0xA0 else 0x80,
                     upper := if b = 0xED then 0x9F else 0xBF }) := by
  unfold first
  rw [if_neg (by omega), if_neg (by omega), if_pos ⟨h, h'⟩]

theorem first_four {b : ℕ} (h : 0xF0 ≤ b) (h' : b ≤ 0xF4) :
    first b = ([], { needed := 3, point := b - 0xF0, lower := if b = 0xF0 then 0x90 else 0x80,
                     upper := if b = 0xF4 then 0x8F else 0xBF }) := by
  unfold first
  rw [if_neg (by omega), if_neg (by omega), if_neg (by omega), if_pos ⟨h, h'⟩]

/-- The bytes of one character are read as the character. -/
theorem decodeFrom_char (c : Char) (bytes : List ℕ) :
    decodeFrom {} ((String.utf8EncodeChar c).map UInt8.toNat ++ bytes) = c :: decodeFrom {} bytes := by
  have hrange : c.val.toNat < 0xD800 ∨ (0xDFFF < c.val.toNat ∧ c.val.toNat < 0x110000) := c.valid
  have hofNat : ∀ n, n = c.val.toNat → Char.ofNat n = c := by
    rintro n rfl
    exact Char.ofNat_toNat c
  unfold String.utf8EncodeChar
  dsimp only
  generalize c.val.toNat = v at *
  split_ifs with h1 h2 h3
  all_goals simp only [List.map_cons, List.map_nil, List.cons_append, List.nil_append,
    UInt8.toNat_ofNat']
  · have hstep : step {} (v % 2 ^ 8) = ([c], {}) := by
      unfold step first
      rw [if_pos rfl, if_pos (by omega), hofNat _ (by omega)]
    rw [decodeFrom, hstep]
    rfl
  · rw [decodeFrom_first _ (first_two (by omega) (by omega))]
    exact decodeFrom_last bytes rfl (by dsimp only; omega) (by dsimp only; omega)
      (hofNat _ (by dsimp only; omega))
  · rw [decodeFrom_first _ (first_three (by omega) (by omega)),
      decodeFrom_more _ rfl (by dsimp only; split_ifs <;> omega) (by dsimp only; split_ifs <;> omega)]
    exact decodeFrom_last bytes rfl (by dsimp only; omega) (by dsimp only; omega)
      (hofNat _ (by dsimp only; omega))
  · rw [decodeFrom_first _ (first_four (by omega) (by omega)),
      decodeFrom_more _ rfl (by dsimp only; split_ifs <;> omega) (by dsimp only; split_ifs <;> omega),
      decodeFrom_more _ rfl (by dsimp only; omega) (by dsimp only; omega)]
    exact decodeFrom_last bytes rfl (by dsimp only; omega) (by dsimp only; omega)
      (hofNat _ (by dsimp only; omega))

theorem decode_encode (chars : List Char) : decode (encode chars) = chars := by
  unfold decode encode
  induction chars with
  | nil => rfl
  | cons c chars ih =>
    rw [List.flatMap_cons, List.map_append, decodeFrom_char, ih]

end AgentOrchestrator.Utf8
