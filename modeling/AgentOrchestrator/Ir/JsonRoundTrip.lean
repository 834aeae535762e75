import AgentOrchestrator.Ir.Json
import AgentOrchestrator.JsonRoundTrip
import Mathlib.Algebra.Group.Int.Defs

/-!
# What `json.loads` makes of `json.dumps`

A printed JSON value is read back with the entries of its dicts sorted, unless one of its strings
holds the halves of a pair next to each other or `str` does not convert one of its integers.
-/

namespace AgentOrchestrator.Ir

open CodePoint Utf16
open Json (escapeUnicode hexUnit escapedUnit Closes)

/-! ## Strings -/

section Pieces

variable (rest : List CodePoint)

theorem readPieces_quote : readPieces (.char '"' :: rest) = some ([], rest) := by
  unfold readPieces
  rw [if_pos rfl]

theorem readPieces_plain {c : Char} (hquote : c ≠ '"') (hslash : c ≠ '\\') (hcontrol : 32 ≤ c.toNat) :
    readPieces (.char c :: rest) = (readPieces rest).map (prepend (.plain (.char c))) := by
  conv_lhs => unfold readPieces
  rw [if_neg hquote, if_neg hslash, if_neg (by omega)]

theorem readPieces_escape {e : Char} {unit : ℕ} (hu : e ≠ 'u') (he : escapedUnit e = some unit) :
    readPieces (.char '\\' :: .char e :: rest) =
      (readPieces rest).map (prepend (.plain (ofUnit unit))) := by
  conv_lhs => unfold readPieces
  dsimp only
  rw [if_neg (by decide), if_pos rfl, if_neg hu, he]
  rfl

theorem readPieces_unicode {p : CodePoint} (h : p.toNat < 0x10000) :
    readPieces (ofChars (escapeUnicode p.toNat) ++ rest) =
      (readPieces rest).map (prepend (.escaped p)) := by
  conv_lhs => unfold readPieces escapeUnicode
  simp only [ofChars_cons, ofChars_nil, List.cons_append, List.nil_append]
  rw [if_neg (by decide), if_pos trivial, if_pos trivial, Json.hexUnit_digits h, Option.bind_some,
    ofUnit_toNat]

end Pieces

/-- The pieces a code point may be written with. -/
inductive Spells : CodePoint → List Piece → Prop where
  | plain (p : CodePoint) : Spells p [.plain p]
  | escaped (p : CodePoint) : Spells p [.escaped p]
  | halves {c : Char} (h : 0x10000 ≤ c.toNat) :
    Spells (.char c) [.escaped (.high (highHalf c)), .escaped (.low (lowHalf c))]

/-- An escaped code point stands for itself, unless the two halves of a pair meet. -/
theorem joinPieces_escaped {p : CodePoint} {pieces : List Piece}
    (h : ∀ q, .escaped q ∈ pieces.head? → ¬ Halves p q) :
    joinPieces (.escaped p :: pieces) = p :: joinPieces pieces := by
  cases p with
  | char c => rfl
  | low l => rfl
  | high a =>
    rcases pieces with - | ⟨p | (c | b | l), pieces⟩
    · rfl
    · rfl
    · rfl
    · rfl
    · exact absurd trivial (h (.low l) rfl)

/-- The pieces of an unpaired text are joined to the text. -/
theorem joinPieces_spelled {text : List CodePoint} {parts : List (List Piece)}
    (hparts : List.Forall₂ Spells text parts) (htext : Unpaired text) :
    joinPieces parts.flatten = text := by
  induction hparts with
  | nil => rfl
  | @cons p pieces text parts hp hrest ih =>
    have hjoined : joinPieces parts.flatten = text := ih htext.of_cons
    rw [List.flatten_cons]
    cases hp with
    | plain => exact congrArg (p :: ·) hjoined
    | halves h =>
      show CodePoint.char (pair _ _) :: joinPieces parts.flatten = _
      rw [pair_halves h, hjoined]
    | escaped =>
      rw [List.singleton_append, joinPieces_escaped, hjoined]
      -- What comes next begins with a low surrogate only if it is one.
      intro q hq
      cases hrest with
      | nil => cases hq
      | @cons next pieces text parts hnext hrest =>
        have hapart : ¬ Halves p next := (List.isChain_cons_cons.1 htext).1
        cases hnext with
        | plain => cases hq
        | escaped =>
          obtain rfl := Piece.escaped.inj (Option.some.inj hq)
          exact hapart
        | halves h =>
          obtain rfl := Piece.escaped.inj (Option.some.inj hq)
          cases p <;> exact id

/-- A code point is read as it is printed. -/
theorem readPieces_escapeAscii (p : CodePoint) : ∃ pieces, Spells p pieces ∧ ∀ rest,
    readPieces (ofChars (escapeAscii p) ++ rest) =
      (readPieces rest).map fun read => (pieces ++ read.1, read.2) := by
  cases p with
  | high h => exact ⟨_, .escaped _, fun rest => readPieces_unicode rest (toNat_high_lt h)⟩
  | low l => exact ⟨_, .escaped _, fun rest => readPieces_unicode rest (toNat_low_lt l)⟩
  | char c =>
    have hescape : ∀ e, e ≠ 'u' → escapedUnit e = some c.toNat → ∃ pieces, Spells (.char c) pieces ∧
        ∀ rest, readPieces (ofChars ['\\', e] ++ rest) =
          (readPieces rest).map fun read => (pieces ++ read.1, read.2) := by
      refine fun e hu he => ⟨_, .plain (.char c), fun rest => ?_⟩
      have hread := readPieces_escape rest hu he
      rw [show ofUnit c.toNat = .char c from ofUnit_toNat (.char c)] at hread
      exact hread
    unfold escapeAscii
    dsimp only
    split_ifs with h1 h2 h3 h4 h5 h6 h7 h8
    · exact hescape '"' (by decide) (by rw [h1]; rfl)
    · exact hescape '\\' (by decide) (by rw [h2]; rfl)
    · exact hescape 'n' (by decide) (by rw [h3]; rfl)
    · exact hescape 'r' (by decide) (by rw [h4]; rfl)
    · exact hescape 't' (by decide) (by rw [h5]; rfl)
    · exact hescape 'f' (by decide) (by rw [h6]; rfl)
    · exact hescape 'b' (by decide) (by rw [h7]; rfl)
    · exact ⟨_, .plain _, fun rest => readPieces_plain rest h1 h2 h8.1⟩
    · by_cases hc : c.toNat < 0x10000
      · refine ⟨_, .escaped _, fun rest => ?_⟩
        rw [charUnits, if_pos hc, List.flatMap_singleton]
        exact @readPieces_unicode rest (.char c) hc
      · refine ⟨_, .halves (by omega), fun rest => ?_⟩
        rw [charUnits_halves (by omega), List.flatMap_cons, List.flatMap_singleton, ofChars_append,
          List.append_assoc, readPieces_unicode _ (toNat_high_lt _),
          readPieces_unicode _ (toNat_low_lt _), Option.map_map]
        rfl

/-- A printed string is read back. -/
theorem readString_quoted {s : PyStr} (h : Unpaired s.points) (rest : List CodePoint) :
    readString (ofChars (quoted s) ++ rest) = some (s, rest) := by
  have hpieces : ∀ points : List CodePoint, ∃ parts, List.Forall₂ Spells points parts ∧
      readPieces (ofChars (points.flatMap escapeAscii) ++ .char '"' :: rest) =
        some (parts.flatten, rest) := by
    intro points
    induction points with
    | nil => exact ⟨[], .nil, readPieces_quote rest⟩
    | cons p points ih =>
      obtain ⟨parts, hparts, hread⟩ := ih
      obtain ⟨pieces, hp, hprinted⟩ := readPieces_escapeAscii p
      refine ⟨pieces :: parts, .cons hp hparts, ?_⟩
      rw [List.flatMap_cons, ofChars_append, List.append_assoc, hprinted, hread]
      rfl
  obtain ⟨parts, hparts, hread⟩ := hpieces s.points
  unfold readString quoted
  rw [ofChars_append, List.append_assoc]
  show (readPieces (ofChars (s.points.flatMap escapeAscii) ++ .char '"' :: rest)).map _ = _
  rw [hread, Option.map_some, joinPieces_spelled hparts h]

/-! ## Numbers -/

/-- A class whose items go on as far as the text before does. -/
theorem takeWhile_append {p : Char → Bool} {r : List Char} (hr : ∀ c ∈ r.head?, p c = false)
    (l : List Char) : (l ++ r).takeWhile p = l.takeWhile p ∧
      (l ++ r).dropWhile p = l.dropWhile p ++ r := by
  induction l with
  | nil =>
    cases r with
    | nil => exact ⟨rfl, rfl⟩
    | cons c r => simp [hr c rfl]
  | cons c l ih =>
    rw [List.cons_append, List.takeWhile_cons, List.takeWhile_cons, List.dropWhile_cons,
      List.dropWhile_cons]
    split_ifs
    · rw [ih.1, ih.2]
      exact ⟨rfl, rfl⟩
    · exact ⟨rfl, rfl⟩

theorem not_isDigit_of_closes {r : List Char} (hr : Closes r) : ∀ c ∈ r.head?, c.isDigit = false := by
  intro c hc
  rcases hr c hc with rfl | rfl | rfl <;> decide

section

variable {r : List Char} (hr : Closes r)

include hr

theorem scanNatural_append {l : List Char} {read : List Char × List Char}
    (h : scanNatural l = some read) : scanNatural (l ++ r) = some (read.1, read.2 ++ r) := by
  cases l with
  | nil => cases h
  | cons c l =>
    obtain ⟨htake, hdrop⟩ := takeWhile_append (not_isDigit_of_closes hr) l
    rw [List.cons_append]
    unfold scanNatural at h ⊢
    dsimp only at h ⊢
    split_ifs at h ⊢
    · rw [← Option.some.inj h]
    · rw [← Option.some.inj h, htake, hdrop]

theorem scanInteger_append {l : List Char} {read : List Char × List Char}
    (h : scanInteger l = some read) : scanInteger (l ++ r) = some (read.1, read.2 ++ r) := by
  cases l with
  | nil => cases h
  | cons c l =>
    rw [List.cons_append]
    unfold scanInteger at h ⊢
    dsimp only at h ⊢
    split_ifs at h ⊢
    · obtain ⟨natural, hnatural, rfl⟩ := Option.map_eq_some_iff.1 h
      rw [scanNatural_append hr hnatural]
      rfl
    · exact scanNatural_append hr h

theorem scanFraction_append (l : List Char) :
    scanFraction (l ++ r) = ((scanFraction l).1, (scanFraction l).2 ++ r) := by
  cases l with
  | nil =>
    rw [List.nil_append]
    cases r with
    | nil => rfl
    | cons c r =>
      have hc : c ≠ '.' := by rcases hr c rfl with rfl | rfl | rfl <;> decide
      simp [scanFraction, hc]
  | cons c l =>
    obtain ⟨htake, hdrop⟩ := takeWhile_append (not_isDigit_of_closes hr) l
    rw [List.cons_append, scanFraction, scanFraction, htake, hdrop]
    split_ifs <;> rfl

theorem scanSign_append (l : List Char) :
    scanSign (l ++ r) = ((scanSign l).1, (scanSign l).2 ++ r) := by
  cases l with
  | nil =>
    rw [List.nil_append]
    cases r with
    | nil => rfl
    | cons c r =>
      have hc : ¬ (c = '+' ∨ c = '-') := by rcases hr c rfl with rfl | rfl | rfl <;> decide
      simp [scanSign, hc]
  | cons c l =>
    rw [List.cons_append, scanSign, scanSign]
    split_ifs <;> rfl

theorem scanExponent_append (l : List Char) :
    scanExponent (l ++ r) = ((scanExponent l).1, (scanExponent l).2 ++ r) := by
  cases l with
  | nil =>
    rw [List.nil_append]
    cases r with
    | nil => rfl
    | cons c r =>
      have hc : ¬ (c = 'e' ∨ c = 'E') := by rcases hr c rfl with rfl | rfl | rfl <;> decide
      simp [scanExponent, hc]
  | cons c l =>
    obtain ⟨htake, hdrop⟩ := takeWhile_append (not_isDigit_of_closes hr) (scanSign l).2
    rw [List.cons_append, scanExponent, scanExponent, scanSign_append hr]
    dsimp only
    rw [htake, hdrop]
    split_ifs <;> rfl

/-- A number is read as far as it goes. -/
theorem scanNumber_append {l : List Char} {n : Numeral} {rest : List Char}
    (h : scanNumber l = some (n, rest)) : scanNumber (l ++ r) = some (n, rest ++ r) := by
  obtain ⟨integer, hinteger, heq⟩ := Option.map_eq_some_iff.1 h
  obtain ⟨rfl, rfl⟩ := Prod.mk.inj heq
  rw [scanNumber, scanInteger_append hr hinteger, Option.map_some]
  dsimp only
  rw [scanFraction_append hr, scanExponent_append hr]

end

theorem scanNatural_toDigits (n : ℕ) :
    scanNatural (Nat.toDigits 10 n) = some (Nat.toDigits 10 n, []) := by
  rcases Nat.eq_zero_or_pos n with rfl | hn
  · rfl
  · obtain ⟨d, digits, hdigits⟩ :=
      List.exists_cons_of_ne_nil (Nat.toDigits_ne_nil (b := 10) (n := n))
    have hall : ∀ c ∈ d :: digits, c.isDigit = true := by
      rw [← hdigits]
      exact fun c hc => Json.isDigit_toDigits hc
    have hd : d ≠ '0' := by
      have hhead := Json.head_toDigits hn
      rw [hdigits] at hhead
      exact fun h => hhead (congrArg some h)
    rw [List.forall_mem_cons] at hall
    rw [hdigits, scanNatural, if_neg hd, if_pos hall.1, List.takeWhile_eq_self_iff.2 hall.2,
      List.dropWhile_eq_nil_iff.2 hall.2]

theorem toDigits_head (n : ℕ) : ∃ d digits, Nat.toDigits 10 n = d :: digits ∧ d.isDigit = true := by
  obtain ⟨d, digits, hdigits⟩ :=
    List.exists_cons_of_ne_nil (Nat.toDigits_ne_nil (b := 10) (n := n))
  exact ⟨d, digits, hdigits, Json.isDigit_toDigits (hdigits ▸ List.mem_cons_self)⟩

theorem not_minus_of_isDigit {c : Char} (h : c.isDigit = true) : c ≠ '-' := by
  rintro rfl
  cases h

theorem scanInteger_intText (n : ℤ) : scanInteger (intText n) = some (intText n, []) := by
  unfold intText
  split_ifs
  · rw [scanInteger, if_pos rfl, scanNatural_toDigits]
    rfl
  · obtain ⟨d, digits, hdigits, hd⟩ := toDigits_head n.natAbs
    have hnatural := scanNatural_toDigits n.natAbs
    rw [hdigits] at hnatural ⊢
    rw [scanInteger, if_neg (not_minus_of_isDigit hd), hnatural]

theorem intValue_intText (n : ℤ) : intValue (intText n) = n := by
  unfold intText
  split_ifs with hn
  · rw [intValue, Nat.ofDigitChars_ten_toDigits]
    omega
  · obtain ⟨d, digits, hdigits, hd⟩ := toDigits_head n.natAbs
    have hvalue : intValue (d :: digits) = (Nat.ofDigitChars 10 (d :: digits) 0 : ℤ) := by
      unfold intValue
      split
      next heq => exact absurd (List.cons.inj heq).1 (not_minus_of_isDigit hd)
      next => rfl
    rw [hdigits, hvalue, ← hdigits, Nat.ofDigitChars_ten_toDigits]
    omega

/-- What begins a number: a digit, or a minus and a digit. -/
theorem scanNumber_head {l : List Char} {read : Numeral × List Char}
    (h : scanNumber l = some read) : ∃ c rest, l = c :: rest ∧
      (c.isDigit = true ∨ c = '-' ∧ ∃ d digits, rest = d :: digits ∧ d.isDigit = true) := by
  have hnatural : ∀ {l read}, scanNatural l = some read →
      ∃ d digits, l = d :: digits ∧ d.isDigit = true := by
    intro l read h
    cases l with
    | nil => cases h
    | cons c l =>
      unfold scanNatural at h
      dsimp only at h
      split_ifs at h with hzero hdigit
      · exact ⟨c, l, rfl, by rw [hzero]; rfl⟩
      · exact ⟨c, l, rfl, hdigit⟩
  obtain ⟨integer, hinteger, -⟩ := Option.map_eq_some_iff.1 h
  cases l with
  | nil => cases hinteger
  | cons c l =>
    refine ⟨c, l, rfl, ?_⟩
    unfold scanInteger at hinteger
    dsimp only at hinteger
    split_ifs at hinteger with hc
    · obtain ⟨natural, hread, -⟩ := Option.map_eq_some_iff.1 hinteger
      exact .inr ⟨hc, hnatural hread⟩
    · obtain ⟨d, digits, heq, hd⟩ := hnatural hinteger
      rw [(List.cons.inj heq).1]
      exact .inl hd

theorem scanNumber_intText (n : ℤ) : scanNumber (intText n) =
    some ({ integer := intText n, fraction := [], exponent := [] }, []) := by
  rw [scanNumber, scanInteger_intText]
  rfl

/-- The beginning of a number is no white space and closes nothing. -/
theorem not_blank_of_number {l : List Char} {read : Numeral × List Char}
    (h : scanNumber l = some read) :
    ∃ c rest, l = c :: rest ∧ Json.isBlank c = false ∧ c ≠ ']' := by
  obtain ⟨c, rest, rfl, hc⟩ := scanNumber_head h
  refine ⟨c, rest, rfl, ?_, ?_⟩
  · rw [← Bool.not_eq_true]
    intro hblank
    simp only [Json.isBlank, Bool.or_eq_true, decide_eq_true_eq] at hblank
    rcases hc with hdigit | ⟨rfl, -⟩
    · rcases hblank with ((rfl | rfl) | rfl) | rfl <;> cases hdigit
    · rcases hblank with ((hb | hb) | hb) | hb <;> cases hb
  · rintro rfl
    rcases hc with hdigit | ⟨hminus, -⟩
    · cases hdigit
    · cases hminus

theorem skipBlank_cons {c : Char} (h : Json.isBlank c = false) (rest : List CodePoint) :
    skipBlank (.char c :: rest) = .char c :: rest :=
  List.dropWhile_cons_of_neg (by simp [isBlank, h])

/-- No constant begins with a digit, or with a minus and a digit. -/
theorem constants_head : ∀ entry ∈ constants, ∃ x y tail, entry.1 = x :: y :: tail ∧
    x.isDigit = false ∧ (x = '-' → y.isDigit = false) := by
  simp only [constants, List.forall_mem_cons]
  refine ⟨?_, ?_, ?_, ?_, ?_, ?_, nofun⟩ <;> exact ⟨_, _, _, rfl, by decide, by decide⟩

theorem readConstant_number {l : List Char} {read : Numeral × List Char}
    (h : scanNumber l = some read) : readConstant (ofChars l) = none := by
  obtain ⟨c, rest, rfl, hc⟩ := scanNumber_head h
  refine List.findSome?_eq_none_iff.2 fun entry hentry => if_neg fun hprefix => ?_
  obtain ⟨x, y, tail, htext, hx, hy⟩ := constants_head entry hentry
  obtain ⟨after, hafter⟩ := List.isPrefixOf_iff_prefix.1 hprefix
  rw [htext] at hafter
  obtain ⟨hhead, htail⟩ := List.cons.inj hafter
  obtain rfl := CodePoint.char.inj hhead
  rcases hc with hdigit | ⟨hminus, d, digits, rfl, hd⟩
  · rw [hx] at hdigit
    cases hdigit
  · obtain rfl := CodePoint.char.inj (List.cons.inj htail).1
    rw [hy hminus] at hd
    cases hd

variable {float : FloatFormat}

/-- A number is read as a number. -/
theorem readValue_number (fuel : ℕ) {l : List Char} {n : Numeral} {rest : List Char}
    {value : PyValue} (h : scanNumber l = some (n, rest)) (hvalue : n.value float = some value) :
    readValue float (fuel + 1) (ofChars l) = some (value, ofChars rest) := by
  have hnumber : readNumber float (ofChars l) = some (value, ofChars rest) := by
    unfold readNumber
    rw [splitChars_ofChars, h]
    dsimp only [Option.bind_eq_bind, Option.bind_some]
    rw [hvalue, Option.bind_some, List.append_nil]
  have hconstant := readConstant_number h
  have hskip : skipBlank (ofChars l) = ofChars l := by
    obtain ⟨c, rest, rfl, hblank, -⟩ := not_blank_of_number h
    exact skipBlank_cons hblank (ofChars rest)
  obtain ⟨c, l, rfl, hc⟩ := scanNumber_head h
  have hother : ∀ {x : Char} {tail}, x.isDigit = false → x ≠ '-' →
      ofChars (c :: l) ≠ .char x :: tail := by
    rintro x tail hx hminus heq
    obtain rfl := CodePoint.char.inj (List.cons.inj heq).1
    rcases hc with hdigit | ⟨rfl, -⟩
    · rw [hx] at hdigit
      cases hdigit
    · exact hminus rfl
  unfold readValue
  rw [hskip]
  split
  next heq => exact absurd heq (hother (by decide) (by decide))
  next heq => exact absurd heq (hother (by decide) (by decide))
  next heq => exact absurd heq (hother (by decide) (by decide))
  next => rw [hconstant, Option.none_or, hnumber]

theorem digits_intText (n : ℤ) : (intText n).filter Char.isDigit = Nat.toDigits 10 n.natAbs := by
  have hall : (Nat.toDigits 10 n.natAbs).filter Char.isDigit = Nat.toDigits 10 n.natAbs :=
    List.filter_eq_self.2 fun c hc => Json.isDigit_toDigits hc
  unfold intText
  split_ifs
  · rw [List.filter_cons_of_neg (by decide), hall]
  · exact hall

theorem readValue_int (fuel : ℕ) {n : ℤ} (hn : Convertible n)
    {r : List Char} (hr : Closes r) :
    readValue float (fuel + 1) (ofChars (intText n ++ r)) = some (.int n, ofChars r) := by
  refine readValue_number fuel (scanNumber_append hr (scanNumber_intText n)) ?_
  rw [Numeral.value, if_neg (by simp [Numeral.isFloat])]
  dsimp only
  have hlength : (Nat.toDigits 10 n.natAbs).length ≤ maxStrDigits := hn
  rw [digits_intText, if_pos hlength, intValue_intText]

theorem readValue_float (fuel : ℕ) {x : ℚ} (hx : float.isFloat x) {r : List Char} (hr : Closes r) :
    readValue float (fuel + 1) (ofChars (float.repr x ++ r)) = some (.float (some x), ofChars r) := by
  obtain ⟨n, hscan, htext, hn⟩ := float.decimal x hx
  refine readValue_number fuel (scanNumber_append hr hscan) ?_
  rw [Numeral.value, if_pos hn, htext, float.read_repr x hx]

/-! ## Values -/

namespace PyValue

section JsonOf

variable (float : FloatFormat) (text : PyStr → Prop) (int : ℤ → Prop)

mutual

/-- The finite JSON values with such strings and integers: no dict has a key twice. -/
def JsonOf : PyValue → Prop
  | .none | .bool _ => True
  | .int n => int n
  | .float x => ∃ q, x = some q ∧ float.isFloat q
  | .str s => text s
  | .list items => JsonItems items
  | .dict entries => JsonEntries entries
  | .other _ => False

def JsonItems : List PyValue → Prop
  | [] => True
  | item :: items => item.JsonOf ∧ JsonItems items

def JsonEntries : List (PyStr × PyValue) → Prop
  | [] => True
  | (key, value) :: entries =>
    value.JsonOf ∧ (text key ∧ key ∉ entries.map Prod.fst) ∧ JsonEntries entries

end

end JsonOf

end PyValue

/-- No two neighbours in the text are the halves of a pair. -/
def PyStr.IsUnpaired (s : PyStr) : Prop := Unpaired s.points

instance : DecidablePred PyStr.IsUnpaired := fun s => inferInstanceAs (Decidable (Unpaired s.points))

namespace PyValue

/-- The finite JSON values that are read back from their text. -/
abbrev Restorable (float : FloatFormat) : PyValue → Prop :=
  JsonOf float PyStr.IsUnpaired Convertible

abbrev RestorableItems (float : FloatFormat) : List PyValue → Prop :=
  JsonItems float PyStr.IsUnpaired Convertible

abbrev RestorableEntries (float : FloatFormat) : List (PyStr × PyValue) → Prop :=
  JsonEntries float PyStr.IsUnpaired Convertible

theorem print_head {v : PyValue} (h : v.Restorable float) :
    ∃ c l, v.print float = c :: l ∧ Json.isBlank c = false ∧ c ≠ ']' := by
  cases v with
  | none => exact ⟨_, _, rfl, rfl, by decide⟩
  | bool b => cases b <;> exact ⟨_, _, rfl, rfl, by decide⟩
  | int n => exact not_blank_of_number (scanNumber_intText n)
  | float x =>
    obtain ⟨q, rfl, hq⟩ := h
    obtain ⟨n, hscan, -, -⟩ := float.decimal q hq
    exact not_blank_of_number hscan
  | str s => exact ⟨_, _, rfl, rfl, by decide⟩
  | list items => exact ⟨_, _, rfl, rfl, by decide⟩
  | dict entries => exact ⟨_, _, rfl, rfl, by decide⟩
  | other truth => exact h.elim

theorem print_length_pos {v : PyValue} (h : v.Restorable float) : 0 < (v.print float).length := by
  obtain ⟨c, l, hv, -, -⟩ := print_head h
  rw [hv]
  exact Nat.succ_pos _

theorem closes_more_items (items : List PyValue) (r : List Char) :
    Closes (printMoreItems float items ++ r) := by
  cases items with
  | nil => rintro _ ⟨⟩; exact .inr (.inl rfl)
  | cons item items => rintro _ ⟨⟩; exact .inl rfl

theorem closes_more_entries (entries : List (PyStr × PyValue)) (r : List Char) :
    Closes (printMoreEntries float entries ++ r) := by
  cases entries with
  | nil => rintro _ ⟨⟩; exact .inr (.inr rfl)
  | cons entry entries => rintro _ ⟨⟩; exact .inl rfl

theorem printMoreItems_cons (item : PyValue) (items : List PyValue) :
    printMoreItems float (item :: items) = ',' :: printItems float (item :: items) := rfl

theorem printMoreEntries_cons (entry : PyStr × PyValue) (entries : List (PyStr × PyValue)) :
    printMoreEntries float (entry :: entries) = ',' :: printEntries float (entry :: entries) := rfl

theorem setEntry_of_fresh {key : PyStr} {value : PyValue} {entries : List (PyStr × PyValue)}
    (h : key ∉ entries.map Prod.fst) : setEntry key value entries = entries ++ [(key, value)] := by
  induction entries with
  | nil => rfl
  | cons entry entries ih =>
    rw [List.map_cons, List.mem_cons, not_or] at h
    rw [setEntry, if_neg (Ne.symm h.1), ih h.2, List.cons_append]

/-- A list that has an item is read item by item. -/
theorem readValue_list (fuel : ℕ) {item : PyValue} (h : item.Restorable float) (r : List Char) :
    readValue float (fuel + 1) (ofChars ('[' :: (item.print float ++ r))) =
      (readItems float fuel (ofChars (item.print float ++ r))).map
        fun read => (.list read.1, read.2) := by
  obtain ⟨c, l, hv, hblank, hclose⟩ := print_head h
  rw [hv, List.cons_append, ofChars_cons, ofChars_cons]
  unfold readValue
  rw [skipBlank_cons (by decide)]
  simp only [skipBlank_cons hblank]
  split
  next heq => exact absurd (CodePoint.char.inj (List.cons.inj heq).1) hclose
  next => rfl

/-- A dict that has an entry is read entry by entry. -/
theorem readValue_dict (fuel : ℕ) (rest : List CodePoint) :
    readValue float (fuel + 1) (.char '\x7b' :: .char '"' :: rest) =
      (readEntries float fuel [] (.char '"' :: rest)).map fun read => (.dict read.1, read.2) := by
  unfold readValue
  rfl

/-- One printed entry of a dict is read, up to the token after its value. -/
theorem readEntries_entry {fuel : ℕ} {entries : List (PyStr × PyValue)} {key : PyStr}
    {value : PyValue} {input : List Char} {token : Char} {rest : List Char} (hkey : key.IsUnpaired)
    (hvalue : readValue float fuel (ofChars input) = some (value, ofChars (token :: rest))) :
    (token = ',' → readEntries float (fuel + 1) entries
          (ofChars ('"' :: (quoted key ++ ':' :: input))) =
        readEntries float fuel (setEntry key value entries) (ofChars rest)) ∧
      (token = '\x7d' → readEntries float (fuel + 1) entries
          (ofChars ('"' :: (quoted key ++ ':' :: input))) =
        some (setEntry key value entries, ofChars rest)) := by
  have hquote : ∀ l, expect '"' (ofChars ('"' :: l)) = some (ofChars l) := fun _ => rfl
  have hcolon : expect ':' (ofChars (':' :: input)) = some (ofChars input) := rfl
  constructor
  all_goals
    rintro rfl
    conv_lhs => unfold readEntries
    dsimp only [Option.bind_eq_bind]
    rw [hquote, Option.bind_some, ofChars_append, readString_quoted hkey, Option.bind_some]
    dsimp only
    rw [hcolon, Option.bind_some, hvalue]
    rfl

/-! ## The round trip -/

/-- What is read with some fuel: values, items and entries whose text is no longer than it. -/
structure ReadsBack (float : FloatFormat) (fuel : ℕ) : Prop where
  value : ∀ (v : PyValue) (r : List Char), v.Restorable float → (v.print float).length ≤ fuel →
    Closes r → readValue float fuel (ofChars (v.print float ++ r)) = some (v, ofChars r)
  items : ∀ (item : PyValue) (items : List PyValue) (r : List Char),
    RestorableItems float (item :: items) → (printItems float (item :: items)).length ≤ fuel →
    readItems float fuel (ofChars (printItems float (item :: items) ++ r)) =
      some (item :: items, ofChars r)
  entries : ∀ (entry : PyStr × PyValue) (entries read : List (PyStr × PyValue)) (r : List Char),
    RestorableEntries float (entry :: entries) →
    (∀ key ∈ (entry :: entries).map Prod.fst, key ∉ read.map Prod.fst) →
    (printEntries float (entry :: entries)).length ≤ fuel →
    readEntries float fuel read (ofChars (printEntries float (entry :: entries) ++ r)) =
      some (read ++ entry :: entries, ofChars r)

section Step

variable {fuel : ℕ} (ih : ReadsBack float fuel)

include ih

theorem readValue_print (v : PyValue) (r : List Char) (h : v.Restorable float)
    (hfuel : (v.print float).length ≤ fuel + 1) (hr : Closes r) :
    readValue float (fuel + 1) (ofChars (v.print float ++ r)) = some (v, ofChars r) := by
  rcases v with - | (_ | _) | n | x | s | items | entries | truth
  · rfl
  · rfl
  · rfl
  · exact readValue_int fuel h hr
  · obtain ⟨q, rfl, hq⟩ := h
    exact readValue_float fuel hq hr
  · rw [print, List.cons_append, ofChars_cons, ofChars_append]
    show (readString (ofChars (quoted s) ++ ofChars r)).map _ = _
    rw [readString_quoted h]
    rfl
  · cases items with
    | nil => rfl
    | cons item items =>
      rw [print, List.length_cons] at hfuel
      have hitems := ih.items item items r h (by omega)
      rw [print, List.cons_append]
      rw [printItems, List.append_assoc] at hitems ⊢
      rw [readValue_list fuel h.1, hitems]
      rfl
  · rcases entries with - | ⟨⟨key, value⟩, entries⟩
    · rfl
    · rw [print, List.length_cons] at hfuel
      have hentries := ih.entries (key, value) entries [] r h (by simp) (by omega)
      rw [print, List.cons_append, ofChars_cons]
      rw [printEntries, List.cons_append, ofChars_cons] at hentries ⊢
      rw [readValue_dict, hentries]
      rfl
  · exact h.elim

theorem readItems_print (item : PyValue) (items : List PyValue) (r : List Char)
    (h : RestorableItems float (item :: items))
    (hfuel : (printItems float (item :: items)).length ≤ fuel + 1) :
    readItems float (fuel + 1) (ofChars (printItems float (item :: items) ++ r)) =
      some (item :: items, ofChars r) := by
  cases items with
  | nil =>
    rw [printItems, List.length_append, printMoreItems, List.length_singleton] at hfuel
    have hvalue := ih.value item (']' :: r) h.1 (by omega) (@closes_more_items float [] r)
    rw [printItems, printMoreItems, List.append_assoc, List.singleton_append]
    unfold readItems
    dsimp only [Option.bind_eq_bind]
    rw [hvalue]
    rfl
  | cons next items =>
    rw [printItems, List.length_append, printMoreItems_cons, List.length_cons] at hfuel
    have hvalue := ih.value item (',' :: (printItems float (next :: items) ++ r)) h.1 (by omega)
      (by rintro _ ⟨⟩; exact .inl rfl)
    have hitems := ih.items next items r h.2 (by omega)
    rw [printItems, printMoreItems_cons, List.append_assoc, List.cons_append]
    unfold readItems
    dsimp only [Option.bind_eq_bind]
    rw [hvalue]
    show (readItems float fuel (ofChars (printItems float (next :: items) ++ r))).map _ = _
    rw [hitems]
    rfl

theorem readEntries_print (entry : PyStr × PyValue) (entries read : List (PyStr × PyValue))
    (r : List Char) (h : RestorableEntries float (entry :: entries))
    (hfresh : ∀ key ∈ (entry :: entries).map Prod.fst, key ∉ read.map Prod.fst)
    (hfuel : (printEntries float (entry :: entries)).length ≤ fuel + 1) :
    readEntries float (fuel + 1) read (ofChars (printEntries float (entry :: entries) ++ r)) =
      some (read ++ entry :: entries, ofChars r) := by
  obtain ⟨key, value⟩ := entry
  obtain ⟨hjson, ⟨htext, hkey⟩, hrest⟩ := h
  have hset : setEntry key value read = read ++ [(key, value)] :=
    setEntry_of_fresh (hfresh key List.mem_cons_self)
  cases entries with
  | nil =>
    simp only [printEntries, List.length_append, List.length_cons] at hfuel
    have hvalue := ih.value value ('\x7d' :: r) hjson (by omega)
      (@closes_more_entries float [] r)
    rw [printEntries, printMoreEntries, List.cons_append, List.append_assoc, List.cons_append,
      List.append_assoc, List.singleton_append, (readEntries_entry htext hvalue).2 rfl, hset]
  | cons next entries =>
    rw [printEntries, printMoreEntries_cons] at hfuel
    simp only [List.length_append, List.length_cons] at hfuel
    have hvalue := ih.value value (',' :: (printEntries float (next :: entries) ++ r)) hjson
      (by omega) (by rintro _ ⟨⟩; exact .inl rfl)
    have hmore := ih.entries next entries (read ++ [(key, value)]) r hrest
      (by
        intro k hk
        rw [List.map_append, List.mem_append, not_or]
        refine ⟨hfresh k (List.mem_cons_of_mem _ hk), ?_⟩
        rw [List.map_singleton, List.mem_singleton]
        rintro rfl
        exact hkey hk)
      (by omega)
    rw [printEntries, printMoreEntries_cons, List.cons_append, List.append_assoc, List.cons_append,
      List.append_assoc, List.cons_append, (readEntries_entry htext hvalue).1 rfl, hset, hmore,
      List.append_assoc]
    rfl

end Step

theorem readsBack (float : FloatFormat) (fuel : ℕ) : ReadsBack float fuel := by
  induction fuel with
  | zero =>
    refine ⟨fun v r h hfuel _ => ?_, fun item items r h hfuel => ?_,
      fun entry entries read r _ _ hfuel => ?_⟩
    · have hpos := print_length_pos h
      omega
    · have hpos := print_length_pos h.1
      rw [printItems, List.length_append] at hfuel
      omega
    · rw [printEntries, List.length_cons] at hfuel
      omega
  | succ fuel ih => exact ⟨readValue_print ih, readItems_print ih, readEntries_print ih⟩

/-- Strings in the order of their characters. -/
abbrev KeyLe : PyStr × PyValue → PyStr × PyValue → Prop := Entries.KeyLe (· ≤ ·)

theorem sortedItems_eq (items : List PyValue) : sortedItems items = items.map sorted := by
  induction items with
  | nil => rfl
  | cons item items ih => rw [sortedItems, List.map_cons, ih]

theorem sortedEntries_eq (entries : List (PyStr × PyValue)) :
    sortedEntries entries = (entries.map fun e => (e.1, e.2.sorted)).insertionSort KeyLe := by
  induction entries with
  | nil => rfl
  | cons entry entries ih => rw [sortedEntries, List.map_cons, List.insertionSort_cons, ih]

theorem mem_sortedEntries {entries : List (PyStr × PyValue)} {entry : PyStr × PyValue} :
    entry ∈ sortedEntries entries ↔ ∃ e ∈ entries, (e.1, e.2.sorted) = entry := by
  rw [sortedEntries_eq, List.mem_insertionSort, List.mem_map]

theorem keys_sortedEntries (entries : List (PyStr × PyValue)) :
    ((sortedEntries entries).map Prod.fst).Perm (entries.map Prod.fst) := by
  have h := (List.perm_insertionSort KeyLe (entries.map fun e => (e.1, e.2.sorted))).map Prod.fst
  rwa [← sortedEntries_eq, List.map_map] at h

theorem lookup_map (key : PyStr) (entries : List (PyStr × PyValue)) :
    (entries.map fun e => (e.1, e.2.sorted)).lookup key = (entries.lookup key).map sorted := by
  induction entries with
  | nil => rfl
  | cons entry entries ih =>
    rw [List.map_cons, List.lookup_cons, List.lookup_cons, ih]
    cases key == entry.1 <;> rfl

theorem lookup_sortedEntries (key : PyStr) (entries : List (PyStr × PyValue)) :
    (sortedEntries entries).lookup key = (entries.lookup key).map sorted := by
  rw [sortedEntries_eq, Entries.lookup_insertionSort, lookup_map]

variable {text : PyStr → Prop} {int : ℤ → Prop}

theorem jsonItems_iff {items : List PyValue} :
    JsonItems float text int items ↔ ∀ item ∈ items, item.JsonOf float text int := by
  induction items with
  | nil => simp [JsonItems]
  | cons item items ih => rw [JsonItems, ih, List.forall_mem_cons]

theorem jsonEntries_iff {entries : List (PyStr × PyValue)} :
    JsonEntries float text int entries ↔ (entries.map Prod.fst).Nodup ∧
      ∀ e ∈ entries, text e.1 ∧ e.2.JsonOf float text int := by
  induction entries with
  | nil => simp [JsonEntries]
  | cons entry entries ih =>
    rw [JsonEntries, ih, List.map_cons, List.nodup_cons, List.forall_mem_cons]
    tauto

mutual

theorem JsonOf.sorted : ∀ {v : PyValue}, v.JsonOf float text int → v.sorted.JsonOf float text int
  | .none, h => h
  | .bool _, h => h
  | .int _, h => h
  | .float _, h => h
  | .str _, h => h
  | .list items, h => by
    show JsonItems float text int (sortedItems items)
    rw [sortedItems_eq, jsonItems_iff, List.forall_mem_map]
    exact jsonOf_sortedItems items h
  | .dict entries, h => by
    show JsonEntries float text int (sortedEntries entries)
    rw [jsonEntries_iff, (keys_sortedEntries entries).nodup_iff]
    refine ⟨(jsonEntries_iff.1 h).1, fun entry hentry => ?_⟩
    obtain ⟨e, he, rfl⟩ := mem_sortedEntries.1 hentry
    exact ⟨((jsonEntries_iff.1 h).2 e he).1, jsonOf_sortedEntries entries h e he⟩
  | .other _, h => h

theorem jsonOf_sortedItems : ∀ items, JsonItems float text int items →
    ∀ item ∈ items, (sorted item).JsonOf float text int
  | [], _ => nofun
  | _ :: items, h =>
    List.forall_mem_cons.2 ⟨JsonOf.sorted h.1, jsonOf_sortedItems items h.2⟩

theorem jsonOf_sortedEntries : ∀ entries, JsonEntries float text int entries →
    ∀ e ∈ entries, (sorted e.2).JsonOf float text int
  | [], _ => nofun
  | _ :: entries, h =>
    List.forall_mem_cons.2 ⟨JsonOf.sorted h.1, jsonOf_sortedEntries entries h.2.2⟩

end

mutual

/-- Sorting a sorted value changes nothing. -/
theorem sorted_sorted : ∀ v : PyValue, v.sorted.sorted = v.sorted
  | .none => rfl
  | .bool _ => rfl
  | .int _ => rfl
  | .float _ => rfl
  | .str _ => rfl
  | .list items => by
    rw [sorted, sorted, sortedItems_eq, sortedItems_eq, List.map_map]
    exact congrArg PyValue.list (List.map_congr_left (sorted_items items))
  | .dict entries => by
    rw [sorted, sorted, sortedEntries_eq (sortedEntries entries)]
    have hmap : ((sortedEntries entries).map fun e => (e.1, sorted e.2)) =
        sortedEntries entries := by
      conv_rhs => rw [← List.map_id (sortedEntries entries)]
      refine List.map_congr_left fun entry hentry => ?_
      obtain ⟨e, he, rfl⟩ := mem_sortedEntries.1 hentry
      exact Prod.ext rfl (sorted_entries entries e he)
    have hpairwise : (sortedEntries entries).Pairwise KeyLe := by
      rw [sortedEntries_eq]
      exact List.pairwise_insertionSort KeyLe _
    rw [hmap, hpairwise.insertionSort_eq]
  | .other _ => rfl

theorem sorted_items : ∀ items : List PyValue, ∀ item ∈ items, sorted (sorted item) = sorted item
  | [] => nofun
  | item :: items => List.forall_mem_cons.2 ⟨sorted_sorted item, sorted_items items⟩

theorem sorted_entries : ∀ entries : List (PyStr × PyValue), ∀ e ∈ entries,
    sorted (sorted e.2) = sorted e.2
  | [] => nofun
  | (_, value) :: entries => List.forall_mem_cons.2 ⟨sorted_sorted value, sorted_entries entries⟩

end

mutual

theorem Restorable.encodable : ∀ {v : PyValue}, v.Restorable float → v.encodable = true
  | .none, _ => rfl
  | .bool _, _ => rfl
  | .int _, h => decide_eq_true h
  | .float _, h => by
    obtain ⟨q, rfl, -⟩ := h
    rfl
  | .str _, _ => rfl
  | .list items, h => encodable_items items h
  | .dict entries, h => encodable_entries entries h
  | .other _, h => h.elim

theorem encodable_items : ∀ items, RestorableItems float items → encodableItems items = true
  | [], _ => rfl
  | item :: items, h => by
    rw [encodableItems, Restorable.encodable h.1, encodable_items items h.2]
    rfl

theorem encodable_entries : ∀ entries, RestorableEntries float entries → encodableEntries entries = true
  | [], _ => rfl
  | (key, value) :: entries, h => by
    rw [encodableEntries, Restorable.encodable h.1, encodable_entries entries h.2.2]
    rfl

end

end PyValue

end AgentOrchestrator.Ir
