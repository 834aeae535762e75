import AgentOrchestrator.JsonText
import Mathlib.Algebra.Group.Nat.Defs

/-!
# Printing JSON values

`JSON.stringify` without white space: a value is printed with its fields in their order.  How a
number is printed is a parameter (`NumberFormat`), which prints a safe natural number by its decimal
digits.  A printed value can be told from what follows it, so no two values are printed alike
(`print_injective`).
-/

namespace AgentOrchestrator.Json

/-! ## The printer -/

/-- The characters of a printed number. -/
def isNumeric (c : Char) : Bool := c.isDigit || c = '-' || c = '+' || c = '.' || c = 'e'

/-- How numbers are printed. -/
structure NumberFormat where
  text : ℚ → List Char
  nonempty : ∀ q, text q ≠ []
  numeric : ∀ q, ∀ c ∈ text q, isNumeric c = true
  injective : Function.Injective text
  natural : ∀ n : ℕ, n < 2 ^ 53 → text n = Nat.toDigits 10 n

section Printer

variable (number : NumberFormat)

mutual

/-- `JSON.stringify` of a value. -/
def print : Json → List Char
  | .null => "null".toList
  | .bool true => "true".toList
  | .bool false => "false".toList
  | .num q => number.text q
  | .str s => (quote s).toList
  | .arr items => '[' :: printItems items
  | .obj fields => '{' :: printFields fields

/-- The items of an array and its closing bracket. -/
def printItems : List Json → List Char
  | [] => [']']
  | item :: items => print item ++ printMoreItems items

def printMoreItems : List Json → List Char
  | [] => [']']
  | item :: items => ',' :: (print item ++ printMoreItems items)

/-- The fields of an object and its closing brace. -/
def printFields : List (String × Json) → List Char
  | [] => ['}']
  | (key, value) :: fields => (quote key).toList ++ ':' :: (print value ++ printMoreFields fields)

def printMoreFields : List (String × Json) → List Char
  | [] => ['}']
  | (key, value) :: fields =>
    ',' :: ((quote key).toList ++ ':' :: (print value ++ printMoreFields fields))

end

end Printer

/-! ## Strings and numbers -/

/-- A printed string can be told from what follows it. -/
theorem quote_append_inj {s t : String} {r r' : List Char}
    (h : (quote s).toList ++ r = (quote t).toList ++ r') : s = t ∧ r = r' := by
  rw [quote_toList, quote_toList] at h
  have hread := congrArg parseString (List.cons.inj h).2
  rw [parseString_escaped, parseString_escaped] at hread
  exact Prod.mk.inj (Option.some.inj hread)

/-- What follows a value does not go on with a number. -/
def Ends (r : List Char) : Prop := ∀ c ∈ r.head?, isNumeric c = false

theorem ends_nil : Ends [] := nofun

theorem ends_cons {c : Char} (r : List Char) (hc : isNumeric c = false) : Ends (c :: r) := by
  rintro _ ⟨⟩
  exact hc

theorem takeWhile_numeric {l r : List Char} (hl : ∀ c ∈ l, isNumeric c = true) (hr : Ends r) :
    (l ++ r).takeWhile isNumeric = l := by
  rw [List.takeWhile_append_of_pos hl]
  cases r with
  | nil => rw [List.takeWhile_nil, List.append_nil]
  | cons c r =>
    rw [List.takeWhile_cons_of_neg, List.append_nil]
    rw [hr c rfl]
    exact Bool.false_ne_true

section Injective

variable {number : NumberFormat}

/-- A printed number can be told from what follows it. -/
theorem number_append_inj {q p : ℚ} {r r' : List Char} (hr : Ends r) (hr' : Ends r')
    (h : number.text q ++ r = number.text p ++ r') : q = p ∧ r = r' := by
  have htext : number.text q = number.text p := by
    rw [← takeWhile_numeric (number.numeric q) hr, h, takeWhile_numeric (number.numeric p) hr']
  rw [htext] at h
  exact ⟨number.injective htext, List.append_cancel_left h⟩

/-! ## Values -/

/-- The character that a value begins with says which kind of value it is. -/
def kindOf (c : Char) : ℕ :=
  if isNumeric c then 3
  else if c = 'n' then 0
  else if c = 't' then 1
  else if c = 'f' then 2
  else if c = '"' then 4
  else if c = '[' then 5
  else if c = '{' then 6
  else 7

/-- The kind of a value. -/
def kind : Json → ℕ
  | .null => 0
  | .bool true => 1
  | .bool false => 2
  | .num _ => 3
  | .str _ => 4
  | .arr _ => 5
  | .obj _ => 6

theorem print_head (a : Json) : ∃ c l, print number a = c :: l ∧ kindOf c = kind a := by
  cases a with
  | null => exact ⟨_, _, rfl, by decide⟩
  | bool b => cases b <;> exact ⟨_, _, rfl, by decide⟩
  | num q =>
    obtain ⟨c, l, h⟩ := List.exists_cons_of_ne_nil (number.nonempty q)
    refine ⟨c, l, h, ?_⟩
    have hc : isNumeric c = true := number.numeric q c (by rw [h]; exact List.mem_cons_self)
    unfold kindOf
    rw [if_pos hc]
    rfl
  | str s =>
    have h := quote_toList s []
    rw [List.append_nil] at h
    exact ⟨_, _, h, rfl⟩
  | arr items => exact ⟨_, _, by rw [print], rfl⟩
  | obj fields => exact ⟨_, _, by rw [print], rfl⟩

theorem kind_eq {a b : Json} {r r' : List Char} (h : print number a ++ r = print number b ++ r') :
    kind a = kind b := by
  obtain ⟨c, l, ha, hc⟩ := @print_head number a
  obtain ⟨d, l', hb, hd⟩ := @print_head number b
  rw [ha, hb] at h
  rw [← hc, ← hd, (List.cons.inj h).1]

theorem ends_more_items (items : List Json) (r : List Char) :
    Ends (printMoreItems number items ++ r) := by
  cases items <;> rw [printMoreItems] <;> exact ends_cons _ (by decide)

theorem ends_more_fields (fields : List (String × Json)) (r : List Char) :
    Ends (printMoreFields number fields ++ r) := by
  rcases fields with - | ⟨⟨key, value⟩, fields⟩ <;> rw [printMoreFields] <;>
    exact ends_cons _ (by decide)

/-- No value begins with a closing bracket. -/
theorem print_append_ne (a : Json) (r l : List Char) : print number a ++ r ≠ ']' :: l := by
  obtain ⟨c, l', ha, hc⟩ := @print_head number a
  rw [ha]
  intro h
  obtain rfl := (List.cons.inj h).1
  cases a with
  | bool b => cases b <;> cases hc
  | _ => cases hc

theorem quote_append_ne (key : String) (r l : List Char) : (quote key).toList ++ r ≠ '}' :: l := by
  rw [quote_toList]
  intro h
  exact absurd (List.cons.inj h).1 (by decide)

mutual

/-- A printed value can be told from what follows it. -/
theorem print_append_inj : ∀ {a b : Json} {r r' : List Char}, Ends r → Ends r' →
    print number a ++ r = print number b ++ r' → a = b ∧ r = r'
  | .null, b, r, r', _, _, h => by
    have hkind := kind_eq h
    rcases b with - | (_ | _) | _ | _ | _ | _ <;> cases hkind
    exact ⟨rfl, List.append_cancel_left h⟩
  | .bool x, b, r, r', _, _, h => by
    have hkind := kind_eq h
    cases x <;> rcases b with - | (_ | _) | _ | _ | _ | _ <;> cases hkind
    · exact ⟨rfl, List.append_cancel_left h⟩
    · exact ⟨rfl, List.append_cancel_left h⟩
  | .num q, b, r, r', hr, hr', h => by
    have hkind := kind_eq h
    rcases b with - | (_ | _) | p | _ | _ | _ <;> cases hkind
    rw [print, print] at h
    obtain ⟨rfl, rfl⟩ := number_append_inj hr hr' h
    exact ⟨rfl, rfl⟩
  | .str s, b, r, r', _, _, h => by
    have hkind := kind_eq h
    rcases b with - | (_ | _) | _ | t | _ | _ <;> cases hkind
    rw [print, print] at h
    obtain ⟨rfl, rfl⟩ := quote_append_inj h
    exact ⟨rfl, rfl⟩
  | .arr items, b, r, r', _, _, h => by
    have hkind := kind_eq h
    rcases b with - | (_ | _) | _ | _ | items' | _ <;> cases hkind
    rw [print, print, List.cons_append, List.cons_append] at h
    obtain ⟨rfl, rfl⟩ := printItems_append_inj (List.cons.inj h).2
    exact ⟨rfl, rfl⟩
  | .obj fields, b, r, r', _, _, h => by
    have hkind := kind_eq h
    rcases b with - | (_ | _) | _ | _ | _ | fields' <;> cases hkind
    rw [print, print, List.cons_append, List.cons_append] at h
    obtain ⟨rfl, rfl⟩ := printFields_append_inj (List.cons.inj h).2
    exact ⟨rfl, rfl⟩

theorem printItems_append_inj : ∀ {items items' : List Json} {r r' : List Char},
    printItems number items ++ r = printItems number items' ++ r' → items = items' ∧ r = r'
  | [], items', r, r', h => by
    cases items' with
    | nil => exact ⟨rfl, (List.cons.inj h).2⟩
    | cons y items' =>
      rw [printItems, printItems, List.append_assoc] at h
      exact absurd h.symm (print_append_ne y _ _)
  | x :: items, items', r, r', h => by
    cases items' with
    | nil =>
      rw [printItems, printItems, List.append_assoc] at h
      exact absurd h (print_append_ne x _ _)
    | cons y items' =>
      rw [printItems, printItems, List.append_assoc, List.append_assoc] at h
      obtain ⟨rfl, hmore⟩ := print_append_inj (ends_more_items _ _) (ends_more_items _ _) h
      obtain ⟨rfl, rfl⟩ := printMoreItems_append_inj hmore
      exact ⟨rfl, rfl⟩

theorem printMoreItems_append_inj : ∀ {items items' : List Json} {r r' : List Char},
    printMoreItems number items ++ r = printMoreItems number items' ++ r' →
      items = items' ∧ r = r'
  | [], items', r, r', h => by
    cases items' with
    | nil => exact ⟨rfl, (List.cons.inj h).2⟩
    | cons y items' =>
      rw [printMoreItems, printMoreItems] at h
      exact absurd (List.cons.inj h).1 (by decide)
  | x :: items, items', r, r', h => by
    cases items' with
    | nil =>
      rw [printMoreItems, printMoreItems] at h
      exact absurd (List.cons.inj h).1 (by decide)
    | cons y items' =>
      rw [printMoreItems, printMoreItems, List.cons_append, List.cons_append, List.append_assoc,
        List.append_assoc] at h
      obtain ⟨rfl, hmore⟩ := print_append_inj (ends_more_items _ _) (ends_more_items _ _)
        (List.cons.inj h).2
      obtain ⟨rfl, rfl⟩ := printMoreItems_append_inj hmore
      exact ⟨rfl, rfl⟩

theorem printFields_append_inj : ∀ {fields fields' : List (String × Json)} {r r' : List Char},
    printFields number fields ++ r = printFields number fields' ++ r' → fields = fields' ∧ r = r'
  | [], fields', r, r', h => by
    rcases fields' with - | ⟨⟨key', value'⟩, fields'⟩
    · exact ⟨rfl, (List.cons.inj h).2⟩
    · rw [printFields, printFields, List.append_assoc] at h
      exact absurd h.symm (quote_append_ne key' _ _)
  | (key, value) :: fields, fields', r, r', h => by
    rcases fields' with - | ⟨⟨key', value'⟩, fields'⟩
    · rw [printFields, printFields, List.append_assoc] at h
      exact absurd h (quote_append_ne key _ _)
    · rw [printFields, printFields, List.append_assoc, List.append_assoc] at h
      obtain ⟨rfl, hvalue⟩ := quote_append_inj h
      rw [List.cons_append, List.cons_append, List.append_assoc, List.append_assoc] at hvalue
      obtain ⟨rfl, hmore⟩ := print_append_inj (ends_more_fields _ _) (ends_more_fields _ _)
        (List.cons.inj hvalue).2
      obtain ⟨rfl, rfl⟩ := printMoreFields_append_inj hmore
      exact ⟨rfl, rfl⟩

theorem printMoreFields_append_inj : ∀ {fields fields' : List (String × Json)} {r r' : List Char},
    printMoreFields number fields ++ r = printMoreFields number fields' ++ r' →
      fields = fields' ∧ r = r'
  | [], fields', r, r', h => by
    rcases fields' with - | ⟨⟨key', value'⟩, fields'⟩
    · exact ⟨rfl, (List.cons.inj h).2⟩
    · rw [printMoreFields, printMoreFields] at h
      exact absurd (List.cons.inj h).1 (by decide)
  | (key, value) :: fields, fields', r, r', h => by
    rcases fields' with - | ⟨⟨key', value'⟩, fields'⟩
    · rw [printMoreFields, printMoreFields] at h
      exact absurd (List.cons.inj h).1 (by decide)
    · rw [printMoreFields, printMoreFields, List.cons_append, List.cons_append, List.append_assoc,
        List.append_assoc] at h
      obtain ⟨rfl, hvalue⟩ := quote_append_inj (List.cons.inj h).2
      rw [List.cons_append, List.cons_append, List.append_assoc, List.append_assoc] at hvalue
      obtain ⟨rfl, hmore⟩ := print_append_inj (ends_more_fields _ _) (ends_more_fields _ _)
        (List.cons.inj hvalue).2
      obtain ⟨rfl, rfl⟩ := printMoreFields_append_inj hmore
      exact ⟨rfl, rfl⟩

end

/-- **No two values are printed alike.** -/
theorem print_injective : Function.Injective (print number) := by
  intro a b h
  have happend : print number a ++ [] = print number b ++ [] := by rw [h]
  exact (print_append_inj ends_nil ends_nil happend).1

end Injective

/-! ## A format -/

/-- The digits of a denominator, none for an integer. -/
def denominatorText (d : ℕ) : List Char := if d = 1 then [] else 'e' :: Nat.toDigits 10 d

/-- The digits of the numerator and of the denominator. -/
def fractionText (q : ℚ) : List Char :=
  (if q.num < 0 then ['-'] else []) ++ (Nat.toDigits 10 q.num.natAbs ++ denominatorText q.den)

/-- Whether the number is negative, its numerator and its denominator. -/
def readFraction (l : List Char) : Bool × ℕ × ℕ :=
  let digits := if l.head? = some '-' then l.tail else l
  let rest := digits.dropWhile Char.isDigit
  (l.head? = some '-', Nat.ofDigitChars 10 (digits.takeWhile Char.isDigit) 0,
    if rest.isEmpty then 1 else Nat.ofDigitChars 10 rest.tail 0)

theorem readFraction_digits (n d : ℕ) :
    readFraction (Nat.toDigits 10 n ++ denominatorText d) = (false, n, d) := by
  have htail : ∀ c ∈ (denominatorText d).head?, c.isDigit = false := by
    unfold denominatorText
    split_ifs
    · exact nofun
    · rintro _ ⟨⟩
      decide
  have hhead : (Nat.toDigits 10 n ++ denominatorText d).head? ≠ some '-' := by
    obtain ⟨c, l, h⟩ := List.exists_cons_of_ne_nil (Nat.toDigits_ne_nil (n := n) (b := 10))
    have hc : c.isDigit = true := isDigit_toDigits (by rw [h]; exact List.mem_cons_self)
    rw [h]
    intro e
    obtain rfl : c = '-' := Option.some.inj e
    cases hc
  have htake : (Nat.toDigits 10 n ++ denominatorText d).takeWhile Char.isDigit =
      Nat.toDigits 10 n := by
    rw [List.takeWhile_append_of_pos fun x hx => isDigit_toDigits hx]
    cases hd : denominatorText d with
    | nil => rw [List.takeWhile_nil, List.append_nil]
    | cons c l =>
      rw [List.takeWhile_cons_of_neg, List.append_nil]
      rw [htail c (by rw [hd]; rfl)]
      exact Bool.false_ne_true
  have hdrop : (Nat.toDigits 10 n ++ denominatorText d).dropWhile Char.isDigit =
      denominatorText d := by
    rw [List.dropWhile_append_of_pos fun x hx => isDigit_toDigits hx]
    cases hd : denominatorText d with
    | nil => rfl
    | cons c l =>
      rw [List.dropWhile_cons_of_neg]
      rw [htail c (by rw [hd]; rfl)]
      exact Bool.false_ne_true
  unfold readFraction
  dsimp only
  rw [if_neg hhead, htake, hdrop, Nat.ofDigitChars_ten_toDigits, decide_eq_false hhead]
  unfold denominatorText
  by_cases hd : d = 1
  · subst hd
    rfl
  · rw [if_neg hd]
    show (false, n, Nat.ofDigitChars 10 (Nat.toDigits 10 d) 0) = _
    rw [Nat.ofDigitChars_ten_toDigits]

theorem readFraction_text (q : ℚ) :
    readFraction (fractionText q) = (decide (q.num < 0), q.num.natAbs, q.den) := by
  unfold fractionText
  split_ifs with hneg
  · have hrest := readFraction_digits q.num.natAbs q.den
    generalize hl : Nat.toDigits 10 q.num.natAbs ++ denominatorText q.den = l at hrest ⊢
    obtain ⟨c, l', h⟩ : ∃ c l', l = c :: l' := by
      obtain ⟨c, l', h⟩ := List.exists_cons_of_ne_nil
        (Nat.toDigits_ne_nil (n := q.num.natAbs) (b := 10))
      exact ⟨c, _, by rw [← hl, h]; rfl⟩
    have hc : ¬ l.head? = some '-' := by
      intro e
      have hsign := congrArg Prod.fst hrest
      unfold readFraction at hsign
      dsimp only at hsign
      rw [decide_eq_true e] at hsign
      cases hsign
    unfold readFraction at hrest ⊢
    dsimp only at hrest ⊢
    rw [if_neg hc] at hrest
    rw [if_pos (show (['-'] ++ l).head? = some '-' from rfl)]
    obtain ⟨-, hpair⟩ := Prod.mk.inj hrest
    rw [decide_eq_true hneg]
    exact Prod.ext rfl hpair
  · rw [List.nil_append, readFraction_digits, decide_eq_false hneg]

/-- Every number printed as a fraction. -/
def fractions : NumberFormat where
  text := fractionText
  nonempty q h := by
    have hread := congrArg List.length h
    unfold fractionText at hread
    rw [List.length_append, List.length_append] at hread
    have hdigits : 0 < (Nat.toDigits 10 q.num.natAbs).length := Nat.length_toDigits_pos
    rw [List.length_nil] at hread
    omega
  numeric q c hc := by
    have hdigit : ∀ {n : ℕ} {c : Char}, c ∈ Nat.toDigits 10 n → isNumeric c = true := by
      intro n c h
      unfold isNumeric
      rw [isDigit_toDigits h]
      rfl
    unfold fractionText denominatorText at hc
    rcases List.mem_append.1 hc with hc | hc
    · split_ifs at hc
      · obtain rfl := List.mem_singleton.1 hc
        decide
      · cases hc
    rcases List.mem_append.1 hc with hc | hc
    · exact hdigit hc
    · split_ifs at hc
      · cases hc
      · rcases List.mem_cons.1 hc with rfl | hc
        · decide
        · exact hdigit hc
  injective p q h := by
    have hread := congrArg readFraction h
    rw [readFraction_text, readFraction_text] at hread
    obtain ⟨hsign, hpair⟩ := Prod.mk.inj hread
    obtain ⟨hnum, hden⟩ := Prod.mk.inj hpair
    have hsign' : p.num < 0 ↔ q.num < 0 := decide_eq_decide.1 hsign
    refine Rat.ext ?_ hden
    omega
  natural n _ := by
    unfold fractionText denominatorText
    rw [Rat.num_natCast, Rat.den_natCast, if_pos rfl, if_neg (by omega), Int.natAbs_natCast,
      List.append_nil]
    rfl

end AgentOrchestrator.Json
