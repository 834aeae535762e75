import Mathlib.Data.String.Basic
import Mathlib.Data.Int.Order.Basic

/-!
# Times as texts

What `Date.prototype.toISOString` prints for a time in UTC, and how the texts compare.  The digits
stand in fixed places, so as long as the year has four of them the order of the texts is the order
of the times.  A year outside of that has a sign in front, which comes before any digit.
-/

namespace IsoTime

/-! ## Digits in fixed places -/

/-- The last digits of a number. -/
def pad : ℕ → ℕ → List Char
  | 0, _ => []
  | width + 1, n => pad width (n / 10) ++ [Nat.digitChar (n % 10)]

theorem digitChar_lt {a b : ℕ} (ha : a < 10) (hb : b < 10) :
    Nat.digitChar a < Nat.digitChar b ↔ a < b := by
  have h : ∀ a < 10, ∀ b < 10, (Nat.digitChar a < Nat.digitChar b ↔ a < b) := by decide
  exact h a ha b hb

theorem digitChar_inj {a b : ℕ} (ha : a < 10) (hb : b < 10) :
    Nat.digitChar a = Nat.digitChar b ↔ a = b := by
  have h : ∀ a < 10, ∀ b < 10, (Nat.digitChar a = Nat.digitChar b ↔ a = b) := by decide
  exact h a ha b hb

/-- Numbers of one width compare before what follows them. -/
theorem pad_append_lt {width n m : ℕ} (hn : n < 10 ^ width) (hm : m < 10 ^ width)
    {s t : List Char} :
    pad width n ++ s < pad width m ++ t ↔ n < m ∨ n = m ∧ s < t := by
  induction width generalizing n m s t with
  | zero =>
    obtain rfl : n = 0 := by simpa using hn
    obtain rfl : m = 0 := by simpa using hm
    simp [pad]
  | succ width ih =>
    have hdn : n % 10 < 10 := Nat.mod_lt n (by decide)
    have hdm : m % 10 < 10 := Nat.mod_lt m (by decide)
    rw [Nat.pow_succ] at hn hm
    rw [pad, pad, List.append_assoc, List.append_assoc,
      ih (Nat.div_lt_of_lt_mul (by omega)) (Nat.div_lt_of_lt_mul (by omega)), List.singleton_append,
      List.singleton_append, List.cons_lt_cons_iff, digitChar_lt hdn hdm, digitChar_inj hdn hdm]
    by_cases hlt : s < t
    · simp only [hlt, and_true]
      omega
    · simp only [hlt, and_false, or_false]
      omega

/-- Numbers with their widths and the characters behind them. -/
def render : List (ℕ × Char) → List ℕ → List Char
  | (width, c) :: layout, n :: ns => pad width n ++ c :: render layout ns
  | _, _ => []

/-- The numbers fit their widths. -/
def Fits (layout : List (ℕ × Char)) (ns : List ℕ) : Prop :=
  List.Forall₂ (fun place n => n < 10 ^ place.1) layout ns

theorem render_lt {layout : List (ℕ × Char)} {ns ms : List ℕ} (hn : Fits layout ns)
    (hm : Fits layout ms) : render layout ns < render layout ms ↔ ns < ms := by
  induction layout generalizing ns ms with
  | nil =>
    cases hn
    cases hm
    exact iff_of_false (lt_irrefl _) (lt_irrefl _)
  | cons place layout ih =>
    cases hn with
    | cons hn hns =>
      cases hm with
      | cons hm hms =>
        rw [render, render, pad_append_lt hn hm, List.cons_lt_cons_iff, List.cons_lt_cons_iff,
          ih hns hms]
        simp

/-! ## Times -/

/-- A time in UTC, to the millisecond. -/
structure DateTime where
  year : ℤ
  month : ℕ
  day : ℕ
  hour : ℕ
  minute : ℕ
  second : ℕ
  millisecond : ℕ
  month_le : month ≤ 12
  day_le : day ≤ 31
  hour_lt : hour < 24
  minute_lt : minute < 60
  second_lt : second < 60
  millisecond_lt : millisecond < 1000
  deriving DecidableEq

namespace DateTime

/-- The numbers after the year. -/
def rest (t : DateTime) : List ℕ :=
  [t.month, t.day, t.hour, t.minute, t.second, t.millisecond]

/-- The time is before the other one. -/
instance : LT DateTime := ⟨fun a b => a.year < b.year ∨ a.year = b.year ∧ a.rest < b.rest⟩

theorem lt_iff {a b : DateTime} :
    a < b ↔ a.year < b.year ∨ a.year = b.year ∧ a.rest < b.rest := Iff.rfl

/-- The year has four digits and no sign. -/
def FourDigit (t : DateTime) : Prop := 0 ≤ t.year ∧ t.year ≤ 9999

instance (t : DateTime) : Decidable t.FourDigit := inferInstanceAs (Decidable (_ ∧ _))

def layout : List (ℕ × Char) :=
  [(4, '-'), (2, '-'), (2, 'T'), (2, ':'), (2, ':'), (2, '.'), (3, 'Z')]

def longLayout : List (ℕ × Char) :=
  [(6, '-'), (2, '-'), (2, 'T'), (2, ':'), (2, ':'), (2, '.'), (3, 'Z')]

def toISOString (t : DateTime) : String :=
  if t.FourDigit then String.ofList (render layout (t.year.toNat :: t.rest))
  else String.ofList ((if t.year < 0 then '-' else '+') ::
    render longLayout (t.year.natAbs :: t.rest))

theorem fits_layout {t : DateTime} (h : t.FourDigit) : Fits layout (t.year.toNat :: t.rest) := by
  have hyear : t.year.toNat < 10 ^ 4 := by
    obtain ⟨hnonneg, hle⟩ := h
    omega
  have hmonth := t.month_le
  have hday := t.day_le
  have hhour := t.hour_lt
  have hminute := t.minute_lt
  have hsecond := t.second_lt
  refine .cons hyear (.cons ?_ (.cons ?_ (.cons ?_ (.cons ?_ (.cons ?_ (.cons ?_ .nil))))))
  · dsimp only; omega
  · dsimp only; omega
  · dsimp only; omega
  · dsimp only; omega
  · dsimp only; omega
  · exact t.millisecond_lt

/-- With four digits for both years, the texts compare as the times do. -/
theorem toISOString_lt {a b : DateTime} (ha : a.FourDigit) (hb : b.FourDigit) :
    a.toISOString < b.toISOString ↔ a < b := by
  rw [toISOString, toISOString, if_pos ha, if_pos hb, String.lt_iff_toList_lt,
    String.toList_ofList, String.toList_ofList, render_lt (fits_layout ha) (fits_layout hb),
    List.cons_lt_cons_iff, lt_iff]
  obtain ⟨ha, -⟩ := ha
  obtain ⟨hb, -⟩ := hb
  refine or_congr ?_ (and_congr_left' ?_)
  · omega
  · omega

/-- The text of a year with a sign comes before that of a year with four digits. -/
theorem toISOString_lt_of_not_fourDigit {a b : DateTime} (ha : ¬ a.FourDigit) (hb : b.FourDigit) :
    a.toISOString < b.toISOString := by
  rw [toISOString, toISOString, if_neg ha, if_pos hb, String.lt_iff_toList_lt,
    String.toList_ofList, String.toList_ofList]
  have hfirst : ∀ d < 10, '-' < Nat.digitChar d ∧ '+' < Nat.digitChar d := by decide
  obtain ⟨hminus, hplus⟩ := hfirst (b.year.toNat / 10 / 10 / 10 % 10) (Nat.mod_lt _ (by decide))
  show _ < Nat.digitChar (b.year.toNat / 10 / 10 / 10 % 10) :: _
  refine List.cons_lt_cons_iff.2 (Or.inl ?_)
  split_ifs
  · exact hminus
  · exact hplus

/-- A text that is not after another one, where the other year has four digits: nor is the time. -/
theorem not_lt_of_toISOString {now deadline : DateTime} (hdeadline : deadline.FourDigit)
    (h : ¬ now.toISOString < deadline.toISOString) : ¬ now < deadline := by
  by_cases hnow : now.FourDigit
  · rwa [toISOString_lt hnow hdeadline] at h
  · exact absurd (toISOString_lt_of_not_fourDigit hnow hdeadline) h

end DateTime

end IsoTime
