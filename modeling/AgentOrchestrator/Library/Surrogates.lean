import AgentOrchestrator.Library.Utf16

/-!
# Surrogates

In well-formed code units every high surrogate is followed by a low one, and every low one follows a
high one.  An automaton that remembers whether a low surrogate is due reads exactly these.
-/

namespace AgentOrchestrator.Utf16

def isHigh (u : ℕ) : Bool := 0xD800 ≤ u && u ≤ 0xDBFF

def isLow (u : ℕ) : Bool := 0xDC00 ≤ u && u ≤ 0xDFFF

/-- The unit is no surrogate. -/
def Plain (u : ℕ) : Prop := isHigh u = false ∧ isLow u = false

theorem not_high_of_low {u : ℕ} (h : isLow u = true) : isHigh u = false := by
  simp [isLow, isHigh] at h ⊢
  omega

/-- Whether a low surrogate is due after the unit; nothing when a surrogate is on its own. -/
def stepUnit (due : Bool) (u : ℕ) : Option Bool :=
  if due then if isLow u then some false else none
  else if isHigh u then some true
  else if isLow u then none
  else some false

def runUnits : Bool → List ℕ → Option Bool
  | due, [] => some due
  | due, u :: units => (stepUnit due u).bind fun due => runUnits due units

/-- Every surrogate is half of a pair. -/
def WellFormed (units : List ℕ) : Prop := runUnits false units = some false

instance : DecidablePred WellFormed := fun units =>
  inferInstanceAs (Decidable (runUnits false units = some false))

theorem wellFormed_nil : WellFormed [] := rfl

theorem runUnits_append (due : Bool) (a b : List ℕ) :
    runUnits due (a ++ b) = (runUnits due a).bind fun due => runUnits due b := by
  induction a generalizing due with
  | nil => rfl
  | cons u a ih =>
    rw [List.cons_append, runUnits, runUnits, Option.bind_assoc]
    exact Option.bind_congr fun due' _ => ih due'

theorem WellFormed.append {a b : List ℕ} (ha : WellFormed a) (hb : WellFormed b) :
    WellFormed (a ++ b) := by
  unfold WellFormed at ha hb ⊢
  rw [runUnits_append, ha]
  exact hb

@[simp] theorem stepUnit_plain {u : ℕ} (h : Plain u) : stepUnit false u = some false := by
  simp [stepUnit, h.1, h.2]

theorem stepUnit_of_plain {u : ℕ} (h : Plain u) (due : Bool) :
    stepUnit due u = if due then none else some false := by
  simp [stepUnit, h.1, h.2]

theorem wellFormed_of_plain {units : List ℕ} (h : ∀ u ∈ units, Plain u) : WellFormed units := by
  induction units with
  | nil => rfl
  | cons u units ih =>
    rw [List.forall_mem_cons] at h
    unfold WellFormed
    rw [runUnits, stepUnit_plain h.1]
    exact ih h.2

/-- The units of a text are well-formed. -/
theorem wellFormed_toUnits (text : String) : WellFormed (toUnits text) := by
  unfold toUnits
  induction text.toList with
  | nil => rfl
  | cons c chars ih =>
    rw [List.flatMap_cons]
    refine WellFormed.append ?_ ih
    have hrange : c.toNat < 0xD800 ∨ (0xDFFF < c.toNat ∧ c.toNat < 0x110000) := c.valid
    unfold charUnits
    split_ifs with h
    · refine wellFormed_of_plain ?_
      intro u hu
      rw [List.mem_singleton.1 hu]
      simp [Plain, isHigh, isLow]
      omega
    · have hhigh : isHigh (0xD800 + (c.toNat - 0x10000) / 0x400) = true := by
        simp [isHigh]
        omega
      have hlow : isLow (0xDC00 + (c.toNat - 0x10000) % 0x400) = true := by
        simp [isLow]
        omega
      simp [WellFormed, runUnits, stepUnit, hhigh, hlow]

theorem not_plain {u : ℕ} (h : ¬ Plain u) : isHigh u = true ∨ isLow u = true := by
  unfold Plain at h
  rw [not_and_or, Bool.not_eq_false, Bool.not_eq_false] at h
  exact h

/-- The first of well-formed units is on its own, or half of a pair. -/
theorem WellFormed.cases_cons {u : ℕ} {units : List ℕ} (h : WellFormed (u :: units)) :
    Plain u ∧ WellFormed units ∨
      ∃ v l, units = v :: l ∧ isHigh u = true ∧ isLow v = true ∧ WellFormed l := by
  unfold WellFormed at h
  obtain ⟨due, hdue, hrest⟩ := Option.bind_eq_some_iff.1 h
  by_cases hplain : Plain u
  · rw [stepUnit_plain hplain] at hdue
    obtain rfl := Option.some.inj hdue
    exact .inl ⟨hplain, hrest⟩
  · rcases not_plain hplain with hhigh | hlow
    · obtain rfl : true = due := by simpa [stepUnit, hhigh] using hdue
      cases units with
      | nil => cases hrest
      | cons v l =>
        obtain ⟨due, hdue, hrest⟩ := Option.bind_eq_some_iff.1 hrest
        by_cases hlow : isLow v = true
        · obtain rfl : false = due := by simpa [stepUnit, hlow] using hdue
          exact .inr ⟨v, l, rfl, hhigh, hlow, hrest⟩
        · simp [stepUnit, hlow] at hdue
    · simp [stepUnit, hlow, not_high_of_low hlow] at hdue

theorem toNat_ofNat {n : ℕ} (h : n.isValidChar) : (Char.ofNat n).toNat = n := by
  unfold Char.ofNat
  rw [dif_pos h]
  rfl

/-- Encoding inverts decoding on well-formed units. -/
theorem toUnits_ofUnits {units : List ℕ} (h : WellFormed units) (hlt : ∀ u ∈ units, u < 0x10000) :
    toUnits (ofUnits units) = units := by
  unfold toUnits ofUnits
  rw [String.toList_ofList]
  induction hlength : units.length using Nat.strongRecOn generalizing units with
  | ind n ih =>
    cases units with
    | nil => rfl
    | cons u units =>
      rw [List.forall_mem_cons] at hlt
      rcases h.cases_cons with ⟨hplain, hrest⟩ | ⟨v, l, rfl, hhigh, hlow, hrest⟩
      · simp only [Plain, isHigh, isLow, Bool.and_eq_false_iff, decide_eq_false_iff_not] at hplain
        have hunit : charUnits (Char.ofNat u) = [u] := by
          unfold charUnits
          rw [toNat_ofNat (by unfold Nat.isValidChar; omega), if_pos hlt.1]
        rw [decodeUnits_lone (by omega), List.flatMap_cons, hunit,
          ih units.length (by rw [← hlength, List.length_cons]; omega) hrest hlt.2 rfl,
          List.singleton_append]
      · simp only [isHigh, isLow, Bool.and_eq_true, decide_eq_true_eq] at hhigh hlow
        have hunits : charUnits (Char.ofNat (0x10000 + (u - 0xD800) * 0x400 + (v - 0xDC00))) =
            [u, v] := by
          unfold charUnits
          rw [toNat_ofNat (by unfold Nat.isValidChar; omega), if_neg (by omega), List.cons.injEq,
            List.cons.injEq]
          refine ⟨?_, ?_, rfl⟩ <;> omega
        rw [decodeUnits, if_pos (by omega), List.flatMap_cons, hunits,
          ih l.length (by rw [← hlength, List.length_cons, List.length_cons]; omega) hrest
            (List.forall_mem_cons.1 hlt.2).2 rfl, List.cons_append, List.singleton_append]

/-! ## Well-formed fronts -/

/-- The state after the last of some units. -/
theorem runUnits_last {due : Bool} {units : List ℕ} {u : ℕ} (h : runUnits due units = some true)
    (hlast : units.getLast? = some u) : isHigh u = true := by
  obtain ⟨front, rfl⟩ := List.getLast?_eq_some_iff.1 hlast
  rw [runUnits_append] at h
  obtain ⟨due', -, h⟩ := Option.bind_eq_some_iff.1 h
  simp only [runUnits, stepUnit] at h
  cases due' <;> by_cases hhigh : isHigh u = true <;> by_cases hlow : isLow u = true <;>
    simp_all

theorem head_of_due {units : List ℕ} (h : runUnits true units = some false) :
    ∃ u l, units = u :: l ∧ isLow u = true := by
  cases units with
  | nil => cases h
  | cons u l =>
    obtain ⟨due, hdue, -⟩ := Option.bind_eq_some_iff.1 h
    by_cases hlow : isLow u = true
    · exact ⟨u, l, rfl, hlow⟩
    · simp [stepUnit, hlow] at hdue

/-- A part of well-formed units does not cut a pair in two. -/
def Aligned (part rest : List ℕ) : Prop :=
  ∀ due, runUnits due (part ++ rest) = some false → due = false ∧ runUnits false rest = some false

theorem aligned_of_wellFormed {part : List ℕ} (h : WellFormed part) (hne : part ≠ [])
    (rest : List ℕ) : Aligned part rest := by
  intro due hrun
  cases due with
  | false =>
    rw [runUnits_append, h] at hrun
    exact ⟨rfl, hrun⟩
  | true =>
    obtain ⟨u, l, hunits, hlow⟩ := head_of_due hrun
    cases part with
    | nil => exact absurd rfl hne
    | cons v part =>
      obtain ⟨rfl, -⟩ := List.cons.inj hunits
      unfold WellFormed at h
      simp [runUnits, stepUnit, not_high_of_low hlow, hlow] at h

/-- A part is aligned when it does not begin with a low surrogate, and does not end with a high one
or is not followed by a low one. -/
theorem aligned_of_ends {u : ℕ} {part rest : List ℕ} (hfirst : isLow u = false)
    (hlast : (∀ v, (u :: part).getLast? = some v → isHigh v = false) ∨
      ∀ v l, rest = v :: l → isLow v = false) : Aligned (u :: part) rest := by
  intro due hrun
  cases due with
  | true =>
    obtain ⟨v, l, hunits, hlow⟩ := head_of_due hrun
    obtain ⟨rfl, -⟩ := List.cons.inj hunits
    rw [hfirst] at hlow
    cases hlow
  | false =>
    rw [runUnits_append] at hrun
    obtain ⟨due, hdue, hrest⟩ := Option.bind_eq_some_iff.1 hrun
    cases due with
    | false => exact ⟨rfl, hrest⟩
    | true =>
      exfalso
      rcases hlast with hlast | hnext
      · have hlast' := List.getLast?_eq_some_getLast (List.cons_ne_nil u part)
        have hhigh := runUnits_last hdue hlast'
        rw [hlast _ hlast'] at hhigh
        cases hhigh
      · obtain ⟨v, l, rfl, hlow⟩ := head_of_due hrest
        rw [hnext v l rfl] at hlow
        cases hlow

/-- A front of well-formed units is well-formed but for a high surrogate at its end. -/
theorem wellFormed_front {front rest : List ℕ} (h : WellFormed (front ++ rest))
    (hlast : ∀ u, front.getLast? = some u → isHigh u = false) : WellFormed front := by
  unfold WellFormed at h
  rw [runUnits_append] at h
  obtain ⟨due, hdue, -⟩ := Option.bind_eq_some_iff.1 h
  cases due with
  | false => exact hdue
  | true =>
    cases hl : front.getLast? with
    | none =>
      rw [List.getLast?_eq_none_iff.1 hl] at hdue
      cases hdue
    | some u =>
      have hhigh := runUnits_last hdue hl
      rw [hlast u hl] at hhigh
      cases hhigh

/-- Well-formed units without a high surrogate at the end of a front of them. -/
theorem wellFormed_dropLast {front rest : List ℕ} {u : ℕ} (h : WellFormed (front ++ u :: rest))
    (hu : isHigh u = true) : WellFormed front := by
  unfold WellFormed at h
  rw [runUnits_append] at h
  obtain ⟨due, hdue, hrest⟩ := Option.bind_eq_some_iff.1 h
  cases due with
  | false => exact hdue
  | true =>
    obtain ⟨v, l, hunits, hlow⟩ := head_of_due hrest
    obtain ⟨rfl, -⟩ := List.cons.inj hunits
    rw [not_high_of_low hlow] at hu
    cases hu

/-- Units that are no surrogates may be taken out. -/
theorem runUnits_filter {f : ℕ → Bool} (hf : ∀ u, f u = false → Plain u) {units : List ℕ} :
    ∀ {due : Bool}, runUnits due units = some false →
      runUnits due (units.filter f) = some false := by
  induction units with
  | nil => exact fun h => h
  | cons u units ih =>
    intro due h
    obtain ⟨due', hdue, hrest⟩ := Option.bind_eq_some_iff.1 h
    cases hu : f u with
    | true =>
      rw [List.filter_cons_of_pos hu, runUnits, hdue]
      exact ih hrest
    | false =>
      have hplain := hf u hu
      rw [List.filter_cons_of_neg (by simp [hu])]
      cases due with
      | true => simp [stepUnit, hplain.2] at hdue
      | false =>
        rw [stepUnit_plain hplain] at hdue
        obtain rfl := Option.some.inj hdue
        exact ih hrest

/-- Units that are no surrogates may be exchanged one for one. -/
theorem runUnits_map {f : ℕ → ℕ} (hsurrogate : ∀ u, ¬ Plain u → f u = u)
    (hplain : ∀ u, Plain u → Plain (f u)) (units : List ℕ) (due : Bool) :
    runUnits due (units.map f) = runUnits due units := by
  have hstep : ∀ u due, stepUnit due (f u) = stepUnit due u := by
    intro u due
    by_cases hu : Plain u
    · simp [stepUnit, hu.1, hu.2, (hplain u hu).1, (hplain u hu).2]
    · rw [hsurrogate u hu]
  induction units generalizing due with
  | nil => rfl
  | cons u units ih =>
    rw [List.map_cons, runUnits, runUnits, hstep]
    exact Option.bind_congr fun due' _ => ih due'

/-- Units that are no surrogates may be put at the end. -/
theorem wellFormed_append_plain {units tail : List ℕ} (h : ∀ u ∈ tail, Plain u) :
    WellFormed (units ++ tail) ↔ WellFormed units := by
  refine ⟨fun hall => ?_, fun hunits => hunits.append (wellFormed_of_plain h)⟩
  unfold WellFormed at hall ⊢
  rw [runUnits_append] at hall
  obtain ⟨due, hdue, hrest⟩ := Option.bind_eq_some_iff.1 hall
  cases due with
  | false => exact hdue
  | true =>
    obtain ⟨v, l, rfl, hlow⟩ := head_of_due hrest
    rw [(h v List.mem_cons_self).2] at hlow
    cases hlow

/-! ## Lone surrogates -/

/-- The unit between the two is half of no pair. -/
def isLone (before : Option ℕ) (u : ℕ) (next : Option ℕ) : Bool :=
  (isHigh u && !next.any isLow) || (isLow u && !before.any isHigh)

/-- How many lone surrogates follow a unit. -/
def lones : Option ℕ → List ℕ → ℕ
  | _, [] => 0
  | before, u :: units => (isLone before u units.head?).toNat + lones (some u) units

theorem lones_eq_zero_iff {units : List ℕ} : ∀ {before : Option ℕ},
    runUnits (before.any isHigh) units = some false ↔
      lones before units = 0 ∧ (before.any isHigh = true → units.head?.any isLow = true) := by
  induction units with
  | nil =>
    intro before
    cases h : before.any isHigh <;> simp [runUnits, lones]
  | cons u units ih =>
    intro before
    have hstep := @ih (some u)
    rw [Option.any_some] at hstep
    rw [runUnits, lones]
    by_cases hhigh : isHigh u = true
    · have hlow : isLow u = false := by
        cases hl : isLow u with
        | false => rfl
        | true =>
          rw [not_high_of_low hl] at hhigh
          cases hhigh
      rw [hhigh] at hstep
      cases h : before.any isHigh
      · simp [stepUnit, hhigh, hlow, hstep, isLone, h]
        tauto
      · simp [stepUnit, hhigh, hlow, isLone, h]
    · rw [Bool.not_eq_true] at hhigh
      rw [hhigh] at hstep
      cases hlow : isLow u <;> cases h : before.any isHigh <;>
        simp [stepUnit, hhigh, hlow, hstep, isLone, h]

theorem wellFormed_iff_lones {units : List ℕ} : WellFormed units ↔ lones none units = 0 := by
  have h := @lones_eq_zero_iff units none
  simpa [WellFormed] using h

end AgentOrchestrator.Utf16
