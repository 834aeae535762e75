import AgentOrchestrator.Library.RegexMatch
import AgentOrchestrator.Security.AuditField
import Mathlib.Data.List.Chain

/-!
# Safe fields

Of the repaired text the redaction cuts no surrogate pair in two, and nothing behind it does.  So a
field is safe when the repair leaves no lone surrogate, and it replaces only the first one: from two
lone surrogates on the field of a text in which there is nothing else to change is ill-formed.
-/

namespace AgentOrchestrator.Security

open Utf16
open Regex (consumes_skip Position Matches Consumes Within GroupsWithin Solid GroupFree Replaced)

/-! ## The repair -/

/-- Whether a unit is lone depends on the unit before it when it is low, and on the next one when it
is high. -/
theorem isLone_congr {before before' next next' : Option ℕ} {u : ℕ}
    (hbefore : isLow u = true → before.any isHigh = before'.any isHigh)
    (hnext : isHigh u = true → next.any isLow = next'.any isLow) :
    isLone before u next = isLone before' u next' := by
  unfold isLone
  congr 1
  · cases hhigh : isHigh u with
    | false => rfl
    | true => rw [hnext hhigh]
  · cases hlow : isLow u with
    | false => rfl
    | true => rw [hbefore hlow]

theorem lones_congr {units : List ℕ} {before before' : Option ℕ}
    (h : units.head?.any isLow = true → before.any isHigh = before'.any isHigh) :
    lones before units = lones before' units := by
  cases units with
  | nil => rfl
  | cons u units => rw [lones, lones, @isLone_congr before before' _ _ u h fun _ => rfl]

/-- A lone unit before a low one is no high surrogate. -/
theorem not_high_of_lone {before next : Option ℕ} {u : ℕ} (h : isLone before u next = true)
    (hnext : next.any isLow = true) : isHigh u = false := by
  cases hlow : isLow u with
  | true => exact not_high_of_low hlow
  | false => simp [isLone, hlow, hnext] at h

/-- A lone unit behind a high one is no low surrogate. -/
theorem not_low_of_lone {before next : Option ℕ} {u : ℕ} (h : isLone before u next = true)
    (hbefore : before.any isHigh = true) : isLow u = false := by
  cases hlow : isLow u with
  | false => rfl
  | true => simp [isLone, hlow, hbefore, not_high_of_low hlow] at h

theorem head_repairFrom {before : Option ℕ} {units : List ℕ} (h : before.any isHigh = true) :
    (repairFrom before units).head?.any isLow = units.head?.any isLow := by
  cases units with
  | nil => rfl
  | cons u units =>
    rw [repairFrom]
    split_ifs with hlone
    · rw [List.head?_cons, List.head?_cons, Option.any_some, Option.any_some,
        not_low_of_lone hlone h]
      rfl
    · rfl

/-- One lone surrogate is repaired. -/
theorem lones_repairFrom (units : List ℕ) (before : Option ℕ) :
    lones before (repairFrom before units) = lones before units - 1 := by
  induction units generalizing before with
  | nil => rfl
  | cons u units ih =>
    rw [repairFrom]
    split_ifs with hlone
    · have hnext : lones (some 0xFFFD) units = lones (some u) units := by
        refine lones_congr fun hlow => ?_
        rw [Option.any_some, Option.any_some, not_high_of_lone hlone hlow]
        rfl
      rw [lones, lones, hlone, hnext, Bool.toNat_true, Nat.add_sub_cancel_left]
      simp [isLone, isHigh, isLow]
    · have hhead : isLone before u (repairFrom (some u) units).head? =
          isLone before u units.head? :=
        isLone_congr (fun _ => rfl) fun hhigh => head_repairFrom hhigh
      rw [lones, lones, hhead, ih, Bool.not_eq_true _ |>.mp hlone, Bool.toNat_false, Nat.zero_add,
        Nat.zero_add]

theorem wellFormed_repaired_iff {value : List ℕ} :
    WellFormed (wellFormed value) ↔ lones none value ≤ 1 := by
  rw [wellFormed_iff_lones, wellFormed, lones_repairFrom]
  omega

/-! ## What the patterns consume -/

theorem plain_of_lt {u : ℕ} (h : u < 0xD800) : Plain u := by
  simp [Plain, isHigh, isLow]
  omega

theorem plain_of_isSpace {u : ℕ} (h : isSpace u = true) : Plain u := by
  simp [isSpace] at h
  simp [Plain, isHigh, isLow]
  omega

/-- The text has no surrogate. -/
def Basic (text : String) : Prop := ∀ c ∈ text.toList, c.toNat < 0xD800

theorem basic_iff {text : String} :
    (text.toList.all fun c => decide (c.toNat < 0xD800)) = true ↔ Basic text := by
  simp [Basic]

-- the characters of the text are gone through, not all characters
instance : DecidablePred Basic := fun _ => decidable_of_iff _ basic_iff

theorem within_range {ranges : List (Char × Char)} (h : ∀ r ∈ ranges, r.2.toNat < 0xD800) :
    Within Plain (range ranges) := by
  intro u hu
  obtain ⟨r, hr, hu⟩ := List.any_eq_true.1 hu
  simp only [Bool.and_eq_true, decide_eq_true_eq] at hu
  exact plain_of_lt (Nat.lt_of_le_of_lt hu.2 (h r hr))

theorem within_anyOf {text : String} (h : Basic text) : Within Plain (anyOf text) := by
  intro u hu
  obtain ⟨c, hc, hu⟩ := List.any_eq_true.1 hu
  rw [← of_decide_eq_true hu]
  exact plain_of_lt (h c hc)

theorem within_literal {text : String} (h : Basic text) : Within Plain (literal text) := by
  rw [literal, Regex.within_concat, List.forall_mem_map]
  intro c hc u hu
  rw [of_decide_eq_true hu]
  exact plain_of_lt (h c hc)

theorem within_ignoringCase {text : String} (h : Basic text) :
    Within Plain (ignoringCase text) := by
  rw [ignoringCase, Regex.within_concat, List.forall_mem_map]
  intro c hc u hu
  have hfold := of_decide_eq_true hu
  have hlt := h c hc
  unfold fold at hfold
  refine plain_of_lt ?_
  split_ifs at hfold <;> omega

theorem solid_literal {text : String} (h : text ≠ "") : Solid (literal text) := by
  refine Regex.solid_concat ?_
  obtain ⟨c, hc⟩ := List.exists_mem_of_ne_nil _ fun hnil => h (String.toList_eq_nil_iff.1 hnil)
  exact ⟨_, List.mem_map_of_mem hc, trivial⟩

-- a text is not to be unfolded into its characters
attribute [local irreducible] literal ignoringCase

theorem within_space : Within Plain space := fun _ h => plain_of_isSpace h

theorem within_alphanumeric {others : String} (h : Basic others) :
    Within Plain (alphanumeric others) := by
  refine within_range ?_
  rw [List.forall_mem_append, List.forall_mem_map]
  exact ⟨by decide, h⟩

theorem within_authorizationPattern : Within Plain authorizationPattern := by
  simp only [authorizationPattern, Regex.within_concat, List.forall_mem_cons]
  refine ⟨trivial, ⟨within_ignoringCase (by decide), within_ignoringCase (by decide)⟩,
    ⟨within_space, within_space⟩, ?_, by simp⟩
  exact ⟨within_alphanumeric (by decide), within_alphanumeric (by decide)⟩

theorem within_tokenPattern : Within Plain tokenPattern := by
  simp only [tokenPattern, Regex.within_concat, List.forall_mem_cons]
  refine ⟨trivial, Regex.within_oneOf ?_, trivial, by simp⟩
  simp only [Regex.within_concat, List.forall_mem_cons]
  have hrange := fun n => Regex.within_atLeast (within_alphanumeric (show Basic "_" by decide)) n
  refine ⟨⟨within_literal (by decide), within_anyOf (by decide), within_literal (by decide),
    hrange 20, by simp⟩, ⟨within_literal (by decide), hrange 20, by simp⟩,
    ⟨⟨within_literal (by decide), within_literal (by decide)⟩,
      Regex.within_times (within_range (by decide)) 16, by simp⟩,
    ⟨within_literal (by decide), within_anyOf (by decide), within_literal (by decide),
      Regex.within_atLeast (within_alphanumeric (by decide)) 10, by simp⟩,
    ⟨within_literal (by decide), Regex.within_atLeast (within_alphanumeric (by decide)) 20,
      by simp⟩, by simp⟩

theorem within_webTokenPattern : Within Plain webTokenPattern := by
  simp only [webTokenPattern, Regex.within_concat, List.forall_mem_cons]
  have hpart := Regex.within_atLeast (within_alphanumeric (show Basic "_-" by decide)) 5
  exact ⟨trivial, within_literal (by decide), hpart, within_literal (by decide), hpart,
    within_literal (by decide), hpart, trivial, by simp⟩

/-! ## What a replacement keeps -/

/-- Every replaced match begins and ends between pairs, and so does what replaces it. -/
structure KeepsPairs (r : Regex ℕ) (replacement : (ℕ → List ℕ) → List ℕ) : Prop where
  kept : ∀ {p q : Position ℕ} {m : List ℕ}, p.groups = [] → r.exec p some = some q →
    Consumes p m q → m ≠ [] → Aligned m q.rest ∧ WellFormed (replacement q.groupText)

theorem KeepsPairs.runUnits {r : Regex ℕ} {replacement : (ℕ → List ℕ) → List ℕ}
    (hr : KeepsPairs r replacement) {before : Option ℕ} {units out : List ℕ}
    (h : Replaced r replacement before units out) {due : Bool}
    (hunits : runUnits due units = some false) : Utf16.runUnits due out = some false := by
  induction h generalizing due with
  | nil => exact hunits
  | keep _ _ ih =>
    obtain ⟨due', hdue, hrest⟩ := Option.bind_eq_some_iff.1 hunits
    rw [Utf16.runUnits, hdue]
    exact ih hrest
  | swap h hlength _ ih =>
    obtain ⟨m, hm⟩ := (Regex.matches_of_exec h).consumes
    have hsplit := hm.rest
    dsimp only at hsplit
    have hne : m ≠ [] := by
      rintro rfl
      rw [hsplit, List.nil_append] at hlength
      exact Nat.lt_irrefl _ hlength
    obtain ⟨haligned, hreplacement⟩ := hr.kept rfl h hm hne
    rw [hsplit] at hunits
    obtain ⟨rfl, hrest⟩ := haligned due hunits
    rw [runUnits_append, hreplacement]
    exact ih hrest

theorem KeepsPairs.wellFormed {r : Regex ℕ} {replacement : (ℕ → List ℕ) → List ℕ}
    (hr : KeepsPairs r replacement) {units : List ℕ} (h : WellFormed units) :
    WellFormed (r.replaceAll replacement units) :=
  hr.runUnits (Regex.replaced_replaceAll r replacement units) h

/-- A pattern that consumes no surrogate. -/
theorem keepsPairs_of_within {r : Regex ℕ} {replacement : (ℕ → List ℕ) → List ℕ}
    (hr : Within Plain r)
    (hreplacement : ∀ groups, (∀ n, ∀ u ∈ groups n, Plain u) → WellFormed (replacement groups)) :
    KeepsPairs r replacement := by
  refine ⟨fun {p q m} hp h hm hne => ?_⟩
  have hmatch := Regex.matches_of_exec h
  obtain ⟨m', hm', hplain⟩ := hmatch.within hr
  obtain rfl := hm.unique hm'
  have hholds : Regex.Holds Plain p := by simp [Regex.Holds, hp]
  exact ⟨aligned_of_wellFormed (wellFormed_of_plain hplain) hne _,
    hreplacement _ fun n => (hmatch.holds hr.groupsWithin hholds).groupText n⟩

/-- A well-formed text. -/
theorem keepsPairs_text {part mark : List ℕ} (hpart : WellFormed part) (hmark : WellFormed mark) :
    KeepsPairs (Regex.concat (part.map fun a => .one fun u => u = a)) fun _ => mark := by
  refine ⟨fun {p q m} _ h hm hne => ?_⟩
  obtain rfl := hm.unique (Regex.matches_text (Regex.matches_of_exec h))
  exact ⟨aligned_of_wellFormed hpart hne _, hmark⟩

/-- A match that begins with a pattern that consumes no surrogate. -/
theorem aligned_of_front {r : Regex ℕ} (hr : Within Plain r) (hsolid : Solid r)
    {p s q : Position ℕ} {m : List ℕ} (hmatch : Matches r p s) (hrest : ∃ n, Consumes s n q)
    (hm : Consumes p m q)
    (hend : (∀ v, m.getLast? = some v → isHigh v = false) ∨
      ∀ v l, q.rest = v :: l → isLow v = false) : Aligned m q.rest := by
  obtain ⟨front, hfront, hplain⟩ := hmatch.within hr
  obtain ⟨n, hn⟩ := hrest
  obtain rfl := hm.unique (hfront.trans hn)
  cases front with
  | nil => exact absurd rfl (hmatch.solid hsolid hfront)
  | cons u front => exact aligned_of_ends (hplain u List.mem_cons_self).2 hend

/-- An optional item as a group. -/
theorem groupText_optional {n : ℕ} {quote : ℕ → Bool} {p s : Position ℕ}
    (h : Matches (.group n (.optional (.one quote))) p s) :
    s.groupText n = [] ∨ ∃ u, quote u = true ∧ s.groupText n = [u] := by
  cases h with
  | group h =>
    cases h with
    | altLeft h =>
      cases h with
      | @one _ _ u l hrest hu =>
        exact .inr ⟨u, hu, by simp [Position.groupText, Position.skip, hrest]⟩
    | altRight h =>
      cases h
      exact .inl (by simp [Position.groupText])

/-- A key, an optional quote, a value that is as long as it gets, and the quote again. -/
theorem aligned_quoted {key : Regex ℕ} {quote c : ℕ → Bool} (hkey : Within Plain key)
    (hsolid : Solid key) (hquote : ∀ u, quote u = true → Plain u)
    (hvalue : ∀ u, c u = false → Plain u) {p q : Position ℕ} {m : List ℕ}
    (h : (Regex.concat [.group 1 key, .group 2 (.optional (.one quote)), .atLeast 4 (.one c),
      .back 2]).exec p some = some q) (hm : Consumes p m q) : Aligned m q.rest := by
  rw [Regex.exec_concat_cons] at h
  obtain ⟨s₁, h₁, h⟩ := Regex.exec_sound (.group 1 key) h
  rw [Regex.exec_concat_cons] at h
  obtain ⟨s₂, h₂, h⟩ := Regex.exec_sound (.group 2 (.optional (.one quote))) h
  rw [Regex.exec_concat_cons, Regex.exec_atLeast] at h
  obtain ⟨s₃, h₃, h⟩ := Regex.exec_sound (.times 4 (.one c)) h
  obtain ⟨s₄, h₄, hback⟩ := Regex.exec_sound (.star true (.one c)) h
  obtain ⟨hbegins, hq⟩ := Regex.exec_back_eq.1 hback
  have h₂₃ : s₃.groupText 2 = s₂.groupText 2 := by
    rw [Position.groupText, h₃.groups (by simp [Regex.times, GroupFree])]
    rfl
  have h₂₄ : s₄.groupText 2 = s₂.groupText 2 := by
    rw [← h₂₃, Position.groupText, h₄.groups trivial]
    rfl
  obtain ⟨front, hfront⟩ := (Matches.seq h₂ (.seq h₃ h₄)).consumes
  have hskip := consumes_skip s₄ (s₄.groupText 2).length
  rw [hq] at hskip
  refine aligned_of_front (r := .group 1 key) hkey hsolid h₁ ⟨_, hfront.trans hskip⟩ hm ?_
  rcases groupText_optional h₂ with hnone | ⟨u, hu, hsome⟩
  · -- without a quote the value goes on to the end of its class
    right
    obtain ⟨s, hgroups, hhead, heq⟩ := @Regex.iterate_greedy ℕ _ c
      (fun s => (Regex.concat [.back 2]).exec s some) _ s₃ (Nat.le_refl _) (by
        intro s hs
        have htext : s.groupText 2 = [] := by
          rw [Position.groupText, hs]
          exact h₂₃.trans hnone
        simp [Regex.concat, Regex.exec, htext])
    have htext : s.groupText 2 = [] := by
      rw [Position.groupText, hgroups]
      exact h₂₃.trans hnone
    obtain ⟨-, hs⟩ := Regex.exec_back_eq.1 (heq.symm.trans h)
    rw [htext] at hs
    intro v l hv
    rw [← hs] at hv
    exact (hvalue v (hhead v (by simp [show s.rest = v :: l from hv]))).2
  · left
    rw [h₂₄, hsome] at hbegins hskip
    obtain ⟨l, hl⟩ := hbegins
    intro v hv
    obtain ⟨key, hkey⟩ := h₁.consumes
    rw [hm.unique (hkey.trans (hfront.trans hskip)), ← hl] at hv
    simp at hv
    rw [← hv]
    exact (hquote u hu).1

/-- The first group of `secretPattern`. -/
def secretKey : Regex ℕ :=
  let joint := Regex.optional (anyOf "_-")
  let word := ignoringCase
  .concat [wordBoundary, .oneOf [word "password", word "passwd", word "pwd", word "token",
      word "secret", .concat [word "api", joint, word "key"],
      .concat [word "access", joint, word "key"],
      .concat [word "aws", joint, word "secret", joint, word "access", joint, word "key"],
      .concat [word "client", joint, word "secret"]], wordBoundary,
    .star true space, anyOf "=:", .star true space]

theorem secretPattern_eq : secretPattern = .concat [.group 1 secretKey,
    .group 2 (.optional (anyOf "\"'")),
    .atLeast 4 (.one fun u => !(isSpace u || ",\"'".toList.any fun c => c.toNat = u)),
    .back 2] := rfl

theorem within_secretKey : Within Plain secretKey := by
  have hjoint : Within Plain (.optional (anyOf "_-")) := ⟨within_anyOf (by decide), trivial⟩
  have hword := fun text (h : Basic text) => within_ignoringCase h
  simp only [secretKey, Within, Regex.within_concat, List.forall_mem_cons]
  refine ⟨trivial, Regex.within_oneOf ?_, trivial, within_space, within_anyOf (by decide),
    within_space, by simp⟩
  simp only [Regex.within_concat, List.forall_mem_cons]
  exact ⟨hword _ (by decide), hword _ (by decide), hword _ (by decide), hword _ (by decide),
    hword _ (by decide), ⟨hword _ (by decide), hjoint, hword _ (by decide), by simp⟩,
    ⟨hword _ (by decide), hjoint, hword _ (by decide), by simp⟩,
    ⟨hword _ (by decide), hjoint, hword _ (by decide), hjoint, hword _ (by decide), hjoint,
      hword _ (by decide), by simp⟩,
    ⟨hword _ (by decide), hjoint, hword _ (by decide), by simp⟩, by simp⟩

theorem solid_secretKey : Solid secretKey :=
  Regex.solid_concat ⟨anyOf "=:", by simp, trivial⟩

theorem keepsPairs_secretPattern : KeepsPairs secretPattern
    fun groups => groups 1 ++ toUnits "[REDACTED:secret]" := by
  rw [secretPattern_eq]
  have hquote : Within Plain (anyOf "\"'") := within_anyOf (by decide)
  refine ⟨fun {p q m} hp h hm _ => ?_⟩
  refine ⟨aligned_quoted within_secretKey solid_secretKey hquote ?_ h hm, ?_⟩
  · intro u hu
    simp only [Bool.not_eq_false', Bool.or_eq_true] at hu
    rcases hu with hu | hu
    · exact plain_of_isSpace hu
    · exact @within_anyOf ",\"'" (by decide) u hu
  · refine WellFormed.append (wellFormed_of_plain ?_) (wellFormed_toUnits _)
    refine ((Regex.matches_of_exec h).holds ?_ (by simp [Regex.Holds, hp])).groupText 1
    exact ⟨⟨within_secretKey, within_secretKey.groupsWithin⟩, ⟨⟨hquote, trivial⟩, trivial, trivial⟩,
      by simp [Regex.atLeast, Regex.times, GroupsWithin], trivial, trivial⟩

theorem privateKeyPattern_eq : ∃ rs, privateKeyPattern =
    .concat (literal "-----BEGIN" :: (rs ++ [literal " PRIVATE KEY-----"])) :=
  ⟨[_, _, _, _, _], rfl⟩

/-- A pattern that begins and ends with a text. -/
theorem keepsPairs_privateKeyPattern : KeepsPairs privateKeyPattern
    fun _ => toUnits "[REDACTED:private-key]" := by
  obtain ⟨rs, heq⟩ := privateKeyPattern_eq
  rw [heq]
  refine ⟨fun {p q m} _ h hm _ => ?_⟩
  refine ⟨?_, wellFormed_toUnits _⟩
  obtain ⟨s, hs, h⟩ := Regex.matches_concat_cons (Regex.matches_of_exec h)
  obtain ⟨t, ht, h⟩ := Regex.matches_concat_append h
  obtain ⟨_, hlast, hnil⟩ := Regex.matches_concat_cons h
  cases hnil
  obtain ⟨front, hfront⟩ := (Matches.seq hs ht).consumes
  obtain ⟨middle, hmiddle⟩ := ht.consumes
  obtain ⟨l, hl, hplain⟩ := hlast.within (within_literal (by decide +kernel))
  refine aligned_of_front (within_literal (by decide +kernel)) (solid_literal (by simp)) hs
    ⟨_, hmiddle.trans hl⟩ hm (.inl ?_)
  intro v hv
  rw [hm.unique (hfront.trans hl), List.getLast?_append_of_ne_nil _
    (hlast.solid (solid_literal (by simp)) hl)] at hv
  exact (hplain v (List.mem_of_getLast? hv)).1

theorem keepsPairs_secretPatterns : ∀ p ∈ secretPatterns, KeepsPairs p.1 p.2 := by
  have hgroup : ∀ mark, ∀ groups : ℕ → List ℕ, (∀ n, ∀ u ∈ groups n, Plain u) →
      WellFormed (groups 1 ++ toUnits mark) := fun mark groups h =>
    (wellFormed_of_plain (h 1)).append (wellFormed_toUnits mark)
  simp only [secretPatterns, List.forall_mem_cons]
  exact ⟨keepsPairs_of_within within_authorizationPattern (hgroup _),
    keepsPairs_of_within within_tokenPattern fun _ _ => wellFormed_toUnits _,
    keepsPairs_of_within within_webTokenPattern fun _ _ => wellFormed_toUnits _,
    keepsPairs_secretPattern, keepsPairs_privateKeyPattern, by simp⟩

/-! ## Canaries -/

theorem redactCanary_eq_none_iff {units canary : List ℕ} :
    redactCanary units canary = none ↔ canary ≠ [] ∧ ¬ WellFormed canary := by
  unfold redactCanary variantUnits
  split_ifs <;> simp_all

theorem wellFormed_redactUnits {canaries : List (List ℕ)} {units out : List ℕ}
    (h : redactUnits canaries units = some out) (hunits : WellFormed units) : WellFormed out := by
  refine redactUnits_keeps (fun p hp units hunits => ?_) (fun variant units hunits => ?_) h hunits
  · exact (keepsPairs_secretPatterns p hp).wellFormed hunits
  · exact (keepsPairs_text (wellFormed_toUnits variant) (wellFormed_toUnits _)).wellFormed hunits

/-- The redaction throws at an ill-formed canary only. -/
theorem redactUnits_eq_none_iff {canaries : List (List ℕ)} {units : List ℕ} :
    redactUnits canaries units = none ↔ ∃ canary ∈ canaries, canary ≠ [] ∧ ¬ WellFormed canary := by
  unfold redactUnits
  generalize redactSecrets units = units
  induction canaries generalizing units with
  | nil => simp
  | cons canary canaries ih =>
    rw [List.foldlM_cons, List.exists_mem_cons_iff, ← @redactCanary_eq_none_iff units]
    cases hcanary : redactCanary units canary with
    | none => simp
    | some next => simpa using ih next

/-! ## What the normalization keeps -/

theorem keepsPairs_ansiEscape : KeepsPairs ansiEscape fun _ => [] := by
  have hescape : Within Plain (.one fun u => u = 0x1B) := by
    intro u hu
    rw [of_decide_eq_true hu]
    exact plain_of_lt (by decide)
  refine keepsPairs_of_within ⟨?_, ?_⟩ fun _ _ => wellFormed_nil
  · exact ⟨hescape, within_literal (by decide), within_range (by decide), within_range (by decide),
      within_range (by decide), trivial⟩
  · exact ⟨hescape, within_range (by decide), trivial⟩

theorem wellFormed_strip {units : List ℕ} (h : WellFormed units) : WellFormed (strip units) := by
  refine runUnits_filter ?_ (keepsPairs_ansiEscape.wellFormed h)
  intro u hu
  simp [isInvisible] at hu
  simp [Plain, isHigh, isLow]
  omega

theorem runUnits_collapse (units : List ℕ) {inRun due : Bool} (h : inRun = true → due = false) :
    runUnits due (collapse inRun units) = runUnits due units := by
  induction units generalizing inRun due with
  | nil => rfl
  | cons u units ih =>
    rw [collapse]
    split_ifs with hspace hrun
    · rw [h hrun, ih fun _ => rfl, runUnits, stepUnit_plain (plain_of_isSpace hspace)]
      rfl
    · rw [runUnits, runUnits, stepUnit_of_plain (plain_of_lt (by decide)),
        stepUnit_of_plain (plain_of_isSpace hspace)]
      cases due with
      | true => rfl
      | false => exact ih fun _ => rfl
    · rw [runUnits, runUnits]
      exact Option.bind_congr fun due' _ => ih fun hfalse => absurd hfalse Bool.false_ne_true

theorem wellFormed_dropWhile {units : List ℕ} :
    WellFormed (units.dropWhile isSpace) ↔ WellFormed units := by
  induction units with
  | nil => rfl
  | cons u units ih =>
    rw [List.dropWhile_cons]
    split_ifs with h
    · rw [ih, WellFormed, WellFormed, runUnits, stepUnit_plain (plain_of_isSpace h)]
      rfl
    · rfl

theorem wellFormed_trimUnits {units : List ℕ} : WellFormed (trimUnits units) ↔ WellFormed units := by
  rw [trimUnits, ← @wellFormed_dropWhile units]
  generalize units.dropWhile isSpace = units
  rw [← wellFormed_append_plain fun u hu => plain_of_isSpace (List.mem_rtakeWhile_imp hu),
    List.rdropWhile_append_rtakeWhile]

/-- The normalization makes no lone surrogate and repairs none. -/
theorem wellFormed_normalize {units : List ℕ} :
    WellFormed (normalize units) ↔ WellFormed (strip units) := by
  have hcontrol : ∀ u, isControl u = true → Plain u := by
    intro u hu
    simp [isControl] at hu
    exact plain_of_lt (by omega)
  rw [normalize, wellFormed_trimUnits, WellFormed, @runUnits_collapse _ false false (by simp),
    runUnits_map]
  · rfl
  · intro u hu
    rw [if_neg fun h => hu (hcontrol u h)]
  · intro u hu
    split_ifs
    · exact plain_of_lt (by decide)
    · exact hu

/-! ## Fields -/

/-- A field of one line without controls and invisible characters, with single white space. -/
structure Tidy (field : List ℕ) : Prop where
  nonempty : field ≠ []
  bounded : field.length ≤ 256
  clean : ∀ u ∈ field, isControl u = false ∧ isInvisible u = false ∧ u ≠ 0x2028 ∧ u ≠ 0x2029
  first : ∀ u ∈ field.head?, isSpace u = false
  single : field.IsChain fun u v => ¬ (isSpace u = true ∧ isSpace v = true)

/-- A tidy field that is well-formed. -/
structure Safe (field : List ℕ) : Prop extends Tidy field where
  wellFormed : WellFormed field

theorem mem_collapse {u : ℕ} {inRun : Bool} {units : List ℕ} (h : u ∈ collapse inRun units) :
    u = 0x20 ∨ u ∈ units ∧ isSpace u = false := by
  induction units generalizing inRun with
  | nil => cases h
  | cons v units ih =>
    have hlater : ∀ {inRun}, u ∈ collapse inRun units →
        u = 0x20 ∨ u ∈ v :: units ∧ isSpace u = false := fun h =>
      (ih h).imp_right (And.imp_left (List.mem_cons_of_mem v))
    rw [collapse] at h
    split_ifs at h with hspace hrun
    · exact hlater h
    · exact (List.mem_cons.1 h).elim .inl hlater
    · refine (List.mem_cons.1 h).elim (fun h => .inr ?_) hlater
      rw [h]
      exact ⟨List.mem_cons_self, by simpa using hspace⟩

theorem single_collapse (inRun : Bool) (units : List ℕ) :
    ((collapse inRun units).IsChain fun u v => ¬ (isSpace u = true ∧ isSpace v = true)) ∧
      (inRun = true → ∀ u ∈ (collapse inRun units).head?, isSpace u = false) := by
  induction units generalizing inRun with
  | nil => exact ⟨.nil, fun _ => by simp [collapse]⟩
  | cons u units ih =>
    rw [collapse]
    split_ifs with hspace hrun
    · exact ⟨(ih true).1, fun _ => (ih true).2 rfl⟩
    · refine ⟨(ih true).1.cons fun v hv h => ?_, fun h => absurd h hrun⟩
      rw [(ih true).2 rfl v hv] at h
      exact absurd h.2 (by decide)
    · refine ⟨(ih false).1.cons fun v _ h => hspace h.1, fun _ v hv => ?_⟩
      rw [← Option.some.inj hv]
      simpa using hspace

theorem trimUnits_part (units : List ℕ) : trimUnits units <:+: units :=
  (List.rdropWhile_prefix _ _).isInfix.trans (List.dropWhile_suffix _).isInfix

theorem head_trimUnits {u : ℕ} {units : List ℕ} (h : u ∈ (trimUnits units).head?) :
    isSpace u = false := by
  have hnot := List.head?_dropWhile_not isSpace units
  have hhead : (units.dropWhile isSpace).head? = some u := by
    obtain ⟨tail, htail⟩ := List.rdropWhile_prefix isSpace (units.dropWhile isSpace)
    rw [← htail, List.head?_append]
    exact Option.or_eq_some_iff.2 (.inl h)
  rw [hhead] at hnot
  simpa using hnot

theorem clean_normalize {u : ℕ} {redacted : List ℕ} (h : u ∈ normalize redacted) :
    isControl u = false ∧ isInvisible u = false ∧ u ≠ 0x2028 ∧ u ≠ 0x2029 := by
  rcases mem_collapse ((trimUnits_part _).subset h) with rfl | ⟨hmem, hspace⟩
  · decide
  · obtain ⟨v, hv, rfl⟩ := List.mem_map.1 hmem
    have hvisible := (List.mem_filter.1 hv).2
    split_ifs at hspace ⊢ with hcontrol
    · exact absurd hspace (by decide)
    · refine ⟨by simpa using hcontrol, by simpa using hvisible, ?_, ?_⟩
      · rintro rfl
        exact absurd hspace (by decide)
      · rintro rfl
        exact absurd hspace (by decide)

theorem head_normalize {u : ℕ} {redacted : List ℕ} (h : u ∈ (normalize redacted).head?) :
    isSpace u = false :=
  head_trimUnits h

theorem single_normalize (redacted : List ℕ) :
    (normalize redacted).IsChain fun u v => ¬ (isSpace u = true ∧ isSpace v = true) :=
  List.IsChain.infix (single_collapse false _).1 (trimUnits_part _)

theorem tidy_normalize {redacted : List ℕ} (hne : (normalize redacted).length ≠ 0)
    (hlength : (normalize redacted).length ≤ 256) : Tidy (normalize redacted) where
  nonempty := fun h => hne (by rw [h]; rfl)
  bounded := hlength
  clean := fun _ hu => clean_normalize hu
  first := fun _ hu => head_normalize hu
  single := single_normalize redacted

/-! ## Cut fields -/

theorem truncateWellFormed_begins (value : List ℕ) (length : ℕ) :
    truncateWellFormed value length <+: value := by
  unfold truncateWellFormed
  dsimp only
  split_ifs
  · exact (List.dropLast_prefix _).trans (List.take_prefix _ _)
  · exact List.take_prefix _ _

theorem length_truncateWellFormed_le (value : List ℕ) (length : ℕ) :
    (truncateWellFormed value length).length ≤ length := by
  unfold truncateWellFormed
  dsimp only
  split_ifs
  · rw [List.length_dropLast, List.length_take]
    omega
  · exact List.length_take_le _ _

/-- The cut leaves no half of a pair. -/
theorem wellFormed_truncateWellFormed {value : List ℕ} (h : WellFormed value) (length : ℕ) :
    WellFormed (truncateWellFormed value length) := by
  rw [← List.take_append_drop length value] at h
  unfold truncateWellFormed
  dsimp only
  split_ifs with hlast
  · obtain ⟨u, hu, hhigh⟩ := (Option.any_eq_true _ _).1 hlast
    obtain ⟨front, hfront⟩ := List.getLast?_eq_some_iff.1 hu
    rw [hfront, List.append_assoc] at h
    rw [hfront, List.dropLast_concat]
    exact wellFormed_dropLast h hhigh
  · refine wellFormed_front h fun u hu => ?_
    rw [hu] at hlast
    simpa using hlast

theorem tidy_emptyMarker : Tidy (toUnits "[NORMALIZED:empty]") where
  nonempty := toUnits_ne_nil (by simp)
  bounded := by decide +kernel
  clean := by decide +kernel
  first := by decide +kernel
  single := by decide +kernel

theorem tidy_truncationMarker : Tidy truncationMarker where
  nonempty := toUnits_ne_nil (by simp)
  bounded := by decide +kernel
  clean := by decide +kernel
  first := by decide +kernel
  single := by decide +kernel

theorem tidy_truncated (redacted : List ℕ) : Tidy (truncateWellFormed (normalize redacted)
    (auditFieldMaxCharacters - truncationMarker.length) ++ truncationMarker) where
  nonempty := List.append_ne_nil_of_right_ne_nil _ tidy_truncationMarker.nonempty
  bounded := by
    have hlength : truncationMarker.length = 11 := by decide +kernel
    have hcut := length_truncateWellFormed_le (normalize redacted)
      (auditFieldMaxCharacters - truncationMarker.length)
    rw [List.length_append]
    unfold auditFieldMaxCharacters at hcut ⊢
    omega
  clean := List.forall_mem_append.2
    ⟨fun _ hu => clean_normalize ((truncateWellFormed_begins _ _).subset hu),
      tidy_truncationMarker.clean⟩
  first := by
    intro u hu
    rw [List.head?_append] at hu
    rcases Option.or_eq_some_iff.1 hu with hu | ⟨-, hu⟩
    · obtain ⟨tail, htail⟩ := truncateWellFormed_begins (normalize redacted)
        (auditFieldMaxCharacters - truncationMarker.length)
      have hhead : u ∈ (normalize redacted).head? := by
        rw [← htail, List.head?_append]
        exact Option.or_eq_some_iff.2 (.inl hu)
      exact head_normalize hhead
    · exact tidy_truncationMarker.first u hu
  single := by
    have hcut := List.IsChain.prefix (single_normalize redacted)
      (truncateWellFormed_begins _ (auditFieldMaxCharacters - truncationMarker.length))
    refine List.IsChain.append hcut tidy_truncationMarker.single ?_
    intro u _ v hv h
    rw [tidy_truncationMarker.first v hv] at h
    exact absurd h.2 (by decide)

/-- Every field is tidy. -/
theorem tidy_fieldOf (redacted : List ℕ) : Tidy (fieldOf redacted) := by
  unfold fieldOf
  dsimp only
  split_ifs with hempty hlength
  · exact tidy_emptyMarker
  · exact tidy_normalize hempty hlength
  · exact tidy_truncated redacted

theorem wellFormed_fieldOf {redacted : List ℕ} (h : WellFormed redacted) :
    WellFormed (fieldOf redacted) := by
  have hnormal := wellFormed_normalize.2 (wellFormed_strip h)
  unfold fieldOf
  dsimp only
  split_ifs
  · exact wellFormed_toUnits _
  · exact hnormal
  · exact (wellFormed_truncateWellFormed hnormal _).append (wellFormed_toUnits _)

/-! ## Texts with nothing else to change -/

theorem length_repairFrom (before : Option ℕ) (units : List ℕ) :
    (repairFrom before units).length = units.length := by
  induction units generalizing before with
  | nil => rfl
  | cons u units ih =>
    rw [repairFrom]
    split_ifs
    · rfl
    · rw [List.length_cons, ih, List.length_cons]

theorem mem_repairFrom {u : ℕ} {before : Option ℕ} {units : List ℕ}
    (h : u ∈ repairFrom before units) : u = 0xFFFD ∨ u ∈ units := by
  induction units generalizing before with
  | nil => exact .inr h
  | cons v units ih =>
    rw [repairFrom] at h
    split_ifs at h
    · exact (List.mem_cons.1 h).imp_right (List.mem_cons_of_mem v)
    · rcases List.mem_cons.1 h with rfl | h
      · exact .inr List.mem_cons_self
      · exact (ih h).imp_right (List.mem_cons_of_mem v)

theorem length_collapse_le (inRun : Bool) (units : List ℕ) :
    (collapse inRun units).length ≤ units.length := by
  induction units generalizing inRun with
  | nil => rfl
  | cons u units ih =>
    rw [collapse, List.length_cons]
    split_ifs
    · exact (ih true).trans (Nat.le_succ _)
    · exact Nat.succ_le_succ (ih true)
    · exact Nat.succ_le_succ (ih false)

theorem length_normalize_le (redacted : List ℕ) :
    (normalize redacted).length ≤ (strip redacted).length := by
  refine (trimUnits_part _).length_le.trans ((length_collapse_le _ _).trans ?_)
  rw [List.length_map]

/-- An escape sequence begins with an escape. -/
theorem escape_of_matches {p q : Position ℕ} {m : List ℕ} (h : Matches ansiEscape p q)
    (hm : Consumes p m q) : 0x1B ∈ m := by
  have hfirst : ∀ {rs : List (Regex ℕ)}, Matches (.concat (.one (fun u => u = 0x1B) :: rs)) p q →
      0x1B ∈ m := by
    intro rs h
    obtain ⟨s, hs, h⟩ := Regex.matches_concat_cons h
    obtain ⟨n, hn⟩ := h.consumes
    obtain ⟨front, hfront, hmem⟩ :=
      hs.within (C := fun u => u = 0x1B) fun u hu => of_decide_eq_true hu
    have hne := hs.solid trivial hfront
    obtain ⟨u, hu⟩ := List.exists_mem_of_ne_nil _ hne
    rw [hm.unique (hfront.trans hn), ← hmem u hu]
    exact List.mem_append_left n hu
  cases h with
  | altLeft h => exact hfirst h
  | altRight h => exact hfirst h

/-- The text has no escape and no invisible character. -/
def Visible (units : List ℕ) : Prop := ∀ u ∈ units, u ≠ 0x1B ∧ isInvisible u = false

instance : DecidablePred Visible := fun units =>
  inferInstanceAs (Decidable (∀ u ∈ units, u ≠ 0x1B ∧ isInvisible u = false))

theorem strip_eq_self {units : List ℕ} (h : Visible units) : strip units = units := by
  have hescape : ansiEscape.replaceAll (fun _ => []) units = units :=
    (Regex.replaced_replaceAll ansiEscape (fun _ => []) units).eq_self (C := fun u => u ≠ 0x1B)
      (fun hmatch hm _ => ⟨0x1B, escape_of_matches hmatch hm, by simp⟩) fun u hu => (h u hu).1
  rw [strip, hescape]
  exact List.filter_eq_self.2 fun u hu => by simp [(h u hu).2]

theorem Visible.wellFormed {value : List ℕ} (h : Visible value) : Visible (wellFormed value) := by
  intro u hu
  rcases mem_repairFrom hu with rfl | hu
  · decide
  · exact h u hu

/-- After the repair there is no secret, no escape and no invisible character in the text, and it is
not cut. -/
structure Unaltered (canaries : List (List ℕ)) (value : List ℕ) : Prop where
  redacted : redactUnits canaries (wellFormed value) = some (wellFormed value)
  visible : Visible value
  short : value.length ≤ 256

theorem Unaltered.wellFormed_iff {canaries : List (List ℕ)} {value : List ℕ}
    (h : Unaltered canaries value) :
    WellFormed (fieldOf (wellFormed value)) ↔ lones none value ≤ 1 := by
  have hstrip : strip (wellFormed value) = wellFormed value := strip_eq_self h.visible.wellFormed
  have hlength : (normalize (wellFormed value)).length ≤ 256 := by
    refine (length_normalize_le _).trans ?_
    rw [hstrip, wellFormed, length_repairFrom]
    exact h.short
  have hnormal : WellFormed (normalize (wellFormed value)) ↔ lones none value ≤ 1 := by
    rw [wellFormed_normalize, hstrip, wellFormed_repaired_iff]
  rw [← hnormal]
  unfold fieldOf
  dsimp only
  rw [if_pos (show _ ≤ auditFieldMaxCharacters from hlength)]
  split_ifs with hempty
  · rw [List.length_eq_zero_iff.1 hempty]
    exact ⟨fun _ => wellFormed_nil, fun _ => wellFormed_toUnits _⟩
  · rfl

/-- Every field is tidy.  It is safe when the text has at most one lone surrogate, which for a text
with nothing else to change is exact; an ill-formed canary throws. -/
theorem auditField_safe (canaries : List (List ℕ)) (value : List ℕ) :
    ((∀ canary ∈ canaries, canary ≠ [] → WellFormed canary) → lones none value ≤ 1 →
      ∃ field, auditField canaries value = some field ∧ Safe field) ∧
    ((∃ canary ∈ canaries, canary ≠ [] ∧ ¬ WellFormed canary) →
      auditField canaries value = none) ∧
    (Unaltered canaries value →
      ((∃ field, auditField canaries value = some field ∧ Safe field) ↔ lones none value ≤ 1)) ∧
    ∀ field, auditField canaries value = some field → Tidy field := by
  unfold auditField
  refine ⟨fun hcanaries hlones => ?_, fun hcanary => ?_, fun h => ?_, fun field hfield => ?_⟩
  · cases hredacted : redactUnits canaries (wellFormed value) with
    | none =>
      obtain ⟨canary, hmem, hne, hill⟩ := redactUnits_eq_none_iff.1 hredacted
      exact absurd (hcanaries canary hmem hne) hill
    | some redacted =>
      have hwell := wellFormed_redactUnits hredacted (wellFormed_repaired_iff.2 hlones)
      exact ⟨_, rfl, tidy_fieldOf redacted, wellFormed_fieldOf hwell⟩
  · rw [redactUnits_eq_none_iff.2 hcanary]
    rfl
  · rw [h.redacted, ← h.wellFormed_iff]
    constructor
    · rintro ⟨field, hfield, hsafe⟩
      rw [Option.some.inj hfield]
      exact hsafe.wellFormed
    · exact fun hwell => ⟨_, rfl, tidy_fieldOf _, hwell⟩
  · obtain ⟨redacted, -, rfl⟩ := Option.map_eq_some_iff.1 hfield
    exact tidy_fieldOf redacted

/-- The second lone surrogate of a text stays in the field. -/
theorem second_lone_surrogate_kept : ¬ ∀ (canaries : List (List ℕ)) (value : List ℕ),
    ∃ field, auditField canaries value = some field ∧ Safe field := by
  intro h
  obtain ⟨field, hfield, hsafe⟩ := h [] [0xD800, 97, 0xD800]
  have heq : auditField [] [0xD800, 97, 0xD800] = some [0xFFFD, 97, 0xD800] := by decide +kernel
  rw [heq] at hfield
  rw [← Option.some.inj hfield] at hsafe
  exact absurd hsafe.wellFormed (by decide)

end AgentOrchestrator.Security
