import AgentOrchestrator.Library.Marks
import AgentOrchestrator.Security.SafeField
import Mathlib.Data.List.Infix

/-!
# Canaries in audit fields

The redaction leaves none of the canaries in a text, and folding white space and cutting the text
bring none back.  Taking out escape sequences and invisible characters may: it joins what the
redaction saw apart.
-/

namespace AgentOrchestrator.Security

open Utf16
open Regex (Clear Replaced Holds)

/-! ## Redaction -/

/-- The texts that redaction and truncation put in. -/
def markers : List String :=
  ["[REDACTED:authorization]", "[REDACTED:token]", "[REDACTED:secret]", "[REDACTED:private-key]",
    "[REDACTED:canary]", "[TRUNCATED]"]

/-- A canary of printable characters other than white space that is no part of a marker, nor formed
across the edge of one. -/
structure Eligible (canary : String) : Prop where
  nonempty : canary ≠ ""
  printable : ∀ u ∈ toUnits canary, isSpace u = false ∧ isControl u = false ∧ isInvisible u = false
  clear : ∀ marker ∈ markers, Clear (toUnits marker) (toUnits canary)

/-- None of the canaries is in the text. -/
def Free (canaries : List String) (units : List ℕ) : Prop :=
  ∀ canary ∈ canaries, ¬ toUnits canary <:+: units

theorem mem_variants (canary : String) : canary ∈ variants canary := by
  unfold variants
  rw [List.mem_eraseDups]
  exact List.mem_cons_self

/-- Replacing another text leaves the canary out. -/
theorem Eligible.not_infix_replaceText {canary : String} (h : Eligible canary) {units : List ℕ}
    (hunits : ¬ toUnits canary <:+: units) (variant : String) :
    ¬ toUnits canary <:+: replaceText (toUnits variant) (toUnits "[REDACTED:canary]") units := by
  intro hpart
  refine hunits ?_
  have hreplaced := Regex.replaced_replaceAll (Regex.text (toUnits variant))
    (fun _ => toUnits "[REDACTED:canary]") units
  exact hreplaced.infix_of_clear (h.clear _ (by simp [markers])) [] hpart

theorem Eligible.not_infix_foldl {canary : String} (h : Eligible canary) {units : List ℕ}
    {variants : List String} (hunits : canary ∈ variants ∨ ¬ toUnits canary <:+: units) :
    ¬ toUnits canary <:+: variants.foldl (fun units variant =>
      replaceText (toUnits variant) (toUnits "[REDACTED:canary]") units) units := by
  induction variants generalizing units with
  | nil => exact hunits.elim (fun h => absurd h List.not_mem_nil) fun h => h
  | cons variant variants ih =>
    refine ih ?_
    rcases hunits with hmem | hunits
    · rcases List.mem_cons.1 hmem with rfl | hmem
      · exact .inr (Regex.not_infix_replaceAll (toUnits_ne_nil h.nonempty)
          (h.clear _ (by simp [markers])) units)
      · exact .inl hmem
    · exact .inr (h.not_infix_replaceText hunits variant)

theorem foldlM_redactCanary {canaries : List String} (h : ∀ canary ∈ canaries, Eligible canary)
    (units : List ℕ) : ∃ redacted,
      (canaries.map toUnits).foldlM redactCanary units = some redacted ∧
        ∀ canary, Eligible canary → canary ∈ canaries ∨ ¬ toUnits canary <:+: units →
          ¬ toUnits canary <:+: redacted := by
  induction canaries generalizing units with
  | nil =>
    refine ⟨units, rfl, fun canary _ hunits => ?_⟩
    exact hunits.elim (fun h => absurd h List.not_mem_nil) fun h => h
  | cons canary canaries ih =>
    rw [List.forall_mem_cons] at h
    obtain ⟨redacted, hredacted, hfree⟩ := ih h.2 ((variants canary).foldl (fun units variant =>
      replaceText (toUnits variant) (toUnits "[REDACTED:canary]") units) units)
    refine ⟨redacted, ?_, fun other hother hunits => ?_⟩
    · rw [List.map_cons, List.foldlM_cons, redactCanary_toUnits units h.1.nonempty]
      exact hredacted
    · rcases hunits with hmem | hunits
      · rcases List.mem_cons.1 hmem with rfl | hmem
        · exact hfree other hother (.inr (hother.not_infix_foldl (.inl (mem_variants other))))
        · exact hfree other hother (.inl hmem)
      · exact hfree other hother (.inr (hother.not_infix_foldl (.inr hunits)))

/-- **The redaction leaves no canary.** -/
theorem redactUnits_free {canaries : List String} (h : ∀ canary ∈ canaries, Eligible canary)
    (value : List ℕ) : ∃ redacted, redactUnits (canaries.map toUnits) value = some redacted ∧
      Free canaries redacted := by
  obtain ⟨redacted, hredacted, hfree⟩ := foldlM_redactCanary h (redactSecrets value)
  exact ⟨redacted, hredacted, fun canary hmem => hfree canary (h canary hmem) (.inl hmem)⟩

/-! ## What the redaction keeps -/

/-- The replacements of the patterns hold items of the class when the groups do. -/
theorem mem_secretPatterns {C : ℕ → Prop} (hmarkers : ∀ marker ∈ markers, ∀ u ∈ toUnits marker, C u)
    (hspace : C 0x20) : ∀ p ∈ secretPatterns, ∀ groups : ℕ → List ℕ, (∀ n, ∀ u ∈ groups n, C u) →
      ∀ u ∈ p.2 groups, C u := by
  have hmarker : ∀ {marker}, marker ∈ markers → ∀ groups : ℕ → List ℕ,
      (∀ n, ∀ u ∈ groups n, C u) → ∀ u ∈ toUnits marker, C u :=
    fun hmem _ _ => hmarkers _ hmem
  simp only [secretPatterns, List.forall_mem_cons]
  refine ⟨fun groups h => ?_, hmarker (by simp [markers]), hmarker (by simp [markers]),
    fun groups h => ?_, hmarker (by simp [markers]), by simp⟩
  · have hmark : toUnits " [REDACTED:authorization]" =
        0x20 :: toUnits "[REDACTED:authorization]" := by decide +kernel
    rw [hmark, List.forall_mem_append, List.forall_mem_cons]
    exact ⟨h 1, hspace, hmarkers _ (by simp [markers])⟩
  · exact List.forall_mem_append.2 ⟨h 1, hmarkers _ (by simp [markers])⟩

theorem mem_redactUnits {C : ℕ → Prop} (hmarkers : ∀ marker ∈ markers, ∀ u ∈ toUnits marker, C u)
    (hspace : C 0x20) {canaries : List (List ℕ)} {value redacted : List ℕ}
    (h : redactUnits canaries value = some redacted) (hvalue : ∀ u ∈ value, C u) :
    ∀ u ∈ redacted, C u := by
  refine redactUnits_keeps (P := fun units => ∀ u ∈ units, C u) ?_ ?_ h hvalue
  · intro p hp units hunits
    refine (Regex.replaced_replaceAll p.1 p.2 units).mem ?_ hunits
    intro s q hmatch hgroups hrest
    refine mem_secretPatterns hmarkers hspace p hp _ fun n => ?_
    exact (hmatch.holds_of_rest hrest (by simp [Holds, hgroups])).groupText n
  · intro variant units hunits
    refine (Regex.replaced_replaceAll (Regex.text (toUnits variant)) _ units).mem ?_ hunits
    exact fun _ _ _ => hmarkers _ (by simp [markers])

/-- Every replacement has a bracket. -/
theorem bracket_secretPatterns : ∀ p ∈ secretPatterns, ∀ groups : ℕ → List ℕ, 91 ∈ p.2 groups := by
  simp only [secretPatterns, List.forall_mem_cons]
  exact ⟨fun _ => List.mem_append_right _ (by decide +kernel), fun _ => by decide +kernel,
    fun _ => by decide +kernel, fun _ => List.mem_append_right _ (by decide +kernel),
    fun _ => by decide +kernel, by simp⟩

theorem exists_mem_redactUnits {C : ℕ → Prop} (hbracket : C 91) {canaries : List (List ℕ)}
    {value redacted : List ℕ} (h : redactUnits canaries value = some redacted)
    (hvalue : ∃ u ∈ value, C u) : ∃ u ∈ redacted, C u := by
  refine redactUnits_keeps (P := fun units => ∃ u ∈ units, C u) ?_ ?_ h hvalue
  · intro p hp units hunits
    refine (Regex.replaced_replaceAll p.1 p.2 units).exists_mem (fun groups => ?_) hunits
    exact ⟨91, bracket_secretPatterns p hp groups, hbracket⟩
  · intro variant units hunits
    refine (Regex.replaced_replaceAll (Regex.text (toUnits variant)) _ units).exists_mem
      (fun _ => ⟨91, by decide +kernel, hbracket⟩) hunits

/-! ## White space -/

section

variable {part : List ℕ}

theorem infix_controls_iff (h : ∀ u ∈ part, isSpace u = false ∧ isControl u = false)
    {units : List ℕ} :
    part <:+: units.map (fun u => if isControl u then 0x20 else u) ↔ part <:+: units := by
  rw [List.infix_map_iff]
  constructor
  · rintro ⟨l, hl, rfl⟩
    have hsame : l.map (fun u => if isControl u then 0x20 else u) = l := by
      refine (List.map_congr_left fun u hu => ?_).trans (List.map_id l)
      have hspace := (h _ (List.mem_map_of_mem hu)).1
      split_ifs at hspace with hcontrol
      · exact absurd hspace (by decide)
      · exact if_neg hcontrol
    rwa [hsame]
  · intro hpart
    refine ⟨part, hpart, ((List.map_congr_left fun u hu => ?_).trans (List.map_id part)).symm⟩
    exact if_neg (by simp [(h u hu).2])

theorem not_prefix_of_isSpace (hne : part ≠ []) (h : ∀ u ∈ part, isSpace u = false) {u : ℕ}
    (hu : isSpace u = true) (units : List ℕ) : ¬ part <+: u :: units := by
  obtain ⟨a, part, rfl⟩ := List.exists_cons_of_ne_nil hne
  intro hbegin
  rw [List.cons_prefix_cons] at hbegin
  rw [← hbegin.1, h a List.mem_cons_self] at hu
  cases hu

theorem prefix_collapse_iff (h : ∀ u ∈ part, isSpace u = false) {units : List ℕ} :
    part <+: collapse false units ↔ part <+: units := by
  induction part generalizing units with
  | nil => simp
  | cons a part ih =>
    cases units with
    | nil => rfl
    | cons u units =>
      rw [collapse, if_neg Bool.false_ne_true]
      split_ifs with hspace
      · exact iff_of_false (not_prefix_of_isSpace (List.cons_ne_nil a part) h (by decide) _)
          (not_prefix_of_isSpace (List.cons_ne_nil a part) h hspace _)
      · rw [List.cons_prefix_cons, List.cons_prefix_cons, ih (List.forall_mem_cons.1 h).2]

theorem infix_collapse_iff (hne : part ≠ []) (h : ∀ u ∈ part, isSpace u = false) {units : List ℕ}
    (inRun : Bool) : part <:+: collapse inRun units ↔ part <:+: units := by
  induction units generalizing inRun with
  | nil => rfl
  | cons u units ih =>
    rw [collapse, @List.infix_cons_iff _ part u units]
    split_ifs with hspace hrun
    · rw [ih true]
      exact (or_iff_right (not_prefix_of_isSpace hne h hspace units)).symm
    · rw [List.infix_cons_iff, ih true]
      exact or_congr_left (iff_of_false (not_prefix_of_isSpace hne h (by decide) _)
        (not_prefix_of_isSpace hne h hspace _))
    · rw [List.infix_cons_iff, ih false]
      refine or_congr_left ?_
      obtain ⟨a, part, rfl⟩ := List.exists_cons_of_ne_nil hne
      rw [List.cons_prefix_cons, List.cons_prefix_cons,
        prefix_collapse_iff (List.forall_mem_cons.1 h).2]

theorem infix_dropWhile_iff (hne : part ≠ []) (h : ∀ u ∈ part, isSpace u = false)
    {units : List ℕ} : part <:+: units.dropWhile isSpace ↔ part <:+: units := by
  induction units with
  | nil => rfl
  | cons u units ih =>
    rw [List.dropWhile_cons]
    split_ifs with hspace
    · rw [ih, List.infix_cons_iff]
      exact (or_iff_right (not_prefix_of_isSpace hne h hspace units)).symm
    · rfl

theorem infix_trimUnits_iff (hne : part ≠ []) (h : ∀ u ∈ part, isSpace u = false)
    {units : List ℕ} : part <:+: trimUnits units ↔ part <:+: units := by
  rw [trimUnits, List.rdropWhile, ← List.reverse_infix, List.reverse_reverse,
    infix_dropWhile_iff (by simpa using hne) (by simpa using h), List.reverse_infix,
    infix_dropWhile_iff hne h]

/-- Folding white space neither joins nor splits a text without any. -/
theorem infix_normalize_iff (hne : part ≠ [])
    (h : ∀ u ∈ part, isSpace u = false ∧ isControl u = false) {redacted : List ℕ} :
    part <:+: normalize redacted ↔ part <:+: strip redacted := by
  have hspace : ∀ u ∈ part, isSpace u = false := fun u hu => (h u hu).1
  rw [normalize, infix_trimUnits_iff hne hspace, infix_collapse_iff hne hspace,
    infix_controls_iff h]

end

/-! ## Fields -/

/-- The text has white space and controls only. -/
def Blank (units : List ℕ) : Prop := ∀ u ∈ units, isSpace u = true ∨ isControl u = true

instance : DecidablePred Blank := fun units =>
  inferInstanceAs (Decidable (∀ u ∈ units, isSpace u = true ∨ isControl u = true))

/-- The field of a text of which nothing is left. -/
def emptyMarker : List ℕ := toUnits "[NORMALIZED:empty]"

theorem not_blank_iff {units : List ℕ} :
    ¬ Blank units ↔ ∃ u ∈ units, isSpace u = false ∧ isControl u = false := by
  simp [Blank]

theorem normalize_eq_nil_iff {redacted : List ℕ} :
    (normalize redacted).length = 0 ↔ Blank (strip redacted) := by
  constructor
  · intro hempty
    by_contra hblank
    obtain ⟨u, hu, hkept⟩ := not_blank_iff.1 hblank
    have hpart : [u] <:+: normalize redacted :=
      (infix_normalize_iff (List.cons_ne_nil u []) (by simpa using hkept)).2
        ((List.singleton_infix_iff u _).2 hu)
    rw [List.length_eq_zero_iff.1 hempty] at hpart
    exact List.cons_ne_nil u [] (List.eq_nil_of_infix_nil hpart)
  · intro hblank
    rw [List.length_eq_zero_iff]
    by_contra hne
    obtain ⟨u, units, heq⟩ := List.exists_cons_of_ne_nil hne
    have hspace : isSpace u = false := head_normalize (by rw [heq]; rfl)
    have hmem : u ∈ normalize redacted := heq ▸ List.mem_cons_self
    rcases mem_collapse ((trimUnits_part _).subset hmem) with rfl | ⟨hmem, -⟩
    · exact absurd hspace (by decide)
    · obtain ⟨v, hv, rfl⟩ := List.mem_map.1 hmem
      split_ifs at hspace with hcontrol
      · exact absurd hspace (by decide)
      · exact (hblank v hv).elim (fun h => by rw [h] at hspace; cases hspace) hcontrol

theorem Eligible.kept {canary : String} (h : Eligible canary) :
    ∀ u ∈ toUnits canary, isSpace u = false ∧ isControl u = false :=
  fun u hu => ⟨(h.printable u hu).1, (h.printable u hu).2.1⟩

variable {canaries : List String}

/-- Behind the redaction only the stripping may bring a canary in, or the field of an empty text. -/
theorem free_fieldOf (h : ∀ canary ∈ canaries, Eligible canary) {redacted : List ℕ}
    (hfree : Free canaries (strip redacted))
    (hblank : Blank (strip redacted) → Free canaries emptyMarker) :
    Free canaries (fieldOf redacted) := by
  intro canary hmem hpart
  have heligible := h canary hmem
  have hnormal : ¬ toUnits canary <:+: normalize redacted := by
    rw [infix_normalize_iff (toUnits_ne_nil heligible.nonempty) heligible.kept]
    exact hfree canary hmem
  unfold fieldOf at hpart
  dsimp only at hpart
  split_ifs at hpart with hempty hlength
  · exact hblank (normalize_eq_nil_iff.1 hempty) canary hmem hpart
  · exact hnormal hpart
  · rw [← List.append_nil truncationMarker] at hpart
    rcases heligible.clear _ (by simp [markers]) _ _ hpart with hcut | hnil
    · exact hnormal (hcut.trans (truncateWellFormed_begins _ _).isInfix)
    · exact toUnits_ne_nil heligible.nonempty (List.eq_nil_of_infix_nil hnil)

theorem free_fieldOf_iff (h : ∀ canary ∈ canaries, Eligible canary) {redacted : List ℕ}
    (hshort : (normalize redacted).length ≤ 256) : Free canaries (fieldOf redacted) ↔
      Free canaries (strip redacted) ∧ (Blank (strip redacted) → Free canaries emptyMarker) := by
  refine ⟨fun hfree => ?_, fun hfree => free_fieldOf h hfree.1 hfree.2⟩
  unfold fieldOf at hfree
  dsimp only at hfree
  split_ifs at hfree with hempty hlength
  · have hblank := normalize_eq_nil_iff.1 hempty
    refine ⟨fun canary hmem hpart => ?_, fun _ => hfree⟩
    -- a canary has what a blank text has not
    obtain ⟨u, hu⟩ := List.exists_mem_of_ne_nil _ (toUnits_ne_nil (h canary hmem).nonempty)
    obtain ⟨hspace, hcontrol⟩ := (h canary hmem).kept u hu
    rcases hblank u (hpart.subset hu) with hu | hu
    · rw [hu] at hspace
      cases hspace
    · rw [hu] at hcontrol
      cases hcontrol
  · refine ⟨fun canary hmem => ?_, fun hblank => absurd (normalize_eq_nil_iff.2 hblank) hempty⟩
    rw [← infix_normalize_iff (toUnits_ne_nil (h canary hmem).nonempty) (h canary hmem).kept]
    exact hfree canary hmem
  · exact absurd hshort hlength

theorem visible_redacted {value redacted : List ℕ} (hvalue : Visible value)
    (h : redactUnits (canaries.map toUnits) (wellFormed value) = some redacted) :
    Visible redacted := by
  refine mem_redactUnits ?_ (by decide) h hvalue.wellFormed
  decide +kernel

theorem not_blank_repairFrom {before : Option ℕ} {units : List ℕ} (h : ¬ Blank units) :
    ¬ Blank (repairFrom before units) := by
  rw [not_blank_iff] at h ⊢
  induction units generalizing before with
  | nil => exact h
  | cons u units ih =>
    rw [repairFrom]
    split_ifs
    · exact ⟨0xFFFD, List.mem_cons_self, by decide⟩
    · obtain ⟨v, hv, hkept⟩ := h
      rcases List.mem_cons.1 hv with rfl | hv
      · exact ⟨v, List.mem_cons_self, hkept⟩
      · obtain ⟨w, hw, hkept⟩ := @ih (some u) ⟨v, hv, hkept⟩
        exact ⟨w, List.mem_cons_of_mem u hw, hkept⟩

/-- The audit field of a visible text has no canary. -/
theorem auditField_free (h : ∀ canary ∈ canaries, Eligible canary) {value : List ℕ}
    (hvisible : Visible value) (hblank : Blank value → Free canaries emptyMarker) :
    ∃ field, auditField (canaries.map toUnits) value = some field ∧ Free canaries field := by
  obtain ⟨redacted, hredacted, hfree⟩ := redactUnits_free h (wellFormed value)
  have hstrip : strip redacted = redacted := strip_eq_self (visible_redacted hvisible hredacted)
  refine ⟨fieldOf redacted, by rw [auditField, hredacted]; rfl, free_fieldOf h ?_ ?_⟩
  · rwa [hstrip]
  · rw [hstrip]
    intro hempty
    refine hblank ?_
    by_contra hnot
    obtain ⟨u, hu, hkept⟩ := exists_mem_redactUnits (by decide) hredacted
      (not_blank_iff.1 (not_blank_repairFrom hnot))
    exact not_blank_iff.2 ⟨u, hu, hkept⟩ hempty

/-- On a text without secrets that is not cut, exactly the stripping and the field of an empty text
can bring a canary in. -/
theorem auditField_free_iff (h : ∀ canary ∈ canaries, Eligible canary) {value : List ℕ}
    (hredacted : redactUnits (canaries.map toUnits) (wellFormed value) = some (wellFormed value))
    (hshort : (strip (wellFormed value)).length ≤ 256) :
    ∃ field, auditField (canaries.map toUnits) value = some field ∧
      (Free canaries field ↔ Free canaries (strip (wellFormed value)) ∧
        (Blank (strip (wellFormed value)) → Free canaries emptyMarker)) :=
  ⟨fieldOf (wellFormed value), by rw [auditField, hredacted]; rfl,
    free_fieldOf_iff h ((length_normalize_le _).trans hshort)⟩

/-! ## Texts -/

/-- The field of a text as a text. -/
def auditText (canaries : List String) (value : String) : String :=
  ofUnits ((auditField (canaries.map toUnits) (toUnits value)).getD [])

theorem mem_fieldOf {C : ℕ → Prop} (hempty : ∀ u ∈ emptyMarker, C u)
    (hcut : ∀ u ∈ truncationMarker, C u) (hspace : C 0x20) {redacted : List ℕ}
    (h : ∀ u ∈ strip redacted, C u) : ∀ u ∈ fieldOf redacted, C u := by
  have hnormal : ∀ u ∈ normalize redacted, C u := by
    intro u hu
    rcases mem_collapse ((trimUnits_part _).subset hu) with rfl | ⟨hmem, -⟩
    · exact hspace
    · obtain ⟨v, hv, rfl⟩ := List.mem_map.1 hmem
      split_ifs
      · exact hspace
      · exact h v hv
  unfold fieldOf
  dsimp only
  split_ifs
  · exact hempty
  · exact hnormal
  · rw [List.forall_mem_append]
    exact ⟨fun u hu => hnormal u ((truncateWellFormed_begins _ _).subset hu), hcut⟩

theorem toUnits_lt (text : String) : ∀ u ∈ toUnits text, u < 0x10000 := by
  intro u hu
  obtain ⟨c, -, hu⟩ := List.mem_flatMap.1 hu
  have hrange : c.toNat < 0xD800 ∨ (0xDFFF < c.toNat ∧ c.toNat < 0x110000) := c.valid
  unfold charUnits at hu
  split_ifs at hu <;> simp at hu <;> omega

/-- The audit field of a visible text as a text. -/
theorem auditText_free (h : ∀ canary ∈ canaries, Eligible canary) {value : String}
    (hvisible : Visible (toUnits value))
    (hblank : Blank (toUnits value) → Free canaries emptyMarker) :
    Free canaries (toUnits (auditText canaries value)) := by
  obtain ⟨field, hfield, hfree⟩ := auditField_free h hvisible hblank
  have hunits : toUnits (auditText canaries value) = field := by
    rw [auditText, hfield, Option.getD_some]
    obtain ⟨redacted, hredacted, rfl⟩ := Option.map_eq_some_iff.1 hfield
    have hone : lones none (toUnits value) ≤ 1 :=
      (wellFormed_iff_lones.1 (wellFormed_toUnits value)).le.trans (Nat.zero_le 1)
    refine toUnits_ofUnits (wellFormed_fieldOf
      (wellFormed_redactUnits hredacted (wellFormed_repaired_iff.2 hone))) ?_
    refine mem_fieldOf (by decide +kernel) (by decide +kernel) (by decide) ?_
    rw [strip_eq_self (visible_redacted hvisible hredacted)]
    refine mem_redactUnits (fun marker _ => toUnits_lt marker) (by decide) hredacted ?_
    intro u hu
    rcases mem_repairFrom hu with rfl | hu
    · decide
    · exact toUnits_lt value u hu
  rwa [hunits]

end AgentOrchestrator.Security
