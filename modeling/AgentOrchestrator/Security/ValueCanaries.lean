import AgentOrchestrator.Security.Canaries
import AgentOrchestrator.Security.RedactValue

/-!
# Canaries in redacted values

Every text in the copy that `redactValue` makes was redacted, or is a marker of the traversal, or is
the marker of a sensitive key of the graph.  So the copy of a graph has no canary in any of its
texts, as long as the markers have none.  Keys and the names of errors are no texts: they are copied
as they are.
-/

namespace AgentOrchestrator.Security

open Utf16

variable {P : Type} {canaries : List String} {lower : String → String}

/-! ## Redacted texts -/

/-- A redacted text has no canary. -/
theorem redactText_free (h : ∀ canary ∈ canaries, Eligible canary) (value : String) :
    Free canaries (toUnits (redactText canaries value)) := by
  obtain ⟨redacted, hredacted, hfree⟩ := redactUnits_free h (toUnits value)
  have htext : redactText canaries value = ofUnits redacted := by
    have hsome := redactUnits_toUnits canaries value
    rw [hredacted, Option.map_some] at hsome
    exact (Option.some.inj hsome).symm
  have hunits : toUnits (ofUnits redacted) = redacted := by
    refine toUnits_ofUnits (wellFormed_redactUnits hredacted (wellFormed_toUnits value)) ?_
    refine mem_redactUnits (fun marker _ => toUnits_lt marker) (by decide) hredacted ?_
    exact toUnits_lt value
  rw [htext, hunits]
  exact hfree

/-! ## The texts of a copy -/

mutual

/-- The texts of a tree; keys and names of errors are none. -/
def Tree.texts : Tree P → List String
  | .text value => [value]
  | .prim _ => []
  | .error _ message cause => message :: cause.texts
  | .container _ entries => textsOf entries

def textsOf : List (String × Tree P) → List String
  | [] => []
  | (_, tree) :: entries => tree.texts ++ textsOf entries

end

/-- The markers of the traversal. -/
def traversalMarkers : List String := ["[REDACTED:depth]", "[REDACTED:cycle]", "[REDACTED:entries]"]

/-- A key of some object. -/
def KeyOf (heap : Heap P) (key : String) : Prop :=
  ∃ address isArray entries, heap address = .container isArray entries ∧
    key ∈ entries.map Prod.fst

/-- What a text of the copy may be. -/
inductive Issued (canaries : List String) (lower : String → String) (heap : Heap P) :
    String → Prop where
  | redacted (value : String) : Issued canaries lower heap (redactText canaries value)
  | marker {text : String} (h : text ∈ traversalMarkers) : Issued canaries lower heap text
  | key {key : String} (h : KeyOf heap key) (hsensitive : isSensitiveKey key = true) :
      Issued canaries lower heap (keyMarker lower key)

def AllIssued (canaries : List String) (lower : String → String) (heap : Heap P)
    (texts : List String) : Prop := ∀ text ∈ texts, Issued canaries lower heap text

theorem textsOf_append (entries entries' : List (String × Tree P)) :
    textsOf (entries ++ entries') = textsOf entries ++ textsOf entries' := by
  induction entries with
  | nil => simp [textsOf]
  | cons entry entries ih =>
    obtain ⟨key, tree⟩ := entry
    simp [textsOf, ih]

theorem textsOf_copyEntries (isArray : Bool) (entries : List (String × Tree P)) :
    textsOf (copyEntries isArray entries) = textsOf entries := by
  unfold copyEntries
  split_ifs
  · induction entries with
    | nil => rfl
    | cons entry entries ih =>
      obtain ⟨key, tree⟩ := entry
      simp [textsOf, ih]
  · rfl

theorem mem_textsOf_putEntry {key value text : String} {entries : List (String × Tree P)}
    (h : text ∈ textsOf (putEntry key (.text value) entries)) :
    text = value ∨ text ∈ textsOf entries := by
  induction entries with
  | nil =>
    left
    simpa [putEntry, textsOf, Tree.texts] using h
  | cons entry entries ih =>
    obtain ⟨key', tree⟩ := entry
    unfold putEntry at h
    split_ifs at h
    · unfold textsOf at h ⊢
      rcases List.mem_append.1 h with hvalue | hrest
      · left
        simpa [Tree.texts] using hvalue
      · exact Or.inr (List.mem_append_right _ hrest)
    · unfold textsOf at h ⊢
      rcases List.mem_append.1 h with htree | hrest
      · exact Or.inr (List.mem_append_left _ htree)
      · exact (ih hrest).imp_right (List.mem_append_right _)

theorem mem_textsOf_truncate {isArray : Bool} {text : String} {entries : List (String × Tree P)}
    (h : text ∈ textsOf (truncate isArray entries)) :
    text = "[REDACTED:entries]" ∨ text ∈ textsOf entries := by
  unfold truncate at h
  split_ifs at h
  · rw [textsOf_append] at h
    rcases List.mem_append.1 h with hold | hmark
    · exact Or.inr hold
    · left
      simpa [textsOf, Tree.texts] using hmark
  · exact mem_textsOf_putEntry h

theorem issued_visitEntries {heap : Heap P} {visitor : Value P → Visit → Tree P × Visit}
    (hvisitor : ∀ value s, AllIssued canaries lower heap (visitor value s).1.texts)
    {entries : List (String × Property P)} (hkeys : ∀ key ∈ entries.map Prod.fst, KeyOf heap key)
    (s : Visit) : AllIssued canaries lower heap (textsOf (visitEntries lower visitor entries s).1) := by
  induction entries generalizing s with
  | nil =>
    intro text htext
    simp [visitEntries, textsOf] at htext
  | cons entry entries ih =>
    obtain ⟨key, property⟩ := entry
    rw [List.map_cons, List.forall_mem_cons] at hkeys
    unfold visitEntries
    split_ifs
    · intro text htext
      simp [textsOf] at htext
    · dsimp only
      have hvalue : AllIssued canaries lower heap
          (visitEntry lower visitor key property { s with remaining := s.remaining - 1 }).1.texts := by
        unfold visitEntry
        by_cases hkey : isSensitiveKey key = true
        · rw [if_pos hkey]
          intro text htext
          obtain rfl : text = keyMarker lower key := by simpa [Tree.texts] using htext
          exact .key hkeys.1 hkey
        · rw [if_neg hkey]
          cases property with
          | data value => exact hvisitor value _
          | accessor => exact hvisitor _ _
      intro text htext
      unfold textsOf at htext
      rcases List.mem_append.1 htext with hfirst | hrest
      · exact hvalue text hfirst
      · exact ih hkeys.2 _ text hrest

/-- **Where the texts of a copy come from.** -/
theorem issued_visit (heap : Heap P) (levels : ℕ) (value : Value P) (s : Visit) :
    AllIssued canaries lower heap (visit canaries lower heap levels value s).1.texts := by
  have htext : ∀ {text}, Issued canaries lower heap text →
      AllIssued canaries lower heap (Tree.text text : Tree P).texts := by
    intro text h text' htext'
    obtain rfl : text' = text := by simpa [Tree.texts] using htext'
    exact h
  have hprim : ∀ value : P, AllIssued canaries lower heap (Tree.prim value).texts := by
    intro value text htext
    simp [Tree.texts] at htext
  induction levels generalizing value s with
  | zero =>
    cases value with
    | text value => exact htext (.redacted value)
    | prim value => exact hprim value
    | ref address => exact htext (.marker (by simp [traversalMarkers]))
  | succ levels ih =>
    cases value with
    | text value => exact htext (.redacted value)
    | prim value => exact hprim value
    | ref address =>
      unfold visit
      split_ifs
      · exact htext (.marker (by simp [traversalMarkers]))
      · cases hobject : heap address with
        | error name message cause =>
          intro text hmem
          rcases List.mem_cons.1 (show text ∈ redactText canaries message :: _ by
            simpa [Tree.texts] using hmem) with rfl | hcause
          · exact .redacted message
          · exact ih cause _ text hcause
        | container isArray entries =>
          have hentries := issued_visitEntries ih
            (fun key (hkey : key ∈ entries.map Prod.fst) =>
              ⟨address, isArray, entries, hobject, hkey⟩)
            { s with seen := address :: s.seen }
          intro text hmem
          have hmem : text ∈ textsOf (if (visitEntries lower (visit canaries lower heap levels)
              entries { s with seen := address :: s.seen }).2.1 = true then
            truncate isArray (copyEntries isArray (visitEntries lower
              (visit canaries lower heap levels) entries
                { s with seen := address :: s.seen }).1)
            else copyEntries isArray (visitEntries lower (visit canaries lower heap levels) entries
              { s with seen := address :: s.seen }).1) := by
            simpa [Tree.texts] using hmem
          split_ifs at hmem
          · rcases mem_textsOf_truncate hmem with rfl | hold
            · exact .marker (by simp [traversalMarkers])
            · rw [textsOf_copyEntries] at hold
              exact hentries text hold
          · rw [textsOf_copyEntries] at hmem
            exact hentries text hmem

/-! ## No canary gets out in a text -/

/-- **No canary gets out in a text.**  With eligible canaries that are in no marker of the traversal
and in the marker of no sensitive key of the graph, no text of the copy has a canary in it, whatever
the graph. -/
theorem redactValue_free (h : ∀ canary ∈ canaries, Eligible canary) {heap : Heap P}
    (hmarkers : ∀ marker ∈ traversalMarkers, Free canaries (toUnits marker))
    (hkeys : ∀ key, KeyOf heap key → isSensitiveKey key = true →
      Free canaries (toUnits (keyMarker lower key))) (value : Value P) :
    ∀ text ∈ (redactValue canaries lower heap value).texts, Free canaries (toUnits text) := by
  intro text htext
  cases issued_visit heap maxRedactionDepth value {} text htext with
  | redacted value => exact redactText_free h value
  | marker hmarker => exact hmarkers text hmarker
  | key hkey hsensitive => exact hkeys _ hkey hsensitive

/-- A canary in a text, in a message and under a sensitive key of an object that contains itself. -/
def canaryHeap : Heap ℕ := fun address =>
  if address = 0 then
    .container false [("secret", .data (.text "K7KQ9")), ("note", .data (.text "see K7KQ9")),
      ("self", .data (.ref 0)), ("failure", .data (.ref 1))]
  else .error "Error" "K7KQ9 failed" (.prim 0)

theorem redactValue_free_sample :
    (redactValue ["K7KQ9"] id canaryHeap (.ref 0)).texts ≠ [] ∧
      ∀ text ∈ (redactValue ["K7KQ9"] id canaryHeap (.ref 0)).texts,
        ¬ toUnits "K7KQ9" <:+: toUnits text := by
  have hcanary : Eligible "K7KQ9" := by
    have hmarkers : ∀ marker ∈ markers, toUnits marker ≠ [] ∧
        ∀ u ∈ toUnits "K7KQ9", u ∉ toUnits marker := by decide +kernel
    refine ⟨by decide, by decide +kernel, fun marker hmem => ?_⟩
    exact Regex.clear_of_disjoint (hmarkers marker hmem).1 (toUnits_ne_nil (by decide))
      (hmarkers marker hmem).2
  have hmarkers : ∀ marker ∈ traversalMarkers, ¬ toUnits "K7KQ9" <:+: toUnits marker := by
    decide +kernel
  have hfree := @redactValue_free ℕ ["K7KQ9"] id (by simpa using hcanary) canaryHeap
    (fun marker hmem => by simpa [Free] using hmarkers marker hmem) ?_ (.ref 0)
  · refine ⟨by decide +kernel, fun text htext => ?_⟩
    exact hfree text htext "K7KQ9" List.mem_cons_self
  · rintro key ⟨address, isArray, entries, hobject, hkey⟩ -
    unfold canaryHeap at hobject
    split_ifs at hobject
    obtain ⟨-, rfl⟩ := Obj.container.inj hobject
    have hkeys : ∀ key ∈ ["secret", "note", "self", "failure"],
        ¬ toUnits "K7KQ9" <:+: toUnits (keyMarker id key) := by decide +kernel
    intro canary hmem
    obtain rfl := List.mem_singleton.1 hmem
    exact hkeys key hkey

end AgentOrchestrator.Security
