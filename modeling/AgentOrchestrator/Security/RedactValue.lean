import AgentOrchestrator.Security.Redaction
import Mathlib.Order.MinMax

/-!
# Redaction of values

`redactValue` copies a graph of objects and redacts its texts.  It gives up below a depth, after a
number of entries and at an object it has met before, puts a marker for the value of a sensitive key
and calls no accessor.  The copy is a tree of bounded depth and size, whatever the graph; it does not
depend on what stands under sensitive keys; and a tree within the bounds is copied field by field.
The keys themselves and the names of errors are not redacted.  How a key is put in lower case is a
parameter, and so are the values that are copied as they are.
-/

namespace AgentOrchestrator.Security

open Utf16

/-! ## Object graphs -/

/-- A value: a text, another primitive value, or the object at an address. -/
inductive Value (P : Type) where
  | text (value : String)
  | prim (value : P)
  | ref (address : ℕ)

inductive Property (P : Type) where
  | data (value : Value P)
  | accessor

/-- An instance of `Error`, or an array or another object with its own enumerable properties. -/
inductive Obj (P : Type) where
  | error (name message : String) (cause : Value P)
  | container (isArray : Bool) (entries : List (String × Property P))

/-- The objects by their addresses. -/
abbrev Heap (P : Type) := ℕ → Obj P

/-- A redacted copy.  The entries of an array have no keys. -/
inductive Tree (P : Type) where
  | text (value : String)
  | prim (value : P)
  | error (name message : String) (cause : Tree P)
  | container (isArray : Bool) (entries : List (String × Tree P))

/-! ## The traversal -/

/-- `SENSITIVE_KEY` -/
def sensitiveKey : Regex ℕ :=
  let joint := Regex.optional (anyOf "_-")
  let word := ignoringCase
  .oneOf [word "authorization", word "cookie", word "token", word "secret", word "password",
    word "passwd", word "pwd", .concat [word "api", joint, word "key"],
    .concat [word "access", joint, word "key"], word "credential",
    .concat [word "private", joint, word "key"], .concat [word "client", joint, word "secret"]]

/-- `SENSITIVE_KEY.test(key)` -/
def isSensitiveKey (key : String) : Bool :=
  (toUnits key).tails.any fun rest => (sensitiveKey.exec { rest := rest } some).isSome

def maxRedactionDepth : ℕ := 20
def maxRedactionEntries : ℕ := 10000

/-- The objects met so far, and how many entries may still be visited. -/
structure Visit where
  seen : List ℕ := []
  remaining : ℕ := maxRedactionEntries

variable {P : Type}

/-- `output[key] = value` for a key that may be there. -/
def putEntry (key : String) (value : Tree P) : List (String × Tree P) → List (String × Tree P)
  | [] => [(key, value)]
  | entry :: entries =>
    if entry.1 = key then (key, value) :: entries else entry :: putEntry key value entries

/-- The marker of the entries that were left out. -/
def truncate (isArray : Bool) (entries : List (String × Tree P)) : List (String × Tree P) :=
  if isArray then entries ++ [("", .text "[REDACTED:entries]")]
  else putEntry "[TRUNCATED]" (.text "[REDACTED:entries]") entries

/-- The entries of a copy; those of an array are pushed. -/
def copyEntries (isArray : Bool) (entries : List (String × Tree P)) : List (String × Tree P) :=
  if isArray then entries.map fun entry => ("", entry.2) else entries

section

variable (canaries : List String) (lower : String → String)

/-- The marker for the value of a sensitive key. -/
def keyMarker (key : String) : String := "[REDACTED:" ++ lower key ++ "]"

/-- The value of one key: `safe`. -/
def visitEntry (visitor : Value P → Visit → Tree P × Visit) (key : String) (property : Property P)
    (s : Visit) : Tree P × Visit :=
  if isSensitiveKey key then (.text (keyMarker lower key), s)
  else
    match property with
    | .data value => visitor value s
    | .accessor => visitor (.text "[REDACTED:accessor]") s

/-- The loop over the keys of an object, and whether it was cut short. -/
def visitEntries (visitor : Value P → Visit → Tree P × Visit) :
    List (String × Property P) → Visit → List (String × Tree P) × Bool × Visit
  | [], s => ([], false, s)
  | (key, property) :: rest, s =>
    if s.remaining = 0 then ([], true, s)
    else
      let safe := visitEntry lower visitor key property { s with remaining := s.remaining - 1 }
      let others := visitEntries visitor rest safe.2
      ((key, safe.1) :: others.1, others.2)

/-- `visit`, with the levels that are left above `MAX_REDACTION_DEPTH`. -/
def visit (heap : Heap P) : ℕ → Value P → Visit → Tree P × Visit
  | _, .text value, s => (.text (redactText canaries value), s)
  | _, .prim value, s => (.prim value, s)
  | 0, .ref _, s => (.text "[REDACTED:depth]", s)
  | levels + 1, .ref address, s =>
    if address ∈ s.seen then (.text "[REDACTED:cycle]", s)
    else
      let s := { s with seen := address :: s.seen }
      match heap address with
      | .error name message cause =>
        let cause := visit heap levels cause s
        (.error name (redactText canaries message) cause.1, cause.2)
      | .container isArray entries =>
        let output := visitEntries lower (visit heap levels) entries s
        let copied := copyEntries isArray output.1
        (.container isArray (if output.2.1 then truncate isArray copied else copied), output.2.2)

def redactValue (heap : Heap P) (value : Value P) : Tree P :=
  (visit canaries lower heap maxRedactionDepth value {}).1

end

/-! ## Size and depth -/

mutual

/-- How many entries the containers of a tree have. -/
def Tree.entries : Tree P → ℕ
  | .text _ => 0
  | .prim _ => 0
  | .error _ _ cause => cause.entries
  | .container _ entries => entriesOf entries

def entriesOf : List (String × Tree P) → ℕ
  | [] => 0
  | (_, tree) :: entries => 1 + tree.entries + entriesOf entries

end

mutual

/-- How many objects stand on the longest way down. -/
def Tree.depth : Tree P → ℕ
  | .text _ => 0
  | .prim _ => 0
  | .error _ _ cause => 1 + cause.depth
  | .container _ entries => 1 + depthOf entries

def depthOf : List (String × Tree P) → ℕ
  | [] => 0
  | (_, tree) :: entries => max tree.depth (depthOf entries)

end

@[simp] theorem entries_text (value : String) : (Tree.text value : Tree P).entries = 0 := by
  simp [Tree.entries]

@[simp] theorem depth_text (value : String) : (Tree.text value : Tree P).depth = 0 := by
  simp [Tree.depth]

@[simp] theorem entriesOf_nil : entriesOf ([] : List (String × Tree P)) = 0 := by
  simp [entriesOf]

@[simp] theorem depthOf_nil : depthOf ([] : List (String × Tree P)) = 0 := by
  simp [depthOf]

@[simp] theorem entriesOf_cons (key : String) (tree : Tree P) (entries : List (String × Tree P)) :
    entriesOf ((key, tree) :: entries) = 1 + tree.entries + entriesOf entries := by
  simp [entriesOf]

@[simp] theorem depthOf_cons (key : String) (tree : Tree P) (entries : List (String × Tree P)) :
    depthOf ((key, tree) :: entries) = max tree.depth (depthOf entries) := by
  simp [depthOf]

theorem entriesOf_append (entries entries' : List (String × Tree P)) :
    entriesOf (entries ++ entries') = entriesOf entries + entriesOf entries' := by
  induction entries with
  | nil => rw [List.nil_append, entriesOf_nil, Nat.zero_add]
  | cons entry entries ih =>
    rw [List.cons_append, entriesOf_cons, entriesOf_cons, ih]
    omega

theorem depthOf_append (entries entries' : List (String × Tree P)) :
    depthOf (entries ++ entries') = max (depthOf entries) (depthOf entries') := by
  induction entries with
  | nil => rw [List.nil_append, depthOf_nil, Nat.zero_max]
  | cons entry entries ih => rw [List.cons_append, depthOf_cons, depthOf_cons, ih, max_assoc]

/-- Copying the entries drops keys only. -/
theorem copyEntries_same (isArray : Bool) (entries : List (String × Tree P)) :
    entriesOf (copyEntries isArray entries) = entriesOf entries ∧
      depthOf (copyEntries isArray entries) = depthOf entries := by
  unfold copyEntries
  split_ifs
  · induction entries with
    | nil => exact ⟨rfl, rfl⟩
    | cons entry entries ih =>
      rw [List.map_cons, entriesOf_cons, depthOf_cons, entriesOf_cons, depthOf_cons, ih.1, ih.2]
      exact ⟨rfl, rfl⟩
  · exact ⟨rfl, rfl⟩

theorem putEntry_le (key value : String) (entries : List (String × Tree P)) :
    entriesOf (putEntry key (.text value) entries) ≤ entriesOf entries + 1 ∧
      depthOf (putEntry key (.text value) entries) ≤ depthOf entries := by
  induction entries with
  | nil => simp [putEntry]
  | cons entry entries ih =>
    obtain ⟨key', tree⟩ := entry
    unfold putEntry
    split_ifs
    · rw [entriesOf_cons, depthOf_cons, entriesOf_cons, depthOf_cons, entries_text, depth_text]
      omega
    · rw [entriesOf_cons, depthOf_cons, entriesOf_cons, depthOf_cons]
      omega

/-- The marker is one more entry, and no object. -/
theorem truncate_le (isArray : Bool) (entries : List (String × Tree P)) :
    entriesOf (truncate isArray entries) ≤ entriesOf entries + 1 ∧
      depthOf (truncate isArray entries) ≤ depthOf entries := by
  unfold truncate
  split_ifs
  · rw [entriesOf_append, depthOf_append]
    simp
  · exact putEntry_le _ _ _

section

variable {canaries : List String} {lower : String → String}

/-- What a visit with so many levels leaves: every entry was counted, except for a marker on each
level when the count ran out. -/
structure Bounded (levels : ℕ) (s s' : Visit) (entries depth : ℕ) : Prop where
  remaining : s'.remaining ≤ s.remaining
  entries : entries + s'.remaining ≤ s.remaining + if s'.remaining = 0 then levels else 0
  depth : depth ≤ levels

theorem bounded_text (levels : ℕ) (s : Visit) (text : String) :
    Bounded levels s s (Tree.text text : Tree P).entries (Tree.text text : Tree P).depth := by
  refine ⟨le_rfl, ?_, ?_⟩
  · rw [entries_text]
    omega
  · rw [depth_text]
    exact Nat.zero_le _

/-- The value of one key is within the levels when its visit is. -/
theorem bounded_entry {levels : ℕ} {visitor : Value P → Visit → Tree P × Visit}
    (hvisitor : ∀ value s, Bounded levels s (visitor value s).2 (visitor value s).1.entries
      (visitor value s).1.depth) (key : String) (property : Property P) (s : Visit) :
    let r := visitEntry lower visitor key property s
    Bounded levels s r.2 r.1.entries r.1.depth := by
  unfold visitEntry
  split_ifs
  · exact bounded_text levels s _
  · cases property with
    | data value => exact hvisitor value s
    | accessor => exact hvisitor _ s

/-- The loop over the keys, when each value is visited within the levels. -/
theorem bounded_visitEntries {levels : ℕ} {visitor : Value P → Visit → Tree P × Visit}
    (hvisitor : ∀ value s, Bounded levels s (visitor value s).2 (visitor value s).1.entries
      (visitor value s).1.depth) (entries : List (String × Property P)) (s : Visit) :
    let r := visitEntries lower visitor entries s
    Bounded levels s r.2.2 (entriesOf r.1) (depthOf r.1) ∧
      (r.2.1 = true → r.2.2.remaining = 0) ∧
      (s.remaining = 0 → r.1 = [] ∧ r.2.2.remaining = 0) := by
  have hnone : Bounded levels s s (entriesOf ([] : List (String × Tree P)))
      (depthOf ([] : List (String × Tree P))) := by
    refine ⟨le_rfl, ?_, by simp⟩
    rw [entriesOf_nil]
    omega
  induction entries generalizing s with
  | nil =>
    refine ⟨hnone, ?_, fun h => ⟨rfl, h⟩⟩
    intro h
    cases h
  | cons entry entries ih =>
    obtain ⟨key, property⟩ := entry
    unfold visitEntries
    by_cases hzero : s.remaining = 0
    · rw [if_pos hzero]
      exact ⟨hnone, fun _ => hzero, fun _ => ⟨rfl, hzero⟩⟩
    · rw [if_neg hzero]
      have hone := @bounded_entry P lower levels visitor hvisitor key property
        { s with remaining := s.remaining - 1 }
      dsimp only at hone ⊢
      generalize visitEntry lower visitor key property
        { s with remaining := s.remaining - 1 } = safe at hone ⊢
      obtain ⟨hrest, htruncated, hempty⟩ := ih safe.2 (by
        refine ⟨le_rfl, ?_, by simp⟩
        rw [entriesOf_nil]
        omega)
      generalize visitEntries lower visitor entries safe.2 = others at hrest htruncated hempty ⊢
      have h₁ := hone.entries
      have h₂ := hrest.entries
      have hle₁ := hone.remaining
      have hle₂ := hrest.remaining
      dsimp only at h₁ hle₁
      refine ⟨⟨by omega, ?_, ?_⟩, htruncated, fun h => absurd h hzero⟩
      · rw [entriesOf_cons]
        by_cases hlast : safe.2.remaining = 0
        · -- The count ran out within this value, so nothing follows it.
          obtain ⟨hnil, hend⟩ := hempty hlast
          rw [hnil, entriesOf_nil, hend, if_pos rfl]
          rw [hlast, if_pos rfl] at h₁
          omega
        · rw [if_neg hlast] at h₁
          omega
      · rw [depthOf_cons]
        exact max_le hone.depth hrest.depth

theorem bounded_visit (heap : Heap P) (levels : ℕ) (value : Value P) (s : Visit) :
    let r := visit canaries lower heap levels value s
    Bounded levels s r.2 r.1.entries r.1.depth := by
  have hprim : ∀ (levels : ℕ) (s : Visit) (value : P), Bounded levels s s
      (Tree.prim value).entries (Tree.prim value).depth := by
    intro levels s value
    refine ⟨le_rfl, ?_, by simp [Tree.depth]⟩
    simp [Tree.entries]
  induction levels generalizing value s with
  | zero =>
    cases value with
    | text value => exact bounded_text 0 s _
    | prim value => exact hprim 0 s value
    | ref address => exact bounded_text 0 s _
  | succ levels ih =>
    cases value with
    | text value => exact bounded_text _ s _
    | prim value => exact hprim _ s value
    | ref address =>
      unfold visit
      split_ifs
      · exact bounded_text _ s _
      · cases heap address with
        | error name message cause =>
          have h := ih cause { s with seen := address :: s.seen }
          refine ⟨h.remaining, ?_, ?_⟩
          · have hentries := h.entries
            show (Tree.error name _ _).entries + _ ≤ _
            unfold Tree.entries
            dsimp only at hentries ⊢
            split_ifs at hentries ⊢ <;> omega
          · have hdepth := h.depth
            show (Tree.error name _ _).depth ≤ _
            unfold Tree.depth
            omega
        | container isArray entries =>
          obtain ⟨h, htruncated, -⟩ := @bounded_visitEntries P lower levels _ ih entries
            { s with seen := address :: s.seen }
          dsimp only
          generalize visitEntries lower (visit canaries lower heap levels) entries
            { s with seen := address :: s.seen } = output at h htruncated ⊢
          have hcopy := copyEntries_same isArray output.1
          have hmark := truncate_le isArray (copyEntries isArray output.1)
          have hentries := h.entries
          have hdepth := h.depth
          dsimp only at hentries
          refine ⟨h.remaining, ?_, ?_⟩
          · show Tree.entries (.container isArray _) + _ ≤ _
            unfold Tree.entries
            by_cases hcut : output.2.1 = true
            · -- The marker is the entry of this level.
              rw [if_pos hcut, htruncated hcut, if_pos rfl]
              rw [htruncated hcut, if_pos rfl] at hentries
              omega
            · rw [if_neg hcut, hcopy.1]
              split_ifs at hentries ⊢ <;> omega
          · show Tree.depth (.container isArray _) ≤ _
            unfold Tree.depth
            by_cases hcut : output.2.1 = true
            · rw [if_pos hcut]
              omega
            · rw [if_neg hcut, hcopy.2]
              omega

/-- **The copy is small.**  Whatever the graph, its copy has at most `MAX_REDACTION_ENTRIES` entries
and one marker for each level, and is no deeper than `MAX_REDACTION_DEPTH`. -/
theorem redactValue_bounded (canaries : List String) (lower : String → String) (heap : Heap P)
    (value : Value P) :
    (redactValue canaries lower heap value).entries ≤ maxRedactionEntries + maxRedactionDepth ∧
      (redactValue canaries lower heap value).depth ≤ maxRedactionDepth := by
  have h := @bounded_visit P canaries lower heap maxRedactionDepth value {}
  refine ⟨?_, h.depth⟩
  have hentries := h.entries
  unfold redactValue
  dsimp only at hentries
  split_ifs at hentries <;> omega

end

/-! ## Sensitive keys -/

section

variable {canaries : List String} {lower : String → String}

/-- The entry without what stands under a sensitive key. -/
def maskEntry (entry : String × Property P) : String × Property P :=
  if isSensitiveKey entry.1 then (entry.1, .accessor) else entry

def Obj.mask : Obj P → Obj P
  | .error name message cause => .error name message cause
  | .container isArray entries => .container isArray (entries.map maskEntry)

theorem visitEntry_mask (visitor : Value P → Visit → Tree P × Visit)
    (entry : String × Property P) (s : Visit) :
    visitEntry lower visitor (maskEntry entry).1 (maskEntry entry).2 s =
      visitEntry lower visitor entry.1 entry.2 s := by
  unfold maskEntry
  by_cases hkey : isSensitiveKey entry.1 = true
  · rw [if_pos hkey]
    unfold visitEntry
    rw [if_pos hkey, if_pos hkey]
  · rw [if_neg hkey]

theorem maskEntry_key (entry : String × Property P) : (maskEntry entry).1 = entry.1 := by
  unfold maskEntry
  split_ifs <;> rfl

theorem visitEntries_mask (visitor : Value P → Visit → Tree P × Visit)
    (entries : List (String × Property P)) (s : Visit) :
    visitEntries lower visitor (entries.map maskEntry) s =
      visitEntries lower visitor entries s := by
  induction entries generalizing s with
  | nil => rfl
  | cons entry entries ih =>
    rw [List.map_cons]
    unfold visitEntries
    dsimp only
    rw [visitEntry_mask, maskEntry_key]
    by_cases hzero : s.remaining = 0
    · rw [if_pos hzero, if_pos hzero]
    · rw [if_neg hzero, if_neg hzero, ih]

theorem visit_mask (heap : Heap P) (levels : ℕ) :
    visit canaries lower (fun address => (heap address).mask) levels =
      visit canaries lower heap levels := by
  induction levels with
  | zero =>
    funext value s
    cases value <;> rfl
  | succ levels ih =>
    funext value s
    cases value with
    | text value => rfl
    | prim value => rfl
    | ref address =>
      unfold visit
      rw [ih]
      split_ifs
      · rfl
      · cases heap address with
        | error name message cause => rfl
        | container isArray entries =>
          rw [show (Obj.container isArray entries).mask =
            .container isArray (entries.map maskEntry) from rfl]
          dsimp only
          rw [visitEntries_mask]

/-- **Nothing under a sensitive key gets out.**  Two graphs that differ only in what stands under
sensitive keys have the same copy. -/
theorem redactValue_sensitive {heap heap' : Heap P}
    (h : ∀ address, (heap address).mask = (heap' address).mask) (value : Value P) :
    redactValue canaries lower heap value = redactValue canaries lower heap' value := by
  unfold redactValue
  rw [← visit_mask heap, ← visit_mask heap', funext h]

end

/-- A session with an access key. -/
def sampleHeap (accessKey : String) : Heap ℕ := fun _ =>
  .container false [("Access-Key", .data (.text accessKey)), ("attempt", .data (.prim 1))]

theorem redactValue_sensitive_sample :
    redactValue [] id (sampleHeap "first") (.ref 0) =
      redactValue [] id (sampleHeap "second") (.ref 0) := by
  have hkey : isSensitiveKey "Access-Key" = true := by decide +kernel
  refine redactValue_sensitive (fun _ => ?_) _
  simp only [sampleHeap, Obj.mask, List.map_cons, maskEntry, hkey, if_true]

/-! ## Trees within the bounds -/

section

variable (canaries : List String) (lower : String → String)

mutual

/-- The copy of a tree, field by field. -/
def redactTree : Tree P → Tree P
  | .text value => .text (redactText canaries value)
  | .prim value => .prim value
  | .error name message cause => .error name (redactText canaries message) (redactTree cause)
  | .container isArray entries => .container isArray (copyEntries isArray (redactFields entries))

def redactFields : List (String × Tree P) → List (String × Tree P)
  | [] => []
  | (key, tree) :: entries =>
    (key, if isSensitiveKey key then .text (keyMarker lower key) else redactTree tree) ::
      redactFields entries

end

mutual

/-- The value is the tree, and these are the addresses of its objects. -/
def Stored (heap : Heap P) : Tree P → Value P → List ℕ → Prop
  | .text text, value, addresses => value = .text text ∧ addresses = []
  | .prim prim, value, addresses => value = .prim prim ∧ addresses = []
  | .error name message cause, value, addresses => ∃ address inner below,
      value = .ref address ∧ heap address = .error name message inner ∧
        Stored heap cause inner below ∧ addresses = address :: below
  | .container isArray entries, value, addresses => ∃ address inner below,
      value = .ref address ∧ heap address = .container isArray inner ∧
        StoredFields heap entries inner below ∧ addresses = address :: below

def StoredFields (heap : Heap P) :
    List (String × Tree P) → List (String × Property P) → List ℕ → Prop
  | [], properties, addresses => properties = [] ∧ addresses = []
  | (key, tree) :: entries, properties, addresses => ∃ value rest first others,
      properties = (key, .data value) :: rest ∧ Stored heap tree value first ∧
        StoredFields heap entries rest others ∧ addresses = first ++ others

end

end

section

variable {canaries : List String} {lower : String → String}

/-- A visit that copied a tree counted its entries and met only its objects. -/
structure Copied (s s' : Visit) (entries : ℕ) (addresses : List ℕ) : Prop where
  remaining : s'.remaining = s.remaining - entries
  seen : ∀ a ∈ s'.seen, a ∈ s.seen ∨ a ∈ addresses

theorem Copied.refl (s : Visit) (entries : ℕ) (h : entries = 0) : Copied s s entries [] :=
  ⟨by omega, fun _ ha => Or.inl ha⟩

theorem visitEntry_plain {visitor : Value P → Visit → Tree P × Visit} {key : String}
    (h : isSensitiveKey key = false) (value : Value P) (s : Visit) :
    visitEntry lower visitor key (.data value) s = visitor value s := by
  unfold visitEntry
  rw [if_neg (by simp [h])]

mutual

theorem visit_stored {heap : Heap P} (tree : Tree P) {value : Value P} {addresses : List ℕ}
    (h : Stored heap tree value addresses) (levels : ℕ) (s : Visit) (hnodup : addresses.Nodup)
    (hfresh : ∀ a ∈ addresses, a ∉ s.seen)
    (hdepth : (redactTree canaries lower tree).depth ≤ levels)
    (hentries : (redactTree canaries lower tree).entries ≤ s.remaining) :
    (visit canaries lower heap levels value s).1 = redactTree canaries lower tree ∧
      Copied s (visit canaries lower heap levels value s).2
        (redactTree canaries lower tree).entries addresses :=
  match tree, h with
  | .text text, h => by
    unfold Stored at h
    obtain ⟨rfl, rfl⟩ := h
    simp only [visit, redactTree, true_and]
    exact .refl s _ (entries_text _)
  | .prim prim, h => by
    unfold Stored at h
    obtain ⟨rfl, rfl⟩ := h
    simp only [visit, redactTree, true_and]
    exact .refl s _ (by simp [Tree.entries])
  | .error name message cause, h => by
    unfold Stored at h
    obtain ⟨address, inner, below, rfl, hheap, hcause, rfl⟩ := h
    obtain ⟨hnew, hbelow⟩ := List.nodup_cons.1 hnodup
    rw [List.forall_mem_cons] at hfresh
    unfold redactTree Tree.depth at hdepth
    unfold redactTree Tree.entries at hentries
    cases levels with
    | zero => omega
    | succ levels =>
      have hrest : ∀ a ∈ below, a ∉ address :: s.seen := by
        intro a ha hseen
        rcases List.mem_cons.1 hseen with rfl | hseen
        · exact hnew ha
        · exact hfresh.2 a ha hseen
      have ih := visit_stored cause hcause levels { s with seen := address :: s.seen } hbelow hrest
        (by omega) hentries
      unfold visit
      rw [if_neg hfresh.1, hheap]
      dsimp only
      unfold redactTree Tree.entries
      refine ⟨by rw [ih.1], ih.2.remaining, fun a ha => ?_⟩
      rcases ih.2.seen a ha with hseen | hbelow
      · rcases List.mem_cons.1 hseen with rfl | hseen
        · exact Or.inr List.mem_cons_self
        · exact Or.inl hseen
      · exact Or.inr (List.mem_cons_of_mem _ hbelow)
  | .container isArray entries, h => by
    unfold Stored at h
    obtain ⟨address, inner, below, rfl, hheap, hfields, rfl⟩ := h
    obtain ⟨hnew, hbelow⟩ := List.nodup_cons.1 hnodup
    rw [List.forall_mem_cons] at hfresh
    unfold redactTree Tree.depth at hdepth
    unfold redactTree Tree.entries at hentries
    rw [(copyEntries_same _ _).2] at hdepth
    rw [(copyEntries_same _ _).1] at hentries
    cases levels with
    | zero => omega
    | succ levels =>
      have hrest : ∀ a ∈ below, a ∉ address :: s.seen := by
        intro a ha hseen
        rcases List.mem_cons.1 hseen with rfl | hseen
        · exact hnew ha
        · exact hfresh.2 a ha hseen
      have ih := visitEntries_stored entries hfields levels
        { s with seen := address :: s.seen } hbelow hrest (by omega) hentries
      unfold visit
      rw [if_neg hfresh.1, hheap]
      dsimp only
      unfold redactTree Tree.entries
      rw [(copyEntries_same _ _).1]
      refine ⟨by rw [ih.2.1, ih.1, if_neg Bool.false_ne_true], ih.2.2.remaining, fun a ha => ?_⟩
      rcases ih.2.2.seen a ha with hseen | hbelow
      · rcases List.mem_cons.1 hseen with rfl | hseen
        · exact Or.inr List.mem_cons_self
        · exact Or.inl hseen
      · exact Or.inr (List.mem_cons_of_mem _ hbelow)

theorem visitEntries_stored {heap : Heap P} (entries : List (String × Tree P))
    {properties : List (String × Property P)} {addresses : List ℕ}
    (h : StoredFields heap entries properties addresses) (levels : ℕ) (s : Visit)
    (hnodup : addresses.Nodup) (hfresh : ∀ a ∈ addresses, a ∉ s.seen)
    (hdepth : depthOf (redactFields canaries lower entries) ≤ levels)
    (hentries : entriesOf (redactFields canaries lower entries) ≤ s.remaining) :
    (visitEntries lower (visit canaries lower heap levels) properties s).1 =
        redactFields canaries lower entries ∧
      (visitEntries lower (visit canaries lower heap levels) properties s).2.1 = false ∧
      Copied s (visitEntries lower (visit canaries lower heap levels) properties s).2.2
        (entriesOf (redactFields canaries lower entries)) addresses :=
  match entries, h with
  | [], h => by
    unfold StoredFields at h
    obtain ⟨rfl, rfl⟩ := h
    simp only [visitEntries, redactFields, true_and]
    exact .refl s _ entriesOf_nil
  | (key, tree) :: entries, h => by
    unfold StoredFields at h
    obtain ⟨value, rest, first, others, rfl, htree, hfields, rfl⟩ := h
    obtain ⟨hfirst, hothers, hdisjoint⟩ := List.nodup_append.1 hnodup
    rw [List.forall_mem_append] at hfresh
    unfold redactFields at hdepth hentries ⊢
    rw [depthOf_cons] at hdepth
    rw [entriesOf_cons] at hentries ⊢
    have hpositive : ¬ s.remaining = 0 := by omega
    unfold visitEntries
    rw [if_neg hpositive]
    dsimp only
    -- The value of the key: a marker, or the copy of its tree.
    have hvalue : (visitEntry lower (visit canaries lower heap levels) key (.data value)
        { s with remaining := s.remaining - 1 }).1 =
          (if isSensitiveKey key then .text (keyMarker lower key)
            else redactTree canaries lower tree) ∧
        Copied { s with remaining := s.remaining - 1 }
          (visitEntry lower (visit canaries lower heap levels) key (.data value)
            { s with remaining := s.remaining - 1 }).2
          (if isSensitiveKey key then (.text (keyMarker lower key) : Tree P)
            else redactTree canaries lower tree).entries first := by
      by_cases hkey : isSensitiveKey key = true
      · unfold visitEntry
        rw [if_pos hkey, if_pos hkey]
        refine ⟨rfl, ?_, fun a ha => Or.inl ha⟩
        rw [entries_text]
        rfl
      · rw [if_neg hkey] at hdepth hentries ⊢
        rw [visitEntry_plain (by simpa using hkey)]
        exact visit_stored tree htree levels { s with remaining := s.remaining - 1 } hfirst hfresh.1
          (by omega) (by dsimp only; omega)
    generalize visitEntry lower (visit canaries lower heap levels) key (.data value)
      { s with remaining := s.remaining - 1 } = safe at hvalue ⊢
    obtain ⟨hsafe, hcopied⟩ := hvalue
    have hremaining := hcopied.remaining
    dsimp only at hremaining
    have hrest : ∀ a ∈ others, a ∉ safe.2.seen := by
      intro a ha hseen
      rcases hcopied.seen a hseen with hold | hnew
      · exact hfresh.2 a ha hold
      · exact hdisjoint a hnew a ha rfl
    have ih := visitEntries_stored entries hfields levels safe.2 hothers hrest (by omega)
      (by omega)
    refine ⟨by rw [hsafe, ih.1], ih.2.1, ?_, fun a ha => ?_⟩
    · rw [ih.2.2.remaining]
      omega
    · rcases ih.2.2.seen a ha with hseen | hmem
      · rcases hcopied.seen a hseen with hold | hnew
        · exact Or.inl hold
        · exact Or.inr (List.mem_append_left _ hnew)
      · exact Or.inr (List.mem_append_right _ hmem)

end

/-- **A tree within the bounds is copied field by field.**  When no two objects of it are the same, and
its redacted copy keeps to the bounds on depth and entries, `redactValue` returns that copy. -/
theorem redactValue_tree {heap : Heap P} {tree : Tree P} {value : Value P} {addresses : List ℕ}
    (h : Stored heap tree value addresses) (hnodup : addresses.Nodup)
    (hdepth : (redactTree canaries lower tree).depth ≤ maxRedactionDepth)
    (hentries : (redactTree canaries lower tree).entries ≤ maxRedactionEntries) :
    redactValue canaries lower heap value = redactTree canaries lower tree :=
  (visit_stored tree h maxRedactionDepth {} hnodup (fun _ _ => List.not_mem_nil) hdepth hentries).1

end

/-- A worker with its result, as two objects. -/
def sampleObjects : Heap ℕ := fun address =>
  if address = 0 then
    .container false [("id", .data (.text "w1")), ("token", .data (.text "t")),
      ("result", .data (.ref 1))]
  else .container true [("0", .data (.prim 7))]

def sampleTree : Tree ℕ :=
  .container false [("id", .text "w1"), ("token", .text "t"),
    ("result", .container true [("0", .prim 7)])]

theorem redactValue_tree_sample :
    redactValue [] id sampleObjects (.ref 0) = redactTree [] id sampleTree := by
  have hresult : Stored sampleObjects (.container true [("0", .prim 7)]) (.ref 1) [1] := by
    simp only [Stored, StoredFields]
    exact ⟨1, _, [], rfl, rfl, ⟨_, _, [], [], rfl, ⟨rfl, rfl⟩, ⟨rfl, rfl⟩, rfl⟩, rfl⟩
  refine @redactValue_tree ℕ [] id sampleObjects sampleTree (.ref 0) [0, 1] ?_ (by decide)
    (by decide +kernel) (by decide +kernel)
  unfold sampleTree
  simp only [Stored, StoredFields]
  refine ⟨0, _, [1], rfl, rfl, ⟨_, _, [], [1], rfl, ⟨rfl, rfl⟩, ⟨_, _, [], [1], rfl, ⟨rfl, rfl⟩,
    ⟨_, _, [1], [], rfl, ?_, ⟨rfl, rfl⟩, rfl⟩, rfl⟩, rfl⟩, rfl⟩
  simp only [Stored, StoredFields] at hresult
  exact hresult

end AgentOrchestrator.Security
