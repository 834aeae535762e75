import Mathlib.Data.List.Sort

/-!
# Entries of a mapping

A mapping as a list of entries.  Sorting the entries by their keys is stable, so a lookup finds the
same value.  Where no key occurs twice, the entries are what the lookups find, and sorted entries
are equal when they are a permutation of each other.
-/

namespace Entries

variable {κ α : Type*}

/-- Two entries with their keys in order. -/
def KeyLe (r : κ → κ → Prop) (a b : κ × α) : Prop := r a.1 b.1

instance (r : κ → κ → Prop) [DecidableRel r] : DecidableRel (KeyLe r (α := α)) := fun a b =>
  inferInstanceAs (Decidable (r a.1 b.1))

instance (r : κ → κ → Prop) [Std.Total r] : Std.Total (KeyLe r (α := α)) :=
  ⟨fun a b => Std.Total.total (r := r) a.1 b.1⟩

instance (r : κ → κ → Prop) [IsTrans κ r] : IsTrans (κ × α) (KeyLe r) :=
  ⟨fun a b c hab hbc => IsTrans.trans (r := r) a.1 b.1 c.1 hab hbc⟩

variable [BEq κ] [LawfulBEq κ] (r : κ → κ → Prop) [DecidableRel r]

theorem lookup_orderedInsert [Std.Refl r] (key : κ) (value : α) (k : κ) (entries : List (κ × α)) :
    (entries.orderedInsert (KeyLe r) (key, value)).lookup k =
      ((key, value) :: entries).lookup k := by
  induction entries with
  | nil => rfl
  | cons entry entries ih =>
    obtain ⟨key', value'⟩ := entry
    by_cases hle : KeyLe r (key, value) (key', value')
    · rw [List.orderedInsert_cons_of_le _ entries hle]
    · rw [List.orderedInsert_of_not_le _ entries hle]
      have hne : key ≠ key' := fun heq => hle (heq ▸ Std.Refl.refl key)
      rw [List.lookup_cons, ih, List.lookup_cons, List.lookup_cons, List.lookup_cons]
      by_cases hk : k = key
      · subst hk
        simp only [beq_false_of_ne hne, BEq.rfl]
      · simp only [beq_false_of_ne hk]

theorem lookup_insertionSort [Std.Refl r] (k : κ) (entries : List (κ × α)) :
    (entries.insertionSort (KeyLe r)).lookup k = entries.lookup k := by
  induction entries with
  | nil => rfl
  | cons entry entries ih =>
    rw [List.insertionSort_cons, lookup_orderedInsert, List.lookup_cons, List.lookup_cons, ih]

/-! ## Distinct keys -/

theorem lookup_of_mem {entries : List (κ × α)} (h : (entries.map Prod.fst).Nodup) {entry : κ × α}
    (hentry : entry ∈ entries) : entries.lookup entry.1 = some entry.2 := by
  induction entries with
  | nil => cases hentry
  | cons first entries ih =>
    rw [List.map_cons, List.nodup_cons] at h
    rw [List.lookup_cons]
    rcases List.mem_cons.1 hentry with rfl | hentry
    · rw [BEq.rfl]
    · have hne : entry.1 ≠ first.1 := fun heq => h.1 (heq ▸ List.mem_map_of_mem hentry)
      rw [beq_false_of_ne hne]
      exact ih h.2 hentry

theorem mem_of_lookup {entries : List (κ × α)} {key : κ} {value : α}
    (h : entries.lookup key = some value) : (key, value) ∈ entries := by
  obtain ⟨l₁, l₂, rfl, -⟩ := List.lookup_eq_some_iff.1 h
  exact List.mem_append_right l₁ List.mem_cons_self

/-- Entries found under their keys in a list that is no longer are the entries of that list. -/
theorem perm_of_lookup {a b : List (κ × α)} (ha : (a.map Prod.fst).Nodup)
    (hlength : b.length ≤ a.length) (h : ∀ entry ∈ a, b.lookup entry.1 = some entry.2) :
    a.Perm b :=
  (List.subperm_of_subset ha.of_map fun entry hentry => mem_of_lookup (h entry hentry)).perm_of_length_le
    hlength

omit [BEq κ] [LawfulBEq κ] [DecidableRel r] in
theorem eq_of_perm [Std.Antisymm r] {a b : List (κ × α)} (ha : (a.map Prod.fst).Nodup)
    (hperm : a.Perm b) (hsorted : a.Pairwise (KeyLe r)) (hsorted' : b.Pairwise (KeyLe r)) :
    a = b := by
  refine hperm.eq_of_pairwise (fun x y hx hy hle hge => ?_) hsorted hsorted'
  have hkey : x.1 = y.1 := Std.Antisymm.antisymm x.1 y.1 hle hge
  exact List.inj_on_of_nodup_map ha hx (hperm.mem_iff.2 hy) hkey

end Entries
