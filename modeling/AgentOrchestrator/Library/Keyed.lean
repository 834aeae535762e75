import Mathlib.Data.List.Nodup
import Mathlib.Logic.Function.Basic

/-!
# Tables: lists whose elements carry a key

A table is a list with a key function.  `lookup` is the first element with a key, `put` replaces
the elements that have the key of a given one.  When no key occurs twice (`(l.map key).Nodup`)
an element is determined by its key, so `put` changes at most one element.  A map from keys is a
function, changed at one key by `Function.update`.
-/

namespace Keyed

variable {α κ : Type*} [DecidableEq κ] (key : α → κ)

/-- The first element with key `k`. -/
def lookup (k : κ) (l : List α) : Option α := l.find? fun a => key a = k

/-- Replace the element with the key of `b` by `b`. -/
def put (b : α) (l : List α) : List α := l.map fun a => if key a = key b then b else a

variable {key}

theorem mem_of_lookup {k : κ} {l : List α} {a : α} (h : lookup key k l = some a) : a ∈ l :=
  List.mem_of_find?_eq_some h

theorem key_of_lookup {k : κ} {l : List α} {a : α} (h : lookup key k l = some a) : key a = k := by
  have := List.find?_some h
  simpa using this

theorem lookup_eq_none {k : κ} {l : List α} : lookup key k l = none ↔ ∀ a ∈ l, key a ≠ k := by
  simp [lookup]

omit [DecidableEq κ] in
theorem eq_of_key {l : List α} (hl : (l.map key).Nodup) {a b : α} (ha : a ∈ l) (hb : b ∈ l)
    (h : key a = key b) : a = b := List.inj_on_of_nodup_map hl ha hb h

theorem lookup_of_mem {l : List α} (hl : (l.map key).Nodup) {a : α} (ha : a ∈ l) :
    lookup key (key a) l = some a := by
  cases h : lookup key (key a) l with
  | none => exact absurd rfl (lookup_eq_none.1 h a ha)
  | some b => rw [eq_of_key hl (mem_of_lookup h) ha (key_of_lookup h)]

@[simp] theorem map_key_put (b : α) (l : List α) : (put key b l).map key = l.map key := by
  unfold put
  rw [List.map_map]
  refine List.map_congr_left fun a _ => ?_
  by_cases h : key a = key b <;> simp [h]

theorem mem_put {b c : α} {l : List α} (h : c ∈ put key b l) :
    c = b ∨ (c ∈ l ∧ key c ≠ key b) := by
  obtain ⟨a, ha, rfl⟩ := List.mem_map.1 h
  by_cases hk : key a = key b
  · exact Or.inl (if_pos hk)
  · rw [if_neg hk]; exact Or.inr ⟨ha, hk⟩

theorem mem_put_self {a b : α} {l : List α} (ha : a ∈ l) (h : key a = key b) : b ∈ put key b l :=
  List.mem_map.2 ⟨a, ha, if_pos h⟩

theorem mem_put_of_ne {b c : α} {l : List α} (hc : c ∈ l) (h : key c ≠ key b) :
    c ∈ put key b l := List.mem_map.2 ⟨c, hc, if_neg h⟩

theorem lookup_put_of_ne {b : α} {k : κ} (h : k ≠ key b) (l : List α) :
    lookup key k (put key b l) = lookup key k l := by
  induction l with
  | nil => rfl
  | cons a l ih =>
    unfold lookup put at *
    by_cases hab : key a = key b
    · simp only [List.map_cons, if_pos hab, List.find?_cons]
      rw [decide_eq_false (fun e => h e.symm), decide_eq_false (fun e => h (e.symm.trans hab))]
      exact ih
    · simp only [List.map_cons, if_neg hab, List.find?_cons]
      by_cases hk : key a = k
      · simp [hk]
      · simp only [decide_eq_false hk]; exact ih

theorem lookup_put_self {b : α} {l : List α} (h : ∃ a ∈ l, key a = key b) :
    lookup key (key b) (put key b l) = some b := by
  obtain ⟨a, ha, hab⟩ := h
  induction l with
  | nil => cases ha
  | cons c l ih =>
    unfold lookup put at *
    by_cases hcb : key c = key b
    · simp [hcb]
    · simp only [List.map_cons, if_neg hcb, List.find?_cons, decide_eq_false hcb]
      rcases List.mem_cons.1 ha with rfl | ha
      · exact absurd hab hcb
      · exact ih ha

/-- Of two replacements under one key the last one stands. -/
theorem put_put {b c : α} (h : key b = key c) (l : List α) :
    put key c (put key b l) = put key c l := by
  unfold put
  rw [List.map_map]
  refine List.map_congr_left fun a _ => ?_
  by_cases hab : key a = key b
  · simp [hab, h]
  · simp [hab]

theorem mem_append_singleton {b c : α} {l : List α} : c ∈ l ++ [b] ↔ c ∈ l ∨ c = b := by
  rw [List.mem_append, List.mem_singleton]

omit [DecidableEq κ] in
/-- An element with a new key may be added. -/
theorem nodup_append_singleton {l : List α} (hl : (l.map key).Nodup) {b : α}
    (hb : ∀ a ∈ l, key a ≠ key b) : ((l ++ [b]).map key).Nodup := by
  rw [List.map_append, List.nodup_append]
  refine ⟨hl, List.nodup_singleton _, ?_⟩
  simpa using hb

/-- With unique keys, an element is the only one with its key. -/
theorem filter_key {l : List α} (hl : (l.map key).Nodup) {a : α} (ha : a ∈ l) :
    l.filter (fun b => key b = key a) = [a] := by
  induction l with
  | nil => exact absurd ha List.not_mem_nil
  | cons b l ih =>
    rw [List.map_cons, List.nodup_cons] at hl
    rcases List.mem_cons.1 ha with rfl | ha
    · have hrest : l.filter (fun b => key b = key a) = [] := by
        rw [List.filter_eq_nil_iff]
        intro b hb heq
        exact hl.1 (List.mem_map.2 ⟨b, hb, by simpa using heq⟩)
      rw [List.filter_cons_of_pos (by simp), hrest]
    · have hne : key b ≠ key a := fun heq => hl.1 (List.mem_map.2 ⟨a, ha, heq.symm⟩)
      rw [List.filter_cons_of_neg (by simpa using hne), ih hl.2 ha]

omit [DecidableEq κ] in
/-- With unique keys, a predicate that no two elements share holds of at most one. -/
theorem length_filter_le_one {l : List α} (hl : (l.map key).Nodup) {p : α → Bool}
    (h : ∀ a ∈ l, ∀ b ∈ l, p a → p b → a = b) : (l.filter p).length ≤ 1 := by
  have hnodup : (l.filter p).Nodup := hl.of_map.filter p
  by_contra hlong
  obtain ⟨a, b, rest, hab⟩ : ∃ a b rest, l.filter p = a :: b :: rest := by
    match hf : l.filter p with
    | [] => rw [hf] at hlong; exact absurd (Nat.zero_le 1) hlong
    | [_] => rw [hf] at hlong; exact absurd (Nat.le_refl 1) hlong
    | a :: b :: rest => exact ⟨a, b, rest, rfl⟩
  have ha := List.mem_filter.1 (hab ▸ List.mem_cons_self : a ∈ l.filter p)
  have hb := List.mem_filter.1
    (hab ▸ List.mem_cons_of_mem a List.mem_cons_self : b ∈ l.filter p)
  obtain rfl := h a ha.1 b hb.1 ha.2 hb.2
  rw [hab] at hnodup
  exact (List.nodup_cons.1 hnodup).1 List.mem_cons_self

/-- A map after an update at one key. -/
theorem update_cases {β : Type*} {f : κ → β} {k k' : κ} {v b : β}
    (h : Function.update f k v k' = b) : k' = k ∧ v = b ∨ k' ≠ k ∧ f k' = b := by
  rw [Function.update_apply] at h
  split_ifs at h with hk
  · exact Or.inl ⟨hk, h⟩
  · exact Or.inr ⟨hk, h⟩

end Keyed
