import AgentOrchestrator.Library.PostOrder
import Mathlib.Data.Finset.Max
import Mathlib.Data.List.Dedup

/-!
# Layers of a graph

A list of elements is taken apart in layers: `pick` says which of the remaining elements form the
next layer.  Where it takes only elements without a remaining successor, and at least one while any
is left, every element lands in exactly one layer, after the layers of all its successors.  A list
in post-order shows that such an element is always left.
-/

namespace Layers

open PostOrder

variable {α : Type*} [DecidableEq α] {next : α → List α} {pick : List α → List α}

/-- Takes one layer after the other away from the list. -/
def layers (pick : List α → List α) : ℕ → List α → Option (List (List α))
  | _, [] => some []
  | 0, _ :: _ => none
  | fuel + 1, a :: l =>
    (layers pick fuel ((a :: l).filter (· ∉ pick (a :: l)))).map (pick (a :: l) :: ·)

/-- The next layer: remaining elements without a remaining successor, one at least. -/
structure Picks (next : α → List α) (pick : List α → List α) (all : List α) : Prop where
  subset : ∀ l, pick l ⊆ l
  nodup : ∀ l, (pick l).Nodup
  ready : ∀ l, ∀ a ∈ pick l, ∀ b ∈ next a, b ∉ l
  progress : ∀ l, l ⊆ all → l ≠ [] → pick l ≠ []

/-- Fewer elements are left after a layer. -/
theorem Picks.length_lt {all l : List α} (h : Picks next pick all) (hall : l ⊆ all)
    (hl : l ≠ []) : (l.filter (· ∉ pick l)).length < l.length := by
  obtain ⟨a, ha⟩ := List.exists_mem_of_ne_nil _ (h.progress l hall hl)
  refine List.length_filter_lt_length_iff_exists.2 ⟨a, h.subset l ha, ?_⟩
  simpa using ha

/-- As many rounds as there are elements are enough. -/
theorem Picks.exists_layers {all : List α} (h : Picks next pick all) :
    ∀ (fuel : ℕ) (l : List α), l ⊆ all → l.length ≤ fuel →
      ∃ ls, layers pick fuel l = some ls
  | fuel, [], _, _ => by
    cases fuel <;> exact ⟨[], rfl⟩
  | 0, _ :: _, _, hfuel => by simp at hfuel
  | fuel + 1, a :: l, hall, hfuel => by
    have hlt := h.length_lt hall (List.cons_ne_nil a l)
    obtain ⟨ls, hls⟩ := h.exists_layers fuel ((a :: l).filter (· ∉ pick (a :: l)))
      (fun b hb => hall (List.mem_of_mem_filter hb)) (by omega)
    refine ⟨pick (a :: l) :: ls, ?_⟩
    rw [layers, hls]
    rfl

/-- Each layer is picked from what the layers before it have left. -/
theorem layer_eq_pick {fuel : ℕ} {l : List α} {ls : List (List α)}
    (hls : layers pick fuel l = some ls) {l₁ : List (List α)} {layer : List α}
    {l₂ : List (List α)} (hsplit : ls = l₁ ++ layer :: l₂) :
    l.filter (· ∉ l₁.flatten) ≠ [] ∧ layer = pick (l.filter (· ∉ l₁.flatten)) := by
  induction fuel generalizing l ls l₁ with
  | zero =>
    cases l with
    | nil =>
      cases hls
      simp at hsplit
    | cons a l => cases hls
  | succ fuel ih =>
    cases l with
    | nil =>
      cases hls
      simp at hsplit
    | cons a l =>
      rw [layers] at hls
      obtain ⟨ls', hls', rfl⟩ := Option.map_eq_some_iff.1 hls
      cases l₁ with
      | nil =>
        obtain ⟨rfl, -⟩ := List.cons.inj hsplit
        simp
      | cons first l₁ =>
        obtain ⟨rfl, htail⟩ := List.cons.inj hsplit
        have hleft : (a :: l).filter (· ∉ (pick (a :: l) :: l₁).flatten) =
            ((a :: l).filter (· ∉ pick (a :: l))).filter (· ∉ l₁.flatten) := by
          rw [List.filter_filter]
          apply List.filter_congr
          intro b _
          simp only [List.flatten_cons, List.mem_append, not_or, Bool.decide_and, Bool.and_comm]
        rw [hleft]
        exact ih hls' htail

/-- Every element lands in exactly one layer. -/
theorem Picks.perm {all : List α} (h : Picks next pick all) {fuel : ℕ} {l : List α}
    {ls : List (List α)} (hnodup : l.Nodup) (hls : layers pick fuel l = some ls) :
    ls.flatten.Perm l := by
  induction fuel generalizing l ls with
  | zero =>
    cases l with
    | nil =>
      cases hls
      exact List.Perm.refl _
    | cons a l => cases hls
  | succ fuel ih =>
    cases l with
    | nil =>
      cases hls
      exact List.Perm.refl _
    | cons a l =>
      rw [layers] at hls
      obtain ⟨ls', hls', rfl⟩ := Option.map_eq_some_iff.1 hls
      have hrest := ih (hnodup.filter _) hls'
      have hpicked : (pick (a :: l)).Perm ((a :: l).filter (· ∈ pick (a :: l))) := by
        refine (List.perm_ext_iff_of_nodup (h.nodup _) (hnodup.filter _)).2 ?_
        intro b
        rw [List.mem_filter, decide_eq_true_eq]
        exact ⟨fun hb => ⟨h.subset _ hb, hb⟩, fun hb => hb.2⟩
      rw [List.flatten_cons]
      refine (hpicked.append hrest).trans ?_
      have hsplit := List.filter_append_perm (fun b => decide (b ∈ pick (a :: l))) (a :: l)
      simpa using hsplit

/-- The successors of an element are in the layers before its own. -/
theorem Picks.earlier {all : List α} (h : Picks next pick all) {fuel : ℕ} {l : List α}
    {ls : List (List α)} (hls : layers pick fuel l = some ls) {l₁ : List (List α)}
    {layer : List α} {l₂ : List (List α)} (hsplit : ls = l₁ ++ layer :: l₂) {a b : α}
    (ha : a ∈ layer) (hb : b ∈ next a) (hmem : b ∈ l) : b ∈ l₁.flatten := by
  have hlayer := (layer_eq_pick hls hsplit).2
  rw [hlayer] at ha
  have hgone := h.ready _ a ha b hb
  by_contra hleft
  exact hgone (List.mem_filter.2 ⟨hmem, by simpa using hleft⟩)

end Layers

namespace PostOrder

variable {α : Type*} {next : α → List α}

theorem Sorted.append {l m : List α} (h : Sorted next l) (hm : ∀ a ∈ m, ∀ b ∈ next a, b ∈ l) :
    Sorted next (l ++ m) := by
  induction m generalizing l with
  | nil =>
    rw [List.append_nil]
    exact h
  | cons a m ih =>
    have hcons : l ++ a :: m = (l ++ [a]) ++ m := by simp
    rw [hcons]
    refine ih (h.snoc (hm a List.mem_cons_self)) ?_
    intro c hc b hb
    exact List.mem_append_left _ (hm c (List.mem_cons_of_mem a hc) b hb)

/-- Layers that come after the successors of their elements are in post-order. -/
theorem sorted_flatten {ls : List (List α)}
    (h : ∀ l₁ layer l₂, ls = l₁ ++ layer :: l₂ → ∀ a ∈ layer, ∀ b ∈ next a, b ∈ l₁.flatten) :
    Sorted next ls.flatten := by
  induction ls using List.reverseRecOn with
  | nil => exact sorted_nil
  | append_singleton ls layer ih =>
    rw [List.flatten_append, List.flatten_singleton]
    refine (ih ?_).append (h ls layer [] rfl)
    intro l₁ layer' l₂ hsplit
    exact h l₁ layer' (l₂ ++ [layer]) (by simp [hsplit])

theorem Sorted.mono {next' : α → List α} {l : List α} (h : Sorted next l)
    (hnext : ∀ a, next' a ⊆ next a) : Sorted next' l := by
  intro l₁ a l₂ hl b hb
  exact h l₁ a l₂ hl b (hnext a hb)

/-- Among elements of a list in post-order, the first one has no successor. -/
theorem Sorted.exists_ready [DecidableEq α] {s l : List α} (h : Sorted next s) (hl : l ≠ [])
    (hsub : l ⊆ s) : ∃ a ∈ l, ∀ b ∈ next a, b ∉ l := by
  obtain ⟨c, hc⟩ := List.exists_mem_of_ne_nil l hl
  obtain ⟨a, ha, hmin⟩ := l.toFinset.exists_min_image s.idxOf ⟨c, List.mem_toFinset.2 hc⟩
  rw [List.mem_toFinset] at ha
  refine ⟨a, ha, ?_⟩
  intro b hb hbl
  have hlt := (h.idxOf_lt (hsub ha) hb).2
  have hle := hmin b (List.mem_toFinset.2 hbl)
  omega

end PostOrder
