import AgentOrchestrator.Library.Regex
import Mathlib.Data.List.Forall2
import Mathlib.Tactic.Common

/-!
# What a match consumes

The matches of a pattern as a relation between positions, to which backtracking is sound
(`exec_sound`).  A match consumes a front of what is left; from the classes of a pattern follow the
items that it consumes and those that its groups hold.  A replacement is a rewriting in which every
item is kept or belongs to a match (`replaced_replaceAll`).
-/

namespace AgentOrchestrator.Regex

variable {α : Type} [DecidableEq α]

/-- The pattern leads from one position to another. -/
inductive Matches : Regex α → Position α → Position α → Prop where
  | empty {p} : Matches .empty p p
  | one {p c a l} (hrest : p.rest = a :: l) (h : c a = true) : Matches (.one c) p (p.skip 1)
  | seq {r t p q s} (h : Matches r p q) (h' : Matches t q s) : Matches (.seq r t) p s
  | altLeft {r t p q} (h : Matches r p q) : Matches (.alt r t) p q
  | altRight {r t p q} (h : Matches t p q) : Matches (.alt r t) p q
  | starNil {greedy r p} : Matches (.star greedy r) p p
  | starCons {greedy r p q s} (h : Matches r p q) (h' : Matches (.star greedy r) q s) :
      Matches (.star greedy r) p s
  | group {n r p q} (h : Matches r p q) : Matches (.group n r) p
      { q with groups := (n, p.rest.take (p.rest.length - q.rest.length)) :: q.groups }
  | back {n p} (h : (p.groupText n).isPrefixOf p.rest = true) :
      Matches (.back n) p (p.skip (p.groupText n).length)
  | boundary {word p} (h : p.atBoundary word = true) : Matches (.boundary word) p p

theorem iterate_sound {r : Regex α} {greedy : Bool}
    (hr : ∀ {p k q}, r.exec p k = some q → ∃ s, Matches r p s ∧ k s = some q) {fuel : ℕ} :
    ∀ {p : Position α} {k : Continuation α} {q : Position α},
      iterate r.exec greedy fuel p k = some q → ∃ s, Matches (.star greedy r) p s ∧ k s = some q := by
  induction fuel with
  | zero =>
    intro p k q h
    exact ⟨p, .starNil, h⟩
  | succ fuel ih =>
    intro p k q h
    have hmore : ∀ {q}, (r.exec p fun q =>
        if q.rest.length < p.rest.length then iterate r.exec greedy fuel q k else none) = some q →
        ∃ s, Matches (.star greedy r) p s ∧ k s = some q := by
      intro q h
      obtain ⟨s, hs, h⟩ := hr h
      split_ifs at h
      obtain ⟨t, ht, hk⟩ := ih h
      exact ⟨t, .starCons hs ht, hk⟩
    rw [iterate] at h
    split_ifs at h
    · rcases Option.or_eq_some_iff.1 h with h | ⟨-, h⟩
      · exact hmore h
      · exact ⟨p, .starNil, h⟩
    · rcases Option.or_eq_some_iff.1 h with h | ⟨-, h⟩
      · exact ⟨p, .starNil, h⟩
      · exact hmore h

/-- What backtracking finds is a match. -/
theorem exec_sound (r : Regex α) : ∀ {p : Position α} {k : Continuation α} {q : Position α},
    r.exec p k = some q → ∃ s, Matches r p s ∧ k s = some q := by
  induction r with
  | empty =>
    intro p k q h
    exact ⟨p, .empty, h⟩
  | one c =>
    intro p k q h
    rw [exec] at h
    split at h
    · cases h
    · next hrest =>
      split_ifs at h with hc
      exact ⟨_, .one hrest hc, h⟩
  | seq r t ihr iht =>
    intro p k q h
    obtain ⟨s, hs, h⟩ := ihr h
    obtain ⟨u, hu, h⟩ := iht h
    exact ⟨u, .seq hs hu, h⟩
  | alt r t ihr iht =>
    intro p k q h
    rcases Option.or_eq_some_iff.1 h with h | ⟨-, h⟩
    · obtain ⟨s, hs, h⟩ := ihr h
      exact ⟨s, .altLeft hs, h⟩
    · obtain ⟨s, hs, h⟩ := iht h
      exact ⟨s, .altRight hs, h⟩
  | star greedy r ih =>
    intro p k q h
    exact iterate_sound (fun h => ih h) h
  | group n r ih =>
    intro p k q h
    obtain ⟨s, hs, h⟩ := ih h
    exact ⟨_, .group hs, h⟩
  | back n =>
    intro p k q h
    rw [exec] at h
    split_ifs at h with hback
    exact ⟨_, .back hback, h⟩
  | boundary word =>
    intro p k q h
    rw [exec] at h
    split_ifs at h with hword
    exact ⟨p, .boundary hword, h⟩

/-! ## The items consumed -/

/-- The second position follows after the items. -/
structure Consumes (p : Position α) (m : List α) (q : Position α) : Prop where
  rest : p.rest = m ++ q.rest
  before : q.before = m.getLast?.or p.before

omit [DecidableEq α] in
theorem Consumes.refl (p : Position α) : Consumes p [] p := ⟨rfl, rfl⟩

omit [DecidableEq α] in
theorem Consumes.trans {p q s : Position α} {m n : List α} (h : Consumes p m q)
    (h' : Consumes q n s) : Consumes p (m ++ n) s := by
  refine ⟨?_, ?_⟩
  · rw [h.rest, h'.rest, List.append_assoc]
  · rw [h'.before, h.before, List.getLast?_append, Option.or_assoc]

omit [DecidableEq α] in
theorem consumes_skip (p : Position α) (n : ℕ) : Consumes p (p.rest.take n) (p.skip n) :=
  ⟨(List.take_append_drop n p.rest).symm, rfl⟩

theorem Matches.consumes {r : Regex α} {p q : Position α} (h : Matches r p q) :
    ∃ m, Consumes p m q := by
  induction h with
  | empty => exact ⟨[], .refl _⟩
  | one => exact ⟨_, consumes_skip _ 1⟩
  | seq _ _ ih ih' =>
    obtain ⟨m, hm⟩ := ih
    obtain ⟨n, hn⟩ := ih'
    exact ⟨m ++ n, hm.trans hn⟩
  | altLeft _ ih => exact ih
  | altRight _ ih => exact ih
  | starNil => exact ⟨[], .refl _⟩
  | starCons _ _ ih ih' =>
    obtain ⟨m, hm⟩ := ih
    obtain ⟨n, hn⟩ := ih'
    exact ⟨m ++ n, hm.trans hn⟩
  | group _ ih =>
    obtain ⟨m, hm⟩ := ih
    exact ⟨m, hm.rest, hm.before⟩
  | back => exact ⟨_, consumes_skip _ _⟩
  | boundary => exact ⟨[], .refl _⟩

omit [DecidableEq α] in
theorem Consumes.unique {p q : Position α} {m n : List α} (h : Consumes p m q)
    (h' : Consumes p n q) : m = n :=
  List.append_cancel_right (h.rest.symm.trans h'.rest)

/-- Every item that the pattern may consume is in the class. -/
def Within (C : α → Prop) : Regex α → Prop
  | .empty => True
  | .one c => ∀ a, c a = true → C a
  | .seq r t => Within C r ∧ Within C t
  | .alt r t => Within C r ∧ Within C t
  | .star _ r => Within C r
  | .group _ r => Within C r
  | .back _ => False
  | .boundary _ => True

theorem Matches.within {C : α → Prop} {r : Regex α} {p q : Position α} (h : Matches r p q)
    (hr : Within C r) : ∃ m, Consumes p m q ∧ ∀ a ∈ m, C a := by
  induction h with
  | empty => exact ⟨[], .refl _, by simp⟩
  | one hrest h =>
    refine ⟨_, consumes_skip _ 1, ?_⟩
    intro b hb
    rw [hrest, List.take_succ_cons, List.take_zero] at hb
    rw [List.mem_singleton.1 hb]
    exact hr _ h
  | seq _ _ ih ih' =>
    obtain ⟨m, hm, hmem⟩ := ih hr.1
    obtain ⟨n, hn, hnmem⟩ := ih' hr.2
    exact ⟨m ++ n, hm.trans hn, List.forall_mem_append.2 ⟨hmem, hnmem⟩⟩
  | altLeft _ ih => exact ih hr.1
  | altRight _ ih => exact ih hr.2
  | starNil => exact ⟨[], .refl _, by simp⟩
  | starCons _ _ ih ih' =>
    obtain ⟨m, hm, hmem⟩ := ih hr
    obtain ⟨n, hn, hnmem⟩ := ih' hr
    exact ⟨m ++ n, hm.trans hn, List.forall_mem_append.2 ⟨hmem, hnmem⟩⟩
  | group _ ih =>
    obtain ⟨m, hm, hmem⟩ := ih hr
    exact ⟨m, ⟨hm.rest, hm.before⟩, hmem⟩
  | back => exact hr.elim
  | boundary => exact ⟨[], .refl _, by simp⟩

omit [DecidableEq α] in
theorem within_concat {C : α → Prop} {rs : List (Regex α)} :
    Within C (concat rs) ↔ ∀ r ∈ rs, Within C r := by
  induction rs with
  | nil => simp [concat, Within]
  | cons r rs ih =>
    rw [List.forall_mem_cons, ← ih]
    rfl

omit [DecidableEq α] in
theorem within_times {C : α → Prop} {r : Regex α} (h : Within C r) (n : ℕ) :
    Within C (times n r) := by
  induction n with
  | zero => trivial
  | succ n ih => exact ⟨h, ih⟩

omit [DecidableEq α] in
theorem within_atLeast {C : α → Prop} {r : Regex α} (h : Within C r) (n : ℕ) :
    Within C (atLeast n r) :=
  ⟨within_times h n, h⟩

omit [DecidableEq α] in
theorem within_oneOf {C : α → Prop} {rs : List (Regex α)} (h : ∀ r ∈ rs, Within C r) :
    Within C (oneOf rs) := by
  induction rs with
  | nil => simp [oneOf, Within]
  | cons r rs ih =>
    rw [List.forall_mem_cons] at h
    cases rs with
    | nil => exact h.1
    | cons t rs => exact ⟨h.1, ih h.2⟩

/-- Every match of the pattern consumes something. -/
def Solid : Regex α → Prop
  | .one _ => True
  | .seq r t => Solid r ∨ Solid t
  | .alt r t => Solid r ∧ Solid t
  | .group _ r => Solid r
  | _ => False

theorem Matches.solid {r : Regex α} {p q : Position α} (h : Matches r p q) (hr : Solid r)
    {m : List α} (hm : Consumes p m q) : m ≠ [] := by
  induction h generalizing m with
  | one hrest h =>
    rw [hm.unique (consumes_skip _ 1), hrest]
    exact List.cons_ne_nil _ _
  | seq h h' ih ih' =>
    obtain ⟨n, hn⟩ := h.consumes
    obtain ⟨n', hn'⟩ := h'.consumes
    rw [hm.unique (hn.trans hn')]
    rcases hr with hr | hr
    · exact List.append_ne_nil_of_left_ne_nil (ih hr hn) _
    · exact List.append_ne_nil_of_right_ne_nil _ (ih' hr hn')
  | altLeft _ ih => exact ih hr.1 hm
  | altRight _ ih => exact ih hr.2 hm
  | group _ ih => exact ih hr ⟨hm.rest, hm.before⟩
  | empty => exact hr.elim
  | starNil => exact hr.elim
  | starCons => exact hr.elim
  | back => exact hr.elim
  | boundary => exact hr.elim

omit [DecidableEq α] in
theorem solid_concat {rs : List (Regex α)} (h : ∃ r ∈ rs, Solid r) : Solid (concat rs) := by
  induction rs with
  | nil =>
    obtain ⟨r, hr, -⟩ := h
    cases hr
  | cons r rs ih =>
    obtain ⟨t, ht, h⟩ := h
    rcases List.mem_cons.1 ht with rfl | ht
    · exact .inl h
    · exact .inr (ih ⟨t, ht, h⟩)

/-! ## Groups -/

/-- The groups hold items of the class. -/
def Holds (C : α → Prop) (p : Position α) : Prop := ∀ g ∈ p.groups, ∀ a ∈ g.2, C a

/-- Every group of the pattern consumes items of the class. -/
def GroupsWithin (C : α → Prop) : Regex α → Prop
  | .seq r t => GroupsWithin C r ∧ GroupsWithin C t
  | .alt r t => GroupsWithin C r ∧ GroupsWithin C t
  | .star _ r => GroupsWithin C r
  | .group _ r => Within C r ∧ GroupsWithin C r
  | _ => True

omit [DecidableEq α] in
theorem Within.groupsWithin {C : α → Prop} {r : Regex α} (h : Within C r) : GroupsWithin C r := by
  induction r with
  | empty => trivial
  | one => trivial
  | seq r t ihr iht => exact ⟨ihr h.1, iht h.2⟩
  | alt r t ihr iht => exact ⟨ihr h.1, iht h.2⟩
  | star greedy r ih => exact ih h
  | group n r ih => exact ⟨h, ih h⟩
  | back => trivial
  | boundary => trivial

theorem Matches.holds {C : α → Prop} {r : Regex α} {p q : Position α} (h : Matches r p q)
    (hr : GroupsWithin C r) (hp : Holds C p) : Holds C q := by
  induction h with
  | empty => exact hp
  | one => exact hp
  | seq _ _ ih ih' => exact ih' hr.2 (ih hr.1 hp)
  | altLeft _ ih => exact ih hr.1 hp
  | altRight _ ih => exact ih hr.2 hp
  | starNil => exact hp
  | starCons _ _ ih ih' => exact ih' hr (ih hr hp)
  | group h ih =>
    obtain ⟨m, hm, hmem⟩ := h.within hr.1
    intro g hg
    rcases List.mem_cons.1 hg with rfl | hg
    · intro a ha
      refine hmem a ?_
      rw [hm.rest, List.length_append, Nat.add_sub_cancel, List.take_left] at ha
      exact ha
    · exact ih hr.2 hp g hg
  | back => exact hp
  | boundary => exact hp

/-- The groups of a match are parts of the text. -/
theorem Matches.holds_of_rest {C : α → Prop} {r : Regex α} {p q : Position α} (h : Matches r p q)
    (hrest : ∀ a ∈ p.rest, C a) (hp : Holds C p) : Holds C q := by
  have hlater : ∀ {r : Regex α} {p q : Position α}, Matches r p q → (∀ a ∈ p.rest, C a) →
      ∀ a ∈ q.rest, C a := by
    intro r p q h hrest a ha
    obtain ⟨m, hm⟩ := h.consumes
    exact hrest a (hm.rest ▸ List.mem_append_right m ha)
  induction h with
  | empty => exact hp
  | one => exact hp
  | seq h _ ih ih' => exact ih' (hlater h hrest) (ih hrest hp)
  | altLeft _ ih => exact ih hrest hp
  | altRight _ ih => exact ih hrest hp
  | starNil => exact hp
  | starCons h _ ih ih' => exact ih' (hlater h hrest) (ih hrest hp)
  | group _ ih =>
    intro g hg
    rcases List.mem_cons.1 hg with rfl | hg
    · exact fun a ha => hrest a (List.mem_of_mem_take ha)
    · exact ih hrest hp g hg
  | back => exact hp
  | boundary => exact hp

omit [DecidableEq α] in
theorem Holds.groupText {C : α → Prop} {p : Position α} (h : Holds C p) (n : ℕ) :
    ∀ a ∈ p.groupText n, C a := by
  intro a ha
  unfold Position.groupText at ha
  cases hlookup : p.groups.lookup n with
  | none =>
    rw [hlookup] at ha
    cases ha
  | some text =>
    rw [hlookup] at ha
    obtain ⟨l, k, hsplit, -⟩ := List.lookup_eq_some_iff.1 hlookup
    exact h (n, text) (by simp [hsplit]) a ha

/-! ## Shapes -/

theorem matches_concat_cons {r : Regex α} {rs : List (Regex α)} {p q : Position α}
    (h : Matches (concat (r :: rs)) p q) : ∃ s, Matches r p s ∧ Matches (concat rs) s q := by
  cases h with
  | seq h h' => exact ⟨_, h, h'⟩

theorem matches_concat_append {rs ts : List (Regex α)} {p q : Position α}
    (h : Matches (concat (rs ++ ts)) p q) :
    ∃ s, Matches (concat rs) p s ∧ Matches (concat ts) s q := by
  induction rs generalizing p with
  | nil => exact ⟨p, .empty, h⟩
  | cons r rs ih =>
    obtain ⟨s, hs, h⟩ := matches_concat_cons h
    obtain ⟨t, ht, h⟩ := ih h
    exact ⟨t, .seq hs ht, h⟩

/-- A pattern of single items consumes items of these classes, one after the other. -/
theorem matches_ones {cs : List (α → Bool)} {p q : Position α}
    (h : Matches (concat (cs.map .one)) p q) :
    ∃ m, Consumes p m q ∧ List.Forall₂ (fun c a => c a = true) cs m := by
  induction cs generalizing p with
  | nil =>
    cases h
    exact ⟨[], .refl _, .nil⟩
  | cons c cs ih =>
    obtain ⟨s, hs, h⟩ := matches_concat_cons h
    obtain ⟨m, hm, hforall⟩ := ih h
    cases hs with
    | @one _ _ a l hrest hc =>
      have hskip := consumes_skip p 1
      rw [hrest, List.take_succ_cons, List.take_zero] at hskip
      exact ⟨a :: m, hskip.trans hm, .cons hc hforall⟩

/-- A text as a pattern consumes the text. -/
theorem matches_text {part : List α} {p q : Position α}
    (h : Matches (concat (part.map fun a => .one fun u => u = a)) p q) : Consumes p part q := by
  have hones : part.map (fun a => Regex.one fun u => decide (u = a)) =
      (part.map fun a u => decide (u = a)).map .one := by
    rw [List.map_map]
    rfl
  rw [hones] at h
  obtain ⟨m, hm, hforall⟩ := matches_ones h
  suffices part = m by rwa [this]
  rw [List.forall₂_map_left_iff] at hforall
  refine List.forall₂_eq_eq_eq ▸ hforall.imp ?_
  intro a b hab
  exact (of_decide_eq_true hab).symm

/-- The pattern holds no group. -/
def GroupFree : Regex α → Prop
  | .seq r t => GroupFree r ∧ GroupFree t
  | .alt r t => GroupFree r ∧ GroupFree t
  | .star _ r => GroupFree r
  | .group _ _ => False
  | _ => True

theorem Matches.groups {r : Regex α} {p q : Position α} (h : Matches r p q) (hr : GroupFree r) :
    q.groups = p.groups := by
  induction h with
  | empty => rfl
  | one => rfl
  | seq _ _ ih ih' => exact (ih' hr.2).trans (ih hr.1)
  | altLeft _ ih => exact ih hr.1
  | altRight _ ih => exact ih hr.2
  | starNil => rfl
  | starCons _ _ ih ih' => exact (ih' hr).trans (ih hr)
  | group => exact hr.elim
  | back => rfl
  | boundary => rfl

theorem exec_one {c : α → Bool} {p : Position α} {a : α} {l : List α} {k : Continuation α}
    (hrest : p.rest = a :: l) (hc : c a = true) : (Regex.one c).exec p k = k (p.skip 1) := by
  simp only [exec, hrest, hc, if_true]

theorem exec_concat_cons (r : Regex α) (rs : List (Regex α)) (p : Position α)
    (k : Continuation α) :
    (concat (r :: rs)).exec p k = r.exec p fun q => (concat rs).exec q k := rfl

theorem exec_atLeast (n : ℕ) (r : Regex α) (p : Position α) (k : Continuation α) :
    (atLeast n r).exec p k = (times n r).exec p fun q => (star true r).exec q k := rfl

/-- A reference back at the end of a pattern. -/
theorem exec_back_eq {n : ℕ} {p q : Position α} : (concat [back n]).exec p some = some q ↔
    p.groupText n <+: p.rest ∧ p.skip (p.groupText n).length = q := by
  rw [← List.isPrefixOf_iff_prefix]
  simp [concat, exec]

/-- Greedy repetition of a class goes on to the first item outside it when what follows the
repetition matches anywhere. -/
theorem iterate_greedy {c : α → Bool} {k : Continuation α} {fuel : ℕ} :
    ∀ {p : Position α}, p.rest.length ≤ fuel →
      (∀ s : Position α, s.groups = p.groups → (k s).isSome = true) →
      ∃ s, s.groups = p.groups ∧ (∀ a ∈ s.rest.head?, c a = false) ∧
        iterate (Regex.one c).exec true fuel p k = k s := by
  induction fuel with
  | zero =>
    intro p hlength hk
    refine ⟨p, rfl, ?_, rfl⟩
    rw [List.length_eq_zero_iff.1 (Nat.le_zero.1 hlength)]
    simp
  | succ fuel ih =>
    intro p hlength hk
    rw [iterate, if_pos rfl]
    cases hrest : p.rest with
    | nil => exact ⟨p, rfl, by simp [hrest], by simp [exec, hrest]⟩
    | cons a l =>
      by_cases hc : c a = true
      · have hskip : (p.skip 1).rest = l := by simp [Position.skip, hrest]
        have hl : l.length ≤ fuel := by
          rw [hrest, List.length_cons] at hlength
          omega
        obtain ⟨s, hgroups, hhead, heq⟩ := @ih (p.skip 1) (hskip ▸ hl) hk
        refine ⟨s, hgroups, hhead, ?_⟩
        rw [exec_one hrest hc, hskip, if_pos (by simp), heq]
        exact Option.or_of_isSome (hk s hgroups)
      · rw [Bool.not_eq_true] at hc
        exact ⟨p, rfl, by simp [hrest, hc], by simp [exec, hrest, hc]⟩

/-! ## Replacements -/

/-- The rewriting of a text in which every item is kept or belongs to a match that is replaced; an
item is kept when no match that consumes something begins with it. -/
inductive Replaced (r : Regex α) (replacement : (ℕ → List α) → List α) :
    Option α → List α → List α → Prop where
  | nil {before} : Replaced r replacement before [] []
  | keep {before a l out}
      (h : ∀ q, r.exec { before := before, rest := a :: l } some = some q → ¬ q.rest.length ≤ l.length)
      (hrest : Replaced r replacement (some a) l out) :
      Replaced r replacement before (a :: l) (a :: out)
  | swap {before l q out} (h : r.exec { before := before, rest := l } some = some q)
      (hlength : q.rest.length < l.length) (hrest : Replaced r replacement q.before q.rest out) :
      Replaced r replacement before l (replacement q.groupText ++ out)

theorem replaced_replaceFrom {r : Regex α} {replacement : (ℕ → List α) → List α} {fuel : ℕ} :
    ∀ {before : Option α} {l : List α}, l.length ≤ fuel →
      Replaced r replacement before l (replaceFrom r replacement fuel before l) := by
  induction fuel with
  | zero =>
    intro before l h
    rw [List.length_eq_zero_iff.1 (Nat.le_zero.1 h)]
    exact .nil
  | succ fuel ih =>
    intro before l h
    cases l with
    | nil => exact .nil
    | cons a l =>
      rw [List.length_cons] at h
      rw [replaceFrom]
      split
      · next hnone =>
        refine .keep ?_ (ih (by omega))
        intro q hq
        rw [hnone] at hq
        cases hq
      · next q hq =>
        split_ifs with hlength
        · exact .swap hq (by simpa using Nat.lt_succ_of_le hlength) (ih (by omega))
        · refine .keep ?_ (ih (by omega))
          intro q' hq'
          rw [hq] at hq'
          rwa [← Option.some.inj hq']

theorem replaced_replaceAll (r : Regex α) (replacement : (ℕ → List α) → List α) (l : List α) :
    Replaced r replacement none l (replaceAll r replacement l) :=
  replaced_replaceFrom (Nat.le_refl _)

/-- A match of the whole pattern. -/
theorem matches_of_exec {r : Regex α} {p q : Position α} (h : r.exec p some = some q) :
    Matches r p q := by
  obtain ⟨s, hs, heq⟩ := exec_sound r h
  rwa [← Option.some.inj heq]

/-- Without a match the text stays. -/
theorem Replaced.eq_self {r : Regex α} {replacement : (ℕ → List α) → List α} {C : α → Prop}
    (hr : ∀ {p q m}, Matches r p q → Consumes p m q → m ≠ [] → ∃ a ∈ m, ¬ C a)
    {before : Option α} {l out : List α} (h : Replaced r replacement before l out)
    (hl : ∀ a ∈ l, C a) : out = l := by
  induction h with
  | nil => rfl
  | keep h hrest ih => rw [ih (List.forall_mem_cons.1 hl).2]
  | swap h hlength hrest ih =>
    obtain ⟨m, hm⟩ := (matches_of_exec h).consumes
    have hsplit := hm.rest
    dsimp only at hsplit
    have hne : m ≠ [] := by
      rintro rfl
      rw [hsplit, List.nil_append] at hlength
      exact Nat.lt_irrefl _ hlength
    obtain ⟨a, ha, hnot⟩ := hr (matches_of_exec h) hm hne
    exact absurd (hl a (hsplit ▸ List.mem_append_left _ ha)) hnot

/-- The items of a replacement are items of the text or of the replacing texts. -/
theorem Replaced.mem {r : Regex α} {replacement : (ℕ → List α) → List α} {C : α → Prop}
    (hreplacement : ∀ {p q}, Matches r p q → p.groups = [] → (∀ a ∈ p.rest, C a) →
      ∀ a ∈ replacement q.groupText, C a)
    {before : Option α} {l out : List α} (h : Replaced r replacement before l out)
    (hl : ∀ a ∈ l, C a) : ∀ a ∈ out, C a := by
  induction h with
  | nil => exact hl
  | keep h hrest ih =>
    rw [List.forall_mem_cons] at hl ⊢
    exact ⟨hl.1, ih hl.2⟩
  | swap h hlength hrest ih =>
    have hmatch := matches_of_exec h
    obtain ⟨m, hm⟩ := hmatch.consumes
    rw [List.forall_mem_append]
    refine ⟨hreplacement hmatch rfl hl, ih ?_⟩
    intro a ha
    refine hl a ?_
    have hsplit := hm.rest
    dsimp only at hsplit
    rw [hsplit]
    exact List.mem_append_right m ha

/-- A replacement that always has an item of the class leaves none of its texts without one. -/
theorem Replaced.exists_mem {r : Regex α} {replacement : (ℕ → List α) → List α} {C : α → Prop}
    (hreplacement : ∀ groups, ∃ a ∈ replacement groups, C a) {before : Option α} {l out : List α}
    (h : Replaced r replacement before l out) (hl : ∃ a ∈ l, C a) : ∃ a ∈ out, C a := by
  induction h with
  | nil => exact hl
  | keep _ _ ih =>
    obtain ⟨b, hb, hC⟩ := hl
    rcases List.mem_cons.1 hb with rfl | hb
    · exact ⟨b, List.mem_cons_self, hC⟩
    · obtain ⟨c, hc, hC⟩ := ih ⟨b, hb, hC⟩
      exact ⟨c, List.mem_cons_of_mem _ hc, hC⟩
  | swap _ _ _ _ =>
    obtain ⟨a, ha, hC⟩ := hreplacement _
    exact ⟨a, List.mem_append_left _ ha, hC⟩

end AgentOrchestrator.Regex
