import Mathlib.Data.List.Basic

/-!
# Regular expressions by backtracking

Patterns over an arbitrary alphabet with greedy and lazy repetition, groups, references back to
them and boundaries, matched from left to right by backtracking.  `replaceAll` replaces every match
of a pattern that consumes something.
-/

namespace AgentOrchestrator

/-- A pattern.  A repeated pattern holds no group. -/
inductive Regex (α : Type) where
  | empty
  | one (p : α → Bool)
  | seq (r t : Regex α)
  | alt (r t : Regex α)
  | star (greedy : Bool) (r : Regex α)
  | group (n : ℕ) (r : Regex α)
  | back (n : ℕ)
  | boundary (word : α → Bool)

namespace Regex

variable {α : Type}

/-- Where a match stands: the item before, what follows, and the texts of the groups so far. -/
structure Position (α : Type) where
  before : Option α := none
  rest : List α
  groups : List (ℕ × List α) := []

/-- What is left to match. -/
abbrev Continuation (α : Type) := Position α → Option (Position α)

/-- The text a group matched. -/
def Position.groupText (p : Position α) (n : ℕ) : List α := (p.groups.lookup n).getD []

/-- The position after the first `n` items of the rest. -/
def Position.skip (p : Position α) (n : ℕ) : Position α :=
  { p with before := (p.rest.take n).getLast?.or p.before, rest := p.rest.drop n }

/-- The boundary of a word: exactly one of the two sides is a word item. -/
def Position.atBoundary (word : α → Bool) (p : Position α) : Bool :=
  (p.before.any word) != (p.rest.head?.any word)

/-- Repetition of a matcher; an iteration that consumes nothing fails. -/
def iterate (m : Position α → Continuation α → Option (Position α)) (greedy : Bool) :
    ℕ → Position α → Continuation α → Option (Position α)
  | 0, p, k => k p
  | fuel + 1, p, k =>
    let more := m p fun q => if q.rest.length < p.rest.length then iterate m greedy fuel q k else none
    if greedy then more.or (k p) else (k p).or more

/-- The first match, in the order of backtracking, after which the rest matches too. -/
def exec [DecidableEq α] : Regex α → Position α → Continuation α → Option (Position α)
  | .empty, p, k => k p
  | .one c, p, k =>
    match p.rest with
    | [] => none
    | a :: _ => if c a then k (p.skip 1) else none
  | .seq r t, p, k => r.exec p fun q => t.exec q k
  | .alt r t, p, k => (r.exec p k).or (t.exec p k)
  | .star greedy r, p, k => iterate r.exec greedy p.rest.length p k
  | .group n r, p, k => r.exec p fun q =>
      k { q with groups := (n, p.rest.take (p.rest.length - q.rest.length)) :: q.groups }
  | .back n, p, k =>
    if (p.groupText n).isPrefixOf p.rest then k (p.skip (p.groupText n).length) else none
  | .boundary word, p, k => if p.atBoundary word then k p else none

/-- One or more. -/
def plus (r : Regex α) : Regex α := .seq r (.star true r)

/-- Zero or one. -/
def optional (r : Regex α) : Regex α := .alt r .empty

/-- Exactly `n` times. -/
def times : ℕ → Regex α → Regex α
  | 0, _ => .empty
  | n + 1, r => .seq r (times n r)

/-- At least `n` times. -/
def atLeast (n : ℕ) (r : Regex α) : Regex α := .seq (times n r) (.star true r)

/-- One of several patterns, tried in order. -/
def oneOf : List (Regex α) → Regex α
  | [] => .one fun _ => false
  | [r] => r
  | r :: rs => .alt r (oneOf rs)

/-- Several patterns in sequence. -/
def concat (rs : List (Regex α)) : Regex α := rs.foldr .seq .empty

/-! ## Replacement -/

variable [DecidableEq α]

/-- Replaces the matches in what follows an item, from left to right; the replacement may use the
texts of the groups. -/
def replaceFrom (r : Regex α) (replacement : (ℕ → List α) → List α) :
    ℕ → Option α → List α → List α
  | 0, _, l => l
  | _ + 1, _, [] => []
  | fuel + 1, before, a :: l =>
    match r.exec { before := before, rest := a :: l } some with
    | none => a :: replaceFrom r replacement fuel (some a) l
    | some q =>
      if q.rest.length ≤ l.length then
        replacement q.groupText ++ replaceFrom r replacement fuel q.before q.rest
      else a :: replaceFrom r replacement fuel (some a) l

def replaceAll (r : Regex α) (replacement : (ℕ → List α) → List α) (l : List α) : List α :=
  replaceFrom r replacement l.length none l

/-- A replacement that is never empty leaves no text empty. -/
theorem replaceAll_ne_nil {r : Regex α} {replacement : (ℕ → List α) → List α}
    (h : ∀ groups, replacement groups ≠ []) {l : List α} (hl : l ≠ []) :
    replaceAll r replacement l ≠ [] := by
  unfold replaceAll
  cases l with
  | nil => exact absurd rfl hl
  | cons a l =>
    unfold replaceFrom
    dsimp only [List.length_cons]
    split
    · exact List.cons_ne_nil _ _
    · split_ifs
      · exact List.append_ne_nil_of_left_ne_nil (h _) _
      · exact List.cons_ne_nil _ _

end Regex

end AgentOrchestrator
