import Mathlib.Data.List.Infix
import Mathlib.Tactic.Common

/-!
# Absolute paths

A path is the names on the way from the root to a file.  A text is read part by part: an empty part
and `.` stay, `..` goes up, a name goes down.  `relative` is the way from one path to another; it
goes up at its first part or not at all, and it does not exactly when the first path is a prefix
of the second.
-/

namespace AgentOrchestrator.PosixPath

/-! ## Names and paths -/

/-- The part that goes up. -/
def up : List Char := ['.', '.']

/-- A part that goes down. -/
def IsName (part : List Char) : Prop := part ≠ [] ∧ '/' ∉ part ∧ part ≠ ['.'] ∧ part ≠ up

instance : DecidablePred IsName := fun _ => by unfold IsName; infer_instance

abbrev Name : Type := {part : List Char // IsName part}

abbrev Path : Type := List Name

def parts (p : Path) : List (List Char) := p.map Subtype.val

@[simp] theorem parts_nil : parts [] = [] := rfl

@[simp] theorem parts_cons (a : Name) (p : Path) : parts (a :: p) = a.1 :: parts p := rfl

theorem up_notMem_parts (p : Path) : up ∉ parts p := by
  intro h
  obtain ⟨a, -, ha⟩ := List.mem_map.1 h
  exact a.2.2.2.2 ha

/-! ## Reading a path -/

/-- Where a part leads. -/
def walk (dir : Path) (part : List Char) : Path :=
  if h : IsName part then dir ++ [⟨part, h⟩] else if part = up then dir.dropLast else dir

def resolve (dir : Path) (parts : List (List Char)) : Path := parts.foldl walk dir

/-- The path of an absolute text. -/
def ofText (text : List Char) : Path := resolve [] (text.splitOn '/')

@[simp] theorem walk_name (dir : Path) (a : Name) : walk dir a.1 = dir ++ [a] := by
  simp [walk, a.2]

@[simp] theorem walk_up (dir : Path) (a : Name) : walk (dir ++ [a]) up = dir := by
  have h : ¬ IsName up := fun h => h.2.2.2 rfl
  simp [walk, h]

theorem resolve_append (dir : Path) (parts more : List (List Char)) :
    resolve dir (parts ++ more) = resolve (resolve dir parts) more := List.foldl_append

theorem resolve_parts (dir p : Path) : resolve dir (parts p) = dir ++ p := by
  induction p generalizing dir with
  | nil => simp [resolve]
  | cons a p ih =>
    show resolve (walk dir a.1) (parts p) = dir ++ a :: p
    rw [walk_name, ih, List.append_assoc, List.singleton_append]

/-- As many steps up as there are names. -/
def ascent (p : Path) : List (List Char) := List.replicate p.length up

theorem resolve_ascent (dir p : Path) : resolve (dir ++ p) (ascent p) = dir := by
  induction p using List.reverseRecOn with
  | nil => simp [ascent, resolve]
  | append_singleton p a ih =>
    have hswap : ascent (p ++ [a]) = up :: ascent p := by
      rw [ascent, List.length_append, List.length_singleton, List.replicate_succ, ascent]
    rw [hswap, ← List.append_assoc]
    show resolve (walk (dir ++ p ++ [a]) up) (ascent p) = dir
    rw [walk_up, ih]

/-! ## The way from one path to another -/

def relative : Path → Path → List (List Char)
  | [], q => parts q
  | a :: p, [] => ascent (a :: p)
  | a :: p, b :: q => if a = b then relative p q else ascent (a :: p) ++ parts (b :: q)

/-- The way leads there. -/
theorem resolve_relative (dir p q : Path) : resolve (dir ++ p) (relative p q) = dir ++ q := by
  induction p, q using relative.induct generalizing dir with
  | case1 q => rw [relative, List.append_nil, resolve_parts]
  | case2 a p => rw [relative, resolve_ascent, List.append_nil]
  | case3 p a q ih =>
    have h := ih (dir ++ [a])
    rw [List.append_assoc, List.append_assoc] at h
    simpa [relative] using h
  | case4 a p b q hne =>
    rw [relative, if_neg hne, resolve_append, resolve_ascent, resolve_parts]

theorem relative_append (p q : Path) : relative p (p ++ q : Path) = parts q := by
  induction p with
  | nil => rfl
  | cons a p ih => simpa [relative] using ih

/-- The way goes up first, or it only goes down. -/
theorem relative_shape (p q : Path) :
    (relative p q).head? = some up ∨ ∃ below : Path, relative p q = parts below := by
  induction p, q using relative.induct with
  | case1 q => exact .inr ⟨q, rfl⟩
  | case2 a p => exact .inl rfl
  | case3 p a q ih => simpa [relative] using ih
  | case4 a p b q hne =>
    left
    rw [relative, if_neg hne]
    rfl

/-- The way goes down only exactly when its start is a prefix of its end. -/
theorem head_relative_ne_up (p q : Path) : (relative p q).head? ≠ some up ↔ p <+: q := by
  constructor
  · intro h
    obtain ⟨below, hbelow⟩ := (relative_shape p q).resolve_left h
    have hq := resolve_relative [] p q
    rw [hbelow, resolve_parts] at hq
    exact ⟨below, hq⟩
  · rintro ⟨below, rfl⟩ h
    rw [relative_append] at h
    exact up_notMem_parts below (List.mem_of_mem_head? h)

theorem relative_slashFree (p q : Path) :
    ∀ part ∈ relative p q, part ≠ [] ∧ '/' ∉ part := by
  have hparts : ∀ r : Path, ∀ part ∈ parts r, part ≠ [] ∧ '/' ∉ part := by
    intro r part hpart
    obtain ⟨a, -, rfl⟩ := List.mem_map.1 hpart
    exact ⟨a.2.1, a.2.2.1⟩
  have hascent : ∀ r : Path, ∀ part ∈ ascent r, part ≠ [] ∧ '/' ∉ part := by
    intro r part hpart
    obtain rfl := List.eq_of_mem_replicate hpart
    exact ⟨by decide, by decide⟩
  induction p, q using relative.induct with
  | case1 q => exact hparts q
  | case2 a p => exact hascent (a :: p)
  | case3 p a q ih => simpa [relative] using ih
  | case4 a p b q hne =>
    rw [relative, if_neg hne]
    intro part hpart
    exact (List.mem_append.1 hpart).elim (hascent _ part) (hparts _ part)

/-! ## Texts -/

/-- The parts of a way, with a slash between each two. -/
def join (parts : List (List Char)) : List Char := ['/'].intercalate parts

theorem join_cons (part : List Char) (parts : List (List Char)) :
    join (part :: parts) = part ∨ ∃ more, join (part :: parts) = part ++ '/' :: more := by
  cases parts with
  | nil => exact .inl (by simp [join, List.intercalate])
  | cons next parts => exact .inr ⟨join (next :: parts), by simp [join, List.intercalate]⟩

/-- The text is `..` or begins with `../`. -/
def Upward (text : List Char) : Prop := text = up ∨ up ++ ['/'] <+: text

instance : DecidablePred Upward := fun _ => by unfold Upward; infer_instance

theorem upward_join {part : List Char} (h : '/' ∉ part) (parts : List (List Char)) :
    Upward (join (part :: parts)) ↔ part = up := by
  rcases join_cons part parts with heq | ⟨more, heq⟩
  · rw [heq]
    constructor
    · rintro (hup | ⟨more, rfl⟩)
      · exact hup
      · exact absurd (by simp [up]) h
    · exact .inl
  · rw [heq]
    constructor
    · intro hup
      match part, hup with
      | [], hup => simp [Upward, up] at hup
      | [a], hup => simp [Upward, up] at hup
      | [a, b], hup => simpa [Upward, up, eq_comm] using hup
      | a :: b :: c :: part, hup =>
        have hc : '/' ≠ c := by
          rintro rfl
          exact h (List.mem_cons_of_mem a (List.mem_cons_of_mem b List.mem_cons_self))
        simp [Upward, up, hc] at hup
    · rintro rfl
      exact .inr ⟨more, by simp⟩

end AgentOrchestrator.PosixPath
