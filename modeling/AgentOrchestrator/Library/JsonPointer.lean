import Mathlib.Data.List.Basic

/-!
# JSON pointers

A pointer is a list of segments, each written behind a slash; in a segment `~` is written `~0` and
`/` is written `~1`.
-/

namespace JsonPointer

def escapeChar (c : Char) : List Char :=
  if c = '~' then ['~', '0'] else if c = '/' then ['~', '1'] else [c]

/-- A segment as a pointer shows it. -/
def escape (segment : List Char) : List Char := segment.flatMap escapeChar

/-- The text of a pointer. -/
def encode (segments : List (List Char)) : List Char :=
  segments.flatMap fun segment => '/' :: escape segment

/-- The segment a text begins with, and the segments behind it. -/
def read : List Char → Option (List Char × List (List Char))
  | [] => some ([], [])
  | '/' :: rest => (read rest).map fun r => ([], r.1 :: r.2)
  | '~' :: '0' :: rest => (read rest).map fun r => ('~' :: r.1, r.2)
  | '~' :: '1' :: rest => (read rest).map fun r => ('/' :: r.1, r.2)
  | '~' :: _ => none
  | c :: rest => (read rest).map fun r => (c :: r.1, r.2)

/-- The segments of a pointer. -/
def decode : List Char → Option (List (List Char))
  | [] => some []
  | '/' :: rest => (read rest).map fun r => r.1 :: r.2
  | _ :: _ => none

example : decode "/a~1b/~01".toList = some ["a/b".toList, "~1".toList] := by decide

theorem read_escapeChar (c : Char) (rest : List Char) :
    read (escapeChar c ++ rest) = (read rest).map fun r => (c :: r.1, r.2) := by
  unfold escapeChar
  split_ifs with htilde hslash
  · rw [htilde]
    rfl
  · rw [hslash]
    rfl
  · exact read.eq_6 c rest hslash (fun _ h _ => htilde h) (fun _ h _ => htilde h) htilde

theorem read_escape (segment rest : List Char) :
    read (escape segment ++ rest) = (read rest).map fun r => (segment ++ r.1, r.2) := by
  induction segment with
  | nil =>
    rw [escape, List.flatMap_nil, List.nil_append]
    simp
  | cons c segment ih =>
    have happend : escape (c :: segment) ++ rest = escapeChar c ++ (escape segment ++ rest) := by
      rw [escape, List.flatMap_cons, List.append_assoc]
      rfl
    rw [happend, read_escapeChar, ih, Option.map_map]
    rfl

/-- A text with segments begins with an empty one. -/
theorem read_of_decode {text : List Char} {segments : List (List Char)}
    (h : decode text = some segments) : read text = some ([], segments) := by
  unfold decode at h
  split at h
  · cases h
    rfl
  · obtain ⟨r, hr, rfl⟩ := Option.map_eq_some_iff.1 h
    rw [read.eq_2, hr]
    rfl
  · cases h

/-- A segment in front of a pointer. -/
theorem decode_cons {segment text : List Char} {segments : List (List Char)}
    (h : decode text = some segments) :
    decode ('/' :: (escape segment ++ text)) = some (segment :: segments) := by
  rw [decode.eq_2, read_escape, read_of_decode h]
  simp

theorem decode_encode (segments : List (List Char)) : decode (encode segments) = some segments := by
  induction segments with
  | nil => rfl
  | cons segment segments ih => exact decode_cons ih

end JsonPointer
