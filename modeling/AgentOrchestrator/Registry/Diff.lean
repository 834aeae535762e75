import AgentOrchestrator.Calls.Schema
import AgentOrchestrator.JsonPrint
import AgentOrchestrator.Library.JsonPointer
import AgentOrchestrator.Library.Utf16
import Mathlib.Data.List.Dedup
import Mathlib.Data.List.Lex
import Mathlib.Data.List.Sort

/-!
# Diffs of experiments

`diffValues` compares two values member by member.  It reads a member as the language does: a key
that is not an object's own may still name a member that every object inherits, a function or the
prototype itself.
-/

namespace AgentOrchestrator.Registry

/-- What the comparison may meet: a JSON value, a function that every object inherits, or
`Object.prototype`. -/
inductive Value where
  | json (value : Json)
  | function (name : String)
  | prototype
  deriving DecidableEq

/-- A member of an object without such a key. -/
def inherited (key : String) : Option Value :=
  if key = "__proto__" then some .prototype
  else if key ∈ Calls.prototypeNames then some (.function key)
  else none

/-- A member of `Object.prototype`, whose own prototype is `null`. -/
def prototypeMember (key : String) : Option Value :=
  if key = "__proto__" then some (.json .null)
  else if key ∈ Calls.prototypeNames then some (.function key)
  else none

/-- `value[key]` -/
def member (value : Option Value) (key : String) : Option Value :=
  match value with
  | some (.json (.obj fields)) =>
    match fields.lookup key with
    | some item => some (.json item)
    | none => inherited key
  | some .prototype => prototypeMember key
  | _ => none

/-- `Object.keys(value)` -/
def ownKeys : Option Value → List String
  | some (.json (.obj fields)) => fields.map Prod.fst
  | _ => []

/-- `value !== null && !Array.isArray(value) && typeof value === "object"` -/
def isObject : Option Value → Bool
  | some (.json (.obj _)) => true
  | some .prototype => true
  | _ => false

/-- `JSON.stringify(value)` -/
def stringify (number : Json.NumberFormat) : Option Value → Option (List Char)
  | some (.json value) => some (Json.print number value)
  | some .prototype => some (Json.print number (.obj []))
  | _ => none

/-- The sorted keys of both; it does not matter here which one of two equal keys a set keeps. -/
def keys (baseline experiment : Option Value) : List String :=
  (ownKeys baseline ++ ownKeys experiment).dedup.insertionSort
    fun a b => Utf16.toUnits a ≤ Utf16.toUnits b

def replaceAll (c : Char) (replacement : List Char) (text : List Char) : List Char :=
  text.flatMap fun d => if d = c then replacement else [d]

def pointer (segment : String) : String :=
  String.ofList (replaceAll '/' ['~', '1'] (replaceAll '~' ['~', '0'] segment.toList))

structure Change where
  path : String
  baseline : Option Value
  experiment : Option Value
  deriving DecidableEq

/-! ## Termination -/

/-- The size of a value, inherited members not counted. -/
noncomputable def weight : Option Value → ℕ
  | some (.json value) => sizeOf value
  | some .prototype => 1
  | _ => 0

theorem sizeOf_lookup_lt {fields : List (String × Json)} {key : String} {value : Json}
    (h : fields.lookup key = some value) : sizeOf value < sizeOf fields := by
  induction fields with
  | nil => cases h
  | cons field fields ih =>
    obtain ⟨k, v⟩ := field
    rw [List.lookup_cons] at h
    split at h
    · cases h
      simp
      omega
    · have := ih h
      simp
      omega

theorem lookup_of_mem_keys {fields : List (String × Json)} {key : String}
    (h : key ∈ fields.map Prod.fst) : ∃ value, fields.lookup key = some value := by
  induction fields with
  | nil => cases h
  | cons field fields ih =>
    rw [List.lookup_cons]
    split
    · exact ⟨_, rfl⟩
    · next hne =>
      rcases List.mem_cons.1 h with rfl | h
      · simp at hne
      · exact ih h

theorem weight_inherited_le (key : String) : weight (inherited key) ≤ 1 := by
  unfold inherited
  split_ifs <;> simp [weight]

theorem weight_prototypeMember_le (key : String) : weight (prototypeMember key) ≤ 1 := by
  unfold prototypeMember
  split_ifs <;> simp [weight]

theorem weight_member_le (value : Option Value) (key : String) :
    weight (member value key) ≤ weight value := by
  unfold member
  split
  · next fields =>
    split
    · next item h =>
      have := sizeOf_lookup_lt h
      simp only [weight, Json.obj.sizeOf_spec]
      omega
    · refine (weight_inherited_le key).trans ?_
      simp [weight]
  · exact weight_prototypeMember_le key
  · exact Nat.zero_le _

/-- A member that is an object's own is smaller. -/
theorem weight_member_lt {value : Option Value} {key : String} (h : key ∈ ownKeys value) :
    weight (member value key) < weight value := by
  unfold ownKeys at h
  split at h
  · next fields =>
    obtain ⟨item, hitem⟩ := lookup_of_mem_keys h
    have := sizeOf_lookup_lt hitem
    simp only [member, hitem, weight, Json.obj.sizeOf_spec]
    omega
  · cases h

theorem mem_keys {baseline experiment : Option Value} {key : String} :
    key ∈ keys baseline experiment ↔ key ∈ ownKeys baseline ∨ key ∈ ownKeys experiment := by
  unfold keys
  rw [List.mem_insertionSort, List.mem_dedup, List.mem_append]

theorem weight_members_lt {baseline experiment : Option Value} {key : String}
    (h : key ∈ keys baseline experiment) :
    weight (member baseline key) + weight (member experiment key) <
      weight baseline + weight experiment := by
  have hbaseline := weight_member_le baseline key
  have hexperiment := weight_member_le experiment key
  rcases mem_keys.1 h with h | h
  · have := weight_member_lt h
    omega
  · have := weight_member_lt h
    omega

def diffValues (number : Json.NumberFormat) (path : String) (baseline experiment : Option Value) :
    List Change :=
  if stringify number baseline = stringify number experiment then []
  else if isObject baseline ∧ isObject experiment then
    (keys baseline experiment).attach.flatMap fun ⟨key, _⟩ =>
      diffValues number (path ++ "/" ++ pointer key) (member baseline key) (member experiment key)
  else [⟨path, baseline, experiment⟩]
termination_by weight baseline + weight experiment
decreasing_by exact weight_members_lt ‹_›

theorem diffValues_eq (number : Json.NumberFormat) (path : String)
    (baseline experiment : Option Value) :
    diffValues number path baseline experiment =
      if stringify number baseline = stringify number experiment then []
      else if isObject baseline ∧ isObject experiment then
        (keys baseline experiment).flatMap fun key => diffValues number
          (path ++ "/" ++ pointer key) (member baseline key) (member experiment key)
      else [⟨path, baseline, experiment⟩] := by
  rw [diffValues, List.flatMap_subtype fun _ _ => rfl, List.unattach_attach]

end AgentOrchestrator.Registry
