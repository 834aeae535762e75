import AgentOrchestrator.Library.Surrogates
import AgentOrchestrator.Security.Redaction
import Mathlib.Data.List.DropRight

/-!
# Audit fields

`auditField` turns an untrusted text into a bounded field of one line: the text is repaired and
redacted, escape sequences and invisible characters are taken out, controls and white space become
single blanks, and a text that is too long is cut.  It works on the code units of a text, which need
not be well-formed.
-/

namespace AgentOrchestrator.Security

open Utf16

/-! ## `wellFormed` -/

/-- `value.replace(LONE_SURROGATE, "\ufffd")` behind a unit: the first lone surrogate is replaced. -/
def repairFrom : Option ℕ → List ℕ → List ℕ
  | _, [] => []
  | before, u :: units =>
    if isLone before u units.head? then 0xFFFD :: units else u :: repairFrom (some u) units

def wellFormed (value : List ℕ) : List ℕ := repairFrom none value

/-! ## `redactText` -/

/-- The encodings of a canary; `encodeURIComponent` throws at a lone surrogate. -/
def variantUnits (canary : List ℕ) : Option (List (List ℕ)) :=
  if WellFormed canary then some ((variants (ofUnits canary)).map toUnits) else none

/-- A canary in each of its encodings. -/
def redactCanary (units : List ℕ) (canary : List ℕ) : Option (List ℕ) :=
  if canary = [] then some units
  else (variantUnits canary).map fun variants =>
    variants.foldl (fun units variant => replaceText variant (toUnits "[REDACTED:canary]") units) units

/-- What looks like a credential. -/
def redactSecrets (units : List ℕ) : List ℕ :=
  secretPatterns.foldl (fun units p => p.1.replaceAll p.2 units) units

/-- `redactText` of code units, or nothing when it throws. -/
def redactUnits (canaries : List (List ℕ)) (value : List ℕ) : Option (List ℕ) :=
  canaries.foldlM redactCanary (redactSecrets value)

theorem redactCanary_toUnits (units : List ℕ) {canary : String} (h : canary ≠ "") :
    redactCanary units (toUnits canary) = some ((variants canary).foldl
      (fun units variant => replaceText (toUnits variant) (toUnits "[REDACTED:canary]") units)
        units) := by
  unfold redactCanary variantUnits
  rw [if_neg (toUnits_ne_nil h), if_pos (wellFormed_toUnits canary), ofUnits_toUnits,
    Option.map_some, List.foldl_map]

/-- On texts this is `redactText`. -/
theorem redactUnits_toUnits (canaries : List String) (value : String) :
    (redactUnits (canaries.map toUnits) (toUnits value)).map ofUnits =
      some (redactText canaries value) := by
  unfold redactUnits redactText
  dsimp only
  rw [show redactSecrets (toUnits value) = secretPatterns.foldl
    (fun units p => p.1.replaceAll p.2 units) (toUnits value) from rfl]
  generalize secretPatterns.foldl (fun units p => p.1.replaceAll p.2 units) (toUnits value) = units
  induction canaries generalizing units with
  | nil => rfl
  | cons canary canaries ih =>
    rw [List.map_cons, List.foldlM_cons]
    by_cases hempty : canary = ""
    · have hunits : redactCanary units (toUnits canary) = some units := by
        rw [hempty]
        rfl
      rw [hunits, List.filter_cons_of_neg (by simpa using hempty)]
      exact ih units
    · rw [redactCanary_toUnits units hempty, List.filter_cons_of_pos (by simpa using hempty),
        List.foldl_cons]
      exact ih _

/-- Every step of the redaction keeps a property of texts. -/
theorem redactUnits_keeps {P : List ℕ → Prop}
    (hsecret : ∀ p ∈ secretPatterns, ∀ units, P units → P (p.1.replaceAll p.2 units))
    (hcanary : ∀ variant : String, ∀ units, P units →
      P (replaceText (toUnits variant) (toUnits "[REDACTED:canary]") units))
    {canaries : List (List ℕ)} {value redacted : List ℕ}
    (h : redactUnits canaries value = some redacted) (hvalue : P value) : P redacted := by
  have hfold : ∀ (patterns : List (Regex ℕ × ((ℕ → List ℕ) → List ℕ))),
      (∀ p ∈ patterns, ∀ units, P units → P (p.1.replaceAll p.2 units)) → ∀ units, P units →
        P (patterns.foldl (fun units p => p.1.replaceAll p.2 units) units) := by
    intro patterns
    induction patterns with
    | nil => exact fun _ units hunits => hunits
    | cons p patterns ih =>
      intro hpatterns units hunits
      rw [List.forall_mem_cons] at hpatterns
      exact ih hpatterns.2 _ (hpatterns.1 units hunits)
  have hvariants : ∀ (variants : List String) units, P units → P (variants.foldl
      (fun units variant =>
        replaceText (toUnits variant) (toUnits "[REDACTED:canary]") units) units) := by
    intro variants
    induction variants with
    | nil => exact fun units hunits => hunits
    | cons variant variants ih => exact fun units hunits => ih _ (hcanary variant units hunits)
  have hunits : P (redactSecrets value) := hfold secretPatterns hsecret value hvalue
  unfold redactUnits at h
  generalize redactSecrets value = units at h hunits
  induction canaries generalizing units with
  | nil => exact Option.some.inj h ▸ hunits
  | cons canary canaries ih =>
    rw [List.foldlM_cons] at h
    obtain ⟨next, hnext, h⟩ := Option.bind_eq_some_iff.1 h
    refine ih next h ?_
    unfold redactCanary variantUnits at hnext
    split_ifs at hnext
    · exact Option.some.inj hnext ▸ hunits
    · rw [Option.map_some, Option.some.injEq, List.foldl_map] at hnext
      exact hnext ▸ hvariants _ units hunits
    · cases hnext

/-! ## Normalization -/

/-- `ANSI_ESCAPE`: `\u001b\[[0-9;?]*`, any of the units from blank to slash, and `[@-~]`; or
`\u001b[@-Z\\-_]`. -/
def ansiEscape : Regex ℕ :=
  let escape := Regex.one fun u => u = 0x1B
  .alt
    (.concat [escape, literal "[", .star true (range [('0', '9'), (';', ';'), ('?', '?')]),
      .star true (range [(' ', '/')]), range [('@', '~')]])
    (.concat [escape, range [('@', 'Z'), ('\\', '_')]])

/-- `[\u061c\u180e\u200b-\u200f\u202a-\u202e\u2060-\u206f\ufeff]` -/
def isInvisible (u : ℕ) : Bool :=
  u = 0x61C || u = 0x180E || (0x200B ≤ u && u ≤ 0x200F) || (0x202A ≤ u && u ≤ 0x202E) ||
    (0x2060 ≤ u && u ≤ 0x206F) || u = 0xFEFF

/-- `[\u0000-\u001f\u007f-\u009f]` -/
def isControl (u : ℕ) : Bool := u ≤ 0x1F || (0x7F ≤ u && u ≤ 0x9F)

/-- What is taken out of a redacted text. -/
def strip (units : List ℕ) : List ℕ :=
  (ansiEscape.replaceAll (fun _ => []) units).filter fun u => !isInvisible u

/-- `.replace(/\s+/g, " ")`, where a run of white space has begun or not. -/
def collapse : Bool → List ℕ → List ℕ
  | _, [] => []
  | inRun, u :: units =>
    if isSpace u then if inRun then collapse true units else 0x20 :: collapse true units
    else u :: collapse false units

/-- `.trim()` -/
def trimUnits (units : List ℕ) : List ℕ := (units.dropWhile isSpace).rdropWhile isSpace

def normalize (redacted : List ℕ) : List ℕ :=
  trimUnits (collapse false ((strip redacted).map fun u => if isControl u then 0x20 else u))

/-! ## `auditField` -/

def auditFieldMaxCharacters : ℕ := 256

def truncationMarker : List ℕ := toUnits "[TRUNCATED]"

def truncateWellFormed (value : List ℕ) (length : ℕ) : List ℕ :=
  let truncated := value.take length
  if truncated.getLast?.any isHigh then truncated.dropLast else truncated

/-- What is behind the redaction of an audit field. -/
def fieldOf (redacted : List ℕ) : List ℕ :=
  let normalized := normalize redacted
  if normalized.length = 0 then toUnits "[NORMALIZED:empty]"
  else if normalized.length ≤ auditFieldMaxCharacters then normalized
  else
    truncateWellFormed normalized (auditFieldMaxCharacters - truncationMarker.length) ++
      truncationMarker

/-- The field of a text, or nothing when the redaction throws. -/
def auditField (canaries : List (List ℕ)) (value : List ℕ) : Option (List ℕ) :=
  (redactUnits canaries (wellFormed value)).map fieldOf

example : (auditField [] (toUnits "client\r\nnot ok 99 - forged")).map ofUnits =
    some "client not ok 99 - forged" := by decide +kernel

end AgentOrchestrator.Security
