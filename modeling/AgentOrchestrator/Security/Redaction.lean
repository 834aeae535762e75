import AgentOrchestrator.Library.Base64
import AgentOrchestrator.Library.Regex
import AgentOrchestrator.Library.Utf16
import AgentOrchestrator.Library.Utf8

/-!
# Redaction of secrets

`redactText` replaces what looks like a credential, and every configured canary in each of its
usual encodings.  The patterns run over the UTF-16 code units of a text, as in the source, so a
length in a pattern counts code units.
-/

namespace AgentOrchestrator.Security

open Utf16

/-! ## Patterns -/

/-- One code unit in one of the ranges. -/
def range (ranges : List (Char × Char)) : Regex ℕ :=
  .one fun u => ranges.any fun r => r.1.toNat ≤ u && u ≤ r.2.toNat

/-- One code unit that is one of the characters. -/
def anyOf (text : String) : Regex ℕ := .one fun u => text.toList.any fun c => c.toNat = u

/-- Case folding of a code unit; only ASCII letters have an ASCII partner. -/
def fold (u : ℕ) : ℕ := if 65 ≤ u ∧ u ≤ 90 then u + 32 else u

/-- A literal text. -/
def literal (text : String) : Regex ℕ :=
  Regex.concat (text.toList.map fun c => .one fun u => u = c.toNat)

/-- A literal text in either case. -/
def ignoringCase (text : String) : Regex ℕ :=
  Regex.concat (text.toList.map fun c => .one fun u => fold u = fold c.toNat)

/-- `\s` -/
def isSpace (u : ℕ) : Bool :=
  (9 ≤ u && u ≤ 13) || u = 0x20 || u = 0xA0 || u = 0x1680 || (0x2000 ≤ u && u ≤ 0x200A) ||
    u = 0x2028 || u = 0x2029 || u = 0x202F || u = 0x205F || u = 0x3000 || u = 0xFEFF

/-- `\w` -/
def isWord (u : ℕ) : Bool :=
  (65 ≤ u && u ≤ 90) || (97 ≤ u && u ≤ 122) || (48 ≤ u && u ≤ 57) || u = 95

def space : Regex ℕ := .one isSpace
def wordBoundary : Regex ℕ := .boundary isWord

/-- `[A-Za-z0-9]` and further characters. -/
def alphanumeric (others : String) : Regex ℕ :=
  range ([('A', 'Z'), ('a', 'z'), ('0', '9')] ++ others.toList.map fun c => (c, c))

/-- `\b(Bearer|Basic)\s+[A-Za-z0-9._~+/=-]+`, in either case. -/
def authorizationPattern : Regex ℕ :=
  .concat [wordBoundary, .group 1 (.alt (ignoringCase "Bearer") (ignoringCase "Basic")),
    .plus space, .plus (alphanumeric "._~+/=-")]

/-- `\b(?:gh[opurs]_[A-Za-z0-9_]{20,}|github_pat_[A-Za-z0-9_]{20,}|(?:AKIA|ASIA)[0-9A-Z]{16}|`
`xox[baprs]-[A-Za-z0-9-]{10,}|npm_[A-Za-z0-9]{20,})\b` -/
def tokenPattern : Regex ℕ :=
  .concat [wordBoundary, .oneOf [
    .concat [literal "gh", anyOf "opurs", literal "_", .atLeast 20 (alphanumeric "_")],
    .concat [literal "github_pat_", .atLeast 20 (alphanumeric "_")],
    .concat [.alt (literal "AKIA") (literal "ASIA"), .times 16 (range [('0', '9'), ('A', 'Z')])],
    .concat [literal "xox", anyOf "baprs", literal "-", .atLeast 10 (alphanumeric "-")],
    .concat [literal "npm_", .atLeast 20 (alphanumeric "")]], wordBoundary]

/-- `\beyJ[A-Za-z0-9_-]{5,}\.[A-Za-z0-9_-]{5,}\.[A-Za-z0-9_-]{5,}\b` -/
def webTokenPattern : Regex ℕ :=
  .concat [wordBoundary, literal "eyJ", .atLeast 5 (alphanumeric "_-"), literal ".",
    .atLeast 5 (alphanumeric "_-"), literal ".", .atLeast 5 (alphanumeric "_-"), wordBoundary]

/-- `(\b(?:password|passwd|pwd|token|secret|api[_-]?key|access[_-]?key|`
`aws[_-]?secret[_-]?access[_-]?key|client[_-]?secret)\b\s*[=:]\s*)(["']?)[^\s,"']{4,}\2`, in either
case. -/
def secretPattern : Regex ℕ :=
  let joint := Regex.optional (anyOf "_-")
  let word := ignoringCase
  .concat [
    .group 1 (.concat [wordBoundary, .oneOf [word "password", word "passwd", word "pwd",
      word "token", word "secret", .concat [word "api", joint, word "key"],
      .concat [word "access", joint, word "key"],
      .concat [word "aws", joint, word "secret", joint, word "access", joint, word "key"],
      .concat [word "client", joint, word "secret"]], wordBoundary,
      .star true space, anyOf "=:", .star true space]),
    .group 2 (.optional (anyOf "\"'")),
    .atLeast 4 (.one fun u => !(isSpace u || ",\"'".toList.any fun c => c.toNat = u)),
    .back 2]

/-- `-----BEGIN(?: [A-Z]+)* PRIVATE KEY-----[\s\S]*?-----END(?: [A-Z]+)* PRIVATE KEY-----` -/
def privateKeyPattern : Regex ℕ :=
  let kind := Regex.star true (.concat [literal " ", .plus (range [('A', 'Z')])])
  .concat [literal "-----BEGIN", kind, literal " PRIVATE KEY-----", .star false (.one fun _ => true),
    literal "-----END", kind, literal " PRIVATE KEY-----"]

/-- `SECRET_PATTERNS`: each pattern with its replacement, which may start with the text of the
first group. -/
def secretPatterns : List (Regex ℕ × ((ℕ → List ℕ) → List ℕ)) :=
  [(authorizationPattern, fun groups => groups 1 ++ toUnits " [REDACTED:authorization]"),
   (tokenPattern, fun _ => toUnits "[REDACTED:token]"),
   (webTokenPattern, fun _ => toUnits "[REDACTED:token]"),
   (secretPattern, fun groups => groups 1 ++ toUnits "[REDACTED:secret]"),
   (privateKeyPattern, fun _ => toUnits "[REDACTED:private-key]")]

/-! ## Canaries -/

/-- `encodeURIComponent` -/
def encodeURIComponent (text : String) : String :=
  let hex (n : ℕ) : Char := (Nat.digitChar n).toUpper
  String.ofList <| text.toList.flatMap fun c =>
    if c.isAlphanum || "-_.!~*'()".toList.contains c then [c]
    else (String.utf8EncodeChar c).flatMap fun b => ['%', hex (b.toNat / 16), hex (b.toNat % 16)]

/-- The encodings of a canary that are looked for. -/
def variants (canary : String) : List String :=
  [canary, encodeURIComponent canary,
    String.ofList (Base64.padded Base64.standard (Utf8.encode canary.toList)),
    String.ofList (Base64.encode Base64.url (Utf8.encode canary.toList))].eraseDups

/-- `text.split(part).join(mark)`: every occurrence of the part from the left, replaced. -/
def replaceText (part mark : List ℕ) : List ℕ → List ℕ :=
  Regex.replaceAll (.concat (part.map fun a => .one fun u => u = a)) fun _ => mark

def redactText (canaries : List String) (value : String) : String :=
  let redacted := secretPatterns.foldl (fun units p => p.1.replaceAll p.2 units) (toUnits value)
  ofUnits <| (canaries.filter (· ≠ "")).foldl (fun units canary =>
    (variants canary).foldl (fun units variant =>
      replaceText (toUnits variant) (toUnits "[REDACTED:canary]") units) units) redacted

/-- What a fold of replacements keeps. -/
theorem foldl_ne_nil {α : Type} {f : List ℕ → α → List ℕ} {l : List α}
    (h : ∀ a ∈ l, ∀ units, units ≠ [] → f units a ≠ []) {units : List ℕ} (hu : units ≠ []) :
    l.foldl f units ≠ [] := by
  induction l generalizing units with
  | nil => exact hu
  | cons a l ih =>
    exact ih (fun b hb => h b (List.mem_cons_of_mem a hb)) (h a List.mem_cons_self units hu)

/-- Redaction leaves no text empty. -/
theorem redactText_ne_empty (canaries : List String) {value : String} (h : value ≠ "") :
    redactText canaries value ≠ "" := by
  unfold redactText
  refine ofUnits_ne_empty (foldl_ne_nil ?_ (foldl_ne_nil ?_ (toUnits_ne_nil h)))
  · intro canary _ units hu
    refine foldl_ne_nil (fun variant _ units hu => ?_) hu
    exact Regex.replaceAll_ne_nil (fun _ => toUnits_ne_nil (by decide)) hu
  · intro p hp units hu
    refine Regex.replaceAll_ne_nil ?_ hu
    intro groups
    simp only [secretPatterns, List.mem_cons, List.not_mem_nil, or_false] at hp
    rcases hp with rfl | rfl | rfl | rfl | rfl
    · exact List.append_ne_nil_of_right_ne_nil _ (toUnits_ne_nil (by decide))
    · exact toUnits_ne_nil (by decide)
    · exact toUnits_ne_nil (by decide)
    · exact List.append_ne_nil_of_right_ne_nil _ (toUnits_ne_nil (by decide))
    · exact toUnits_ne_nil (by decide)

example : redactText [] "token=aaaa" = "token=[REDACTED:secret]" := by decide +kernel

end AgentOrchestrator.Security
