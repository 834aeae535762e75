import AgentOrchestrator.JsonRoundTrip
import AgentOrchestrator.Lease.Storage
import AgentOrchestrator.Library.Keyed
import AgentOrchestrator.Library.Regex
import AgentOrchestrator.Library.Utf16
import Mathlib.Data.List.DropRight
import Mathlib.Data.List.Forall2

/-!
# The schemas of the experiment registry

A schema turns a value into the value it stands for, or refuses it.  What a schema returns it
accepts as it is, and a value of the language stays one (`Lawful`): a record that was stored is
read back unchanged.  The checks of an URL and of an ISO date belong to the schema library
(`Formats`).
-/

namespace AgentOrchestrator.Registry

/-! ## Formats of texts -/

/-- The checks of the schema library; that of an URL trims it. -/
structure Formats where
  url : String → Option String
  url_url : ∀ text trimmed, url text = some trimmed → url trimmed = some trimmed
  datetime : String → Bool

def isLowerHex (c : Char) : Bool := c.isDigit || ('a' ≤ c && c ≤ 'f')

/-- `/^[a-f0-9]{n}$/` -/
def isHex (n : ℕ) (text : String) : Bool := text.toList.length = n && text.toList.all isLowerHex

/-- `/^exp_[0-9a-f]{8}-[0-9a-f]{4}-[1-5][0-9a-f]{3}-[89ab][0-9a-f]{3}-[0-9a-f]{12}$/` -/
def experimentIdPattern : Regex Char :=
  let hex := Regex.one isLowerHex
  let dash := Regex.one (· = '-')
  Regex.concat
    [.one (· = 'e'), .one (· = 'x'), .one (· = 'p'), .one (· = '_'), Regex.times 8 hex, dash,
      Regex.times 4 hex, dash, .one fun c => '1' ≤ c && c ≤ '5', Regex.times 3 hex, dash,
      .one fun c => c = '8' || c = '9' || c = 'a' || c = 'b', Regex.times 3 hex, dash,
      Regex.times 12 hex]

def isExperimentId (text : String) : Bool :=
  (experimentIdPattern.exec { rest := text.toList }
    fun end_ => if end_.rest = [] then some end_ else none).isSome

/-- `String.prototype.trim` -/
def trim (text : String) : String :=
  String.ofList ((text.toList.dropWhile Lease.isTrimmed).rdropWhile Lease.isTrimmed)

/-! ## Schemas -/

/-- The value that a value stands for, or nothing for a value that the schema refuses. -/
abbrev Schema := Json → Option Json

def string (check : String → Option String) : Schema
  | .str text => (check text).map .str
  | _ => none

/-- A text that passes a test. -/
def regex (test : String → Bool) : Schema := string fun text => if test text then some text else none

def hash : Schema := regex (isHex 64)

def checkpoint : Schema := regex fun text => isHex 40 text || isHex 64 text

def enum (values : List String) : Schema := regex (· ∈ values)

/-- A trimmed text of 1 to `max` units. -/
def trimmed (max : ℕ) : Schema := string fun text =>
  let value := trim text
  if 1 ≤ (Utf16.toUnits value).length ∧ (Utf16.toUnits value).length ≤ max then some value else none

def literal (q : ℚ) : Schema
  | .num value => if value = q then some (.num value) else none
  | _ => none

def number : Schema
  | .num value => some (.num value)
  | _ => none

/-- Any JSON value.  An own key `__proto__`, which the parser of the schema drops, is kept. -/
def jsonValue : Schema := some

/-- An object with values of a schema. -/
def record (value : Schema) : Schema
  | .obj fields => (fields.mapM fun field => (value field.2).map (field.1, ·)).map .obj
  | _ => none

/-- A schema with a further check of what it returns. -/
def refine (schema : Schema) (check : Json → Bool) : Schema := fun value =>
  (schema value).bind fun parsed => if check parsed then some parsed else none

def nonEmptyJsonObject : Schema := refine (record jsonValue) fun parsed =>
  match parsed with
  | .obj fields => fields.length > 0
  | _ => false

def array (item : Schema) : Schema
  | .arr items => (items.mapM item).map .arr
  | _ => none

/-- An object with the fields of a shape and no others, in the order of the shape. -/
def strictObject (shape : List (String × Schema)) : Schema
  | .obj fields =>
    if fields.all fun field => field.1 ∈ shape.map Prod.fst then
      (shape.mapM fun field => (Keyed.lookup Prod.fst field.1 fields).bind fun given =>
        (field.2 given.2).map (field.1, ·)).map .obj
    else none
  | _ => none

section Shapes

variable (formats : Formats)

def experimentShape : List (String × Schema) :=
  [("schemaVersion", literal 1), ("experimentId", regex isExperimentId),
    ("parentBaselineFingerprint", hash),
    ("lineage", enum ["baseline", "disklm", "callforge", "fgguf"]), ("hypothesis", trimmed 1000),
    ("config", record jsonValue), ("checkpointSha", checkpoint), ("env", nonEmptyJsonObject),
    ("hardware", nonEmptyJsonObject), ("codeRevision", checkpoint), ("tokenizerHash", hash),
    ("chatTemplateHash", hash), ("corpusHash", hash), ("metrics", record number),
    ("artifactLinks", array (string formats.url)),
    ("status", enum ["succeeded", "failed", "aborted"]), ("timestamp", regex formats.datetime),
    ("ownerAgent", trimmed 200)]

def experimentRecordSchema : Schema := strictObject (experimentShape formats)

def baselineShape : List (String × Schema) :=
  [("fingerprint", hash), ("config", record jsonValue), ("checkpointSha", checkpoint),
    ("env", nonEmptyJsonObject), ("hardware", nonEmptyJsonObject), ("codeRevision", checkpoint),
    ("tokenizerHash", hash), ("chatTemplateHash", hash), ("corpusHash", hash),
    ("metrics", record number)]

def baselineCatalogSchema : Schema := array (strictObject baselineShape)

end Shapes

/-! ## Lawful schemas -/

/-- What the schema returns it accepts as it is, and it keeps values of the language. -/
structure Lawful (schema : Schema) : Prop where
  stable : ∀ value parsed, schema value = some parsed → schema parsed = some parsed
  readable : ∀ (format : Json.NumberFormat) value parsed, Json.Readable format value →
    schema value = some parsed → Json.Readable format parsed

theorem lawful_string {check : String → Option String}
    (h : ∀ text parsed, check text = some parsed → check parsed = some parsed) :
    Lawful (string check) where
  stable := by
    intro value parsed hparsed
    unfold string at hparsed
    split at hparsed
    next text =>
      obtain ⟨result, hresult, rfl⟩ := Option.map_eq_some_iff.mp hparsed
      rw [string, h text result hresult]
      rfl
    next => cases hparsed
  readable := by
    intro format value parsed _ hparsed
    unfold string at hparsed
    split at hparsed
    next text =>
      obtain ⟨result, _, rfl⟩ := Option.map_eq_some_iff.mp hparsed
      trivial
    next => cases hparsed

theorem lawful_regex (test : String → Bool) : Lawful (regex test) := by
  refine lawful_string fun text parsed hparsed => ?_
  split at hparsed
  next htest =>
    obtain rfl := Option.some.inj hparsed
    rw [if_pos htest]
  next => cases hparsed

theorem trim_trim (text : String) : trim (trim text) = trim text := by
  have hhead : ∀ l : List Char,
      ((l.dropWhile Lease.isTrimmed).rdropWhile Lease.isTrimmed).dropWhile Lease.isTrimmed =
        (l.dropWhile Lease.isTrimmed).rdropWhile Lease.isTrimmed := by
    intro l
    cases hkept : (l.dropWhile Lease.isTrimmed).rdropWhile Lease.isTrimmed with
    | nil => rfl
    | cons c kept =>
      -- the first character kept is the first one after the blanks
      obtain ⟨rest, hrest⟩ := List.rdropWhile_prefix Lease.isTrimmed (l := l.dropWhile Lease.isTrimmed)
      rw [hkept, List.cons_append] at hrest
      have hidem := List.dropWhile_idempotent Lease.isTrimmed (l := l)
      rw [← hrest] at hidem
      refine List.dropWhile_cons_of_neg fun hc => ?_
      rw [List.dropWhile_cons_of_pos hc] at hidem
      have hlength := congrArg List.length hidem
      have hle := List.length_dropWhile_le Lease.isTrimmed (kept ++ rest)
      rw [List.length_cons] at hlength
      omega
  unfold trim
  rw [String.toList_ofList, hhead, List.rdropWhile_idempotent]

theorem lawful_trimmed (max : ℕ) : Lawful (trimmed max) := by
  refine lawful_string fun text parsed hparsed => ?_
  dsimp only at hparsed
  split at hparsed
  next hlength =>
    obtain rfl := Option.some.inj hparsed
    dsimp only
    rw [trim_trim, if_pos hlength]
  next => cases hparsed

theorem lawful_literal {n : ℕ} (hn : n < 2 ^ 53) : Lawful (literal n) where
  stable := by
    intro value parsed hparsed
    unfold literal at hparsed
    split at hparsed
    next q =>
      split at hparsed
      next hq =>
        obtain rfl := Option.some.inj hparsed
        rw [literal, if_pos hq]
      next => cases hparsed
    next => cases hparsed
  readable := by
    intro format value parsed _ hparsed
    unfold literal at hparsed
    split at hparsed
    next q =>
      split at hparsed
      next hq =>
        obtain rfl := Option.some.inj hparsed
        rw [hq]
        exact format.reads_natural hn
      next => cases hparsed
    next => cases hparsed

theorem lawful_number : Lawful number where
  stable := by
    intro value parsed hparsed
    unfold number at hparsed
    split at hparsed
    next q =>
      obtain rfl := Option.some.inj hparsed
      rfl
    next => cases hparsed
  readable := by
    intro format value parsed hvalue hparsed
    unfold number at hparsed
    split at hparsed
    next q =>
      obtain rfl := Option.some.inj hparsed
      exact hvalue
    next => cases hparsed

theorem lawful_jsonValue : Lawful jsonValue where
  stable := fun _ _ _ => rfl
  readable := by
    intro format value parsed hvalue hparsed
    obtain rfl := Option.some.inj hparsed
    exact hvalue

theorem lawful_refine {schema : Schema} (h : Lawful schema) (check : Json → Bool) :
    Lawful (refine schema check) where
  stable := by
    intro value parsed hparsed
    obtain ⟨result, hresult, hchecked⟩ := Option.bind_eq_some_iff.mp hparsed
    split at hchecked
    next hcheck =>
      obtain rfl := Option.some.inj hchecked
      rw [refine, h.stable value result hresult, Option.bind_some, if_pos hcheck]
    next => cases hchecked
  readable := by
    intro format value parsed hvalue hparsed
    obtain ⟨result, hresult, hchecked⟩ := Option.bind_eq_some_iff.mp hparsed
    split at hchecked
    next =>
      obtain rfl := Option.some.inj hchecked
      exact h.readable format value result hvalue hresult
    next => cases hchecked

/-! ## Lists of values -/

theorem mapM_eq_some {α β : Type*} {f : α → Option β} {l : List α} {r : List β} :
    l.mapM f = some r ↔ List.Forall₂ (fun a b => f a = some b) l r := by
  induction l generalizing r with
  | nil =>
    rw [List.mapM_nil, List.forall₂_nil_left_iff]
    exact ⟨fun h => (Option.some.inj h).symm, fun h => by rw [h]; rfl⟩
  | cons a l ih =>
    rw [List.mapM_cons, List.forall₂_cons_left_iff]
    constructor
    · intro h
      obtain ⟨b, hb, hrest⟩ := Option.bind_eq_some_iff.mp h
      obtain ⟨r', hr', hr⟩ := Option.bind_eq_some_iff.mp hrest
      exact ⟨b, r', hb, ih.mp hr', (Option.some.inj hr).symm⟩
    · rintro ⟨b, r', hb, hr', rfl⟩
      rw [hb]
      show (l.mapM f).bind _ = _
      rw [ih.mpr hr']
      rfl

/-- What a list of values became comes from its members. -/
theorem exists_of_mem {α β : Type*} {f : α → Option β} {l : List α} {r : List β}
    (h : l.mapM f = some r) {b : β} (hb : b ∈ r) : ∃ a ∈ l, f a = some b := by
  have hall := mapM_eq_some.mp h
  clear h
  induction hall with
  | nil => cases hb
  | @cons a b' l r hab hrest ih =>
    rcases List.mem_cons.mp hb with rfl | hb
    · exact ⟨a, List.mem_cons_self, hab⟩
    · obtain ⟨a', ha', hab'⟩ := ih hb
      exact ⟨a', List.mem_cons_of_mem _ ha', hab'⟩

theorem mapM_congr_of_mem {α β : Type*} {f g : α → Option β} {l : List α} {r : List β}
    (h : l.mapM f = some r) (hfg : ∀ a ∈ l, ∀ b ∈ r, f a = some b → g a = some b) :
    l.mapM g = some r := by
  refine mapM_eq_some.mpr ?_
  have hall := mapM_eq_some.mp h
  clear h
  induction hall with
  | nil => exact .nil
  | @cons a b l r hab hrest ih =>
    refine .cons (hfg a List.mem_cons_self b List.mem_cons_self hab) (ih ?_)
    exact fun a' ha' b' hb' => hfg a' (List.mem_cons_of_mem _ ha') b' (List.mem_cons_of_mem _ hb')

/-- A list of values that each stay as they are stays as it is. -/
theorem mapM_self {α : Type*} {f : α → Option α} {l : List α} (h : ∀ a ∈ l, f a = some a) :
    l.mapM f = some l :=
  mapM_eq_some.mpr (List.forall₂_same.mpr h)

theorem lawful_array {item : Schema} (h : Lawful item) : Lawful (array item) where
  stable := by
    intro value parsed hparsed
    unfold array at hparsed
    split at hparsed
    next items =>
      obtain ⟨result, hresult, rfl⟩ := Option.map_eq_some_iff.mp hparsed
      have hsame : result.mapM item = some result := by
        refine mapM_self fun b hb => ?_
        obtain ⟨a, _, hab⟩ := exists_of_mem hresult hb
        exact h.stable a b hab
      rw [array, hsame]
      rfl
    next => cases hparsed
  readable := by
    intro format value parsed hvalue hparsed
    unfold array at hparsed
    split at hparsed
    next items =>
      obtain ⟨result, hresult, rfl⟩ := Option.map_eq_some_iff.mp hparsed
      rw [Json.Readable, Json.readableItems_iff] at hvalue ⊢
      intro b hb
      obtain ⟨a, ha, hab⟩ := exists_of_mem hresult hb
      exact h.readable format a b (hvalue a ha) hab
    next => cases hparsed

theorem map_fst_of_mapM {fields result : List (String × Json)} {value : Schema}
    (h : fields.mapM (fun field => (value field.2).map (field.1, ·)) = some result) :
    result.map Prod.fst = fields.map Prod.fst := by
  have hall := mapM_eq_some.mp h
  clear h
  induction hall with
  | nil => rfl
  | @cons a b l r hab hrest ih =>
    obtain ⟨_, _, rfl⟩ := Option.map_eq_some_iff.mp hab
    rw [List.map_cons, List.map_cons, ih]

theorem lawful_record {value : Schema} (h : Lawful value) : Lawful (record value) where
  stable := by
    intro given parsed hparsed
    unfold record at hparsed
    split at hparsed
    next fields =>
      obtain ⟨result, hresult, rfl⟩ := Option.map_eq_some_iff.mp hparsed
      have hsame : result.mapM (fun field => (value field.2).map (field.1, ·)) = some result := by
        refine mapM_self fun b hb => ?_
        obtain ⟨a, _, hab⟩ := exists_of_mem hresult hb
        obtain ⟨w, hw, rfl⟩ := Option.map_eq_some_iff.mp hab
        dsimp only
        rw [h.stable a.2 w hw]
        rfl
      rw [record, hsame]
      rfl
    next => cases hparsed
  readable := by
    intro format given parsed hgiven hparsed
    unfold record at hparsed
    split at hparsed
    next fields =>
      obtain ⟨result, hresult, rfl⟩ := Option.map_eq_some_iff.mp hparsed
      rw [Json.Readable, Json.readableFields_iff] at hgiven ⊢
      refine ⟨fun b hb => ?_, ?_⟩
      · obtain ⟨a, ha, hab⟩ := exists_of_mem hresult hb
        obtain ⟨w, hw, rfl⟩ := Option.map_eq_some_iff.mp hab
        exact h.readable format a.2 w (hgiven.1 a ha) hw
      · rw [map_fst_of_mapM hresult]
        exact hgiven.2
    next => cases hparsed

/-! ## Objects of a shape -/

theorem map_fst_of_shape {shape : List (String × Schema)} {fields result : List (String × Json)}
    (h : shape.mapM (fun field => (Keyed.lookup Prod.fst field.1 fields).bind fun given =>
      (field.2 given.2).map (field.1, ·)) = some result) :
    result.map Prod.fst = shape.map Prod.fst := by
  have hall := mapM_eq_some.mp h
  clear h
  induction hall with
  | nil => rfl
  | @cons a b l r hab hrest ih =>
    obtain ⟨given, _, hgiven⟩ := Option.bind_eq_some_iff.mp hab
    obtain ⟨_, _, rfl⟩ := Option.map_eq_some_iff.mp hgiven
    rw [List.map_cons, List.map_cons, ih]

theorem lawful_strictObject {shape : List (String × Schema)}
    (hshape : (shape.map Prod.fst).Nodup) (h : ∀ field ∈ shape, Lawful field.2) :
    Lawful (strictObject shape) where
  stable := by
    intro given parsed hparsed
    unfold strictObject at hparsed
    split at hparsed
    next fields =>
      split at hparsed
      next =>
        obtain ⟨result, hresult, rfl⟩ := Option.map_eq_some_iff.mp hparsed
        have hnames := map_fst_of_shape hresult
        have hsame : shape.mapM (fun field => (Keyed.lookup Prod.fst field.1 result).bind
            fun given => (field.2 given.2).map (field.1, ·)) = some result := by
          refine mapM_congr_of_mem hresult fun a ha b hb hab => ?_
          obtain ⟨old, _, hmap⟩ := Option.bind_eq_some_iff.mp hab
          obtain ⟨w, hw, rfl⟩ := Option.map_eq_some_iff.mp hmap
          have hfound : Keyed.lookup Prod.fst a.1 result = some (a.1, w) :=
            Keyed.lookup_of_mem (by rw [hnames]; exact hshape) hb
          rw [hfound, Option.bind_some, (h a ha).stable old.2 w hw]
          rfl
        rw [strictObject, if_pos ?_, hsame]
        · rfl
        · rw [List.all_eq_true]
          intro field hfield
          rw [← hnames]
          exact decide_eq_true (List.mem_map_of_mem hfield)
      next => cases hparsed
    next => cases hparsed
  readable := by
    intro format given parsed hgiven hparsed
    unfold strictObject at hparsed
    split at hparsed
    next fields =>
      split at hparsed
      next =>
        obtain ⟨result, hresult, rfl⟩ := Option.map_eq_some_iff.mp hparsed
        rw [Json.Readable, Json.readableFields_iff] at hgiven ⊢
        refine ⟨fun b hb => ?_, ?_⟩
        · obtain ⟨a, ha, hab⟩ := exists_of_mem hresult hb
          obtain ⟨old, hold, hmap⟩ := Option.bind_eq_some_iff.mp hab
          obtain ⟨w, hw, rfl⟩ := Option.map_eq_some_iff.mp hmap
          exact (h a ha).readable format old.2 w (hgiven.1 old (Keyed.mem_of_lookup hold)) hw
        · rw [map_fst_of_shape hresult]
          exact hshape
      next => cases hparsed
    next => cases hparsed

/-- **Records are lawful.** -/
theorem lawful_experimentRecordSchema (formats : Formats) :
    Lawful (experimentRecordSchema formats) := by
  have hrecord := lawful_record lawful_jsonValue
  have hnames : (experimentShape formats).map Prod.fst =
      ["schemaVersion", "experimentId", "parentBaselineFingerprint", "lineage", "hypothesis",
        "config", "checkpointSha", "env", "hardware", "codeRevision", "tokenizerHash",
        "chatTemplateHash", "corpusHash", "metrics", "artifactLinks", "status", "timestamp",
        "ownerAgent"] := rfl
  refine lawful_strictObject (by rw [hnames]; decide) fun field hfield => ?_
  simp only [experimentShape, List.mem_cons, List.not_mem_nil, or_false] at hfield
  rcases hfield with rfl | rfl | rfl | rfl | rfl | rfl | rfl | rfl | rfl | rfl | rfl | rfl | rfl |
    rfl | rfl | rfl | rfl | rfl
  · exact_mod_cast @lawful_literal 1 (by decide)
  · exact lawful_regex _
  · exact lawful_regex _
  · exact lawful_regex _
  · exact lawful_trimmed 1000
  · exact hrecord
  · exact lawful_regex _
  · exact lawful_refine hrecord _
  · exact lawful_refine hrecord _
  · exact lawful_regex _
  · exact lawful_regex _
  · exact lawful_regex _
  · exact lawful_regex _
  · exact lawful_record lawful_number
  · exact lawful_array (lawful_string formats.url_url)
  · exact lawful_regex _
  · exact lawful_regex _
  · exact lawful_trimmed 200

end AgentOrchestrator.Registry
