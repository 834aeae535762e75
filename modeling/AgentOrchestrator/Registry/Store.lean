import AgentOrchestrator.Library.Except
import AgentOrchestrator.Library.Runs
import AgentOrchestrator.Library.Utf8Lines
import AgentOrchestrator.Registry.Schema

/-!
# The experiment registry

The registry is a file with a record on each line.  A call reads the whole file while it holds the
lock of the file, and `add` appends its line in one or more writes.  Every continuation after an
`await` is a step, and so is the failure of whatever a call awaits: a write that fails, or makes no
progress, after an earlier write of the same line leaves the bytes of that write in the file.
-/

namespace AgentOrchestrator.Registry

/-! ## Reading -/

/-- What the registry takes from its surroundings. -/
structure Runtime where
  formats : Formats
  text : Json.NumberFormat
  localeCompare : String → String → Ordering
  baselineCatalogPath : String

/-- Why a call rejects: an error with a message, an error of the schema library or of the system. -/
inductive Failure where
  | message (text : String)
  | schema
  | system
  deriving DecidableEq

/-- A record that the schema accepts as it is. -/
structure ExperimentRecord (formats : Formats) where
  json : Json
  valid : experimentRecordSchema formats json = some json
  deriving DecidableEq

/-- A field of an object. -/
def fieldOf (name : String) : Json → Option Json
  | .obj fields => (Keyed.lookup Prod.fst name fields).map Prod.snd
  | _ => none

/-- The text of a field, as the messages show it. -/
def textOf (name : String) (value : Json) : String :=
  match fieldOf name value with
  | some (.str text) => text
  | _ => "undefined"

namespace ExperimentRecord

variable {formats : Formats} (record : ExperimentRecord formats)

def experimentId : Option Json := fieldOf "experimentId" record.json

def checkpointSha : Option Json := fieldOf "checkpointSha" record.json

def lineage : Option Json := fieldOf "lineage" record.json

def parentBaselineFingerprint : Option Json := fieldOf "parentBaselineFingerprint" record.json

end ExperimentRecord

section Reading

variable (rt : Runtime)

def parseRecord (value : Json) : Option (ExperimentRecord rt.formats) :=
  match h : experimentRecordSchema rt.formats value with
  | none => none
  | some json => some ⟨json, (lawful_experimentRecordSchema rt.formats).stable value json h⟩

/-- The records of the lines, which count from `index`. -/
def parseLines : ℕ → List (List Char) → Except Failure (List (ExperimentRecord rt.formats))
  | _, [] => .ok []
  | index, line :: lines =>
    match (Json.parse line).bind (parseRecord rt) with
    | none => .error (.message ("Invalid registry record on line " ++ toString (index + 1)))
    | some record => (parseLines (index + 1) lines).map (record :: ·)

/-- No experiment id is there twice. -/
def checkIds : List (Option Json) → List (ExperimentRecord rt.formats) → Except Failure Unit
  | _, [] => .ok ()
  | ids, record :: records =>
    if record.experimentId ∈ ids then
      .error (.message
        ("Duplicate experiment ID in registry: " ++ textOf "experimentId" record.json))
    else checkIds (record.experimentId :: ids) records

def readUnlocked (file : Option (List ℕ)) : Except Failure (List (ExperimentRecord rt.formats)) :=
  match file with
  | none => .ok []
  | some bytes =>
    let contents := Utf8.decode bytes
    if contents.length > 0 ∧ contents.getLast? ≠ some '\n' then
      .error (.message "Registry has a truncated final line")
    else do
      let records ← parseLines rt 0 ((contents.splitOn '\n').filter (· ≠ []))
      checkIds rt [] records
      return records

/-- The baselines of the catalog file, `none` when it cannot be read. -/
def readBaselines (catalog : Option (List ℕ)) : Except Failure (List Json) :=
  let parsed := catalog.bind fun bytes =>
    (Json.parse (Utf8.decode bytes)).bind fun value =>
      match baselineCatalogSchema value with
      | some (.arr baselines) =>
        if (baselines.map (fieldOf "fingerprint")).Nodup then some baselines else none
      | _ => none
  match parsed with
  | none => .error (.message ("Invalid baseline catalog: " ++ rt.baselineCatalogPath))
  | some baselines => .ok baselines

def validateBaselineLinks (records : List (ExperimentRecord rt.formats)) (baselines : List Json) :
    Except Failure Unit :=
  let fingerprints := baselines.map (fieldOf "fingerprint")
  match records.find? fun record => record.parentBaselineFingerprint ∉ fingerprints with
  | none => .ok ()
  | some orphan =>
    .error (.message ("Experiment " ++ textOf "experimentId" orphan.json ++
      " references unknown baseline fingerprint " ++
      textOf "parentBaselineFingerprint" orphan.json))

end Reading

/-! ## Adding -/

/-- What `add` is called with: the fields of its input, a value of the language, and the id and the
time it would generate. -/
structure Input (rt : Runtime) where
  fields : List (String × Json)
  readable : Json.Readable rt.text (.obj fields)
  createId : String
  now : String

/-- A defined field of the input, or else a text. -/
def given (name : String) (fields : List (String × Json)) (text : String) : Json :=
  match Keyed.lookup Prod.fst name fields with
  | none => .str text
  | some field => if field.2 = .null then .str text else field.2

/-- The input with the fields that `add` sets. -/
def completed {rt : Runtime} (input : Input rt) : Json :=
  .obj (Json.assign "timestamp" (given "timestamp" input.fields input.now)
    (Json.assign "experimentId" (given "experimentId" input.fields ("exp_" ++ input.createId))
      (Json.assign "schemaVersion" (.nat 1) input.fields)))

section Adding

variable (rt : Runtime)

/-- The line of a record. -/
def serialized (record : ExperimentRecord rt.formats) : List ℕ :=
  Utf8.encode (Json.print rt.text record.json ++ ['\n'])

def sameCheckpoint (record existing : ExperimentRecord rt.formats) : Bool :=
  existing.checkpointSha = record.checkpointSha && existing.lineage ≠ record.lineage

/-- `add` between the reading of the registry and the opening of the file. -/
def checkAdd (records : List (ExperimentRecord rt.formats)) (catalog : Option (List ℕ))
    (input : Input rt) : Except Failure (ExperimentRecord rt.formats) := do
  let record ← (match parseRecord rt (completed input) with
    | none => .error .schema
    | some record => .ok record)
  let baselines ← readBaselines rt catalog
  validateBaselineLinks rt records baselines
  if record.parentBaselineFingerprint ∉ baselines.map (fieldOf "fingerprint") then
    .error (.message ("Unknown baseline fingerprint: " ++
      textOf "parentBaselineFingerprint" record.json))
  else if record.experimentId ∈ records.map (·.experimentId) then
    .error (.message ("Experiment already exists: " ++ textOf "experimentId" record.json))
  else
    match records.find? (sameCheckpoint rt record) with
    | some conflictingLineage =>
      .error (.message ("Checkpoint " ++ textOf "checkpointSha" record.json ++
        " already belongs to lineage " ++ textOf "lineage" conflictingLineage.json))
    | none =>
      if (serialized rt record).length > 1048576 then
        .error (.message "Experiment record exceeds 1 MiB")
      else .ok record

structure ExperimentQuery where
  hypothesis : Option String := none
  checkpointSha : Option String := none
  parentBaselineFingerprint : Option String := none
  status : Option String := none
  ownerAgent : Option String := none

/-- The fields of a query, by their names. -/
def ExperimentQuery.entries (query : ExperimentQuery) : List (String × Option String) :=
  [("hypothesis", query.hypothesis), ("checkpointSha", query.checkpointSha),
    ("parentBaselineFingerprint", query.parentBaselineFingerprint), ("status", query.status),
    ("ownerAgent", query.ownerAgent)]

def ExperimentQuery.selects (query : ExperimentQuery) (record : ExperimentRecord rt.formats) :
    Bool :=
  query.entries.all fun entry =>
    match entry.2 with
    | none => true
    | some value => fieldOf entry.1 record.json = some (.str value)

/-- The order of the answers: by time, then by id. -/
def notAfter (left right : ExperimentRecord rt.formats) : Bool :=
  (rt.localeCompare (textOf "timestamp" left.json) (textOf "timestamp" right.json)).then
    (rt.localeCompare (textOf "experimentId" left.json) (textOf "experimentId" right.json)) ≠ .gt

/-- `query` after the reading of the registry. -/
def answer (records : List (ExperimentRecord rt.formats)) (catalog : Option (List ℕ))
    (query : ExperimentQuery) : Except Failure (List (ExperimentRecord rt.formats)) := do
  let baselines ← readBaselines rt catalog
  validateBaselineLinks rt records baselines
  return (records.filter (query.selects rt)).mergeSort (notAfter rt)

/-! ## The machine -/

inductive Call where
  | add (input : Input rt)
  | query (query : ExperimentQuery)

/-- How far the call that holds the lock is. -/
inductive Phase where
  | locked
  /-- the line of a record, and what of it is still to be written -/
  | appending (record : ExperimentRecord rt.formats) (line rest : List ℕ)
  | answering (records : List (ExperimentRecord rt.formats))

inductive Outcome where
  | added (record : ExperimentRecord rt.formats)
  | answered (records : List (ExperimentRecord rt.formats))
  | rejected (failure : Failure)

/-- The bytes of the file, the call that holds the lock, and what the calls have returned. -/
structure State where
  file : Option (List ℕ) := none
  active : Option (Call rt × Phase rt) := none
  outcomes : List (Outcome rt) := []

inductive Step where
  /-- a call, before it waits for the lock, creates the file when it is missing -/
  | touch
  /-- a call fails before it has the lock -/
  | refuse
  | acquire (call : Call rt)
  /-- the registry is read, and the catalog as it is by then -/
  | read (catalog : Option (List ℕ))
  /-- one write of some bytes -/
  | write (count : ℕ)
  /-- what the call awaits fails, or its process ends -/
  | fail
  /-- the file is synced and closed, and the lock is released -/
  | finish

variable {rt}

/-- The call that holds the lock is over. -/
def State.leave (s : State rt) (outcome : Outcome rt) : State rt :=
  { s with active := none, outcomes := s.outcomes ++ [outcome] }

def State.enter (s : State rt) (call : Call rt) (phase : Phase rt) : State rt :=
  { s with active := some (call, phase) }

def State.touch (s : State rt) : State rt := { s with file := some (s.file.getD []) }

/-- The reading of a call, up to its next wait. -/
def readStep (s : State rt) (catalog : Option (List ℕ)) : Call rt → State rt
  | .add input =>
    match (readUnlocked rt s.file).bind fun records => checkAdd rt records catalog input with
    | .error failure => s.leave (.rejected failure)
    | .ok record =>
      s.enter (.add input) (.appending record (serialized rt record) (serialized rt record))
  | .query query =>
    match (readUnlocked rt s.file).bind fun records => answer rt records catalog query with
    | .error failure => s.leave (.rejected failure)
    | .ok records => s.enter (.query query) (.answering records)

def step (s : State rt) (i : Step rt) : State rt :=
  match i, s.active with
  | .touch, _ => s.touch
  | .refuse, _ => { s with outcomes := s.outcomes ++ [.rejected .system] }
  | .acquire call, none => s.touch.enter call .locked
  | .read catalog, some (call, .locked) => readStep s catalog call
  | .write count, some (call, .appending record line rest) =>
    if 0 < count ∧ count ≤ rest.length then
      { s.enter call (.appending record line (rest.drop count)) with
        file := some (s.file.getD [] ++ rest.take count) }
    else s
  | .fail, some _ => s.leave (.rejected .system)
  | .finish, some (_, .appending record _ []) => s.leave (.added record)
  | .finish, some (_, .answering records) => s.leave (.answered records)
  | _, _ => s

end Adding

end AgentOrchestrator.Registry
