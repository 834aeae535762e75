import AgentOrchestrator.Json
import AgentOrchestrator.Library.Except
import AgentOrchestrator.Library.Keyed
import Mathlib.Data.Rat.Floor

/-!
# The tables of the lease registry

`OrchestratorStorage` keeps its records in an SQLite database whose schema has three versions.
Version 1 has the batches, assignments, sessions, results and events; version 2 adds the
workspace leases and the idempotency records; version 3 adds the fencing columns to the leases
and the ledger of generations.  A table that a schema lacks is `none`, or `absent` for the leases.
The ledger of generations is never dropped, and a database without the table reads as one without
rows.
-/

namespace AgentOrchestrator.Lease

/-! ## Errors -/

/-- The errors of the registry, each with its message. -/
inductive LeaseError where
  /-- `WORKSPACE_WRITER_BUSY` -/
  | writerBusy (message : String)
  /-- `LEASE_FENCED` -/
  | fenced (message : String)
  /-- `LEASE_RECOVERY_AMBIGUOUS` -/
  | recoveryAmbiguous (message : String)
  /-- `LEASE_STATE_CORRUPT` -/
  | stateCorrupt (message : String)
  /-- Any other error, those of SQLite included. -/
  | failure (message : String)
  deriving DecidableEq

/-- `if (condition) throw error`. -/
def refuseIf (condition : Prop) [Decidable condition] (error : LeaseError) :
    Except LeaseError Unit := if condition then .error error else .ok ()

theorem of_refuseIf {condition : Prop} [Decidable condition] {error : LeaseError} {u : Unit}
    (h : refuseIf condition error = .ok u) : ¬ condition := by
  intro hc
  rw [refuseIf, if_pos hc] at h
  cases h

/-! ## Time -/

/-- The milliseconds of a `Date`. -/
abbrev Date := ℤ

/-- The texts `toISOString` prints; they compare as strings. -/
abbrev Timestamp := String

/-- The year, month and day of a day counted from the first of January 1970. -/
def civil (days : ℤ) : ℤ × ℕ × ℕ :=
  let z := days + 719468
  let era := z / 146097
  let dayOfEra := (z % 146097).toNat
  let yearOfEra := (dayOfEra - dayOfEra / 1460 + dayOfEra / 36524 - dayOfEra / 146096) / 365
  let dayOfYear := dayOfEra - (365 * yearOfEra + yearOfEra / 4 - yearOfEra / 100)
  let shifted := (5 * dayOfYear + 2) / 153
  let day := dayOfYear - (153 * shifted + 2) / 5 + 1
  let month := if shifted < 10 then shifted + 3 else shifted - 9
  (yearOfEra + era * 400 + (if month ≤ 2 then 1 else 0), month, day)

/-- The last `width` decimal digits of a number. -/
def digits (width n : ℕ) : List Char :=
  (List.range width).reverse.map fun i => Nat.digitChar (n / 10 ^ i % 10)

/-- How `toISOString` prints a year. -/
def yearDigits (year : ℤ) : List Char :=
  if 0 ≤ year ∧ year ≤ 9999 then digits 4 year.toNat
  else (if year < 0 then '-' else '+') :: digits 6 year.natAbs

/-- `Date.prototype.toISOString`, which throws outside the range of a `Date`. -/
def sqlTimestamp (date : Date) : Except LeaseError Timestamp :=
  if date < -8640000000000000 ∨ 8640000000000000 < date then .error (.failure "Invalid time value")
  else
    let (year, month, day) := civil (date / 86400000)
    let ms := (date % 86400000).toNat
    .ok (String.ofList (yearDigits year ++ '-' :: digits 2 month ++ '-' :: digits 2 day ++
      'T' :: digits 2 (ms / 3600000) ++ ':' :: digits 2 (ms / 60000 % 60) ++
      ':' :: digits 2 (ms / 1000 % 60) ++ '.' :: digits 3 (ms % 1000) ++ ['Z']))

example : sqlTimestamp 1784851199999 = .ok "2026-07-23T23:59:59.999Z" := by decide +kernel

/-- `new Date(value)` drops the fraction of a millisecond. -/
def timeClip (value : ℚ) : Date := if 0 ≤ value then ⌊value⌋ else ⌈value⌉

def cutoff (now : Date) (days : ℚ) : Except LeaseError Timestamp :=
  sqlTimestamp (timeClip (now - days * 86400000))

/-! ## Rows -/

structure BatchRow where
  id : String
  terminalAt : Option Timestamp
  deriving DecidableEq

structure AssignmentRow where
  id : String
  batchId : String
  prompt : Option String
  expectedOutput : Option String
  payloadPurgedAt : Option Timestamp
  deriving DecidableEq

structure SessionRow where
  id : String
  assignmentId : String
  attempt : ℕ
  deriving DecidableEq

structure ResultRow where
  id : String
  sessionId : String
  body : Option String
  artifactsJson : String
  capturedAt : Timestamp
  payloadPurgedAt : Option Timestamp
  deriving DecidableEq

structure IdempotencyRow where
  scope : String
  key : String
  createdAt : Timestamp
  expiresAt : Timestamp
  deriving DecidableEq

/-- A row of the append-only event log; its sequence number is its place in the table. -/
structure EventRow where
  id : String
  aggregateType : String
  aggregateId : String
  eventType : String
  actor : String
  data : Json
  occurredAt : Timestamp
  deriving DecidableEq

inductive LeaseMode where
  | readOnly | writer
  deriving DecidableEq

inductive LeaseState where
  | active | releasing | released | quarantined
  deriving DecidableEq

def LeaseState.text : LeaseState → String
  | .active => "active"
  | .releasing => "releasing"
  | .released => "released"
  | .quarantined => "quarantined"

/-- A row of `workspace_leases` at schema version 2. -/
structure LegacyLease where
  id : String
  workspaceId : String
  mode : LeaseMode
  ownerSessionId : Option String
  ownerBatchId : String
  acquiredAt : Timestamp
  expiresAt : Timestamp
  releasedAt : Option Timestamp
  deriving DecidableEq

/-- A row of `workspace_leases` at schema version 3, with the defaults of the added columns. -/
structure LeaseRow extends LegacyLease where
  generation : ℕ := 1
  fencingTokenDigest : String := ""
  state : LeaseState := .active
  heartbeatAt : Timestamp := ""
  quarantineReason : Option String := none
  rowVersion : ℕ := 1
  serverInstanceId : String := ""
  ownerHost : String := ""
  processId : Option ℤ := none
  processStartToken : Option String := none
  deriving DecidableEq

/-- A row of `workspace_fencing`. -/
structure FencingRow where
  workspaceId : String
  lastGeneration : ℕ
  deriving DecidableEq

/-! ## The database -/

/-- The tables of migration 1. -/
structure CoreTables where
  batches : List BatchRow := []
  assignments : List AssignmentRow := []
  sessions : List SessionRow := []
  results : List ResultRow := []
  events : List EventRow := []
  deriving DecidableEq

inductive LeaseTable where
  | absent
  | legacy (rows : List LegacyLease)
  | fenced (rows : List LeaseRow)
  deriving DecidableEq

/-- The database file.  `ledger` is `schema_migrations`; the idempotency records come and go with
the leases. -/
structure Db where
  ledger : List ℕ := []
  core : Option CoreTables := none
  leases : LeaseTable := .absent
  idempotency : List IdempotencyRow := []
  fencing : List FencingRow := []
  deriving DecidableEq

/-- `schemaVersion()`: the newest migration in the ledger. -/
def schemaVersion (db : Db) : ℕ := db.ledger.foldl max 0

/-- The tables of migration 1, or the error of a statement that names one of them. -/
def coreTables (db : Db) : Except LeaseError CoreTables :=
  match db.core with
  | none => .error (.failure "no such table: events")
  | some core => .ok core

/-- The leases with their fencing columns, or the error of a statement that names one. -/
def leaseRows (db : Db) : Except LeaseError (List LeaseRow) :=
  match db.leases with
  | .absent => .error (.failure "no such table: workspace_leases")
  | .legacy _ => .error (.failure "no such column: state")
  | .fenced rows => .ok rows

/-- A writer lease that is not released. -/
def LeaseRow.Blocks (r : LeaseRow) : Prop := r.mode = .writer ∧ r.state ≠ .released

instance (r : LeaseRow) : Decidable r.Blocks := inferInstanceAs (Decidable (_ ∧ _))

/-- A writer lease of schema version 2 that is not released. -/
def LegacyLease.Blocks (r : LegacyLease) : Prop := r.mode = .writer ∧ r.releasedAt = none

instance (r : LegacyLease) : Decidable r.Blocks := inferInstanceAs (Decidable (_ ∧ _))

/-- The condition of the unique index `one_active_writer_per_workspace` of version 2. -/
def oneLegacyWriter (rows : List LegacyLease) : Bool :=
  decide ((rows.filter fun r => r.Blocks).map (·.workspaceId)).Nodup

/-- The condition of the unique index `one_active_writer_per_workspace` of version 3. -/
def oneActiveWriter (rows : List LeaseRow) : Bool :=
  decide ((rows.filter fun r => r.Blocks).map (·.workspaceId)).Nodup

/-! ## The ledger of generations -/

/-- `lastAllocatedGeneration`: the highest generation of a workspace, 0 without a row. -/
def lastAllocatedGeneration (workspaceId : String) (rows : List FencingRow) : ℕ :=
  match Keyed.lookup FencingRow.workspaceId workspaceId rows with
  | none => 0
  | some row => row.lastGeneration

/-- `INSERT … ON CONFLICT(workspace_id) DO UPDATE`: a new row with `first`, or the old row with
its generation mapped by `next`. -/
def upsertGeneration (workspaceId : String) (first : ℕ) (next : ℕ → ℕ) (rows : List FencingRow) :
    List FencingRow :=
  match Keyed.lookup FencingRow.workspaceId workspaceId rows with
  | none => rows ++ [⟨workspaceId, first⟩]
  | some row => Keyed.put FencingRow.workspaceId ⟨workspaceId, next row.lastGeneration⟩ rows

theorem lastAllocatedGeneration_upsert (workspaceId other : String) (first : ℕ) (next : ℕ → ℕ)
    (rows : List FencingRow) :
    lastAllocatedGeneration other (upsertGeneration workspaceId first next rows) =
      if other = workspaceId then
        (if Keyed.lookup FencingRow.workspaceId workspaceId rows = none then first
          else next (lastAllocatedGeneration workspaceId rows))
      else lastAllocatedGeneration other rows := by
  unfold upsertGeneration
  cases h : Keyed.lookup FencingRow.workspaceId workspaceId rows with
  | none =>
    have hnone := Keyed.lookup_eq_none.1 h
    unfold lastAllocatedGeneration
    by_cases ho : other = workspaceId
    · subst ho
      have hfind : Keyed.lookup FencingRow.workspaceId other (rows ++ [⟨other, first⟩]) =
          some ⟨other, first⟩ := by
        unfold Keyed.lookup at h ⊢
        rw [List.find?_append, h]
        simp
      rw [hfind]
      simp
    · have hfind : Keyed.lookup FencingRow.workspaceId other (rows ++ [⟨workspaceId, first⟩]) =
          Keyed.lookup FencingRow.workspaceId other rows := by
        unfold Keyed.lookup
        rw [List.find?_append]
        simp [Ne.symm ho]
      rw [hfind, if_neg ho]
  | some row =>
    have hkey := Keyed.key_of_lookup h
    unfold lastAllocatedGeneration
    by_cases ho : other = workspaceId
    · subst ho
      have hput : Keyed.lookup FencingRow.workspaceId other
          (Keyed.put FencingRow.workspaceId ⟨other, next row.lastGeneration⟩ rows) =
          some ⟨other, next row.lastGeneration⟩ :=
        @Keyed.lookup_put_self _ _ _ FencingRow.workspaceId ⟨other, _⟩ rows
          ⟨row, Keyed.mem_of_lookup h, hkey⟩
      dsimp only
      rw [hput, h]
      simp
    · have hput : Keyed.lookup FencingRow.workspaceId other
          (Keyed.put FencingRow.workspaceId ⟨workspaceId, next row.lastGeneration⟩ rows) =
          Keyed.lookup FencingRow.workspaceId other rows := Keyed.lookup_put_of_ne ho rows
      dsimp only
      rw [hput, if_neg ho]

/-- An acquisition allocates the generation after the last one, and no other workspace's. -/
theorem lastAllocatedGeneration_next (workspaceId other : String) (rows : List FencingRow) :
    lastAllocatedGeneration other (upsertGeneration workspaceId 1 (· + 1) rows) =
      if other = workspaceId then lastAllocatedGeneration workspaceId rows + 1
      else lastAllocatedGeneration other rows := by
  rw [lastAllocatedGeneration_upsert]
  by_cases ho : other = workspaceId
  · rw [if_pos ho, if_pos ho]
    by_cases hn : Keyed.lookup FencingRow.workspaceId workspaceId rows = none
    · have hzero : lastAllocatedGeneration workspaceId rows = 0 := by
        unfold lastAllocatedGeneration
        rw [hn]
      rw [if_pos hn, hzero]
    · rw [if_neg hn]
  · rw [if_neg ho, if_neg ho]

end AgentOrchestrator.Lease
