import AgentOrchestrator.Lease.Schema

/-!
# The operations of `OrchestratorStorage` on leases

Each operation takes its arguments, the identifiers it draws and the database, and returns its
result with the new database.  An operation that throws returns an `error` and no database:
`transaction` rolls back, so the old one stands.  `tokenDigest` is the hexadecimal SHA-256 digest
of a fencing token.
-/

namespace AgentOrchestrator.Lease

/-- Private bearer authority for one writer generation. -/
structure LeaseAuthority where
  leaseId : String
  workspaceId : String
  ownerSessionId : Option String
  ownerBatchId : String
  generation : ℕ
  fencingToken : String
  rowVersion : ℕ
  expiresAt : Timestamp
  serverInstanceId : String
  ownerHost : String
  processId : Option ℤ
  processStartToken : Option String
  deriving DecidableEq

/-- What a reader sees of a lease: every column but the mode and the token digest. -/
structure WorkspaceLeaseStatus where
  leaseId : String
  workspaceId : String
  ownerSessionId : Option String
  ownerBatchId : String
  generation : ℕ
  state : LeaseState
  acquiredAt : Timestamp
  heartbeatAt : Timestamp
  expiresAt : Timestamp
  releasedAt : Option Timestamp
  quarantineReason : Option String
  rowVersion : ℕ
  serverInstanceId : String
  ownerHost : String
  processId : Option ℤ
  processStartToken : Option String
  deriving DecidableEq

/-- `LEASE_COLUMNS` of a row. -/
def LeaseRow.status (r : LeaseRow) : WorkspaceLeaseStatus where
  leaseId := r.id
  workspaceId := r.workspaceId
  ownerSessionId := r.ownerSessionId
  ownerBatchId := r.ownerBatchId
  generation := r.generation
  state := r.state
  acquiredAt := r.acquiredAt
  heartbeatAt := r.heartbeatAt
  expiresAt := r.expiresAt
  releasedAt := r.releasedAt
  quarantineReason := r.quarantineReason
  rowVersion := r.rowVersion
  serverInstanceId := r.serverInstanceId
  ownerHost := r.ownerHost
  processId := r.processId
  processStartToken := r.processStartToken

/-! ## Statements -/

/-- `UPDATE workspace_leases SET … WHERE …` for a condition that fixes the primary key: the
updated row and the new table, `none` when no row meets the condition. -/
def updateLease (p : LeaseRow → Bool) (f : LeaseRow → LeaseRow) (rows : List LeaseRow) :
    Option (LeaseRow × List LeaseRow) :=
  match rows.find? p with
  | none => none
  | some r => some (f r, Keyed.put (·.id) (f r) rows)

/-- `INSERT INTO workspace_leases`, with the primary key, the unique index and the foreign keys
of the table. -/
def insertLease (row : LeaseRow) (core : CoreTables) (rows : List LeaseRow) :
    Except LeaseError (List LeaseRow) :=
  if rows.any (·.id = row.id) then .error (.failure "UNIQUE constraint failed: workspace_leases.id")
  else if !oneActiveWriter (rows ++ [row]) then
    .error (.failure "UNIQUE constraint failed: workspace_leases.workspace_id")
  else if !core.batches.any (·.id = row.ownerBatchId) then
    .error (.failure "FOREIGN KEY constraint failed")
  else if !row.ownerSessionId.all fun s => core.sessions.any (·.id = s) then
    .error (.failure "FOREIGN KEY constraint failed")
  else .ok (rows ++ [row])

/-- `appendEvent`, with the identifier it draws. -/
def appendEvent (id aggregateType aggregateId eventType actor : String) (data : Json)
    (occurredAt : Date) (db : Db) : Except LeaseError Db := do
  let core ← coreTables db
  let timestamp ← sqlTimestamp occurredAt
  refuseIf (core.events.any (·.id = id)) (.failure "UNIQUE constraint failed: events.id")
  let event : EventRow := ⟨id, aggregateType, aggregateId, eventType, actor, data, timestamp⟩
  return { db with core := some { core with events := core.events ++ [event] } }

/-- `recordPolicyDenial`; the data carries the code last. -/
def recordPolicyDenial (workspaceId code actor : String) (data : List (String × Json))
    (now : Date) (eventId : String) (db : Db) : Except LeaseError Db :=
  appendEvent eventId "workspace" workspaceId "policy_denied" actor
    (.obj (data ++ [("code", .str code)])) now db

/-! ## Ownership -/

variable (tokenDigest : String → String)

/-- `ownershipPredicate` with `ownershipValues`: every fact a caller must present to act as the
current writer generation. -/
def ownership (a : LeaseAuthority) (r : LeaseRow) : Bool :=
  r.id = a.leaseId && r.workspaceId = a.workspaceId && r.generation = a.generation &&
  r.fencingTokenDigest = tokenDigest a.fencingToken && r.ownerBatchId = a.ownerBatchId &&
  r.ownerSessionId = a.ownerSessionId && r.serverInstanceId = a.serverInstanceId &&
  r.ownerHost = a.ownerHost && r.processId = a.processId &&
  r.processStartToken = a.processStartToken && r.rowVersion = a.rowVersion

/-- The actor of an event an owner causes. -/
def LeaseAuthority.actor (a : LeaseAuthority) : String := a.ownerSessionId.getD a.ownerBatchId

/-! ## Acquisition -/

/-- The characters `String.prototype.trim` removes. -/
def isTrimmed (c : Char) : Bool :=
  (9 ≤ c.toNat && c.toNat ≤ 13) || c.toNat = 32 || c.toNat = 0xA0 || c.toNat = 0x1680 ||
  (0x2000 ≤ c.toNat && c.toNat ≤ 0x200A) || c.toNat = 0x2028 || c.toNat = 0x2029 ||
  c.toNat = 0x202F || c.toNat = 0x205F || c.toNat = 0x3000 || c.toNat = 0xFEFF

structure AcquireInput where
  workspaceId : String
  ownerSessionId : Option String := none
  ownerBatchId : String
  /-- `none` stands for a number that is not finite. -/
  ttlMs : Option ℚ
  serverInstanceId : Option String := none
  ownerHost : Option String := none
  processId : Option ℤ := none
  processStartToken : Option String := none
  now : Date
  deriving DecidableEq

/-- The random values one acquisition draws. -/
structure AcquireDraws where
  token : String
  leaseId : String
  eventId : String
  denialId : String
  deriving DecidableEq

/-- The check of a duration, which must be finite and positive. -/
def checkTtl : Option ℚ → Except LeaseError ℚ
  | none => .error (.failure "ttlMs must be positive")
  | some ttl => if ttl ≤ 0 then .error (.failure "ttlMs must be positive") else .ok ttl

/-- The row an acquisition inserts. -/
def acquiredRow (input : AcquireInput) (draws : AcquireDraws) (generation : ℕ)
    (timestamp expiresAt : Timestamp) : LeaseRow where
  id := draws.leaseId
  workspaceId := input.workspaceId
  mode := .writer
  ownerSessionId := input.ownerSessionId
  ownerBatchId := input.ownerBatchId
  acquiredAt := timestamp
  expiresAt := expiresAt
  releasedAt := none
  generation := generation
  fencingTokenDigest := tokenDigest draws.token
  state := .active
  heartbeatAt := timestamp
  quarantineReason := none
  rowVersion := 1
  serverInstanceId := input.serverInstanceId.getD ""
  ownerHost := input.ownerHost.getD ""
  processId := input.processId
  processStartToken := input.processStartToken

/-- The authority an acquisition returns. -/
def acquiredAuthority (input : AcquireInput) (draws : AcquireDraws) (generation : ℕ)
    (expiresAt : Timestamp) : LeaseAuthority where
  leaseId := draws.leaseId
  workspaceId := input.workspaceId
  ownerSessionId := input.ownerSessionId
  ownerBatchId := input.ownerBatchId
  generation := generation
  fencingToken := draws.token
  rowVersion := 1
  expiresAt := expiresAt
  serverInstanceId := input.serverInstanceId.getD ""
  ownerHost := input.ownerHost.getD ""
  processId := input.processId
  processStartToken := input.processStartToken

def AcquireInput.actor (input : AcquireInput) : String :=
  input.ownerSessionId.getD input.ownerBatchId

/-- The transaction of `acquireWriterLease`: the authority, or the state of the lease that denies
it. -/
def acquireTransaction (input : AcquireInput) (ttl : ℚ) (draws : AcquireDraws) (db : Db) :
    Except LeaseError ((LeaseAuthority ⊕ LeaseState) × Db) := do
  let rows ← leaseRows db
  match rows.find? fun r => r.workspaceId = input.workspaceId && r.Blocks with
  | some existing => return (.inr existing.state, db)
  | none =>
    let fencing := upsertGeneration input.workspaceId 1 (· + 1) db.fencing
    let generation := lastAllocatedGeneration input.workspaceId fencing
    let timestamp ← sqlTimestamp input.now
    let expiresAt ← sqlTimestamp (timeClip (input.now + ttl))
    let core ← coreTables db
    let rows ← insertLease (acquiredRow tokenDigest input draws generation timestamp expiresAt)
      core rows
    let db ← appendEvent draws.eventId "workspace_lease" draws.leaseId "lease_acquired"
      input.actor (.obj [("workspaceId", .str input.workspaceId), ("generation", .nat generation),
        ("serverInstanceId", .str (input.serverInstanceId.getD ""))]) input.now
      { db with leases := .fenced rows, fencing := fencing }
    return (.inl (acquiredAuthority input draws generation expiresAt), db)

/-- `acquireWriterLease`.  A denial is recorded after its transaction and then thrown, so it
comes with the database that holds the record. -/
def acquireWriterLease (input : AcquireInput) (draws : AcquireDraws) (db : Db) :
    Except LeaseError LeaseAuthority × Db :=
  if input.workspaceId.toList.all isTrimmed then
    (.error (.failure "workspaceId must not be empty"), db)
  else
    match checkTtl input.ttlMs with
    | .error e => (.error e, db)
    | .ok ttl =>
      match acquireTransaction tokenDigest input ttl draws db with
      | .error e => (.error e, db)
      | .ok (.inl authority, db') => (.ok authority, db')
      | .ok (.inr deniedState, db') =>
        match recordPolicyDenial input.workspaceId "WORKSPACE_WRITER_BUSY" input.actor
            [("state", .str deniedState.text)] input.now draws.denialId db' with
        | .error e => (.error e, db')
        | .ok db'' =>
          (.error (.writerBusy "Workspace already has an authoritative writer generation"), db'')

/-! ## The owner's operations -/

/-- The row a process is bound to. -/
def LeaseRow.bindProcess (processId : ℤ) (processStartToken : String) (r : LeaseRow) : LeaseRow :=
  { r with processId := some processId, processStartToken := some processStartToken
           rowVersion := r.rowVersion + 1 }

/-- The row with a renewed expiry. -/
def LeaseRow.renew (heartbeatAt expiresAt : Timestamp) (r : LeaseRow) : LeaseRow :=
  { r with heartbeatAt := heartbeatAt, expiresAt := expiresAt, rowVersion := r.rowVersion + 1 }

/-- The row in the first phase of its release. -/
def LeaseRow.beginRelease (r : LeaseRow) : LeaseRow :=
  { r with state := .releasing, rowVersion := r.rowVersion + 1 }

/-- The row released. -/
def LeaseRow.retire (releasedAt : Timestamp) (r : LeaseRow) : LeaseRow :=
  { r with state := .released, releasedAt := some releasedAt, rowVersion := r.rowVersion + 1 }

/-- The row quarantined. -/
def LeaseRow.quarantine (reason : String) (r : LeaseRow) : LeaseRow :=
  { r with state := .quarantined, quarantineReason := some reason
           rowVersion := r.rowVersion + 1 }

def bindWriterProcess (a : LeaseAuthority) (processId : ℤ) (processStartToken : String)
    (now : Date) (eventId : String) (db : Db) : Except LeaseError (LeaseAuthority × Db) := do
  let rows ← leaseRows db
  match updateLease (fun r => ownership tokenDigest a r && r.state = .active)
      (LeaseRow.bindProcess processId processStartToken) rows with
  | none => throw (.fenced "Process binding rejected because authority is stale")
  | some (r, rows) =>
    let db ← appendEvent eventId "workspace_lease" a.leaseId "lease_process_bound" a.actor
      (.obj [("generation", .nat a.generation)]) now { db with leases := .fenced rows }
    return ({ a with processId := some processId, processStartToken := some processStartToken
                     rowVersion := r.rowVersion }, db)

def heartbeatWriterLease (a : LeaseAuthority) (ttlMs : Option ℚ) (now : Date) (eventId : String)
    (db : Db) : Except LeaseError (LeaseAuthority × Db) := do
  let ttl ← checkTtl ttlMs
  let heartbeatAt ← sqlTimestamp now
  let expiresAt ← sqlTimestamp (timeClip (now + ttl))
  let rows ← leaseRows db
  match updateLease (fun r => ownership tokenDigest a r && r.state = .active &&
      decide (heartbeatAt < r.expiresAt)) (LeaseRow.renew heartbeatAt expiresAt) rows with
  | none => throw (.fenced "Lease heartbeat rejected because authority is stale or expired")
  | some (r, rows) =>
    let db ← appendEvent eventId "workspace_lease" a.leaseId "lease_heartbeat" a.actor
      (.obj [("generation", .nat a.generation)]) now { db with leases := .fenced rows }
    return ({ a with rowVersion := r.rowVersion, expiresAt := expiresAt }, db)

/-- Throws unless the caller still owns the live current generation. -/
def assertWriterLease (a : LeaseAuthority) (now : Date) (db : Db) : Except LeaseError Unit := do
  let rows ← leaseRows db
  let timestamp ← sqlTimestamp now
  refuseIf (¬ rows.any fun r => ownership tokenDigest a r && r.state = .active &&
    decide (timestamp < r.expiresAt))
    (.fenced "Writer does not hold the current live lease generation")

/-- Two-phase release: `active` to `releasing` under compare-and-set, then `releasing` to
`released`. -/
def releaseWriterLease (a : LeaseAuthority) (now : Date) (eventId : String) (db : Db) :
    Except LeaseError Db := do
  let digest := tokenDigest a.fencingToken
  let rows ← leaseRows db
  match updateLease (fun r => ownership tokenDigest a r && r.state = .active)
      LeaseRow.beginRelease rows with
  | none => throw (.fenced "Lease release rejected because authority is stale")
  | some (releasing, rows) =>
    let timestamp ← sqlTimestamp now
    match updateLease (fun r => r.id = a.leaseId && r.generation = a.generation &&
        r.fencingTokenDigest = digest && r.state = .releasing &&
        r.rowVersion = releasing.rowVersion) (LeaseRow.retire timestamp) rows with
    | none => throw (.stateCorrupt "Lease release could not complete its second phase")
    | some (_, rows) =>
      appendEvent eventId "workspace_lease" a.leaseId "lease_released" a.actor
        (.obj [("generation", .nat a.generation)]) now { db with leases := .fenced rows }

/-! ## Recovery -/

/-- The evidence a recovery or a repair presents; its flag must be the boolean `true`. -/
structure Evidence where
  ownerProcessAbsent : Bool
  detail : Option String := none
  deriving DecidableEq

def recoverExpiredWriterLease (observed : WorkspaceLeaseStatus) (evidence : Evidence)
    (actor : String) (now : Date) (eventId : String) (db : Db) : Except LeaseError Db := do
  let timestamp ← sqlTimestamp now
  refuseIf (observed.state ≠ .active ∨ timestamp < observed.expiresAt)
    (.recoveryAmbiguous "Recovery requires an expired active lease")
  refuseIf (¬ evidence.ownerProcessAbsent)
    (.recoveryAmbiguous "Recovery requires verified owner-process absence")
  let rows ← leaseRows db
  match updateLease (fun r => r.id = observed.leaseId && r.generation = observed.generation &&
      r.state = .active && r.rowVersion = observed.rowVersion &&
      r.expiresAt = observed.expiresAt) (LeaseRow.retire timestamp) rows with
  | none => throw (.fenced "Lease recovery rejected because the observed authority changed")
  | some (_, rows) =>
    appendEvent eventId "workspace_lease" observed.leaseId "lease_recovered" actor
      (Json.defined [("workspaceId", some (.str observed.workspaceId)),
        ("generation", some (.nat observed.generation)),
        ("evidence", some (.str "owner_process_absent")),
        ("detail", evidence.detail.map .str)]) now { db with leases := .fenced rows }

/-- Freezes a lease whose evidence is inconclusive. -/
def quarantineWriterLease (observed : WorkspaceLeaseStatus) (reason actor : String) (now : Date)
    (eventId : String) (db : Db) : Except LeaseError Db := do
  refuseIf (observed.state ≠ .active ∧ observed.state ≠ .releasing)
    (.stateCorrupt "Only an active or releasing lease can be quarantined")
  let rows ← leaseRows db
  match updateLease (fun r => r.id = observed.leaseId && r.generation = observed.generation &&
      r.state = observed.state && r.rowVersion = observed.rowVersion)
      (LeaseRow.quarantine reason) rows with
  | none => throw (.fenced "Lease quarantine rejected because the observed authority changed")
  | some (r, rows) =>
    appendEvent eventId "workspace_lease" observed.leaseId "lease_quarantined" actor
      (.obj [("workspaceId", .str r.workspaceId), ("generation", .nat r.generation),
        ("reason", .str reason)]) now { db with leases := .fenced rows }

/-- Retires a quarantined generation. -/
def repairQuarantinedWriterLease (observed : WorkspaceLeaseStatus) (evidence : Evidence)
    (actor : String) (now : Date) (eventId : String) (db : Db) : Except LeaseError Db := do
  refuseIf (¬ evidence.ownerProcessAbsent)
    (.recoveryAmbiguous "Repair requires verified owner-process absence")
  let rows ← leaseRows db
  let timestamp ← sqlTimestamp now
  match updateLease (fun r => r.id = observed.leaseId && r.generation = observed.generation &&
      r.state = .quarantined && r.rowVersion = observed.rowVersion)
      (LeaseRow.retire timestamp) rows with
  | none => throw (.fenced "Lease repair rejected because the observed authority changed")
  | some (r, rows) =>
    appendEvent eventId "workspace_lease" observed.leaseId "lease_repaired" actor
      (Json.defined [("workspaceId", some (.str r.workspaceId)),
        ("generation", some (.nat r.generation)),
        ("quarantineReason", some (Json.optStr r.quarantineReason)),
        ("detail", evidence.detail.map .str)]) now { db with leases := .fenced rows }

/-! ## Reads -/

/-- `ORDER BY generation DESC LIMIT 1`: the first row of the highest generation. -/
def newest : List LeaseRow → Option LeaseRow
  | [] => none
  | r :: rows =>
    match newest rows with
    | none => some r
    | some s => if r.generation < s.generation then some s else some r

/-- `workspaceLeaseStatus`: the latest generation of the workspace, released or not. -/
def workspaceLeaseStatus (workspaceId : String) (db : Db) :
    Except LeaseError (Option WorkspaceLeaseStatus) := do
  let rows ← leaseRows db
  return (newest (rows.filter fun r => r.workspaceId = workspaceId)).map LeaseRow.status

def workspaceLeaseById (leaseId : String) (db : Db) :
    Except LeaseError (Option WorkspaceLeaseStatus) := do
  let rows ← leaseRows db
  return (rows.find? fun r => r.id = leaseId).map LeaseRow.status

/-- `blockingWriterLease`: the lease that currently blocks admission, if any. -/
def blockingWriterLease (workspaceId : String) (db : Db) :
    Except LeaseError (Option WorkspaceLeaseStatus) := do
  let rows ← leaseRows db
  return (newest (rows.filter fun r => r.workspaceId = workspaceId && r.Blocks)).map
    LeaseRow.status

/-! ## Retention -/

structure StorageOptions where
  resultRetentionDays : ℚ := 30
  idempotencyRetentionDays : ℚ := 7
  deriving DecidableEq

structure CleanupSummary where
  assignmentsRedacted : ℕ
  resultsRedacted : ℕ
  idempotencyDeleted : ℕ
  leasesDeleted : ℕ
  deriving DecidableEq

/-- `NULL < text` is not true. -/
def before (time : Option Timestamp) (limit : Timestamp) : Bool := time.any (· < limit)

/-- The assignments whose payload is due: their batch ended before the cutoff. -/
def duePayload (core : CoreTables) (limit : Timestamp) (a : AssignmentRow) : Bool :=
  a.payloadPurgedAt.isNone && core.batches.any fun b => b.id = a.batchId && before b.terminalAt limit

def dueResult (limit : Timestamp) (r : ResultRow) : Bool :=
  r.payloadPurgedAt.isNone && decide (r.capturedAt < limit)

def dueIdempotency (now limit : Timestamp) (r : IdempotencyRow) : Bool :=
  decide (r.expiresAt < now) || decide (r.createdAt < limit)

/-- The leases `cleanup` deletes: released ones past retention, and read-only ones that expired. -/
def dueLease (now limit : Timestamp) (r : LeaseRow) : Bool :=
  (r.state = .released && before r.releasedAt limit) ||
    (r.mode = .readOnly && decide (r.expiresAt < now))

/-- The count of the rows of a table that meet a condition, as `changes` reports it. -/
def changes {α : Type} (p : α → Bool) (rows : List α) : ℕ := (rows.filter p).length

def cleanup (options : StorageOptions) (now : Date) (eventId : String) (db : Db) :
    Except LeaseError (CleanupSummary × Db) := do
  let expiredPayload ← cutoff now options.resultRetentionDays
  let expiredIdempotency ← cutoff now options.idempotencyRetentionDays
  let timestamp ← sqlTimestamp now
  let core ← coreTables db
  let rows ← leaseRows db
  let summary : CleanupSummary :=
    { assignmentsRedacted := changes (duePayload core expiredPayload) core.assignments
      resultsRedacted := changes (dueResult expiredPayload) core.results
      idempotencyDeleted := changes (dueIdempotency timestamp expiredIdempotency) db.idempotency
      leasesDeleted := changes (dueLease timestamp expiredPayload) rows }
  let assignments := core.assignments.map fun a =>
    if duePayload core expiredPayload a then
      { a with prompt := none, expectedOutput := none, payloadPurgedAt := some timestamp }
    else a
  let results := core.results.map fun r =>
    if dueResult expiredPayload r then
      { r with body := none, artifactsJson := "[]", payloadPurgedAt := some timestamp }
    else r
  let cleaned : Db :=
    { db with
      core := some { core with assignments := assignments, results := results }
      leases := .fenced (rows.filter fun r => !dueLease timestamp expiredPayload r)
      idempotency := db.idempotency.filter fun r => !dueIdempotency timestamp expiredIdempotency r }
  if summary.assignmentsRedacted + summary.resultsRedacted + summary.idempotencyDeleted +
      summary.leasesDeleted > 0 then
    let db ← appendEvent eventId "registry" "maintenance" "retention.cleanup_completed" "system"
      (.obj [("assignmentsRedacted", .nat summary.assignmentsRedacted),
        ("resultsRedacted", .nat summary.resultsRedacted),
        ("idempotencyDeleted", .nat summary.idempotencyDeleted),
        ("leasesDeleted", .nat summary.leasesDeleted)]) now cleaned
    return (summary, db)
  else return (summary, cleaned)

/-! ## Records -/

/-- `workspaceLeases.insert` of the repositories, which takes read-only leases only. -/
def insertWorkspaceLease (r : LegacyLease) (db : Db) : Except LeaseError Db := do
  refuseIf (r.mode = .writer) (.failure "Writer leases require fenced acquisition")
  let rows ← leaseRows db
  let core ← coreTables db
  let row : LeaseRow := { r with
    state := if r.releasedAt = none then .active else .released
    heartbeatAt := r.acquiredAt }
  let rows ← insertLease row core rows
  return { db with leases := .fenced rows }

/-- A record of one of the other repositories. -/
inductive Record where
  | batch (r : BatchRow)
  | assignment (r : AssignmentRow)
  | session (r : SessionRow)
  | result (r : ResultRow)
  deriving DecidableEq

/-- A new record meets the keys and the foreign keys of its table. -/
def Record.Insertable (core : CoreTables) : Record → Prop
  | .batch r => ∀ b ∈ core.batches, b.id ≠ r.id
  | .assignment r => (∀ a ∈ core.assignments, a.id ≠ r.id) ∧ ∃ b ∈ core.batches, b.id = r.batchId
  | .session r =>
    (∀ s ∈ core.sessions, s.id ≠ r.id ∧ ¬ (s.assignmentId = r.assignmentId ∧
      s.attempt = r.attempt)) ∧ 0 < r.attempt ∧ ∃ a ∈ core.assignments, a.id = r.assignmentId
  | .result r =>
    (∀ s ∈ core.results, s.id ≠ r.id ∧ s.sessionId ≠ r.sessionId) ∧
      ∃ s ∈ core.sessions, s.id = r.sessionId

instance (core : CoreTables) : ∀ record : Record, Decidable (record.Insertable core)
  | .batch r => inferInstanceAs (Decidable (∀ b ∈ core.batches, b.id ≠ r.id))
  | .assignment _ | .session _ | .result _ => inferInstanceAs (Decidable (_ ∧ _))

/-- The table of the record with the record in it. -/
def Record.add (core : CoreTables) : Record → CoreTables
  | .batch r => { core with batches := core.batches ++ [r] }
  | .assignment r => { core with assignments := core.assignments ++ [r] }
  | .session r => { core with sessions := core.sessions ++ [r] }
  | .result r => { core with results := core.results ++ [r] }

/-- `insert` of a repository. -/
def insertRecord (record : Record) (db : Db) : Except LeaseError Db := do
  let core ← coreTables db
  refuseIf (¬ record.Insertable core) (.failure "constraint failed")
  return { db with core := some (record.add core) }

/-- `idempotency.insert`. -/
def insertIdempotency (r : IdempotencyRow) (db : Db) : Except LeaseError Db :=
  match db.leases with
  | .absent => .error (.failure "no such table: idempotency_records")
  | _ =>
    if db.idempotency.any fun s => s.scope = r.scope && s.key = r.key then
      .error (.failure "UNIQUE constraint failed: idempotency_records.scope, idempotency_records.key")
    else .ok { db with idempotency := db.idempotency ++ [r] }

end AgentOrchestrator.Lease
