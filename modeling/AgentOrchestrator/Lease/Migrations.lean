import AgentOrchestrator.Lease.Storage
import Mathlib.Data.List.Dedup

/-!
# The migrations of the registry

Every migration runs in a transaction of its own, up or down.  A script fails when an object it
creates exists or one it drops does not, and then its transaction rolls back.  `migrate` and
`rollback` run the transactions one after the other and stop at the first that fails.
-/

namespace AgentOrchestrator.Lease

def currentSchemaVersion : ℕ := 3

/-! ## Scripts -/

/-- A lease of version 2 with the columns of version 3: no lease that predates fencing is active. -/
def LegacyLease.upgrade (r : LegacyLease) : LeaseRow :=
  { r with
    heartbeatAt := r.acquiredAt
    state := if r.releasedAt = none then .quarantined else .released
    quarantineReason :=
      if r.releasedAt = none then
        some "legacy lease predates fencing and requires evidence-based repair"
      else none }

/-- `MAX(generation)` of the leases of a workspace. -/
def maxGeneration (workspaceId : String) (rows : List LeaseRow) : ℕ :=
  ((rows.filter fun r => r.workspaceId = workspaceId).map (·.generation)).foldl max 0

/-- The ledger of generations raised to the generations of the leases, workspace by workspace. -/
def raiseGenerations (rows : List LeaseRow) (fencing : List FencingRow) : List FencingRow :=
  (rows.map (·.workspaceId)).dedup.foldl (fun fencing workspaceId =>
    upsertGeneration workspaceId (maxGeneration workspaceId rows)
      (fun last => max last (maxGeneration workspaceId rows)) fencing) fencing

def up1 (db : Db) : Except LeaseError Db :=
  match db.core with
  | some _ => .error (.failure "table batches already exists")
  | none => .ok { db with core := some {} }

def up2 (db : Db) : Except LeaseError Db :=
  match db.leases, db.core with
  | .absent, some _ => .ok { db with leases := .legacy [], idempotency := [] }
  | .absent, none => .error (.failure "no such table: main.batches")
  | _, _ => .error (.failure "table workspace_leases already exists")

def up3 (db : Db) : Except LeaseError Db :=
  match db.leases with
  | .absent => .error (.failure "no such table: workspace_leases")
  | .fenced _ => .error (.failure "duplicate column name: generation")
  | .legacy rows =>
    let upgraded := rows.map LegacyLease.upgrade
    if oneActiveWriter upgraded then
      .ok { db with leases := .fenced upgraded, fencing := raiseGenerations upgraded db.fencing }
    else .error (.failure "UNIQUE constraint failed: workspace_leases.workspace_id")

/-- Dropping the tables deletes their rows first, which a lease that refers to them forbids. -/
def down1 (db : Db) : Except LeaseError Db :=
  match db.core, db.leases with
  | none, _ => .error (.failure "no such trigger: events_no_delete")
  | some _, .legacy (_ :: _) => .error (.failure "FOREIGN KEY constraint failed")
  | some _, .fenced (_ :: _) => .error (.failure "FOREIGN KEY constraint failed")
  | some _, _ => .ok { db with core := none }

/-- The index on the batches is gone when the batches are. -/
def down2 (db : Db) : Except LeaseError Db :=
  match db.leases, db.core with
  | .absent, _ => .error (.failure "no such table: workspace_leases")
  | _, none => .error (.failure "no such index: batches_retention_idx")
  | _, some _ => .ok { db with leases := .absent, idempotency := [] }

/-- The fencing columns are dropped; the ledger of generations survives. -/
def down3 (db : Db) : Except LeaseError Db :=
  match db.leases with
  | .fenced rows =>
    let downgraded := rows.map LeaseRow.toLegacyLease
    if oneLegacyWriter downgraded then .ok { db with leases := .legacy downgraded }
    else .error (.failure "UNIQUE constraint failed: workspace_leases.workspace_id")
  | _ => .error (.failure "no such index: workspace_lease_state_idx")

/-- The `up` script of a migration. -/
def up (version : ℕ) (db : Db) : Except LeaseError Db :=
  match version with
  | 1 => up1 db
  | 2 => up2 db
  | 3 => up3 db
  | _ => .error (.failure "no such migration")

/-- The `down` script of a migration. -/
def down (version : ℕ) (db : Db) : Except LeaseError Db :=
  match version with
  | 1 => down1 db
  | 2 => down2 db
  | 3 => down3 db
  | _ => .error (.failure "no such migration")

/-! ## Transactions -/

/-- One round of the loop of `applyMigrations`. -/
def upTransaction (targetVersion version : ℕ) (db : Db) : Except LeaseError Db := do
  refuseIf (schemaVersion db > targetVersion)
    (.failure "Use rollback() to move to an older schema")
  if version > schemaVersion db then
    let db ← up version db
    return { db with ledger := db.ledger ++ [version] }
  else return db

/-- One round of the loop of `rollback`. -/
def downTransaction (version : ℕ) (db : Db) : Except LeaseError Db := do
  let db ← down version db
  return { db with ledger := db.ledger.filter (· ≠ version) }

/-- Transactions one after the other, up to the first that fails. -/
def runTransactions : List (Db → Except LeaseError Db) → Db → Except LeaseError Unit × Db
  | [], db => (.ok (), db)
  | transaction :: rest, db =>
    match transaction db with
    | .error e => (.error e, db)
    | .ok db' => runTransactions rest db'

def applyMigrations (targetVersion : ℕ) (db : Db) : Except LeaseError Unit × Db :=
  if schemaVersion db > targetVersion then
    (.error (.failure "Use rollback() to move to an older schema"), db)
  else
    runTransactions (([1, 2, 3].filter (· ≤ targetVersion)).map (upTransaction targetVersion)) db

def migrate (targetVersion : ℕ) (db : Db) : Except LeaseError Unit × Db :=
  if targetVersion > currentSchemaVersion then
    (.error (.failure ("Unsupported schema version " ++ toString targetVersion)), db)
  else applyMigrations targetVersion db

/-- `rollback`, with the outcome of writing the backup file.  The backup is checked against the
current version, so a database of an older version is not rolled back further. -/
def rollback (targetVersion : ℕ) (backup : Except LeaseError Unit) (db : Db) :
    Except LeaseError Unit × Db :=
  let current := schemaVersion db
  if targetVersion ≥ current then
    (.error (.failure ("Rollback target must be below current version " ++ toString current)), db)
  else
    match backup with
    | .error e => (.error e, db)
    | .ok () =>
      if current ≠ currentSchemaVersion then
        (.error (.failure ("Backup integrity check failed: expected schema version 3, found " ++
          toString current)), db)
      else
        runTransactions (([3, 2, 1].filter fun v => targetVersion < v ∧ v ≤ current).map
          downTransaction) db

end AgentOrchestrator.Lease
