import AgentOrchestrator.Library.Runs
import AgentOrchestrator.Lease.Migrations

/-!
# The registry as a state machine

An `Op` is one transaction of a public operation, with its arguments and the identifiers it draws;
`migrate` and `rollback` are sequences of transactions (`migrate_run`, `rollback_run`), so a run
is any serial order of the transactions of any number of processes.  `step_effect` says once what
a transaction may do to the leases and to the ledger of generations.
-/

namespace AgentOrchestrator.Lease

/-- A transaction of a public operation. -/
inductive Op where
  | acquireWriterLease (input : AcquireInput) (draws : AcquireDraws)
  | bindWriterProcess (a : LeaseAuthority) (processId : ℤ) (processStartToken : String)
      (now : Date) (eventId : String)
  | heartbeatWriterLease (a : LeaseAuthority) (ttlMs : Option ℚ) (now : Date) (eventId : String)
  | releaseWriterLease (a : LeaseAuthority) (now : Date) (eventId : String)
  | recoverExpiredWriterLease (observed : WorkspaceLeaseStatus) (evidence : Evidence)
      (actor : String) (now : Date) (eventId : String)
  | quarantineWriterLease (observed : WorkspaceLeaseStatus) (reason actor : String) (now : Date)
      (eventId : String)
  | repairQuarantinedWriterLease (observed : WorkspaceLeaseStatus) (evidence : Evidence)
      (actor : String) (now : Date) (eventId : String)
  | recordPolicyDenial (workspaceId code actor : String) (data : List (String × Json))
      (now : Date) (eventId : String)
  | cleanup (options : StorageOptions) (now : Date) (eventId : String)
  | insertWorkspaceLease (r : LegacyLease)
  | insertRecord (record : Record)
  | insertIdempotency (r : IdempotencyRow)
  | migrate (targetVersion version : ℕ)
  | rollback (version : ℕ)

/-- The database after a transaction: a failed one rolls back. -/
def commit (db : Db) : Except LeaseError Db → Db
  | .error _ => db
  | .ok db' => db'

variable (tokenDigest : String → String)

/-- One transaction. -/
def step (db : Db) : Op → Db
  | .acquireWriterLease input draws => (acquireWriterLease tokenDigest input draws db).2
  | .bindWriterProcess a pid token now eventId =>
    commit db ((bindWriterProcess tokenDigest a pid token now eventId db).map Prod.snd)
  | .heartbeatWriterLease a ttl now eventId =>
    commit db ((heartbeatWriterLease tokenDigest a ttl now eventId db).map Prod.snd)
  | .releaseWriterLease a now eventId =>
    commit db (releaseWriterLease tokenDigest a now eventId db)
  | .recoverExpiredWriterLease observed evidence actor now eventId =>
    commit db (recoverExpiredWriterLease observed evidence actor now eventId db)
  | .quarantineWriterLease observed reason actor now eventId =>
    commit db (quarantineWriterLease observed reason actor now eventId db)
  | .repairQuarantinedWriterLease observed evidence actor now eventId =>
    commit db (repairQuarantinedWriterLease observed evidence actor now eventId db)
  | .recordPolicyDenial workspaceId code actor data now eventId =>
    commit db (recordPolicyDenial workspaceId code actor data now eventId db)
  | .cleanup options now eventId => commit db ((cleanup options now eventId db).map Prod.snd)
  | .insertWorkspaceLease r => commit db (insertWorkspaceLease r db)
  | .insertRecord record => commit db (insertRecord record db)
  | .insertIdempotency r => commit db (insertIdempotency r db)
  | .migrate target version => commit db (upTransaction target version db)
  | .rollback version => commit db (downTransaction version db)


/-! ## Whole operations -/

/-- A sequence of transactions leaves what a run of them leaves. -/
theorem runTransactions_run (op : ℕ → Op) {transaction : ℕ → Db → Except LeaseError Db}
    (h : ∀ v db, step tokenDigest db (op v) = commit db (transaction v db)) (versions : List ℕ)
    (db : Db) :
    ∃ ops, (runTransactions (versions.map transaction) db).2 =
      Runs.run (step tokenDigest) db ops := by
  induction versions generalizing db with
  | nil => exact ⟨[], rfl⟩
  | cons v versions ih =>
    cases ht : transaction v db with
    | error e =>
      refine ⟨[], ?_⟩
      simp only [List.map_cons, runTransactions, ht, Runs.run_nil]
    | ok db' =>
      obtain ⟨ops, hops⟩ := ih db'
      refine ⟨op v :: ops, ?_⟩
      simp only [List.map_cons, runTransactions, ht, Runs.run_cons, h, commit]
      exact hops

theorem migrate_run (targetVersion : ℕ) (db : Db) :
    ∃ ops, (migrate targetVersion db).2 = Runs.run (step tokenDigest) db ops := by
  unfold migrate applyMigrations
  split_ifs
  · exact ⟨[], rfl⟩
  · exact ⟨[], rfl⟩
  · exact runTransactions_run tokenDigest (.migrate targetVersion) (fun _ _ => rfl) _ db

theorem rollback_run (targetVersion : ℕ) (backup : Except LeaseError Unit) (db : Db) :
    ∃ ops, (rollback targetVersion backup db).2 = Runs.run (step tokenDigest) db ops := by
  unfold rollback
  cases backup with
  | error e =>
    refine ⟨[], ?_⟩
    dsimp only
    split_ifs <;> rfl
  | ok u =>
    dsimp only
    split_ifs
    · exact ⟨[], rfl⟩
    · exact ⟨[], rfl⟩
    · exact runTransactions_run tokenDigest .rollback (fun _ _ => rfl) _ db

end AgentOrchestrator.Lease
