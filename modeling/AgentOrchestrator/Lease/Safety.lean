import AgentOrchestrator.Lease.Generations

/-!
# `WorkspaceSafetyTool`

A tool is one instance over the shared storage: its host, its server identity, the locks it keeps
for the lease lifetime and the method it is in.  A method goes from one access to the world to
the next (`Pc`): a read or a transaction on the registry, a lock request, a question to the process
probe.  Between two of them any other instance may act; a method of one instance is never
interrupted by another method of it, since none of them awaits.  The answers of the lock and of
the probe, the clock and the random identifiers are inputs.
-/

namespace AgentOrchestrator.Lease

/-! ## The probe -/

/-- What the process probe says about a process identifier. -/
structure ProbeAnswer where
  processExists : Bool
  startToken : Option String
  deriving DecidableEq

inductive OwnerProcess where
  | absent | alive | unverifiable
  deriving DecidableEq

/-- `ownerProcessState`, as the instance on `hostId` judges a lease. -/
def ownerProcessState (hostId : String) (lease : WorkspaceLeaseStatus) (probe : ProbeAnswer) :
    OwnerProcess :=
  if lease.ownerHost ≠ hostId then .unverifiable
  else
    match lease.processId, lease.processStartToken with
    | some _, some token =>
      if !probe.processExists then .absent
      else
        match probe.startToken with
        | none => .unverifiable
        | some startToken => if startToken = token then .alive else .absent
    | _, _ => .unverifiable

/-! ## The instances -/

/-- The input of `acquireWriter`; the tool adds its own server and host. -/
structure WriterInput where
  workspaceId : String
  ownerBatchId : String
  ownerSessionId : Option String := none
  ttlMs : Option ℚ
  now : Date
  deriving DecidableEq

/-- The next access of a method in progress. -/
inductive Pc where
  | lockForAcquire (input : WriterInput)
  | acquire (input : WriterInput)
  | heartbeat (a : LeaseAuthority) (ttlMs : Option ℚ) (now : Date)
  | probeForBind (a : LeaseAuthority) (processId : ℤ) (now : Date)
  | bind (a : LeaseAuthority) (processId : ℤ) (startToken : String) (now : Date)
  | readForRelease (a : LeaseAuthority) (now : Date)
  | probeForRelease (a : LeaseAuthority) (now : Date) (lease : Option WorkspaceLeaseStatus)
  | release (a : LeaseAuthority) (now : Date) (seen : Option (WorkspaceLeaseStatus × ProbeAnswer))
  | readForRecovery (workspaceId actor : String) (now : Date)
  | lockForRecovery (workspaceId : String) (lease : WorkspaceLeaseStatus) (actor : String)
      (now : Date)
  | probeForRecovery (workspaceId : String) (lease : WorkspaceLeaseStatus) (actor : String)
      (now : Date)
  | quarantine (workspaceId : String) (lease : WorkspaceLeaseStatus) (alive : Bool)
      (actor : String) (now : Date)
  | recover (workspaceId : String) (lease : WorkspaceLeaseStatus) (seen : ProbeAnswer)
      (actor : String) (now : Date)
  | readForRepair (leaseId actor : String) (now : Date)
  | lockForRepair (lease : WorkspaceLeaseStatus) (actor : String) (now : Date)
  | probeForRepair (lease : WorkspaceLeaseStatus) (held : Bool) (actor : String) (now : Date)
  | repair (lease : WorkspaceLeaseStatus) (held : Bool) (seen : ProbeAnswer) (actor : String)
      (now : Date)
  deriving DecidableEq

/-- An instance.  `heldLocks` maps a lease to the workspace whose lock it keeps; `reply` is how
the last method ended. -/
structure Tool where
  hostId : String
  serverInstanceId : String
  heldLocks : List (String × String) := []
  pc : Option Pc := none
  reply : Option (Except LeaseError (Option LeaseAuthority)) := none
  deriving DecidableEq

/-- The lock a method in progress has taken and not yet given back or filed. -/
def Pc.lock : Pc → Option String
  | .acquire input => some input.workspaceId
  | .probeForRecovery workspaceId .. => some workspaceId
  | .quarantine workspaceId .. => some workspaceId
  | .recover workspaceId .. => some workspaceId
  | .probeForRepair lease held .. => if held then none else some lease.workspaceId
  | .repair lease held .. => if held then none else some lease.workspaceId
  | _ => none

/-- The instance holds the exclusive lock of a workspace. -/
def Tool.Holds (t : Tool) (workspaceId : String) : Prop :=
  (∃ leaseId, (leaseId, workspaceId) ∈ t.heldLocks) ∨ t.pc.bind Pc.lock = some workspaceId

def Tool.holdsLease (t : Tool) (leaseId : String) : Bool := t.heldLocks.any (·.1 = leaseId)

def Tool.goto (t : Tool) (pc : Pc) : Tool := { t with pc := some pc }

/-- The method returns or throws; a lock it has not filed is given back. -/
def Tool.finish (t : Tool) (reply : Except LeaseError (Option LeaseAuthority)) : Tool :=
  { t with pc := none, reply := some reply }

/-- `heldLocks.set`. -/
def Tool.keepLock (t : Tool) (leaseId workspaceId : String) : Tool :=
  { t with heldLocks := t.heldLocks.filter (·.1 ≠ leaseId) ++ [(leaseId, workspaceId)] }

/-- `dropLock`. -/
def Tool.dropLock (t : Tool) (leaseId : String) : Tool :=
  { t with heldLocks := t.heldLocks.filter (·.1 ≠ leaseId) }

/-! ## Methods -/

/-- A call of a method. -/
inductive ToolCall where
  | acquireWriter (input : WriterInput)
  | heartbeat (a : LeaseAuthority) (ttlMs : Option ℚ) (now : Date)
  | bindProcess (a : LeaseAuthority) (processId : ℤ) (now : Date)
  | releaseWriter (a : LeaseAuthority) (now : Date)
  | recoverWorkspace (workspaceId actor : String) (now : Date)
  | repairQuarantine (leaseId actor : String) (now : Date)
  | close
  deriving DecidableEq

/-- `assertLockHeld`, then the first access of the method. -/
def Tool.withLock (t : Tool) (leaseId : String) (pc : Pc) : Tool :=
  if t.holdsLease leaseId then t.goto pc
  else t.finish (.error (.recoveryAmbiguous "Writer no longer holds the workspace lock"))

/-- The start of a method, up to its first access. -/
def Tool.call (t : Tool) : ToolCall → Tool
  | .acquireWriter input => t.goto (.lockForAcquire input)
  | .heartbeat a ttlMs now => t.withLock a.leaseId (.heartbeat a ttlMs now)
  | .bindProcess a processId now => t.withLock a.leaseId (.probeForBind a processId now)
  | .releaseWriter a now =>
    t.withLock a.leaseId (if a.processId = none then .release a now none else .readForRelease a now)
  | .recoverWorkspace workspaceId actor now => t.goto (.readForRecovery workspaceId actor now)
  | .repairQuarantine leaseId actor now => t.goto (.readForRepair leaseId actor now)
  | .close => { t with heldLocks := [] }.finish (.ok none)

/-- The answer of `lockSync`: the lock, `ELOCKED`, or another error. -/
inductive LockAnswer where
  | locked
  | busy
  | failed (error : LeaseError)
  deriving DecidableEq

/-- The answers of the world to one access. -/
structure Answer where
  lock : LockAnswer := .busy
  probe : ProbeAnswer := ⟨true, none⟩
  draws : AcquireDraws := ⟨"", "", "", ""⟩
  eventId : String := ""
  deriving DecidableEq

/-- The request a tool passes to the storage. -/
def Tool.request (t : Tool) (input : WriterInput) : AcquireInput where
  workspaceId := input.workspaceId
  ownerSessionId := input.ownerSessionId
  ownerBatchId := input.ownerBatchId
  ttlMs := input.ttlMs
  serverInstanceId := some t.serverInstanceId
  ownerHost := some t.hostId
  now := input.now

/-- The end of a method whose transaction has no result of its own. -/
def Tool.settle (t : Tool) (db : Db) (result : Except LeaseError Db) (done : Tool)
    (reply : Except LeaseError (Option LeaseAuthority)) : Db × Tool :=
  match result with
  | .error e => (db, t.finish (.error e))
  | .ok db' => (db', done.finish reply)

/-- The end of a method that returns a new authority. -/
def Tool.grant (t : Tool) (db : Db) (result : Except LeaseError (LeaseAuthority × Db)) :
    Db × Tool :=
  match result with
  | .error e => (db, t.finish (.error e))
  | .ok (a, db') => (db', t.finish (.ok (some a)))

variable (tokenDigest : String → String)

/-- One access of a method, up to the next one or its end. -/
def Pc.resume (t : Tool) (answer : Answer) (db : Db) : Pc → Db × Tool
  | .lockForAcquire input =>
    match answer.lock with
    | .locked => (db, t.goto (.acquire input))
    | .busy =>
      t.settle db (recordPolicyDenial input.workspaceId "WORKSPACE_WRITER_BUSY"
          (input.ownerSessionId.getD input.ownerBatchId) [("layer", .str "os_lock")] input.now
          answer.eventId db) t
        (.error (.writerBusy "Another process holds the workspace writer lock"))
    | .failed e => (db, t.finish (.error e))
  | .acquire input =>
    match acquireWriterLease tokenDigest (t.request input) answer.draws db with
    | (.ok a, db') => (db', (t.keepLock a.leaseId input.workspaceId).finish (.ok (some a)))
    | (.error e, db') => (db', t.finish (.error e))
  | .heartbeat a ttlMs now =>
    t.grant db (heartbeatWriterLease tokenDigest a ttlMs now answer.eventId db)
  | .probeForBind a processId now =>
    match answer.probe.startToken with
    | none =>
      (db, t.finish (.error (.recoveryAmbiguous "Owner process identity could not be captured")))
    | some startToken => (db, t.goto (.bind a processId startToken now))
  | .bind a processId startToken now =>
    t.grant db (bindWriterProcess tokenDigest a processId startToken now answer.eventId db)
  | .readForRelease a now =>
    match workspaceLeaseById a.leaseId db with
    | .error e => (db, t.finish (.error e))
    | .ok lease => (db, t.goto (.probeForRelease a now lease))
  | .probeForRelease a now lease =>
    -- without a row the host is undefined, which no instance has
    match lease.map fun l => (l, ownerProcessState t.hostId
        { l with processId := a.processId, processStartToken := a.processStartToken }
        answer.probe) with
    | some (l, .absent) => (db, t.goto (.release a now (some (l, answer.probe))))
    | _ => (db, t.finish (.error (.recoveryAmbiguous
        "Writer process must be authoritatively absent before release")))
  | .release a now _ =>
    t.settle db (releaseWriterLease tokenDigest a now answer.eventId db) (t.dropLock a.leaseId)
      (.ok none)
  | .readForRecovery workspaceId actor now =>
    match blockingWriterLease workspaceId db with
    | .error e => (db, t.finish (.error e))
    | .ok none => (db, t.finish (.ok none))
    | .ok (some lease) =>
      if lease.state = .quarantined then
        (db, t.finish (.error (.recoveryAmbiguous
          "Workspace is quarantined and needs evidence-based repair")))
      -- this instance is the live owner: an owner releases its lease, never recovers it
      else if t.holdsLease lease.leaseId then (db, t.finish (.ok none))
      else (db, t.goto (.lockForRecovery workspaceId lease actor now))
  | .lockForRecovery workspaceId lease actor now =>
    match answer.lock with
    | .locked => (db, t.goto (.probeForRecovery workspaceId lease actor now))
    | .busy => (db, t.finish (.error (.recoveryAmbiguous
        "Another process may still hold the workspace lock")))
    | .failed e => (db, t.finish (.error e))
  | .probeForRecovery workspaceId lease actor now =>
    match ownerProcessState t.hostId lease answer.probe with
    | .absent => (db, t.goto (.recover workspaceId lease answer.probe actor now))
    | .alive => (db, t.goto (.quarantine workspaceId lease true actor now))
    | .unverifiable => (db, t.goto (.quarantine workspaceId lease false actor now))
  | .quarantine workspaceId lease alive actor now =>
    t.settle db
      (quarantineWriterLease lease
        (if alive then "owner process is still alive" else "owner process identity is unverifiable")
        actor now answer.eventId db)
      (t.keepLock lease.leaseId workspaceId)
      (.error (.recoveryAmbiguous (if alive then
          "Owner process is still alive, so the live writer is preserved"
        else "Owner process identity is unverifiable")))
  | .recover _ lease _ actor now =>
    t.settle db (recoverExpiredWriterLease lease
      ⟨true, some "owner pid and start token authoritatively absent while lock held"⟩ actor now
      answer.eventId db) t (.ok none)
  | .readForRepair leaseId actor now =>
    match workspaceLeaseById leaseId db with
    | .error e => (db, t.finish (.error e))
    | .ok lease =>
      match lease.filter fun l => l.state = .quarantined with
      | none => (db, t.finish (.error (.recoveryAmbiguous
          "Repair requires an existing quarantined lease")))
      | some lease =>
        if t.holdsLease leaseId then (db, t.goto (.probeForRepair lease true actor now))
        else (db, t.goto (.lockForRepair lease actor now))
  | .lockForRepair lease actor now =>
    match answer.lock with
    | .locked => (db, t.goto (.probeForRepair lease false actor now))
    | .busy => (db, t.finish (.error (.recoveryAmbiguous
        "Another process may still hold the workspace lock")))
    | .failed e => (db, t.finish (.error e))
  | .probeForRepair lease held actor now =>
    match ownerProcessState t.hostId lease answer.probe with
    | .absent => (db, t.goto (.repair lease held answer.probe actor now))
    | _ => (db, t.finish (.error (.recoveryAmbiguous
        "Repair refused without verified owner-process absence")))
  | .repair lease held _ actor now =>
    t.settle db (repairQuarantinedWriterLease lease
      ⟨true, some "local host, pid, start token, and exclusive lock verified"⟩ actor now
      answer.eventId db) (if held then t.dropLock lease.leaseId else t) (.ok none)

/-! ## The system -/

/-- The instances over the shared storage. -/
structure Workspace where
  db : Db
  tools : List Tool
  deriving DecidableEq

inductive Act where
  /-- A process starts with an instance of its own. -/
  | start (hostId serverInstanceId : String)
  /-- A method is called on an idle instance. -/
  | call (i : ℕ) (c : ToolCall)
  /-- The method in progress makes its next access. -/
  | resume (i : ℕ) (answer : Answer)
  /-- The process dies, and its locks with it. -/
  | crash (i : ℕ)
  | cleanup (options : StorageOptions) (now : Date) (eventId : String)
  | insertRecord (record : Record)
  deriving DecidableEq

end AgentOrchestrator.Lease
