import AgentOrchestrator.Library.EventLog
import AgentOrchestrator.Lease.Generations

/-!
# The event log of the leases

Every transition of a lease appends one `workspace_lease` event in the transaction that amends the
row, with the generation in its data.  `LeaseEvent.apply` reads an event; the replay of the events
of a writer lease is the state and the generation of its row.  The migration to version 3 writes
rows and no events, so a lease that predates fencing is in no log until it is repaired.
-/

namespace AgentOrchestrator.Lease

open EventLog

variable {tokenDigest : String → String}

/-! ## Reading the log -/

/-- The events of the database; one without the table has none. -/
def events (db : Db) : List EventRow := (db.core.map (·.events)).getD []

/-- The lease an event is about. -/
def EventRow.leaseId (e : EventRow) : Option String :=
  if e.aggregateType = "workspace_lease" then some e.aggregateId else none

/-- The `workspace_lease` events of all leases. -/
def leaseLog (db : Db) : List EventRow := (events db).filter fun e => e.leaseId.isSome

/-- The `workspace_lease` events of one lease. -/
def leaseEvents (leaseId : String) (db : Db) : List EventRow :=
  about EventRow.leaseId leaseId (leaseLog db)

/-- The generation in the data of an event. -/
def recordedGeneration : Json → Option ℕ
  | .obj fields =>
    match Keyed.lookup Prod.fst "generation" fields with
    | some (_, .num n) => some n.num.toNat
    | _ => none
  | _ => none

/-- What an event makes of the state and the generation of its lease.  An owner's binding or
heartbeat keeps the state; the second phase of a release is the one that is told. -/
def EventRow.apply (current : Option (LeaseState × ℕ)) (e : EventRow) : Option (LeaseState × ℕ) :=
  match e.eventType with
  | "lease_acquired" => (recordedGeneration e.data).map (LeaseState.active, ·)
  | "lease_process_bound" | "lease_heartbeat" =>
    current.bind fun (state, _) => (recordedGeneration e.data).map (state, ·)
  | "lease_released" | "lease_recovered" | "lease_repaired" =>
    (recordedGeneration e.data).map (LeaseState.released, ·)
  | "lease_quarantined" => (recordedGeneration e.data).map (LeaseState.quarantined, ·)
  | _ => current

/-- The fold of the events of a lease, in the order they were appended. -/
def replayLease (leaseId : String) (db : Db) : Option (LeaseState × ℕ) :=
  (leaseEvents leaseId db).foldl EventRow.apply none

/-- What the fold is compared with. -/
def LeaseRow.standing (r : LeaseRow) : LeaseState × ℕ := (r.state, r.generation)

@[simp] theorem recordedGeneration_obj_head (n : ℕ) (rest : List (String × Json)) :
    recordedGeneration (.obj (("generation", .nat n) :: rest)) = some n := by
  simp [recordedGeneration, Keyed.lookup, Json.nat]

@[simp] theorem recordedGeneration_obj_second (key : String) (value : Json) (n : ℕ)
    (rest : List (String × Json)) (h : key ≠ "generation") :
    recordedGeneration (.obj ((key, value) :: ("generation", .nat n) :: rest)) = some n := by
  simp [recordedGeneration, Keyed.lookup, Json.nat, h]

/-! ## What a transaction appends -/

/-- What an operation on a lease reports. -/
def outcome (tokenDigest : String → String) (db : Db) : Op → Except LeaseError Unit
  | .acquireWriterLease input draws =>
    (acquireWriterLease tokenDigest input draws db).1.map fun _ => ()
  | .bindWriterProcess a pid token now eventId =>
    (bindWriterProcess tokenDigest a pid token now eventId db).map fun _ => ()
  | .heartbeatWriterLease a ttl now eventId =>
    (heartbeatWriterLease tokenDigest a ttl now eventId db).map fun _ => ()
  | .releaseWriterLease a now eventId =>
    (releaseWriterLease tokenDigest a now eventId db).map fun _ => ()
  | .recoverExpiredWriterLease observed evidence actor now eventId =>
    (recoverExpiredWriterLease observed evidence actor now eventId db).map fun _ => ()
  | .quarantineWriterLease observed reason actor now eventId =>
    (quarantineWriterLease observed reason actor now eventId db).map fun _ => ()
  | .repairQuarantinedWriterLease observed evidence actor now eventId =>
    (repairQuarantinedWriterLease observed evidence actor now eventId db).map fun _ => ()
  | .recordPolicyDenial workspaceId code actor data now eventId =>
    (recordPolicyDenial workspaceId code actor data now eventId db).map fun _ => ()
  | .cleanup options now eventId => (cleanup options now eventId db).map fun _ => ()
  | .insertWorkspaceLease r => (insertWorkspaceLease r db).map fun _ => ()
  | .insertRecord record => (insertRecord record db).map fun _ => ()
  | .insertIdempotency r => (insertIdempotency r db).map fun _ => ()
  | .migrate target version => (upTransaction target version db).map fun _ => ()
  | .rollback version => (downTransaction version db).map fun _ => ()

/-- The lease a transition is about and the type of its event; the other transactions are no
transitions of a lease. -/
def Op.transition : Op → Option (String × String)
  | .acquireWriterLease _ draws => some (draws.leaseId, "lease_acquired")
  | .bindWriterProcess a .. => some (a.leaseId, "lease_process_bound")
  | .heartbeatWriterLease a .. => some (a.leaseId, "lease_heartbeat")
  | .releaseWriterLease a .. => some (a.leaseId, "lease_released")
  | .recoverExpiredWriterLease observed .. => some (observed.leaseId, "lease_recovered")
  | .quarantineWriterLease observed .. => some (observed.leaseId, "lease_quarantined")
  | .repairQuarantinedWriterLease observed .. => some (observed.leaseId, "lease_repaired")
  | _ => none

/-- A transition that is refused is none. -/
def unlessRefused (transition : Option (String × String)) :
    Except LeaseError Unit → Option (String × String)
  | .ok () => transition
  | .error _ => none

/-- The transition a transaction commits. -/
def committed (tokenDigest : String → String) (db : Db) (op : Op) : Option (String × String) :=
  unlessRefused op.transition (outcome tokenDigest db op)

/-- The transaction takes the schema back. -/
def Op.isRollback : Op → Bool
  | .rollback _ => true
  | _ => false

/-! ## The log after a statement -/

/-- An event about a lease is appended to the log of the leases. -/
theorem leaseLog_append {db : Db} {core : CoreTables} {e : EventRow} {leaseId : String}
    (hc : db.core = some core) (he : e.leaseId = some leaseId) (leases : LeaseTable)
    (fencing : List FencingRow) :
    leaseLog { db with leases := leases, fencing := fencing
                       core := some { core with events := core.events ++ [e] } } =
      leaseLog db ++ [e] := by
  unfold leaseLog events
  rw [hc]
  simp [he]

/-- An event about anything else is not. -/
theorem leaseLog_append_other {db : Db} {core : CoreTables} {e : EventRow}
    (hc : db.core = some core) (he : e.aggregateType ≠ "workspace_lease") :
    leaseLog { db with core := some { core with events := core.events ++ [e] } } = leaseLog db := by
  unfold leaseLog events
  rw [hc]
  simp [EventRow.leaseId, he]

theorem leaseLog_of_events {db db' : Db} (h : events db' = events db) :
    leaseLog db' = leaseLog db := by
  unfold leaseLog
  rw [h]

theorem appendEvent_other_log {id aggregateType aggregateId eventType actor : String} {data : Json}
    {now : Date} {db db' : Db} (htype : aggregateType ≠ "workspace_lease")
    (h : appendEvent id aggregateType aggregateId eventType actor data now db = .ok db') :
    leaseLog db' = leaseLog db := by
  obtain ⟨core, timestamp, hc, -, -, rfl⟩ := appendEvent_ok h
  exact leaseLog_append_other hc htype

theorem cleanup_log {options : StorageOptions} {now : Date} {eventId : String} {db db' : Db}
    {summary : CleanupSummary} (h : cleanup options now eventId db = .ok (summary, db')) :
    leaseLog db' = leaseLog db := by
  unfold cleanup at h
  obtain ⟨limit, -, h⟩ := bind_eq_ok h
  obtain ⟨limit', -, h⟩ := bind_eq_ok h
  obtain ⟨timestamp, -, h⟩ := bind_eq_ok h
  obtain ⟨core, hc, h⟩ := bind_eq_ok h
  obtain ⟨rows, -, h⟩ := bind_eq_ok h
  have hcore := coreTables_ok hc
  dsimp only at h
  split at h
  · obtain ⟨db'', he, h⟩ := bind_eq_ok h
    cases h
    rw [appendEvent_other_log (by decide) he]
    exact leaseLog_of_events (by simp [events, hcore])
  · cases h
    exact leaseLog_of_events (by simp [events, hcore])

theorem insertWorkspaceLease_log {r : LegacyLease} {db db' : Db}
    (h : insertWorkspaceLease r db = .ok db') : leaseLog db' = leaseLog db := by
  unfold insertWorkspaceLease at h
  obtain ⟨u, -, h⟩ := bind_eq_ok h
  obtain ⟨rows, -, h⟩ := bind_eq_ok h
  obtain ⟨core, -, h⟩ := bind_eq_ok h
  dsimp only at h
  obtain ⟨rows', -, h⟩ := bind_eq_ok h
  cases h
  rfl

theorem insertRecord_log {record : Record} {db db' : Db} (h : insertRecord record db = .ok db') :
    leaseLog db' = leaseLog db ∧ db'.leases = db.leases := by
  unfold insertRecord at h
  obtain ⟨core, hc, h⟩ := bind_eq_ok h
  obtain ⟨u, -, h⟩ := bind_eq_ok h
  cases h
  refine ⟨leaseLog_of_events ?_, rfl⟩
  unfold events
  rw [coreTables_ok hc]
  cases record <;> rfl

theorem up_log {version : ℕ} {db db' : Db} (h : up version db = .ok db') :
    leaseLog db' = leaseLog db := by
  unfold up at h
  split at h
  · unfold up1 at h
    split at h
    · cases h
    · next hc =>
      cases h
      exact leaseLog_of_events (by simp [events, hc])
  · unfold up2 at h
    split at h
    · cases h; rfl
    · cases h
    · cases h
  · unfold up3 at h
    split at h
    · cases h
    · cases h
    · dsimp only at h
      split_ifs at h
      cases h
      rfl
  · cases h

/-! ## What a transaction tells -/

/-- The leases of a database that gains no writer lease, but by the migration to version 3. -/
structure Kept (db db' : Db) : Prop where
  legacy : ∀ rows', db'.leases = .legacy rows' → ∀ l ∈ rows',
    ∃ rows, db.leases = .legacy rows ∧ l ∈ rows
  fenced : ∀ rows', db'.leases = .fenced rows' → ∀ r ∈ rows', r.mode = .writer →
    (∃ rows, db.leases = .fenced rows ∧ r ∈ rows) ∨
      ∃ rows, db.leases = .legacy rows ∧ ∃ l ∈ rows, r = l.upgrade

theorem Kept.of_leases {db db' : Db} (h : db'.leases = db.leases) : Kept db db' where
  legacy := by
    intro rows' hl' l hl
    exact ⟨rows', h ▸ hl', hl⟩
  fenced := by
    intro rows' hl' r hr _
    exact Or.inl ⟨rows', h ▸ hl', hr⟩

theorem Kept.of_fenced {db db' : Db} {rows rows' : List LeaseRow} (hl : db.leases = .fenced rows)
    (hl' : db'.leases = .fenced rows') (h : ∀ r ∈ rows', r.mode = .writer → r ∈ rows) :
    Kept db db' where
  legacy := by
    intro rows'' hl'' l hl
    rw [hl'] at hl''
    cases hl''
  fenced := by
    intro rows'' hl'' r hr hmode
    rw [hl'] at hl''
    cases hl''
    exact Or.inl ⟨rows, hl, h r hr hmode⟩

theorem up_kept {version : ℕ} {db db' : Db} (h : up version db = .ok db') : Kept db db' := by
  unfold up at h
  split at h
  · unfold up1 at h
    split at h
    · cases h
    · cases h; exact .of_leases rfl
  · unfold up2 at h
    split at h
    · cases h
      refine ⟨?_, ?_⟩
      · intro rows' hl' l hl
        cases hl'
        exact absurd hl List.not_mem_nil
      · intro rows' hl'
        cases hl'
    · cases h
    · cases h
  · unfold up3 at h
    split at h
    · cases h
    · cases h
    · next rows hl =>
      dsimp only at h
      split_ifs at h
      cases h
      refine ⟨?_, ?_⟩
      · intro rows' hl'
        cases hl'
      · intro rows' hl' r hr _
        cases hl'
        obtain ⟨l, hmem, rfl⟩ := List.mem_map.1 hr
        exact Or.inr ⟨rows, hl, l, hmem, rfl⟩
  · cases h

/-- What a transaction does to the log and to the leases, by the transition it commits. -/
inductive Journal (db db' : Db) : Option (String × String) → Prop
  /-- No transition, no event. -/
  | silent (hlog : leaseLog db' = leaseLog db) (hk : Kept db db') : Journal db db' none
  /-- A new lease, with the event that tells of it whatever was told of its identifier before. -/
  | acquired {rows : List LeaseRow} {row : LeaseRow} {e : EventRow} (hl : db.leases = .fenced rows)
      (hid : ∀ r ∈ rows, r.id ≠ row.id) (hlog : leaseLog db' = leaseLog db ++ [e])
      (he : e.leaseId = some row.id) (htells : ∀ current, e.apply current = some row.standing)
      (hl' : db'.leases = .fenced (rows ++ [row])) : Journal db db' (some (row.id, e.eventType))
  /-- An amended lease, with the event that tells of the amendment. -/
  | amended {rows : List LeaseRow} {r r' : LeaseRow} {e : EventRow}
      (hl : db.leases = .fenced rows) (hr : r ∈ rows) (hf : Follows r r')
      (hlog : leaseLog db' = leaseLog db ++ [e]) (he : e.leaseId = some r.id)
      (htells : ∀ current, (r.state = .active → current = some r.standing) →
        e.apply current = some r'.standing)
      (hl' : db'.leases = .fenced (Keyed.put (·.id) r' rows)) :
      Journal db db' (some (r.id, e.eventType))

theorem Journal.of_amends {db db' : Db} {r r' : LeaseRow} {e : EventRow} {leaseId : String}
    (ha : Amends db db' r r' e) (h : Amended r r') (hid : r.id = leaseId)
    (he : e.leaseId = some leaseId)
    (htells : ∀ current, (r.state = .active → current = some r.standing) →
      e.apply current = some r'.standing) : Journal db db' (some (leaseId, e.eventType)) := by
  obtain ⟨rows, core, hl, hr, hc, -, rfl⟩ := ha
  subst hid
  exact .amended hl hr h.follows (leaseLog_append hc he _ db.fencing) he htells rfl

/-- A transaction that is refused tells nothing. -/
theorem journal_of_commit {db : Db} {result : Except LeaseError Db}
    {transition : Option (String × String)}
    (h : ∀ db', result = .ok db' → Journal db db' transition) :
    Journal db (commit db result) (unlessRefused transition (result.map fun _ => ())) := by
  cases result with
  | error e => exact .silent rfl (.of_leases rfl)
  | ok db' => exact h db' rfl

theorem journal_of_commit_map {α : Type} {db : Db} {result : Except LeaseError (α × Db)}
    {transition : Option (String × String)}
    (h : ∀ x db', result = .ok (x, db') → Journal db db' transition) :
    Journal db (commit db (result.map Prod.snd))
      (unlessRefused transition (result.map fun _ => ())) := by
  cases result with
  | error e => exact .silent rfl (.of_leases rfl)
  | ok p => exact h p.1 p.2 rfl

/-- An event of an owner keeps the state of the lease, which is active. -/
theorem ownerEvent_kept {a : LeaseAuthority} {r : LeaseRow} {eventId eventType : String}
    {timestamp : Timestamp} (howns : Owns tokenDigest a r) (hstate : r.state = .active)
    (htype : eventType = "lease_process_bound" ∨ eventType = "lease_heartbeat")
    (current : Option (LeaseState × ℕ)) (h : r.state = .active → current = some r.standing) :
    (ownerEvent a eventId eventType timestamp).apply current = some r.standing := by
  rw [h hstate]
  rcases htype with rfl | rfl <;>
    simp [EventRow.apply, ownerEvent, LeaseRow.standing, howns.generation]

theorem acquire_journal (input : AcquireInput) (draws : AcquireDraws) (db : Db) :
    Journal db (step tokenDigest db (.acquireWriterLease input draws))
      (committed tokenDigest db (.acquireWriterLease input draws)) := by
  cases h : (acquireWriterLease tokenDigest input draws db).1 with
  | error e =>
    have hnone : committed tokenDigest db (.acquireWriterLease input draws) = none := by
      simp [committed, outcome, h, Except.map, unlessRefused]
    rw [hnone]
    show Journal db (acquireWriterLease tokenDigest input draws db).2 none
    obtain ⟨hl, -⟩ := acquireWriterLease_error h
    refine .silent ?_ (.of_leases hl)
    rcases acquireWriterLease_refused h with hsame | ⟨state, hd⟩
    · rw [hsame]
    · exact appendEvent_other_log (by decide) hd
  | ok a =>
    have hsome : committed tokenDigest db (.acquireWriterLease input draws) =
        some (draws.leaseId, "lease_acquired") := by
      simp [committed, outcome, h, Except.map, unlessRefused, Op.transition]
    obtain ⟨rows, core, timestamp, expiresAt, hl, hc, -, hid, -, -, hdb⟩ :=
      acquireWriterLease_ok h
    rw [hsome]
    show Journal db (acquireWriterLease tokenDigest input draws db).2 _
    rw [hdb]
    refine .acquired hl hid (@leaseLog_append db core _ draws.leaseId hc rfl _ _) rfl ?_ rfl
    intro current
    simp [EventRow.apply, LeaseRow.standing, acquiredRow]

/-- **What a transaction tells.** -/
theorem step_journal (tokenDigest : String → String) (db : Db) {op : Op}
    (hop : op.isRollback = false) :
    Journal db (step tokenDigest db op) (committed tokenDigest db op) := by
  cases op with
  | acquireWriterLease input draws => exact acquire_journal input draws db
  | bindWriterProcess a pid token now eventId =>
    refine journal_of_commit_map fun a' db' h => ?_
    obtain ⟨r, timestamp, howns, hstate, hamends, -⟩ := bindWriterProcess_ok h
    exact .of_amends hamends (.bound hstate pid token) howns.id rfl
      (ownerEvent_kept howns hstate (Or.inl rfl))
  | heartbeatWriterLease a ttl now eventId =>
    refine journal_of_commit_map fun a' db' h => ?_
    obtain ⟨r, timestamp, expiresAt, howns, hstate, -, hamends, -⟩ := heartbeatWriterLease_ok h
    exact .of_amends hamends (.renewed hstate timestamp expiresAt) howns.id rfl
      (ownerEvent_kept howns hstate (Or.inr rfl))
  | releaseWriterLease a now eventId =>
    refine journal_of_commit fun db' h => ?_
    obtain ⟨r, timestamp, howns, hstate, hamends⟩ := releaseWriterLease_ok h
    refine .of_amends hamends (.released hstate timestamp) howns.id rfl fun current _ => ?_
    simp [EventRow.apply, ownerEvent, LeaseRow.standing, LeaseRow.beginRelease, LeaseRow.retire,
      howns.generation]
  | recoverExpiredWriterLease observed evidence actor now eventId =>
    refine journal_of_commit fun db' h => ?_
    obtain ⟨r, timestamp, -, -, -, -, hmatch, -, hamends⟩ := recoverExpiredWriterLease_ok h
    refine .of_amends hamends (.retired (Or.inl hmatch.state) timestamp) hmatch.id rfl
      fun current _ => ?_
    simp [EventRow.apply, LeaseRow.standing, LeaseRow.retire, Json.defined, hmatch.generation]
  | quarantineWriterLease observed reason actor now eventId =>
    refine journal_of_commit fun db' h => ?_
    obtain ⟨r, timestamp, hstate, hmatch, hamends⟩ := quarantineWriterLease_ok h
    rw [← hmatch.state] at hstate
    refine .of_amends hamends (.quarantined hstate reason) hmatch.id rfl fun current _ => ?_
    simp [EventRow.apply, LeaseRow.standing, LeaseRow.quarantine]
  | repairQuarantinedWriterLease observed evidence actor now eventId =>
    refine journal_of_commit fun db' h => ?_
    obtain ⟨r, timestamp, -, hmatch, hamends⟩ := repairQuarantinedWriterLease_ok h
    refine .of_amends hamends (.retired (Or.inr hmatch.state) timestamp) hmatch.id rfl
      fun current _ => ?_
    simp [EventRow.apply, LeaseRow.standing, LeaseRow.retire, Json.defined]
  | recordPolicyDenial workspaceId code actor data now eventId =>
    refine journal_of_commit fun db' h => ?_
    have hlog := appendEvent_other_log (by decide) h
    obtain ⟨core, timestamp, -, -, -, rfl⟩ := appendEvent_ok h
    exact .silent hlog (.of_leases rfl)
  | cleanup options now eventId =>
    refine journal_of_commit_map fun summary db' h => ?_
    obtain ⟨rows, timestamp, limit, hl, hl', -⟩ := cleanup_ok h
    exact .silent (cleanup_log h) (.of_fenced hl hl' fun r hr _ => (List.mem_filter.1 hr).1)
  | insertWorkspaceLease r =>
    refine journal_of_commit fun db' h => ?_
    obtain ⟨rows, row, hl, -, hmode, -, -, hl', -⟩ := insertWorkspaceLease_ok h
    refine .silent (insertWorkspaceLease_log h) (.of_fenced hl hl' fun s hs hwriter => ?_)
    rcases Keyed.mem_append_singleton.1 hs with hs | rfl
    · exact hs
    · rw [hmode] at hwriter
      cases hwriter
  | insertRecord record =>
    refine journal_of_commit fun db' h => ?_
    obtain ⟨hlog, hl⟩ := insertRecord_log h
    exact .silent hlog (.of_leases hl)
  | insertIdempotency r =>
    refine journal_of_commit fun db' h => ?_
    unfold insertIdempotency at h
    split at h
    · cases h
    · split_ifs at h
      cases h
      exact .silent rfl (.of_leases rfl)
  | migrate target version =>
    refine journal_of_commit fun db' h => ?_
    unfold upTransaction at h
    obtain ⟨u, -, h⟩ := bind_eq_ok h
    split_ifs at h
    · obtain ⟨db'', hup, h⟩ := bind_eq_ok h
      cases h
      have hlog : leaseLog db'' = leaseLog db := up_log hup
      exact .silent hlog ⟨(up_kept hup).legacy, (up_kept hup).fenced⟩
    · cases h
      exact .silent rfl (.of_leases rfl)
  | rollback version => cases hop

/-! ## Runs -/

/-- The leases of version 2. -/
def legacyLeases (db : Db) : List LegacyLease :=
  match db.leases with
  | .legacy rows => rows
  | _ => []

/-- The row is one of these leases as the migration to version 3 left it. -/
def Predates (legacy : List LegacyLease) (r : LeaseRow) : Prop := ∃ l ∈ legacy, r = l.upgrade

/-- The log speaks of the writer leases that the migration did not write. -/
def Speaks (legacy : List LegacyLease) (r : LeaseRow) : Prop :=
  r.mode = .writer ∧ ¬ Predates legacy r

/-- The log tells the state and the generation of every lease it speaks of. -/
structure Told (legacy : List LegacyLease) (db : Db) : Prop where
  older : ∀ rows, db.leases = .legacy rows → ∀ l ∈ rows, l ∈ legacy
  told : ∀ rows, db.leases = .fenced rows → Sourced EventRow.leaseId EventRow.apply
    (fun r => r.id) LeaseRow.standing (Speaks legacy) (leaseLog db) rows

/-- Only an event that tells the whole state is appended to a lease that predates fencing: no
such lease is active. -/
theorem Speaks.of_active {legacy : List LegacyLease} {r r' : LeaseRow} (hf : Follows r r')
    (h : Speaks legacy r') (hactive : r.state = .active) : Speaks legacy r := by
  refine ⟨hf.mode ▸ h.1, ?_⟩
  rintro ⟨l, -, rfl⟩
  exact upgrade_state l hactive

theorem Told.journal {legacy : List LegacyLease} {db db' : Db}
    {transition : Option (String × String)} (h : Told legacy db)
    (hj : Journal db db' transition) : Told legacy db' := by
  cases hj with
  | silent hlog hk =>
    refine ⟨fun rows' hl' l hl => ?_, fun rows' hl' r hr hspeaks => ?_⟩
    · obtain ⟨rows, hrows, hmem⟩ := hk.legacy rows' hl' l hl
      exact h.older rows hrows l hmem
    · rw [hlog]
      rcases hk.fenced rows' hl' r hr hspeaks.1 with ⟨rows, hrows, hmem⟩ | ⟨rows, hrows, l, hmem, heq⟩
      · exact h.told rows hrows r hmem hspeaks
      · exact absurd ⟨l, h.older rows hrows l hmem, heq⟩ hspeaks.2
  | @acquired rows row e hl hid hlog he htells hl' =>
    refine ⟨fun rows' hrows' => ?_, fun rows' hrows' => ?_⟩
    · rw [hl'] at hrows'
      cases hrows'
    · rw [hl'] at hrows'
      cases hrows'
      rw [hlog]
      exact (h.told rows hl).add hid he htells
  | @amended rows r r' e hl hr hf hlog he htells hl' =>
    refine ⟨fun rows' hrows' => ?_, fun rows' hrows' => ?_⟩
    · rw [hl'] at hrows'
      cases hrows'
    · rw [hl'] at hrows'
      cases hrows'
      rw [hlog]
      refine (h.told rows hl).change hr he hf.id (fun s hs => ?_) ?_
      · rcases Keyed.mem_put hs with rfl | ⟨hs, hne⟩
        · exact Or.inl rfl
        · exact Or.inr ⟨hs, fun heq => hne (heq.trans hf.id.symm)⟩
      · intro hspeaks current hcurrent
        exact htells current fun hactive => hcurrent (hspeaks.of_active hf hactive)

theorem Unfenced.told {db : Db} (h : Unfenced db) : Told (legacyLeases db) db := by
  refine ⟨fun rows hl l hmem => ?_, fun rows hl => ?_⟩
  · unfold legacyLeases
    rw [hl]
    exact hmem
  · unfold Unfenced at h
    rw [hl] at h
    exact h.elim

theorem told_run {db : Db} (h : Unfenced db) {ops : List Op}
    (hops : ∀ op ∈ ops, op.isRollback = false) :
    Told (legacyLeases db) (Runs.run (step tokenDigest) db ops) :=
  Runs.run_invariant_of (step tokenDigest)
    (fun db _ hs hop => hs.journal (step_journal tokenDigest db hop)) h.told
    (Runs.admissible_of_forall (step tokenDigest) hops db)

/-- The log gains one event, of the transition, or none. -/
def Appends (db db' : Db) : Option (String × String) → Prop
  | some (leaseId, eventType) => ∃ e : EventRow, e.leaseId = some leaseId ∧
      e.eventType = eventType ∧ leaseLog db' = leaseLog db ++ [e]
  | none => leaseLog db' = leaseLog db

theorem Journal.appends {db db' : Db} {transition : Option (String × String)}
    (h : Journal db db' transition) : Appends db db' transition := by
  cases h with
  | silent hlog hk => exact hlog
  | acquired hl hid hlog he htells hl' => exact ⟨_, he, rfl, hlog⟩
  | amended hl hr hf hlog he htells hl' => exact ⟨_, he, rfl, hlog⟩

/-- A writer lease is new or amended by the transition of its own. -/
theorem Journal.of_new {db db' : Db} {transition : Option (String × String)}
    (h : Journal db db' transition) {rows rows' : List LeaseRow} (hl : db.leases = .fenced rows)
    (hl' : db'.leases = .fenced rows') {r : LeaseRow} (hr : r ∈ rows') (hmode : r.mode = .writer)
    (hnew : r ∉ rows) : ∃ eventType, transition = some (r.id, eventType) := by
  cases h with
  | silent hlog hk =>
    rcases hk.fenced rows' hl' r hr hmode with ⟨rows'', hrows, hmem⟩ | ⟨rows'', hrows, -⟩
    · obtain rfl : rows = rows'' := LeaseTable.fenced.inj (hl.symm.trans hrows)
      exact absurd hmem hnew
    · rw [hl] at hrows
      cases hrows
  | @acquired rows₁ row e hl₁ hid hlog he htells hl₁' =>
    obtain rfl : rows = rows₁ := LeaseTable.fenced.inj (hl.symm.trans hl₁)
    obtain rfl := LeaseTable.fenced.inj (hl'.symm.trans hl₁')
    rcases Keyed.mem_append_singleton.1 hr with hr | rfl
    · exact absurd hr hnew
    · exact ⟨_, rfl⟩
  | @amended rows₁ s s' e hl₁ hs hf hlog he htells hl₁' =>
    obtain rfl : rows = rows₁ := LeaseTable.fenced.inj (hl.symm.trans hl₁)
    obtain rfl := LeaseTable.fenced.inj (hl'.symm.trans hl₁')
    rcases Keyed.mem_put hr with rfl | ⟨hr, -⟩
    · exact ⟨_, by rw [hf.id]⟩
    · exact absurd hr hnew

/-- **The log of a lease.** In every run without rollback from a registry without fencing, the
replay of the events of a writer lease is the state and the generation of its row, unless the row
is as the migration to version 3 left it.  A transition that is committed appends one event about
its lease, anything else appends none, and no writer lease is new or amended without a
transition. -/
theorem log_determines_leases {db : Db} (h : Unfenced db) (ops : List Op)
    (hops : ∀ op ∈ ops, op.isRollback = false) :
    (∀ rows, (Runs.run (step tokenDigest) db ops).leases = .fenced rows → ∀ r ∈ rows,
      r.mode = .writer → ¬ Predates (legacyLeases db) r →
        replayLease r.id (Runs.run (step tokenDigest) db ops) = some (r.state, r.generation)) ∧
      ∀ op : Op, op.isRollback = false →
        Appends (Runs.run (step tokenDigest) db ops)
          (step tokenDigest (Runs.run (step tokenDigest) db ops) op)
          (committed tokenDigest (Runs.run (step tokenDigest) db ops) op) ∧
        ∀ rows rows', (Runs.run (step tokenDigest) db ops).leases = .fenced rows →
          (step tokenDigest (Runs.run (step tokenDigest) db ops) op).leases = .fenced rows' →
          ∀ r ∈ rows', r.mode = .writer → r ∉ rows → ∃ eventType,
            committed tokenDigest (Runs.run (step tokenDigest) db ops) op =
              some (r.id, eventType) := by
  refine ⟨fun rows hl r hr hmode hpredates => ?_, fun op hop => ?_⟩
  · exact (told_run h hops).told rows hl r hr ⟨hmode, hpredates⟩
  · have hj := step_journal tokenDigest (Runs.run (step tokenDigest) db ops) hop
    exact ⟨hj.appends, fun rows rows' hl hl' r hr hmode hnew => hj.of_new hl hl' hr hmode hnew⟩

/-- The row of the first lease of the samples. -/
def sampleRow : LeaseRow :=
  acquiredRow sampleDigest (sampleRequest 0) ⟨"token-1", "lease-1", "event-1", "denial-1"⟩ 1
    "2026-07-24T00:00:00.000Z" "2026-07-24T00:00:30.000Z"

/-- A lease acquired and renewed, a heartbeat of the stale authority, a quarantine and a repair. -/
def sampleRepair : List Op :=
  sampleSetup ++
    [.acquireWriterLease (sampleRequest 0) ⟨"token-1", "lease-1", "event-1", "denial-1"⟩,
      .heartbeatWriterLease sampleAuthority (some 30000) 1784851201000 "event-2",
      .heartbeatWriterLease sampleAuthority (some 30000) 1784851202000 "event-3",
      .quarantineWriterLease { sampleRow.status with rowVersion := 2 } "owner unclear" "system"
        1784851203000 "event-4",
      .repairQuarantinedWriterLease { sampleRow.status with rowVersion := 3 } ⟨true, none⟩
        "operator" 1784851204000 "event-5"]

theorem log_determines_leases_sample :
    (leaseEvents "lease-1" (Runs.run (step sampleDigest) {} sampleRepair)).map (·.eventType) =
      ["lease_acquired", "lease_heartbeat", "lease_quarantined", "lease_repaired"] ∧
    replayLease "lease-1" (Runs.run (step sampleDigest) {} sampleRepair) = some (.released, 1) := by
  refine ⟨by decide +kernel, ?_⟩
  have hl : (Runs.run (step sampleDigest) {} sampleRepair).leases = .fenced
      [((sampleRow.renew "2026-07-24T00:00:01.000Z" "2026-07-24T00:00:31.000Z").quarantine
        "owner unclear").retire "2026-07-24T00:00:04.000Z"] := by decide +kernel
  have hplain : ∀ op ∈ sampleRepair, op.isRollback = false := by decide
  refine (@log_determines_leases sampleDigest {} trivial sampleRepair hplain).1 _ hl _
    List.mem_cons_self rfl ?_
  rintro ⟨l, hl, -⟩
  cases hl

/-- Two writer leases of version 2, of which one is released. -/
def sampleLegacyRows : List LegacyLease :=
  [⟨"lease-1", "ws", .writer, none, "batch-1", "2026-07-24T00:00:00.000Z",
      "2026-07-24T00:00:30.000Z", none⟩,
    ⟨"lease-2", "ws", .writer, none, "batch-1", "2026-07-23T00:00:00.000Z",
      "2026-07-23T00:00:30.000Z", some "2026-07-23T00:00:10.000Z"⟩]

def sampleLegacy : Db where
  ledger := [1, 2]
  core := some { batches := [⟨"batch-1", none⟩] }
  leases := .legacy sampleLegacyRows

/-- No reading of the log tells the leases that the migration quarantined from those it left
released: it tells nothing of either. -/
theorem legacy_leases_untold : Unfenced sampleLegacy ∧
    schemaVersion (Runs.run (step sampleDigest) sampleLegacy [.migrate 3 3]) = 3 ∧
    ¬ ∃ read : List EventRow → LeaseState × ℕ, ∀ rows,
      (Runs.run (step sampleDigest) sampleLegacy [.migrate 3 3]).leases = .fenced rows →
      ∀ r ∈ rows, r.mode = .writer →
        read (leaseEvents r.id (Runs.run (step sampleDigest) sampleLegacy [.migrate 3 3])) =
          (r.state, r.generation) := by
  refine ⟨?_, by decide +kernel, ?_⟩
  · refine ⟨by decide +kernel, ?_⟩
    decide +kernel
  · rintro ⟨read, h⟩
    have hl : (Runs.run (step sampleDigest) sampleLegacy [.migrate 3 3]).leases =
        .fenced (sampleLegacyRows.map LegacyLease.upgrade) := by decide +kernel
    have hquarantined := h _ hl _ List.mem_cons_self rfl
    have hreleased := h _ hl _ (List.mem_cons_of_mem _ List.mem_cons_self) rfl
    exact absurd (hquarantined.symm.trans hreleased) (by decide)

end AgentOrchestrator.Lease
