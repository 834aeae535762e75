import AgentOrchestrator.Lease.Machine

/-!
# What a transaction does to the leases

One lemma for each operation says which row a successful call amends, how, and which event it
appends; `step_effect` collects them.  Everything that is proved about the leases over whole runs
is proved from `step_effect`.
-/

namespace AgentOrchestrator.Lease

variable {tokenDigest : String → String}

/-! ## Statements -/

theorem leaseRows_ok {db : Db} {rows : List LeaseRow} (h : leaseRows db = .ok rows) :
    db.leases = .fenced rows := by
  unfold leaseRows at h
  split at h
  · cases h
  · cases h
  · cases h; assumption

theorem coreTables_ok {db : Db} {core : CoreTables} (h : coreTables db = .ok core) :
    db.core = some core := by
  unfold coreTables at h
  split at h
  · cases h
  · cases h; assumption

theorem updateLease_some {p : LeaseRow → Bool} {f : LeaseRow → LeaseRow} {rows rows' : List LeaseRow}
    {r' : LeaseRow} (h : updateLease p f rows = some (r', rows')) :
    ∃ r ∈ rows, p r = true ∧ r' = f r ∧ rows' = Keyed.put (·.id) (f r) rows := by
  unfold updateLease at h
  split at h
  · cases h
  · next r hr =>
    cases h
    exact ⟨r, List.mem_of_find?_eq_some hr, List.find?_some hr, rfl, rfl⟩

theorem appendEvent_ok {id aggregateType aggregateId eventType actor : String} {data : Json}
    {now : Date} {db db' : Db}
    (h : appendEvent id aggregateType aggregateId eventType actor data now db = .ok db') :
    ∃ core timestamp, db.core = some core ∧ sqlTimestamp now = .ok timestamp ∧
      (∀ e ∈ core.events, e.id ≠ id) ∧
      db' = { db with core := some { core with events := core.events ++
        [⟨id, aggregateType, aggregateId, eventType, actor, data, timestamp⟩] } } := by
  unfold appendEvent at h
  obtain ⟨core, hc, h⟩ := bind_eq_ok h
  obtain ⟨timestamp, ht, h⟩ := bind_eq_ok h
  obtain ⟨u, hu, h⟩ := bind_eq_ok h
  cases h
  refine ⟨core, timestamp, coreTables_ok hc, ht, ?_, rfl⟩
  have hfresh := of_refuseIf hu
  intro e he hid
  exact hfresh (List.any_eq_true.2 ⟨e, he, decide_eq_true hid⟩)

theorem insertLease_ok {row : LeaseRow} {core : CoreTables} {rows rows' : List LeaseRow}
    (h : insertLease row core rows = .ok rows') :
    (∀ r ∈ rows, r.id ≠ row.id) ∧ oneActiveWriter (rows ++ [row]) ∧ rows' = rows ++ [row] := by
  unfold insertLease at h
  split_ifs at h with hid hone hbatch hsession
  cases h
  refine ⟨?_, ?_, rfl⟩
  · intro r hr hrid
    exact hid (List.any_eq_true.2 ⟨r, hr, decide_eq_true hrid⟩)
  · simpa using hone

/-! ## The owner's operations and recovery -/

/-- The transaction replaced the row `r` by `r'` and appended the event. -/
def Amends (db db' : Db) (r r' : LeaseRow) (event : EventRow) : Prop :=
  ∃ rows core, db.leases = .fenced rows ∧ r ∈ rows ∧ db.core = some core ∧
    (∀ e ∈ core.events, e.id ≠ event.id) ∧
    db' = { db with leases := .fenced (Keyed.put (·.id) r' rows)
                    core := some { core with events := core.events ++ [event] } }

/-- The event an owner's operation appends. -/
def ownerEvent (a : LeaseAuthority) (eventId eventType : String) (timestamp : Timestamp) :
    EventRow :=
  ⟨eventId, "workspace_lease", a.leaseId, eventType, a.actor,
    .obj [("generation", .nat a.generation)], timestamp⟩

theorem amends_of {db db' : Db} {rows : List LeaseRow} {r r' : LeaseRow}
    {id aggregateType aggregateId eventType actor : String} {data : Json} {now : Date}
    (hl : db.leases = .fenced rows) (hr : r ∈ rows)
    (h : appendEvent id aggregateType aggregateId eventType actor data now
      { db with leases := .fenced (Keyed.put (·.id) r' rows) } = .ok db') :
    ∃ timestamp, sqlTimestamp now = .ok timestamp ∧
      Amends db db' r r' ⟨id, aggregateType, aggregateId, eventType, actor, data, timestamp⟩ := by
  obtain ⟨core, timestamp, hc, ht, hfresh, rfl⟩ := appendEvent_ok h
  exact ⟨timestamp, ht, rows, core, hl, hr, hc, hfresh, rfl⟩

/-- A row the caller of an operation owns. -/
structure Owns (tokenDigest : String → String) (a : LeaseAuthority) (r : LeaseRow) : Prop where
  id : r.id = a.leaseId
  workspace : r.workspaceId = a.workspaceId
  generation : r.generation = a.generation
  digest : r.fencingTokenDigest = tokenDigest a.fencingToken
  batch : r.ownerBatchId = a.ownerBatchId
  session : r.ownerSessionId = a.ownerSessionId
  server : r.serverInstanceId = a.serverInstanceId
  host : r.ownerHost = a.ownerHost
  process : r.processId = a.processId
  start : r.processStartToken = a.processStartToken
  version : r.rowVersion = a.rowVersion

theorem owns_of {a : LeaseAuthority} {r : LeaseRow} (h : ownership tokenDigest a r = true) :
    Owns tokenDigest a r := by
  unfold ownership at h
  simp only [Bool.and_eq_true, decide_eq_true_eq] at h
  obtain ⟨⟨⟨⟨⟨⟨⟨⟨⟨⟨hid, hws⟩, hg⟩, hd⟩, hb⟩, hs⟩, hsv⟩, hh⟩, hp⟩, ht⟩, hv⟩ := h
  exact ⟨hid, hws, hg, hd, hb, hs, hsv, hh, hp, ht, hv⟩

theorem bindWriterProcess_ok {a a' : LeaseAuthority} {processId : ℤ} {token : String} {now : Date}
    {eventId : String} {db db' : Db}
    (h : bindWriterProcess tokenDigest a processId token now eventId db = .ok (a', db')) :
    ∃ r timestamp, Owns tokenDigest a r ∧ r.state = .active ∧
      Amends db db' r (r.bindProcess processId token)
        (ownerEvent a eventId "lease_process_bound" timestamp) ∧
      a' = { a with processId := some processId, processStartToken := some token
                    rowVersion := r.rowVersion + 1 } := by
  unfold bindWriterProcess at h
  obtain ⟨rows, hl, h⟩ := bind_eq_ok h
  split at h
  · cases h
  · next r' rows' hu =>
    obtain ⟨r, hr, hp, rfl, rfl⟩ := updateLease_some hu
    obtain ⟨db'', he, h⟩ := bind_eq_ok h
    cases h
    simp only [Bool.and_eq_true, decide_eq_true_eq] at hp
    obtain ⟨timestamp, -, hamends⟩ := amends_of (leaseRows_ok hl) hr he
    exact ⟨r, timestamp, owns_of hp.1, hp.2, hamends, rfl⟩

theorem heartbeatWriterLease_ok {a a' : LeaseAuthority} {ttlMs : Option ℚ} {now : Date}
    {eventId : String} {db db' : Db}
    (h : heartbeatWriterLease tokenDigest a ttlMs now eventId db = .ok (a', db')) :
    ∃ r timestamp expiresAt, Owns tokenDigest a r ∧ r.state = .active ∧
      timestamp < r.expiresAt ∧ Amends db db' r (r.renew timestamp expiresAt)
        (ownerEvent a eventId "lease_heartbeat" timestamp) ∧
      a' = { a with rowVersion := r.rowVersion + 1, expiresAt := expiresAt } := by
  unfold heartbeatWriterLease at h
  obtain ⟨ttl, -, h⟩ := bind_eq_ok h
  obtain ⟨heartbeatAt, hh, h⟩ := bind_eq_ok h
  obtain ⟨expiresAt, -, h⟩ := bind_eq_ok h
  obtain ⟨rows, hl, h⟩ := bind_eq_ok h
  split at h
  · cases h
  · next r' rows' hu =>
    obtain ⟨r, hr, hp, rfl, rfl⟩ := updateLease_some hu
    obtain ⟨db'', he, h⟩ := bind_eq_ok h
    cases h
    simp only [Bool.and_eq_true, decide_eq_true_eq] at hp
    obtain ⟨timestamp, ht, hamends⟩ := amends_of (leaseRows_ok hl) hr he
    obtain rfl : heartbeatAt = timestamp := Except.ok.inj (hh.symm.trans ht)
    exact ⟨r, heartbeatAt, expiresAt, owns_of hp.1.1, hp.1.2, hp.2, hamends, rfl⟩

theorem assertWriterLease_ok {a : LeaseAuthority} {now : Date} {db : Db} {u : Unit}
    (h : assertWriterLease tokenDigest a now db = .ok u) :
    ∃ rows, db.leases = .fenced rows ∧
      ∃ r ∈ rows, Owns tokenDigest a r ∧ r.state = .active := by
  unfold assertWriterLease at h
  obtain ⟨rows, hl, h⟩ := bind_eq_ok h
  obtain ⟨timestamp, -, h⟩ := bind_eq_ok h
  obtain ⟨r, hr, hp⟩ := List.any_eq_true.1 (not_not.1 (of_refuseIf h))
  simp only [Bool.and_eq_true, decide_eq_true_eq] at hp
  exact ⟨rows, leaseRows_ok hl, r, hr, owns_of hp.1.1, hp.1.2⟩

/-- The second phase of a release finds the row of the first: the identifier is the key. -/
theorem releaseWriterLease_ok {a : LeaseAuthority} {now : Date} {eventId : String} {db db' : Db}
    (h : releaseWriterLease tokenDigest a now eventId db = .ok db') :
    ∃ r timestamp, Owns tokenDigest a r ∧ r.state = .active ∧
      Amends db db' r (r.beginRelease.retire timestamp)
        (ownerEvent a eventId "lease_released" timestamp) := by
  unfold releaseWriterLease at h
  obtain ⟨rows, hl, h⟩ := bind_eq_ok h
  split at h
  · cases h
  · next r' rows' hu =>
    obtain ⟨r, hr, hp, rfl, rfl⟩ := updateLease_some hu
    simp only [Bool.and_eq_true, decide_eq_true_eq] at hp
    have howns := owns_of hp.1
    obtain ⟨timestamp, ht, h⟩ := bind_eq_ok h
    split at h
    · cases h
    · next s' rows'' hu' =>
      obtain ⟨s, hs, hq, rfl, rfl⟩ := updateLease_some hu'
      simp only [Bool.and_eq_true, decide_eq_true_eq] at hq
      have hsid : s.id = r.id := hq.1.1.1.1.trans howns.id.symm
      have hsr : s = r.beginRelease := by
        rcases Keyed.mem_put hs with rfl | ⟨-, hne⟩
        · rfl
        · exact absurd hsid hne
      subst hsr
      have hput : Keyed.put (fun r : LeaseRow => r.id) (r.beginRelease.retire timestamp)
          (Keyed.put (fun r : LeaseRow => r.id) r.beginRelease rows) =
          Keyed.put (fun r : LeaseRow => r.id) (r.beginRelease.retire timestamp) rows :=
        Keyed.put_put (by rfl) rows
      rw [hput] at h
      obtain ⟨timestamp', ht', hamends⟩ := amends_of (leaseRows_ok hl) hr h
      obtain rfl : timestamp = timestamp' := Except.ok.inj (ht.symm.trans ht')
      exact ⟨r, timestamp, howns, hp.2, hamends⟩

/-- The row an observer saw, by the columns that recovery and repair compare. -/
structure Matches (observed : WorkspaceLeaseStatus) (state : LeaseState) (r : LeaseRow) :
    Prop where
  id : r.id = observed.leaseId
  generation : r.generation = observed.generation
  state : r.state = state
  version : r.rowVersion = observed.rowVersion

theorem recoverExpiredWriterLease_ok {observed : WorkspaceLeaseStatus} {evidence : Evidence}
    {actor : String} {now : Date} {eventId : String} {db db' : Db}
    (h : recoverExpiredWriterLease observed evidence actor now eventId db = .ok db') :
    ∃ r timestamp, sqlTimestamp now = .ok timestamp ∧ observed.state = .active ∧
      ¬ timestamp < observed.expiresAt ∧ evidence.ownerProcessAbsent = true ∧
      Matches observed .active r ∧ r.expiresAt = observed.expiresAt ∧
      Amends db db' r (r.retire timestamp) ⟨eventId, "workspace_lease", observed.leaseId,
        "lease_recovered", actor, Json.defined [("workspaceId", some (.str observed.workspaceId)),
          ("generation", some (.nat observed.generation)),
          ("evidence", some (.str "owner_process_absent")),
          ("detail", evidence.detail.map .str)], timestamp⟩ := by
  unfold recoverExpiredWriterLease at h
  obtain ⟨timestamp, ht, h⟩ := bind_eq_ok h
  obtain ⟨u, hstate, h⟩ := bind_eq_ok h
  obtain ⟨v, habsent, h⟩ := bind_eq_ok h
  obtain ⟨rows, hl, h⟩ := bind_eq_ok h
  split at h
  · cases h
  · next r' rows' hu =>
    obtain ⟨r, hr, hp, rfl, rfl⟩ := updateLease_some hu
    simp only [Bool.and_eq_true, decide_eq_true_eq] at hp
    obtain ⟨⟨⟨⟨hid, hg⟩, hs⟩, hv⟩, he⟩ := hp
    obtain ⟨timestamp', ht', hamends⟩ := amends_of (leaseRows_ok hl) hr h
    obtain rfl : timestamp = timestamp' := Except.ok.inj (ht.symm.trans ht')
    obtain ⟨hactive, hexpired⟩ := not_or.1 (of_refuseIf hstate)
    exact ⟨r, timestamp, ht, not_not.1 hactive, hexpired, not_not.1 (of_refuseIf habsent),
      ⟨hid, hg, hs, hv⟩, he, hamends⟩

theorem quarantineWriterLease_ok {observed : WorkspaceLeaseStatus} {reason actor : String}
    {now : Date} {eventId : String} {db db' : Db}
    (h : quarantineWriterLease observed reason actor now eventId db = .ok db') :
    ∃ r timestamp, (observed.state = .active ∨ observed.state = .releasing) ∧
      Matches observed observed.state r ∧
      Amends db db' r (r.quarantine reason) ⟨eventId, "workspace_lease", observed.leaseId,
        "lease_quarantined", actor, .obj [("workspaceId", .str r.workspaceId),
          ("generation", .nat r.generation), ("reason", .str reason)], timestamp⟩ := by
  unfold quarantineWriterLease at h
  obtain ⟨u, hstate, h⟩ := bind_eq_ok h
  obtain ⟨rows, hl, h⟩ := bind_eq_ok h
  split at h
  · cases h
  · next r' rows' hu =>
    obtain ⟨r, hr, hp, rfl, rfl⟩ := updateLease_some hu
    simp only [Bool.and_eq_true, decide_eq_true_eq] at hp
    obtain ⟨⟨⟨hid, hg⟩, hs⟩, hv⟩ := hp
    obtain ⟨timestamp, -, hamends⟩ := amends_of (leaseRows_ok hl) hr h
    have hs' := of_refuseIf hstate
    refine ⟨r, timestamp, ?_, ⟨hid, hg, hs, hv⟩, hamends⟩
    by_cases ha : observed.state = .active
    · exact Or.inl ha
    · exact Or.inr (not_not.1 fun hn => hs' ⟨ha, hn⟩)

theorem repairQuarantinedWriterLease_ok {observed : WorkspaceLeaseStatus} {evidence : Evidence}
    {actor : String} {now : Date} {eventId : String} {db db' : Db}
    (h : repairQuarantinedWriterLease observed evidence actor now eventId db = .ok db') :
    ∃ r timestamp, evidence.ownerProcessAbsent = true ∧ Matches observed .quarantined r ∧
      Amends db db' r (r.retire timestamp) ⟨eventId, "workspace_lease", observed.leaseId,
        "lease_repaired", actor, Json.defined [("workspaceId", some (.str r.workspaceId)),
          ("generation", some (.nat r.generation)),
          ("quarantineReason", some (Json.optStr r.quarantineReason)),
          ("detail", evidence.detail.map .str)], timestamp⟩ := by
  unfold repairQuarantinedWriterLease at h
  obtain ⟨u, habsent, h⟩ := bind_eq_ok h
  obtain ⟨rows, hl, h⟩ := bind_eq_ok h
  obtain ⟨timestamp, ht, h⟩ := bind_eq_ok h
  split at h
  · cases h
  · next r' rows' hu =>
    obtain ⟨r, hr, hp, rfl, rfl⟩ := updateLease_some hu
    simp only [Bool.and_eq_true, decide_eq_true_eq] at hp
    obtain ⟨⟨⟨hid, hg⟩, hs⟩, hv⟩ := hp
    obtain ⟨timestamp', ht', hamends⟩ := amends_of (leaseRows_ok hl) hr h
    obtain rfl : timestamp = timestamp' := Except.ok.inj (ht.symm.trans ht')
    exact ⟨r, timestamp, not_not.1 (of_refuseIf habsent), ⟨hid, hg, hs, hv⟩, hamends⟩

/-! ## Acquisition -/

/-- **Acquisition.** A granted lease has the generation after the last one of its workspace, which
had no unreleased writer. -/
theorem acquireWriterLease_ok {input : AcquireInput} {draws : AcquireDraws} {db : Db}
    {a : LeaseAuthority} (h : (acquireWriterLease tokenDigest input draws db).1 = .ok a) :
    ∃ rows core timestamp expiresAt, db.leases = .fenced rows ∧ db.core = some core ∧
      (∀ r ∈ rows, r.workspaceId = input.workspaceId → ¬ r.Blocks) ∧
      (∀ r ∈ rows, r.id ≠ draws.leaseId) ∧ (∀ e ∈ core.events, e.id ≠ draws.eventId) ∧
      a = acquiredAuthority input draws
        (lastAllocatedGeneration input.workspaceId db.fencing + 1) expiresAt ∧
      (acquireWriterLease tokenDigest input draws db).2 =
        { db with
          leases := .fenced (rows ++ [acquiredRow tokenDigest input draws
            (lastAllocatedGeneration input.workspaceId db.fencing + 1) timestamp expiresAt])
          fencing := upsertGeneration input.workspaceId 1 (· + 1) db.fencing
          core := some { core with events := core.events ++ [⟨draws.eventId, "workspace_lease",
            draws.leaseId, "lease_acquired", input.actor,
            .obj [("workspaceId", .str input.workspaceId), ("generation",
              .nat (lastAllocatedGeneration input.workspaceId db.fencing + 1)),
              ("serverInstanceId", .str (input.serverInstanceId.getD ""))], timestamp⟩] } } := by
  unfold acquireWriterLease at h ⊢
  split_ifs at h ⊢ with hblank
  cases httl : checkTtl input.ttlMs with
  | error e => rw [httl] at h; cases h
  | ok ttl =>
    rw [httl] at h
    dsimp only at h ⊢
    cases htx : acquireTransaction tokenDigest input ttl draws db with
    | error e => rw [htx] at h; cases h
    | ok result =>
      obtain ⟨outcome, db'⟩ := result
      rw [htx] at h
      cases outcome with
      | inr state =>
        dsimp only at h
        split at h <;> cases h
      | inl authority =>
        cases h
        dsimp only
        unfold acquireTransaction at htx
        obtain ⟨rows, hl, htx⟩ := bind_eq_ok htx
        split at htx
        · cases htx
        · next hnone =>
          dsimp only at htx
          obtain ⟨timestamp, ht, htx⟩ := bind_eq_ok htx
          obtain ⟨expiresAt, -, htx⟩ := bind_eq_ok htx
          obtain ⟨core, hc, htx⟩ := bind_eq_ok htx
          obtain ⟨rows', hi, htx⟩ := bind_eq_ok htx
          obtain ⟨db'', he, htx⟩ := bind_eq_ok htx
          cases htx
          rw [lastAllocatedGeneration_next, if_pos rfl] at hi he ⊢
          obtain ⟨hid, -, rfl⟩ := insertLease_ok hi
          obtain ⟨core', timestamp', hc', ht', hfresh, rfl⟩ := appendEvent_ok he
          have hcore := coreTables_ok hc
          obtain rfl : core = core' := Option.some.inj (hcore.symm.trans hc')
          obtain rfl : timestamp = timestamp' := Except.ok.inj (ht.symm.trans ht')
          refine ⟨rows, core, timestamp, expiresAt, leaseRows_ok hl, hcore, ?_, hid, hfresh,
            rfl, rfl⟩
          intro r hr hws hblocks
          have := List.find?_eq_none.1 hnone r hr
          exact this (by rw [Bool.and_eq_true]; exact ⟨decide_eq_true hws, decide_eq_true hblocks⟩)

/-- A refused acquisition leaves the database alone, but for the record of its denial. -/
theorem acquireWriterLease_refused {input : AcquireInput} {draws : AcquireDraws} {db : Db}
    {e : LeaseError} (h : (acquireWriterLease tokenDigest input draws db).1 = .error e) :
    (acquireWriterLease tokenDigest input draws db).2 = db ∨
      ∃ state : LeaseState, recordPolicyDenial input.workspaceId "WORKSPACE_WRITER_BUSY" input.actor
        [("state", .str state.text)] input.now draws.denialId db =
          .ok (acquireWriterLease tokenDigest input draws db).2 := by
  unfold acquireWriterLease at h ⊢
  split_ifs with hblank
  · exact Or.inl rfl
  rw [if_neg hblank] at h
  cases httl : checkTtl input.ttlMs with
  | error e => exact Or.inl rfl
  | ok ttl =>
    rw [httl] at h
    dsimp only at h ⊢
    cases htx : acquireTransaction tokenDigest input ttl draws db with
    | error e => exact Or.inl rfl
    | ok result =>
      obtain ⟨outcome, db'⟩ := result
      rw [htx] at h
      cases outcome with
      | inl authority => cases h
      | inr state =>
        obtain rfl : db' = db := by
          unfold acquireTransaction at htx
          obtain ⟨rows, hl, htx⟩ := bind_eq_ok htx
          split at htx
          · cases htx; rfl
          · dsimp only at htx
            obtain ⟨timestamp, -, htx⟩ := bind_eq_ok htx
            obtain ⟨expiresAt, -, htx⟩ := bind_eq_ok htx
            obtain ⟨core, -, htx⟩ := bind_eq_ok htx
            obtain ⟨rows', -, htx⟩ := bind_eq_ok htx
            obtain ⟨db'', -, htx⟩ := bind_eq_ok htx
            cases htx
        dsimp only
        cases hd : recordPolicyDenial input.workspaceId "WORKSPACE_WRITER_BUSY" input.actor
            [("state", .str state.text)] input.now draws.denialId db' with
        | error e => exact Or.inl rfl
        | ok db'' => exact Or.inr ⟨state, hd⟩

/-- A refused acquisition leaves the leases and the ledger of generations alone. -/
theorem acquireWriterLease_error {input : AcquireInput} {draws : AcquireDraws} {db : Db}
    {e : LeaseError} (h : (acquireWriterLease tokenDigest input draws db).1 = .error e) :
    (acquireWriterLease tokenDigest input draws db).2.leases = db.leases ∧
      (acquireWriterLease tokenDigest input draws db).2.fencing = db.fencing := by
  rcases acquireWriterLease_refused h with hsame | ⟨state, hd⟩
  · rw [hsame]
    exact ⟨rfl, rfl⟩
  · obtain ⟨core, timestamp, -, -, -, hdb⟩ := appendEvent_ok hd
    rw [hdb]
    exact ⟨rfl, rfl⟩

/-! ## Retention, records and migrations -/

/-- Cleanup deletes leases that are due, and keeps the rest of them as they are. -/
theorem cleanup_ok {options : StorageOptions} {now : Date} {eventId : String} {db db' : Db}
    {summary : CleanupSummary} (h : cleanup options now eventId db = .ok (summary, db')) :
    ∃ rows timestamp limit, db.leases = .fenced rows ∧
      db'.leases = .fenced (rows.filter fun r => !dueLease timestamp limit r) ∧
      db'.fencing = db.fencing := by
  unfold cleanup at h
  obtain ⟨limit, -, h⟩ := bind_eq_ok h
  obtain ⟨limit', -, h⟩ := bind_eq_ok h
  obtain ⟨timestamp, -, h⟩ := bind_eq_ok h
  obtain ⟨core, -, h⟩ := bind_eq_ok h
  obtain ⟨rows, hl, h⟩ := bind_eq_ok h
  dsimp only at h
  refine ⟨rows, timestamp, limit, leaseRows_ok hl, ?_⟩
  split at h
  · obtain ⟨db'', he, h⟩ := bind_eq_ok h
    cases h
    obtain ⟨core', timestamp', -, -, -, rfl⟩ := appendEvent_ok he
    exact ⟨rfl, rfl⟩
  · cases h
    exact ⟨rfl, rfl⟩

theorem insertWorkspaceLease_ok {r : LegacyLease} {db db' : Db}
    (h : insertWorkspaceLease r db = .ok db') :
    ∃ rows row, db.leases = .fenced rows ∧ (∀ s ∈ rows, s.id ≠ row.id) ∧
      row.mode = .readOnly ∧ row.fencingTokenDigest = "" ∧
      (row.state = .released ↔ row.releasedAt ≠ none) ∧
      db'.leases = .fenced (rows ++ [row]) ∧ db'.fencing = db.fencing := by
  unfold insertWorkspaceLease at h
  obtain ⟨u, hmode, h⟩ := bind_eq_ok h
  obtain ⟨rows, hl, h⟩ := bind_eq_ok h
  obtain ⟨core, -, h⟩ := bind_eq_ok h
  dsimp only at h
  obtain ⟨rows', hi, h⟩ := bind_eq_ok h
  cases h
  obtain ⟨hid, -, rfl⟩ := insertLease_ok hi
  refine ⟨rows, _, leaseRows_ok hl, hid, ?_, rfl, ?_, rfl, rfl⟩
  · cases hm : r.mode with
    | readOnly => rfl
    | writer => exact absurd hm (of_refuseIf hmode)
  · dsimp only
    split_ifs with hreleased
    · simp [hreleased]
    · simp [hreleased]

/-- The ledger of generations only grows when it is raised, and covers every workspace it is
raised for. -/
theorem lastAllocatedGeneration_raise (rows : List LeaseRow) (fencing : List FencingRow)
    (workspaces : List String) (workspaceId : String) :
    lastAllocatedGeneration workspaceId fencing ≤
        lastAllocatedGeneration workspaceId (workspaces.foldl (fun fencing ws =>
          upsertGeneration ws (maxGeneration ws rows)
            (fun last => max last (maxGeneration ws rows)) fencing) fencing) ∧
      (workspaceId ∈ workspaces → maxGeneration workspaceId rows ≤
        lastAllocatedGeneration workspaceId (workspaces.foldl (fun fencing ws =>
          upsertGeneration ws (maxGeneration ws rows)
            (fun last => max last (maxGeneration ws rows)) fencing) fencing)) := by
  induction workspaces generalizing fencing with
  | nil => exact ⟨le_refl _, fun h => absurd h List.not_mem_nil⟩
  | cons ws workspaces ih =>
    obtain ⟨hgrows, hcovers⟩ := ih (upsertGeneration ws (maxGeneration ws rows)
      (fun last => max last (maxGeneration ws rows)) fencing)
    rw [List.foldl_cons]
    rw [lastAllocatedGeneration_upsert] at hgrows
    by_cases hws : workspaceId = ws
    · subst hws
      rw [if_pos rfl] at hgrows
      split_ifs at hgrows with hnone
      · have hzero : lastAllocatedGeneration workspaceId fencing = 0 := by
          unfold lastAllocatedGeneration
          rw [hnone]
        rw [hzero]
        exact ⟨Nat.zero_le _, fun _ => hgrows⟩
      · exact ⟨(le_max_left _ _).trans hgrows, fun _ => (le_max_right _ _).trans hgrows⟩
    · rw [if_neg hws] at hgrows
      refine ⟨hgrows, fun hmem => hcovers ?_⟩
      rcases List.mem_cons.1 hmem with h | h
      · exact absurd h hws
      · exact h

theorem le_foldl_max (l : List ℕ) (a : ℕ) : a ≤ l.foldl max a ∧ ∀ n ∈ l, n ≤ l.foldl max a := by
  induction l generalizing a with
  | nil => exact ⟨le_refl a, fun n hn => absurd hn List.not_mem_nil⟩
  | cons b l ih =>
    obtain ⟨ha, hl⟩ := ih (max a b)
    refine ⟨(le_max_left a b).trans ha, fun n hn => ?_⟩
    rcases List.mem_cons.1 hn with rfl | hn
    · exact (le_max_right a n).trans ha
    · exact hl n hn

theorem le_maxGeneration {rows : List LeaseRow} {r : LeaseRow} (hr : r ∈ rows) :
    r.generation ≤ maxGeneration r.workspaceId rows := by
  refine (le_foldl_max _ 0).2 _ (List.mem_map.2 ⟨r, List.mem_filter.2 ⟨hr, ?_⟩, rfl⟩)
  exact decide_eq_true rfl

theorem raiseGenerations_le (rows : List LeaseRow) (fencing : List FencingRow) (ws : String) :
    lastAllocatedGeneration ws fencing ≤
      lastAllocatedGeneration ws (raiseGenerations rows fencing) :=
  (lastAllocatedGeneration_raise rows fencing _ ws).1

theorem le_raiseGenerations {rows : List LeaseRow} {r : LeaseRow} (hr : r ∈ rows)
    (fencing : List FencingRow) :
    r.generation ≤ lastAllocatedGeneration r.workspaceId (raiseGenerations rows fencing) :=
  (le_maxGeneration hr).trans ((lastAllocatedGeneration_raise rows fencing _ r.workspaceId).2
    (List.mem_dedup.2 (List.mem_map_of_mem hr)))

/-! ## One transaction -/

/-- What an operation may make of a row. -/
inductive Amended (r : LeaseRow) : LeaseRow → Prop
  | bound (h : r.state = .active) (processId : ℤ) (token : String) :
      Amended r (r.bindProcess processId token)
  | renewed (h : r.state = .active) (heartbeatAt expiresAt : Timestamp) :
      Amended r (r.renew heartbeatAt expiresAt)
  | released (h : r.state = .active) (timestamp : Timestamp) :
      Amended r (r.beginRelease.retire timestamp)
  | retired (h : r.state = .active ∨ r.state = .quarantined) (timestamp : Timestamp) :
      Amended r (r.retire timestamp)
  | quarantined (h : r.state = .active ∨ r.state = .releasing) (reason : String) :
      Amended r (r.quarantine reason)

/-- The effect of a transaction on the leases and the ledger of generations. -/
inductive Effect (db db' : Db) : Prop
  | kept (hl : db'.leases = db.leases) (hf : db'.fencing = db.fencing)
  | amended {rows : List LeaseRow} {r r' : LeaseRow} (hl : db.leases = .fenced rows) (hr : r ∈ rows)
      (h : Amended r r') (hl' : db'.leases = .fenced (Keyed.put (·.id) r' rows))
      (hf : db'.fencing = db.fencing)
  | acquired {rows : List LeaseRow} {row : LeaseRow} (hl : db.leases = .fenced rows)
      (hid : ∀ r ∈ rows, r.id ≠ row.id) (hmode : row.mode = .writer) (hstate : row.state = .active)
      (hreleased : row.releasedAt = none)
      (hfree : ∀ r ∈ rows, r.workspaceId = row.workspaceId → ¬ r.Blocks)
      (hg : row.generation = lastAllocatedGeneration row.workspaceId db.fencing + 1)
      (hl' : db'.leases = .fenced (rows ++ [row]))
      (hf : db'.fencing = upsertGeneration row.workspaceId 1 (· + 1) db.fencing)
  | recorded {rows : List LeaseRow} {row : LeaseRow} (hl : db.leases = .fenced rows)
      (hid : ∀ r ∈ rows, r.id ≠ row.id) (hmode : row.mode = .readOnly)
      (hdigest : row.fencingTokenDigest = "")
      (hstate : row.state = .released ↔ row.releasedAt ≠ none)
      (hl' : db'.leases = .fenced (rows ++ [row])) (hf : db'.fencing = db.fencing)
  | cleaned {rows : List LeaseRow} {now limit : Timestamp} (hl : db.leases = .fenced rows)
      (hl' : db'.leases = .fenced (rows.filter fun r => !dueLease now limit r))
      (hf : db'.fencing = db.fencing)
  | created (hl' : db'.leases = .legacy []) (hf : db'.fencing = db.fencing)
  | upgraded {rows : List LegacyLease} (hl : db.leases = .legacy rows)
      (hone : oneActiveWriter (rows.map LegacyLease.upgrade))
      (hl' : db'.leases = .fenced (rows.map LegacyLease.upgrade))
      (hf : db'.fencing = raiseGenerations (rows.map LegacyLease.upgrade) db.fencing)
  | downgraded {rows : List LeaseRow} (hl : db.leases = .fenced rows)
      (hone : oneLegacyWriter (rows.map LeaseRow.toLegacyLease))
      (hl' : db'.leases = .legacy (rows.map LeaseRow.toLegacyLease))
      (hf : db'.fencing = db.fencing)
  | dropped (hl' : db'.leases = .absent) (hf : db'.fencing = db.fencing)

theorem Effect.of_amends {db db' : Db} {r r' : LeaseRow} {event : EventRow} (h : Amended r r')
    (ha : Amends db db' r r' event) : Effect db db' := by
  obtain ⟨rows, core, hl, hr, -, -, rfl⟩ := ha
  exact .amended hl hr h rfl rfl

theorem up_effect {version : ℕ} {db db' : Db} (h : up version db = .ok db') : Effect db db' := by
  unfold up at h
  split at h
  · unfold up1 at h
    split at h
    · cases h
    · cases h; exact .kept rfl rfl
  · unfold up2 at h
    split at h
    · cases h; exact .created rfl rfl
    · cases h
    · cases h
  · unfold up3 at h
    split at h
    · cases h
    · cases h
    · next rows hl =>
      dsimp only at h
      split_ifs at h with hone
      cases h
      exact .upgraded hl hone rfl rfl
  · cases h

theorem down_effect {version : ℕ} {db db' : Db} (h : down version db = .ok db') :
    Effect db db' := by
  unfold down at h
  split at h
  · unfold down1 at h
    split at h
    · cases h
    · cases h
    · cases h
    · cases h; exact .kept rfl rfl
  · unfold down2 at h
    split at h
    · cases h
    · cases h
    · cases h; exact .dropped rfl rfl
  · unfold down3 at h
    split at h
    · next rows hl =>
      dsimp only at h
      split_ifs at h with hone
      cases h
      exact .downgraded hl hone rfl rfl
    · cases h
  · cases h

theorem Effect.ledger {db db' : Db} (h : Effect db db') (ledger : List ℕ) :
    Effect db { db' with ledger := ledger } := by
  cases h with
  | kept hl hf => exact .kept hl hf
  | amended hl hr h hl' hf => exact .amended hl hr h hl' hf
  | acquired hl hid hmode hstate hreleased hfree hg hl' hf =>
    exact .acquired hl hid hmode hstate hreleased hfree hg hl' hf
  | recorded hl hid hmode hdigest hstate hl' hf =>
    exact .recorded hl hid hmode hdigest hstate hl' hf
  | cleaned hl hl' hf => exact .cleaned hl hl' hf
  | created hl' hf => exact .created hl' hf
  | upgraded hl hone hl' hf => exact .upgraded hl hone hl' hf
  | downgraded hl hone hl' hf => exact .downgraded hl hone hl' hf
  | dropped hl' hf => exact .dropped hl' hf

/-- A transaction that fails rolls back. -/
theorem commit_effect {db : Db} {result : Except LeaseError Db}
    (h : ∀ db', result = .ok db' → Effect db db') : Effect db (commit db result) := by
  cases result with
  | error e => exact .kept rfl rfl
  | ok db' => exact h db' rfl

theorem map_snd_eq_ok {α : Type} {result : Except LeaseError (α × Db)} {db' : Db}
    (h : result.map Prod.snd = .ok db') : ∃ x, result = .ok (x, db') := by
  cases result with
  | error e => cases h
  | ok p => cases h; exact ⟨p.1, rfl⟩

/-- **What a transaction can do.** -/
theorem step_effect (tokenDigest : String → String) (db : Db) (op : Op) :
    Effect db (step tokenDigest db op) := by
  cases op with
  | acquireWriterLease input draws =>
    cases h : (acquireWriterLease tokenDigest input draws db).1 with
    | error e =>
      obtain ⟨hl, hf⟩ := acquireWriterLease_error h
      exact .kept hl hf
    | ok a =>
      obtain ⟨rows, core, timestamp, expiresAt, hl, -, hfree, hid, -, -, hdb⟩ :=
        acquireWriterLease_ok h
      show Effect db (acquireWriterLease tokenDigest input draws db).2
      rw [hdb]
      exact .acquired hl hid rfl rfl rfl hfree rfl rfl rfl
  | bindWriterProcess a pid token now eventId =>
    refine commit_effect fun db' h => ?_
    obtain ⟨a', h⟩ := map_snd_eq_ok h
    obtain ⟨r, timestamp, -, hstate, hamends, -⟩ := bindWriterProcess_ok h
    exact .of_amends (.bound hstate pid token) hamends
  | heartbeatWriterLease a ttl now eventId =>
    refine commit_effect fun db' h => ?_
    obtain ⟨a', h⟩ := map_snd_eq_ok h
    obtain ⟨r, timestamp, expiresAt, -, hstate, -, hamends, -⟩ := heartbeatWriterLease_ok h
    exact .of_amends (.renewed hstate timestamp expiresAt) hamends
  | releaseWriterLease a now eventId =>
    refine commit_effect fun db' h => ?_
    obtain ⟨r, timestamp, -, hstate, hamends⟩ := releaseWriterLease_ok h
    exact .of_amends (.released hstate timestamp) hamends
  | recoverExpiredWriterLease observed evidence actor now eventId =>
    refine commit_effect fun db' h => ?_
    obtain ⟨r, timestamp, -, -, -, -, hmatch, -, hamends⟩ := recoverExpiredWriterLease_ok h
    exact .of_amends (.retired (Or.inl hmatch.state) timestamp) hamends
  | quarantineWriterLease observed reason actor now eventId =>
    refine commit_effect fun db' h => ?_
    obtain ⟨r, timestamp, hstate, hmatch, hamends⟩ := quarantineWriterLease_ok h
    rw [← hmatch.state] at hstate
    exact .of_amends (.quarantined hstate reason) hamends
  | repairQuarantinedWriterLease observed evidence actor now eventId =>
    refine commit_effect fun db' h => ?_
    obtain ⟨r, timestamp, -, hmatch, hamends⟩ := repairQuarantinedWriterLease_ok h
    exact .of_amends (.retired (Or.inr hmatch.state) timestamp) hamends
  | recordPolicyDenial workspaceId code actor data now eventId =>
    refine commit_effect fun db' h => ?_
    obtain ⟨core, timestamp, -, -, -, rfl⟩ := appendEvent_ok h
    exact .kept rfl rfl
  | cleanup options now eventId =>
    refine commit_effect fun db' h => ?_
    obtain ⟨summary, h⟩ := map_snd_eq_ok h
    obtain ⟨rows, timestamp, limit, hl, hl', hf⟩ := cleanup_ok h
    exact .cleaned hl hl' hf
  | insertWorkspaceLease r =>
    refine commit_effect fun db' h => ?_
    obtain ⟨rows, row, hl, hid, hmode, hdigest, hstate, hl', hf⟩ := insertWorkspaceLease_ok h
    exact .recorded hl hid hmode hdigest hstate hl' hf
  | insertRecord record =>
    refine commit_effect fun db' h => ?_
    unfold insertRecord at h
    obtain ⟨core, -, h⟩ := bind_eq_ok h
    obtain ⟨u, -, h⟩ := bind_eq_ok h
    cases h
    exact .kept rfl rfl
  | insertIdempotency r =>
    refine commit_effect fun db' h => ?_
    unfold insertIdempotency at h
    split at h
    · cases h
    · split_ifs at h
      cases h
      exact .kept rfl rfl
  | migrate target version =>
    refine commit_effect fun db' h => ?_
    unfold upTransaction at h
    obtain ⟨u, -, h⟩ := bind_eq_ok h
    split_ifs at h
    · obtain ⟨db'', hup, h⟩ := bind_eq_ok h
      cases h
      exact (up_effect hup).ledger _
    · cases h
      exact .kept rfl rfl
  | rollback version =>
    refine commit_effect fun db' h => ?_
    unfold downTransaction at h
    obtain ⟨db'', hdown, h⟩ := bind_eq_ok h
    cases h
    exact (down_effect hdown).ledger _

end AgentOrchestrator.Lease
