import AgentOrchestrator.Lease.Generations

/-!
# Stale authority stays fenced

An authority is checked against the lease, the workspace, the generation and the version of a row.
`VersionFrom` says that an active row with the first three of them is at some version or later.
No transaction undoes this: amending a row raises its version, a new lease has a new generation,
and an upgraded lease is not active.  So an authority that is behind once is behind for good.
-/

namespace AgentOrchestrator.Lease

variable {tokenDigest : String → String}

/-! ## Versions -/

/-- The generation of a lease has been allocated, and an active writer row of the lease, its
workspace and its generation is at version `n` or later. -/
structure VersionFrom (leaseId workspaceId : String) (generation n : ℕ) (db : Db) : Prop where
  allocated : generation ≤ lastAllocatedGeneration workspaceId db.fencing
  version : ∀ rows, db.leases = .fenced rows → ∀ r ∈ rows, r.mode = .writer → r.state = .active →
    r.id = leaseId → r.workspaceId = workspaceId → r.generation = generation → n ≤ r.rowVersion

/-- The lease of an authority, where it is active, is at version `n` or later. -/
abbrev LeaseAuthority.LeaseFrom (a : LeaseAuthority) (n : ℕ) (db : Db) : Prop :=
  VersionFrom a.leaseId a.workspaceId a.generation n db

section

variable {leaseId workspaceId : String} {generation n : ℕ}

theorem VersionFrom.of_not_fenced {db : Db}
    (hg : generation ≤ lastAllocatedGeneration workspaceId db.fencing)
    (h : ∀ rows, db.leases ≠ .fenced rows) : VersionFrom leaseId workspaceId generation n db :=
  ⟨hg, fun rows hl => absurd hl (h rows)⟩

/-- No transaction takes an active row of an allocated generation back to an older version. -/
theorem VersionFrom.effect {db db' : Db} (h : VersionFrom leaseId workspaceId generation n db)
    (he : Effect db db') : VersionFrom leaseId workspaceId generation n db' := by
  have hg : generation ≤ lastAllocatedGeneration workspaceId db'.fencing :=
    h.allocated.trans (he.last_le workspaceId)
  cases he with
  | kept hl hf => exact ⟨hg, fun rows hrows => h.version rows (hl ▸ hrows)⟩
  | @amended rows r r' hl hr ha hl' hf =>
    refine ⟨hg, fun rows' hrows s hs hm hactive hid hws hgen => ?_⟩
    obtain rfl : Keyed.put (fun r : LeaseRow => r.id) r' rows = rows' :=
      LeaseTable.fenced.inj (hl'.symm.trans hrows)
    rcases Keyed.mem_put hs with rfl | ⟨hs, -⟩
    · have hfollows := ha.follows
      have hold := h.version rows hl r hr (hfollows.mode ▸ hm) (hfollows.active hactive)
        (hfollows.id ▸ hid) (hfollows.workspace ▸ hws) (hfollows.generation ▸ hgen)
      exact hold.trans (le_of_lt hfollows.version)
    · exact h.version rows hl s hs hm hactive hid hws hgen
  | @acquired rows row hl hid hmode hstate hreleased hfree hrow hl' hf =>
    refine ⟨hg, fun rows' hrows s hs hm hactive hsid hws hgen => ?_⟩
    obtain rfl : rows ++ [row] = rows' := LeaseTable.fenced.inj (hl'.symm.trans hrows)
    rcases Keyed.mem_append_singleton.1 hs with hs | rfl
    · exact h.version rows hl s hs hm hactive hsid hws hgen
    · -- the new generation is above every allocated one
      have hnew := h.allocated
      rw [hgen, hws] at hrow
      omega
  | @recorded rows row hl hid hmode hdigest hstate hl' hf =>
    refine ⟨hg, fun rows' hrows s hs hm hactive hsid hws hgen => ?_⟩
    obtain rfl : rows ++ [row] = rows' := LeaseTable.fenced.inj (hl'.symm.trans hrows)
    rcases Keyed.mem_append_singleton.1 hs with hs | rfl
    · exact h.version rows hl s hs hm hactive hsid hws hgen
    · rw [hmode] at hm
      cases hm
  | @cleaned rows now limit hl hl' hf =>
    refine ⟨hg, fun rows' hrows s hs => ?_⟩
    obtain rfl : (rows.filter fun r => !dueLease now limit r) = rows' :=
      LeaseTable.fenced.inj (hl'.symm.trans hrows)
    exact h.version rows hl s (List.mem_filter.1 hs).1
  | created hl' hf => exact .of_not_fenced hg fun rows hrows => by rw [hl'] at hrows; cases hrows
  | @upgraded rows hl hone hl' hf =>
    refine ⟨hg, fun rows' hrows s hs _ hactive => ?_⟩
    obtain rfl : rows.map LegacyLease.upgrade = rows' :=
      LeaseTable.fenced.inj (hl'.symm.trans hrows)
    obtain ⟨r, -, rfl⟩ := List.mem_map.1 hs
    exact absurd hactive (upgrade_state r)
  | downgraded hl hone hl' hf =>
    exact .of_not_fenced hg fun rows hrows => by rw [hl'] at hrows; cases hrows
  | dropped hl' hf => exact .of_not_fenced hg fun rows hrows => by rw [hl'] at hrows; cases hrows

theorem VersionFrom.run {db : Db} (h : VersionFrom leaseId workspaceId generation n db)
    (ops : List Op) :
    VersionFrom leaseId workspaceId generation n (Runs.run (step tokenDigest) db ops) :=
  Runs.run_invariant (step tokenDigest)
    (fun db op h => VersionFrom.effect h (step_effect tokenDigest db op)) h ops

end

/-! ## Issue and use -/

/-- The transaction returns the authority `a`. -/
inductive Issues (tokenDigest : String → String) (db : Db) (a : LeaseAuthority) : Op → Prop
  | acquired {input : AcquireInput} {draws : AcquireDraws}
      (h : (acquireWriterLease tokenDigest input draws db).1 = .ok a) :
      Issues tokenDigest db a (.acquireWriterLease input draws)
  | bound {b : LeaseAuthority} {processId : ℤ} {token : String} {now : Date} {eventId : String}
      {db' : Db} (h : bindWriterProcess tokenDigest b processId token now eventId db = .ok (a, db')) :
      Issues tokenDigest db a (.bindWriterProcess b processId token now eventId)
  | renewed {b : LeaseAuthority} {ttlMs : Option ℚ} {now : Date} {eventId : String} {db' : Db}
      (h : heartbeatWriterLease tokenDigest b ttlMs now eventId db = .ok (a, db')) :
      Issues tokenDigest db a (.heartbeatWriterLease b ttlMs now eventId)

/-- The transaction is a successful mutation with the authority `a`. -/
inductive Mutates (tokenDigest : String → String) (db : Db) (a : LeaseAuthority) : Op → Prop
  | bound {processId : ℤ} {token : String} {now : Date} {eventId : String} {a' : LeaseAuthority}
      {db' : Db} (h : bindWriterProcess tokenDigest a processId token now eventId db = .ok (a', db')) :
      Mutates tokenDigest db a (.bindWriterProcess a processId token now eventId)
  | renewed {ttlMs : Option ℚ} {now : Date} {eventId : String} {a' : LeaseAuthority} {db' : Db}
      (h : heartbeatWriterLease tokenDigest a ttlMs now eventId db = .ok (a', db')) :
      Mutates tokenDigest db a (.heartbeatWriterLease a ttlMs now eventId)
  | released {now : Date} {eventId : String} {db' : Db}
      (h : releaseWriterLease tokenDigest a now eventId db = .ok db') :
      Mutates tokenDigest db a (.releaseWriterLease a now eventId)

/-- Some operation that checks the authority `a` succeeds. -/
def Succeeds (tokenDigest : String → String) (db : Db) (a : LeaseAuthority) : Prop :=
  (∃ op, Mutates tokenDigest db a op) ∨ ∃ now, assertWriterLease tokenDigest a now db = .ok ()

/-- The version of the lease has moved on, the lease is not active, or its workspace has been
granted a later generation. -/
def Stale (db : Db) (a : LeaseAuthority) : Prop :=
  (∃ rows, db.leases = .fenced rows ∧ ∃ r ∈ rows, r.id = a.leaseId ∧ r.rowVersion ≠ a.rowVersion) ∨
  (∀ rows, db.leases = .fenced rows → ∀ r ∈ rows, r.id = a.leaseId → r.state ≠ .active) ∨
  a.generation < lastAllocatedGeneration a.workspaceId db.fencing

/-- The row behind a successful operation. -/
theorem Succeeds.row {db : Db} {a : LeaseAuthority} (h : Succeeds tokenDigest db a) :
    ∃ rows, db.leases = .fenced rows ∧ ∃ r ∈ rows, Owns tokenDigest a r ∧ r.state = .active := by
  rcases h with ⟨op, h⟩ | ⟨now, h⟩
  · cases h with
    | bound h =>
      obtain ⟨r, timestamp, howns, hstate, ⟨rows, core, hl, hr, -⟩, -⟩ := bindWriterProcess_ok h
      exact ⟨rows, hl, r, hr, howns, hstate⟩
    | renewed h =>
      obtain ⟨r, timestamp, expiresAt, howns, hstate, -, ⟨rows, core, hl, hr, -⟩, -⟩ :=
        heartbeatWriterLease_ok h
      exact ⟨rows, hl, r, hr, howns, hstate⟩
    | released h =>
      obtain ⟨r, timestamp, howns, hstate, rows, core, hl, hr, -⟩ := releaseWriterLease_ok h
      exact ⟨rows, hl, r, hr, howns, hstate⟩
  · exact assertWriterLease_ok h

section

variable (hdigest : ∀ token, tokenDigest token ≠ "")

include hdigest

/-- A row with a token digest is a writer's. -/
theorem Owns.writer {rows : List LeaseRow} {fencing : List FencingRow}
    (hs : LeasesSound rows fencing) {a : LeaseAuthority} {r : LeaseRow} (hr : r ∈ rows)
    (h : Owns tokenDigest a r) : r.mode = .writer := by
  cases hm : r.mode with
  | writer => rfl
  | readOnly => exact absurd (h.digest.symm.trans (hs.unfenced r hr hm)) (hdigest _)

/-- Behind means fenced: no operation that checks the authority succeeds. -/
theorem VersionFrom.not_succeeds {a b : LeaseAuthority} {db : Db} (hs : Sound db)
    (h : a.LeaseFrom (a.rowVersion + 1) db) (hid : b.leaseId = a.leaseId)
    (hws : b.workspaceId = a.workspaceId) (hg : b.generation = a.generation)
    (hv : b.rowVersion = a.rowVersion) : ¬ Succeeds tokenDigest db b := by
  intro hb
  obtain ⟨rows, hl, r, hr, howns, hstate⟩ := hb.row
  have hmode := howns.writer hdigest (hs.fenced hl) hr
  have hlow := h.version rows hl r hr hmode hstate (howns.id.trans hid)
    (howns.workspace.trans hws) (howns.generation.trans hg)
  have hversion := howns.version
  omega

/-- An amended row of an authority's lease puts the lease at the version of the new row. -/
theorem versionFrom_of_amends {a b : LeaseAuthority} {n : ℕ} {db db' : Db} {r r' : LeaseRow}
    {event : EventRow} (hs : Sound db) (howns : Owns tokenDigest b r) (hf : Follows r r')
    (ha : Amends db db' r r' event) (hid : a.leaseId = b.leaseId)
    (hws : a.workspaceId = b.workspaceId) (hg : a.generation = b.generation)
    (hn : r'.state = .active → n ≤ r'.rowVersion) : a.LeaseFrom n db' := by
  obtain ⟨rows, core, hl, hr, -, -, rfl⟩ := ha
  have hsound := hs.fenced hl
  constructor
  · rw [hg, hws, ← howns.generation, ← howns.workspace]
    exact hsound.bounded r hr (howns.writer hdigest hsound hr)
  · intro rows' hrows s hmem _ hactive hsid _ _
    obtain rfl := LeaseTable.fenced.inj hrows
    rcases Keyed.mem_put hmem with rfl | ⟨-, hne⟩
    · exact hn hactive
    · exact absurd (hsid.trans (hid.trans (howns.id.symm.trans hf.id.symm))) hne

/-- An issued authority is at the version of its lease. -/
theorem Issues.versionFrom {db : Db} {a : LeaseAuthority} {op : Op} (hs : Sound db)
    (h : Issues tokenDigest db a op) : a.LeaseFrom a.rowVersion (step tokenDigest db op) := by
  cases h with
  | @acquired input draws h =>
    obtain ⟨rows, core, timestamp, expiresAt, hl, -, -, hid, -, rfl, hdb⟩ := acquireWriterLease_ok h
    show VersionFrom _ _ _ _ (acquireWriterLease tokenDigest input draws db).2
    rw [hdb]
    constructor
    · show _ ≤ lastAllocatedGeneration input.workspaceId _
      rw [lastAllocatedGeneration_next, if_pos rfl]
      exact le_refl _
    · intro rows' hrows s hmem _ _ hsid _ _
      obtain rfl := LeaseTable.fenced.inj hrows
      rcases List.mem_append.1 hmem with hmem | hmem
      · exact absurd hsid (hid s hmem)
      · obtain rfl := List.mem_singleton.1 hmem
        exact le_refl _
  | @bound b processId token now eventId db' h =>
    obtain ⟨r, timestamp, howns, hstate, hamends, rfl⟩ := bindWriterProcess_ok h
    have hstep : step tokenDigest db (.bindWriterProcess b processId token now eventId) = db' := by
      show commit db ((bindWriterProcess tokenDigest b processId token now eventId db).map _) = db'
      rw [h]
      rfl
    rw [hstep]
    exact versionFrom_of_amends hdigest hs howns (Amended.bound hstate _ _).follows hamends rfl rfl
      rfl fun _ => le_refl _
  | @renewed b ttlMs now eventId db' h =>
    obtain ⟨r, timestamp, expiresAt, howns, hstate, -, hamends, rfl⟩ := heartbeatWriterLease_ok h
    have hstep : step tokenDigest db (.heartbeatWriterLease b ttlMs now eventId) = db' := by
      show commit db ((heartbeatWriterLease tokenDigest b ttlMs now eventId db).map _) = db'
      rw [h]
      rfl
    rw [hstep]
    exact versionFrom_of_amends hdigest hs howns (Amended.renewed hstate _ _).follows hamends rfl
      rfl rfl fun _ => le_refl _

/-- A mutation leaves its own authority behind. -/
theorem Mutates.versionFrom {db : Db} {a : LeaseAuthority} {op : Op} (hs : Sound db)
    (h : Mutates tokenDigest db a op) :
    a.LeaseFrom (a.rowVersion + 1) (step tokenDigest db op) := by
  cases h with
  | @bound processId token now eventId a' db' h =>
    obtain ⟨r, timestamp, howns, hstate, hamends, -⟩ := bindWriterProcess_ok h
    have hstep : step tokenDigest db (.bindWriterProcess a processId token now eventId) = db' := by
      show commit db ((bindWriterProcess tokenDigest a processId token now eventId db).map _) = db'
      rw [h]
      rfl
    rw [hstep]
    exact versionFrom_of_amends hdigest hs howns (Amended.bound hstate _ _).follows hamends rfl rfl
      rfl fun _ => le_of_eq (congrArg (· + 1) howns.version.symm)
  | @renewed ttlMs now eventId a' db' h =>
    obtain ⟨r, timestamp, expiresAt, howns, hstate, -, hamends, -⟩ := heartbeatWriterLease_ok h
    have hstep : step tokenDigest db (.heartbeatWriterLease a ttlMs now eventId) = db' := by
      show commit db ((heartbeatWriterLease tokenDigest a ttlMs now eventId db).map _) = db'
      rw [h]
      rfl
    rw [hstep]
    exact versionFrom_of_amends hdigest hs howns (Amended.renewed hstate _ _).follows hamends rfl
      rfl rfl fun _ => le_of_eq (congrArg (· + 1) howns.version.symm)
  | @released now eventId db' h =>
    obtain ⟨r, timestamp, howns, hstate, hamends⟩ := releaseWriterLease_ok h
    have hstep : step tokenDigest db (.releaseWriterLease a now eventId) = db' := by
      show commit db (releaseWriterLease tokenDigest a now eventId db) = db'
      rw [h]
      rfl
    rw [hstep]
    exact versionFrom_of_amends hdigest hs howns (Amended.released hstate timestamp).follows hamends
      rfl rfl rfl nofun

omit hdigest in
/-- A stale authority is behind. -/
theorem Stale.versionFrom {db : Db} {a : LeaseAuthority} (hs : Sound db)
    (ha : a.LeaseFrom a.rowVersion db) (h : Stale db a) :
    a.LeaseFrom (a.rowVersion + 1) db := by
  refine ⟨ha.allocated, fun rows hl s hmem hmode hactive hid hws hg => ?_⟩
  have hlow := ha.version rows hl s hmem hmode hactive hid hws hg
  have hsound := hs.fenced hl
  rcases h with ⟨rows', hl', r, hr, hrid, hne⟩ | hinactive | hlater
  · obtain rfl : rows = rows' := LeaseTable.fenced.inj (hl.symm.trans hl')
    obtain rfl : s = r := Keyed.eq_of_key hsound.ids hmem hr (hid.trans hrid.symm)
    omega
  · exact absurd hactive (hinactive rows hl s hmem hid)
  · have hcurrent := hsound.current s hmem hmode hactive
    rw [hg, hws] at hcurrent
    omega

/-- **Stale authority is fenced forever.** Once an issued authority is stale, no operation that
checks it ever succeeds again; and after one mutation with it, none succeeds with any authority of
the same lease, generation and version. -/
theorem stale_authority_fenced {db : Db} (hdb : Unfenced db) (before : List Op) {issue : Op}
    {a : LeaseAuthority} (hissue : Issues tokenDigest (Runs.run (step tokenDigest) db before) a issue)
    (between : List Op) :
    let now := Runs.run (step tokenDigest) db (before ++ issue :: between)
    (Stale now a → ∀ after, ¬ Succeeds tokenDigest (Runs.run (step tokenDigest) now after) a) ∧
      ∀ use, Mutates tokenDigest now a use → ∀ after (b : LeaseAuthority),
        b.leaseId = a.leaseId → b.workspaceId = a.workspaceId → b.generation = a.generation →
        b.rowVersion = a.rowVersion →
        ¬ Succeeds tokenDigest (Runs.run (step tokenDigest) now (use :: after)) b := by
  intro now
  have hnow : Sound now := sound_run hdb.sound _
  have hversion : a.LeaseFrom a.rowVersion now := by
    show a.LeaseFrom a.rowVersion (Runs.run (step tokenDigest) db (before ++ issue :: between))
    rw [Runs.run_append, Runs.run_cons]
    exact (hissue.versionFrom hdigest (sound_run hdb.sound before)).run between
  constructor
  · intro hstale after
    exact ((hstale.versionFrom hnow hversion).run after).not_succeeds hdigest
      (sound_run hnow after) rfl rfl rfl rfl
  · intro use huse after b hid hws hg hv
    rw [Runs.run_cons]
    have hstep : Sound (step tokenDigest now use) := sound_step now use hnow
    exact ((huse.versionFrom hdigest hnow).run after).not_succeeds hdigest
      (sound_run hstep after) hid hws hg hv

end

/-- The first acquisition of the samples. -/
def sampleIssue : Op :=
  .acquireWriterLease (sampleRequest 0) ⟨"token-1", "lease-1", "event-1", "denial-1"⟩

/-- The first lease is released and the workspace is granted a second one. -/
def sampleSuccession : List Op :=
  [.releaseWriterLease sampleAuthority 1784851201000 "event-2",
    .acquireWriterLease (sampleRequest 2) ⟨"token-2", "lease-2", "event-3", "denial-2"⟩]

theorem sampleDigest_ne (token : String) : sampleDigest token ≠ "" := by
  unfold sampleDigest
  split_ifs <;> decide

theorem stale_authority_fenced_sample :
    Issues sampleDigest (Runs.run (step sampleDigest) {} sampleSetup) sampleAuthority sampleIssue ∧
      Stale (Runs.run (step sampleDigest) {} (sampleSetup ++ sampleIssue :: sampleSuccession))
        sampleAuthority ∧
      ¬ Succeeds sampleDigest (Runs.run (step sampleDigest)
        (Runs.run (step sampleDigest) {} (sampleSetup ++ sampleIssue :: sampleSuccession))
        [.cleanup {} 1784851203000 "event-4"]) sampleAuthority := by
  have hissue : Issues sampleDigest (Runs.run (step sampleDigest) {} sampleSetup) sampleAuthority
      sampleIssue := .acquired (by decide +kernel)
  have hstale : Stale (Runs.run (step sampleDigest) {}
      (sampleSetup ++ sampleIssue :: sampleSuccession)) sampleAuthority :=
    Or.inr (Or.inr (by decide +kernel))
  exact ⟨hissue, hstale, (stale_authority_fenced sampleDigest_ne (show Unfenced {} from trivial) sampleSetup hissue
    sampleSuccession).1 hstale [.cleanup {} 1784851203000 "event-4"]⟩

end AgentOrchestrator.Lease
