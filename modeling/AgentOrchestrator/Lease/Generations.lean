import AgentOrchestrator.Lease.Effects

/-!
# One writer at a time, under growing generations

`Sound` is the invariant of the registry: the identifiers of the leases are unique, no workspace
has two unreleased writers, and the ledger of generations covers every writer lease, an active one
exactly.  It holds in every run that starts from a registry without fencing (`sound_run`).  The
ledger never goes back, so the generations a workspace is granted strictly increase, whatever
cleanup, rollback and migration do to the rows (`one_writer_growing_generations`).
-/

namespace AgentOrchestrator.Lease

variable {tokenDigest : String → String}

/-! ## Rows -/

/-- What no operation changes in a row, and how it moves on. -/
structure Follows (r r' : LeaseRow) : Prop where
  id : r'.id = r.id
  workspace : r'.workspaceId = r.workspaceId
  mode : r'.mode = r.mode
  generation : r'.generation = r.generation
  digest : r'.fencingTokenDigest = r.fencingTokenDigest
  host : r'.ownerHost = r.ownerHost
  version : r.rowVersion < r'.rowVersion
  active : r'.state = .active → r.state = .active
  blocks : r'.state ≠ .released → r.state ≠ .released
  stamped : (r.state = .released ↔ r.releasedAt ≠ none) →
    (r'.state = .released ↔ r'.releasedAt ≠ none)

theorem Amended.follows {r r' : LeaseRow} (h : Amended r r') : Follows r r' := by
  cases h with
  | bound h processId token =>
    exact ⟨rfl, rfl, rfl, rfl, rfl, rfl, Nat.lt_succ_self _, id, id, id⟩
  | renewed h heartbeatAt expiresAt =>
    exact ⟨rfl, rfl, rfl, rfl, rfl, rfl, Nat.lt_succ_self _, id, id, id⟩
  | released h timestamp =>
    refine ⟨rfl, rfl, rfl, rfl, rfl, rfl, ?_, nofun, fun hn => absurd rfl hn, ?_⟩
    · show r.rowVersion < r.rowVersion + 1 + 1
      omega
    · exact fun _ => ⟨fun _ => nofun, fun _ => rfl⟩
  | retired h timestamp =>
    refine ⟨rfl, rfl, rfl, rfl, rfl, rfl, Nat.lt_succ_self _, nofun, fun hn => absurd rfl hn, ?_⟩
    exact fun _ => ⟨fun _ => nofun, fun _ => rfl⟩
  | quarantined h reason =>
    have hne : r.state ≠ .released := by
      rcases h with h | h <;> rw [h] <;> decide
    refine ⟨rfl, rfl, rfl, rfl, rfl, rfl, Nat.lt_succ_self _, nofun, fun _ => hne, fun hs => ?_⟩
    exact ⟨nofun, fun hr => absurd (hs.2 hr) hne⟩

/-! ## The invariant -/

/-- The invariant of the leases of version 3. -/
structure LeasesSound (rows : List LeaseRow) (fencing : List FencingRow) : Prop where
  ids : (rows.map (·.id)).Nodup
  one : ∀ r ∈ rows, ∀ s ∈ rows, r.Blocks → s.Blocks → r.workspaceId = s.workspaceId → r = s
  stamped : ∀ r ∈ rows, r.state = .released ↔ r.releasedAt ≠ none
  bounded : ∀ r ∈ rows, r.mode = .writer →
    r.generation ≤ lastAllocatedGeneration r.workspaceId fencing
  current : ∀ r ∈ rows, r.mode = .writer → r.state = .active →
    r.generation = lastAllocatedGeneration r.workspaceId fencing
  unfenced : ∀ r ∈ rows, r.mode = .readOnly → r.fencingTokenDigest = ""

/-- The invariant of the leases of version 2, which its keys and its index guard. -/
structure LegacySound (rows : List LegacyLease) : Prop where
  ids : (rows.map (·.id)).Nodup
  one : ∀ r ∈ rows, ∀ s ∈ rows, r.Blocks → s.Blocks → r.workspaceId = s.workspaceId → r = s

/-- The invariant of the registry. -/
def Sound (db : Db) : Prop :=
  match db.leases with
  | .absent => True
  | .legacy rows => LegacySound rows
  | .fenced rows => LeasesSound rows db.fencing

/-- A registry that the fencing migration has not reached: a new file, or one of an older
version. -/
def Unfenced (db : Db) : Prop :=
  match db.leases with
  | .absent => True
  | .legacy rows => LegacySound rows
  | .fenced _ => False

theorem Unfenced.sound {db : Db} (h : Unfenced db) : Sound db := by
  unfold Unfenced at h
  unfold Sound
  cases hl : db.leases with
  | absent => trivial
  | legacy rows => rw [hl] at h; exact h
  | fenced rows => rw [hl] at h; exact h.elim

theorem Sound.fenced {db : Db} {rows : List LeaseRow} (h : Sound db) (hl : db.leases = .fenced rows) :
    LeasesSound rows db.fencing := by
  unfold Sound at h
  rw [hl] at h
  exact h

theorem Sound.of_fenced {db : Db} {rows : List LeaseRow} (hl : db.leases = .fenced rows)
    (h : LeasesSound rows db.fencing) : Sound db := by
  unfold Sound
  rw [hl]
  exact h

theorem eq_of_oneActiveWriter {rows : List LeaseRow} (h : oneActiveWriter rows = true)
    {r s : LeaseRow} (hr : r ∈ rows) (hs : s ∈ rows) (hrb : r.Blocks) (hsb : s.Blocks)
    (hws : r.workspaceId = s.workspaceId) : r = s :=
  List.inj_on_of_nodup_map (of_decide_eq_true h)
    (List.mem_filter.2 ⟨hr, decide_eq_true hrb⟩) (List.mem_filter.2 ⟨hs, decide_eq_true hsb⟩) hws

theorem eq_of_oneLegacyWriter {rows : List LegacyLease} (h : oneLegacyWriter rows = true)
    {r s : LegacyLease} (hr : r ∈ rows) (hs : s ∈ rows) (hrb : r.Blocks) (hsb : s.Blocks)
    (hws : r.workspaceId = s.workspaceId) : r = s :=
  List.inj_on_of_nodup_map (of_decide_eq_true h)
    (List.mem_filter.2 ⟨hr, decide_eq_true hrb⟩) (List.mem_filter.2 ⟨hs, decide_eq_true hsb⟩) hws

/-- A row replaced under its own identifier keeps the invariant. -/
theorem LeasesSound.put {rows : List LeaseRow} {fencing : List FencingRow}
    (h : LeasesSound rows fencing) {r r' : LeaseRow} (hr : r ∈ rows) (hf : Follows r r') :
    LeasesSound (Keyed.put (·.id) r' rows) fencing := by
  -- every row of the new table is the new row, or an old row with another identifier
  have hmem : ∀ {s}, s ∈ Keyed.put (fun r : LeaseRow => r.id) r' rows →
      s = r' ∨ (s ∈ rows ∧ s.id ≠ r.id) := by
    intro s hs
    rcases Keyed.mem_put hs with rfl | ⟨hs, hne⟩
    · exact Or.inl rfl
    · exact Or.inr ⟨hs, fun e => hne (e.trans hf.id.symm)⟩
  have hblocks : r'.Blocks → r.Blocks := fun hb => ⟨hf.mode ▸ hb.1, hf.blocks hb.2⟩
  refine ⟨?_, ?_, ?_, ?_, ?_, ?_⟩
  · rw [Keyed.map_key_put]
    exact h.ids
  · intro s hs t ht hsb htb hws
    rcases hmem hs with rfl | ⟨hs', hsne⟩ <;> rcases hmem ht with rfl | ⟨ht', htne⟩
    · rfl
    · have := h.one r hr t ht' (hblocks hsb) htb (hf.workspace ▸ hws)
      exact absurd (congrArg (·.id) this.symm) htne
    · have := h.one s hs' r hr hsb (hblocks htb) (hws.trans hf.workspace)
      exact absurd (congrArg (·.id) this) hsne
    · exact h.one s hs' t ht' hsb htb hws
  · intro s hs
    rcases hmem hs with rfl | ⟨hs, -⟩
    · exact hf.stamped (h.stamped r hr)
    · exact h.stamped s hs
  · intro s hs hm
    rcases hmem hs with rfl | ⟨hs, -⟩
    · rw [hf.generation, hf.workspace]
      exact h.bounded r hr (hf.mode ▸ hm)
    · exact h.bounded s hs hm
  · intro s hs hm ha
    rcases hmem hs with rfl | ⟨hs, -⟩
    · rw [hf.generation, hf.workspace]
      exact h.current r hr (hf.mode ▸ hm) (hf.active ha)
    · exact h.current s hs hm ha
  · intro s hs hm
    rcases hmem hs with rfl | ⟨hs, -⟩
    · rw [hf.digest]
      exact h.unfenced r hr (hf.mode ▸ hm)
    · exact h.unfenced s hs hm

/-- An acquisition keeps the invariant: its workspace had no unreleased writer. -/
theorem LeasesSound.acquire {rows : List LeaseRow} {fencing : List FencingRow}
    (h : LeasesSound rows fencing) {row : LeaseRow} (hid : ∀ r ∈ rows, r.id ≠ row.id)
    (hmode : row.mode = .writer) (hstate : row.state = .active) (hreleased : row.releasedAt = none)
    (hfree : ∀ r ∈ rows, r.workspaceId = row.workspaceId → ¬ r.Blocks)
    (hg : row.generation = lastAllocatedGeneration row.workspaceId fencing + 1) :
    LeasesSound (rows ++ [row]) (upsertGeneration row.workspaceId 1 (· + 1) fencing) := by
  have hlast := lastAllocatedGeneration_next row.workspaceId row.workspaceId fencing
  rw [if_pos rfl] at hlast
  refine ⟨?_, ?_, ?_, ?_, ?_, ?_⟩
  · exact Keyed.nodup_append_singleton h.ids hid
  · intro s hs t ht hsb htb hws
    rcases Keyed.mem_append_singleton.1 hs with hs' | rfl <;>
      rcases Keyed.mem_append_singleton.1 ht with ht' | rfl
    · exact h.one s hs' t ht' hsb htb hws
    · exact absurd hsb (hfree s hs' hws)
    · exact absurd htb (hfree t ht' hws.symm)
    · rfl
  · intro s hs
    rcases Keyed.mem_append_singleton.1 hs with hs | rfl
    · exact h.stamped s hs
    · rw [hstate, hreleased]
      simp
  · intro s hs hm
    rcases Keyed.mem_append_singleton.1 hs with hs | rfl
    · refine (h.bounded s hs hm).trans ?_
      rw [lastAllocatedGeneration_next]
      split_ifs with hws
      · rw [hws]
        exact Nat.le_succ _
      · exact le_refl _
    · rw [hlast]
      exact le_of_eq hg
  · intro s hs hm ha
    rcases Keyed.mem_append_singleton.1 hs with hs | rfl
    · have hne : s.workspaceId ≠ row.workspaceId := by
        intro hws
        exact hfree s hs hws ⟨hm, by rw [ha]; decide⟩
      rw [lastAllocatedGeneration_next, if_neg hne]
      exact h.current s hs hm ha
    · rw [hlast]
      exact hg
  · intro s hs hm
    rcases Keyed.mem_append_singleton.1 hs with hs | rfl
    · exact h.unfenced s hs hm
    · rw [hmode] at hm
      cases hm

/-- A read-only lease is no writer. -/
theorem LeasesSound.record {rows : List LeaseRow} {fencing : List FencingRow}
    (h : LeasesSound rows fencing) {row : LeaseRow} (hid : ∀ r ∈ rows, r.id ≠ row.id)
    (hmode : row.mode = .readOnly) (hdigest : row.fencingTokenDigest = "")
    (hstate : row.state = .released ↔ row.releasedAt ≠ none) :
    LeasesSound (rows ++ [row]) fencing := by
  have hnot : row.mode ≠ .writer := by rw [hmode]; decide
  refine ⟨?_, ?_, ?_, ?_, ?_, ?_⟩
  · exact Keyed.nodup_append_singleton h.ids hid
  · intro s hs t ht hsb htb hws
    rcases Keyed.mem_append_singleton.1 hs with hs | rfl
    · rcases Keyed.mem_append_singleton.1 ht with ht | rfl
      · exact h.one s hs t ht hsb htb hws
      · exact absurd htb.1 hnot
    · exact absurd hsb.1 hnot
  · intro s hs
    rcases Keyed.mem_append_singleton.1 hs with hs | rfl
    · exact h.stamped s hs
    · exact hstate
  · intro s hs hm
    rcases Keyed.mem_append_singleton.1 hs with hs | rfl
    · exact h.bounded s hs hm
    · exact absurd hm hnot
  · intro s hs hm ha
    rcases Keyed.mem_append_singleton.1 hs with hs | rfl
    · exact h.current s hs hm ha
    · exact absurd hm hnot
  · intro s hs hm
    rcases Keyed.mem_append_singleton.1 hs with hs | rfl
    · exact h.unfenced s hs hm
    · exact hdigest

theorem LeasesSound.filter {rows : List LeaseRow} {fencing : List FencingRow}
    (h : LeasesSound rows fencing) (p : LeaseRow → Bool) : LeasesSound (rows.filter p) fencing := by
  have hmem : ∀ {s}, s ∈ rows.filter p → s ∈ rows := fun hs => (List.mem_filter.1 hs).1
  refine ⟨?_, ?_, ?_, ?_, ?_, ?_⟩
  · exact h.ids.sublist (List.filter_sublist.map _)
  · exact fun s hs t ht => h.one s (hmem hs) t (hmem ht)
  · exact fun s hs => h.stamped s (hmem hs)
  · exact fun s hs => h.bounded s (hmem hs)
  · exact fun s hs => h.current s (hmem hs)
  · exact fun s hs => h.unfenced s (hmem hs)

theorem upgrade_state (r : LegacyLease) : r.upgrade.state ≠ .active := by
  unfold LegacyLease.upgrade
  dsimp only
  split_ifs <;> decide

/-- No lease is active after the upgrade, and the ledger covers the generations it hands out. -/
theorem LegacySound.upgrade {rows : List LegacyLease} (h : LegacySound rows)
    (hone : oneActiveWriter (rows.map LegacyLease.upgrade) = true) (fencing : List FencingRow) :
    LeasesSound (rows.map LegacyLease.upgrade)
      (raiseGenerations (rows.map LegacyLease.upgrade) fencing) := by
  refine ⟨?_, ?_, ?_, ?_, ?_, ?_⟩
  · rw [List.map_map]
    exact h.ids
  · exact fun s hs t ht => eq_of_oneActiveWriter hone hs ht
  · intro s hs
    obtain ⟨r, -, rfl⟩ := List.mem_map.1 hs
    unfold LegacyLease.upgrade
    dsimp only
    split_ifs with hr <;> simp [hr]
  · exact fun s hs _ => le_raiseGenerations hs fencing
  · intro s hs _ ha
    obtain ⟨r, -, rfl⟩ := List.mem_map.1 hs
    exact absurd ha (upgrade_state r)
  · intro s hs _
    obtain ⟨r, -, rfl⟩ := List.mem_map.1 hs
    rfl

theorem LeasesSound.downgrade {rows : List LeaseRow} {fencing : List FencingRow}
    (h : LeasesSound rows fencing)
    (hone : oneLegacyWriter (rows.map LeaseRow.toLegacyLease) = true) :
    LegacySound (rows.map LeaseRow.toLegacyLease) := by
  refine ⟨?_, fun s hs t ht => eq_of_oneLegacyWriter hone hs ht⟩
  rw [List.map_map]
  exact h.ids

/-- Every effect of a transaction keeps the invariant. -/
theorem Effect.sound {db db' : Db} (h : Effect db db') (hs : Sound db) : Sound db' := by
  cases h with
  | kept hl hf =>
    unfold Sound at hs ⊢
    rw [hl, hf]
    exact hs
  | amended hl hr ha hl' hf =>
    refine .of_fenced hl' ?_
    rw [hf]
    exact (hs.fenced hl).put hr ha.follows
  | acquired hl hid hmode hstate hreleased hfree hg hl' hf =>
    refine .of_fenced hl' ?_
    rw [hf]
    exact (hs.fenced hl).acquire hid hmode hstate hreleased hfree hg
  | recorded hl hid hmode hdigest hstate hl' hf =>
    refine .of_fenced hl' ?_
    rw [hf]
    exact (hs.fenced hl).record hid hmode hdigest hstate
  | cleaned hl hl' hf =>
    refine .of_fenced hl' ?_
    rw [hf]
    exact (hs.fenced hl).filter _
  | created hl' hf =>
    unfold Sound
    rw [hl']
    exact ⟨List.nodup_nil, fun r hr => absurd hr List.not_mem_nil⟩
  | upgraded hl hone hl' hf =>
    unfold Sound at hs
    rw [hl] at hs
    refine .of_fenced hl' ?_
    rw [hf]
    exact hs.upgrade hone db.fencing
  | downgraded hl hone hl' hf =>
    unfold Sound
    rw [hl']
    exact (hs.fenced hl).downgrade hone
  | dropped hl' hf =>
    unfold Sound
    rw [hl']
    trivial

theorem sound_step (db : Db) (op : Op) (h : Sound db) : Sound (step tokenDigest db op) :=
  (step_effect tokenDigest db op).sound h

theorem sound_run {db : Db} (h : Sound db) (ops : List Op) :
    Sound (Runs.run (step tokenDigest) db ops) :=
  Runs.run_invariant (step tokenDigest) sound_step h ops

/-! ## The ledger of generations -/

/-- The ledger of generations never goes back. -/
theorem Effect.last_le {db db' : Db} (h : Effect db db') (ws : String) :
    lastAllocatedGeneration ws db.fencing ≤ lastAllocatedGeneration ws db'.fencing := by
  cases h with
  | acquired hl hid hmode hstate hreleased hfree hg hl' hf =>
    rw [hf, lastAllocatedGeneration_next]
    split_ifs with hws
    · rw [hws]
      exact Nat.le_succ _
    · exact le_refl _
  | upgraded hl hone hl' hf =>
    rw [hf]
    exact raiseGenerations_le _ _ ws
  | kept hl hf => rw [hf]
  | amended hl hr ha hl' hf => rw [hf]
  | recorded hl hid hmode hdigest hstate hl' hf => rw [hf]
  | cleaned hl hl' hf => rw [hf]
  | created hl' hf => rw [hf]
  | downgraded hl hone hl' hf => rw [hf]
  | dropped hl' hf => rw [hf]

/-- The generation of a workspace that a transaction grants, if it is a successful acquisition. -/
def granted (tokenDigest : String → String) (workspaceId : String) (db : Db) : Op → Option ℕ
  | .acquireWriterLease input draws =>
    if input.workspaceId = workspaceId then
      match (acquireWriterLease tokenDigest input draws db).1 with
      | .ok a => some a.generation
      | .error _ => none
    else none
  | _ => none

/-- The generations of a workspace that a run grants, in order. -/
def grants (tokenDigest : String → String) (workspaceId : String) : Db → List Op → List ℕ
  | _, [] => []
  | db, op :: ops =>
    (granted tokenDigest workspaceId db op).toList ++
      grants tokenDigest workspaceId (step tokenDigest db op) ops

/-- A granted generation is above the ledger before, and the ledger records it. -/
theorem granted_spec {workspaceId : String} {db : Db} {op : Op} {g : ℕ}
    (h : granted tokenDigest workspaceId db op = some g) :
    lastAllocatedGeneration workspaceId db.fencing < g ∧
      g ≤ lastAllocatedGeneration workspaceId (step tokenDigest db op).fencing := by
  cases op with
  | acquireWriterLease input draws =>
    dsimp only [granted] at h
    split_ifs at h with hws
    subst hws
    cases ha : (acquireWriterLease tokenDigest input draws db).1 with
    | error e => rw [ha] at h; cases h
    | ok a =>
      rw [ha] at h
      cases h
      obtain ⟨rows, core, timestamp, expiresAt, -, -, -, -, -, rfl, hdb⟩ := acquireWriterLease_ok ha
      refine ⟨Nat.lt_succ_self _, ?_⟩
      show _ ≤ lastAllocatedGeneration _ (acquireWriterLease tokenDigest input draws db).2.fencing
      rw [hdb, lastAllocatedGeneration_next, if_pos rfl]
      exact le_refl _
  | _ => cases h

/-- Every generation a run grants is above the ledger before it, and they strictly increase. -/
theorem grants_increase (workspaceId : String) (db : Db) (ops : List Op) :
    (∀ g ∈ grants tokenDigest workspaceId db ops,
        lastAllocatedGeneration workspaceId db.fencing < g) ∧
      (grants tokenDigest workspaceId db ops).Pairwise (· < ·) := by
  induction ops generalizing db with
  | nil => exact ⟨fun g hg => absurd hg List.not_mem_nil, List.Pairwise.nil⟩
  | cons op ops ih =>
    obtain ⟨habove, hsorted⟩ := ih (step tokenDigest db op)
    have hle := (step_effect tokenDigest db op).last_le workspaceId
    unfold grants
    cases hg : granted tokenDigest workspaceId db op with
    | none => exact ⟨fun g h => hle.trans_lt (habove g h), hsorted⟩
    | some g =>
      obtain ⟨hlt, hrecorded⟩ := granted_spec hg
      refine ⟨fun g' h => ?_, List.pairwise_cons.2 ⟨fun g' h => ?_, hsorted⟩⟩
      · rcases List.mem_cons.1 h with rfl | h
        · exact hlt
        · exact hle.trans_lt (habove g' h)
      · exact hrecorded.trans_lt (habove g' h)

/-! ## One writer -/

/-- The writer leases of a workspace that are not released. -/
def unreleasedWriters (workspaceId : String) (db : Db) : List String :=
  match db.leases with
  | .absent => []
  | .legacy rows => (rows.filter fun r => r.workspaceId = workspaceId && r.Blocks).map (·.id)
  | .fenced rows => (rows.filter fun r => r.workspaceId = workspaceId && r.Blocks).map (·.id)

theorem Sound.one_writer {db : Db} (h : Sound db) (workspaceId : String) :
    (unreleasedWriters workspaceId db).length ≤ 1 := by
  unfold Sound at h
  unfold unreleasedWriters
  cases hl : db.leases with
  | absent => exact Nat.zero_le 1
  | legacy rows =>
    rw [hl] at h
    dsimp only
    rw [List.length_map]
    refine Keyed.length_filter_le_one h.ids fun r hr s hs hpr hps => ?_
    simp only [Bool.and_eq_true, decide_eq_true_eq] at hpr hps
    exact h.one r hr s hs hpr.2 hps.2 (hpr.1.trans hps.1.symm)
  | fenced rows =>
    rw [hl] at h
    dsimp only
    rw [List.length_map]
    refine Keyed.length_filter_le_one h.ids fun r hr s hs hpr hps => ?_
    simp only [Bool.and_eq_true, decide_eq_true_eq] at hpr hps
    exact h.one r hr s hs hpr.2 hps.2 (hpr.1.trans hps.1.symm)

/-- **Mutual exclusion and growing generations.** In every run from a registry without fencing, a
workspace never has two unreleased writers, and the generations it is granted strictly increase. -/
theorem one_writer_growing_generations {db : Db} (h : Unfenced db) (ops : List Op)
    (workspaceId : String) :
    (unreleasedWriters workspaceId (Runs.run (step tokenDigest) db ops)).length ≤ 1 ∧
      (grants tokenDigest workspaceId db ops).Pairwise (· < ·) := by
  constructor
  · exact (sound_run h.sound ops).one_writer workspaceId
  · exact (grants_increase workspaceId db ops).2

/-! ## A sample run -/

/-- The digest of the two tokens of the samples. -/
def sampleDigest (token : String) : String :=
  if token = "token-1" then "3f08aace122ee2368432c1ca23a049bc640bafbf00fdf33a52429f38ba12dbf9"
  else if token = "token-2" then "0f6bffa9661cb5dd2f3f7b2929f33061f58a7ba7fdd689530b1a306f8ed8f3ec"
  else "e3b0c44298fc1c149afbf4c8996fb92427ae41e4649b934ca495991b7852b855"

/-- The request of the samples, at a time given in seconds after midnight. -/
def sampleRequest (seconds : ℤ) : AcquireInput :=
  { workspaceId := "ws", ownerBatchId := "batch-1", ttlMs := some 30000, ownerHost := some "host-a"
    now := 1784851200000 + seconds * 1000 }

/-- The authority of the first lease of the samples. -/
def sampleAuthority : LeaseAuthority :=
  acquiredAuthority (sampleRequest 0) ⟨"token-1", "lease-1", "event-1", "denial-1"⟩ 1
    "2026-07-24T00:00:30.000Z"

/-- A new registry with one batch, migrated to version 3. -/
def sampleSetup : List Op :=
  [.migrate 3 1, .migrate 3 2, .migrate 3 3, .insertRecord (.batch ⟨"batch-1", none⟩)]

/-- A lease acquired, released and cleaned up; then a rollback below version 2, a new migration
and a second acquisition. -/
def sampleTakeover : List Op :=
  sampleSetup ++
    [.acquireWriterLease (sampleRequest 0) ⟨"token-1", "lease-1", "event-1", "denial-1"⟩,
      .releaseWriterLease sampleAuthority 1784851201000 "event-2",
      .cleanup {} 1794851201000 "event-3", .rollback 3, .rollback 2, .migrate 3 2, .migrate 3 3,
      .acquireWriterLease (sampleRequest 60) ⟨"token-2", "lease-2", "event-4", "denial-2"⟩]

theorem one_writer_growing_generations_sample :
    Unfenced {} ∧ grants sampleDigest "ws" {} sampleTakeover = [1, 2] ∧
      (unreleasedWriters "ws" (Runs.run (step sampleDigest) {} sampleTakeover)).length ≤ 1 ∧
      (grants sampleDigest "ws" {} sampleTakeover).Pairwise (· < ·) :=
  ⟨trivial, by decide +kernel,
    @one_writer_growing_generations sampleDigest {} trivial sampleTakeover "ws"⟩

end AgentOrchestrator.Lease
