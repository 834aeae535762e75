import AgentOrchestrator.Lease.Fencing
import AgentOrchestrator.Lease.Safety

/-!
# A writer lease is released only on evidence

The storage compares what an instance saw of a lease with the row; the instance has asked the probe
about what it saw.  `Observed` ties the two together: as long as the row has the version an
instance saw, it is the row the instance saw, because every amendment raises the version and no
new lease takes an old identifier.  So the transaction that releases a lease acts on the row the
evidence is about.
-/

namespace AgentOrchestrator.Lease

variable {tokenDigest : String → String}

/-! ## Evidence -/

/-- The probe saw no process with the identifier, or one that started later. -/
def AbsentBy (probe : ProbeAnswer) (startToken : String) : Prop :=
  probe.processExists = false ∨ ∃ other, probe.startToken = some other ∧ other ≠ startToken

theorem ownerProcessState_absent {hostId : String} {lease : WorkspaceLeaseStatus}
    {probe : ProbeAnswer} (h : ownerProcessState hostId lease probe = .absent) :
    lease.ownerHost = hostId ∧ ∃ processId startToken, lease.processId = some processId ∧
      lease.processStartToken = some startToken ∧ AbsentBy probe startToken := by
  unfold ownerProcessState at h
  by_cases hhost : lease.ownerHost ≠ hostId
  · rw [if_pos hhost] at h
    cases h
  rw [if_neg hhost] at h
  refine ⟨not_not.1 hhost, ?_⟩
  split at h
  · next processId startToken hp ht =>
    refine ⟨processId, startToken, hp, ht, ?_⟩
    by_cases hexists : probe.processExists = false
    · exact Or.inl hexists
    · rw [if_neg (by simpa using hexists)] at h
      split at h
      · cases h
      · next other ho =>
        split_ifs at h with hsame
        exact Or.inr ⟨other, ho, hsame⟩
  · cases h

/-- The evidence with which an instance, about to make an access, may release a lease. -/
inductive ReleaseEvidence (tokenDigest : String → String) (t : Tool) (r : LeaseRow) : Pc → Prop
  /-- The owner presents the current authority, and a bound process was seen absent. -/
  | owner {a : LeaseAuthority} {now : Date} {seen : Option (WorkspaceLeaseStatus × ProbeAnswer)}
      (howns : Owns tokenDigest a r) (hactive : r.state = .active)
      (habsent : ∀ processId, r.processId = some processId → r.ownerHost = t.hostId ∧
        ∃ lease probe startToken, seen = some (lease, probe) ∧
          r.processStartToken = some startToken ∧ AbsentBy probe startToken) :
      ReleaseEvidence tokenDigest t r (.release a now seen)
  /-- The lease has expired, and its process was seen absent on its own host under the lock. -/
  | recovery {lease : WorkspaceLeaseStatus} {probe : ProbeAnswer} {actor : String} {now : Date}
      (hactive : r.state = .active)
      (hexpired : ∃ timestamp, sqlTimestamp now = .ok timestamp ∧ ¬ timestamp < r.expiresAt)
      (hlock : t.Holds r.workspaceId) (hhost : r.ownerHost = t.hostId)
      (habsent : ∃ processId startToken, r.processId = some processId ∧
        r.processStartToken = some startToken ∧ AbsentBy probe startToken) :
      ReleaseEvidence tokenDigest t r (.recover r.workspaceId lease probe actor now)
  /-- The lease is quarantined, and its process was seen absent on its own host under the lock. -/
  | repair {lease : WorkspaceLeaseStatus} {held : Bool} {probe : ProbeAnswer} {actor : String}
      {now : Date} (hquarantined : r.state = .quarantined) (hlock : t.Holds r.workspaceId)
      (hhost : r.ownerHost = t.hostId)
      (habsent : ∃ processId startToken, r.processId = some processId ∧
        r.processStartToken = some startToken ∧ AbsentBy probe startToken) :
      ReleaseEvidence tokenDigest t r (.repair lease held probe actor now)

/-! ## What an access does -/

/-- Why an access amends a row. -/
inductive Cause (tokenDigest : String → String) (r : LeaseRow) : Pc → LeaseRow → Prop
  | renewed {a : LeaseAuthority} {ttlMs : Option ℚ} {now : Date} (h : r.state = .active)
      (heartbeatAt expiresAt : Timestamp) :
      Cause tokenDigest r (.heartbeat a ttlMs now) (r.renew heartbeatAt expiresAt)
  | bound {a : LeaseAuthority} {processId : ℤ} {startToken : String} {now : Date}
      (h : r.state = .active) :
      Cause tokenDigest r (.bind a processId startToken now) (r.bindProcess processId startToken)
  | quarantined {workspaceId : String} {lease : WorkspaceLeaseStatus} {alive : Bool}
      {actor : String} {now : Date} (h : r.state = .active ∨ r.state = .releasing)
      (reason : String) :
      Cause tokenDigest r (.quarantine workspaceId lease alive actor now) (r.quarantine reason)
  | released {a : LeaseAuthority} {now : Date} {seen : Option (WorkspaceLeaseStatus × ProbeAnswer)}
      (howns : Owns tokenDigest a r) (h : r.state = .active) (timestamp : Timestamp) :
      Cause tokenDigest r (.release a now seen) (r.beginRelease.retire timestamp)
  | recovered {workspaceId : String} {lease : WorkspaceLeaseStatus} {seen : ProbeAnswer}
      {actor : String} {now : Date} {timestamp : Timestamp} (h : Matches lease .active r)
      (hnow : sqlTimestamp now = .ok timestamp) (hexpired : ¬ timestamp < r.expiresAt) :
      Cause tokenDigest r (.recover workspaceId lease seen actor now) (r.retire timestamp)
  | repaired {lease : WorkspaceLeaseStatus} {held : Bool} {seen : ProbeAnswer} {actor : String}
      {now : Date} (h : Matches lease .quarantined r) (timestamp : Timestamp) :
      Cause tokenDigest r (.repair lease held seen actor now) (r.retire timestamp)

theorem Cause.amended {r r' : LeaseRow} {pc : Pc} (h : Cause tokenDigest r pc r') :
    Amended r r' := by
  cases h with
  | renewed h heartbeatAt expiresAt => exact .renewed h heartbeatAt expiresAt
  | bound h => exact .bound h _ _
  | quarantined h reason => exact .quarantined h reason
  | released howns h timestamp => exact .released h timestamp
  | recovered h hnow hexpired => exact .retired (Or.inl h.state) _
  | repaired h timestamp => exact .retired (Or.inr h.state) timestamp

/-- What an access does to the leases. -/
inductive Access (tokenDigest : String → String) (answer : Answer) (db db' : Db) (pc : Pc) : Prop
  | kept (hl : db'.leases = db.leases)
  | amended {r r' : LeaseRow} {event : EventRow} (ha : Amends db db' r r' event)
      (hc : Cause tokenDigest r pc r')
  | acquired {input : WriterInput} {rows : List LeaseRow} {row : LeaseRow}
      (hpc : pc = .acquire input) (hl : db.leases = .fenced rows)
      (hid : ∀ r ∈ rows, r.id ≠ row.id) (hrow : row.id = answer.draws.leaseId)
      (hws : row.workspaceId = input.workspaceId) (hl' : db'.leases = .fenced (rows ++ [row]))

/-- A row of the lease an instance saw has its identity, and at the same version it is the row the
instance saw. -/
def Observed (lease : WorkspaceLeaseStatus) (db : Db) : Prop :=
  ∀ rows, db.leases = .fenced rows → ∀ r ∈ rows, r.id = lease.leaseId →
    r.workspaceId = lease.workspaceId ∧ r.ownerHost = lease.ownerHost ∧
      lease.rowVersion ≤ r.rowVersion ∧ (r.rowVersion = lease.rowVersion → r.status = lease)

/-- The lease, where it exists, is one of the workspace. -/
def Located (leaseId workspaceId : String) (db : Db) : Prop :=
  ∀ rows, db.leases = .fenced rows → ∀ r ∈ rows, r.id = leaseId → r.workspaceId = workspaceId

theorem Observed.located {lease : WorkspaceLeaseStatus} {db : Db} (h : Observed lease db) :
    Located lease.leaseId lease.workspaceId db :=
  fun rows hl r hr hid => (h rows hl r hr hid).1

/-- What the tools and the retention of the storage do to the leases: new leases have an
identifier that is `new`. -/
inductive Moved (new : String → Prop) (db db' : Db) : Prop
  | kept (hl : db'.leases = db.leases)
  | amended {rows : List LeaseRow} {r r' : LeaseRow} (hl : db.leases = .fenced rows) (hr : r ∈ rows)
      (h : Amended r r') (hl' : db'.leases = .fenced (Keyed.put (·.id) r' rows))
  | acquired {rows : List LeaseRow} {row : LeaseRow} (hl : db.leases = .fenced rows)
      (hnew : new row.id) (hl' : db'.leases = .fenced (rows ++ [row]))
  | cleaned {rows : List LeaseRow} {p : LeaseRow → Bool} (hl : db.leases = .fenced rows)
      (hl' : db'.leases = .fenced (rows.filter p))

/-- A row after a move is an old row, an amended one, or one with a new identifier. -/
theorem Moved.origin {new : String → Prop} {db db' : Db} (h : Moved new db db')
    {rows' : List LeaseRow} (hl' : db'.leases = .fenced rows') {s : LeaseRow} (hs : s ∈ rows') :
    new s.id ∨ ∃ rows, db.leases = .fenced rows ∧ ∃ r ∈ rows, s = r ∨ Amended r s := by
  cases h with
  | kept hl => exact Or.inr ⟨rows', hl ▸ hl', s, hs, Or.inl rfl⟩
  | @amended rows r r' hl hr ha hput =>
    obtain rfl := LeaseTable.fenced.inj (hput.symm.trans hl')
    rcases Keyed.mem_put hs with rfl | ⟨hs, -⟩
    · exact Or.inr ⟨rows, hl, r, hr, Or.inr ha⟩
    · exact Or.inr ⟨rows, hl, s, hs, Or.inl rfl⟩
  | @acquired rows row hl hnew happend =>
    obtain rfl := LeaseTable.fenced.inj (happend.symm.trans hl')
    rcases Keyed.mem_append_singleton.1 hs with hs | rfl
    · exact Or.inr ⟨rows, hl, s, hs, Or.inl rfl⟩
    · exact Or.inl hnew
  | @cleaned rows p hl hfilter =>
    obtain rfl := LeaseTable.fenced.inj (hfilter.symm.trans hl')
    exact Or.inr ⟨rows, hl, s, (List.mem_filter.1 hs).1, Or.inl rfl⟩

theorem Observed.moved {new : String → Prop} {lease : WorkspaceLeaseStatus} {db db' : Db}
    (h : Observed lease db) (hm : Moved new db db') (hnew : ¬ new lease.leaseId) :
    Observed lease db' := by
  intro rows' hl' s hs hid
  rcases hm.origin hl' hs with hnew' | ⟨rows, hl, r, hr, rfl | ha⟩
  · exact absurd (hid ▸ hnew') hnew
  · exact h rows hl s hr hid
  · have hf := ha.follows
    obtain ⟨hws, hhost, hv, -⟩ := h rows hl r hr (hf.id ▸ hid)
    have hlt := hf.version
    exact ⟨hf.workspace.trans hws, hf.host.trans hhost, by omega, fun he => by omega⟩

theorem Located.moved {new : String → Prop} {leaseId workspaceId : String} {db db' : Db}
    (h : Located leaseId workspaceId db) (hm : Moved new db db') (hnew : ¬ new leaseId) :
    Located leaseId workspaceId db' := by
  intro rows' hl' s hs hid
  rcases hm.origin hl' hs with hnew' | ⟨rows, hl, r, hr, rfl | ha⟩
  · exact absurd (hid ▸ hnew') hnew
  · exact h rows hl s hr hid
  · exact ha.follows.workspace.trans (h rows hl r hr (ha.follows.id ▸ hid))

/-! ## The invariant of the tools -/

/-- The leases a method in progress has in hand. -/
def Pc.leaseIds : Pc → List String
  | .probeForRelease _ _ lease => (lease.map (·.leaseId)).toList
  | .release _ _ seen => (seen.map (·.1.leaseId)).toList
  | .lockForRecovery _ lease _ _ => [lease.leaseId]
  | .probeForRecovery _ lease _ _ => [lease.leaseId]
  | .quarantine _ lease _ _ _ => [lease.leaseId]
  | .recover _ lease _ _ _ => [lease.leaseId]
  | .lockForRepair lease _ _ => [lease.leaseId]
  | .probeForRepair lease _ _ _ => [lease.leaseId]
  | .repair lease _ _ _ _ => [lease.leaseId]
  | _ => []

/-- The leases an instance has in hand. -/
def Tool.leaseIds (t : Tool) : List String :=
  t.heldLocks.map (·.1) ++ (t.pc.map Pc.leaseIds).getD []

/-- What a method in progress has established. -/
def Pc.Sound (db : Db) (t : Tool) : Pc → Prop
  | .probeForRelease a _ lease => ∀ l, lease = some l → l.leaseId = a.leaseId ∧ Observed l db
  | .release a _ seen => ∀ processId, a.processId = some processId → ∃ l probe,
      seen = some (l, probe) ∧ l.leaseId = a.leaseId ∧ Observed l db ∧
      ownerProcessState t.hostId
        { l with processId := a.processId, processStartToken := a.processStartToken } probe = .absent
  | .lockForRecovery workspaceId lease _ _ => Observed lease db ∧ lease.workspaceId = workspaceId
  | .probeForRecovery workspaceId lease _ _ => Observed lease db ∧ lease.workspaceId = workspaceId
  | .quarantine workspaceId lease _ _ _ => Observed lease db ∧ lease.workspaceId = workspaceId
  | .recover workspaceId lease seen _ _ => Observed lease db ∧ lease.workspaceId = workspaceId ∧
      ownerProcessState t.hostId lease seen = .absent
  | .lockForRepair lease _ _ => Observed lease db
  | .probeForRepair lease held _ _ =>
    Observed lease db ∧ (held = true → t.holdsLease lease.leaseId = true)
  | .repair lease held seen _ _ => Observed lease db ∧
      (held = true → t.holdsLease lease.leaseId = true) ∧
      ownerProcessState t.hostId lease seen = .absent
  | _ => True

/-- Every lock an instance keeps is the one of its lease's workspace, and its method has what it
established. -/
structure Tool.Sound (db : Db) (t : Tool) : Prop where
  located : ∀ entry ∈ t.heldLocks, Located entry.1 entry.2 db
  method : ∀ pc, t.pc = some pc → pc.Sound db t

theorem Pc.Sound.moved {new : String → Prop} {db db' : Db} {t : Tool} {pc : Pc}
    (h : pc.Sound db t) (hm : Moved new db db') (hnew : ∀ id ∈ pc.leaseIds, ¬ new id) :
    pc.Sound db' t := by
  cases pc with
  | probeForRelease a now lease =>
    rintro l rfl
    obtain ⟨hid, ho⟩ := h l rfl
    exact ⟨hid, ho.moved hm (hnew l.leaseId List.mem_cons_self)⟩
  | release a now seen =>
    intro processId hp
    obtain ⟨l, probe, rfl, hid, ho, habsent⟩ := h processId hp
    exact ⟨l, probe, rfl, hid, ho.moved hm (hnew l.leaseId List.mem_cons_self), habsent⟩
  | lockForRecovery workspaceId lease actor now =>
    exact ⟨h.1.moved hm (hnew _ List.mem_cons_self), h.2⟩
  | probeForRecovery workspaceId lease actor now =>
    exact ⟨h.1.moved hm (hnew _ List.mem_cons_self), h.2⟩
  | quarantine workspaceId lease alive actor now =>
    exact ⟨h.1.moved hm (hnew _ List.mem_cons_self), h.2⟩
  | recover workspaceId lease seen actor now =>
    exact ⟨h.1.moved hm (hnew _ List.mem_cons_self), h.2⟩
  | lockForRepair lease actor now =>
    exact Observed.moved h hm (hnew _ List.mem_cons_self)
  | probeForRepair lease held actor now =>
    exact ⟨h.1.moved hm (hnew _ List.mem_cons_self), h.2⟩
  | repair lease held seen actor now =>
    exact ⟨h.1.moved hm (hnew _ List.mem_cons_self), h.2⟩
  | _ => trivial

theorem Tool.Sound.moved {new : String → Prop} {db db' : Db} {t : Tool} (h : t.Sound db)
    (hm : Moved new db db') (hnew : ∀ id ∈ t.leaseIds, ¬ new id) : t.Sound db' := by
  constructor
  · intro entry he
    exact (h.located entry he).moved hm
      (hnew _ (List.mem_append_left _ (List.mem_map_of_mem he)))
  · intro pc hpc
    refine (h.method pc hpc).moved hm fun id hid => hnew id (List.mem_append_right _ ?_)
    rw [hpc]
    exact hid

/-- An instance that goes on to a method it has grounds for. -/
theorem Tool.Sound.goto {db : Db} {t : Tool} (h : t.Sound db) {pc : Pc}
    (hpc : pc.Sound db (t.goto pc)) : (t.goto pc).Sound db := by
  refine ⟨h.located, fun pc' h' => ?_⟩
  obtain rfl := Option.some.inj h'
  exact hpc

/-- An instance whose method has ended, with some of its locks. -/
theorem Tool.Sound.finish {db : Db} {done : Tool}
    (h : ∀ entry ∈ done.heldLocks, Located entry.1 entry.2 db)
    (reply : Except LeaseError (Option LeaseAuthority)) : (done.finish reply).Sound db :=
  ⟨h, fun pc hpc => by cases hpc⟩

/-- The identifier an access may bring into the registry. -/
def newLease (pc : Pc) (answer : Answer) (id : String) : Prop :=
  (∃ input, pc = .acquire input) ∧ id = answer.draws.leaseId

theorem Access.moved {answer : Answer} {db db' : Db} {pc : Pc}
    (h : Access tokenDigest answer db db' pc) : Moved (newLease pc answer) db db' := by
  cases h with
  | kept hl => exact .kept hl
  | amended ha hc =>
    obtain ⟨rows, core, hl, hr, -, -, rfl⟩ := ha
    exact .amended hl hr hc.amended rfl
  | acquired hpc hl hid hrow hws hl' => exact .acquired hl ⟨⟨_, hpc⟩, hrow⟩ hl'

/-- The invariant of the instances and their storage. -/
structure Workspace.Sound (w : Workspace) : Prop where
  registry : Lease.Sound w.db
  tools : ∀ t ∈ w.tools, t.Sound w.db

theorem Tool.Sound.call {db : Db} {t : Tool} (h : t.Sound db) (c : ToolCall) :
    (t.call c).Sound db := by
  have hlock : ∀ (leaseId : String) (pc : Pc), pc.Sound db (t.goto pc) →
      (t.withLock leaseId pc).Sound db := by
    intro leaseId pc hpc
    unfold Tool.withLock
    split_ifs
    · exact h.goto hpc
    · exact .finish h.located _
  cases c with
  | acquireWriter input => exact h.goto trivial
  | heartbeat a ttlMs now => exact hlock _ _ trivial
  | bindProcess a processId now => exact hlock _ _ trivial
  | releaseWriter a now =>
    refine hlock _ _ ?_
    split_ifs with hp
    · intro processId hprocess
      rw [hp] at hprocess
      cases hprocess
    · trivial
  | recoverWorkspace workspaceId actor now => exact h.goto trivial
  | repairQuarantine leaseId actor now => exact h.goto trivial
  | close => exact .finish (fun entry he => absurd he List.not_mem_nil) _

/-- The grounds of a method in progress are evidence for the release it makes. -/
theorem Cause.evidence {db : Db} {t : Tool} {pc : Pc} (ht : t.Sound db) (hpc : t.pc = some pc)
    {rows : List LeaseRow} (hl : db.leases = .fenced rows) {r r' : LeaseRow} (hr : r ∈ rows)
    (hc : Cause tokenDigest r pc r') (hreleased : r'.state = .released) :
    ReleaseEvidence tokenDigest t r pc := by
  have hmethod := ht.method pc hpc
  cases hc with
  | renewed h heartbeatAt expiresAt => exact absurd (h.symm.trans hreleased) (by decide)
  | bound h => exact absurd (h.symm.trans hreleased) (by decide)
  | quarantined h reason => cases hreleased
  | released howns h timestamp =>
    refine .owner howns h fun processId hp => ?_
    obtain ⟨l, probe, hseen, hid, ho, habsent⟩ := hmethod processId (howns.process ▸ hp)
    obtain ⟨hhost, processId', startToken, -, hstart, hby⟩ := ownerProcessState_absent habsent
    have hrow := (ho rows hl r hr (howns.id.trans hid.symm)).2.1
    exact ⟨hrow.trans hhost, l, probe, startToken, hseen, howns.start.trans hstart, hby⟩
  | @recovered workspaceId lease seen actor now timestamp hm hnow hexpired =>
    obtain ⟨ho, rfl, habsent⟩ := hmethod
    obtain ⟨hws, -, -, hstatus⟩ := ho rows hl r hr hm.id
    obtain rfl := hstatus hm.version
    obtain ⟨hhost, hprocess⟩ := ownerProcessState_absent habsent
    refine .recovery hm.state ⟨timestamp, hnow, hexpired⟩ (Or.inr ?_) hhost hprocess
    rw [hpc]
    rfl
  | @repaired lease held seen actor now hm timestamp =>
    obtain ⟨ho, hheld, habsent⟩ := hmethod
    obtain ⟨hws, -, -, hstatus⟩ := ho rows hl r hr hm.id
    obtain rfl := hstatus hm.version
    obtain ⟨hhost, hprocess⟩ := ownerProcessState_absent habsent
    refine .repair hm.state ?_ hhost hprocess
    cases held with
    | true =>
      obtain ⟨entry, hentry, hid⟩ := List.any_eq_true.1 (hheld rfl)
      have hlocated := ht.located entry hentry rows hl r hr (of_decide_eq_true hid).symm
      exact Or.inl ⟨entry.1, hlocated ▸ hentry⟩
    | false =>
      refine Or.inr ?_
      rw [hpc]
      rfl

end AgentOrchestrator.Lease
