import AgentOrchestrator.Store.Sessions

/-!
# The launch status of an assignment

A launch event should move an assignment along the table `accepted → launching → launched`, with
`failed` reachable from the first two, and write nothing otherwise.  The branch of
`recordLaunchEvent` for terminal sessions stands before the table, so that a `launching` event
rewrites an assignment that is already launched or failed; `launch_status_monotone_iff` says that
this is the only way out of the table.
-/

namespace AgentOrchestrator.Store

variable {env : Env}

/-- The moves of the launch machine. -/
def launchMove : AssignmentLaunchStatus → AssignmentLaunchStatus → Bool
  | .accepted, .launching | .accepted, .failed => true
  | .launching, .launched | .launching, .failed => true
  | _, _ => false

theorem launchMove_of_allowed {status : AssignmentLaunchStatus} {target : LaunchTarget}
    (h : launchAllowed status target = true) : launchMove status target.status = true := by
  cases status <;> cases target <;> first | rfl | cases h

theorem launchMove_self (status : AssignmentLaunchStatus) : launchMove status status = false := by
  cases status <;> rfl

/-- Every assignment keeps its status or makes a move of the machine, and launch audit events are
only written by a call that makes a move. -/
@[mk_iff] structure LaunchMonotone (s next : DurableState) : Prop where
  moves : ∀ a ∈ s.assignments, ∃ a' ∈ next.assignments, a'.id = a.id ∧
    (a'.status = a.status ∨ launchMove a.status a'.status = true)
  quiet : next.auditEvents = s.auditEvents ∨ ∃ a ∈ s.assignments, ∃ a' ∈ next.assignments,
    a'.id = a.id ∧ launchMove a.status a'.status = true

instance (s next : DurableState) : Decidable (LaunchMonotone s next) :=
  decidable_of_iff' _ (launchMonotone_iff s next)

theorem LaunchMonotone.refl (s : DurableState) : LaunchMonotone s s :=
  ⟨fun a ha => ⟨a, ha, rfl, Or.inl rfl⟩, Or.inl rfl⟩

/-- A call that replaces one assignment is monotone exactly when that assignment is. -/
theorem launchMonotone_put {s next : DurableState} {a a' : Assignment}
    (hs : (s.assignments.map (·.id)).Nodup) (ha : a ∈ s.assignments) (hid : a'.id = a.id)
    (hnext : next.assignments = Keyed.put (·.id) a' s.assignments) :
    LaunchMonotone s next ↔ (a'.status = a.status ∨ launchMove a.status a'.status = true) ∧
      (next.auditEvents = s.auditEvents ∨ launchMove a.status a'.status = true) := by
  -- The version of an assignment after the call is found by its identity.
  have hversion : ∀ b ∈ s.assignments, ∀ b' ∈ next.assignments, b'.id = b.id →
      (b = a ∧ b' = a') ∨ b' = b := by
    intro b hb b' hb' hbid
    rw [hnext] at hb'
    rcases Keyed.mem_put hb' with rfl | ⟨hmem, hne⟩
    · exact Or.inl ⟨Keyed.eq_of_key hs hb ha (hbid.symm.trans hid), rfl⟩
    · exact Or.inr (Keyed.eq_of_key hs hmem hb hbid)
  have hself : a' ∈ next.assignments := by
    rw [hnext]
    exact Keyed.mem_put_self ha hid.symm
  constructor
  · rintro ⟨hmoves, hquiet⟩
    constructor
    · obtain ⟨b', hb', hbid, hb⟩ := hmoves a ha
      have hb'' : b' = a' := by
        rw [hnext] at hb'
        rcases Keyed.mem_put hb' with rfl | ⟨-, hne⟩
        · rfl
        · exact absurd (hbid.trans hid.symm) hne
      rwa [hb''] at hb
    · rcases hquiet with h | ⟨b, hb, b', hb', hbid, hmove⟩
      · exact Or.inl h
      · rcases hversion b hb b' hb' hbid with ⟨rfl, rfl⟩ | rfl
        · exact Or.inr hmove
        · rw [launchMove_self] at hmove
          cases hmove
  · rintro ⟨hstatus, hevents⟩
    refine ⟨fun b hb => ?_, ?_⟩
    · by_cases hb' : b.id = a'.id
      · obtain rfl := Keyed.eq_of_key hs hb ha (hb'.trans hid)
        exact ⟨a', hself, hid, hstatus⟩
      · refine ⟨b, ?_, rfl, Or.inl rfl⟩
        rw [hnext]
        exact Keyed.mem_put_of_ne hb hb'
    · rcases hevents with h | h
      · exact Or.inl h
      · exact Or.inr ⟨a, ha, a', hself, hid, h⟩

/-! ## The branch for terminal sessions -/

/-- The assignment no longer takes launch events. -/
def Settled (a : Assignment) : Prop := a.status = .launched ∨ a.status = .failed

/-- A `launching` event meets the settled assignment `a`, whose worker is terminal, and nothing
else stands in the way of the write. -/
structure OverwritesSettled (env : Env) (disk : Disk) (id : String) (target : LaunchTarget)
    (event : LaunchAuditEvent) (audit : Option SecurityAuditInput) (uuid : String)
    (io : WriteOutcome) (a : Assignment) : Prop where
  found : (contents disk).assignment? id = some a
  settled : Settled a
  launching : target = .launching
  ended : sessionOver (contents disk) a = true
  loads : load env disk = .ok (contents disk)
  wellFormed : AuditEventSchema env event
  fresh : ∀ e ∈ (contents disk).auditEvents, e.id ≠ event.id
  known : ∃ b ∈ (contents disk).assignments, b.id = event.assignmentId
  uncaptured : ∀ r ∈ (contents disk).capturedResults, r.assignmentId ≠ a.id
  audited : ∀ input ∈ audit, SecurityAuditEventSchema env
    (nextSecurityAuditEvent env input uuid event.occurredAt (contents disk))
  writes : io ≠ .failedBeforeRename

/-- The event a refused launch appends. -/
def refusedEvent (event : LaunchAuditEvent) : LaunchAuditEvent :=
  { event with type := .launchFailed, error := some launchCanceledError }

theorem refused_not_quiet {a : Assignment} {event : LaunchAuditEvent}
    {audit : Option SecurityAuditInput} {uuid : String} {s next : DurableState}
    (h : Refused env a event audit uuid s next) : next.auditEvents ≠ s.auditEvents := by
  intro e
  have hlen := congrArg List.length (h.auditEvents.symm.trans e)
  rw [List.length_append, List.length_singleton] at hlen
  omega

/-- A refused launch is a move of the machine exactly when the assignment was not settled. -/
theorem refused_monotone {a : Assignment} {event : LaunchAuditEvent}
    {audit : Option SecurityAuditInput} {uuid : String} {s next : DurableState}
    (hs : (s.assignments.map (·.id)).Nodup) (ha : a ∈ s.assignments)
    (h : Refused env a event audit uuid s next) : LaunchMonotone s next ↔ ¬ Settled a := by
  have hid : (refuseAssignment event a).id = a.id := rfl
  rw [launchMonotone_put hs ha hid h.assignments]
  have hstatus : (refuseAssignment event a).status = .failed := rfl
  rw [hstatus]
  constructor
  · rintro ⟨-, hq | hmove⟩ hset
    · exact refused_not_quiet h hq
    · rcases hset with hl | hf
      · rw [hl] at hmove
        cases hmove
      · rw [hf] at hmove
        cases hmove
  · intro hset
    have hmove : launchMove a.status .failed = true := by
      cases hst : a.status with
      | accepted => rfl
      | launching => rfl
      | launched => exact absurd (Or.inl hst) hset
      | failed => exact absurd (Or.inr hst) hset
    exact ⟨Or.inr hmove, Or.inr hmove⟩

/-! ## When the write goes through -/

theorem load_chain {disk : Disk} {s : DurableState} (h : load env disk = .ok s) :
    assertSecurityAuditChain env s = .ok () := by
  cases disk with
  | none =>
    cases h
    rfl
  | some t =>
    unfold load at h
    dsimp only at h
    split_ifs at h
    cases hc : assertSecurityAuditChain env t with
    | error e => rw [hc] at h; cases h
    | ok u => rw [hc] at h; cases h; exact hc

theorem launchCanceledError_ne : some launchCanceledError ≠ some "" := by decide

/-- A parsed audit event at the end of the chain keeps the state parsed. -/
theorem stateSchema_extendChain {s : DurableState} {event : SecurityAuditEvent}
    (hs : StateSchema env s) (he : SecurityAuditEventSchema env event) :
    StateSchema env (extendChain event s) := by
  refine { hs with securityAuditEvents := ?_, securityAuditHead := ?_, acceptanceAudit := ?_ }
  · intro e hmem
    rcases List.mem_append.1 hmem with h | h
    · exact hs.securityAuditEvents e h
    · rw [List.mem_singleton.1 h]
      exact he
  · intro head hhead
    obtain rfl := Option.some.inj hhead
    exact he.eventHash
  · intro a ha hw
    obtain ⟨e, hmem, h⟩ := hs.acceptanceAudit a ha hw
    exact ⟨e, List.mem_append_left _ hmem, h⟩

section
variable {s : DurableState} {a : Assignment} {event : LaunchAuditEvent}

/-- Each assignment of the refused state comes from one with the same identities. -/
theorem refuse_origin (ha : a ∈ s.assignments) {b : Assignment}
    (hb : b ∈ (refuseLaunch a event s).assignments) :
    ∃ c ∈ s.assignments, b = c ∨ (c = a ∧ b = refuseAssignment event a) := by
  rcases Keyed.mem_put hb with rfl | ⟨h, -⟩
  · exact ⟨a, ha, Or.inr ⟨rfl, rfl⟩⟩
  · exact ⟨b, h, Or.inl rfl⟩

/-- Each assignment is still on file after a refusal, under the same identity and run. -/
theorem refuse_version (hs : (s.assignments.map (·.id)).Nodup) (ha : a ∈ s.assignments)
    {c : Assignment} (hc : c ∈ s.assignments) :
    ∃ b ∈ (refuseLaunch a event s).assignments, b.id = c.id ∧ b.runId = c.runId ∧
      (c.id ≠ a.id → b = c) := by
  by_cases h : c.id = a.id
  · obtain rfl := Keyed.eq_of_key hs hc ha h
    exact ⟨refuseAssignment event c, Keyed.mem_put_self hc rfl, rfl, rfl, fun e => absurd rfl e⟩
  · exact ⟨c, Keyed.mem_put_of_ne hc h, rfl, rfl, fun _ => rfl⟩

/-- The refused state parses when the event is fresh and names a known assignment, and no result
was captured for the assignment. -/
theorem stateSchema_refuseLaunch (hs : StateSchema env s) (ha : a ∈ s.assignments)
    (he : AuditEventSchema env event) (hfresh : ∀ e ∈ s.auditEvents, e.id ≠ event.id)
    (hknown : ∃ b ∈ s.assignments, b.id = event.assignmentId)
    (hcaptured : ∀ r ∈ s.capturedResults, r.assignmentId ≠ a.id) :
    StateSchema env (refuseLaunch a event s) := by
  refine { hs with
    assignments := ?_, auditEvents := ?_, uniqueAssignments := ?_, uniqueAuditEvents := ?_,
    acceptanceAudit := ?_, assignmentRelations := ?_, auditEventAssignment := ?_,
    resultIdentity := ?_ }
  · intro b hb
    obtain ⟨c, hc, rfl | ⟨rfl, rfl⟩⟩ := refuse_origin ha hb
    · exact hs.assignments b hc
    · exact { hs.assignments c hc with updatedAt := he.occurredAt, error := launchCanceledError_ne }
  · intro e hmem
    rcases List.mem_append.1 hmem with h | h
    · exact hs.auditEvents e h
    · rw [List.mem_singleton.1 h]
      exact { he with error := launchCanceledError_ne }
  · show ((Keyed.put (·.id) _ s.assignments).map (·.id)).Nodup
    rw [Keyed.map_key_put]
    exact hs.uniqueAssignments
  · show ((s.auditEvents ++ [refusedEvent event]).map (·.id)).Nodup
    rw [List.map_append, List.map_singleton]
    refine List.Nodup.append hs.uniqueAuditEvents (List.nodup_singleton _) ?_
    intro x hx hx'
    obtain ⟨e, hmem, rfl⟩ := List.mem_map.1 hx
    exact hfresh e hmem (List.mem_singleton.1 hx')
  · intro b hb hw
    obtain ⟨c, hc, rfl | ⟨rfl, rfl⟩⟩ := refuse_origin ha hb
    · exact hs.acceptanceAudit b hc hw
    · exact hs.acceptanceAudit c hc hw
  · intro b hb
    obtain ⟨c, hc, rfl | ⟨rfl, rfl⟩⟩ := refuse_origin ha hb
    · exact hs.assignmentRelations b hc
    · exact hs.assignmentRelations c hc
  · intro e hmem
    rcases List.mem_append.1 hmem with h | h
    · obtain ⟨c, hc, hid, hrun⟩ := hs.auditEventAssignment e h
      obtain ⟨b, hb, hbid, hbrun, -⟩ := refuse_version hs.uniqueAssignments ha hc
      exact ⟨b, hb, hbid.trans hid, fun ht => by rw [hbrun]; exact hrun ht⟩
    · obtain ⟨c, hc, hid⟩ := hknown
      obtain ⟨b, hb, hbid, -, -⟩ := refuse_version hs.uniqueAssignments ha hc
      obtain rfl := List.mem_singleton.1 h
      refine ⟨b, hb, hbid.trans hid, fun ht => ?_⟩
      cases ht
  · intro r hr
    obtain ⟨c, hc, hm⟩ := hs.resultIdentity r hr
    obtain ⟨b, hb, -, -, hsame⟩ := refuse_version hs.uniqueAssignments ha hc
    have hne : c.id ≠ a.id := fun e => hcaptured r hr (hm.1.symm.trans e)
    obtain rfl := hsame hne
    exact ⟨b, hb, hm⟩

end

/-- An event that overwrites a settled assignment is written. -/
theorem OverwritesSettled.written {disk : Disk} {id : String} {target : LaunchTarget}
    {event : LaunchAuditEvent} {audit : Option SecurityAuditInput} {uuid : String}
    {io : WriteOutcome} {a : Assignment}
    (h : OverwritesSettled env disk id target event audit uuid io a) :
    ∃ next, step env disk (.recordLaunchEvent id target event audit uuid, io) = some next ∧
      Refused env a event audit uuid (contents disk) next := by
  have hs := (load_eq env h.loads).2
  have hchain := load_chain h.loads
  have ha := Keyed.mem_of_lookup h.found
  have hrefused := stateSchema_refuseLaunch hs ha h.wellFormed h.fresh h.known h.uncaptured
  -- The state the branch asks to persist, with and without an audit event.
  have hnext : ∃ next, appendOptionalAudit env audit uuid event.occurredAt
      (refuseLaunch a event (contents disk)) = .ok next ∧ StateSchema env next := by
    cases audit with
    | none => exact ⟨_, rfl, hrefused⟩
    | some input =>
      have hev := h.audited input rfl
      exact ⟨_, (appendSecurityAuditToState_ok env).2 ⟨hchain, hev, rfl⟩,
        stateSchema_extendChain hrefused hev⟩
  obtain ⟨next, happ, hv⟩ := hnext
  have hcall : (Call.recordLaunchEvent id target event audit uuid).next env (contents disk) =
      some next := by
    show (recordLaunchEvent env id target event audit uuid (contents disk)).next = some next
    unfold recordLaunchEvent
    rw [if_neg (not_not.2 h.wellFormed), h.found]
    dsimp only
    rw [if_pos ⟨h.launching, h.ended⟩, happ]
    rfl
  refine ⟨next, step_written env h.loads hcall hv h.writes, ?_⟩
  obtain ⟨-, b, hb, ⟨-, -, hr⟩ | ⟨hn, -⟩⟩ := recordLaunchEvent_next hs.uniqueWorkers hcall
  · obtain rfl := Option.some.inj (h.found.symm.trans hb)
    exact hr
  · obtain rfl := Option.some.inj (h.found.symm.trans hb)
    exact absurd ⟨h.launching, h.ended⟩ hn

/-- What a written refusal of a settled assignment says about the call. -/
theorem overwritesSettled_of_refused {disk : Disk} {id : String} {target : LaunchTarget}
    {event : LaunchAuditEvent} {audit : Option SecurityAuditInput} {uuid : String}
    {io : WriteOutcome} {a : Assignment} {next : DurableState}
    (hloads : load env disk = .ok (contents disk)) (hio : io ≠ .failedBeforeRename)
    (he : AuditEventSchema env event) (ha : (contents disk).assignment? id = some a)
    (ht : target = .launching) (hover : sessionOver (contents disk) a = true)
    (hv : StateSchema env next) (hr : Refused env a event audit uuid (contents disk) next)
    (hset : Settled a) : OverwritesSettled env disk id target event audit uuid io a := by
  have hs := (load_eq env hloads).2
  have hmem := Keyed.mem_of_lookup ha
  refine ⟨ha, hset, ht, hover, hloads, he, ?_, ?_, ?_, hr.audited, hio⟩
  · intro e hemem hid
    have hunique := hv.uniqueAuditEvents
    rw [hr.auditEvents, List.map_append, List.nodup_append] at hunique
    exact hunique.2.2 e.id (List.mem_map_of_mem hemem) event.id (List.mem_singleton_self _) hid
  · have hnew : refusedEvent event ∈ next.auditEvents := by
      rw [hr.auditEvents]
      exact List.mem_append_right _ (List.mem_singleton_self _)
    obtain ⟨b, hb, hid, -⟩ := hv.auditEventAssignment _ hnew
    rw [hr.assignments] at hb
    rcases Keyed.mem_put hb with rfl | ⟨hb, -⟩
    · exact ⟨a, hmem, hid⟩
    · exact ⟨b, hb, hid⟩
  · intro r hrmem hid
    rw [← hr.capturedResults] at hrmem
    obtain ⟨b, hb, hm⟩ := hv.resultIdentity r hrmem
    rw [hr.assignments] at hb
    rcases Keyed.mem_put hb with rfl | ⟨-, hne⟩
    · cases hm.2.1
    · exact hne (hm.1.trans hid)

/-- **When a launch event is a move of the machine.** On every reachable state a launch event keeps
every assignment on the table and writes no event without a move, unless it is a `launching` event
for a settled assignment of a terminal session. -/
theorem launch_status_monotone_iff {disk : Disk} (h : Reachable env disk) (id : String)
    (target : LaunchTarget) (event : LaunchAuditEvent) (audit : Option SecurityAuditInput)
    (uuid : String) (io : WriteOutcome) :
    LaunchMonotone (contents disk)
        (contents (step env disk (.recordLaunchEvent id target event audit uuid, io))) ↔
      ¬ ∃ a, OverwritesSettled env disk id target event audit uuid io a := by
  have hs : StateSchema env (contents disk) := h.valid
  constructor
  · rintro hmono ⟨a, ha⟩
    obtain ⟨next, hstep, hr⟩ := ha.written
    rw [hstep] at hmono
    exact (refused_monotone hs.uniqueAssignments (Keyed.mem_of_lookup ha.found) hr).1 hmono
      ha.settled
  · intro hnot
    by_cases hrun : load env disk = .ok (contents disk) ∧ io ≠ .failedBeforeRename
    swap
    · rw [step_unwritten env hrun]
      exact .refl _
    rcases step_cases env disk (.recordLaunchEvent id target event audit uuid) io with
      e | ⟨next, -, hn, hv, e⟩
    · rw [e]
      exact .refl _
    rw [e]
    obtain ⟨he, a, ha, ⟨ht, hover, hr⟩ | ⟨-, -, -, -, hallow, hadv⟩⟩ :=
      recordLaunchEvent_next hs.uniqueWorkers hn
    · refine (refused_monotone hs.uniqueAssignments (Keyed.mem_of_lookup ha) hr).2 fun hset => ?_
      exact hnot ⟨a, overwritesSettled_of_refused hrun.1 hrun.2 he ha ht hover hv hr hset⟩
    · have hmove := launchMove_of_allowed hallow
      have hid : (advanceAssignment env target event a).id = a.id := rfl
      exact (launchMonotone_put hs.uniqueAssignments (Keyed.mem_of_lookup ha) hid
        hadv.assignments).2 ⟨Or.inr hmove, Or.inr hmove⟩

/-- The launch of the sample assignment is a move. -/
theorem launch_status_monotone_sample :
    LaunchMonotone (contents (Runs.run (step plainEnv) none sampleLaunching))
      (contents (step plainEnv (Runs.run (step plainEnv) none sampleLaunching)
        (sampleEvent "e3" .launched (some "run-1")))) := by
  refine (launch_status_monotone_iff ⟨sampleLaunching, rfl⟩ "a1" .launched _ none "u" .written).2 ?_
  rintro ⟨a, ha⟩
  cases ha.launching

/-- The sample assignment is launched and its worker fails without a captured result. -/
def sampleSettled : List (Call × WriteOutcome) :=
  sampleLaunching ++ [sampleEvent "e3" .launched (some "run-1"),
    written (.updateWorker "s1" (.recordWorkerTerminal .failed none none "2026-01-03"))]

/-- A second `launching` event then moves the launched assignment to failed. -/
theorem launched_assignment_overwritten :
    Reachable plainEnv (Runs.run (step plainEnv) none sampleSettled) ∧
      ¬ LaunchMonotone (contents (Runs.run (step plainEnv) none sampleSettled))
        (contents (step plainEnv (Runs.run (step plainEnv) none sampleSettled)
          (sampleEvent "e4" .launching none))) :=
  ⟨⟨sampleSettled, rfl⟩, by decide +kernel⟩

end AgentOrchestrator.Store
