import AgentOrchestrator.Store.WorkerOrder

/-!
# What a call changes

The operations are unfolded once, here.  `Call.next_workers` says that every call moves the worker
records forward in `Worker.Later`; `Call.next_assignments` says that assignments are only appended
by an acceptance and only rewritten by a launch event, and `recordLaunchEvent_next` says what a
launch event writes.
-/

namespace AgentOrchestrator.Store

variable {env : Env}

/-! ## Tables of workers -/

/-- Every worker of the first list has a later version in the second. -/
def Forward (l l' : List Worker) : Prop := ∀ w ∈ l, ∃ w' ∈ l', w.Later w'

namespace Forward

variable {l l' l'' : List Worker}

theorem refl (l : List Worker) : Forward l l := fun w hw => ⟨w, hw, .refl w⟩

theorem trans (h : Forward l l') (h' : Forward l' l'') : Forward l l'' := by
  intro w hw
  obtain ⟨w', hw', hl⟩ := h w hw
  obtain ⟨w'', hw'', hl'⟩ := h' w' hw'
  exact ⟨w'', hw'', hl.trans hl'⟩

theorem append (l added : List Worker) : Forward l (l ++ added) :=
  fun w hw => ⟨w, List.mem_append_left added hw, .refl w⟩

theorem map {f : Worker → Worker} (h : ∀ w : Worker, w.Later (f w)) (l : List Worker) :
    Forward l (l.map f) := fun w hw => ⟨f w, List.mem_map_of_mem hw, h w⟩

/-- Replacing a worker by a later version of it. -/
theorem put (hl : (l.map (·.id)).Nodup) {w w' : Worker} (hw : w ∈ l) (h : w.Later w') :
    Forward l (Keyed.put (·.id) w' l) := by
  intro v hv
  by_cases hk : v.id = w'.id
  · obtain rfl := Keyed.eq_of_key hl hv hw (hk.trans h.id)
    exact ⟨w', Keyed.mem_put_self hv hk, h⟩
  · exact ⟨v, Keyed.mem_put_of_ne hv hk, .refl v⟩

end Forward

/-! ## Operations on workers -/

theorem updateWorker_next {workerId : String} {u : WorkerUpdate} {s next : DurableState}
    (h : (updateWorker workerId u s).next = some next) :
    ∃ w w' claim, s.worker? workerId = some w ∧ u.apply s w = .ok (w', claim) ∧
      next = s.putWorker w' := by
  unfold updateWorker at h
  cases hw : s.worker? workerId with
  | none => rw [hw] at h; cases h
  | some w =>
    rw [hw] at h
    dsimp only at h
    cases ha : u.apply s w with
    | error e => rw [ha] at h; cases h
    | ok r => rw [ha] at h; cases h; exact ⟨w, r.1, r.2, rfl, ha, rfl⟩

theorem recoverLifecycleDeliveryClaims_next {s next : DurableState}
    (h : (recoverLifecycleDeliveryClaims s).next = some next) :
    next = { s with workers := s.workers.map recoverDeliveryClaim } := by
  unfold recoverLifecycleDeliveryClaims at h
  split_ifs at h
  · exact (Option.some.inj h).symm
  · cases h

theorem recordWorkerResult_next {workerId : String} {succeeded : Bool} {result : Option Json}
    {completedAt : Timestamp} {s next : DurableState}
    (h : (recordWorkerResult workerId succeeded result completedAt s).next = some next) :
    ∃ w w', s.worker? workerId = some w ∧ w.status.isTerminal = false ∧ w'.id = w.id ∧
      w'.runId = w.runId ∧ w'.preCancelStatus = w.preCancelStatus ∧ next = s.putWorker w' := by
  unfold recordWorkerResult at h
  dsimp only at h
  cases hw : s.worker? workerId with
  | none => rw [hw] at h; cases h
  | some w =>
    rw [hw] at h
    dsimp only at h
    by_cases ht : w.status.isTerminal = true
    · rw [if_pos ht] at h
      split_ifs at h <;> cases h
    · rw [if_neg ht] at h
      have e := (Option.some.inj h).symm
      exact ⟨w, _, rfl, Bool.eq_false_iff.2 ht, by rfl, by rfl, by rfl, e⟩

theorem createBatch_next {name clientId : String} {assignments : List WorkerAttribution}
    {key : Option String} {now : Timestamp} {uuid : ℕ → String} {s next : DurableState}
    (h : (createBatch env name clientId assignments key now uuid s).next = some next) :
    ∃ session batch workers, (∀ w ∈ workers, w.status = .requested ∧ w.runId = none ∧
        w.preCancelStatus = none) ∧
      next = { s with
        sessions := s.sessions ++ [session]
        batches := s.batches ++ [batch]
        workers := s.workers ++ workers } := by
  unfold createBatch at h
  dsimp only at h
  split at h
  · split_ifs at h <;> cases h
  · refine ⟨_, _, _, ?_, (Option.some.inj h).symm⟩
    intro w hw
    obtain ⟨x, -, rfl⟩ := List.mem_map.1 hw
    exact ⟨rfl, rfl, rfl⟩

/-! ## Launch intents and results -/

theorem reserveLaunch_next {intent : LaunchIntent} {now : Timestamp} {s next : DurableState}
    (h : (reserveLaunch intent now s).next = some next) :
    ∃ intents, next = { s with launchIntents := intents } := by
  unfold reserveLaunch at h
  split at h
  · split_ifs at h <;> cases h
  · exact ⟨_, (Option.some.inj h).symm⟩

theorem updateLaunch_next {key : String} {status : LaunchStatus} {runId diagnostic : Option String}
    {audit : Option SecurityAuditInput} {uuid : String} {now : Timestamp} {s next : DurableState}
    (h : (updateLaunch env key status runId diagnostic audit uuid now s).next = some next) :
    ∃ intents events head, next = { s with
      launchIntents := intents, securityAuditEvents := events, securityAuditHead := head } := by
  unfold updateLaunch at h
  cases hi : Keyed.lookup (·.idempotencyKey) key s.launchIntents with
  | none => rw [hi] at h; cases h
  | some intent =>
    rw [hi] at h
    dsimp only at h
    split_ifs at h
    all_goals try cases h
    split at h
    · cases h
    · rename_i t ht
      obtain ⟨events, head, rfl⟩ := appendOptionalAudit_spec env ht
      exact ⟨_, _, _, (Option.some.inj h).symm⟩

theorem appendSecurityAudit_next {input : SecurityAuditInput} {uuid : String} {now : Timestamp}
    {s next : DurableState} (h : (appendSecurityAudit env input uuid now s).next = some next) :
    ∃ events head, next = { s with securityAuditEvents := events, securityAuditHead := head } := by
  unfold appendSecurityAudit at h
  split at h
  · cases h
  · rename_i t ht
    obtain ⟨event, head, rfl⟩ := appendSecurityAuditToState_spec env ht
    exact ⟨_, _, (Option.some.inj h).symm⟩

theorem captureResult_next {r : CapturedResult} {s next : DurableState}
    (h : (captureResult env r s).next = some next) :
    ∃ a w, s.assignment? r.assignmentId = some a ∧ a.status = .launched ∧
      a.sessionId = r.sessionId ∧ s.worker? r.sessionId = some w ∧
      next = { s with
        capturedResults := s.capturedResults ++ [r]
        workers := Keyed.put (·.id) (settleCaptured r w) s.workers } := by
  unfold captureResult at h
  by_cases hr : CapturedResultSchema env r
  swap
  · rw [if_pos hr] at h
    cases h
  rw [if_neg (not_not.2 hr)] at h
  cases ha : s.assignment? r.assignmentId with
  | none => rw [ha] at h; cases h
  | some a =>
    rw [ha] at h
    dsimp only at h
    by_cases hl : a.workspaceId = none ∨ a.attemptId = none ∨ a.attempt = none
    · rw [if_pos hl] at h
      cases h
    rw [if_neg hl] at h
    split at h
    · cases h
    rename_i hmatch
    have hsession : a.sessionId = r.sessionId := by
      unfold identityMismatch at hmatch
      by_contra hne
      split_ifs at hmatch
    by_cases hattr : a.attribution ≠ r.attribution
    · rw [if_pos hattr] at h
      cases h
    by_cases hst : a.status ≠ .launched
    · rw [if_neg hattr, if_pos hst] at h
      cases h
    rw [if_neg hattr, if_neg hst] at h
    split at h
    · split_ifs at h <;> cases h
    split at h
    · split_ifs at h <;> cases h
    cases hw : s.worker? r.sessionId with
    | none => rw [hw] at h; cases h
    | some w =>
      rw [hw] at h
      exact ⟨a, w, rfl, not_not.1 hst, hsession, rfl, (Option.some.inj h).symm⟩

/-! ## Acceptance -/

/-- The state with the records of accepted launches appended. -/
structure Accepted (offered : List (Assignment × Worker)) (s next : DurableState) : Prop where
  assignments : next.assignments = s.assignments ++ offered.map (·.1)
  workers : next.workers = s.workers ++ offered.map (·.2)
  capturedResults : next.capturedResults = s.capturedResults
  /-- No stored assignment has the key of an offered one. -/
  fresh : ∀ o ∈ offered, ∀ a ∈ s.assignments, a.idempotencyKey ≠ o.1.idempotencyKey

theorem assignmentByKey_none {s : DurableState} {key : String} (h : assignmentByKey s key = none) :
    ∀ a ∈ s.assignments, a.idempotencyKey ≠ key := by
  intro a ha hk
  have hnot := List.find?_eq_none.1 h a ha
  exact hnot (decide_eq_true hk)

theorem acceptLaunch_next {input : LaunchInput} {batch : Batch} {uuid : String}
    {s next : DurableState} (h : (acceptLaunch env input batch uuid s).next = some next) :
    Accepted [(input.assignment, redactWorker env input.worker)] s next := by
  unfold acceptLaunch at h
  dsimp only at h
  split_ifs at h
  all_goals try cases h
  split at h
  · split_ifs at h <;> cases h
  · rename_i hkey
    split at h
    · cases h
    · rename_i t ht
      obtain ⟨event, head, rfl⟩ := appendSecurityAuditToState_spec env ht
      obtain rfl := Option.some.inj h
      refine ⟨rfl, rfl, rfl, ?_⟩
      intro o ho
      obtain rfl := List.mem_singleton.1 ho
      exact assignmentByKey_none hkey

theorem appendAudits_spec {inputs : List LaunchInput} {uuids : List String} {s t : DurableState}
    (h : appendAudits env inputs uuids s = .ok t) :
    ∃ events head, t = { s with securityAuditEvents := events, securityAuditHead := head } := by
  induction inputs generalizing uuids s with
  | nil => cases h; exact ⟨_, _, rfl⟩
  | cons input inputs ih =>
    unfold appendAudits at h
    split at h
    · cases h
    · rename_i u hu
      obtain ⟨event, head, rfl⟩ := appendSecurityAuditToState_spec env hu
      obtain ⟨events, head', rfl⟩ := ih h
      exact ⟨events, head', rfl⟩

theorem acceptLaunchBatch_next {inputs : List LaunchInput} {batch : Batch} {uuids : List String}
    {s next : DurableState} (h : (acceptLaunchBatch env inputs batch uuids s).next = some next) :
    Accepted (inputs.map fun i => (i.assignment, i.worker)) s next := by
  unfold acceptLaunchBatch at h
  dsimp only at h
  split_ifs at h with hschema hmatch hsome hpart hdiff hbatch
  all_goals try cases h
  split at h
  · cases h
  · rename_i t ht
    obtain ⟨events, head, rfl⟩ := appendAudits_spec ht
    obtain rfl := Option.some.inj h
    refine ⟨by rw [List.map_map]; rfl, by rw [List.map_map]; rfl, rfl, ?_⟩
    intro o ho
    obtain ⟨i, hi, rfl⟩ := List.mem_map.1 ho
    refine assignmentByKey_none ?_
    by_contra hne
    refine hsome (List.any_eq_true.2 ⟨_, List.mem_map_of_mem hi, ?_⟩)
    exact Option.isSome_iff_ne_none.2 hne

/-! ## Launch events -/

/-- The events an allowed transition appends. -/
def newEvents (env : Env) (event : LaunchAuditEvent) (s : DurableState) : List LaunchAuditEvent :=
  if (Keyed.lookup (·.id) event.id s.auditEvents).isNone then
    [{ event with error := event.error.map env.redactText }]
  else []

/-- What an allowed transition writes. -/
structure Advanced (env : Env) (a : Assignment) (target : LaunchTarget) (event : LaunchAuditEvent)
    (s next : DurableState) : Prop where
  assignments : next.assignments =
    Keyed.put (·.id) (advanceAssignment env target event a) s.assignments
  auditEvents : next.auditEvents = s.auditEvents ++ newEvents env event s
  capturedResults : next.capturedResults = s.capturedResults
  workers : Forward s.workers next.workers
  /-- The run of the event is bound to the worker of the session. -/
  bound : ∀ r, event.runId = some r → ∃ w ∈ next.workers, w.id = a.sessionId ∧ w.runId = some r
  /-- Without a run and without a failure no worker is touched. -/
  untouched : event.runId = none → target ≠ .failed → next.workers = s.workers
  /-- The workers of other sessions are the same. -/
  others : ∀ w ∈ next.workers, w.id ≠ a.sessionId → w ∈ s.workers

/-- What a launch refused for a terminal session writes. -/
structure Refused (env : Env) (a : Assignment) (event : LaunchAuditEvent)
    (audit : Option SecurityAuditInput) (uuid : String) (s next : DurableState) : Prop where
  audited : ∀ input ∈ audit, SecurityAuditEventSchema env
    (nextSecurityAuditEvent env input uuid event.occurredAt s)
  assignments : next.assignments = Keyed.put (·.id) (refuseAssignment event a) s.assignments
  auditEvents : next.auditEvents = s.auditEvents ++
    [{ event with type := .launchFailed, error := some launchCanceledError }]
  capturedResults : next.capturedResults = s.capturedResults
  workers : next.workers = s.workers

theorem mem_of_put_worker {id : String} {w' : Worker} {l : List Worker} (hid : w'.id = id) :
    ∀ w ∈ Keyed.put (·.id) w' l, w.id ≠ id → w ∈ l := by
  intro w hw hne
  rcases Keyed.mem_put hw with rfl | ⟨hw, -⟩
  · exact absurd hid hne
  · exact hw

/-- Binding the run of an event changes one worker, which keeps its identity. -/
theorem bindEventRun_spec {assignmentId sessionId : String} {event : LaunchAuditEvent}
    {s t : DurableState} (hs : (s.workers.map (·.id)).Nodup)
    (h : bindEventRun assignmentId sessionId event s = .ok t) :
    (t.workers.map (·.id)).Nodup ∧ Forward s.workers t.workers ∧
      t = { s with workers := t.workers } ∧
      (∀ r, event.runId = some r → ∃ w ∈ t.workers, w.id = sessionId ∧ w.runId = some r) ∧
      (event.runId = none → t.workers = s.workers) ∧
      ∀ w ∈ t.workers, w.id ≠ sessionId → w ∈ s.workers := by
  unfold bindEventRun at h
  cases hr : event.runId with
  | none =>
    rw [hr] at h
    cases h
    refine ⟨hs, .refl _, rfl, fun r e => ?_, fun _ => rfl, fun w hw _ => hw⟩
    cases e
  | some runId =>
    rw [hr] at h
    dsimp only at h
    cases hw : s.worker? sessionId with
    | none => rw [hw] at h; cases h
    | some w =>
      rw [hw] at h
      dsimp only at h
      split_ifs at h with hb
      cases h
      have hmem := Keyed.mem_of_lookup hw
      have hlater := later_bindLaunchedRun hb
      have hid : (bindLaunchedRun runId w).id = sessionId :=
        hlater.id.trans (Keyed.key_of_lookup hw)
      refine ⟨?_, Forward.put hs hmem hlater, rfl, ?_, fun e => ?_, mem_of_put_worker hid⟩
      · show ((Keyed.put (·.id) _ s.workers).map (·.id)).Nodup
        rw [Keyed.map_key_put]
        exact hs
      · intro r e
        cases e
        refine ⟨bindLaunchedRun runId w, Keyed.mem_put_self hmem hlater.id.symm, hid, ?_⟩
        unfold bindLaunchedRun
        split_ifs <;> rfl
      · cases e

/-- Failing the worker of an event keeps the runs of all workers. -/
theorem failEventWorker_spec {assignmentId sessionId : String} {target : LaunchTarget}
    {event : LaunchAuditEvent} {s t : DurableState} (hs : (s.workers.map (·.id)).Nodup)
    (h : failEventWorker env assignmentId sessionId target event s = .ok t) :
    Forward s.workers t.workers ∧ t = { s with workers := t.workers } ∧
      (target ≠ .failed → t.workers = s.workers) ∧
      ∀ w ∈ t.workers, w.id ≠ sessionId → w ∈ s.workers := by
  unfold failEventWorker at h
  by_cases ht : target = .failed
  · rw [if_pos ht] at h
    cases hw : s.worker? sessionId with
    | none => rw [hw] at h; cases h
    | some w =>
      rw [hw] at h
      cases h
      have hlater : w.Later (failLaunchedWorker env event w) := later_failLaunchedWorker event w
      exact ⟨Forward.put hs (Keyed.mem_of_lookup hw) hlater, rfl, fun e => absurd ht e,
        mem_of_put_worker (hlater.id.trans (Keyed.key_of_lookup hw))⟩
  · rw [if_neg ht] at h
    cases h
    exact ⟨.refl _, rfl, fun _ => rfl, fun w hw _ => hw⟩

theorem advanceLaunch_spec {a : Assignment} {target : LaunchTarget} {event : LaunchAuditEvent}
    {audit : Option SecurityAuditInput} {uuid : String} {s next : DurableState}
    (hs : (s.workers.map (·.id)).Nodup)
    (h : advanceLaunch env a target event (Keyed.lookup (·.id) event.id s.auditEvents) audit uuid s =
      .ok next) : Advanced env a target event s next := by
  unfold advanceLaunch at h
  dsimp only [bind, Except.bind] at h
  cases hb : bindEventRun a.id a.sessionId event
      (s.putAssignment (advanceAssignment env target event a)) with
  | error e => rw [hb] at h; cases h
  | ok t =>
    rw [hb] at h
    dsimp only at h
    cases hf : failEventWorker env a.id a.sessionId target event t with
    | error e => rw [hf] at h; cases h
    | ok u =>
      rw [hf] at h
      obtain ⟨events, head, rfl⟩ := appendOptionalAudit_spec env h
      have hs' : ((s.putAssignment (advanceAssignment env target event a)).workers.map
          (·.id)).Nodup := hs
      obtain ⟨hnodup, hfw, ht, hbound, hsame, hothers⟩ := bindEventRun_spec hs' hb
      obtain ⟨hfw', hu, hsame', hothers'⟩ := failEventWorker_spec hnodup hf
      refine ⟨?_, ?_, ?_, ?_, ?_, ?_, ?_⟩
      · show u.assignments = _
        rw [hu, ht]
        rfl
      · show u.auditEvents ++ _ = _
        rw [hu, ht]
        rfl
      · show u.capturedResults = _
        rw [hu, ht]
        rfl
      · exact Forward.trans hfw hfw'
      · intro r hr
        obtain ⟨w, hw, hid, hrun⟩ := hbound r hr
        obtain ⟨w', hw', hl⟩ := hfw' w hw
        exact ⟨w', hw', hl.id.trans hid, hl.runId r hrun⟩
      · intro hr hne
        exact (hsame' hne).trans (hsame hr)
      · intro w hw hne
        exact hothers w (hothers' w hw hne) hne

theorem Body.exists_commit {α : Type} {b : Body α} {next : DurableState} (h : b.next = some next) :
    ∃ value, b = .commit value next := by
  cases b with
  | reject error memory => cases h
  | reply value memory => cases h
  | commit value n => exact ⟨value, by rw [Option.some.inj h]⟩

/-- How a launch event comes to a write: the session of the assignment is over and the launch is
refused, or the event passes the checks and the assignment advances. -/
theorem recordLaunchEvent_inversion {id : String} {target : LaunchTarget} {event : LaunchAuditEvent}
    {audit : Option SecurityAuditInput} {uuid : String} {s next : DurableState}
    {record : LaunchRecord}
    (h : recordLaunchEvent env id target event audit uuid s = .commit record next) :
    AuditEventSchema env event ∧ ∃ a, s.assignment? id = some a ∧
      ((target = .launching ∧ sessionOver s a = true ∧
          appendOptionalAudit env audit uuid event.occurredAt (refuseLaunch a event s) = .ok next ∧
          record.transitioned = false) ∨
        (¬ (target = .launching ∧ sessionOver s a = true) ∧ event.assignmentId = id ∧
          event.type = target.expectedType ∧
          (∀ e, Keyed.lookup (·.id) event.id s.auditEvents = some e → e = event) ∧
          launchAllowed a.status target = true ∧
          advanceLaunch env a target event (Keyed.lookup (·.id) event.id s.auditEvents) audit uuid
            s = .ok next ∧
          record.assignment = advanceAssignment env target event a)) := by
  unfold recordLaunchEvent at h
  by_cases he : AuditEventSchema env event
  swap
  · rw [if_pos he] at h
    cases h
  rw [if_neg (not_not.2 he)] at h
  cases ha : s.assignment? id with
  | none => rw [ha] at h; cases h
  | some a =>
    rw [ha] at h
    dsimp only at h
    refine ⟨he, a, rfl, ?_⟩
    by_cases hover : target = .launching ∧ sessionOver s a = true
    · rw [if_pos hover] at h
      split at h
      · cases h
      · rename_i t ht
        obtain ⟨rfl, rfl⟩ := Body.commit.inj h
        exact Or.inl ⟨hover.1, hover.2, ht, rfl⟩
    rw [if_neg hover] at h
    split_ifs at h with hid htype hconf hallow
    split at h
    · cases h
    · rename_i t ht
      obtain ⟨rfl, rfl⟩ := Body.commit.inj h
      refine Or.inr ⟨hover, not_not.1 hid, not_not.1 htype, ?_, Bool.of_not_eq_false hallow, ht, rfl⟩
      intro e hev
      rw [hev] at hconf
      by_contra hne
      exact hconf (by simpa using hne)

/-- **What a launch event writes.** Either the session of the assignment is over and the launch is
refused, or the transition is one the table allows. -/
theorem recordLaunchEvent_commit {id : String} {target : LaunchTarget} {event : LaunchAuditEvent}
    {audit : Option SecurityAuditInput} {uuid : String} {s next : DurableState}
    {record : LaunchRecord} (hs : (s.workers.map (·.id)).Nodup)
    (h : recordLaunchEvent env id target event audit uuid s = .commit record next) :
    AuditEventSchema env event ∧ ∃ a, s.assignment? id = some a ∧
      ((target = .launching ∧ sessionOver s a = true ∧
          Refused env a event audit uuid s next ∧ record.transitioned = false) ∨
        (¬ (target = .launching ∧ sessionOver s a = true) ∧ event.assignmentId = id ∧
          event.type = target.expectedType ∧
          (∀ e, Keyed.lookup (·.id) event.id s.auditEvents = some e → e = event) ∧
          launchAllowed a.status target = true ∧ Advanced env a target event s next ∧
          record.assignment = advanceAssignment env target event a)) := by
  obtain ⟨he, a, ha, hcases⟩ := recordLaunchEvent_inversion h
  refine ⟨he, a, ha, ?_⟩
  rcases hcases with ⟨ht, hover, haudit, hrecord⟩ | ⟨hn, hid, htype, hconf, hallow, hadv, hrecord⟩
  · obtain ⟨events, head, hspec⟩ := appendOptionalAudit_spec env haudit
    refine Or.inl ⟨ht, hover, ⟨?_, by rw [hspec]; rfl, by rw [hspec]; rfl,
      by rw [hspec]; rfl, by rw [hspec]; rfl⟩, hrecord⟩
    intro input hin
    obtain rfl := Option.mem_def.1 hin
    exact ((appendSecurityAuditToState_ok env).1 haudit).2.1
  · exact Or.inr ⟨hn, hid, htype, hconf, hallow, advanceLaunch_spec hs hadv, hrecord⟩

/-- A launch event that does not write makes no transition. -/
theorem recordLaunchEvent_reply {id : String} {target : LaunchTarget} {event : LaunchAuditEvent}
    {audit : Option SecurityAuditInput} {uuid : String} {s memory : DurableState}
    {record : LaunchRecord}
    (h : recordLaunchEvent env id target event audit uuid s = .reply record memory) :
    record.transitioned = false := by
  unfold recordLaunchEvent at h
  by_cases he : AuditEventSchema env event
  swap
  · rw [if_pos he] at h
    cases h
  rw [if_neg (not_not.2 he)] at h
  cases ha : s.assignment? id with
  | none => rw [ha] at h; cases h
  | some a =>
    rw [ha] at h
    dsimp only at h
    by_cases hover : target = .launching ∧ sessionOver s a = true
    · rw [if_pos hover] at h
      split at h <;> cases h
    rw [if_neg hover] at h
    split_ifs at h
    · cases h
      rfl
    · split at h <;> cases h

theorem recordLaunchEvent_next {id : String} {target : LaunchTarget} {event : LaunchAuditEvent}
    {audit : Option SecurityAuditInput} {uuid : String} {s next : DurableState}
    (hs : (s.workers.map (·.id)).Nodup)
    (h : (recordLaunchEvent env id target event audit uuid s).next = some next) :
    AuditEventSchema env event ∧ ∃ a, s.assignment? id = some a ∧
      ((target = .launching ∧ sessionOver s a = true ∧
          Refused env a event audit uuid s next) ∨
        (¬ (target = .launching ∧ sessionOver s a = true) ∧ event.assignmentId = id ∧
          event.type = target.expectedType ∧
          (∀ e, Keyed.lookup (·.id) event.id s.auditEvents = some e → e = event) ∧
          launchAllowed a.status target = true ∧ Advanced env a target event s next)) := by
  obtain ⟨record, hc⟩ := Body.exists_commit h
  obtain ⟨he, a, ha, ⟨ht, hover, hr, -⟩ | ⟨hn, hid, htype, hconf, hallow, hadv, -⟩⟩ :=
    recordLaunchEvent_commit hs hc
  · exact ⟨he, a, ha, Or.inl ⟨ht, hover, hr⟩⟩
  · exact ⟨he, a, ha, Or.inr ⟨hn, hid, htype, hconf, hallow, hadv⟩⟩

/-! ## Calls -/

/-- **Workers only move forward.** Every worker has a later version in the next state. -/
theorem Call.next_workers {c : Call} {s next : DurableState} (hs : UniqueIdentities s)
    (h : c.next env s = some next) : Forward s.workers next.workers := by
  have hunique := hs.uniqueWorkers
  cases c with
  | createBatch name clientId assignments key now uuid =>
    unfold Call.next at h
    dsimp only at h
    split_ifs at h
    obtain ⟨session, batch, workers, -, rfl⟩ := createBatch_next h
    exact .append _ _
  | updateWorker workerId u =>
    unfold Call.next at h
    dsimp only at h
    split at h
    · cases h
    · obtain ⟨w, w', claim, hw, ha, rfl⟩ := updateWorker_next h
      exact .put hunique (Keyed.mem_of_lookup hw) (WorkerUpdate.later ha)
  | recoverLifecycleDeliveryClaims =>
    obtain rfl := recoverLifecycleDeliveryClaims_next h
    exact .map later_recoverDeliveryClaim _
  | recordWorkerResult workerId succeeded result completedAt =>
    obtain ⟨w, w', hw, hopen, hid, hrun, -, rfl⟩ := recordWorkerResult_next h
    exact .put hunique (Keyed.mem_of_lookup hw) (.of_open hopen hid hrun)
  | reconcile alive now =>
    obtain rfl := Option.some.inj h
    exact .map (later_reconcileWorker alive now) _
  | reserveLaunch intent now =>
    obtain ⟨intents, rfl⟩ := reserveLaunch_next h
    exact .refl _
  | updateLaunch key status runId diagnostic audit uuid now =>
    obtain ⟨intents, events, head, rfl⟩ := updateLaunch_next h
    exact .refl _
  | acceptLaunch input batch uuid =>
    rw [(acceptLaunch_next h).workers]
    exact .append _ _
  | acceptLaunchBatch inputs batch uuids =>
    rw [(acceptLaunchBatch_next h).workers]
    exact .append _ _
  | appendSecurityAudit input uuid now =>
    obtain ⟨events, head, rfl⟩ := appendSecurityAudit_next h
    exact .refl _
  | recordLaunchEvent id target event audit uuid =>
    obtain ⟨-, a, -, ⟨-, -, hr⟩ | ⟨-, -, -, -, -, ha⟩⟩ := recordLaunchEvent_next hunique h
    · rw [hr.workers]
      exact .refl _
    · exact ha.workers
  | captureResult r =>
    obtain ⟨a, w, -, -, -, hw, rfl⟩ := captureResult_next h
    exact .put hunique (Keyed.mem_of_lookup hw) (later_settleCaptured r w)

/-- The call is a launch event. -/
def Call.isLaunchEvent : Call → Bool
  | .recordLaunchEvent .. => true
  | _ => false

/-- Only a launch event rewrites an assignment, and only an acceptance adds one. -/
theorem Call.next_assignments {c : Call} {s next : DurableState} (hc : c.isLaunchEvent = false)
    (h : c.next env s = some next) :
    next.assignments = s.assignments ++ (c.offered env).map (·.1) := by
  cases c with
  | createBatch name clientId assignments key now uuid =>
    unfold Call.next at h
    dsimp only at h
    split_ifs at h
    obtain ⟨session, batch, workers, -, rfl⟩ := createBatch_next h
    exact (List.append_nil _).symm
  | updateWorker workerId u =>
    unfold Call.next at h
    dsimp only at h
    split at h
    · cases h
    · obtain ⟨w, w', claim, hw, ha, rfl⟩ := updateWorker_next h
      exact (List.append_nil _).symm
  | recoverLifecycleDeliveryClaims =>
    obtain rfl := recoverLifecycleDeliveryClaims_next h
    exact (List.append_nil _).symm
  | recordWorkerResult workerId succeeded result completedAt =>
    obtain ⟨w, w', hw, hopen, hid, hrun, -, rfl⟩ := recordWorkerResult_next h
    exact (List.append_nil _).symm
  | reconcile alive now =>
    obtain rfl := Option.some.inj h
    exact (List.append_nil _).symm
  | reserveLaunch intent now =>
    obtain ⟨intents, rfl⟩ := reserveLaunch_next h
    exact (List.append_nil _).symm
  | updateLaunch key status runId diagnostic audit uuid now =>
    obtain ⟨intents, events, head, rfl⟩ := updateLaunch_next h
    exact (List.append_nil _).symm
  | acceptLaunch input batch uuid => exact (acceptLaunch_next h).assignments
  | acceptLaunchBatch inputs batch uuids => exact (acceptLaunchBatch_next h).assignments
  | appendSecurityAudit input uuid now =>
    obtain ⟨events, head, rfl⟩ := appendSecurityAudit_next h
    exact (List.append_nil _).symm
  | recordLaunchEvent id target event audit uuid => cases hc
  | captureResult r =>
    obtain ⟨a, w, -, -, -, hw, rfl⟩ := captureResult_next h
    exact (List.append_nil _).symm

/-- The assignments a call offers have keys that are not in use. -/
theorem Call.next_fresh {c : Call} {s next : DurableState} (h : c.next env s = some next) :
    ∀ o ∈ c.offered env, ∀ a ∈ s.assignments, a.idempotencyKey ≠ o.1.idempotencyKey := by
  cases c with
  | acceptLaunch input batch uuid => exact (acceptLaunch_next h).fresh
  | acceptLaunchBatch inputs batch uuids => exact (acceptLaunchBatch_next h).fresh
  | _ =>
    intro o ho
    cases ho

/-! ## The security audit and the launch intents -/

/-- The security audit grows, and the launch intents stay. -/
structure Quiet (s next : DurableState) : Prop where
  events : s.securityAuditEvents <+: next.securityAuditEvents
  intents : next.launchIntents = s.launchIntents

theorem Quiet.of_eq {s next : DurableState} (hevents : next.securityAuditEvents = s.securityAuditEvents)
    (hintents : next.launchIntents = s.launchIntents) : Quiet s next :=
  ⟨hevents ▸ List.prefix_rfl, hintents⟩

theorem Quiet.trans {s t u : DurableState} (h : Quiet s t) (h' : Quiet t u) : Quiet s u :=
  ⟨h.events.trans h'.events, h'.intents.trans h.intents⟩

theorem appendSecurityAuditToState_quiet {input : SecurityAuditInput} {uuid : String}
    {now : Timestamp} {s t : DurableState}
    (h : appendSecurityAuditToState env input uuid now s = .ok t) : Quiet s t := by
  obtain ⟨event, head, rfl⟩ := appendSecurityAuditToState_spec env h
  exact ⟨List.prefix_append _ _, rfl⟩

theorem appendOptionalAudit_quiet {audit : Option SecurityAuditInput} {uuid : String}
    {now : Timestamp} {s t : DurableState} (h : appendOptionalAudit env audit uuid now s = .ok t) :
    Quiet s t := by
  obtain ⟨events, head, rfl⟩ := appendOptionalAudit_spec env h
  exact ⟨List.prefix_append _ _, rfl⟩

theorem appendAudits_quiet {inputs : List LaunchInput} {uuids : List String} {s t : DurableState}
    (h : appendAudits env inputs uuids s = .ok t) : Quiet s t := by
  induction inputs generalizing uuids s with
  | nil =>
    cases h
    exact .of_eq rfl rfl
  | cons input inputs ih =>
    unfold appendAudits at h
    split at h
    · cases h
    · rename_i u hu
      exact (appendSecurityAuditToState_quiet hu).trans (ih h)

theorem acceptLaunch_quiet {input : LaunchInput} {batch : Batch} {uuid : String}
    {s next : DurableState} (h : (acceptLaunch env input batch uuid s).next = some next) :
    Quiet s next := by
  unfold acceptLaunch at h
  dsimp only at h
  split_ifs at h
  all_goals try cases h
  split at h
  · split_ifs at h <;> cases h
  · split at h
    · cases h
    · rename_i t ht
      obtain rfl := Option.some.inj h
      exact .trans (.of_eq (by rfl) (by rfl)) (appendSecurityAuditToState_quiet ht)

theorem acceptLaunchBatch_quiet {inputs : List LaunchInput} {batch : Batch} {uuids : List String}
    {s next : DurableState} (h : (acceptLaunchBatch env inputs batch uuids s).next = some next) :
    Quiet s next := by
  unfold acceptLaunchBatch at h
  dsimp only at h
  split_ifs at h
  all_goals try cases h
  split at h
  · cases h
  · rename_i t ht
    obtain rfl := Option.some.inj h
    exact .trans (.of_eq (by rfl) (by rfl)) (appendAudits_quiet ht)

theorem advanceLaunch_quiet {a : Assignment} {target : LaunchTarget} {event : LaunchAuditEvent}
    {existing : Option LaunchAuditEvent} {audit : Option SecurityAuditInput} {uuid : String}
    {s next : DurableState} (hs : (s.workers.map (·.id)).Nodup)
    (h : advanceLaunch env a target event existing audit uuid s = .ok next) : Quiet s next := by
  unfold advanceLaunch at h
  dsimp only [bind, Except.bind] at h
  cases hb : bindEventRun a.id a.sessionId event
      (s.putAssignment (advanceAssignment env target event a)) with
  | error e => rw [hb] at h; cases h
  | ok t =>
    rw [hb] at h
    dsimp only at h
    cases hf : failEventWorker env a.id a.sessionId target event t with
    | error e => rw [hf] at h; cases h
    | ok u =>
      rw [hf] at h
      have hs' : ((s.putAssignment (advanceAssignment env target event a)).workers.map
          (·.id)).Nodup := hs
      obtain ⟨hnodup, -, ht, -⟩ := bindEventRun_spec hs' hb
      obtain ⟨-, hu, -⟩ := failEventWorker_spec hnodup hf
      refine .trans (.of_eq ?_ ?_) (appendOptionalAudit_quiet h)
      · show u.securityAuditEvents = _
        rw [hu, ht]
        rfl
      · show u.launchIntents = _
        rw [hu, ht]
        rfl

theorem recordLaunchEvent_quiet {id : String} {target : LaunchTarget} {event : LaunchAuditEvent}
    {audit : Option SecurityAuditInput} {uuid : String} {s next : DurableState}
    (hs : (s.workers.map (·.id)).Nodup)
    (h : (recordLaunchEvent env id target event audit uuid s).next = some next) : Quiet s next := by
  obtain ⟨record, h⟩ := Body.exists_commit h
  obtain ⟨-, a, -, ⟨-, -, haudit, -⟩ | ⟨-, -, -, -, -, hadv, -⟩⟩ := recordLaunchEvent_inversion h
  · exact .trans (.of_eq (by rfl) (by rfl)) (appendOptionalAudit_quiet haudit)
  · exact advanceLaunch_quiet hs hadv

theorem Call.next_quiet {c : Call} {s next : DurableState} (hs : UniqueIdentities s)
    (hc : c.isIntent = false) (h : c.next env s = some next) : Quiet s next := by
  cases c with
  | createBatch name clientId assignments key now uuid =>
    unfold Call.next at h
    dsimp only at h
    split_ifs at h
    obtain ⟨session, batch, workers, -, rfl⟩ := createBatch_next h
    exact .of_eq rfl rfl
  | updateWorker workerId u =>
    unfold Call.next at h
    dsimp only at h
    split at h
    · cases h
    · obtain ⟨w, w', claim, hw, ha, rfl⟩ := updateWorker_next h
      exact .of_eq rfl rfl
  | recoverLifecycleDeliveryClaims =>
    obtain rfl := recoverLifecycleDeliveryClaims_next h
    exact .of_eq rfl rfl
  | recordWorkerResult workerId succeeded result completedAt =>
    obtain ⟨w, w', hw, hopen, hid, hrun, -, rfl⟩ := recordWorkerResult_next h
    exact .of_eq rfl rfl
  | reconcile alive now =>
    obtain rfl := Option.some.inj h
    exact .of_eq rfl rfl
  | reserveLaunch intent now => cases hc
  | updateLaunch key status runId diagnostic audit uuid now => cases hc
  | acceptLaunch input batch uuid => exact acceptLaunch_quiet h
  | acceptLaunchBatch inputs batch uuids => exact acceptLaunchBatch_quiet h
  | appendSecurityAudit input uuid now =>
    unfold Call.next Store.appendSecurityAudit at h
    dsimp only at h
    split at h
    · cases h
    · rename_i t ht
      obtain rfl := Option.some.inj h
      exact appendSecurityAuditToState_quiet ht
  | recordLaunchEvent id target event audit uuid => exact recordLaunchEvent_quiet hs.uniqueWorkers h
  | captureResult r =>
    obtain ⟨a, w, -, -, -, hw, rfl⟩ := captureResult_next h
    exact .of_eq rfl rfl

/-- What `updateLaunch` writes: an allowed transition of one intent, which keeps the run of a bound
one. -/
theorem updateLaunch_commit {key : String} {status : LaunchStatus} {runId diagnostic : Option String}
    {audit : Option SecurityAuditInput} {uuid : String} {now : Timestamp} {s next : DurableState}
    {value : LaunchIntent}
    (h : updateLaunch env key status runId diagnostic audit uuid now s = .commit value next) :
    ∃ intent, Keyed.lookup (·.idempotencyKey) key s.launchIntents = some intent ∧
      intentAllowed intent.status status = true ∧
      value = { intent with
        status := status, updatedAt := now, runId := runId.or intent.runId,
        diagnostic := (diagnostic.map env.redactText).or intent.diagnostic } ∧
      (intent.status = .bound → value.runId = intent.runId) ∧
      s.securityAuditEvents <+: next.securityAuditEvents ∧
      next.launchIntents = Keyed.put (·.idempotencyKey) value s.launchIntents := by
  unfold updateLaunch at h
  cases hi : Keyed.lookup (·.idempotencyKey) key s.launchIntents with
  | none => rw [hi] at h; cases h
  | some intent =>
    rw [hi] at h
    dsimp only at h
    split_ifs at h with hallowed hschema hrebound
    split at h
    · cases h
    · rename_i t ht
      obtain ⟨rfl, rfl⟩ := Body.commit.inj h
      have hquiet := appendOptionalAudit_quiet ht
      refine ⟨intent, rfl, Bool.of_not_eq_false hallowed, rfl, ?_, hquiet.events, hquiet.intents⟩
      intro hbound
      by_contra hne
      exact hrebound ⟨hbound, hne⟩

/-- **The security audit only grows.** -/
theorem Call.next_events {c : Call} {s next : DurableState} (hs : UniqueIdentities s)
    (h : c.next env s = some next) : s.securityAuditEvents <+: next.securityAuditEvents := by
  by_cases hc : c.isIntent = false
  · exact (Call.next_quiet hs hc h).events
  cases c with
  | reserveLaunch intent now =>
    obtain ⟨intents, rfl⟩ := reserveLaunch_next h
    exact List.prefix_rfl
  | updateLaunch key status runId diagnostic audit uuid now =>
    obtain ⟨value, hcommit⟩ := Body.exists_commit h
    obtain ⟨-, -, -, -, -, hevents, -⟩ := updateLaunch_commit hcommit
    exact hevents
  | _ => exact absurd rfl hc

theorem step_events (disk : Disk) (i : Call × WriteOutcome) :
    (contents disk).securityAuditEvents <+: (contents (step env disk i)).securityAuditEvents := by
  rcases step_cases env disk i.1 i.2 with e | ⟨next, hs, hn, -, e⟩
  · exact e.symm ▸ List.prefix_rfl
  · rw [e]
    exact Call.next_events hs.toUniqueIdentities hn

/-! ## Performing a body -/

/-- The file after a body is the file after the call whose next state it computes. -/
theorem perform_disk {α : Type} {body : DurableState → Body α} {c : Call}
    (hc : ∀ s, (body s).next = c.next env s) (io : WriteOutcome) (disk : Disk) :
    (perform env body io disk).1 = step env disk (c, io) := by
  unfold perform step
  cases hl : load env disk with
  | error e => rfl
  | ok s =>
    dsimp only
    rw [← hc s]
    cases body s with
    | reject error memory => rfl
    | reply value memory => rfl
    | commit value next => rfl

/-- A body that succeeds replied without a write, or its next state is on file. -/
theorem perform_ok {α : Type} {body : DurableState → Body α} {io : WriteOutcome} {disk : Disk}
    {value : α} (h : (perform env body io disk).2 = .ok value) :
    (∃ memory, body (contents disk) = .reply value memory) ∨
      ∃ next, StateSchema env (contents disk) ∧ body (contents disk) = .commit value next ∧
        StateSchema env next ∧ (perform env body io disk).1 = some next := by
  unfold perform at h ⊢
  cases hl : load env disk with
  | error e => rw [hl] at h; cases h
  | ok s =>
    obtain ⟨rfl, hs⟩ := load_eq env hl
    rw [hl] at h
    dsimp only at h ⊢
    cases hb : body (contents disk) with
    | reject error memory => rw [hb] at h; cases h
    | reply v memory =>
      rw [hb] at h
      obtain rfl := Except.ok.inj h
      exact Or.inl ⟨memory, rfl⟩
    | commit v next =>
      rw [hb] at h
      dsimp only at h ⊢
      cases hp : persist env io next disk with
      | mk disk' written =>
        rw [hp] at h
        cases written with
        | ok u =>
          obtain ⟨hv, -, rfl⟩ := persist_ok hp
          obtain rfl := Except.ok.inj h
          exact Or.inr ⟨next, hs, rfl, hv, rfl⟩
        | error e => cases h

/-- A body that replies leaves the file alone. -/
theorem perform_reply {α : Type} {body : DurableState → Body α} {disk : Disk} {value : α}
    {memory : DurableState} (h : body (contents disk) = .reply value memory) (io : WriteOutcome) :
    (perform env body io disk).1 = disk := by
  unfold perform
  cases hl : load env disk with
  | error e => rfl
  | ok s =>
    obtain ⟨rfl, -⟩ := load_eq env hl
    dsimp only
    rw [h]

end AgentOrchestrator.Store
