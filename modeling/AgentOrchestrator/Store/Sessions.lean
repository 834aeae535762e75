import AgentOrchestrator.Store.Changes

/-!
# Guarantees for a session over whole runs

The outcome of a worker is final once it is terminal, and a session has one execution identity:
the run of its worker, of its launched assignment and of its captured results is the same.
-/

namespace AgentOrchestrator.Store

variable {env : Env}

/-! ## Outcomes are final -/

theorem forward_step (disk : Disk) (i : Call × WriteOutcome) (h : Valid env disk) :
    Forward (contents disk).workers (contents (step env disk i)).workers := by
  rcases step_cases env disk i.1 i.2 with e | ⟨next, -, hn, -, e⟩
  · rw [show step env disk i = disk from e]
    exact .refl _
  · rw [show step env disk i = some next from e]
    exact Call.next_workers h.toUniqueIdentities hn

/-- The workers move forward along every run. -/
theorem forward_run {disk : Disk} (h : Valid env disk) (calls : List (Call × WriteOutcome)) :
    Forward (contents disk).workers (contents (Runs.run (step env) disk calls)).workers :=
  Runs.run_related (step env)
    (R := fun d d' => Forward (contents d).workers (contents d').workers)
    (fun _ => .refl _) Forward.trans (valid_step env) forward_step h calls

/-- A worker found by its identity is found in a later version after every run. -/
theorem later_run {disk : Disk} (h : Valid env disk) (calls : List (Call × WriteOutcome))
    {id : String} {w : Worker} (hw : (contents disk).worker? id = some w) :
    ∃ w', (contents (Runs.run (step env) disk calls)).worker? id = some w' ∧ w.Later w' := by
  obtain ⟨w', hw', hl⟩ := forward_run h calls w (Keyed.mem_of_lookup hw)
  have hid : w'.id = id := hl.id.trans (Keyed.key_of_lookup hw)
  have hfound := Keyed.lookup_of_mem (valid_run env h calls).uniqueWorkers hw'
  exact ⟨w', hid ▸ hfound, hl⟩

/-- **Terminal outcomes are final.** From every reachable state, no sequence of operations changes
the status, stop reason or completion time of a terminal worker. -/
theorem terminal_outcome_final {disk : Disk} (h : Reachable env disk)
    (calls : List (Call × WriteOutcome)) {id : String} {w : Worker}
    (hw : (contents disk).worker? id = some w) (ht : w.status.isTerminal = true) :
    ∃ w', (contents (Runs.run (step env) disk calls)).worker? id = some w' ∧
      w'.status = w.status ∧ w'.stopReason = w.stopReason ∧ w'.completedAt = w.completedAt := by
  obtain ⟨w', hw', hl⟩ := later_run h.valid calls hw
  have ho := hl.outcome ht
  exact ⟨w', hw', ho.status, ho.stopReason, ho.completedAt⟩

/-! ## A session on file -/

/-- An environment that accepts every timestamp and redacts nothing. -/
def plainEnv : Env where
  isoDatetime _ := true
  digest _ := genesisAuditHash
  localeCompare _ _ := .eq
  redactText := id
  auditField := id

def sampleAttribution : WorkerAttribution := { agent := "codex", task := "fix" }

def sampleAssignment : Assignment :=
  { id := "a1", idempotencyKey := "k1", requestFingerprint := genesisAuditHash, batchId := "b1",
    sessionId := "s1", status := .accepted, attribution := sampleAttribution, prompt := "p",
    workspaceId := some "w1", workspacePath := "/w", attemptId := some "t1", attempt := some 1,
    acceptedAt := "2026-01-01", updatedAt := "2026-01-01" }

/-- The launch of one assignment, as the launch service builds it. -/
def sampleInput : LaunchInput where
  assignment := sampleAssignment
  session := { id := "s1", clientId := "c1", createdAt := "2026-01-01", lastSeenAt := "2026-01-01" }
  worker := { id := "s1", batchId := "b1", sessionId := "s1", status := .requested,
              attribution := sampleAttribution, startedAt := "2026-01-01" }
  event := { id := "e1", assignmentId := "a1", type := .launchAccepted, occurredAt := "2026-01-01" }
  securityAudit := { requesterId := "r", operation := "launch", decision := .allowed,
                     reasonCode := "launch_accepted", correlationId := "a1",
                     assignmentId := some "a1" }

def sampleBatch : Batch :=
  { id := "b1", name := "n", sessionId := "s1", createdAt := "2026-01-01",
    updatedAt := "2026-01-01" }

/-- A call whose write completes. -/
def written (c : Call) : Call × WriteOutcome := (c, .written)

def acceptSample : Call × WriteOutcome := written (.acceptLaunch sampleInput sampleBatch "u1")

/-- A launch event of the sample assignment. -/
def sampleEvent (id : String) (target : LaunchTarget) (runId : Option String) :
    Call × WriteOutcome :=
  written (.recordLaunchEvent "a1" target
    { id := id, assignmentId := "a1", type := target.expectedType, occurredAt := "2026-01-02",
      runId := runId } none "u")

def sampleResult : CapturedResult :=
  { deliveryId := "d1", deliveryFingerprint := genesisAuditHash, assignmentId := "a1",
    batchId := "b1", sessionId := "s1", workspaceId := some "w1", workspacePath := "/w",
    attemptId := "t1", attempt := 1, runId := "run-1", attribution := sampleAttribution,
    claim := { status := .succeeded, completeness := .complete }, capturedAt := "2026-01-03" }

/-- The sample assignment is accepted and its launch begun. -/
def sampleLaunching : List (Call × WriteOutcome) :=
  [acceptSample, sampleEvent "e2" .launching none]

/-- The sample assignment is launched and its result captured. -/
def sampleCalls : List (Call × WriteOutcome) :=
  sampleLaunching ++ [sampleEvent "e3" .launched (some "run-1"),
    written (.captureResult sampleResult)]

/-- The sample calls offer the sample assignment only. -/
theorem offered_sampleCalls {i : Call × WriteOutcome} (hi : i ∈ sampleCalls)
    {o : Assignment × Worker} (ho : o ∈ i.1.offered plainEnv) :
    o ∈ acceptSample.1.offered plainEnv := by
  simp only [sampleCalls, sampleLaunching, List.cons_append, List.nil_append, List.mem_cons,
    List.not_mem_nil, or_false] at hi
  rcases hi with rfl | rfl | rfl | rfl
  · exact ho
  all_goals cases ho

/-- The state file after the sample session finished. -/
def sampleDisk : Disk := Runs.run (step plainEnv) none sampleCalls

/-- The sample worker succeeded; a later failure report leaves its outcome alone. -/
theorem terminal_outcome_final_sample : ∃ w,
    (contents sampleDisk).worker? "s1" = some w ∧ w.status.isTerminal = true ∧
    ∃ w', (contents (Runs.run (step plainEnv) sampleDisk [written (.updateWorker "s1"
        (.recordWorkerTerminal .failed none none "2026-01-04"))])).worker? "s1" = some w' ∧
      w'.status = w.status ∧ w'.stopReason = w.stopReason ∧ w'.completedAt = w.completedAt := by
  have hsome : ((contents sampleDisk).worker? "s1").any (fun w => w.status.isTerminal) = true := by
    decide +kernel
  obtain ⟨w, hw, ht⟩ := (Option.any_eq_true _ _).1 hsome
  exact ⟨w, hw, ht, terminal_outcome_final ⟨sampleCalls, rfl⟩ _ hw ht⟩

/-! ## One execution identity -/

/-- A launch enters the store as the launch service builds it: accepted and without a run. -/
def Entering (o : Assignment × Worker) : Prop := o.1.status = .accepted ∧ o.1.runId = none

/-- The run of an assignment is the run of the worker of its session, and a launched assignment
has one. -/
structure RunBound (workers : List Worker) (a : Assignment) : Prop where
  bound : ∀ r, a.runId = some r → ∃ w ∈ workers, w.id = a.sessionId ∧ w.runId = some r
  launched : a.status = .launched → a.runId ≠ none

theorem RunBound.forward {l l' : List Worker} {a : Assignment} (h : RunBound l a)
    (hl : Forward l l') : RunBound l' a := by
  refine ⟨fun r hr => ?_, h.launched⟩
  obtain ⟨w, hw, hid, hrun⟩ := h.bound r hr
  obtain ⟨w', hw', hlater⟩ := hl w hw
  exact ⟨w', hw', hlater.id.trans hid, hlater.runId r hrun⟩

theorem RunBound.entering {l : List Worker} {o : Assignment × Worker} (h : Entering o) :
    RunBound l o.1 := by
  refine ⟨fun r hr => ?_, fun hl => ?_⟩
  · rw [h.2] at hr
    cases hr
  · rw [h.1] at hl
    cases hl

/-- Every assignment of the state is bound. -/
def RunsBound (s : DurableState) : Prop := ∀ a ∈ s.assignments, RunBound s.workers a

/-- An event that starts an execution leaves its assignment with the run of the event. -/
theorem advanced_run_defined {s next : DurableState} {a : Assignment} {target : LaunchTarget}
    {event : LaunchAuditEvent} (hnext : StateSchema env next)
    (hconf : ∀ e, Keyed.lookup (·.id) event.id s.auditEvents = some e → e = event)
    (htype : event.type = target.expectedType) (hadv : Advanced env a target event s next)
    (htarget : target = .launched) : event.runId ≠ none := by
  have hstarted : event.type = .executionStarted := by rw [htype, htarget]; rfl
  -- The event, fresh or replayed, is on file afterwards, where the schema asks for its run.
  have hfile : ∃ e ∈ next.auditEvents, e.type = event.type ∧ e.runId = event.runId := by
    rw [hadv.auditEvents]
    unfold newEvents
    cases hold : Keyed.lookup (·.id) event.id s.auditEvents with
    | none => exact ⟨_, List.mem_append_right _ (List.mem_singleton_self _), rfl, rfl⟩
    | some e =>
      obtain rfl := hconf e hold
      exact ⟨e, List.mem_append_left _ (Keyed.mem_of_lookup hold), rfl, rfl⟩
  obtain ⟨e, he, hty, hrun⟩ := hfile
  obtain ⟨b, -, -, hb⟩ := hnext.auditEventAssignment e he
  rw [← hrun]
  exact (hb (hty.trans hstarted)).1

theorem RunBound.advanced {s next : DurableState} {a : Assignment} {target : LaunchTarget}
    {event : LaunchAuditEvent} (h : RunBound s.workers a)
    (hadv : Advanced env a target event s next)
    (hrun : target = .launched → event.runId ≠ none) :
    RunBound next.workers (advanceAssignment env target event a) := by
  refine ⟨fun r hr => ?_, fun hl => ?_⟩
  · cases he : event.runId with
    | some r' =>
      have hr' : event.runId.or a.runId = some r := hr
      rw [he] at hr'
      obtain rfl := Option.some.inj hr'
      exact hadv.bound r' he
    | none =>
      have hr' : event.runId.or a.runId = some r := hr
      rw [he] at hr'
      exact (h.forward hadv.workers).bound r hr'
  · have htarget : target = .launched := by
      cases target with
      | launching => cases hl
      | launched => rfl
      | failed => cases hl
    obtain ⟨r, hr⟩ := Option.ne_none_iff_exists'.1 (hrun htarget)
    show event.runId.or a.runId ≠ none
    rw [hr]
    exact Option.some_ne_none r

/-- One call keeps the assignments bound. -/
theorem RunsBound.next {c : Call} {s next : DurableState} (hs : StateSchema env s)
    (hnext : StateSchema env next) (hc : ∀ o ∈ c.offered env, Entering o)
    (hn : c.next env s = some next) (h : RunsBound s) : RunsBound next := by
  have hforward := Call.next_workers hs.toUniqueIdentities hn
  by_cases hev : c.isLaunchEvent = true
  · cases c <;> try cases hev
    rename_i id target event audit uuid
    obtain ⟨-, a, ha, ⟨-, -, hr⟩ | ⟨-, -, htype, hconf, -, hadv⟩⟩ :=
      recordLaunchEvent_next hs.uniqueWorkers hn
    · have ha' := h a (Keyed.mem_of_lookup ha)
      intro b hb
      rw [hr.assignments] at hb
      rcases Keyed.mem_put hb with rfl | ⟨hb, -⟩
      · refine ⟨(ha'.forward hforward).bound, fun hl => ?_⟩
        cases hl
      · exact (h b hb).forward hforward
    · have ha' := h a (Keyed.mem_of_lookup ha)
      intro b hb
      rw [hadv.assignments] at hb
      rcases Keyed.mem_put hb with rfl | ⟨hb, -⟩
      · exact ha'.advanced hadv (advanced_run_defined hnext hconf htype hadv)
      · exact (h b hb).forward hforward
  · intro b hb
    rw [Call.next_assignments (Bool.eq_false_iff.2 hev) hn] at hb
    rcases List.mem_append.1 hb with hb | hb
    · exact (h b hb).forward hforward
    · obtain ⟨o, ho, rfl⟩ := List.mem_map.1 hb
      exact .entering (hc o ho)

/-- In every run whose launches enter as the launch service builds them, the assignments are
bound. -/
theorem runsBound_run {calls : List (Call × WriteOutcome)}
    (h : ∀ i ∈ calls, ∀ o ∈ i.1.offered env, Entering o) :
    RunsBound (contents (Runs.run (step env) none calls)) := by
  refine (Runs.run_invariant_of (step env)
    (P := fun d => Valid env d ∧ RunsBound (contents d)) ?_ ⟨valid_none env, ?_⟩
    (Runs.admissible_of_forall (step env) h none)).2
  · intro disk i hd hi
    refine ⟨valid_step env disk i hd.1, ?_⟩
    rcases step_cases env disk i.1 i.2 with e | ⟨next, hs, hn, hnext, e⟩
    · rw [show step env disk i = disk from e]
      exact hd.2
    · rw [show step env disk i = some next from e]
      exact hd.2.next hs hnext hi hn
  · intro a ha
    cases ha

/-- The worker of a bound assignment, found by the identity of its session. -/
theorem RunBound.worker {s : DurableState} (hs : StateSchema env s) {a : Assignment}
    (h : RunBound s.workers a) {r : String} (hr : a.runId = some r) :
    ∃ w, s.worker? a.sessionId = some w ∧ w.runId = some r := by
  obtain ⟨w, hw, hid, hrun⟩ := h.bound r hr
  exact ⟨w, hid ▸ Keyed.lookup_of_mem hs.uniqueWorkers hw, hrun⟩

/-- **One execution identity per session.** The run of a worker never changes once it is written;
a launched assignment has the run of its worker, and so has every captured result. -/
theorem one_execution_identity {calls : List (Call × WriteOutcome)}
    (h : ∀ i ∈ calls, ∀ o ∈ i.1.offered env, Entering o) :
    (∀ later id w r, (contents (Runs.run (step env) none calls)).worker? id = some w →
      w.runId = some r →
      ∃ w', (contents (Runs.run (step env) none (calls ++ later))).worker? id = some w' ∧
        w'.runId = some r) ∧
    (∀ a ∈ (contents (Runs.run (step env) none calls)).assignments, a.status = .launched →
      ∃ w r, (contents (Runs.run (step env) none calls)).worker? a.sessionId = some w ∧
        a.runId = some r ∧ w.runId = some r) ∧
    (∀ res ∈ (contents (Runs.run (step env) none calls)).capturedResults,
      ∃ w, (contents (Runs.run (step env) none calls)).worker? res.sessionId = some w ∧
        w.runId = some res.runId) := by
  have hvalid := valid_run env (valid_none env) calls
  have hbound := runsBound_run h
  refine ⟨?_, ?_, ?_⟩
  · intro later id w r hw hr
    obtain ⟨w', hw', hl⟩ := later_run hvalid later hw
    rw [Runs.run_append]
    exact ⟨w', hw', hl.runId r hr⟩
  · intro a ha hl
    obtain ⟨r, hr⟩ := Option.ne_none_iff_exists'.1 ((hbound a ha).launched hl)
    obtain ⟨w, hw, hrun⟩ := (hbound a ha).worker hvalid hr
    exact ⟨w, r, hw, hr, hrun⟩
  · intro res hres
    obtain ⟨a, ha, hm⟩ := hvalid.resultIdentity res hres
    obtain ⟨-, -, -, hsession, hrunId, -⟩ := hm
    obtain ⟨w, hw, hrun⟩ := (hbound a ha).worker hvalid hrunId.symm
    rw [hsession]
    exact ⟨w, hw, hrun⟩

theorem one_execution_identity_sample : (contents sampleDisk).capturedResults = [sampleResult] ∧
    ∃ w, (contents sampleDisk).worker? sampleResult.sessionId = some w ∧
      w.runId = some sampleResult.runId := by
  have hres : (contents sampleDisk).capturedResults = [sampleResult] := by decide +kernel
  have hentry : ∀ i ∈ sampleCalls, ∀ o ∈ i.1.offered plainEnv, Entering o := by
    intro i hi o ho
    obtain rfl := List.mem_singleton.1 (offered_sampleCalls hi ho)
    exact ⟨rfl, rfl⟩
  refine ⟨hres, (@one_execution_identity plainEnv sampleCalls hentry).2.2 sampleResult ?_⟩
  show sampleResult ∈ (contents sampleDisk).capturedResults
  rw [hres]
  exact List.mem_singleton_self _

end AgentOrchestrator.Store
