import AgentOrchestrator.Launch.FailedLaunch
import AgentOrchestrator.Lifecycle.Invariant

/-!
# Stop intent after a deadline

A session that fails by its deadline while it is bound to a run leaves something that pursues the
stop of the run: a flag of the worker, an acknowledged stop call whose delivery was recorded, or a
terminal observation of the provider.  The flags are handed over between the cancellation path, the
deadline path, late launch binding, delayed releases and recovery, and no hand-over loses the intent
(`stop_intent_kept`), also when writes fail.
-/

namespace AgentOrchestrator.Lifecycle

open Store

variable {env : Env}

/-! ## Stop intent -/

/-- The session failed by its deadline. -/
def TimedOut (w : Worker) : Prop :=
  w.status = .failed ∧ w.stopReason = some "deadline_exceeded"

/-- A terminal observation of the provider is on file for the worker. -/
def Observed (w : Worker) : Prop := w.lateObservations.getD [] ≠ []

/-- The provider acknowledged a stop call for the run, after which `markProviderStopDelivered` was
recorded for the session. -/
def StopDelivered (events : List Event) (sessionId runId : String) : Prop :=
  ∃ before after, events = before ++ .stopRecorded sessionId :: after ∧
    .acknowledged runId ∈ before

/-- Something pursues the stop of the run. -/
def Pursues (events : List Event) (w : Worker) (runId : String) : Prop :=
  raised w.providerStopPending = true ∨ raised w.providerStopClaimed = true ∨
    raised w.cancellationDeliveryClaimed = true ∨ raised w.cancellationDelivered = true ∨
    raised w.providerStopUnsupported = true ∨ StopDelivered events w.id runId ∨ Observed w

theorem StopDelivered.append {events : List Event} {sessionId runId : String}
    (h : StopDelivered events sessionId runId) (later : List Event) :
    StopDelivered (events ++ later) sessionId runId := by
  obtain ⟨before, after, rfl, hack⟩ := h
  exact ⟨before, after ++ later, by rw [List.append_assoc, List.cons_append], hack⟩

/-- What holds of every worker on file. -/
structure Pursued (events : List Event) (w : Worker) : Prop where
  stop : TimedOut w → ∀ r, w.runId = some r → Pursues events w r
  result : w.status.isTerminal = false → w.result = none
  late : TimedOut w → Observed w ∨ w.result = none

section
variable {events : List Event} {w w' : Worker}

theorem Pursued.append (h : Pursued events w) (later : List Event) :
    Pursued (events ++ later) w := by
  refine ⟨fun ht r hr => ?_, h.result, h.late⟩
  rcases h.stop ht r hr with hp | hp | hp | hp | hp | hp | hp
  · exact Or.inl hp
  · exact Or.inr (Or.inl hp)
  · exact Or.inr (Or.inr (Or.inl hp))
  · exact Or.inr (Or.inr (Or.inr (Or.inl hp)))
  · exact Or.inr (Or.inr (Or.inr (Or.inr (Or.inl hp))))
  · exact Or.inr (Or.inr (Or.inr (Or.inr (Or.inr (Or.inl (hp.append later))))))
  · exact Or.inr (Or.inr (Or.inr (Or.inr (Or.inr (Or.inr hp)))))

theorem terminal_of_timedOut (h : TimedOut w) : w.status.isTerminal = true := by
  rw [h.1]
  rfl

/-- A worker that did not fail by its deadline needs no stop. -/
theorem Pursued.of_not_timedOut (h : ¬ TimedOut w) (hresult : w.status.isTerminal = false →
    w.result = none) : Pursued events w :=
  ⟨fun ht => absurd ht h, hresult, fun ht => absurd ht h⟩

/-- A change of flags that leaves something in pursuit. -/
theorem Pursued.of_flags (h : Pursued events w) (hstatus : w'.status = w.status)
    (hreason : w'.stopReason = w.stopReason) (hrun : w'.runId = w.runId)
    (hresult : w'.result = w.result) (hlate : w'.lateObservations = w.lateObservations)
    (hstop : TimedOut w → ∀ r, w.runId = some r → Pursues events w r → Pursues events w' r) :
    Pursued events w' := by
  have hiff : TimedOut w' ↔ TimedOut w := by
    unfold TimedOut
    rw [hstatus, hreason]
  refine ⟨fun ht r hr => ?_, fun ht => ?_, fun ht => ?_⟩
  · rw [hrun] at hr
    exact hstop (hiff.1 ht) r hr (h.stop (hiff.1 ht) r hr)
  · rw [hstatus] at ht
    rw [hresult]
    exact h.result ht
  · unfold Observed
    rw [hresult, hlate]
    exact h.late (hiff.1 ht)

/-! ## The methods of the store -/

theorem pursued_requestWorkerCancellation (h : Pursued events w) (s : DurableState)
    (reason : String) (detail : Option String) (now : Timestamp) :
    Pursued events (requestWorkerCancellation s reason detail now w).1 := by
  unfold requestWorkerCancellation
  split_ifs with hdone hlocal
  · exact h
  · exact .of_not_timedOut (fun ht => nomatch ht.1) nofun
  · refine .of_not_timedOut (fun ht => nomatch ht.1) fun _ => h.result ?_
    exact Bool.eq_false_iff.2 fun ht => hdone (Or.inl ht)

theorem pursued_claimCancellationDelivery (h : Pursued events w) :
    Pursued events (claimCancellationDelivery w).1 := by
  unfold claimCancellationDelivery
  split_ifs
  · exact h
  · exact h.of_flags rfl rfl rfl rfl rfl fun _ _ _ _ => Or.inr (Or.inr (Or.inl rfl))

theorem pursued_releaseCancellationDelivery (h : Pursued events w) :
    Pursued events (releaseCancellationDelivery w) := by
  unfold releaseCancellationDelivery
  dsimp only
  split_ifs with hcanceling hlate
  · refine h.of_flags rfl rfl rfl rfl rfl fun ht => ?_
    rw [ht.1] at hcanceling
    cases hcanceling
  · exact h.of_flags rfl rfl rfl rfl rfl fun _ _ _ _ => Or.inl rfl
  · refine h.of_flags rfl rfl rfl rfl rfl fun ht r hr => ?_
    exact absurd ⟨ht.1, ht.2, by rw [hr]; exact Option.some_ne_none r⟩ hlate

theorem pursued_handleUnsupportedCancellation (h : Pursued events w) :
    Pursued events (handleUnsupportedCancellation w) := by
  unfold handleUnsupportedCancellation
  dsimp only
  split_ifs with hlate hcanceling
  · exact h.of_flags rfl rfl rfl rfl rfl fun _ _ _ _ =>
      Or.inr (Or.inr (Or.inr (Or.inr (Or.inl rfl))))
  · refine .of_not_timedOut (fun ht => nomatch ht.2) fun _ => h.result ?_
    rw [hcanceling]
    rfl
  · exact h.of_flags rfl rfl rfl rfl rfl fun ht => absurd ht hlate

theorem pursued_claimProviderStop (h : Pursued events w) :
    Pursued events (claimProviderStop w).1 := by
  unfold claimProviderStop
  split_ifs
  · exact h
  · exact h.of_flags rfl rfl rfl rfl rfl fun _ _ _ _ => Or.inr (Or.inl rfl)

theorem pursued_releaseProviderStop (h : Pursued events w) :
    Pursued events (releaseProviderStop w) := by
  unfold releaseProviderStop
  dsimp only
  split_ifs with hrun
  · exact h.of_flags rfl rfl rfl rfl rfl fun _ _ _ _ => Or.inl rfl
  · refine h.of_flags rfl rfl rfl rfl rfl fun _ r hr => absurd ?_ hrun
    rw [hr]
    exact Option.some_ne_none r

theorem observed_append (o : LateObservation) (w : Worker) :
    Observed (appendLateObservation o w) := by
  unfold Observed appendLateObservation maxLateObservations
  dsimp only [Option.getD_some]
  intro hnil
  have hlength := congrArg List.length hnil
  rw [List.length_drop, List.length_append] at hlength
  simp only [List.length_singleton, List.length_nil] at hlength
  omega

/-- The provider's terminal observation is recorded on a session that failed by its deadline. -/
theorem observed_settle (h : Pursued events w) (ht : TimedOut w) {status : TerminalWorkerStatus}
    {result : Option Json} (hresult : result.isSome = true) (reason : Option String)
    (now : Timestamp) (keep : Bool) :
    Observed (settleWorkerCancellation status result reason now keep w).1 := by
  unfold settleWorkerCancellation
  rw [if_pos (terminal_of_timedOut ht)]
  dsimp only
  rcases h.late ht with hlate | hnone
  · split_ifs
    all_goals first | exact observed_append _ _ | exact hlate
  · have hretained : (result.isSome && w.result.isNone) = true := by
      rw [hresult, hnone]
      rfl
    rw [if_pos (Or.inl hretained), if_pos (Or.inl hretained)]
    exact observed_append _ _

theorem pursued_settleWorkerCancellation (h : Pursued events w) {status : TerminalWorkerStatus}
    (hstatus : status ≠ .unknownOutcome) {result : Option Json} (hresult : result.isSome = true)
    {reason : Option String} (hreason : reason ≠ some "deadline_exceeded") (now : Timestamp)
    (keep : Bool) : Pursued events (settleWorkerCancellation status result reason now keep w).1 := by
  by_cases ht : TimedOut w
  · have hobserved : Observed (settleWorkerCancellation status result reason now keep w).1 :=
      observed_settle h ht hresult reason now keep
    refine ⟨fun _ _ _ => ?_, fun hopen => ?_, fun _ => Or.inl hobserved⟩
    · exact Or.inr (Or.inr (Or.inr (Or.inr (Or.inr (Or.inr hobserved)))))
    · have hfinal := ((later_settleWorkerCancellation status result reason now keep w).outcome
        (terminal_of_timedOut ht)).status
      rw [hfinal, terminal_of_timedOut ht] at hopen
      cases hopen
  · by_cases hterm : w.status.isTerminal = true
    · have hfinal := (later_settleWorkerCancellation status result reason now keep w).outcome hterm
      refine .of_not_timedOut (fun ht' => ht ⟨?_, ?_⟩) fun hopen => ?_
      · rw [← hfinal.status]
        exact ht'.1
      · rw [← hfinal.stopReason]
        exact ht'.2
      · rw [hfinal.status, hterm] at hopen
        cases hopen
    · unfold settleWorkerCancellation
      rw [if_neg hterm]
      by_cases hcanceling : w.status = .canceling
      · rw [if_pos hcanceling]
        refine .of_not_timedOut ?_ ?_
        · -- A failure the provider reports has another stop reason.
          rintro ⟨hfailed, hdeadline⟩
          cases status with
          | failed =>
            cases reason with
            | none =>
              have hother : some "execution_error" = some "deadline_exceeded" := hdeadline
              exact absurd hother (by decide)
            | some r => exact hreason hdeadline
          | _ => cases hfailed
        · intro hopen
          cases status with
          | unknownOutcome => exact absurd rfl hstatus
          | _ => cases hopen
      · rw [if_neg hcanceling]
        exact h

theorem pursued_expireWorker (h : Pursued events w) (s : DurableState) (deadline : Option Timestamp)
    (now : Timestamp) : Pursued events (expireWorker s deadline now w).1 := by
  unfold expireWorker
  dsimp only
  split
  · exact h.of_flags rfl rfl rfl rfl rfl fun _ _ _ hp => hp
  rename_i hdone
  have hopen : w.status.isTerminal = false := Bool.eq_false_iff.2 fun ht => hdone (Or.inl ht)
  split
  · refine ⟨fun _ r hr => ?_, nofun, fun _ => Or.inr (h.result hopen)⟩
    by_cases hclaimed : raised w.cancellationDeliveryClaimed = true
    · refine Or.inr (Or.inr (Or.inl ?_))
      show raised (if raised w.cancellationDeliveryClaimed = true then w.cancellationDeliveryClaimed
        else none) = true
      rw [if_pos hclaimed]
      exact hclaimed
    by_cases hdelivered : raised w.cancellationDelivered = true
    · exact Or.inr (Or.inr (Or.inr (Or.inl hdelivered)))
    · refine Or.inl ?_
      show raised (if _ ∧ _ then some true else w.providerStopPending) = true
      rw [if_pos ⟨Bool.eq_false_iff.2 hclaimed, Bool.eq_false_iff.2 hdelivered⟩]
      rfl
  · rename_i hunbound
    refine ⟨fun _ r hr => absurd (Or.inl ?_) hunbound, nofun, fun _ => Or.inr (h.result hopen)⟩
    rw [show w.runId = some r from hr]
    exact Option.some_ne_none r

theorem pursued_recoverCancellation (h : Pursued events w) :
    Pursued events (recoverCancellation w) := by
  unfold recoverCancellation
  split
  swap
  · exact h
  dsimp only
  by_cases hunknown : w.status = .unknownOutcome
  · have hnone := h.result (by rw [hunknown]; rfl)
    rw [if_pos hunknown]
    split_ifs
    all_goals exact .of_not_timedOut (fun ht => nomatch ht.1) fun _ => hnone
  · rw [if_neg hunknown]
    dsimp only
    split
    · rename_i hopen
      refine h.of_flags rfl rfl rfl rfl rfl fun ht => ?_
      rw [terminal_of_timedOut ht] at hopen
      cases hopen.2
    split
    · exact h.of_flags rfl rfl rfl rfl rfl fun _ _ _ _ => Or.inl rfl
    · rename_i hlate
      refine h.of_flags rfl rfl rfl rfl rfl fun ht r hr => ?_
      exact absurd ⟨by rw [hr]; exact Option.some_ne_none r, ht.1, ht.2⟩ hlate

theorem pursued_recoverDeliveryClaim (h : Pursued events w) :
    Pursued events (recoverDeliveryClaim w) := by
  have hcancellation := pursued_recoverCancellation h
  rw [recoverDeliveryClaim_eq]
  split
  · dsimp only
    split
    · exact hcancellation.of_flags rfl rfl rfl rfl rfl fun _ _ _ _ => Or.inl rfl
    · rename_i hunbound
      refine hcancellation.of_flags rfl rfl rfl rfl rfl fun _ r hr => absurd ?_ hunbound
      rw [hr]
      exact Option.some_ne_none r
  · exact hcancellation

theorem pursued_bindLaunchedRun (h : Pursued events w) (runId : String) :
    Pursued events (bindLaunchedRun runId w) := by
  unfold bindLaunchedRun
  split
  · exact ⟨fun _ _ _ => Or.inl rfl, h.result, h.late⟩
  · rename_i hopen
    refine .of_not_timedOut (fun ht => hopen (terminal_of_timedOut ht)) fun _ => h.result ?_
    exact Bool.eq_false_iff.2 hopen

/-- A failed launch drops the flags of its session, which has no run. -/
theorem pursued_failLaunchedWorker (h : Pursued events w) (hrun : w.runId = none)
    (event : LaunchAuditEvent) : Pursued events (failLaunchedWorker env event w) := by
  unfold failLaunchedWorker
  by_cases hterm : w.status.isTerminal = true
  · rw [if_pos hterm]
    refine ⟨fun _ r hr => ?_, h.result, h.late⟩
    cases hrun.symm.trans hr
  · rw [if_neg hterm]
    refine .of_not_timedOut (fun ht => ?_) nofun
    have hother : some "launch_error" = some "deadline_exceeded" := ht.2
    exact absurd hother (by decide)

theorem pursued_launchedWorker (h : Pursued events w) {target : LaunchTarget}
    {event : LaunchAuditEvent} (hfailed : target = .failed → event.runId = none ∧ w.runId = none) :
    Pursued events (launchedWorker env target event w) := by
  unfold launchedWorker
  by_cases htarget : target = .failed
  · obtain ⟨hevent, hrun⟩ := hfailed htarget
    rw [hevent]
    dsimp only
    rw [if_pos htarget]
    exact pursued_failLaunchedWorker h hrun event
  · dsimp only
    rw [if_neg htarget]
    cases event.runId with
    | none => exact h
    | some runId => exact pursued_bindLaunchedRun h runId

theorem pursued_settleCaptured (h : Pursued events w) (r : CapturedResult) :
    Pursued events (settleCaptured r w) := by
  unfold settleCaptured
  split
  · exact h
  · refine .of_not_timedOut (fun ht => ?_) fun hopen => ?_
    · have hreason := ht.2
      dsimp only at hreason
      cases hstatus : r.claim.status <;> rw [hstatus] at hreason <;>
        exact absurd hreason (by decide)
    · dsimp only at hopen
      cases hstatus : r.claim.status <;> rw [hstatus] at hopen <;> cases hopen

/-! ## Calls -/

/-- The call leaves something in pursuit of every stop.  A delivered stop is left out: it is the
events that keep its intent. -/
def Preserving (s : DurableState) : Call → Prop
  | .updateWorker _ u =>
    match u with
    | .bindWorkerRun .. | .clearWorkerCancellation | .recordWorkerTerminal ..
    | .markProviderStopDelivered => False
    | .settleWorkerCancellation status result reason _ _ =>
      status ≠ .unknownOutcome ∧ result.isSome = true ∧ reason ≠ some "deadline_exceeded"
    | _ => True
  | .recordWorkerResult .. => False
  | .recordLaunchEvent id target event _ _ => target = .failed → event.runId = none ∧
      ∀ a, s.assignment? id = some a → launchAllowed a.status target = true →
        ∀ w ∈ s.workers, w.id = a.sessionId → w.runId = none
  | _ => True

theorem pursued_apply (h : Pursued events w) {s : DurableState} {u : WorkerUpdate}
    {workerId : String} (hu : Preserving s (.updateWorker workerId u))
    {claim : CancellationClaim} (happly : u.apply s w = .ok (w', claim)) : Pursued events w' := by
  cases u with
  | bindWorkerRun runId execution => exact hu.elim
  | setWorkerDeadline deadline =>
    obtain ⟨v, hv, e⟩ := map_ok happly
    cases e
    unfold setWorkerDeadline at hv
    split_ifs at hv
    obtain rfl := Except.ok.inj hv
    exact h.of_flags rfl rfl rfl rfl rfl fun _ _ _ hp => hp
  | requestWorkerCancellation reason detail now =>
    have e : (requestWorkerCancellation s reason detail now w).1 = w' :=
      congrArg Prod.fst (Except.ok.inj happly)
    exact e ▸ pursued_requestWorkerCancellation h s reason detail now
  | claimCancellationDelivery => cases happly; exact pursued_claimCancellationDelivery h
  | releaseCancellationDelivery => cases happly; exact pursued_releaseCancellationDelivery h
  | markCancellationDelivered =>
    cases happly
    exact h.of_flags rfl rfl rfl rfl rfl fun _ _ _ _ => Or.inr (Or.inr (Or.inr (Or.inl rfl)))
  | markProviderStopDelivered => exact hu.elim
  | markProviderStopUnsupported =>
    cases happly
    exact h.of_flags rfl rfl rfl rfl rfl fun _ _ _ _ =>
      Or.inr (Or.inr (Or.inr (Or.inr (Or.inl rfl))))
  | handleUnsupportedCancellation => cases happly; exact pursued_handleUnsupportedCancellation h
  | claimProviderStop => cases happly; exact pursued_claimProviderStop h
  | releaseProviderStop => cases happly; exact pursued_releaseProviderStop h
  | clearWorkerCancellation => exact hu.elim
  | recordWorkerTerminal status result reason now => exact hu.elim
  | settleWorkerCancellation status result reason now keep =>
    cases happly
    exact pursued_settleWorkerCancellation h hu.1 hu.2.1 hu.2.2 now keep
  | expireWorker deadline now => cases happly; exact pursued_expireWorker h s deadline now

theorem Pursued.rewritten (h : Pursued events w) {s : DurableState} {c : Call}
    (hc : Preserving s c) (hw : w ∈ s.workers) (hrewrites : Rewrites env s c w w') :
    Pursued events w' := by
  cases hrewrites with
  | same => exact h
  | updated hvalid happly => exact pursued_apply h hc happly
  | recovered => exact pursued_recoverDeliveryClaim h
  | resulted hopen => exact hc.elim
  | reconciled =>
    unfold reconcileWorker
    split
    · rename_i hrunning
      refine .of_not_timedOut (fun ht => nomatch ht.1) fun _ => h.result ?_
      rw [hrunning.1]
      rfl
    · exact h
  | launched ha hsession hover hallowed hrun =>
    refine pursued_launchedWorker h fun hfailed => ?_
    obtain ⟨hevent, hunbound⟩ := hc hfailed
    exact ⟨hevent, hunbound _ ha hallowed w hw hsession.symm⟩
  | captured ha hstatus hsession => exact pursued_settleCaptured h _

theorem Fresh.pursued (h : Fresh w) : Pursued events w := by
  have hstatus : w.status = .requested := congrArg Worker.status h
  have hresult : w.result = none := congrArg Worker.result h
  refine .of_not_timedOut (fun ht => ?_) fun _ => hresult
  cases hstatus.symm.trans ht.1

end

/-! ## Steps -/

/-- A call of a dispatch leaves something in pursuit: a launch that fails is pending, so its session
has no run. -/
theorem preserving_dispatch {sys : System} (h : Steady env sys) {pc : Launch.Pc}
    {input : Launch.Input} {i : Call × WriteOutcome} (hi : pc.storeCall env input = some i) :
    Preserving (contents sys.disk) i.1 := by
  have hunbound : ∀ {id : String} {target : LaunchTarget}, ∀ a,
      (contents sys.disk).assignment? id = some a → launchAllowed a.status target = true →
        ∀ w ∈ (contents sys.disk).workers, w.id = a.sessionId → w.runId = none := by
    intro id target a ha hallowed w hw hid
    exact unbound_of_allowed h ha hallowed hw hid
  cases pc <;> cases input <;> cases hi
  case failingRefused.store => exact fun _ => ⟨rfl, hunbound⟩
  case failing.store => exact fun _ => ⟨rfl, hunbound⟩
  all_goals first | trivial | exact fun hfailed => nomatch hfailed

theorem preserving_stop (s : DurableState) (workerId : String) (caller : Caller) :
    Preserving s (.updateWorker workerId caller.claim) ∧
      Preserving s (.updateWorker workerId caller.reject) ∧
      Preserving s (.updateWorker workerId caller.release) ∧
      (caller.delivers = true → Preserving s (.updateWorker workerId caller.deliver)) := by
  cases caller <;> exact ⟨trivial, trivial, trivial, fun h => by trivial⟩

/-- Every call of a step leaves something in pursuit, except for a delivered stop. -/
theorem Issues.preserving {sys : System} (h : Steady env sys) {act : Act}
    {i : Call × WriteOutcome} (hi : Issues env sys act i) :
    Preserving (contents sys.disk) i.1 ∨
      ∃ t now io x, act = .resume t (.store now io) ∧ sys.tasks t = some (.acknowledged x) ∧
        x.caller.delivers = false ∧ i = (.updateWorker x.sessionId .markProviderStopDelivered, io) := by
  cases hi with
  | @other c io hother hfresh hc =>
    refine Or.inl ?_
    cases c with
    | updateWorker id u =>
      cases u with
      | setWorkerDeadline deadline => trivial
      | _ => cases hother
    | recordWorkerResult id succeeded result completedAt => cases hother
    | recordLaunchEvent id target event audit uuid => cases hother
    | _ => trivial
  | dispatched hf hi => exact Or.inl (preserving_dispatch h hi)
  | expired => exact Or.inl trivial
  | @resumed t input pc c io ht hi hasks =>
    cases hasks with
    | requested => exact Or.inl trivial
    | claimed => exact Or.inl (preserving_stop _ _ _).1
    | rejected => exact Or.inl (preserving_stop _ _ _).2.1
    | released => exact Or.inl (preserving_stop _ _ _).2.2.1
    | @settled x observed =>
      refine Or.inl ⟨?_, rfl, ?_⟩
      · cases observed <;> exact nofun
      · cases observed <;> decide
    | @delivered x =>
      cases hd : x.caller.delivers with
      | true => exact Or.inl ((preserving_stop _ _ x.caller).2.2.2 hd)
      | false =>
        cases input with
        | store now io' =>
          obtain ⟨-, rfl⟩ := Prod.mk.inj (Option.some.inj hi)
          refine Or.inr ⟨t, now, _, x, rfl, ht, hd, ?_⟩
          unfold Caller.deliver
          rw [hd]
          rfl
        | _ => cases hi
  | released ht => exact Or.inl (preserving_stop _ _ _).2.2.1
  | recovered => exact Or.inl trivial

/-- The events only grow. -/
theorem step_events (sys : System) (act : Act) :
    ∃ later, (step env sys act).events = sys.events ++ later := by
  have hmoves := @step_moves env sys act
  generalize step env sys act = sys' at hmoves ⊢
  cases hmoves with
  | resumed ht => exact ⟨_, rfl⟩
  | _ => exact ⟨[], (List.append_nil _).symm⟩

/-- A task that records a stop has seen its acknowledgement. -/
theorem resume_acknowledged {pc : Pc} {input : Input} {disk : Disk} {x : Stop}
    (h : (pc.resume env disk input).pc = some (.acknowledged x)) :
    pc = .acknowledged x ∨ .acknowledged x.runId ∈ (pc.resume env disk input).events := by
  have hcontinues := resume_continues h
  clear h
  cases hcontinues with
  | waiting => exact Or.inl rfl
  | acknowledged => exact Or.inr (List.mem_singleton_self _)

/-! ## Runs -/

/-- **The invariant behind stop intent.** -/
structure Intent (sys : System) : Prop where
  workers : ∀ w ∈ (contents sys.disk).workers, Pursued sys.events w
  acknowledged : ∀ t x, sys.tasks t = some (.acknowledged x) →
    .acknowledged x.runId ∈ sys.events

theorem intent_acknowledged {sys : System} (h : Intent sys) (act : Act) {t : ℕ} {x : Stop}
    (ht : (step env sys act).tasks t = some (.acknowledged x)) :
    .acknowledged x.runId ∈ (step env sys act).events := by
  obtain ⟨later, hevents⟩ := @step_events env sys act
  rcases task_origin ht with ⟨hold, -⟩ | ⟨supported, sessionId, reason, detail, e⟩ |
      ⟨k, sw, w, supported, -, -, hopen⟩ | ⟨input, pc, rfl, hpc, hnext⟩
  · rw [hevents]
    exact List.mem_append_left _ (h.acknowledged t x hold)
  · cases e
  · obtain ⟨-, -, e | e⟩ := stop_opening hopen rfl <;> cases e
  · rcases resume_acknowledged hnext with rfl | hnew
    · rw [hevents]
      exact List.mem_append_left _ (h.acknowledged t x hpc)
    · rw [step_resume hpc]
      exact List.mem_append_right _ hnew

/-- A delivered stop is recorded among the events. -/
theorem intent_delivered {sys : System} (hs : Steady env sys) (h : Intent sys) {t : ℕ}
    {now : Timestamp} {io : WriteOutcome} {x : Stop} (ht : sys.tasks t = some (.acknowledged x))
    (hd : x.caller.delivers = false) {w' : Worker}
    (hw' : w' ∈ (contents (step env sys (.resume t (.store now io))).disk).workers) :
    Pursued (step env sys (.resume t (.store now io))).events w' := by
  have hdeliver : x.caller.deliver = .markProviderStopDelivered := by
    unfold Caller.deliver
    rw [hd]
    rfl
  have hdisk : (step env sys (.resume t (.store now io))).disk =
      (update env x.sessionId .markProviderStopDelivered io sys.disk).1 := by
    rw [step_resume ht, ← hdeliver]
    rfl
  have hevents : (step env sys (.resume t (.store now io))).events = sys.events ++
      if recorded io (update env x.sessionId .markProviderStopDelivered io sys.disk).2 then
        [.stopRecorded x.sessionId] else [] := by
    rw [step_resume ht, ← hdeliver]
    show sys.events ++ (if x.caller.delivers = false ∧ _ then _ else _) = _
    simp only [hd, true_and]
  rw [hdisk] at hw'
  rw [hevents]
  cases hrecorded : recorded io (update env x.sessionId .markProviderStopDelivered io sys.disk).2 with
  | false =>
    rw [update_unrecorded hrecorded] at hw'
    exact (h.workers w' hw').append _
  | true =>
    rw [update_disk] at hw'
    rcases step_origin hw' with ⟨w, hw, hrewrites⟩ | hadded
    swap
    · cases hadded
    have hold := (h.workers w hw).append [.stopRecorded x.sessionId]
    generalize hc : Call.updateWorker x.sessionId .markProviderStopDelivered = c at hrewrites
    cases hrewrites with
    | same => exact hold
    | updated hvalid happly =>
      obtain ⟨hid, rfl⟩ := Call.updateWorker.inj hc
      cases happly
      refine hold.of_flags rfl rfl rfl rfl rfl fun _ r hr _ => ?_
      -- The run of the task is the run of the worker.
      obtain ⟨v, hv, hrun⟩ := hs.tasks t _ x ht rfl
      obtain rfl : w = v := Keyed.eq_of_key hs.valid.uniqueWorkers hw (Keyed.mem_of_lookup hv)
        (hid.symm.trans (Keyed.key_of_lookup hv).symm)
      obtain rfl := Option.some.inj (hr.symm.trans hrun)
      refine Or.inr (Or.inr (Or.inr (Or.inr (Or.inr (Or.inl ?_)))))
      exact ⟨sys.events, [], by rw [hid]; rfl, h.acknowledged t x ht⟩
    | _ => cases hc

theorem intent_step {sys : System} (hs : Steady env sys) (h : Intent sys) (act : Act) :
    Intent (step env sys act) := by
  refine ⟨fun w' hw' => ?_, fun t x ht => intent_acknowledged h act ht⟩
  obtain ⟨later, hevents⟩ := @step_events env sys act
  rcases @step_disk env sys act with hd | ⟨i, hi, hd⟩
  · rw [hd] at hw'
    rw [hevents]
    exact (h.workers w' hw').append later
  · rcases hi.preserving hs with hpreserving | ⟨t, now, io, x, rfl, ht, hdelivers, -⟩
    swap
    · exact intent_delivered hs h ht hdelivers hw'
    rw [hd] at hw'
    rw [hevents]
    refine Pursued.append ?_ later
    rcases step_origin hw' with ⟨w, hw, hrewrites⟩ | hadded
    · exact (h.workers w hw).rewritten hpreserving hw hrewrites
    · exact (hi.fresh hadded).pursued

theorem intent_init : Intent {} where
  workers _ hw := nomatch hw
  acknowledged _ _ ht := nomatch ht

/-- **Stop intent is never lost after a deadline.** In every state of every run of the system, a
session that failed by its deadline and is bound to a run has its stop pending, claimed, delivered
or unsupported, an acknowledged stop call whose delivery was recorded, or a terminal observation. -/
theorem stop_intent_kept (env : Env) (acts : List Act) {w : Worker}
    (hw : w ∈ (contents (Runs.run (step env) {} acts).disk).workers) (hfailed : w.status = .failed)
    (hreason : w.stopReason = some "deadline_exceeded") {r : String} (hrun : w.runId = some r) :
    raised w.providerStopPending = true ∨ raised w.providerStopClaimed = true ∨
      raised w.cancellationDeliveryClaimed = true ∨ raised w.cancellationDelivered = true ∨
      raised w.providerStopUnsupported = true ∨
      StopDelivered (Runs.run (step env) {} acts).events w.id r ∨ Observed w := by
  have hinvariant : Steady env (Runs.run (step env) {} acts) ∧
      Intent (Runs.run (step env) {} acts) :=
    Runs.run_invariant (step env) (P := fun sys => Steady env sys ∧ Intent sys)
      (fun sys act hsys => ⟨steady_step hsys.1 act, intent_step hsys.1 hsys.2 act⟩)
      ⟨steady_init, intent_init⟩ acts
  exact (hinvariant.2.workers w hw).stop ⟨hfailed, hreason⟩ r hrun

/-- The sample launch is accepted and dispatched, and its run is bound. -/
def sampleLaunched : List Act :=
  (Launch.sampleReserved ++ ([.resume 0 (.launch (some "run-1") (.ok (.run "run-1"))),
    .resume 0 (Launch.stored "u4")] : List Launch.Act)).map .launch

/-- The session of the sample launch is overdue, and a sweep expires it. -/
def sampleExpired : List Act :=
  sampleLaunched ++
    [.launch (.service (.updateWorker "s1" (.setWorkerDeadline "2026-01-03")) .written),
      .sweep 0 .enforceDeadlines "2026-01-04", .expire 0 .written]

theorem stop_intent_kept_sample :
    ∃ w ∈ (contents (Runs.run (step plainEnv) {} sampleExpired).disk).workers,
      w.status = .failed ∧ w.stopReason = some "deadline_exceeded" ∧ w.runId = some "run-1" ∧
      (raised w.providerStopPending = true ∨ raised w.providerStopClaimed = true ∨
        raised w.cancellationDeliveryClaimed = true ∨ raised w.cancellationDelivered = true ∨
        raised w.providerStopUnsupported = true ∨
        StopDelivered (Runs.run (step plainEnv) {} sampleExpired).events w.id "run-1" ∨
        Observed w) := by
  have hexpired : ∃ w ∈ (contents (Runs.run (step plainEnv) {} sampleExpired).disk).workers,
      w.status = .failed ∧ w.stopReason = some "deadline_exceeded" ∧ w.runId = some "run-1" := by
    decide +kernel
  obtain ⟨w, hw, hfailed, hreason, hrun⟩ := hexpired
  exact ⟨w, hw, hfailed, hreason, hrun, stop_intent_kept plainEnv _ hw hfailed hreason hrun⟩

end AgentOrchestrator.Lifecycle
