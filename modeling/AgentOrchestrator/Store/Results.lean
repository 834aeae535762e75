import AgentOrchestrator.Store.Versions
import AgentOrchestrator.Store.Sessions
import Mathlib.Data.List.DropRight

/-!
# Results and late observations

The result of a terminal worker is authoritative once no reconciliation is pending and no launch of
its session is in progress: nothing replaces it afterwards.  What arrives late is only noted, and
the last `maxLateObservations` notes are kept.
-/

namespace AgentOrchestrator.Store

variable {env : Env}

/-! ## Authoritative results -/

/-- The worker is terminal with the result, and no reconciliation of it is pending. -/
structure Resolved (result : Json) (w : Worker) : Prop where
  terminal : w.status.isTerminal = true
  result : w.result = some result
  pending : raised w.lifecycleReconcilePending = false

theorem Resolved.of_same {result : Json} {w w' : Worker} (h : Resolved result w)
    (hst : w'.status = w.status) (hres : w'.result = w.result)
    (hpend : w'.lifecycleReconcilePending = w.lifecycleReconcilePending) : Resolved result w' :=
  ⟨by rw [hst]; exact h.terminal, hres.trans h.result, by rw [hpend]; exact h.pending⟩

theorem Resolved.not_canceling {result : Json} {w : Worker} (h : Resolved result w) :
    w.status ≠ .canceling := by
  intro hc
  have ht := h.terminal
  rw [hc] at ht
  cases ht

theorem settled_recordWorkerTerminal {status : TerminalWorkerStatus} {late : Option Json}
    {stopReason : Option String} {now : Timestamp} {result : Json} {w : Worker}
    (h : Resolved result w) : Resolved result (recordWorkerTerminal status late stopReason now w) := by
  unfold recordWorkerTerminal
  rw [if_pos h.terminal, h.result]
  have hretained : (late.isSome && (some result).isNone) = false := by simp
  rw [hretained]
  exact ⟨h.terminal, h.result, rfl⟩

theorem settled_settleWorkerCancellation {status : TerminalWorkerStatus} {late : Option Json}
    {stopReason : Option String} {now : Timestamp} {keep : Bool} {result : Json} {w : Worker}
    (h : Resolved result w) :
    Resolved result (settleWorkerCancellation status late stopReason now keep w).1 := by
  unfold settleWorkerCancellation
  rw [if_pos h.terminal]
  dsimp only
  -- Nothing is retained and nothing is pending, so the recorded result stays.
  have hretained : (late.isSome && w.result.isNone) = false := by
    rw [h.result]
    simp
  have hkept : ¬ (keep = true ∧ raised w.lifecycleReconcilePending = true) := by
    rw [h.pending]
    simp
  rw [if_neg hkept, hretained, h.pending,
    if_neg (by simp : ¬ (false = true ∨ late.isSome = true ∧ false = true))]
  split
  · exact ⟨h.terminal, h.result, rfl⟩
  · exact ⟨h.terminal, h.result, rfl⟩

/-- No method of `updateWorker` replaces a settled result. -/
theorem WorkerUpdate.settled {s : DurableState} {w w' : Worker} {u : WorkerUpdate}
    {claim : CancellationClaim} {result : Json} (h : u.apply s w = .ok (w', claim))
    (hw : Resolved result w) : Resolved result w' := by
  cases u with
  | bindWorkerRun runId execution =>
    obtain ⟨v, hv, -⟩ := map_ok h
    unfold Store.bindWorkerRun at hv
    rw [if_pos hw.terminal] at hv
    cases hv
  | setWorkerDeadline deadline =>
    obtain ⟨v, hv, -⟩ := map_ok h
    unfold Store.setWorkerDeadline at hv
    rw [if_pos hw.terminal] at hv
    cases hv
  | requestWorkerCancellation reason detail now =>
    have e : (Store.requestWorkerCancellation s reason detail now w).1 = w' :=
      congrArg Prod.fst (Except.ok.inj h)
    unfold Store.requestWorkerCancellation at e
    rw [if_pos (Or.inl hw.terminal)] at e
    exact e ▸ hw
  | claimCancellationDelivery =>
    cases h
    unfold Store.claimCancellationDelivery
    split_ifs <;> exact hw.of_same rfl rfl rfl
  | releaseCancellationDelivery =>
    cases h
    unfold Store.releaseCancellationDelivery
    dsimp only
    split_ifs <;> exact hw.of_same rfl rfl rfl
  | markCancellationDelivered => cases h; exact hw.of_same rfl rfl rfl
  | markProviderStopDelivered => cases h; exact hw.of_same rfl rfl rfl
  | markProviderStopUnsupported => cases h; exact hw.of_same rfl rfl rfl
  | handleUnsupportedCancellation =>
    cases h
    unfold Store.handleUnsupportedCancellation
    dsimp only
    rw [if_neg hw.not_canceling]
    split_ifs <;> exact hw.of_same rfl rfl rfl
  | claimProviderStop =>
    cases h
    unfold Store.claimProviderStop
    split_ifs <;> exact hw.of_same rfl rfl rfl
  | releaseProviderStop =>
    cases h
    unfold Store.releaseProviderStop
    dsimp only
    split_ifs <;> exact hw.of_same rfl rfl rfl
  | clearWorkerCancellation =>
    cases h
    unfold Store.clearWorkerCancellation
    rw [if_neg hw.not_canceling]
    exact hw
  | recordWorkerTerminal status late stopReason now =>
    cases h
    exact settled_recordWorkerTerminal hw
  | settleWorkerCancellation status late stopReason now keep =>
    cases h
    exact settled_settleWorkerCancellation hw
  | expireWorker deadline now =>
    cases h
    unfold Store.expireWorker
    dsimp only
    rw [if_pos (Or.inl hw.terminal)]
    exact hw.of_same rfl rfl rfl

theorem resolved_recoverDeliveryClaim {result : Json} {w : Worker} (hw : Resolved result w) :
    Resolved result (recoverDeliveryClaim w) := by
  have hne : w.status ≠ .unknownOutcome := by
    intro hu
    have ht := hw.terminal
    rw [hu] at ht
    cases ht
  unfold recoverDeliveryClaim
  simp only [if_neg hne]
  split_ifs <;> exact hw.of_same rfl rfl rfl

/-- A failed launch clears what binding its run would ask to reconcile. -/
theorem settled_failedLaunch {event : LaunchAuditEvent} {result : Json} {w : Worker}
    (hw : Resolved result w) : Resolved result (launchedWorker env .failed event w) := by
  have hfailed : ∀ v : Worker, v.status = w.status → v.result = w.result →
      Resolved result (failLaunchedWorker env event v) := by
    intro v hst hres
    have ht : v.status.isTerminal = true := by
      rw [hst]
      exact hw.terminal
    unfold failLaunchedWorker
    rw [if_pos ht]
    exact ⟨ht, hres.trans hw.result, rfl⟩
  unfold launchedWorker
  dsimp only
  rw [if_pos rfl]
  cases event.runId with
  | none => exact hfailed w rfl rfl
  | some runId =>
    refine hfailed (bindLaunchedRun runId w) ?_ ?_
    · unfold bindLaunchedRun
      split_ifs <;> rfl
    · unfold bindLaunchedRun
      split_ifs <;> rfl

/-- No launch of the session is in progress. -/
def NotLaunching (s : DurableState) (id : String) : Prop :=
  ∀ a ∈ s.assignments, a.sessionId = id → a.status ≠ .launching

/-- **A settled result is never replaced** while no launch of the session is in progress. -/
theorem Rewrites.settled {s : DurableState} {c : Call} {w w' : Worker} {result : Json}
    (hs : (s.workers.map (·.id)).Nodup) (hmem : w ∈ s.workers) (hlaunch : NotLaunching s w.id)
    (h : Rewrites env s c w w') (hw : Resolved result w) : Resolved result w' := by
  cases h with
  | same => exact hw
  | updated hvalid happly => exact WorkerUpdate.settled happly hw
  | recovered => exact resolved_recoverDeliveryClaim hw
  | resulted hopen => exact absurd hw.terminal (Bool.eq_false_iff.1 hopen)
  | reconciled =>
    unfold reconcileWorker
    rw [if_neg (fun hr => by have ht := hw.terminal; rw [hr.1] at ht; cases ht)]
    exact hw
  | @launched id target event audit uuid a _ ha hsession hover hallowed hrun =>
    have hnot := hlaunch a (Keyed.mem_of_lookup ha) hsession
    have hover' : sessionOver s a = true := by
      unfold sessionOver DurableState.worker?
      rw [hsession, Keyed.lookup_of_mem hs hmem]
      exact hw.terminal
    -- The launch can only fail: it has not begun, and may no longer begin.
    have htarget : target = .failed := by
      cases target with
      | failed => rfl
      | launching => exact absurd ⟨rfl, hover'⟩ hover
      | launched =>
        cases hst : a.status with
        | launching => exact absurd hst hnot
        | _ => rw [hst] at hallowed; cases hallowed
    subst htarget
    exact settled_failedLaunch hw
  | captured ha hstatus hsession =>
    unfold settleCaptured
    rw [if_pos hw.terminal]
    exact hw

/-- A terminal session stays without a launch in progress when no launch is offered in progress. -/
theorem notLaunching_next {c : Call} {s next : DurableState} {id : String}
    (hs : (s.workers.map (·.id)).Nodup) (hn : c.next env s = some next)
    (hc : ∀ o ∈ c.offered env, o.1.status ≠ .launching)
    (hover : ∃ w, s.worker? id = some w ∧ w.status.isTerminal = true) (h : NotLaunching s id) :
    NotLaunching next id := by
  by_cases hev : c.isLaunchEvent = true
  · cases c <;> try cases hev
    rename_i assignmentId target event audit uuid
    obtain ⟨-, a, ha, ⟨-, -, hr⟩ | ⟨hnot, -, -, -, -, hadv⟩⟩ := recordLaunchEvent_next hs hn
    · intro b hb hid
      rw [hr.assignments] at hb
      rcases Keyed.mem_put hb with rfl | ⟨hb, -⟩
      · exact (nomatch ·)
      · exact h b hb hid
    · intro b hb hid
      rw [hadv.assignments] at hb
      rcases Keyed.mem_put hb with rfl | ⟨hb, -⟩
      · -- A launch of a terminal session is refused, so this one did not begin.
        intro hlaunching
        have htarget : target = .launching := by
          cases target with
          | launching => rfl
          | launched => cases hlaunching
          | failed => cases hlaunching
        obtain ⟨w, hw, ht⟩ := hover
        refine hnot ⟨htarget, ?_⟩
        unfold sessionOver
        rw [show a.sessionId = id from hid, hw]
        exact ht
      · exact h b hb hid
  · intro b hb hid
    rw [Call.next_assignments (Bool.eq_false_iff.2 hev) hn] at hb
    rcases List.mem_append.1 hb with hb | hb
    · exact h b hb hid
    · obtain ⟨o, ho, rfl⟩ := List.mem_map.1 hb
      exact hc o ho

/-- The session has an authoritative result. -/
def Authoritative (id : String) (result : Json) (s : DurableState) : Prop :=
  NotLaunching s id ∧ ∃ w, s.worker? id = some w ∧ Resolved result w

theorem authoritative_step {disk : Disk} {i : Call × WriteOutcome} {id : String} {result : Json}
    (hv : Valid env disk) (hi : ∀ o ∈ i.1.offered env, o.1.status ≠ .launching)
    (h : Authoritative id result (contents disk)) :
    Authoritative id result (contents (step env disk i)) := by
  obtain ⟨hlaunch, w, hw, hsettled⟩ := h
  refine ⟨?_, ?_⟩
  · rcases step_cases env disk i.1 i.2 with e | ⟨next, hs, hn, -, e⟩
    · rw [show step env disk i = disk from e]
      exact hlaunch
    · rw [show step env disk i = some next from e]
      exact notLaunching_next hs.uniqueWorkers hn hi ⟨w, hw, hsettled.terminal⟩ hlaunch
  · obtain ⟨w', hw', hrewrites⟩ := step_version hv i hw
    have hid := Keyed.key_of_lookup hw
    exact ⟨w', hw', hrewrites.settled hv.uniqueWorkers (Keyed.mem_of_lookup hw)
      (hid.symm ▸ hlaunch) hsettled⟩

theorem authoritative_run {disk : Disk} {calls : List (Call × WriteOutcome)} {id : String}
    {result : Json} (hv : Valid env disk)
    (hcalls : ∀ i ∈ calls, ∀ o ∈ i.1.offered env, o.1.status ≠ .launching)
    (h : Authoritative id result (contents disk)) :
    Authoritative id result (contents (Runs.run (step env) disk calls)) :=
  (Runs.run_invariant_of (step env)
    (P := fun d => Valid env d ∧ Authoritative id result (contents d))
    (fun d i hd hi => ⟨valid_step env d i hd.1, authoritative_step hd.1 hi hd.2⟩)
    ⟨hv, h⟩ (Runs.admissible_of_forall (step env) hcalls disk)).2

/-! ## Late observations -/

/-- What a method of `updateWorker` notes about a worker that is already terminal. -/
def WorkerUpdate.observation (w : Worker) : WorkerUpdate → Option LateObservation
  | .recordWorkerTerminal status result _ now =>
    if w.status.isTerminal then
      some { observedAt := now, status := status.text,
             retainedResult := result.isSome && w.result.isNone }
    else none
  | .settleWorkerCancellation status result _ now keep =>
    let retained := result.isSome && w.result.isNone
    let changed := result.isSome && decide (w.result ≠ result)
    if w.status.isTerminal ∧ (retained ∨ changed ∨ keep = false) then
      some { observedAt := now, status := status.text, retainedResult := retained }
    else none
  | _ => none

/-- What a call notes about a worker. -/
def Call.observation (s : DurableState) (id : String) : Call → Option LateObservation
  | .updateWorker workerId u =>
    if workerId = id then (s.worker? id).bind fun w => u.observation w else none
  | _ => none

/-- The step writes the next state of its call. -/
def writes (env : Env) (disk : Disk) (i : Call × WriteOutcome) : Bool :=
  match load env disk with
  | .error _ => false
  | .ok s =>
    match i.1.next env s with
    | none => false
    | some next => StateSchema env next ∧ i.2 ≠ .failedBeforeRename

/-- What a step notes about a worker. -/
def stepNote (env : Env) (id : String) (disk : Disk) (i : Call × WriteOutcome) :
    List LateObservation :=
  if writes env disk i then (i.1.observation (contents disk) id).toList else []

/-- Everything that was noted about a worker in the course of a run, oldest first. -/
def observed (env : Env) (id : String) : Disk → List (Call × WriteOutcome) → List LateObservation
  | _, [] => []
  | disk, i :: calls => stepNote env id disk i ++ observed env id (step env disk i) calls

theorem step_of_writes {disk : Disk} {i : Call × WriteOutcome} (h : writes env disk i = true) :
    ∃ next, i.1.next env (contents disk) = some next ∧ step env disk i = some next := by
  unfold writes at h
  unfold step
  cases hl : load env disk with
  | error e => rw [hl] at h; cases h
  | ok s =>
    obtain ⟨rfl, -⟩ := load_eq env hl
    rw [hl] at h
    dsimp only at h ⊢
    cases hn : i.1.next env (contents disk) with
    | none => rw [hn] at h; cases h
    | some next =>
      rw [hn] at h
      have hboth : StateSchema env next ∧ i.2 ≠ .failedBeforeRename := of_decide_eq_true h
      rcases persist_cases env i.2 next disk with ⟨-, hnot⟩ | ⟨-, -, hwritten⟩
      · exact absurd hboth hnot
      · exact ⟨next, rfl, hwritten⟩

theorem step_of_not_writes {disk : Disk} {i : Call × WriteOutcome}
    (h : writes env disk i = false) : step env disk i = disk := by
  unfold writes at h
  unfold step
  cases hl : load env disk with
  | error e => rfl
  | ok s =>
    obtain ⟨rfl, -⟩ := load_eq env hl
    rw [hl] at h
    dsimp only at h ⊢
    cases hn : i.1.next env (contents disk) with
    | none => rfl
    | some next =>
      rw [hn] at h
      have hnot : ¬ (StateSchema env next ∧ i.2 ≠ .failedBeforeRename) := of_decide_eq_false h
      rcases persist_cases env i.2 next disk with ⟨hsame, -⟩ | ⟨hs, hio, -⟩
      · exact hsame
      · exact absurd ⟨hs, hio⟩ hnot

/-- The observations of a worker after one more is noted, or none. -/
def noted (o : Option LateObservation) (w : Worker) : Option (List LateObservation) :=
  match o with
  | none => w.lateObservations
  | some o => (appendLateObservation o w).lateObservations

theorem noted_settleWorkerCancellation (status : TerminalWorkerStatus) (result : Option Json)
    (stopReason : Option String) (now : Timestamp) (keep : Bool) (w : Worker) :
    (settleWorkerCancellation status result stopReason now keep w).1.lateObservations =
      noted ((WorkerUpdate.settleWorkerCancellation status result stopReason now keep).observation w)
        w := by
  have hkept : (if (result.isSome && w.result.isNone) = true ∨
      (result.isSome = true ∧ raised w.lifecycleReconcilePending = true) then
      { w with result := result } else w).lateObservations = w.lateObservations := by
    split <;> rfl
  unfold settleWorkerCancellation
  by_cases ht : w.status.isTerminal = true
  · rw [if_pos ht]
    by_cases hnote : (result.isSome && w.result.isNone) = true ∨
        (result.isSome && decide (w.result ≠ result)) = true ∨ keep = false
    · rw [show (WorkerUpdate.settleWorkerCancellation status result stopReason now keep).observation
        w = some _ from if_pos ⟨ht, hnote⟩]
      dsimp only [noted, appendLateObservation]
      rw [if_pos hnote]
      dsimp only
      rw [hkept]
    · rw [show (WorkerUpdate.settleWorkerCancellation status result stopReason now keep).observation
        w = none from if_neg fun h => hnote h.2]
      dsimp only [noted]
      rw [if_neg hnote]
      exact hkept
  · rw [if_neg ht, show (WorkerUpdate.settleWorkerCancellation status result stopReason now
      keep).observation w = none from if_neg fun h => ht h.1]
    by_cases hc : w.status = .canceling
    · rw [if_pos hc]
      rfl
    · rw [if_neg hc]
      rfl

/-- A method of `updateWorker` notes its observation and nothing else. -/
theorem WorkerUpdate.noted {s : DurableState} {w w' : Worker} {u : WorkerUpdate}
    {claim : CancellationClaim} (h : u.apply s w = .ok (w', claim)) :
    w'.lateObservations = Store.noted (u.observation w) w := by
  cases u with
  | bindWorkerRun runId execution =>
    obtain ⟨v, hv, e⟩ := map_ok h
    cases e
    unfold Store.bindWorkerRun at hv
    cases execution with
    | none =>
      dsimp only at hv
      split_ifs at hv
      obtain rfl := Except.ok.inj hv
      rfl
    | some e =>
      dsimp only at hv
      split_ifs at hv <;> obtain rfl := Except.ok.inj hv <;> rfl
  | setWorkerDeadline deadline =>
    obtain ⟨v, hv, e⟩ := map_ok h
    cases e
    unfold Store.setWorkerDeadline at hv
    split_ifs at hv
    obtain rfl := Except.ok.inj hv
    rfl
  | requestWorkerCancellation reason detail now =>
    have e : (Store.requestWorkerCancellation s reason detail now w).1 = w' :=
      congrArg Prod.fst (Except.ok.inj h)
    unfold Store.requestWorkerCancellation at e
    split_ifs at e <;> subst e <;> rfl
  | claimCancellationDelivery =>
    cases h
    unfold Store.claimCancellationDelivery
    split_ifs <;> rfl
  | releaseCancellationDelivery =>
    cases h
    unfold Store.releaseCancellationDelivery
    dsimp only
    split_ifs <;> rfl
  | markCancellationDelivered => cases h; rfl
  | markProviderStopDelivered => cases h; rfl
  | markProviderStopUnsupported => cases h; rfl
  | handleUnsupportedCancellation =>
    cases h
    unfold Store.handleUnsupportedCancellation
    dsimp only
    split_ifs <;> rfl
  | claimProviderStop =>
    cases h
    unfold Store.claimProviderStop
    split_ifs <;> rfl
  | releaseProviderStop =>
    cases h
    unfold Store.releaseProviderStop
    dsimp only
    split_ifs <;> rfl
  | clearWorkerCancellation =>
    cases h
    unfold Store.clearWorkerCancellation
    split_ifs <;> rfl
  | recordWorkerTerminal status result stopReason now =>
    cases h
    unfold Store.recordWorkerTerminal WorkerUpdate.observation
    by_cases ht : w.status.isTerminal = true
    · dsimp only
      rw [if_pos ht, if_pos ht]
      dsimp only [Store.noted, appendLateObservation]
      split <;> rfl
    · dsimp only
      rw [if_neg ht, if_neg ht]
      rfl
  | settleWorkerCancellation status result stopReason now keep =>
    cases h
    exact noted_settleWorkerCancellation status result stopReason now keep w
  | expireWorker deadline now =>
    cases h
    unfold Store.expireWorker
    dsimp only
    split_ifs <;> rfl

/-- A call that is not one of `updateWorker` for the worker leaves its observations alone. -/
theorem Rewrites.unnoted {s : DurableState} {c : Call} {w w' : Worker} (h : Rewrites env s c w w')
    (hc : ∀ u, c ≠ .updateWorker w.id u) : w'.lateObservations = w.lateObservations := by
  cases h with
  | same => rfl
  | updated hvalid happly => exact absurd rfl (hc _)
  | recovered =>
    unfold recoverDeliveryClaim
    dsimp only
    split_ifs <;> rfl
  | resulted hopen => rfl
  | reconciled =>
    unfold reconcileWorker
    split_ifs <;> rfl
  | @launched id target event audit uuid a _ ha hsession hover hallowed hrun =>
    have hfailed : ∀ v : Worker,
        (failLaunchedWorker env event v).lateObservations = v.lateObservations := by
      intro v
      unfold failLaunchedWorker
      split_ifs <;> rfl
    have hbound : ∀ runId, (bindLaunchedRun runId w).lateObservations = w.lateObservations := by
      intro runId
      unfold bindLaunchedRun
      split_ifs <;> rfl
    unfold launchedWorker
    cases event.runId with
    | none => split_ifs <;> [exact hfailed w; rfl]
    | some runId => split_ifs <;> [exact (hfailed _).trans (hbound runId); exact hbound runId]
  | captured ha hstatus hsession =>
    unfold settleCaptured
    split_ifs <;> rfl

/-- The stored observations of a worker are the last of everything noted about it. -/
def Recent (id : String) (s : DurableState) (notes : List LateObservation) : Prop :=
  match s.worker? id with
  | none => notes = []
  | some w => w.lateObservations.getD [] = notes.rtake maxLateObservations

theorem rtake_append_rtake {α : Type*} (l : List α) (a : α) (n : ℕ) :
    (l.rtake (n + 1) ++ [a]).rtake (n + 1) = (l ++ [a]).rtake (n + 1) := by
  rw [List.rtake_concat_succ, List.rtake_concat_succ]
  congr 1
  rw [List.rtake_eq_reverse_take_reverse, List.rtake_eq_reverse_take_reverse,
    List.rtake_eq_reverse_take_reverse, List.reverse_reverse, List.take_take,
    Nat.min_eq_left (Nat.le_succ n)]

theorem noted_recent {o : Option LateObservation} {w : Worker} {notes : List LateObservation}
    (h : w.lateObservations.getD [] = notes.rtake maxLateObservations) :
    (noted o w).getD [] = (notes ++ o.toList).rtake maxLateObservations := by
  cases o with
  | none =>
    rw [Option.toList_none, List.append_nil]
    exact h
  | some o =>
    show (w.lateObservations.getD [] ++ [o]).rtake maxLateObservations = _
    rw [h]
    exact rtake_append_rtake notes o 31

theorem recent_step {disk : Disk} {i : Call × WriteOutcome} {id : String}
    {notes : List LateObservation} (hv : Valid env disk)
    (hi : ∀ w ∈ i.1.added env, w.lateObservations = none) (h : Recent id (contents disk) notes) :
    Recent id (contents (step env disk i)) (notes ++ stepNote env id disk i) := by
  unfold stepNote
  by_cases hw : writes env disk i = true
  swap
  · rw [if_neg hw, List.append_nil, step_of_not_writes (Bool.eq_false_iff.2 hw)]
    exact h
  rw [if_pos hw]
  obtain ⟨next, hn, hstep⟩ := step_of_writes hw
  unfold Recent at h ⊢
  cases hold : (contents disk).worker? id with
  | none =>
    -- Nothing can be noted about a worker that is not on file.
    rw [hold] at h
    have hnone : i.1.observation (contents disk) id = none := by
      unfold Call.observation
      split
      · rw [hold]
        split_ifs <;> rfl
      · rfl
    subst h
    rw [hnone]
    cases hnew : (contents (step env disk i)).worker? id with
    | none => rfl
    | some w =>
      rcases step_origin (Keyed.mem_of_lookup hnew) with ⟨v, hmem, hrewrites⟩ | hadded
      · have hid := hrewrites.later.id.symm.trans (Keyed.key_of_lookup hnew)
        exact absurd hid (Keyed.lookup_eq_none.1 hold v hmem)
      · dsimp only
        rw [hi w hadded]
        rfl
  | some w =>
    rw [hold] at h
    obtain ⟨w', hw', hrewrites⟩ := step_version hv i hold
    have hid := Keyed.key_of_lookup hold
    rw [hw']
    by_cases hupdate : ∃ u, i.1 = .updateWorker id u
    · obtain ⟨u, hu⟩ := hupdate
      rw [hu] at hn ⊢
      unfold Call.next at hn
      dsimp only at hn
      split at hn
      · cases hn
      obtain ⟨v, v', claim, hv', happly, rfl⟩ := updateWorker_next hn
      obtain rfl := Option.some.inj (hold.symm.trans hv')
      have hput : (contents (step env disk i)).worker? id = some v' := by
        have hlater := WorkerUpdate.later happly
        rw [hstep, ← hlater.id.trans hid]
        exact Keyed.lookup_put_self ⟨w, Keyed.mem_of_lookup hold, hlater.id.symm⟩
      obtain rfl := Option.some.inj (hw'.symm.trans hput)
      have hobs : (Call.updateWorker id u).observation (contents disk) id = u.observation w := by
        show (if id = id then ((contents disk).worker? id).bind _ else none) = _
        rw [if_pos rfl, hold]
        rfl
      rw [hobs]
      dsimp only
      rw [WorkerUpdate.noted happly]
      exact noted_recent h
    · have hnone : i.1.observation (contents disk) id = none := by
        unfold Call.observation
        split
        · rename_i workerId u heq
          rw [if_neg fun e => hupdate ⟨u, by rw [heq, e]⟩]
        · rfl
      rw [hnone, Option.toList_none, List.append_nil]
      dsimp only
      rw [hrewrites.unnoted fun u e => hupdate ⟨u, by rw [e, hid]⟩]
      exact h

theorem recent_run {calls : List (Call × WriteOutcome)} {disk : Disk} {id : String}
    {notes : List LateObservation} (hv : Valid env disk)
    (hcalls : ∀ i ∈ calls, ∀ w ∈ i.1.added env, w.lateObservations = none)
    (h : Recent id (contents disk) notes) :
    Recent id (contents (Runs.run (step env) disk calls)) (notes ++ observed env id disk calls) := by
  induction calls generalizing disk notes with
  | nil =>
    show Recent id (contents disk) (notes ++ [])
    rw [List.append_nil]
    exact h
  | cons i calls ih =>
    unfold observed
    rw [← List.append_assoc]
    exact ih (valid_step env disk i hv) (fun j hj => hcalls j (List.mem_cons_of_mem i hj))
      (recent_step hv (hcalls i List.mem_cons_self) h)

/-! ## Results over whole runs -/

/-- A launch enters the store as the launch service builds it: accepted, and with nothing observed
about its worker. -/
def Unobserved (o : Assignment × Worker) : Prop :=
  o.1.status = .accepted ∧ o.2.lateObservations = none

theorem unobserved_added {c : Call} (h : ∀ o ∈ c.offered env, Unobserved o) :
    ∀ w ∈ c.added env, w.lateObservations = none := by
  intro w hw
  cases c with
  | createBatch name clientId assignments key now uuid =>
    obtain ⟨x, -, rfl⟩ := List.mem_map.1 hw
    rfl
  | acceptLaunch input batch uuid =>
    obtain ⟨o, ho, rfl⟩ := List.mem_map.1 hw
    exact (h o ho).2
  | acceptLaunchBatch inputs batch uuids =>
    obtain ⟨o, ho, rfl⟩ := List.mem_map.1 hw
    exact (h o ho).2
  | _ => cases hw

theorem length_rtake_le {α : Type*} (l : List α) (n : ℕ) : (l.rtake n).length ≤ n := by
  unfold List.rtake
  rw [List.length_drop]
  omega

/-- **Results are stable** when launches enter the store as the launch service builds them.  After
every run, a terminal result that is not to be reconciled and whose launch is not in progress stays
the result through every further run; and every worker keeps the last observations noted about it,
in order and at most `maxLateObservations` of them. -/
theorem results_stable {calls : List (Call × WriteOutcome)}
    (h : ∀ i ∈ calls, ∀ o ∈ i.1.offered env, Unobserved o) :
    (∀ later, (∀ i ∈ later, ∀ o ∈ i.1.offered env, Unobserved o) → ∀ id w result,
      (contents (Runs.run (step env) none calls)).worker? id = some w →
      w.status.isTerminal = true → w.result = some result →
      raised w.lifecycleReconcilePending = false →
      (∀ a ∈ (contents (Runs.run (step env) none calls)).assignments, a.sessionId = id →
        a.status ≠ .launching) →
      ∃ w', (contents (Runs.run (step env) none (calls ++ later))).worker? id = some w' ∧
        w'.result = some result) ∧
    (∀ id w, (contents (Runs.run (step env) none calls)).worker? id = some w →
      (w.lateObservations.getD []).length ≤ maxLateObservations ∧
      w.lateObservations.getD [] = (observed env id none calls).rtake maxLateObservations) := by
  have hvalid := valid_run env (valid_none env) calls
  refine ⟨?_, ?_⟩
  · intro later hlater id w result hw ht hres hpend hlaunch
    rw [Runs.run_append]
    have hoffered : ∀ i ∈ later, ∀ o ∈ i.1.offered env, o.1.status ≠ .launching := by
      intro i hi o ho hl
      have haccepted := (hlater i hi o ho).1
      rw [hl] at haccepted
      cases haccepted
    obtain ⟨-, w', hw', hsettled⟩ := authoritative_run hvalid hoffered
      ⟨hlaunch, w, hw, ht, hres, hpend⟩
    exact ⟨w', hw', hsettled.result⟩
  · intro id w hw
    have hrecent := @recent_run env calls none id [] (valid_none env)
      (fun i hi => unobserved_added (h i hi)) rfl
    unfold Recent at hrecent
    rw [hw, List.nil_append] at hrecent
    refine ⟨?_, hrecent⟩
    rw [show w.lateObservations.getD [] = _ from hrecent]
    exact length_rtake_le _ _

theorem results_stable_sample : ∃ w result,
    (contents sampleDisk).worker? "s1" = some w ∧ w.result = some result ∧
    ∃ w', (contents (Runs.run (step plainEnv) none (sampleCalls ++ [written (.updateWorker "s1"
        (.recordWorkerTerminal .failed (some .null) none "2026-01-04"))]))).worker? "s1" = some w' ∧
      w'.result = some result := by
  have hsome : ((contents sampleDisk).worker? "s1").any (fun w => w.status.isTerminal &&
      w.result.isSome && !raised w.lifecycleReconcilePending) = true := by decide +kernel
  have hlaunched : ∀ a ∈ (contents sampleDisk).assignments, a.sessionId = "s1" →
      a.status ≠ .launching := by decide +kernel
  obtain ⟨w, hw, hall⟩ := (Option.any_eq_true _ _).1 hsome
  simp only [Bool.and_eq_true, Bool.not_eq_true'] at hall
  obtain ⟨result, hresult⟩ := Option.isSome_iff_exists.1 hall.1.2
  have hentry : ∀ i ∈ sampleCalls, ∀ o ∈ i.1.offered plainEnv, Unobserved o := by
    intro i hi o ho
    obtain rfl := List.mem_singleton.1 (offered_sampleCalls hi ho)
    exact ⟨rfl, rfl⟩
  refine ⟨w, result, hw, hresult, (@results_stable plainEnv sampleCalls hentry).1 _ ?_ "s1" w result
    hw hall.1.1 hresult hall.2 hlaunched⟩
  intro i hi o ho
  obtain rfl := List.mem_singleton.1 hi
  cases ho

/-! ## Launches that are offered otherwise -/

/-- A launch whose assignment is for the session given and is being launched already, and whose
worker has been observed already. -/
def irregularInput (sessionId : String) (observations : List LateObservation) : LaunchInput where
  assignment := { sampleAssignment with
    id := "a2", idempotencyKey := "k2", batchId := "b2", sessionId := sessionId, status := .launching }
  session := { id := "s2", clientId := "c1", createdAt := "2026-01-01", lastSeenAt := "2026-01-01" }
  worker := { id := "s2", batchId := "b2", sessionId := "s2", status := .requested,
              attribution := sampleAttribution, startedAt := "2026-01-01",
              lateObservations := some observations }
  event := { id := "e5", assignmentId := "a2", type := .launchAccepted, occurredAt := "2026-01-01" }
  securityAudit := { sampleInput.securityAudit with assignmentId := some "a2" }

def irregularBatch : Batch := { sampleBatch with id := "b2", sessionId := "s2" }

/-- A second launch of the finished sample session is offered and reported, and a late failure of
the worker is recorded. -/
def irregularLaunch : List (Call × WriteOutcome) :=
  [written (.acceptLaunch (irregularInput "s1" []) irregularBatch "u5"),
    written (.recordLaunchEvent "a2" .launched
      { id := "e6", assignmentId := "a2", type := .executionStarted, occurredAt := "2026-01-04",
        runId := some "run-1" } none "u6"),
    written (.updateWorker "s1"
      (.settleWorkerCancellation .failed (some .null) none "2026-01-05" false))]

/-- **A result that does not stay, and 40 late observations**: what the offered records say about
the launch and about the worker is stored as it is. -/
theorem irregular_launch_replaces_result :
    (∃ w result, (contents sampleDisk).worker? "s1" = some w ∧ w.status.isTerminal = true ∧
      w.result = some result ∧ raised w.lifecycleReconcilePending = false ∧
      (∀ a ∈ (contents sampleDisk).assignments, a.sessionId = "s1" → a.status ≠ .launching) ∧
      ∃ w', (contents (Runs.run (step plainEnv) none
        (sampleCalls ++ irregularLaunch))).worker? "s1" = some w' ∧ w'.result ≠ some result) ∧
    ∃ w, (contents (Runs.run (step plainEnv) none [written (.acceptLaunch
        (irregularInput "s2" (List.replicate 40 ⟨"2026-01-01", "failed", false⟩)) irregularBatch
        "u5")])).worker? "s2" = some w ∧
      maxLateObservations < (w.lateObservations.getD []).length := by
  have hbefore : ((contents sampleDisk).worker? "s1").any (fun w => w.status.isTerminal &&
      w.result.isSome && !raised w.lifecycleReconcilePending && decide (w.result ≠ some .null)) =
        true := by decide +kernel
  have hafter : ((contents (Runs.run (step plainEnv) none
      (sampleCalls ++ irregularLaunch))).worker? "s1").any (fun w => decide (w.result = some .null)) =
        true := by decide +kernel
  have hnoisy : ((contents (Runs.run (step plainEnv) none [written (.acceptLaunch
      (irregularInput "s2" (List.replicate 40 ⟨"2026-01-01", "failed", false⟩)) irregularBatch
      "u5")])).worker? "s2").any
        (fun w => decide (maxLateObservations < (w.lateObservations.getD []).length)) = true := by
    decide +kernel
  obtain ⟨w, hw, hall⟩ := (Option.any_eq_true _ _).1 hbefore
  obtain ⟨w', hw', hnull⟩ := (Option.any_eq_true _ _).1 hafter
  obtain ⟨v, hv, hlong⟩ := (Option.any_eq_true _ _).1 hnoisy
  simp only [Bool.and_eq_true, Bool.not_eq_true', decide_eq_true_eq] at hall
  obtain ⟨⟨⟨hterminal, hsome⟩, hpending⟩, hother⟩ := hall
  obtain ⟨result, hresult⟩ := Option.isSome_iff_exists.1 hsome
  refine ⟨⟨w, result, hw, hterminal, hresult, hpending, by decide +kernel, w', hw', ?_⟩, v, hv,
    of_decide_eq_true hlong⟩
  rw [of_decide_eq_true hnull, ← hresult]
  exact Ne.symm hother

end AgentOrchestrator.Store
