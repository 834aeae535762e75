import AgentOrchestrator.Store.Versions
import AgentOrchestrator.Store.Sessions

/-!
# Stop reasons

Two guarantees about the reason a session stopped.  A terminal worker carries its completion time
and one reason its status allows, as long as no result is recorded for a worker that has no reason
yet.  A cancellation keeps its first reason until it is settled; `settleCaptured` is the one way to
settle it that does not look at that reason.
-/

namespace AgentOrchestrator.Store

variable {env : Env}

/-! ## Classified outcomes -/

/-- The worker carries a completion time and one stop reason that its status allows. -/
def Classified (w : Worker) : Prop :=
  ∃ completedAt reason allowed, w.completedAt = some completedAt ∧ w.stopReason = some reason ∧
    stopReasonsByStatus w.status = some allowed ∧ reason ∈ allowed

/-- A terminal worker has a completion time and a stop reason. -/
def Ended (w : Worker) : Prop :=
  w.status.isTerminal = true → w.completedAt ≠ none ∧ w.stopReason ≠ none

/-- The worker is ended if terminal, and stays so when a cancellation is withdrawn. -/
structure Tidy (w : Worker) : Prop where
  ended : Ended w
  preCancel : OpenCancel w

theorem Ended.of_open {w : Worker} (h : w.status.isTerminal = false) : Ended w := by
  intro ht
  rw [h] at ht
  cases ht

theorem Ended.of_some {w : Worker} {completedAt : Timestamp} {reason : String}
    (hat : w.completedAt = some completedAt) (hreason : w.stopReason = some reason) : Ended w := by
  intro _
  rw [hat, hreason]
  exact ⟨Option.some_ne_none _, Option.some_ne_none _⟩

/-- A terminal worker stays ended in every later version. -/
theorem Ended.later {w w' : Worker} (h : Ended w) (hl : w.Later w')
    (ht : w.status.isTerminal = true) : Ended w' := by
  intro _
  have ho := hl.outcome ht
  rw [ho.completedAt, ho.stopReason]
  exact h ht

theorem isSome_terminalStopReason {status : TerminalWorkerStatus} {explicit recorded : Option String}
    {succeededReason : String} (h : status.status.isTerminal = true) :
    terminalStopReason status explicit succeededReason recorded ≠ none := by
  unfold terminalStopReason
  cases explicit with
  | some reason => exact Option.some_ne_none reason
  | none =>
    cases status with
    | unknownOutcome => cases h
    | _ => exact Option.some_ne_none _

theorem ended_recordWorkerTerminal {status : TerminalWorkerStatus} {result : Option Json}
    {stopReason : Option String} {now : Timestamp} {w : Worker} (h : w.status.isTerminal = false) :
    Ended (recordWorkerTerminal status result stopReason now w) := by
  unfold recordWorkerTerminal
  rw [if_neg (Bool.eq_false_iff.1 h)]
  intro ht
  exact ⟨Option.some_ne_none now, isSome_terminalStopReason ht⟩

theorem ended_settleWorkerCancellation {status : TerminalWorkerStatus} {result : Option Json}
    {stopReason : Option String} {now : Timestamp} {keep : Bool} {w : Worker}
    (h : w.status.isTerminal = false) :
    Ended (settleWorkerCancellation status result stopReason now keep w).1 := by
  unfold settleWorkerCancellation
  rw [if_neg (Bool.eq_false_iff.1 h)]
  by_cases hc : w.status = .canceling
  · rw [if_pos hc]
    intro ht
    exact ⟨Option.some_ne_none now, isSome_terminalStopReason ht⟩
  · rw [if_neg hc]
    exact .of_open h

theorem ended_expireWorker {s : DurableState} {deadline : Option Timestamp} {now : Timestamp}
    {w : Worker} (h : w.status.isTerminal = false) : Ended (expireWorker s deadline now w).1 := by
  unfold expireWorker
  dsimp only
  split_ifs
  · exact .of_open h
  all_goals exact .of_some rfl rfl

theorem ended_requestWorkerCancellation {s : DurableState} {reason : String}
    {detail : Option String} {now : Timestamp} {w : Worker} (h : w.status.isTerminal = false) :
    Ended (requestWorkerCancellation s reason detail now w).1 := by
  unfold requestWorkerCancellation
  split_ifs
  · exact .of_open h
  · exact .of_some rfl rfl
  · exact .of_open rfl

theorem tidy_bindWorkerRun {runId : String} {execution : Option (ℕ × String)} {w w' : Worker}
    (h : bindWorkerRun runId execution w = .ok w') (hw : Tidy w) : Tidy w' := by
  unfold bindWorkerRun at h
  by_cases ht : w.status.isTerminal = true
  · rw [if_pos ht] at h
    cases h
  have hopen : w.status.isTerminal = false := Bool.eq_false_iff.2 ht
  rw [if_neg ht] at h
  cases execution with
  | none =>
    dsimp only at h
    split_ifs at h
    obtain rfl := Except.ok.inj h
    exact ⟨.of_open hopen, hw.preCancel⟩
  | some e =>
    dsimp only at h
    split_ifs at h <;> obtain rfl := Except.ok.inj h
    · exact ⟨.of_open rfl, hw.preCancel⟩
    · exact ⟨.of_open hopen, hw.preCancel⟩

/-- A method of `updateWorker` leaves an open worker open or ends it with a reason. -/
theorem WorkerUpdate.tidy {s : DurableState} {w w' : Worker} {u : WorkerUpdate}
    {claim : CancellationClaim} (h : u.apply s w = .ok (w', claim)) (hw : Tidy w) : Tidy w' := by
  by_cases hb : u.binds = true
  · cases u <;> try cases hb
    obtain ⟨v, hv, e⟩ := map_ok h
    cases e
    exact tidy_bindWorkerRun hv hw
  have hserviced := WorkerUpdate.serviced (Bool.eq_false_iff.2 hb) h
  refine ⟨?_, hserviced.preCancel hw.preCancel⟩
  by_cases ht : w.status.isTerminal = true
  · exact hw.ended.later (WorkerUpdate.later h) ht
  have hopen : w.status.isTerminal = false := Bool.eq_false_iff.2 ht
  by_cases hends : u.MayEnd s w
  swap
  · refine .of_open (Bool.eq_false_iff.2 fun hterminal => ?_)
    exact hends (hserviced.ended hw.preCancel hopen hterminal)
  cases u with
  | requestWorkerCancellation reason detail now =>
    have e : (Store.requestWorkerCancellation s reason detail now w).1 = w' :=
      congrArg Prod.fst (Except.ok.inj h)
    exact e ▸ ended_requestWorkerCancellation hopen
  | recordWorkerTerminal status result stopReason now =>
    cases h
    exact ended_recordWorkerTerminal hopen
  | settleWorkerCancellation status result stopReason now keep =>
    cases h
    exact ended_settleWorkerCancellation hopen
  | expireWorker deadline now =>
    cases h
    exact ended_expireWorker hopen
  | _ => exact hends.elim

theorem tidy_launchedWorker {target : LaunchTarget} {event : LaunchAuditEvent} {w : Worker}
    (hw : Tidy w) : Tidy (launchedWorker env target event w) := by
  have hbound : ∀ runId, Tidy (bindLaunchedRun runId w) := by
    intro runId
    unfold bindLaunchedRun
    split_ifs <;> exact ⟨hw.ended, hw.preCancel⟩
  have hfailed : ∀ v : Worker, Tidy v → Tidy (failLaunchedWorker env event v) := by
    intro v hv
    unfold failLaunchedWorker
    refine ⟨?_, fun st hst => by cases hst⟩
    split_ifs with ht
    · exact hv.ended
    · exact .of_some rfl rfl
  unfold launchedWorker
  cases event.runId with
  | none => split_ifs <;> [exact hfailed w hw; exact hw]
  | some runId => split_ifs <;> [exact hfailed _ (hbound runId); exact hbound runId]

/-- What a call must keep to for its outcomes to be classified: it records no result for a worker
without a stop reason, and the workers it offers are tidy. -/
def Call.Classifies (env : Env) (s : DurableState) : Call → Prop
  | .recordWorkerResult id _ _ _ =>
    ∀ w, s.worker? id = some w → w.status.isTerminal = false → w.stopReason ≠ none
  | c => ∀ o ∈ c.offered env, Tidy o.2

theorem tidy_added {s : DurableState} {c : Call} (hc : c.Classifies env s) :
    ∀ w ∈ c.added env, Tidy w := by
  intro w hw
  cases c with
  | createBatch name clientId assignments key now uuid =>
    obtain ⟨x, -, rfl⟩ := List.mem_map.1 hw
    exact ⟨.of_open rfl, fun st hst => by cases hst⟩
  | acceptLaunch input batch uuid =>
    obtain ⟨o, ho, rfl⟩ := List.mem_map.1 hw
    exact hc o ho
  | acceptLaunchBatch inputs batch uuids =>
    obtain ⟨o, ho, rfl⟩ := List.mem_map.1 hw
    exact hc o ho
  | _ => cases hw

theorem Rewrites.tidy {s : DurableState} {c : Call} {w w' : Worker}
    (hs : (s.workers.map (·.id)).Nodup) (hmem : w ∈ s.workers) (hc : c.Classifies env s)
    (h : Rewrites env s c w w') (hw : Tidy w) : Tidy w' := by
  cases h with
  | same => exact hw
  | updated hvalid happly => exact WorkerUpdate.tidy happly hw
  | recovered =>
    have hserviced := @serviced_recoverDeliveryClaim False w
    refine ⟨?_, hserviced.preCancel hw.preCancel⟩
    by_cases ht : w.status.isTerminal = true
    · exact hw.ended.later (later_recoverDeliveryClaim w) ht
    · exact .of_open (Bool.eq_false_iff.2
        (hserviced.ended hw.preCancel (Bool.eq_false_iff.2 ht)))
  | resulted hopen =>
    refine ⟨fun _ => ⟨Option.some_ne_none _, ?_⟩, hw.preCancel⟩
    exact hc w (Keyed.lookup_of_mem hs hmem) hopen
  | reconciled =>
    unfold reconcileWorker
    split_ifs
    · exact ⟨.of_open rfl, hw.preCancel⟩
    · exact hw
  | launched ha hsession hover hallowed hrun => exact tidy_launchedWorker hw
  | captured ha hstatus hsession =>
    unfold settleCaptured
    split_ifs
    · exact hw
    · exact ⟨.of_some rfl rfl, fun st hst => by cases hst⟩

theorem tidy_step {disk : Disk} {i : Call × WriteOutcome} (hv : Valid env disk)
    (hc : i.1.Classifies env (contents disk)) (h : ∀ w ∈ (contents disk).workers, Tidy w) :
    ∀ w ∈ (contents (step env disk i)).workers, Tidy w := by
  intro w' hw'
  rcases step_origin hw' with ⟨w, hw, hrewrites⟩ | hadded
  · exact hrewrites.tidy hv.uniqueWorkers hw hc (h w hw)
  · exact tidy_added hc w' hadded

theorem classified_of_ended {w : Worker} (hs : WorkerSchema env w) (h : Ended w)
    (ht : w.status.isTerminal = true) : Classified w := by
  obtain ⟨hat, hreason⟩ := h ht
  obtain ⟨completedAt, hat⟩ := Option.ne_none_iff_exists'.1 hat
  obtain ⟨reason, hreason⟩ := Option.ne_none_iff_exists'.1 hreason
  have hallowed := hs.stopReasonAllowed
  cases hst : w.status with
  | succeeded | failed | canceled =>
    rw [hst, hreason] at hallowed
    exact ⟨completedAt, reason, _, hat, hreason, by rw [hst]; rfl, hallowed _ rfl reason rfl⟩
  | _ => rw [hst] at ht; cases ht

/-- **Terminal workers are classified.** In every run whose calls record no result for a worker
without a stop reason, every terminal worker has a completion time and one reason of its status. -/
theorem terminal_classified {calls : List (Call × WriteOutcome)}
    (h : Runs.Admissible (step env) (fun d i => i.1.Classifies env (contents d)) none calls) :
    ∀ w ∈ (contents (Runs.run (step env) none calls)).workers, w.status.isTerminal = true →
      Classified w := by
  obtain ⟨hvalid, htidy⟩ := Runs.run_invariant_of (step env)
    (P := fun d => Valid env d ∧ ∀ w ∈ (contents d).workers, Tidy w)
    (fun d i hd hi => ⟨valid_step env d i hd.1, tidy_step hd.1 hi hd.2⟩)
    ⟨valid_none env, fun w hw => by cases hw⟩ h
  intro w hw ht
  exact classified_of_ended (hvalid.workers w hw) (htidy w hw).ended ht

theorem terminal_classified_sample : ∃ w ∈ (contents sampleDisk).workers,
    w.status.isTerminal = true ∧ Classified w := by
  have hsome : ((contents sampleDisk).worker? "s1").any (fun w => w.status.isTerminal) = true := by
    decide +kernel
  obtain ⟨w, hw, ht⟩ := (Option.any_eq_true _ _).1 hsome
  have hcalls : Runs.Admissible (step plainEnv)
      (fun d i => i.1.Classifies plainEnv (contents d)) none sampleCalls := by
    refine ⟨?_, (fun _ => (nomatch ·)), (fun _ => (nomatch ·)), (fun _ => (nomatch ·)), trivial⟩
    intro o ho
    obtain rfl := List.mem_singleton.1 ho
    exact ⟨.of_open rfl, fun _ => (nomatch ·)⟩
  exact ⟨w, Keyed.mem_of_lookup hw, ht,
    terminal_classified hcalls w (Keyed.mem_of_lookup hw) ht⟩

/-- A batch of one assignment whose result is recorded. -/
def resultCalls : List (Call × WriteOutcome) :=
  [written (.createBatch "n" "c1" [sampleAttribution] none "2026-01-01"
      fun n => if n = 0 then "s1" else if n = 1 then "b1" else "w1"),
    written (.recordWorkerResult "w1" true none "2026-01-02")]

/-- The recorded worker succeeded without a stop reason. -/
theorem result_recorded_without_reason :
    ∃ w ∈ (contents (Runs.run (step plainEnv) none resultCalls)).workers,
      w.status.isTerminal = true ∧ ¬ Classified w := by
  have hsome : ((contents (Runs.run (step plainEnv) none resultCalls)).worker? "w1").any
      (fun w => w.status.isTerminal && w.stopReason.isNone) = true := by decide +kernel
  obtain ⟨w, hw, hboth⟩ := (Option.any_eq_true _ _).1 hsome
  obtain ⟨ht, hnone⟩ := Bool.and_eq_true_iff.1 hboth
  refine ⟨w, Keyed.mem_of_lookup hw, ht, ?_⟩
  rintro ⟨completedAt, reason, allowed, -, hreason, -⟩
  rw [hreason] at hnone
  cases hnone

/-! ## The first cancellation reason -/

/-- The call withdraws the cancellation of a worker. -/
def Call.withdraws (id : String) : Call → Bool
  | .updateWorker workerId .clearWorkerCancellation => workerId = id
  | .updateWorker workerId .handleUnsupportedCancellation => workerId = id
  | _ => false

/-- The call records an unknown outcome for a worker. -/
def Call.recordsUnknown (id : String) : Call → Bool
  | .updateWorker workerId (.recordWorkerTerminal .unknownOutcome _ _ _) => workerId = id
  | .updateWorker workerId (.settleWorkerCancellation .unknownOutcome _ _ _ _) => workerId = id
  | _ => false

/-- The step leaves the file alone, or neither withdraws the cancellation of the worker nor records
an unknown outcome for it. -/
def KeepsIntent (env : Env) (id : String) (disk : Disk) (i : Call × WriteOutcome) : Prop :=
  step env disk i = disk ∨ (i.1.withdraws id = false ∧ i.1.recordsUnknown id = false)

/-- The worker is being canceled for the reason, or it is terminal. -/
def CancelingFor (reason : String) (w : Worker) : Prop :=
  (w.status = .canceling ∧ w.stopReason = some reason) ∨ w.status.isTerminal = true

theorem CancelingFor.of_same {reason : String} {w w' : Worker}
    (h : w.status = .canceling ∧ w.stopReason = some reason) (hst : w'.status = w.status)
    (hreason : w'.stopReason = w.stopReason) : CancelingFor reason w' :=
  Or.inl ⟨hst.trans h.1, hreason.trans h.2⟩

theorem TerminalWorkerStatus.isTerminal {status : TerminalWorkerStatus}
    (h : status ≠ .unknownOutcome) : status.status.isTerminal = true := by
  cases status with
  | unknownOutcome => exact absurd rfl h
  | _ => rfl

/-- A method of `updateWorker` that does not disturb the intent keeps its reason. -/
theorem WorkerUpdate.cancelingFor {s : DurableState} {w w' : Worker} {u : WorkerUpdate}
    {claim : CancellationClaim} {reason : String} (h : u.apply s w = .ok (w', claim))
    (hw : w.status = .canceling ∧ w.stopReason = some reason)
    (hwithdraws : (Call.updateWorker w.id u).withdraws w.id = false)
    (hunknown : (Call.updateWorker w.id u).recordsUnknown w.id = false) :
    CancelingFor reason w' := by
  have hopen : w.status.isTerminal = false := open_of_eq hw.1 rfl
  cases u with
  | bindWorkerRun runId execution =>
    obtain ⟨v, hv, e⟩ := map_ok h
    cases e
    unfold Store.bindWorkerRun at hv
    rw [if_neg (Bool.eq_false_iff.1 hopen)] at hv
    cases execution with
    | none =>
      dsimp only at hv
      split_ifs at hv
      obtain rfl := Except.ok.inj hv
      exact .of_same hw rfl rfl
    | some e =>
      dsimp only at hv
      rw [if_neg (fun hst : w.status = .requested ∨ w.status = .running => by
        rw [hw.1] at hst
        rcases hst with e | e <;> cases e)] at hv
      split_ifs at hv
      obtain rfl := Except.ok.inj hv
      exact .of_same hw rfl rfl
  | setWorkerDeadline deadline =>
    obtain ⟨v, hv, e⟩ := map_ok h
    cases e
    unfold Store.setWorkerDeadline at hv
    split_ifs at hv
    obtain rfl := Except.ok.inj hv
    exact .of_same hw rfl rfl
  | requestWorkerCancellation r detail now =>
    have e : (Store.requestWorkerCancellation s r detail now w).1 = w' :=
      congrArg Prod.fst (Except.ok.inj h)
    unfold Store.requestWorkerCancellation at e
    rw [if_pos (Or.inr hw.1)] at e
    exact e ▸ Or.inl hw
  | claimCancellationDelivery =>
    cases h
    unfold Store.claimCancellationDelivery
    split_ifs <;> exact .of_same hw rfl rfl
  | releaseCancellationDelivery =>
    cases h
    unfold Store.releaseCancellationDelivery
    dsimp only
    split_ifs <;> exact .of_same hw rfl rfl
  | markCancellationDelivered => cases h; exact .of_same hw rfl rfl
  | markProviderStopDelivered => cases h; exact .of_same hw rfl rfl
  | markProviderStopUnsupported => cases h; exact .of_same hw rfl rfl
  | handleUnsupportedCancellation => exact absurd hwithdraws (by simp [Call.withdraws])
  | claimProviderStop =>
    cases h
    unfold Store.claimProviderStop
    split_ifs <;> exact .of_same hw rfl rfl
  | releaseProviderStop =>
    cases h
    unfold Store.releaseProviderStop
    dsimp only
    split_ifs <;> exact .of_same hw rfl rfl
  | clearWorkerCancellation => exact absurd hwithdraws (by simp [Call.withdraws])
  | recordWorkerTerminal status result stopReason now =>
    cases h
    unfold Store.recordWorkerTerminal
    rw [if_neg (Bool.eq_false_iff.1 hopen)]
    refine Or.inr (TerminalWorkerStatus.isTerminal ?_)
    rintro rfl
    exact absurd hunknown (by simp [Call.recordsUnknown])
  | settleWorkerCancellation status result stopReason now keep =>
    cases h
    unfold Store.settleWorkerCancellation
    rw [if_neg (Bool.eq_false_iff.1 hopen), if_pos hw.1]
    refine Or.inr (TerminalWorkerStatus.isTerminal ?_)
    rintro rfl
    exact absurd hunknown (by simp [Call.recordsUnknown])
  | expireWorker deadline now =>
    cases h
    unfold Store.expireWorker
    dsimp only
    split_ifs
    · exact .of_same hw rfl rfl
    all_goals exact Or.inr rfl

theorem cancelingFor_recoverDeliveryClaim {reason : String} {w : Worker}
    (hw : w.status = .canceling ∧ w.stopReason = some reason) :
    CancelingFor reason (recoverDeliveryClaim w) := by
  have hne : w.status ≠ .unknownOutcome := by
    rw [hw.1]
    decide
  unfold recoverDeliveryClaim
  simp only [if_neg hne]
  split_ifs <;> exact .of_same hw rfl rfl

theorem cancelingFor_launchedWorker {target : LaunchTarget} {event : LaunchAuditEvent}
    {reason : String} {w : Worker} (hw : w.status = .canceling ∧ w.stopReason = some reason) :
    CancelingFor reason (launchedWorker env target event w) := by
  have hbound : ∀ runId, (bindLaunchedRun runId w).status = .canceling ∧
      (bindLaunchedRun runId w).stopReason = some reason := by
    intro runId
    unfold bindLaunchedRun
    split_ifs <;> exact hw
  have hfailed : ∀ v : Worker, v.status = .canceling →
      CancelingFor reason (failLaunchedWorker env event v) := by
    intro v hv
    unfold failLaunchedWorker
    rw [if_neg (Bool.eq_false_iff.1 (open_of_eq hv rfl))]
    exact Or.inr rfl
  unfold launchedWorker
  cases event.runId with
  | none => split_ifs <;> [exact hfailed w hw.1; exact Or.inl hw]
  | some runId => split_ifs <;> [exact hfailed _ (hbound runId).1; exact Or.inl (hbound runId)]

/-- **A pending cancellation keeps its reason** in every call that does not disturb the intent. -/
theorem Rewrites.cancelingFor {s : DurableState} {c : Call} {w w' : Worker} {reason : String}
    (h : Rewrites env s c w w') (hw : CancelingFor reason w)
    (hwithdraws : c.withdraws w.id = false) (hunknown : c.recordsUnknown w.id = false) :
    CancelingFor reason w' := by
  rcases hw with hw | hw
  swap
  · exact Or.inr (by rw [(h.later.outcome hw).status]; exact hw)
  cases h with
  | same => exact Or.inl hw
  | updated hvalid happly => exact WorkerUpdate.cancelingFor happly hw hwithdraws hunknown
  | recovered => exact cancelingFor_recoverDeliveryClaim hw
  | @resulted _ succeeded result completedAt hopen =>
    refine Or.inr ?_
    cases succeeded <;> rfl
  | reconciled =>
    unfold reconcileWorker
    rw [if_neg (fun hr => by rw [hw.1] at hr; cases hr.1)]
    exact Or.inl hw
  | launched ha hsession hover hallowed hrun => exact cancelingFor_launchedWorker hw
  | @captured r a _ ha hstatus hsession =>
    unfold settleCaptured
    rw [if_neg (Bool.eq_false_iff.1 (open_of_eq hw.1 rfl))]
    refine Or.inr ?_
    cases r.claim.status <;> rfl

theorem cancelingFor_step {disk : Disk} {i : Call × WriteOutcome} {id reason : String}
    (hv : Valid env disk) (hi : KeepsIntent env id disk i)
    (h : ∃ w, (contents disk).worker? id = some w ∧ CancelingFor reason w) :
    ∃ w, (contents (step env disk i)).worker? id = some w ∧ CancelingFor reason w := by
  obtain ⟨w, hw, hreason⟩ := h
  rcases hi with e | ⟨hwithdraws, hunknown⟩
  · rw [e]
    exact ⟨w, hw, hreason⟩
  · obtain ⟨w', hw', hrewrites⟩ := step_version hv i hw
    obtain rfl := Keyed.key_of_lookup hw
    exact ⟨w', hw', hrewrites.cancelingFor hreason hwithdraws hunknown⟩

theorem cancelingFor_run {disk : Disk} {calls : List (Call × WriteOutcome)} {id reason : String}
    (hv : Valid env disk) (hcalls : Runs.Admissible (step env) (KeepsIntent env id) disk calls)
    (h : ∃ w, (contents disk).worker? id = some w ∧ CancelingFor reason w) :
    ∃ w, (contents (Runs.run (step env) disk calls)).worker? id = some w ∧ CancelingFor reason w :=
  (Runs.run_invariant_of (step env)
    (P := fun d => Valid env d ∧ ∃ w, (contents d).worker? id = some w ∧ CancelingFor reason w)
    (fun d i hd hi => ⟨valid_step env d i hd.1, cancelingFor_step hd.1 hi hd.2⟩)
    ⟨hv, h⟩ hcalls).2

/-- A request that makes a worker canceling records its reason. -/
theorem cancelingFor_request {disk : Disk} {io : WriteOutcome} {id reason : String}
    {detail : Option String} {now : Timestamp} {w w' : Worker} (hv : Valid env disk)
    (hw : (contents disk).worker? id = some w) (hnew : w.status ≠ .canceling)
    (hw' : (contents (step env disk (.updateWorker id
      (.requestWorkerCancellation reason detail now), io))).worker? id = some w')
    (hc : w'.status = .canceling) : CancelingFor reason w' := by
  obtain ⟨v, hv, hrewrites⟩ := step_version hv
    (.updateWorker id (.requestWorkerCancellation reason detail now), io) hw
  obtain rfl := Option.some.inj (hw'.symm.trans hv)
  cases hrewrites with
  | same => exact absurd hc hnew
  | updated hvalid happly =>
    have e : (Store.requestWorkerCancellation (contents disk) reason detail now w).1 = w' :=
      congrArg Prod.fst (Except.ok.inj happly)
    unfold Store.requestWorkerCancellation at e
    split_ifs at e <;> subst e
    · exact absurd hc hnew
    · cases hc
    · exact Or.inl ⟨rfl, rfl⟩

/-- The call settles the worker without a stop reason of its own. -/
def Call.SettlesPlainly (id : String) : Call → Prop
  | .updateWorker workerId (.recordWorkerTerminal _ _ stopReason _) =>
    workerId = id ∧ stopReason = none
  | .updateWorker workerId (.settleWorkerCancellation _ _ stopReason _ _) =>
    workerId = id ∧ stopReason = none
  | .captureResult r => r.sessionId = id
  | _ => False

/-- The worker was settled with the reason of its cancellation. -/
structure SettledFor (reason : String) (w : Worker) : Prop where
  canceled : w.status = .canceled → w.stopReason = some reason
  succeeded : w.status = .succeeded → w.stopReason = some "succeeded_before_cancellation"

/-- The call captures a success, or a cancellation for another reason than the user's. -/
def Call.Forgets (reason : String) : Call → Prop
  | .captureResult r => r.claim.status = .succeeded ∨
      (r.claim.status = .cancelled ∧ reason ≠ "user_requested")
  | _ => False

theorem settledFor_terminalStopReason {status : TerminalWorkerStatus} {reason : String} {w : Worker}
    (hst : w.status = status.status) (hreason : w.stopReason =
      terminalStopReason status none "succeeded_before_cancellation" (some reason)) :
    SettledFor reason w := by
  constructor
  · intro hc
    cases status <;> first | exact hreason | (rw [hst] at hc; cases hc)
  · intro hc
    cases status <;> first | exact hreason | (rw [hst] at hc; cases hc)

theorem settledFor_settleCaptured {r : CapturedResult} {w : Worker} {reason : String}
    (hopen : w.status.isTerminal = false) :
    SettledFor reason (settleCaptured r w) ↔ ¬ (Call.captureResult r).Forgets reason := by
  unfold settleCaptured
  rw [if_neg (Bool.eq_false_iff.1 hopen)]
  constructor
  · rintro ⟨hcanceled, hsucceeded⟩ (hclaim | ⟨hclaim, hne⟩)
    · rw [hclaim] at hsucceeded
      have hreason : some "succeeded" = some "succeeded_before_cancellation" := hsucceeded rfl
      exact absurd hreason (by decide)
    · rw [hclaim] at hcanceled
      exact hne (Option.some.inj (hcanceled rfl)).symm
  · intro hkept
    cases hclaim : r.claim.status with
    | succeeded => exact absurd (Or.inl hclaim) hkept
    | cancelled =>
      refine ⟨fun _ => ?_, (nomatch ·)⟩
      by_contra hne
      exact hkept (Or.inr ⟨hclaim, fun e => hne (congrArg some e.symm)⟩)
    | _ => exact ⟨(nomatch ·), (nomatch ·)⟩

/-- What settles a canceling worker plainly keeps its reason unless it is a capture that forgets. -/
theorem Rewrites.settledFor_iff {s : DurableState} {c : Call} {w w' : Worker} {reason : String}
    (h : Rewrites env s c w w') (hc : c.SettlesPlainly w.id) (hst : w.status = .canceling)
    (hreason : w.stopReason = some reason) (ht : w'.status.isTerminal = true) :
    SettledFor reason w' ↔ ¬ c.Forgets reason := by
  have hopen : w.status.isTerminal = false := open_of_eq hst rfl
  cases h with
  | same => rw [hopen] at ht; cases ht
  | @updated u _ _ claim hvalid happly =>
    cases u with
    | recordWorkerTerminal status result stopReason now =>
      obtain ⟨-, rfl⟩ := hc
      refine iff_of_true ?_ id
      cases happly
      unfold Store.recordWorkerTerminal
      rw [if_neg (Bool.eq_false_iff.1 hopen), if_pos hst, hreason]
      exact settledFor_terminalStopReason rfl rfl
    | settleWorkerCancellation status result stopReason now keep =>
      obtain ⟨-, rfl⟩ := hc
      refine iff_of_true ?_ id
      cases happly
      unfold Store.settleWorkerCancellation
      rw [if_neg (Bool.eq_false_iff.1 hopen), if_pos hst, hreason]
      exact settledFor_terminalStopReason rfl rfl
    | _ => exact hc.elim
  | captured ha hstatus hsession => exact settledFor_settleCaptured hopen
  | _ => exact hc.elim

/-- **The first cancellation reason.** After a request made a worker canceling, through every
sequence of calls that neither withdraw the intent nor record an unknown outcome, what settles the
worker without a reason of its own keeps the reason exactly if it is not a capture that forgets. -/
theorem first_reason_survives_iff {disk : Disk} (h : Reachable env disk) {id reason : String}
    {detail : Option String} {now : Timestamp} {io : WriteOutcome} {w₀ w₁ : Worker}
    (h₀ : (contents disk).worker? id = some w₀) (hnew : w₀.status ≠ .canceling)
    (h₁ : (contents (step env disk (.updateWorker id
      (.requestWorkerCancellation reason detail now), io))).worker? id = some w₁)
    (hc : w₁.status = .canceling) {calls : List (Call × WriteOutcome)}
    (hcalls : Runs.Admissible (step env) (KeepsIntent env id) (step env disk (.updateWorker id
      (.requestWorkerCancellation reason detail now), io)) calls)
    {i : Call × WriteOutcome} (hi : i.1.SettlesPlainly id) {w w' : Worker}
    (hw : (contents (Runs.run (step env) (step env disk (.updateWorker id
      (.requestWorkerCancellation reason detail now), io)) calls)).worker? id = some w)
    (hopen : w.status.isTerminal = false)
    (hw' : (contents (step env (Runs.run (step env) (step env disk (.updateWorker id
      (.requestWorkerCancellation reason detail now), io)) calls) i)).worker? id = some w')
    (ht : w'.status.isTerminal = true) : SettledFor reason w' ↔ ¬ i.1.Forgets reason := by
  have hvalid := valid_step env disk (.updateWorker id
    (.requestWorkerCancellation reason detail now), io) h.valid
  have hrequest := cancelingFor_request h.valid h₀ hnew h₁ hc
  obtain ⟨v, hv, hreason⟩ := cancelingFor_run hvalid hcalls ⟨w₁, h₁, hrequest⟩
  obtain rfl := Option.some.inj (hw.symm.trans hv)
  obtain ⟨v', hv', hrewrites⟩ := step_version (valid_run env hvalid calls) i hw
  obtain rfl := Option.some.inj (hw'.symm.trans hv')
  obtain rfl := Keyed.key_of_lookup hw
  rcases hreason with ⟨hst, hr⟩ | hterminal
  · exact hrewrites.settledFor_iff hi hst hr ht
  · rw [hopen] at hterminal
    cases hterminal

/-- The sample session runs. -/
def launchedDisk : Disk :=
  Runs.run (step plainEnv) none (sampleLaunching ++ [sampleEvent "e3" .launched (some "run-1")])

/-- The sample session is to be canceled because it is superseded. -/
def supersede : Call × WriteOutcome :=
  written (.updateWorker "s1" (.requestWorkerCancellation "superseded" none "2026-01-03"))

/-- A provider observation settles the superseded session with its reason. -/
theorem first_reason_survives_iff_sample : ∃ w',
    (contents (step plainEnv (step plainEnv launchedDisk supersede) (written (.updateWorker "s1"
      (.settleWorkerCancellation .canceled none none "2026-01-04" false))))).worker? "s1" = some w' ∧
      w'.status.isTerminal = true ∧ SettledFor "superseded" w' := by
  have hfirst : ((contents launchedDisk).worker? "s1").any
      (fun w => w.status ≠ .canceling) = true := by decide +kernel
  have hsecond : ((contents (step plainEnv launchedDisk supersede)).worker? "s1").any
      (fun w => w.status = .canceling) = true := by decide +kernel
  have hlast : ((contents (step plainEnv (step plainEnv launchedDisk supersede)
      (written (.updateWorker "s1" (.settleWorkerCancellation .canceled none none "2026-01-04"
        false))))).worker? "s1").any (fun w => w.status.isTerminal) = true := by decide +kernel
  obtain ⟨w₀, h₀, hnew⟩ := (Option.any_eq_true _ _).1 hfirst
  obtain ⟨w₁, h₁, hc⟩ := (Option.any_eq_true _ _).1 hsecond
  obtain ⟨w', hw', ht⟩ := (Option.any_eq_true _ _).1 hlast
  have hcanceling : w₁.status = .canceling := of_decide_eq_true hc
  refine ⟨w', hw', ht, (@first_reason_survives_iff plainEnv launchedDisk ⟨_, rfl⟩ "s1" "superseded"
    none "2026-01-03" .written w₀ w₁ h₀ (of_decide_eq_true hnew) h₁ hcanceling [] trivial
    (written (.updateWorker "s1" (.settleWorkerCancellation .canceled none none "2026-01-04" false)))
    ⟨rfl, rfl⟩ w₁ w' h₁ (open_of_eq hcanceling rfl) hw' ht).2 id⟩

/-- The cancellation of the superseded session is captured, and its reason forgotten. -/
theorem captured_reason_forgotten :
    ((contents (step plainEnv launchedDisk supersede)).worker? "s1").any
      (fun w => w.status = .canceling ∧ w.stopReason = some "superseded") = true ∧
    ∃ w', (contents (step plainEnv (step plainEnv launchedDisk supersede) (written (.captureResult
      { sampleResult with claim := { status := .cancelled, completeness := .missing } })))).worker?
        "s1" = some w' ∧ w'.status = .canceled ∧ ¬ SettledFor "superseded" w' := by
  have hpending : ((contents (step plainEnv launchedDisk supersede)).worker? "s1").any
      (fun w => w.status = .canceling ∧ w.stopReason = some "superseded") = true := by
    decide +kernel
  have hlast : ((contents (step plainEnv (step plainEnv launchedDisk supersede)
      (written (.captureResult { sampleResult with
        claim := { status := .cancelled, completeness := .missing } })))).worker? "s1").any
      (fun w => w.status = .canceled ∧ w.stopReason = some "user_requested") = true := by
    decide +kernel
  obtain ⟨w', hw', hboth⟩ := (Option.any_eq_true _ _).1 hlast
  obtain ⟨hst, hreason⟩ := of_decide_eq_true hboth
  refine ⟨hpending, w', hw', hst, fun hsettled => ?_⟩
  have hforgotten := hreason.symm.trans (hsettled.canceled hst)
  exact absurd hforgotten (by decide)

end AgentOrchestrator.Store
