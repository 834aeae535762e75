import AgentOrchestrator.Store.Changes

/-!
# What ends a session

`Serviced ends w w'` says that a change of the worker `w` to `w'` keeps its identity and its run,
and makes it terminal only if `ends` holds.  `Call.serviced` gives, for every call that neither
records a launch event nor binds a run, what it takes to end a session with it.
-/

namespace AgentOrchestrator.Store

variable {env : Env}

/-- The status a withdrawn cancellation goes back to is not terminal. -/
def OpenCancel (w : Worker) : Prop := ∀ st ∈ w.preCancelStatus, st.isTerminal = false

structure Serviced (ends : Prop) (w w' : Worker) : Prop where
  id : w'.id = w.id
  runId : w'.runId = w.runId
  preCancel : OpenCancel w → OpenCancel w'
  ended : OpenCancel w → w.status.isTerminal = false → w'.status.isTerminal = true → ends

namespace Serviced

variable {ends : Prop} {w w' w'' : Worker}

theorem mono {ends' : Prop} (h : Serviced ends w w') (himp : ends → ends') :
    Serviced ends' w w' :=
  ⟨h.id, h.runId, h.preCancel, fun hc ho ht => himp (h.ended hc ho ht)⟩

/-- A change that leaves status and cancellation alone. -/
theorem of_same (hid : w'.id = w.id) (hrun : w'.runId = w.runId)
    (hpre : w'.preCancelStatus = w.preCancelStatus) (hst : w'.status = w.status) :
    Serviced ends w w' := by
  refine ⟨hid, hrun, fun hc => ?_, fun _ ho ht => ?_⟩
  · intro st hmem
    rw [hpre] at hmem
    exact hc st hmem
  · rw [hst, ho] at ht
    cases ht

theorem refl (w : Worker) : Serviced ends w w := of_same rfl rfl rfl rfl

/-- A change that clears the cancellation and may end the session. -/
theorem of_cleared (hid : w'.id = w.id) (hrun : w'.runId = w.runId)
    (hpre : w'.preCancelStatus = none) (hends : ends) : Serviced ends w w' := by
  refine ⟨hid, hrun, fun _ st hmem => ?_, fun _ _ _ => hends⟩
  rw [hpre] at hmem
  cases hmem

/-- A change to a status that is not terminal. -/
theorem of_open (hid : w'.id = w.id) (hrun : w'.runId = w.runId)
    (hpre : OpenCancel w → OpenCancel w')
    (hst : OpenCancel w → w'.status.isTerminal = false) : Serviced ends w w' := by
  refine ⟨hid, hrun, hpre, fun hc _ ht => ?_⟩
  rw [hst hc] at ht
  cases ht

theorem trans (h : Serviced ends w w') (h' : Serviced False w' w'') : Serviced ends w w'' := by
  refine ⟨h'.id.trans h.id, h'.runId.trans h.runId, fun hc => h'.preCancel (h.preCancel hc), ?_⟩
  intro hc ho ht
  by_cases hmid : w'.status.isTerminal = true
  · exact h.ended hc ho hmid
  · exact (h'.ended (h.preCancel hc) (Bool.eq_false_iff.2 hmid) ht).elim

end Serviced

/-! ## The methods of `updateWorker` -/

theorem serviced_withdrawCancellation {ends : Prop} (w : Worker) :
    Serviced ends w (withdrawCancellation w) := by
  refine .of_open rfl rfl (fun _ st hmem => by cases hmem) fun hc => ?_
  show (w.preCancelStatus.getD .requested).isTerminal = false
  cases hp : w.preCancelStatus with
  | none => rfl
  | some st => exact hc st hp

theorem serviced_requestWorkerCancellation (s : DurableState) (reason : String)
    (detail : Option String) (now : Timestamp) (w : Worker) :
    Serviced (launchInProgress s w = false) w
      (requestWorkerCancellation s reason detail now w).1 := by
  unfold requestWorkerCancellation
  split_ifs with h h'
  · exact .refl w
  · refine ⟨rfl, rfl, fun hc => hc, fun _ _ _ => h'.2⟩
  · refine .of_open rfl rfl (fun _ st hmem => ?_) fun _ => rfl
    obtain rfl := Option.some.inj hmem
    exact Bool.eq_false_iff.2 fun ht => h (Or.inl ht)

theorem serviced_handleUnsupportedCancellation {ends : Prop} (w : Worker) :
    Serviced ends w (handleUnsupportedCancellation w) := by
  unfold handleUnsupportedCancellation
  dsimp only
  split_ifs
  · exact .of_same rfl rfl rfl rfl
  · have h := @serviced_withdrawCancellation ends
      { w with cancellationDeliveryPending := none, cancellationDeliveryClaimed := none }
    exact ⟨h.id, h.runId, h.preCancel, h.ended⟩
  · exact .of_same rfl rfl rfl rfl

theorem serviced_clearWorkerCancellation {ends : Prop} (w : Worker) :
    Serviced ends w (clearWorkerCancellation w) := by
  unfold clearWorkerCancellation
  split_ifs
  · have h := @serviced_withdrawCancellation ends w
    exact ⟨h.id, h.runId, h.preCancel, h.ended⟩
  · exact .refl w

theorem serviced_recordWorkerTerminal (status : TerminalWorkerStatus) (result : Option Json)
    (stopReason : Option String) (now : Timestamp) (w : Worker) :
    Serviced True w (recordWorkerTerminal status result stopReason now w) := by
  unfold recordWorkerTerminal
  by_cases h : w.status.isTerminal = true
  · rw [if_pos h]
    dsimp only
    split_ifs <;> exact .of_same rfl rfl rfl rfl
  · rw [if_neg h]
    exact .of_cleared rfl rfl rfl trivial

theorem serviced_settleWorkerCancellation (status : TerminalWorkerStatus) (result : Option Json)
    (stopReason : Option String) (now : Timestamp) (keep : Bool) (w : Worker) :
    Serviced True w (settleWorkerCancellation status result stopReason now keep w).1 := by
  unfold settleWorkerCancellation
  by_cases h : w.status.isTerminal = true
  · rw [if_pos h]
    dsimp only
    split_ifs <;> exact .of_same rfl rfl rfl rfl
  · rw [if_neg h]
    by_cases h' : w.status = .canceling
    · rw [if_pos h']
      exact .of_cleared rfl rfl rfl trivial
    · rw [if_neg h']
      exact .refl w

theorem serviced_expireWorker (s : DurableState) (deadline : Option Timestamp) (now : Timestamp)
    (w : Worker) :
    Serviced ((expireWorker s deadline now w).2 = true) w (expireWorker s deadline now w).1 := by
  unfold expireWorker
  dsimp only
  split_ifs
  · exact .of_same rfl rfl rfl rfl
  all_goals exact .of_cleared rfl rfl rfl rfl

/-- What it takes to end a session with a method of `updateWorker`. -/
def WorkerUpdate.MayEnd (s : DurableState) (w : Worker) : WorkerUpdate → Prop
  | .expireWorker deadline now => (Store.expireWorker s deadline now w).2 = true
  | .requestWorkerCancellation .. => launchInProgress s w = false
  | .recordWorkerTerminal .. | .settleWorkerCancellation .. => True
  | _ => False

/-- The method binds a run. -/
def WorkerUpdate.binds : WorkerUpdate → Bool
  | .bindWorkerRun .. => true
  | _ => false

theorem WorkerUpdate.serviced {s : DurableState} {w w' : Worker} {u : WorkerUpdate}
    {claim : CancellationClaim} (hu : u.binds = false) (h : u.apply s w = .ok (w', claim)) :
    Serviced (u.MayEnd s w) w w' := by
  cases u with
  | bindWorkerRun runId execution => cases hu
  | setWorkerDeadline deadline =>
    obtain ⟨v, hv, e⟩ := map_ok h
    cases e
    unfold Store.setWorkerDeadline at hv
    split_ifs at hv
    cases hv
    exact .of_same rfl rfl rfl rfl
  | requestWorkerCancellation reason detail now =>
    have e : (Store.requestWorkerCancellation s reason detail now w).1 = w' :=
      congrArg Prod.fst (Except.ok.inj h)
    exact e ▸ serviced_requestWorkerCancellation s reason detail now w
  | claimCancellationDelivery =>
    cases h
    unfold Store.claimCancellationDelivery
    split_ifs <;> exact .of_same rfl rfl rfl rfl
  | releaseCancellationDelivery =>
    cases h
    unfold Store.releaseCancellationDelivery
    dsimp only
    split_ifs <;> exact .of_same rfl rfl rfl rfl
  | markCancellationDelivered => cases h; exact .of_same rfl rfl rfl rfl
  | markProviderStopDelivered => cases h; exact .of_same rfl rfl rfl rfl
  | markProviderStopUnsupported => cases h; exact .of_same rfl rfl rfl rfl
  | handleUnsupportedCancellation => cases h; exact serviced_handleUnsupportedCancellation w
  | claimProviderStop =>
    cases h
    unfold Store.claimProviderStop
    split_ifs <;> exact .of_same rfl rfl rfl rfl
  | releaseProviderStop =>
    cases h
    unfold Store.releaseProviderStop
    dsimp only
    split_ifs <;> exact .of_same rfl rfl rfl rfl
  | clearWorkerCancellation => cases h; exact serviced_clearWorkerCancellation w
  | recordWorkerTerminal status result stopReason now =>
    cases h
    exact serviced_recordWorkerTerminal status result stopReason now w
  | settleWorkerCancellation status result stopReason now keep =>
    cases h
    exact serviced_settleWorkerCancellation status result stopReason now keep w
  | expireWorker deadline now =>
    cases h
    exact serviced_expireWorker s deadline now w

/-! ## Sweeps and results -/

theorem serviced_recoverDeliveryClaim {ends : Prop} (w : Worker) :
    Serviced ends w (recoverDeliveryClaim w) := by
  unfold recoverDeliveryClaim
  dsimp only
  by_cases hu : w.status = .unknownOutcome
  · refine .of_open ?_ ?_ ?_ ?_
    · split_ifs <;> rfl
    · split_ifs <;> rfl
    · intro hc
      split_ifs <;> exact hc
    · intro _
      split_ifs <;> first | rfl | (show w.status.isTerminal = false; rw [hu]; rfl)
  · simp only [if_neg hu]
    split_ifs <;> exact .of_same rfl rfl rfl rfl

theorem serviced_reconcileWorker {ends : Prop} (alive : ℕ → Option String → Bool)
    (now : Timestamp) (w : Worker) : Serviced ends w (reconcileWorker alive now w) := by
  unfold reconcileWorker
  split_ifs
  · exact .of_open rfl rfl (fun hc => hc) fun _ => rfl
  · exact .refl w

theorem serviced_settleCaptured (r : CapturedResult) (w : Worker) :
    Serviced True w (settleCaptured r w) := by
  unfold settleCaptured
  split_ifs
  · exact .refl w
  · exact .of_cleared rfl rfl rfl trivial

/-! ## Calls -/

/-- What it takes to end the session of `w` with a call. -/
def Call.MayEnd (s : DurableState) (w : Worker) : Call → Prop
  | .updateWorker id u => id = w.id ∧ u.MayEnd s w
  | .recordWorkerResult id .. => id = w.id
  | .captureResult r => r.sessionId = w.id ∧
      ∃ a ∈ s.assignments, a.status = .launched ∧ a.sessionId = w.id
  | _ => False

/-- The call records a launch event or binds a run. -/
def Call.binds : Call → Bool
  | .recordLaunchEvent .. => true
  | .updateWorker _ u => u.binds
  | _ => false

/-- A worker that a call adds: offered with a launch, or of a new batch. -/
def Call.Adds (env : Env) (c : Call) (w : Worker) : Prop :=
  (∃ o ∈ c.offered env, w = o.2) ∨
    (w.status = .requested ∧ w.runId = none ∧ w.preCancelStatus = none)

/-- A worker after a put is the new version or one from before. -/
theorem serviced_put {ends : Worker → Prop} {s : DurableState} {v v' : Worker}
    (hv : v ∈ s.workers) (h : Serviced (ends v) v v') {w' : Worker}
    (hw' : w' ∈ Keyed.put (·.id) v' s.workers) : ∃ w ∈ s.workers, Serviced (ends w) w w' := by
  rcases Keyed.mem_put hw' with rfl | ⟨hw', -⟩
  · exact ⟨v, hv, h⟩
  · exact ⟨w', hw', .refl w'⟩

/-- **What ends a session.** Every worker after a call that binds no run is a version of one from
before, which the call ended only as `Call.MayEnd` says, or was added by the call. -/
theorem Call.serviced {c : Call} {s next : DurableState} (hc : c.binds = false)
    (h : c.next env s = some next) {w' : Worker} (hw' : w' ∈ next.workers) :
    (∃ w ∈ s.workers, Serviced (c.MayEnd s w) w w') ∨ c.Adds env w' := by
  have hsame : w' ∈ s.workers → (∃ w ∈ s.workers, Serviced (c.MayEnd s w) w w') ∨ c.Adds env w' :=
    fun hw => Or.inl ⟨w', hw, .refl w'⟩
  cases c with
  | createBatch name clientId assignments key now uuid =>
    unfold Call.next at h
    dsimp only at h
    split_ifs at h
    obtain ⟨session, batch, workers, hnew, rfl⟩ := createBatch_next h
    rcases List.mem_append.1 hw' with hw | hw
    · exact hsame hw
    · exact Or.inr (Or.inr (hnew w' hw))
  | updateWorker workerId u =>
    unfold Call.next at h
    dsimp only at h
    split at h
    · cases h
    · obtain ⟨w, v, claim, hw, ha, rfl⟩ := updateWorker_next h
      have hid := Keyed.key_of_lookup hw
      exact Or.inl (serviced_put (Keyed.mem_of_lookup hw)
        ((WorkerUpdate.serviced hc ha).mono fun he => ⟨hid.symm, he⟩) hw')
  | recoverLifecycleDeliveryClaims =>
    obtain rfl := recoverLifecycleDeliveryClaims_next h
    obtain ⟨w, hw, rfl⟩ := List.mem_map.1 hw'
    exact Or.inl ⟨w, hw, serviced_recoverDeliveryClaim w⟩
  | recordWorkerResult workerId succeeded result completedAt =>
    obtain ⟨w, v, hw, -, hid, hrun, hpre, rfl⟩ := recordWorkerResult_next h
    have hwid := Keyed.key_of_lookup hw
    refine Or.inl (serviced_put (Keyed.mem_of_lookup hw) ⟨hid, hrun, fun hco st hmem => ?_,
      fun _ _ _ => hwid.symm⟩ hw')
    rw [hpre] at hmem
    exact hco st hmem
  | reconcile alive now =>
    obtain rfl := Option.some.inj h
    obtain ⟨w, hw, rfl⟩ := List.mem_map.1 hw'
    exact Or.inl ⟨w, hw, serviced_reconcileWorker alive now w⟩
  | reserveLaunch intent now =>
    obtain ⟨intents, rfl⟩ := reserveLaunch_next h
    exact hsame hw'
  | updateLaunch key status runId diagnostic audit uuid now =>
    obtain ⟨intents, events, head, rfl⟩ := updateLaunch_next h
    exact hsame hw'
  | acceptLaunch input batch uuid =>
    rw [(acceptLaunch_next h).workers] at hw'
    rcases List.mem_append.1 hw' with hw | hw
    · exact hsame hw
    · obtain ⟨o, ho, rfl⟩ := List.mem_map.1 hw
      exact Or.inr (Or.inl ⟨o, ho, rfl⟩)
  | acceptLaunchBatch inputs batch uuids =>
    rw [(acceptLaunchBatch_next h).workers] at hw'
    rcases List.mem_append.1 hw' with hw | hw
    · exact hsame hw
    · obtain ⟨o, ho, rfl⟩ := List.mem_map.1 hw
      exact Or.inr (Or.inl ⟨o, ho, rfl⟩)
  | appendSecurityAudit input uuid now =>
    obtain ⟨events, head, rfl⟩ := appendSecurityAudit_next h
    exact hsame hw'
  | recordLaunchEvent id target event audit uuid => cases hc
  | captureResult r =>
    obtain ⟨a, w, ha, hst, hsession, hw, rfl⟩ := captureResult_next h
    have hid := Keyed.key_of_lookup hw
    refine Or.inl (serviced_put (Keyed.mem_of_lookup hw)
      ((serviced_settleCaptured r w).mono fun _ => ?_) hw')
    exact ⟨hid.symm, a, Keyed.mem_of_lookup ha, hst, hsession.trans hid.symm⟩

end AgentOrchestrator.Store
