import AgentOrchestrator.Store.Machine

/-!
# The order of the versions of a worker record

`w.Later w'` says that `w'` may be a later version of the record `w`: it is the same worker, a
bound run stays bound, and a terminal outcome (status, stop reason and completion time) is final.
The relation is reflexive and transitive, and every function the store applies to a worker
record moves forward in it.
-/

namespace AgentOrchestrator.Store

variable {env : Env}

/-- The outcome of the two records is the same. -/
structure SameOutcome (w w' : Worker) : Prop where
  status : w'.status = w.status
  stopReason : w'.stopReason = w.stopReason
  completedAt : w'.completedAt = w.completedAt

/-- `w'` may be a later version of `w`. -/
structure Worker.Later (w w' : Worker) : Prop where
  id : w'.id = w.id
  runId : ∀ r, w.runId = some r → w'.runId = some r
  outcome : w.status.isTerminal = true → SameOutcome w w'

namespace Worker.Later

variable {w w' w'' : Worker}

theorem refl (w : Worker) : w.Later w := ⟨rfl, fun _ h => h, fun _ => ⟨rfl, rfl, rfl⟩⟩

theorem trans (h : w.Later w') (h' : w'.Later w'') : w.Later w'' := by
  refine ⟨h'.id.trans h.id, fun r hr => h'.runId r (h.runId r hr), fun ht => ?_⟩
  have o := h.outcome ht
  have o' := h'.outcome (by rw [o.status]; exact ht)
  exact ⟨o'.status.trans o.status, o'.stopReason.trans o.stopReason,
    o'.completedAt.trans o.completedAt⟩

/-- A change that leaves identity, run and outcome alone. -/
theorem of_same (hid : w'.id = w.id) (hrun : w'.runId = w.runId) (ho : SameOutcome w w') :
    w.Later w' := ⟨hid, fun _ hr => hrun.trans hr, fun _ => ho⟩

/-- Any change of a worker that is not terminal, as long as identity and run stay. -/
theorem of_open (ht : w.status.isTerminal = false) (hid : w'.id = w.id)
    (hrun : w'.runId = w.runId) : w.Later w' := by
  refine ⟨hid, fun _ hr => hrun.trans hr, fun h => ?_⟩
  rw [ht] at h
  cases h

end Worker.Later

/-- A status the code compares with is not terminal. -/
theorem open_of_eq {w : Worker} {status : WorkerStatus} (h : w.status = status)
    (hs : status.isTerminal = false) : w.status.isTerminal = false := by rw [h]; exact hs

/-! ## The methods of `updateWorker` -/

/-- A bound run that may be written again is the run already bound. -/
theorem run_kept {w : Worker} {runId : String} (h : ¬ (w.runId ≠ none ∧ w.runId ≠ some runId)) :
    ∀ r, w.runId = some r → some runId = some r := by
  intro r hw
  by_contra hne
  exact h ⟨by rw [hw]; exact Option.some_ne_none r, by rw [hw]; exact fun e => hne e.symm⟩

theorem later_bindWorkerRun {runId : String} {execution : Option (ℕ × String)} {w w' : Worker}
    (h : bindWorkerRun runId execution w = .ok w') : w.Later w' := by
  unfold bindWorkerRun at h
  by_cases ht : w.status.isTerminal = true
  · rw [if_pos ht] at h
    cases h
  by_cases hr : w.runId ≠ none ∧ w.runId ≠ some runId
  · rw [if_neg ht, if_pos hr] at h
    cases h
  rw [if_neg ht, if_neg hr] at h
  have hrun := run_kept hr
  cases execution with
  | none => cases h; exact ⟨rfl, hrun, fun e => absurd e ht⟩
  | some e =>
    dsimp only at h
    split_ifs at h <;> cases h <;> exact ⟨rfl, hrun, fun e => absurd e ht⟩

theorem later_setWorkerDeadline {deadline : Timestamp} {w w' : Worker}
    (h : setWorkerDeadline deadline w = .ok w') : w.Later w' := by
  unfold setWorkerDeadline at h
  split_ifs at h
  cases h
  exact .of_same rfl rfl ⟨rfl, rfl, rfl⟩

theorem later_requestWorkerCancellation (s : DurableState) (reason : String)
    (detail : Option String) (now : Timestamp) (w : Worker) :
    w.Later (requestWorkerCancellation s reason detail now w).1 := by
  unfold requestWorkerCancellation
  split_ifs with h
  · exact .refl w
  all_goals
    refine .of_open ?_ rfl rfl
    exact Bool.eq_false_iff.2 fun ht => h (Or.inl ht)

theorem later_claimCancellationDelivery (w : Worker) :
    w.Later (claimCancellationDelivery w).1 := by
  unfold claimCancellationDelivery
  split_ifs
  · exact .refl w
  · exact .of_same rfl rfl ⟨rfl, rfl, rfl⟩

theorem later_releaseCancellationDelivery (w : Worker) :
    w.Later (releaseCancellationDelivery w) := by
  unfold releaseCancellationDelivery
  dsimp only
  split_ifs <;> exact .of_same rfl rfl ⟨rfl, rfl, rfl⟩

theorem later_handleUnsupportedCancellation (w : Worker) :
    w.Later (handleUnsupportedCancellation w) := by
  unfold handleUnsupportedCancellation
  dsimp only
  split_ifs with h h'
  · exact .of_same rfl rfl ⟨rfl, rfl, rfl⟩
  · exact .of_open (open_of_eq h' rfl) rfl rfl
  · exact .of_same rfl rfl ⟨rfl, rfl, rfl⟩

theorem later_claimProviderStop (w : Worker) : w.Later (claimProviderStop w).1 := by
  unfold claimProviderStop
  split_ifs
  · exact .refl w
  · exact .of_same rfl rfl ⟨rfl, rfl, rfl⟩

theorem later_releaseProviderStop (w : Worker) : w.Later (releaseProviderStop w) := by
  unfold releaseProviderStop
  dsimp only
  split_ifs <;> exact .of_same rfl rfl ⟨rfl, rfl, rfl⟩

theorem later_clearWorkerCancellation (w : Worker) : w.Later (clearWorkerCancellation w) := by
  unfold clearWorkerCancellation
  split_ifs with h
  · exact .of_open (open_of_eq h rfl) rfl rfl
  · exact .refl w

theorem later_recordWorkerTerminal (status : TerminalWorkerStatus) (result : Option Json)
    (stopReason : Option String) (now : Timestamp) (w : Worker) :
    w.Later (recordWorkerTerminal status result stopReason now w) := by
  unfold recordWorkerTerminal
  by_cases h : w.status.isTerminal = true
  · rw [if_pos h]
    dsimp only
    split_ifs <;> exact .of_same rfl rfl ⟨rfl, rfl, rfl⟩
  · rw [if_neg h]
    exact .of_open (Bool.eq_false_iff.2 h) rfl rfl

theorem later_settleWorkerCancellation (status : TerminalWorkerStatus) (result : Option Json)
    (stopReason : Option String) (now : Timestamp) (keep : Bool) (w : Worker) :
    w.Later (settleWorkerCancellation status result stopReason now keep w).1 := by
  unfold settleWorkerCancellation
  by_cases h : w.status.isTerminal = true
  · rw [if_pos h]
    dsimp only
    split_ifs <;> exact .of_same rfl rfl ⟨rfl, rfl, rfl⟩
  · rw [if_neg h]
    by_cases h' : w.status = .canceling
    · rw [if_pos h']
      exact .of_open (open_of_eq h' rfl) rfl rfl
    · rw [if_neg h']
      exact .refl w

theorem later_expireWorker (s : DurableState) (deadline : Option Timestamp) (now : Timestamp)
    (w : Worker) : w.Later (expireWorker s deadline now w).1 := by
  unfold expireWorker
  dsimp only
  by_cases h : w.status.isTerminal = true
  · rw [if_pos (Or.inl h)]
    exact .of_same rfl rfl ⟨rfl, rfl, rfl⟩
  · split_ifs
    · exact .of_same rfl rfl ⟨rfl, rfl, rfl⟩
    all_goals exact .of_open (Bool.eq_false_iff.2 h) rfl rfl

/-- What a mapped computation that succeeds was made of. -/
theorem map_ok {ε α β : Type} {f : α → β} {x : Except ε α} {b : β} (h : x.map f = .ok b) :
    ∃ a, x = .ok a ∧ f a = b := by
  cases x with
  | error e => cases h
  | ok a => exact ⟨a, rfl, Except.ok.inj h⟩

theorem WorkerUpdate.later {s : DurableState} {w w' : Worker} {u : WorkerUpdate}
    {claim : CancellationClaim} (h : u.apply s w = .ok (w', claim)) : w.Later w' := by
  cases u with
  | bindWorkerRun runId execution =>
    obtain ⟨v, hv, e⟩ := map_ok h
    cases e
    exact later_bindWorkerRun hv
  | setWorkerDeadline deadline =>
    obtain ⟨v, hv, e⟩ := map_ok h
    cases e
    exact later_setWorkerDeadline hv
  | requestWorkerCancellation reason detail now =>
    have e : (Store.requestWorkerCancellation s reason detail now w).1 = w' :=
      congrArg Prod.fst (Except.ok.inj h)
    exact e ▸ later_requestWorkerCancellation s reason detail now w
  | claimCancellationDelivery => cases h; exact later_claimCancellationDelivery w
  | releaseCancellationDelivery => cases h; exact later_releaseCancellationDelivery w
  | markCancellationDelivered => cases h; exact .of_same rfl rfl ⟨rfl, rfl, rfl⟩
  | markProviderStopDelivered => cases h; exact .of_same rfl rfl ⟨rfl, rfl, rfl⟩
  | markProviderStopUnsupported => cases h; exact .of_same rfl rfl ⟨rfl, rfl, rfl⟩
  | handleUnsupportedCancellation => cases h; exact later_handleUnsupportedCancellation w
  | claimProviderStop => cases h; exact later_claimProviderStop w
  | releaseProviderStop => cases h; exact later_releaseProviderStop w
  | clearWorkerCancellation => cases h; exact later_clearWorkerCancellation w
  | recordWorkerTerminal status result stopReason now =>
    cases h; exact later_recordWorkerTerminal status result stopReason now w
  | settleWorkerCancellation status result stopReason now keep =>
    cases h; exact later_settleWorkerCancellation status result stopReason now keep w
  | expireWorker deadline now => cases h; exact later_expireWorker s deadline now w

/-! ## Sweeps, launch events and results -/

theorem later_recoverDeliveryClaim (w : Worker) : w.Later (recoverDeliveryClaim w) := by
  unfold recoverDeliveryClaim
  dsimp only
  by_cases hu : w.status = .unknownOutcome
  · refine .of_open (open_of_eq hu rfl) ?_ ?_ <;> split_ifs <;> rfl
  · simp only [if_neg hu]
    split_ifs <;> exact .of_same rfl rfl ⟨rfl, rfl, rfl⟩

theorem later_reconcileWorker (alive : ℕ → Option String → Bool) (now : Timestamp) (w : Worker) :
    w.Later (reconcileWorker alive now w) := by
  unfold reconcileWorker
  split_ifs with h
  · exact .of_open (open_of_eq h.1 rfl) rfl rfl
  · exact .refl w

theorem later_bindLaunchedRun {runId : String} {w : Worker}
    (h : ¬ (w.runId ≠ none ∧ w.runId ≠ some runId)) : w.Later (bindLaunchedRun runId w) := by
  unfold bindLaunchedRun
  split_ifs <;> exact ⟨rfl, run_kept h, fun _ => ⟨rfl, rfl, rfl⟩⟩

theorem later_failLaunchedWorker (event : LaunchAuditEvent) (w : Worker) :
    w.Later (failLaunchedWorker env event w) := by
  unfold failLaunchedWorker
  by_cases h : w.status.isTerminal = true
  · rw [if_pos h]
    exact .of_same rfl rfl ⟨rfl, rfl, rfl⟩
  · rw [if_neg h]
    exact .of_open (Bool.eq_false_iff.2 h) rfl rfl

theorem later_settleCaptured (r : CapturedResult) (w : Worker) :
    w.Later (settleCaptured r w) := by
  unfold settleCaptured
  split_ifs with h
  · exact .refl w
  · exact .of_open (Bool.eq_false_iff.2 h) rfl rfl

end AgentOrchestrator.Store
