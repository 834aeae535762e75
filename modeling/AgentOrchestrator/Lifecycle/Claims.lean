import AgentOrchestrator.Lifecycle.Invariant

/-!
# The claims on a worker

A delivery is offered only while the worker is canceling, and a stop past the deadline only once it
is terminal (`Marked`).  While a claimant makes its stop call the worker offers neither
(`Reserved`), and every method but the claimant's own, a release and a recovery keeps it so.
-/

namespace AgentOrchestrator.Lifecycle

open Store

variable {env : Env}

/-! ## Flags and status -/

/-- The flags of the worker fit its status. -/
structure Marked (w : Worker) : Prop where
  pending : raised w.cancellationDeliveryPending = true → w.status = .canceling
  claimed : raised w.cancellationDeliveryClaimed = true →
    w.status = .canceling ∨ w.status.isTerminal = true
  stopPending : raised w.providerStopPending = true → w.status.isTerminal = true
  stopClaimed : raised w.providerStopClaimed = true → w.status.isTerminal = true

/-- The worker offers no stop, and an expiry will not offer one. -/
structure Reserved (w : Worker) : Prop where
  pending : raised w.cancellationDeliveryPending = false
  stopPending : raised w.providerStopPending = false
  status : w.status = .canceling ∧ raised w.cancellationDeliveryClaimed = true ∨
    w.status.isTerminal = true

section
variable {w w' : Worker}

/-- On a terminal worker only the pending delivery is out of place. -/
theorem Marked.of_terminal (h : w.status.isTerminal = true)
    (hpending : raised w.cancellationDeliveryPending = false) : Marked w where
  pending hp := by rw [hpending] at hp; cases hp
  claimed _ := Or.inr h
  stopPending _ := h
  stopClaimed _ := h

/-- A worker without flags. -/
theorem Marked.of_clear (hpending : raised w.cancellationDeliveryPending = false)
    (hclaimed : raised w.cancellationDeliveryClaimed = false)
    (hstop : raised w.providerStopPending = false) (hstopped : raised w.providerStopClaimed = false) :
    Marked w where
  pending hp := by rw [hpending] at hp; cases hp
  claimed hp := by rw [hclaimed] at hp; cases hp
  stopPending hp := by rw [hstop] at hp; cases hp
  stopClaimed hp := by rw [hstopped] at hp; cases hp

/-- An open worker has no stop flag. -/
theorem Marked.stop_false (h : Marked w) (hopen : w.status.isTerminal = false) :
    raised w.providerStopPending = false ∧ raised w.providerStopClaimed = false := by
  constructor
  · refine Bool.eq_false_iff.2 fun hp => ?_
    cases hopen.symm.trans (h.stopPending hp)
  · refine Bool.eq_false_iff.2 fun hp => ?_
    cases hopen.symm.trans (h.stopClaimed hp)

/-- A worker that is not canceling has no pending delivery. -/
theorem Marked.pending_false (h : Marked w) (hstatus : w.status ≠ .canceling) :
    raised w.cancellationDeliveryPending = false :=
  Bool.eq_false_iff.2 fun hp => hstatus (h.pending hp)

theorem not_canceling_of_terminal (h : w.status.isTerminal = true) : w.status ≠ .canceling := by
  intro hcanceling
  rw [hcanceling] at h
  cases h

theorem Reserved.canceling_or_terminal (h : Reserved w) :
    w.status.isTerminal = true ∨ w.status = .canceling := by
  rcases h.status with ⟨hcanceling, -⟩ | hterm
  · exact Or.inr hcanceling
  · exact Or.inl hterm

/-! ## The methods of the store -/

theorem marked_requestWorkerCancellation (h : Marked w) (s : DurableState) (reason : String)
    (detail : Option String) (now : Timestamp) :
    Marked (requestWorkerCancellation s reason detail now w).1 := by
  unfold requestWorkerCancellation
  split_ifs with hdone hlocal
  · exact h
  · exact .of_terminal rfl (h.pending_false fun e => hdone (Or.inr e))
  · have hstop := h.stop_false (Bool.eq_false_iff.2 fun ht => hdone (Or.inl ht))
    refine ⟨fun _ => rfl, fun _ => Or.inl rfl, fun hp => ?_, fun hp => ?_⟩
    · cases hstop.1.symm.trans hp
    · cases hstop.2.symm.trans hp

/-- A claimed delivery reserves the worker. -/
theorem claimCancellationDelivery_spec (h : Marked w) :
    Marked (claimCancellationDelivery w).1 ∧
      ((claimCancellationDelivery w).2 = true →
        raised w.cancellationDeliveryPending = true ∧ Reserved (claimCancellationDelivery w).1) := by
  unfold claimCancellationDelivery
  split_ifs with hfree
  · exact ⟨h, nofun⟩
  · have hpending : raised w.cancellationDeliveryPending = true :=
      Bool.not_eq_false _ ▸ fun hp => hfree (Or.inl hp)
    have hcanceling := h.pending hpending
    have hstop := h.stop_false (by rw [hcanceling]; rfl)
    refine ⟨⟨nofun, fun _ => Or.inl hcanceling, h.stopPending, h.stopClaimed⟩, fun _ => ?_⟩
    exact ⟨hpending, rfl, hstop.1, Or.inl ⟨hcanceling, rfl⟩⟩

/-- A claimed stop reserves the worker. -/
theorem claimProviderStop_spec (h : Marked w) :
    Marked (claimProviderStop w).1 ∧
      ((claimProviderStop w).2 = true →
        raised w.providerStopPending = true ∧ Reserved (claimProviderStop w).1) := by
  unfold claimProviderStop
  split_ifs with hfree
  · exact ⟨h, nofun⟩
  · have hpending : raised w.providerStopPending = true :=
      Bool.not_eq_false _ ▸ fun hp => hfree (Or.inl hp)
    have hterm := h.stopPending hpending
    have hdelivery := h.pending_false (not_canceling_of_terminal hterm)
    refine ⟨⟨h.pending, h.claimed, nofun, fun _ => hterm⟩, fun _ => ?_⟩
    exact ⟨hpending, hdelivery, rfl, Or.inr hterm⟩

theorem marked_releaseCancellationDelivery (h : Marked w) :
    Marked (releaseCancellationDelivery w) := by
  unfold releaseCancellationDelivery
  dsimp only
  split_ifs with hcanceling hlate
  · exact ⟨fun _ => hcanceling, nofun, h.stopPending, h.stopClaimed⟩
  · refine ⟨h.pending, nofun, fun _ => ?_, h.stopClaimed⟩
    show w.status.isTerminal = true
    rw [hlate.1]
    rfl
  · exact ⟨h.pending, nofun, h.stopPending, h.stopClaimed⟩

theorem marked_handleUnsupportedCancellation (h : Marked w) :
    Marked (handleUnsupportedCancellation w) := by
  unfold handleUnsupportedCancellation
  dsimp only
  split_ifs with hlate hcanceling
  · exact .of_clear rfl rfl rfl rfl
  · have hstop := h.stop_false (by rw [hcanceling]; rfl)
    exact .of_clear rfl rfl hstop.1 hstop.2
  · exact ⟨nofun, nofun, h.stopPending, h.stopClaimed⟩

theorem marked_releaseProviderStop (h : Marked w) (hterm : w.status.isTerminal = true) :
    Marked (releaseProviderStop w) := by
  have hpending := h.pending_false (not_canceling_of_terminal hterm)
  unfold releaseProviderStop
  dsimp only
  split_ifs
  · exact .of_terminal hterm hpending
  · exact .of_terminal hterm hpending

/-- The provider's terminal observation drops the delivery flags. -/
theorem settleWorkerCancellation_spec {status : TerminalWorkerStatus}
    (hstatus : status ≠ .unknownOutcome) (result : Option Json) (reason : Option String)
    (now : Timestamp) (keep : Bool) (w : Worker) :
    (settleWorkerCancellation status result reason now keep w).1 = w ∨
      (settleWorkerCancellation status result reason now keep w).1.status.isTerminal = true ∧
      raised (settleWorkerCancellation status result reason now keep w).1.cancellationDeliveryPending
        = false ∧
      (settleWorkerCancellation status result reason now keep w).1.providerStopPending =
        w.providerStopPending := by
  unfold settleWorkerCancellation
  by_cases hterm : w.status.isTerminal = true
  · rw [if_pos hterm]
    dsimp only
    refine Or.inr ⟨?_, rfl, ?_⟩
    · split_ifs <;> exact hterm
    · split_ifs <;> rfl
  rw [if_neg hterm]
  by_cases hcanceling : w.status = .canceling
  · rw [if_pos hcanceling]
    refine Or.inr ⟨?_, rfl, rfl⟩
    cases status with
    | unknownOutcome => exact absurd rfl hstatus
    | _ => rfl
  · rw [if_neg hcanceling]
    exact Or.inl rfl

theorem marked_expireWorker (h : Marked w) (s : DurableState) (deadline : Option Timestamp)
    (now : Timestamp) : Marked (expireWorker s deadline now w).1 := by
  unfold expireWorker
  dsimp only
  split
  · exact ⟨h.pending, h.claimed, h.stopPending, h.stopClaimed⟩
  · split
    · exact .of_terminal rfl rfl
    · exact .of_terminal rfl rfl

/-- An expiry offers no stop while another delivery is claimed. -/
theorem reserved_expireWorker (h : Reserved w) (s : DurableState) (deadline : Option Timestamp)
    (now : Timestamp) : Reserved (expireWorker s deadline now w).1 := by
  unfold expireWorker
  dsimp only
  split
  · exact ⟨h.pending, h.stopPending, h.status⟩
  rename_i hdone
  have hclaimed : raised w.cancellationDeliveryClaimed = true := by
    rcases h.status with ⟨-, hclaimed⟩ | hterm
    · exact hclaimed
    · exact absurd (Or.inl hterm) hdone
  split
  · refine ⟨rfl, ?_, Or.inr rfl⟩
    show raised (if _ ∧ _ then some true else w.providerStopPending) = false
    rw [if_neg fun hfree => by rw [hclaimed] at hfree; cases hfree.1]
    exact h.stopPending
  · exact ⟨rfl, h.stopPending, Or.inr rfl⟩

theorem marked_recoverCancellation (h : Marked w) : Marked (recoverCancellation w) := by
  unfold recoverCancellation
  split
  swap
  · exact h
  rename_i hclaimed
  have hstatus := h.claimed hclaimed
  have hknown : w.status ≠ .unknownOutcome := by
    intro hunknown
    rw [hunknown] at hstatus
    rcases hstatus with hstatus | hstatus <;> cases hstatus
  dsimp only
  rw [if_neg hknown]
  dsimp only
  split
  · rename_i hopen
    refine ⟨fun _ => ?_, nofun, h.stopPending, h.stopClaimed⟩
    rcases hstatus with hcanceling | hterm
    · exact hcanceling
    · rw [hterm] at hopen
      cases hopen.2
  split
  · rename_i hlate
    have hterm : w.status.isTerminal = true := by rw [hlate.2.1]; rfl
    exact .of_terminal hterm (h.pending_false (not_canceling_of_terminal hterm))
  · exact ⟨h.pending, nofun, h.stopPending, h.stopClaimed⟩

theorem marked_recoverDeliveryClaim (h : Marked w) : Marked (recoverDeliveryClaim w) := by
  have hcancellation := marked_recoverCancellation h
  rw [recoverDeliveryClaim_eq]
  split
  · rename_i hstopped
    exact marked_releaseProviderStop hcancellation (hcancellation.stopClaimed hstopped)
  · exact hcancellation

theorem marked_launchedWorker (h : Marked w) (target : LaunchTarget) (event : LaunchAuditEvent) :
    Marked (launchedWorker env target event w) := by
  have hbind : ∀ runId, Marked (bindLaunchedRun runId w) := by
    intro runId
    unfold bindLaunchedRun
    split
    · rename_i hterm
      exact .of_terminal hterm (h.pending_false (not_canceling_of_terminal hterm))
    · exact ⟨h.pending, h.claimed, h.stopPending, h.stopClaimed⟩
  have hfail : ∀ v : Worker, Marked (failLaunchedWorker env event v) :=
    fun v => .of_clear rfl rfl rfl rfl
  unfold launchedWorker
  dsimp only
  split
  · exact hfail _
  · cases event.runId with
    | none => exact h
    | some runId => exact hbind runId

/-- A captured result ends an open session and drops its pending delivery. -/
theorem settleCaptured_spec (r : CapturedResult) (w : Worker) :
    settleCaptured r w = w ∨ (settleCaptured r w).status.isTerminal = true ∧
      raised (settleCaptured r w).cancellationDeliveryPending = false ∧
      (settleCaptured r w).providerStopPending = w.providerStopPending := by
  unfold settleCaptured
  split_ifs
  · exact Or.inl rfl
  · refine Or.inr ⟨?_, rfl, rfl⟩
    dsimp only
    cases r.claim.status <;> rfl

/-! ## Calls -/

/-- The call keeps the flags of every worker in line with its status. -/
def Marking (s : DurableState) : Call → Prop
  | .updateWorker id u =>
    match u with
    | .bindWorkerRun .. | .clearWorkerCancellation | .recordWorkerTerminal .. => False
    | .settleWorkerCancellation status .. => status ≠ .unknownOutcome
    | .releaseProviderStop => ∀ w ∈ s.workers, w.id = id → w.status.isTerminal = true
    | _ => True
  | .recordWorkerResult .. => False
  | _ => True

theorem Marked.rewritten (h : Marked w) {s : DurableState} {c : Call} (hc : Marking s c)
    (hw : w ∈ s.workers) (hrewrites : Rewrites env s c w w') : Marked w' := by
  cases hrewrites with
  | same => exact h
  | @updated u _ _ claim hvalid happly =>
    cases u with
    | bindWorkerRun runId execution => exact hc.elim
    | setWorkerDeadline deadline =>
      obtain ⟨v, hv, e⟩ := map_ok happly
      cases e
      unfold setWorkerDeadline at hv
      split_ifs at hv
      obtain rfl := Except.ok.inj hv
      exact ⟨h.pending, h.claimed, h.stopPending, h.stopClaimed⟩
    | requestWorkerCancellation reason detail now =>
      have e : (requestWorkerCancellation s reason detail now w).1 = w' :=
        congrArg Prod.fst (Except.ok.inj happly)
      exact e ▸ marked_requestWorkerCancellation h s reason detail now
    | claimCancellationDelivery => cases happly; exact (claimCancellationDelivery_spec h).1
    | releaseCancellationDelivery => cases happly; exact marked_releaseCancellationDelivery h
    | markCancellationDelivered => cases happly; exact .of_clear rfl rfl rfl rfl
    | markProviderStopDelivered => cases happly; exact ⟨h.pending, h.claimed, nofun, nofun⟩
    | markProviderStopUnsupported => cases happly; exact ⟨h.pending, h.claimed, nofun, nofun⟩
    | handleUnsupportedCancellation => cases happly; exact marked_handleUnsupportedCancellation h
    | claimProviderStop => cases happly; exact (claimProviderStop_spec h).1
    | releaseProviderStop => cases happly; exact marked_releaseProviderStop h (hc w hw rfl)
    | clearWorkerCancellation => exact hc.elim
    | recordWorkerTerminal status result reason now => exact hc.elim
    | settleWorkerCancellation status result reason now keep =>
      cases happly
      rcases settleWorkerCancellation_spec hc result reason now keep w with e | ⟨hterm, hpending, -⟩
      · rw [e]
        exact h
      · exact .of_terminal hterm hpending
    | expireWorker deadline now => cases happly; exact marked_expireWorker h s deadline now
  | recovered => exact marked_recoverDeliveryClaim h
  | resulted hopen => exact hc.elim
  | reconciled =>
    unfold reconcileWorker
    split
    · rename_i hrunning
      have hopen : w.status.isTerminal = false := by rw [hrunning.1]; rfl
      have hpending := h.pending_false (by rw [hrunning.1]; exact nofun)
      have hstop := h.stop_false hopen
      refine .of_clear hpending (Bool.eq_false_iff.2 fun hp => ?_) hstop.1 hstop.2
      rcases h.claimed hp with hcanceling | hterm
      · cases hrunning.1.symm.trans hcanceling
      · cases hopen.symm.trans hterm
    · exact h
  | launched => exact marked_launchedWorker h _ _
  | captured =>
    rename_i r a _ _ _
    rcases settleCaptured_spec r w with e | ⟨hterm, hpending, -⟩
    · rw [e]
      exact h
    · exact .of_terminal hterm hpending

theorem Fresh.marked (h : Fresh w) : Marked w := by
  rw [h]
  exact .of_clear rfl rfl rfl rfl

/-- The call leaves the worker reserved. -/
def Sparing (s : DurableState) (workerId : String) : Call → Prop
  | .updateWorker id u => id = workerId →
    match u with
    | .setWorkerDeadline _ | .requestWorkerCancellation .. | .claimCancellationDelivery
    | .claimProviderStop | .expireWorker .. => True
    | .settleWorkerCancellation status .. => status ≠ .unknownOutcome
    | _ => False
  | .recoverLifecycleDeliveryClaims | .recordWorkerResult .. => False
  | .recordLaunchEvent id target _ _ _ => ∀ a, s.assignment? id = some a →
      launchAllowed a.status target = true → a.sessionId ≠ workerId
  | _ => True

theorem Reserved.rewritten (h : Reserved w) {s : DurableState} {c : Call}
    (hc : Sparing s w.id c) (hrewrites : Rewrites env s c w w') : Reserved w' := by
  cases hrewrites with
  | same => exact h
  | @updated u _ _ claim hvalid happly =>
    have hu := hc rfl
    cases u with
    | setWorkerDeadline deadline =>
      obtain ⟨v, hv, e⟩ := map_ok happly
      cases e
      unfold setWorkerDeadline at hv
      split_ifs at hv
      obtain rfl := Except.ok.inj hv
      exact ⟨h.pending, h.stopPending, h.status⟩
    | requestWorkerCancellation reason detail now =>
      have e : (requestWorkerCancellation s reason detail now w).1 = w' :=
        congrArg Prod.fst (Except.ok.inj happly)
      unfold requestWorkerCancellation at e
      rw [if_pos h.canceling_or_terminal] at e
      exact e ▸ h
    | claimCancellationDelivery =>
      cases happly
      unfold claimCancellationDelivery
      rw [if_pos (Or.inl h.pending)]
      exact h
    | claimProviderStop =>
      cases happly
      unfold claimProviderStop
      rw [if_pos (Or.inl h.stopPending)]
      exact h
    | settleWorkerCancellation status result reason now keep =>
      cases happly
      rcases settleWorkerCancellation_spec hu result reason now keep w with
        e | ⟨hterm, hpending, hstop⟩
      · rw [e]
        exact h
      · exact ⟨hpending, by rw [hstop]; exact h.stopPending, Or.inr hterm⟩
    | expireWorker deadline now => cases happly; exact reserved_expireWorker h s deadline now
    | _ => exact hu.elim
  | recovered => exact hc.elim
  | resulted hopen => exact hc.elim
  | reconciled =>
    unfold reconcileWorker
    rw [if_neg]
    · exact h
    · rintro ⟨hrunning, -⟩
      have hstatus := h.canceling_or_terminal
      rw [hrunning] at hstatus
      rcases hstatus with hstatus | hstatus <;> cases hstatus
  | launched ha hsession hover hallowed hrun => exact absurd hsession (hc _ ha hallowed)
  | captured =>
    rename_i r a _ _ _
    rcases settleCaptured_spec r w with e | ⟨hterm, hpending, hstop⟩
    · rw [e]
      exact h
    · exact ⟨hpending, by rw [hstop]; exact h.stopPending, Or.inr hterm⟩

end

end AgentOrchestrator.Lifecycle
