import AgentOrchestrator.Lifecycle.Steps
import Mathlib.Data.List.Induction

/-!
# Withdrawing an unsupported cancellation

A cancellation marks the session in several fields, and a provider that turns out not to support it
makes the service take the marks back.  Deliveries are claimed and released in between, processes
restart, a launch may bind its run late and the deadline may move.  The marks are taken back exactly
where the session carried no claim of its own: a withdrawal drops both delivery flags, whoever
raised them, and a recovery turns a claimed provider stop into a pending one.
-/

namespace AgentOrchestrator.Lifecycle

open Store

variable {env : Env}

/-! ## Withdrawals -/

/-- Nothing is recorded about a cancellation. -/
structure Uncanceled (w : Worker) : Prop where
  stopReason : w.stopReason = none
  stopDetail : w.stopDetail = none
  cancelRequestedAt : w.cancelRequestedAt = none
  preCancelStatus : w.preCancelStatus = none

/-- The calls between a request and its withdrawal: updates of this session claim and release its
delivery, bind its run or move its deadline. -/
def Between (id : String) : Call → Prop
  | .updateWorker workerId u => workerId = id →
    u = .claimCancellationDelivery ∨ u = .releaseCancellationDelivery ∨
      (∃ runId execution, u = .bindWorkerRun runId execution) ∨
      ∃ deadline, u = .setWorkerDeadline deadline
  | _ => True

/-- The session `w` on file is asked to cancel, not locally; after calls that leave it canceling the
cancellation is withdrawn, and `w'` is what the session has become. -/
inductive Withdrawal (env : Env) (id : String) (w w' : Worker) : Prop
  | intro {disk : Disk} {reason : String} {detail : Option String} {now : Timestamp}
      {io io' : WriteOutcome} {w₁ v : Worker} {calls : List (Call × WriteOutcome)}
      {claim : CancellationClaim} (hvalid : Valid env disk)
      (hw : (contents disk).worker? id = some w)
      (hrequest : (update env id (.requestWorkerCancellation reason detail now) io disk).2 =
        .ok (w₁, ⟨true, false⟩))
      (hbetween : ∀ i ∈ calls, Between id i.1)
      (hv : (contents (Runs.run (Store.step env) (update env id
        (.requestWorkerCancellation reason detail now) io disk).1 calls)).worker? id = some v)
      (hcanceling : v.status = .canceling)
      (hwithdraw : (update env id .handleUnsupportedCancellation io' (Runs.run (Store.step env)
        (update env id (.requestWorkerCancellation reason detail now) io disk).1 calls)).2 =
          .ok (w', claim))

/-- The session is the one from before, but for a newly bound run and the deadline. -/
structure Restored (w w' : Worker) : Prop where
  fields : w' = { w with runId := w'.runId, deadlineAt := w'.deadlineAt }
  run : w.runId = none ∨ w'.runId = w.runId

/-! ## What a cancellation leaves alone -/

/-- The fields that no call in between writes. -/
def core (w : Worker) : Worker :=
  { w with
    runId := none
    deadlineAt := none
    cancellationDeliveryPending := none
    cancellationDeliveryClaimed := none }

theorem core_status {v w : Worker} (h : core v = core w) : v.status = w.status :=
  congrArg (·.status) h

theorem core_claimCancellationDelivery (w : Worker) :
    core (claimCancellationDelivery w).1 = core w := by
  unfold claimCancellationDelivery
  split_ifs <;> rfl

theorem core_releaseCancellationDelivery {w : Worker} (h : w.status = .canceling) :
    core (releaseCancellationDelivery w) = core w := by
  unfold releaseCancellationDelivery
  dsimp only
  rw [if_pos h]
  rfl

theorem core_bindWorkerRun {runId : String} {execution : Option (ℕ × String)} {w w' : Worker}
    (h : w.status = .canceling) (hbind : bindWorkerRun runId execution w = .ok w') :
    core w' = core w := by
  have hstatus : ¬ (w.status = .requested ∨ w.status = .running) := by simp [h]
  unfold bindWorkerRun at hbind
  split_ifs at hbind
  split at hbind
  · cases hbind
    rfl
  · cases hbind
    rfl

theorem core_setWorkerDeadline {deadline : Timestamp} {w w' : Worker}
    (h : setWorkerDeadline deadline w = .ok w') : core w' = core w := by
  unfold setWorkerDeadline at h
  split_ifs at h
  cases h
  rfl

theorem core_recoverDeliveryClaim {w : Worker} (h : w.status = .canceling)
    (hstop : raised w.providerStopClaimed = false) :
    core (recoverDeliveryClaim w) = core w := by
  have hunknown : w.status ≠ .unknownOutcome := by simp [h]
  have hnot : ¬ raised w.providerStopClaimed = true := Bool.eq_false_iff.1 hstop
  have hfailed : ¬ w.status = .failed := by simp [h]
  unfold recoverDeliveryClaim
  simp only [if_neg hunknown, hfailed, false_and, and_false, if_false]
  split_ifs <;> rfl

theorem core_launchedWorker {target : LaunchTarget} {event : LaunchAuditEvent} {w : Worker}
    (h : w.status = .canceling) :
    (launchedWorker env target event w).status.isTerminal = true ∨
      core (launchedWorker env target event w) = core w := by
  have hopen : ¬ w.status.isTerminal = true := by simp [h, WorkerStatus.isTerminal]
  have hbound : ∀ runId, bindLaunchedRun runId w = { w with runId := some runId } := by
    intro runId
    rw [bindLaunchedRun, if_neg hopen]
  have hfailed : ∀ v : Worker, v.status = .canceling →
      (failLaunchedWorker env event v).status = .failed := by
    intro v hv
    unfold failLaunchedWorker
    rw [if_neg (by simp [hv, WorkerStatus.isTerminal])]
  unfold launchedWorker
  cases event.runId with
  | none =>
    dsimp only
    split_ifs
    · exact Or.inl (by rw [hfailed w h]; rfl)
    · exact Or.inr rfl
  | some runId =>
    dsimp only
    rw [hbound]
    have hbind : ({ w with runId := some runId } : Worker).status = .canceling := h
    split_ifs
    · exact Or.inl (by rw [hfailed _ hbind]; rfl)
    · exact Or.inr rfl

/-- The session is still canceling with its other fields as they were, or it is over. -/
def Kept (w₁ v : Worker) : Prop := v.status.isTerminal = true ∨ core v = core w₁

theorem kept_of_rewrites {s : DurableState} {c : Call} {w₁ v v' : Worker}
    (h : Rewrites env s c v v') (hc : Between v.id c) (hcanceling : w₁.status = .canceling)
    (hstop : raised w₁.providerStopClaimed = false) (hv : Kept w₁ v) : Kept w₁ v' := by
  rcases hv with hover | hcore
  · exact Or.inl (by rw [(h.later.outcome hover).status]; exact hover)
  have hstatus : v.status = .canceling := (core_status hcore).trans hcanceling
  have hclaimed : raised v.providerStopClaimed = false := by
    rw [show v.providerStopClaimed = w₁.providerStopClaimed from
      congrArg (·.providerStopClaimed) hcore]
    exact hstop
  cases h with
  | same => exact Or.inr hcore
  | @updated u _ _ claim hvalid happly =>
    rcases hc rfl with rfl | rfl | ⟨runId, execution, rfl⟩ | ⟨deadline, rfl⟩
    · obtain ⟨rfl, -⟩ := Prod.mk.inj (Except.ok.inj happly)
      exact Or.inr ((core_claimCancellationDelivery v).trans hcore)
    · obtain ⟨rfl, -⟩ := Prod.mk.inj (Except.ok.inj happly)
      exact Or.inr ((core_releaseCancellationDelivery hstatus).trans hcore)
    · rw [WorkerUpdate.apply] at happly
      cases hbind : Store.bindWorkerRun runId execution v with
      | error e =>
        rw [hbind] at happly
        cases happly
      | ok w =>
        rw [hbind] at happly
        cases happly
        exact Or.inr ((core_bindWorkerRun hstatus hbind).trans hcore)
    · rw [WorkerUpdate.apply] at happly
      cases hset : Store.setWorkerDeadline deadline v with
      | error e =>
        rw [hset] at happly
        cases happly
      | ok w =>
        rw [hset] at happly
        cases happly
        exact Or.inr ((core_setWorkerDeadline hset).trans hcore)
  | recovered => exact Or.inr ((core_recoverDeliveryClaim hstatus hclaimed).trans hcore)
  | @resulted _ succeeded result completedAt hopen =>
    refine Or.inl ?_
    cases succeeded <;> rfl
  | reconciled =>
    unfold reconcileWorker
    rw [if_neg (by simp [hstatus])]
    exact Or.inr hcore
  | launched ha hsession hover hallowed hrun =>
    rcases core_launchedWorker hstatus with hover | hsame
    · exact Or.inl hover
    · exact Or.inr (hsame.trans hcore)
  | @captured r a _ ha hlaunched hsession =>
    refine Or.inl ?_
    unfold settleCaptured
    rw [if_neg (by simp [hstatus, WorkerStatus.isTerminal])]
    cases r.claim.status <;> rfl

/-- Calls in between keep the session. -/
theorem kept_run {disk : Disk} (hvalid : Valid env disk) {id : String} {w₁ : Worker}
    (hw₁ : (contents disk).worker? id = some w₁) (hcanceling : w₁.status = .canceling)
    (hstop : raised w₁.providerStopClaimed = false) {calls : List (Call × WriteOutcome)}
    (hcalls : ∀ i ∈ calls, Between id i.1) :
    Valid env (Runs.run (Store.step env) disk calls) ∧
      ∃ v, (contents (Runs.run (Store.step env) disk calls)).worker? id = some v ∧ Kept w₁ v ∧
        w₁.Later v := by
  induction calls using List.reverseRecOn with
  | nil => exact ⟨hvalid, w₁, hw₁, Or.inr rfl, .refl w₁⟩
  | append_singleton calls i ih =>
    obtain ⟨hvalid', v, hv, hkept, hlater⟩ :=
      ih fun j hj => hcalls j (List.mem_append_left _ hj)
    rw [Runs.run_append, Runs.run_cons, Runs.run_nil]
    obtain ⟨v', hv', hrewrites⟩ := step_version hvalid' i hv
    have hbetween : Between v.id i.1 := by
      rw [Keyed.key_of_lookup hv]
      exact hcalls i (by simp)
    exact ⟨valid_step env _ i hvalid', v', hv', kept_of_rewrites hrewrites hbetween hcanceling hstop hkept,
      hlater.trans hrewrites.later⟩

/-! ## The withdrawal -/

/-- The request that is not local marks the session. -/
theorem requestWorkerCancellation_marks {s : DurableState} {reason : String}
    {detail : Option String} {now : Timestamp} {w : Worker}
    (h : (requestWorkerCancellation s reason detail now w).2 = ⟨true, false⟩) :
    (requestWorkerCancellation s reason detail now w).1 =
      { w with
        preCancelStatus := some w.status
        status := .canceling
        cancellationDeliveryPending := some true
        cancelRequestedAt := some now
        stopReason := some reason
        stopDetail := detail.or w.stopDetail } := by
  unfold requestWorkerCancellation at h ⊢
  split_ifs at h ⊢
  · cases h
  · cases h
  · rfl

/-- The withdrawal from a canceling session looks only at the fields no call has written. -/
theorem handleUnsupportedCancellation_eq {v : Worker} (h : v.status = .canceling) :
    handleUnsupportedCancellation v =
      { withdrawCancellation (core v) with runId := v.runId, deadlineAt := v.deadlineAt } := by
  have hfailed : ¬ (v.status = .failed ∧ v.stopReason = some "deadline_exceeded") := by simp [h]
  unfold handleUnsupportedCancellation
  dsimp only
  rw [if_neg hfailed, if_pos h]
  rfl

/-- **A withdrawn cancellation leaves no trace** on a session without delivery flags and without a
claimed provider stop. -/
theorem withdrawal_restores (env : Env) (id : String) (w w' : Worker)
    (h : Withdrawal env id w w') (hclean : Uncanceled w)
    (hpending : w.cancellationDeliveryPending = none)
    (hclaimed : w.cancellationDeliveryClaimed = none)
    (hstop : raised w.providerStopClaimed = false) : Restored w w' := by
  obtain ⟨hvalid, hw, hrequest, hbetween, hv, hcanceling, hwithdraw⟩ := h
  rename_i disk reason detail now io io' w₁ v calls claim
  obtain ⟨w₀, hw₀, happly, hw₁⟩ := update_ok hrequest
  obtain rfl := Option.some.inj (hw.symm.trans hw₀)
  have hpair : requestWorkerCancellation (contents disk) reason detail now w = (w₁, ⟨true, false⟩) :=
    Except.ok.inj happly
  have hmarks := requestWorkerCancellation_marks (congrArg Prod.snd hpair)
  rw [hpair] at hmarks
  dsimp only at hmarks
  have hvalid₁ : Valid env
      (update env id (.requestWorkerCancellation reason detail now) io disk).1 := by
    rw [update_disk]
    exact valid_step env disk _ hvalid
  obtain ⟨-, v₀, hv₀, hkept, hlater⟩ := kept_run hvalid₁ hw₁ (by rw [hmarks])
    (by rw [hmarks]; exact hstop) hbetween
  obtain rfl := Option.some.inj (hv.symm.trans hv₀)
  have hcore : core v = core w₁ :=
    hkept.resolve_left (by simp [hcanceling, WorkerStatus.isTerminal])
  obtain ⟨v₀, hv₀, happly', -⟩ := update_ok hwithdraw
  obtain rfl := Option.some.inj (hv.symm.trans hv₀)
  obtain ⟨rfl, -⟩ := Prod.mk.inj (Except.ok.inj happly')
  have hrestored : handleUnsupportedCancellation v =
      { w with runId := v.runId, deadlineAt := v.deadlineAt } := by
    rw [handleUnsupportedCancellation_eq hcanceling, hcore, hmarks]
    obtain ⟨hreason, hdetail, hrequestedAt, hprevious⟩ := hclean
    cases w
    simp only at hreason hdetail hrequestedAt hprevious hpending hclaimed
    subst hreason hdetail hrequestedAt hprevious hpending hclaimed
    rfl
  constructor
  · rw [hrestored]
  · rw [hrestored]
    cases hrun : w.runId with
    | none => exact Or.inl rfl
    | some r => exact Or.inr (hlater.runId r (by rw [hmarks]; exact hrun))

/-! ## A session with claims of its own -/

/-- The sample launch, accepted with the worker, and its run. -/
def launchedWith (worker : Worker) : List (Call × WriteOutcome) :=
  [written (.acceptLaunch { sampleInput with worker := worker } sampleBatch "u1"),
    sampleEvent "e2" .launching none, sampleEvent "e3" .launched (some "run-1")]

/-- The file after the calls, after the request, and after more calls. -/
def requestedAfter (setup : List (Call × WriteOutcome)) :
    Disk × Except StoreError (Worker × CancellationClaim) :=
  update plainEnv "s1" (.requestWorkerCancellation "user_requested" none "2026-01-03") .written
    (Runs.run (Store.step plainEnv) none setup)

def withdrawnAfter (setup calls : List (Call × WriteOutcome)) :
    Except StoreError (Worker × CancellationClaim) :=
  (update plainEnv "s1" .handleUnsupportedCancellation .written
    (Runs.run (Store.step plainEnv) (requestedAfter setup).1 calls)).2

/-- What a run of the sample session shows: the session before the request and after the
withdrawal. -/
theorem withdrawal_sample {setup calls : List (Call × WriteOutcome)} {w w' : Worker}
    (hw : (contents (Runs.run (Store.step plainEnv) none setup)).worker? "s1" = some w)
    (hrequest : (requestedAfter setup).2.toOption.map (·.2) = some ⟨true, false⟩)
    (hbetween : ∀ i ∈ calls, Between "s1" i.1)
    (hcanceling : ((contents (Runs.run (Store.step plainEnv) (requestedAfter setup).1
      calls)).worker? "s1").any (·.status = .canceling) = true)
    (hwithdraw : (withdrawnAfter setup calls).toOption.map (·.1) = some w') :
    Withdrawal plainEnv "s1" w w' := by
  have hok : ∀ {α β : Type} {x : Except StoreError α} {f : α → β} {b : β},
      x.toOption.map f = some b → ∃ a, x = .ok a ∧ f a = b := by
    intro α β x f b h
    cases x with
    | error e => cases h
    | ok a => exact ⟨a, rfl, Option.some.inj h⟩
  obtain ⟨⟨w₁, claim₁⟩, hrequested, hclaim⟩ := hok hrequest
  obtain ⟨⟨w₂, claim⟩, hwithdrawn, hw₂⟩ := hok hwithdraw
  dsimp only at hclaim hw₂
  subst hclaim hw₂
  obtain ⟨v, hv, hstatus⟩ := (Option.any_eq_true _ _).1 hcanceling
  exact .intro (valid_run plainEnv (valid_none plainEnv) setup) hw hrequested hbetween hv
    (of_decide_eq_true hstatus) hwithdrawn

/-- The delivery is claimed, the process restarts, and the delivery is claimed and released. -/
def restartedDelivery : List (Call × WriteOutcome) :=
  [written (.updateWorker "s1" .claimCancellationDelivery),
    written .recoverLifecycleDeliveryClaims,
    written (.updateWorker "s1" .claimCancellationDelivery),
    written (.updateWorker "s1" (.setWorkerDeadline "2026-01-05")),
    written (.updateWorker "s1" .releaseCancellationDelivery)]

theorem withdrawal_restores_sample : ∃ w w',
    (contents (Runs.run (Store.step plainEnv) none (launchedWith sampleInput.worker))).worker? "s1" =
      some w ∧
    (withdrawnAfter (launchedWith sampleInput.worker) restartedDelivery).toOption.map (·.1) =
      some w' ∧ Restored w w' := by
  have hw : ((contents (Runs.run (Store.step plainEnv) none
      (launchedWith sampleInput.worker))).worker? "s1").any (fun w => decide (w.stopReason = none ∧
        w.stopDetail = none ∧ w.cancelRequestedAt = none ∧ w.preCancelStatus = none ∧
        w.cancellationDeliveryPending = none ∧ w.cancellationDeliveryClaimed = none ∧
        raised w.providerStopClaimed = false)) = true := by decide +kernel
  have hw' : ((withdrawnAfter (launchedWith sampleInput.worker) restartedDelivery).toOption.map
      (·.1)).isSome = true := by decide +kernel
  obtain ⟨w, hw, hclean⟩ := (Option.any_eq_true _ _).1 hw
  obtain ⟨w', hw'⟩ := Option.isSome_iff_exists.1 hw'
  obtain ⟨hreason, hdetail, hrequested, hprevious, hpending, hclaimed, hstop⟩ :=
    of_decide_eq_true hclean
  refine ⟨w, w', hw, hw', withdrawal_restores plainEnv "s1" w w' ?_
    ⟨hreason, hdetail, hrequested, hprevious⟩ hpending hclaimed hstop⟩
  refine withdrawal_sample hw (by decide +kernel) ?_ (by decide +kernel) hw'
  simp [restartedDelivery, written, Between]

/-- A stop of the provider is recorded as released and claimed. -/
def claimedStop : List (Call × WriteOutcome) :=
  launchedWith sampleInput.worker ++
    [written (.updateWorker "s1" .releaseProviderStop),
      written (.updateWorker "s1" .claimProviderStop)]

/-- A withdrawal with a field of the session before it and after it. -/
theorem not_restored_sample {setup calls : List (Call × WriteOutcome)}
    (field : Worker → Option Bool) (hfield : ∀ w w', Restored w w' → field w' = field w)
    (hdiffers : (((contents (Runs.run (Store.step plainEnv) none setup)).worker? "s1").map field,
      (withdrawnAfter setup calls).toOption.map fun r => field r.1) = (some (some true), some none))
    (hclean : ((contents (Runs.run (Store.step plainEnv) none setup)).worker? "s1").any (fun w =>
      decide (w.stopReason = none ∧ w.stopDetail = none ∧ w.cancelRequestedAt = none ∧
        w.preCancelStatus = none)) = true)
    (hrequest : (requestedAfter setup).2.toOption.map (·.2) = some ⟨true, false⟩)
    (hbetween : ∀ i ∈ calls, Between "s1" i.1)
    (hcanceling : ((contents (Runs.run (Store.step plainEnv) (requestedAfter setup).1
      calls)).worker? "s1").any (·.status = .canceling) = true) :
    ∃ w w', Withdrawal plainEnv "s1" w w' ∧ Uncanceled w ∧ field w = some true ∧ ¬ Restored w w' := by
  obtain ⟨w, hw, huncanceled⟩ := (Option.any_eq_true _ _).1 hclean
  obtain ⟨hbefore, hafter⟩ := Prod.mk.inj hdiffers
  obtain ⟨r, hr, hnone⟩ := Option.map_eq_some_iff.1 hafter
  rw [hw] at hbefore
  obtain ⟨hreason, hdetail, hrequested, hprevious⟩ := of_decide_eq_true huncanceled
  refine ⟨w, r.1, withdrawal_sample hw hrequest hbetween hcanceling (by rw [hr]; rfl),
    ⟨hreason, hdetail, hrequested, hprevious⟩, Option.some.inj hbefore, ?_⟩
  intro hrestored
  have hsame := hfield w r.1 hrestored
  rw [hnone, Option.some.inj hbefore] at hsame
  cases hsame

/-- **Withdrawals that do not restore the session**: one that carried a delivery flag loses it, and
one with a claimed provider stop loses the claim in a recovery. -/
theorem withdrawal_leaves_traces :
    (∃ w w', Withdrawal plainEnv "s1" w w' ∧ Uncanceled w ∧
      w.cancellationDeliveryPending = some true ∧ ¬ Restored w w') ∧
    (∃ w w', Withdrawal plainEnv "s1" w w' ∧ Uncanceled w ∧
      w.cancellationDeliveryClaimed = some true ∧ ¬ Restored w w') ∧
    ∃ w w', Withdrawal plainEnv "s1" w w' ∧ Uncanceled w ∧
      w.providerStopClaimed = some true ∧ ¬ Restored w w' := by
  refine ⟨?_, ?_, ?_⟩
  · exact @not_restored_sample
      (launchedWith { sampleInput.worker with cancellationDeliveryPending := some true }) []
      (·.cancellationDeliveryPending) (fun w w' h => by rw [h.fields]) (by decide +kernel)
      (by decide +kernel) (by decide +kernel) (by simp) (by decide +kernel)
  · exact @not_restored_sample
      (launchedWith { sampleInput.worker with cancellationDeliveryClaimed := some true }) []
      (·.cancellationDeliveryClaimed) (fun w w' h => by rw [h.fields]) (by decide +kernel)
      (by decide +kernel) (by decide +kernel) (by simp) (by decide +kernel)
  · exact @not_restored_sample claimedStop [written .recoverLifecycleDeliveryClaims]
      (·.providerStopClaimed) (fun w w' h => by rw [h.fields]) (by decide +kernel)
      (by decide +kernel) (by decide +kernel) (by simp [written, Between]) (by decide +kernel)

end AgentOrchestrator.Lifecycle
