import AgentOrchestrator.Store.Batches
import AgentOrchestrator.Store.BatchKeys

/-!
# The members of a batch

A worker keeps its place, that is its identity, its batch and the keys its batch is sorted by, and
a call adds workers only to the batch it opens.  The members of a batch on file are therefore fixed,
and so is their order.
-/

namespace AgentOrchestrator.Store

variable {env : Env}

/-! ## Places -/

/-- What never changes of a worker. -/
structure Place where
  id : String
  batchId : String
  position : Option ℕ
  startedAt : Timestamp
  deriving DecidableEq

def Worker.place (w : Worker) : Place :=
  { id := w.id, batchId := w.batchId, position := w.position, startedAt := w.startedAt }

theorem place_bindWorkerRun {runId : String} {execution : Option (ℕ × String)} {w w' : Worker}
    (h : bindWorkerRun runId execution w = .ok w') : w'.place = w.place := by
  unfold bindWorkerRun at h
  split_ifs at h
  all_goals
    cases execution with
    | none => cases h; rfl
    | some e => cases h; rfl

theorem place_setWorkerDeadline {deadline : Timestamp} {w w' : Worker}
    (h : setWorkerDeadline deadline w = .ok w') : w'.place = w.place := by
  unfold setWorkerDeadline at h
  split_ifs at h
  cases h
  rfl

theorem place_requestWorkerCancellation (s : DurableState) (reason : String)
    (detail : Option String) (now : Timestamp) (w : Worker) :
    (requestWorkerCancellation s reason detail now w).1.place = w.place := by
  unfold requestWorkerCancellation
  split_ifs <;> rfl

theorem place_recordWorkerTerminal (status : TerminalWorkerStatus) (result : Option Json)
    (stopReason : Option String) (now : Timestamp) (w : Worker) :
    (recordWorkerTerminal status result stopReason now w).place = w.place := by
  unfold recordWorkerTerminal
  dsimp only
  split_ifs <;> rfl

theorem place_settleWorkerCancellation (status : TerminalWorkerStatus) (result : Option Json)
    (stopReason : Option String) (now : Timestamp) (keep : Bool) (w : Worker) :
    (settleWorkerCancellation status result stopReason now keep w).1.place = w.place := by
  unfold settleWorkerCancellation
  dsimp only
  split_ifs <;> rfl

theorem place_expireWorker (s : DurableState) (deadline : Option Timestamp) (now : Timestamp)
    (w : Worker) : (expireWorker s deadline now w).1.place = w.place := by
  unfold expireWorker
  dsimp only
  split_ifs <;> rfl

theorem place_releaseCancellationDelivery (w : Worker) :
    (releaseCancellationDelivery w).place = w.place := by
  unfold releaseCancellationDelivery
  dsimp only
  split_ifs <;> rfl

theorem place_handleUnsupportedCancellation (w : Worker) :
    (handleUnsupportedCancellation w).place = w.place := by
  unfold handleUnsupportedCancellation
  dsimp only
  split_ifs <;> rfl

theorem place_releaseProviderStop (w : Worker) : (releaseProviderStop w).place = w.place := by
  unfold releaseProviderStop
  dsimp only
  split_ifs <;> rfl

theorem WorkerUpdate.place_apply {s : DurableState} {w w' : Worker} {u : WorkerUpdate}
    {claim : CancellationClaim} (h : u.apply s w = .ok (w', claim)) : w'.place = w.place := by
  cases u with
  | bindWorkerRun runId execution =>
    obtain ⟨v, hv, e⟩ := map_ok h
    cases e
    exact place_bindWorkerRun hv
  | setWorkerDeadline deadline =>
    obtain ⟨v, hv, e⟩ := map_ok h
    cases e
    exact place_setWorkerDeadline hv
  | requestWorkerCancellation reason detail now =>
    have e : (Store.requestWorkerCancellation s reason detail now w).1 = w' :=
      congrArg Prod.fst (Except.ok.inj h)
    exact e ▸ place_requestWorkerCancellation s reason detail now w
  | claimCancellationDelivery =>
    cases h
    unfold Store.claimCancellationDelivery
    split_ifs <;> rfl
  | releaseCancellationDelivery => cases h; exact place_releaseCancellationDelivery w
  | markCancellationDelivered => cases h; rfl
  | markProviderStopDelivered => cases h; rfl
  | markProviderStopUnsupported => cases h; rfl
  | handleUnsupportedCancellation => cases h; exact place_handleUnsupportedCancellation w
  | claimProviderStop =>
    cases h
    unfold Store.claimProviderStop
    split_ifs <;> rfl
  | releaseProviderStop => cases h; exact place_releaseProviderStop w
  | clearWorkerCancellation =>
    cases h
    unfold Store.clearWorkerCancellation
    split_ifs <;> rfl
  | recordWorkerTerminal status result stopReason now =>
    cases h; exact place_recordWorkerTerminal status result stopReason now w
  | settleWorkerCancellation status result stopReason now keep =>
    cases h; exact place_settleWorkerCancellation status result stopReason now keep w
  | expireWorker deadline now => cases h; exact place_expireWorker s deadline now w

theorem place_recoverDeliveryClaim (w : Worker) : (recoverDeliveryClaim w).place = w.place := by
  unfold recoverDeliveryClaim
  dsimp only
  split_ifs <;> rfl

theorem place_launchedWorker (target : LaunchTarget) (event : LaunchAuditEvent) (w : Worker) :
    (launchedWorker env target event w).place = w.place := by
  have hbind : ∀ runId, (bindLaunchedRun runId w).place = w.place := by
    intro runId
    unfold bindLaunchedRun
    split_ifs <;> rfl
  have hfail : ∀ v, (failLaunchedWorker env event v).place = v.place := by
    intro v
    unfold failLaunchedWorker
    split_ifs <;> rfl
  unfold launchedWorker
  cases event.runId with
  | none =>
    dsimp only
    split_ifs
    · exact hfail w
    · rfl
  | some runId =>
    dsimp only
    split_ifs
    · exact (hfail _).trans (hbind runId)
    · exact hbind runId

/-- **A worker keeps its place.** -/
theorem Rewrites.place {s : DurableState} {c : Call} {w w' : Worker} (h : Rewrites env s c w w') :
    w'.place = w.place := by
  cases h with
  | same => rfl
  | updated hvalid happly => exact WorkerUpdate.place_apply happly
  | recovered => exact place_recoverDeliveryClaim w
  | resulted hopen => rfl
  | reconciled =>
    unfold reconcileWorker
    split_ifs <;> rfl
  | launched ha hsession hover hallowed hrun => exact place_launchedWorker _ _ w
  | captured ha hstatus hsession =>
    unfold settleCaptured
    split_ifs <;> rfl

/-! ## Members -/

/-- The places of the members of a batch, as they were added. -/
def memberPlaces (s : DurableState) (batchId : String) : List Place :=
  (membersOf s batchId).map Worker.place

theorem memberPlaces_eq (s : DurableState) (batchId : String) :
    memberPlaces s batchId = (s.workers.map Worker.place).filter (·.batchId = batchId) := by
  rw [List.filter_map]
  rfl

/-- The workers a call adds are few, and they belong to the batch it opens. -/
structure Placed (env : Env) (c : Call) : Prop where
  batch : ∀ w ∈ c.added env, c.opens = some w.batchId
  few : (c.offered env).length ≤ 250

/-- Every worker belongs to a batch on file, and no batch is larger than a page may be. -/
structure Housed (s : DurableState) : Prop where
  batch : ∀ w ∈ s.workers, hasBatch s w.batchId
  few : ∀ batchId, (memberPlaces s batchId).length ≤ 250

theorem Call.length_added {c : Call} (hc : Placed env c) {s next : DurableState}
    (h : c.next env s = some next) : (c.added env).length ≤ 250 := by
  have hfew := hc.few
  cases c with
  | createBatch name clientId assignments key now uuid =>
    unfold Call.next at h
    dsimp only at h
    split_ifs at h with hcount
    unfold Call.added
    rw [List.length_map, List.length_zipIdx]
    omega
  | acceptLaunch input batch uuid => exact Nat.le_of_ble_eq_true rfl
  | acceptLaunchBatch inputs batch uuids =>
    unfold Call.added
    rw [List.length_map]
    exact hfew
  | _ => exact Nat.zero_le _

/-- The members of a batch after a call: those from before, and the added ones when the call opens
the batch. -/
theorem Call.next_memberPlaces {c : Call} (hc : Placed env c) {s next : DurableState}
    (hs : UniqueIdentities s) (h : c.next env s = some next) (batchId : String) :
    memberPlaces next batchId = memberPlaces s batchId ++
      if c.opens = some batchId then (c.added env).map Worker.place else [] := by
  obtain ⟨f, hf, hrewrites⟩ := Call.rewritten hs h
  have hold : (s.workers.map f).map Worker.place = s.workers.map Worker.place := by
    rw [List.map_map]
    exact List.map_congr_left fun w hw => (hrewrites w hw).place
  have hplace : ∀ p ∈ (c.added env).map Worker.place, c.opens = some p.batchId := by
    intro p hp
    obtain ⟨w, hw, rfl⟩ := List.mem_map.1 hp
    exact hc.batch w hw
  rw [memberPlaces_eq, memberPlaces_eq, hf, List.map_append, List.filter_append, hold]
  congr 1
  split_ifs with hopens
  · refine List.filter_eq_self.2 fun p hp => decide_eq_true ?_
    exact Option.some.inj ((hplace p hp).symm.trans hopens)
  · refine List.filter_eq_nil_iff.2 fun p hp hbatch => hopens ?_
    rw [hplace p hp, of_decide_eq_true hbatch]

theorem Housed.next {c : Call} (hc : Placed env c) {s next : DurableState} (h : Housed s)
    (hs : UniqueIdentities s) (hn : c.next env s = some next) (hnext : StateSchema env next) :
    Housed next := by
  constructor
  · intro w hw
    obtain ⟨f, hf, hrewrites⟩ := Call.rewritten hs hn
    rw [hf] at hw
    rcases List.mem_append.1 hw with hold | hadded
    · obtain ⟨v, hv, rfl⟩ := List.mem_map.1 hold
      rw [show (f v).batchId = v.batchId from congrArg Place.batchId (hrewrites v hv).place]
      exact (Call.hasBatch_next hn _).2 (Or.inl (h.batch v hv))
    · exact (Call.hasBatch_next hn _).2 (Or.inr (hc.batch w hadded))
  · intro batchId
    rw [Call.next_memberPlaces hc hs hn]
    split_ifs with hopens
    · -- No worker belonged to the batch before it was opened.
      have hnone : memberPlaces s batchId = [] := by
        refine List.map_eq_nil_iff.2 (List.filter_eq_nil_iff.2 fun w hw hbatch => ?_)
        refine Call.opens_new hn hnext hopens ?_
        rw [← of_decide_eq_true hbatch]
        exact h.batch w hw
      rw [hnone, List.nil_append, List.length_map]
      exact Call.length_added hc hn
    · rw [List.append_nil]
      exact h.few batchId

/-! ## Runs -/

theorem housed_step {disk : Disk} {i : Call × WriteOutcome} (hc : Placed env i.1)
    (h : Housed (contents disk)) : Housed (contents (step env disk i)) := by
  rcases step_cases env disk i.1 i.2 with e | ⟨next, hs, hn, hnext, e⟩
  · rw [show step env disk i = disk from e]
    exact h
  · rw [show step env disk i = some next from e]
    exact h.next hc hs.toUniqueIdentities hn hnext

theorem housed_empty : Housed (contents none) where
  batch _ hw := nomatch hw
  few _ := Nat.zero_le _

theorem housed_run {disk : Disk} (h : Housed (contents disk)) {calls : List (Call × WriteOutcome)}
    (hcalls : ∀ i ∈ calls, Placed env i.1) :
    Housed (contents (Runs.run (step env) disk calls)) :=
  Runs.run_invariant_of (step env) (P := fun d => Housed (contents d))
    (fun _ _ hd hi => housed_step hi hd) h (Runs.admissible_of_forall (step env) hcalls disk)

theorem memberPlaces_step {disk : Disk} {i : Call × WriteOutcome} (hc : Placed env i.1)
    {batchId : String} (hb : hasBatch (contents disk) batchId) :
    memberPlaces (contents (step env disk i)) batchId = memberPlaces (contents disk) batchId := by
  rcases step_cases env disk i.1 i.2 with e | ⟨next, hs, hn, hnext, e⟩
  · rw [show step env disk i = disk from e]
  · rw [show step env disk i = some next from e]
    show memberPlaces next batchId = _
    rw [Call.next_memberPlaces hc hs.toUniqueIdentities hn,
      if_neg fun hopens => Call.opens_new hn hnext hopens hb, List.append_nil]

/-- **The members of a batch on file are fixed.** -/
theorem memberPlaces_run {disk : Disk} {calls : List (Call × WriteOutcome)}
    (hcalls : ∀ i ∈ calls, Placed env i.1) {batchId : String}
    (hb : hasBatch (contents disk) batchId) :
    hasBatch (contents (Runs.run (step env) disk calls)) batchId ∧
      memberPlaces (contents (Runs.run (step env) disk calls)) batchId =
        memberPlaces (contents disk) batchId := by
  have hadmissible := Runs.admissible_of_forall (step env) hcalls disk
  refine Runs.run_invariant_of (step env) (P := fun d => hasBatch (contents d) batchId ∧
    memberPlaces (contents d) batchId = memberPlaces (contents disk) batchId) ?_ ⟨hb, rfl⟩
    hadmissible
  intro d i hd hi
  exact ⟨hasBatch_step hd.1 i, (memberPlaces_step hi hd.1).trans hd.2⟩

end AgentOrchestrator.Store
