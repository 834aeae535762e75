import AgentOrchestrator.Store.SessionEnd

/-!
# How a call rewrites one worker

`Rewrites` lists, for every call of the store, what it makes of a worker record.  Every worker on
file is rewritten by the next call in one of these ways (`step_version`), and a worker that was not
on file before is one the call adds (`step_origin`).  Guarantees about single workers are proved
from this relation, without looking at the calls again.
-/

namespace AgentOrchestrator.Store

variable {env : Env}

/-- The worker of a launch event: its run is bound, and a failed launch ends it. -/
def launchedWorker (env : Env) (target : LaunchTarget) (event : LaunchAuditEvent) (w : Worker) :
    Worker :=
  let w := match event.runId with
    | none => w
    | some runId => bindLaunchedRun runId w
  if target = .failed then failLaunchedWorker env event w else w

/-- What a call makes of a worker. -/
inductive Rewrites (env : Env) (s : DurableState) : Call → Worker → Worker → Prop
  | same {c : Call} {w : Worker} : Rewrites env s c w w
  | updated {u : WorkerUpdate} {w w' : Worker} {claim : CancellationClaim}
      (hvalid : u.validate = .ok ()) (happly : u.apply s w = .ok (w', claim)) :
    Rewrites env s (.updateWorker w.id u) w w'
  | recovered {w : Worker} :
    Rewrites env s .recoverLifecycleDeliveryClaims w (recoverDeliveryClaim w)
  | resulted {w : Worker} {succeeded : Bool} {result : Option Json} {completedAt : Timestamp}
      (hopen : w.status.isTerminal = false) :
    Rewrites env s (.recordWorkerResult w.id succeeded result completedAt) w
      { w with
        status := if succeeded then .succeeded else .failed
        result := result
        completedAt := some completedAt }
  | reconciled {alive : ℕ → Option String → Bool} {now : Timestamp} {w : Worker} :
    Rewrites env s (.reconcile alive now) w (reconcileWorker alive now w)
  | launched {id : String} {target : LaunchTarget} {event : LaunchAuditEvent}
      {audit : Option SecurityAuditInput} {uuid : String} {a : Assignment} {w : Worker}
      (ha : s.assignment? id = some a) (hsession : a.sessionId = w.id)
      (hover : ¬ (target = .launching ∧ sessionOver s a = true))
      (hallowed : launchAllowed a.status target = true)
      (hrun : ∀ r, event.runId = some r → w.runId = none ∨ w.runId = some r) :
    Rewrites env s (.recordLaunchEvent id target event audit uuid) w
      (launchedWorker env target event w)
  | captured {r : CapturedResult} {a : Assignment} {w : Worker}
      (ha : s.assignment? r.assignmentId = some a) (hstatus : a.status = .launched)
      (hsession : r.sessionId = w.id) :
    Rewrites env s (.captureResult r) w (settleCaptured r w)

/-! ## Launch events -/

theorem bindLaunchedRun_id (runId : String) (w : Worker) : (bindLaunchedRun runId w).id = w.id := by
  unfold bindLaunchedRun
  split_ifs <;> rfl

theorem failLaunchedWorker_id (event : LaunchAuditEvent) (w : Worker) :
    (failLaunchedWorker env event w).id = w.id := (later_failLaunchedWorker event w).id

/-- The workers after an allowed launch event. -/
theorem advanceLaunch_workers {a : Assignment} {target : LaunchTarget} {event : LaunchAuditEvent}
    {existing : Option LaunchAuditEvent} {audit : Option SecurityAuditInput} {uuid : String}
    {s next : DurableState}
    (h : advanceLaunch env a target event existing audit uuid s = .ok next) :
    next.workers = s.workers ∨ ∃ w, s.worker? a.sessionId = some w ∧
      (∀ r, event.runId = some r → w.runId = none ∨ w.runId = some r) ∧
      next.workers = Keyed.put (·.id) (launchedWorker env target event w) s.workers := by
  unfold advanceLaunch at h
  dsimp only [bind, Except.bind] at h
  cases hb : bindEventRun a.id a.sessionId event
      (s.putAssignment (advanceAssignment env target event a)) with
  | error e => rw [hb] at h; cases h
  | ok t =>
    rw [hb] at h
    dsimp only at h
    cases hf : failEventWorker env a.id a.sessionId target event t with
    | error e => rw [hf] at h; cases h
    | ok u =>
      rw [hf] at h
      obtain ⟨events, head, rfl⟩ := appendOptionalAudit_spec env h
      show u.workers = s.workers ∨ ∃ w, s.worker? a.sessionId = some w ∧ _ ∧ u.workers = _
      have hfail : u.workers = t.workers ∧ target ≠ .failed ∨
          target = .failed ∧ ∃ w, t.worker? a.sessionId = some w ∧
            u.workers = Keyed.put (·.id) (failLaunchedWorker env event w) t.workers := by
        unfold failEventWorker at hf
        split_ifs at hf with ht
        · cases hw : t.worker? a.sessionId with
          | none => rw [hw] at hf; cases hf
          | some w =>
            rw [hw] at hf
            cases hf
            exact Or.inr ⟨ht, w, rfl, rfl⟩
        · cases hf
          exact Or.inl ⟨rfl, ht⟩
      unfold bindEventRun at hb
      cases hr : event.runId with
      | none =>
        rw [hr] at hb
        obtain rfl := Except.ok.inj hb
        rcases hfail with ⟨hsame, -⟩ | ⟨ht, w, hw, hput⟩
        · exact Or.inl hsame
        · refine Or.inr ⟨w, hw, fun _ => (nomatch ·), ?_⟩
          unfold launchedWorker
          rw [hr, hput]
          dsimp only
          rw [if_pos ht]
          rfl
      | some runId =>
        rw [hr] at hb
        dsimp only at hb
        cases hw : s.worker? a.sessionId with
        | none =>
          rw [show (s.putAssignment (advanceAssignment env target event a)).worker? a.sessionId =
            none from hw] at hb
          cases hb
        | some w =>
          rw [show (s.putAssignment (advanceAssignment env target event a)).worker? a.sessionId =
            some w from hw] at hb
          dsimp only at hb
          split_ifs at hb with hbound
          obtain rfl := Except.ok.inj hb
          refine Or.inr ⟨w, rfl, ?_, ?_⟩
          · intro r e
            obtain rfl := Option.some.inj e
            by_cases hnone : w.runId = none
            · exact Or.inl hnone
            · exact Or.inr (not_not.1 fun hne => hbound ⟨hnone, hne⟩)
          · have hmem := Keyed.mem_of_lookup hw
            have hid := bindLaunchedRun_id runId w
            unfold launchedWorker
            rw [hr]
            dsimp only
            rcases hfail with ⟨hsame, ht⟩ | ⟨ht, v, hv, hput⟩
            · rw [hsame, if_neg ht]
              rfl
            · have hfound : Keyed.lookup (·.id) a.sessionId
                  (Keyed.put (·.id) (bindLaunchedRun runId w) s.workers) =
                  some (bindLaunchedRun runId w) := by
                have := @Keyed.lookup_put_self _ _ _ (·.id) (bindLaunchedRun runId w) s.workers
                  ⟨w, hmem, hid.symm⟩
                rwa [show (bindLaunchedRun runId w).id = a.sessionId from
                  hid.trans (Keyed.key_of_lookup hw)] at this
              obtain rfl := Option.some.inj (hfound.symm.trans hv)
              rw [hput, if_pos ht]
              exact Keyed.put_put (failLaunchedWorker_id event _).symm s.workers

/-- The workers after a launch event. -/
theorem recordLaunchEvent_workers {id : String} {target : LaunchTarget} {event : LaunchAuditEvent}
    {audit : Option SecurityAuditInput} {uuid : String} {s next : DurableState}
    (h : (recordLaunchEvent env id target event audit uuid s).next = some next) :
    next.workers = s.workers ∨ ∃ a w, s.assignment? id = some a ∧
      ¬ (target = .launching ∧ sessionOver s a = true) ∧
      launchAllowed a.status target = true ∧ s.worker? a.sessionId = some w ∧
      (∀ r, event.runId = some r → w.runId = none ∨ w.runId = some r) ∧
      next.workers = Keyed.put (·.id) (launchedWorker env target event w) s.workers := by
  obtain ⟨record, h⟩ := Body.exists_commit h
  obtain ⟨-, a, ha, ⟨-, -, haudit, -⟩ | ⟨hover, -, -, -, hallow, hadv, -⟩⟩ :=
    recordLaunchEvent_inversion h
  · obtain ⟨events, head, hspec⟩ := appendOptionalAudit_spec env haudit
    refine Or.inl ?_
    rw [hspec]
    rfl
  · rcases advanceLaunch_workers hadv with hsame | ⟨w, hw, hrun, hput⟩
    · exact Or.inl hsame
    · exact Or.inr ⟨a, w, ha, hover, hallow, hw, hrun, hput⟩

/-! ## Rewriting keeps the order -/

theorem later_launchedWorker {target : LaunchTarget} {event : LaunchAuditEvent} {w : Worker}
    (h : ∀ r, event.runId = some r → w.runId = none ∨ w.runId = some r) :
    w.Later (launchedWorker env target event w) := by
  unfold launchedWorker
  dsimp only
  have hbind : w.Later (match event.runId with
      | none => w
      | some runId => bindLaunchedRun runId w) := by
    cases hr : event.runId with
    | none => exact .refl w
    | some runId =>
      refine later_bindLaunchedRun ?_
      rintro ⟨hne, hne'⟩
      exact (h runId hr).elim hne hne'
  split_ifs
  · exact hbind.trans (later_failLaunchedWorker event _)
  · exact hbind

/-- A rewritten worker is a later version. -/
theorem Rewrites.later {s : DurableState} {c : Call} {w w' : Worker} (h : Rewrites env s c w w') :
    w.Later w' := by
  cases h with
  | same => exact .refl w
  | updated hvalid happly => exact WorkerUpdate.later happly
  | recovered => exact later_recoverDeliveryClaim w
  | resulted hopen => exact .of_open hopen rfl rfl
  | reconciled => exact later_reconcileWorker _ _ w
  | launched ha hsession hover hallowed hrun => exact later_launchedWorker hrun
  | captured ha hstatus hsession => exact later_settleCaptured _ w

/-! ## Calls -/

/-- The workers a call adds. -/
def Call.added (env : Env) : Call → List Worker
  | .createBatch _ _ assignments _ now uuid => assignments.zipIdx.map fun (attribution, position) =>
      { id := uuid (position + 2), batchId := uuid 1, sessionId := uuid 0,
        status := WorkerStatus.requested, attribution := attribution, startedAt := now,
        position := some position : Worker }
  | c => (c.offered env).map (·.2)

/-- What a call makes of the workers: each is rewritten, and the added ones follow. -/
def Rewritten (env : Env) (s : DurableState) (c : Call) (l : List Worker) : Prop :=
  ∃ f : Worker → Worker, l = s.workers.map f ++ c.added env ∧
    ∀ w ∈ s.workers, Rewrites env s c w (f w)

theorem Rewritten.append {s : DurableState} {c : Call} {l : List Worker}
    (h : l = s.workers ++ c.added env) : Rewritten env s c l :=
  ⟨id, by rw [List.map_id, h], fun _ _ => .same⟩

/-- A call that adds nothing and puts a rewritten worker back. -/
theorem Rewritten.put {s : DurableState} {c : Call} {l : List Worker}
    (hs : (s.workers.map (·.id)).Nodup) (hc : c.added env = []) {w w' : Worker}
    (hw : w ∈ s.workers) (h : Rewrites env s c w w')
    (hl : l = Keyed.put (·.id) w' s.workers) : Rewritten env s c l := by
  refine ⟨fun v => if v.id = w'.id then w' else v, ?_, ?_⟩
  · rw [hc, List.append_nil, hl]
    rfl
  · intro v hv
    dsimp only
    by_cases hk : v.id = w'.id
    · obtain rfl := Keyed.eq_of_key hs hv hw (hk.trans h.later.id)
      rw [if_pos hk]
      exact h
    · rw [if_neg hk]
      exact .same

theorem createBatch_workers {name clientId : String} {assignments : List WorkerAttribution}
    {key : Option String} {now : Timestamp} {uuid : ℕ → String} {s next : DurableState}
    (h : (createBatch env name clientId assignments key now uuid s).next = some next) :
    next.workers = s.workers ++
      (Call.createBatch name clientId assignments key now uuid).added env := by
  unfold createBatch at h
  dsimp only at h
  split at h
  · split_ifs at h <;> cases h
  · obtain rfl := Option.some.inj h
    rfl

theorem recordWorkerResult_workers {workerId : String} {succeeded : Bool} {result : Option Json}
    {completedAt : Timestamp} {s next : DurableState}
    (h : (recordWorkerResult workerId succeeded result completedAt s).next = some next) :
    ∃ w, s.worker? workerId = some w ∧ w.status.isTerminal = false ∧
      next.workers = Keyed.put (·.id)
        { w with
          status := if succeeded then .succeeded else .failed
          result := result
          completedAt := some completedAt } s.workers := by
  unfold recordWorkerResult at h
  dsimp only at h
  cases hw : s.worker? workerId with
  | none => rw [hw] at h; cases h
  | some w =>
    rw [hw] at h
    dsimp only at h
    by_cases ht : w.status.isTerminal = true
    · rw [if_pos ht] at h
      split_ifs at h <;> cases h
    · rw [if_neg ht] at h
      obtain rfl := Option.some.inj h
      exact ⟨w, rfl, Bool.eq_false_iff.2 ht, rfl⟩

/-- **What a call does to the workers.** -/
theorem Call.rewritten {c : Call} {s next : DurableState} (hs : UniqueIdentities s)
    (h : c.next env s = some next) : Rewritten env s c next.workers := by
  have hunique := hs.uniqueWorkers
  cases c with
  | createBatch name clientId assignments key now uuid =>
    unfold Call.next at h
    dsimp only at h
    split_ifs at h
    exact .append (createBatch_workers h)
  | updateWorker workerId u =>
    unfold Call.next at h
    dsimp only at h
    cases hvalid : u.validate with
    | error e => rw [hvalid] at h; cases h
    | ok _ =>
      rw [hvalid] at h
      obtain ⟨w, w', claim, hw, happly, rfl⟩ := updateWorker_next h
      obtain rfl := Keyed.key_of_lookup hw
      exact .put hunique rfl (Keyed.mem_of_lookup hw) (.updated hvalid happly) rfl
  | recoverLifecycleDeliveryClaims =>
    obtain rfl := recoverLifecycleDeliveryClaims_next h
    exact ⟨recoverDeliveryClaim, (List.append_nil _).symm, fun _ _ => .recovered⟩
  | recordWorkerResult workerId succeeded result completedAt =>
    obtain ⟨w, hw, hopen, hput⟩ := recordWorkerResult_workers h
    obtain rfl := Keyed.key_of_lookup hw
    exact .put hunique rfl (Keyed.mem_of_lookup hw) (.resulted hopen) hput
  | reconcile alive now =>
    obtain rfl := Option.some.inj h
    exact ⟨reconcileWorker alive now, (List.append_nil _).symm, fun _ _ => .reconciled⟩
  | reserveLaunch intent now =>
    obtain ⟨intents, rfl⟩ := reserveLaunch_next h
    exact .append (List.append_nil _).symm
  | updateLaunch key status runId diagnostic audit uuid now =>
    obtain ⟨intents, events, head, rfl⟩ := updateLaunch_next h
    exact .append (List.append_nil _).symm
  | acceptLaunch input batch uuid => exact .append (acceptLaunch_next h).workers
  | acceptLaunchBatch inputs batch uuids => exact .append (acceptLaunchBatch_next h).workers
  | appendSecurityAudit input uuid now =>
    obtain ⟨events, head, rfl⟩ := appendSecurityAudit_next h
    exact .append (List.append_nil _).symm
  | recordLaunchEvent id target event audit uuid =>
    rcases recordLaunchEvent_workers h with hsame | ⟨a, w, ha, hover, hallowed, hw, hrun, hput⟩
    · exact .append (hsame.trans (List.append_nil _).symm)
    · exact .put hunique rfl (Keyed.mem_of_lookup hw)
        (.launched ha (Keyed.key_of_lookup hw).symm hover hallowed hrun) hput
  | captureResult r =>
    obtain ⟨a, w, ha, hstatus, -, hw, rfl⟩ := captureResult_next h
    exact .put hunique rfl (Keyed.mem_of_lookup hw)
      (.captured ha hstatus (Keyed.key_of_lookup hw).symm) rfl

/-! ## Steps -/

/-- What a step does to the workers on file. -/
theorem step_workers (disk : Disk) (i : Call × WriteOutcome) :
    (contents (step env disk i)).workers = (contents disk).workers ∨
      Rewritten env (contents disk) i.1 (contents (step env disk i)).workers := by
  rcases step_cases env disk i.1 i.2 with e | ⟨next, hs, hn, -, e⟩
  · rw [show step env disk i = disk from e]
    exact Or.inl rfl
  · rw [show step env disk i = some next from e]
    exact Or.inr (Call.rewritten hs.toUniqueIdentities hn)

/-- **A worker on file stays on file**, rewritten by the call. -/
theorem step_version {disk : Disk} (hv : Valid env disk) (i : Call × WriteOutcome) {id : String}
    {w : Worker} (hw : (contents disk).worker? id = some w) :
    ∃ w', (contents (step env disk i)).worker? id = some w' ∧
      Rewrites env (contents disk) i.1 w w' := by
  rcases step_workers disk i with e | ⟨f, hf, hrewrites⟩
  · refine ⟨w, ?_, .same⟩
    unfold DurableState.worker? at hw ⊢
    rw [e]
    exact hw
  · have hmem := Keyed.mem_of_lookup hw
    have hrw := hrewrites w hmem
    have hin : f w ∈ (contents (step env disk i)).workers := by
      rw [hf]
      exact List.mem_append_left _ (List.mem_map_of_mem hmem)
    refine ⟨f w, ?_, hrw⟩
    rw [← hrw.later.id.trans (Keyed.key_of_lookup hw)]
    exact Keyed.lookup_of_mem (valid_step env disk i hv).uniqueWorkers hin

/-- **Where a worker comes from**: it was on file and is rewritten, or the call adds it. -/
theorem step_origin {disk : Disk} {i : Call × WriteOutcome} {w' : Worker}
    (hw' : w' ∈ (contents (step env disk i)).workers) :
    (∃ w ∈ (contents disk).workers, Rewrites env (contents disk) i.1 w w') ∨
      w' ∈ i.1.added env := by
  rcases step_workers disk i with e | ⟨f, hf, hrewrites⟩
  · rw [e] at hw'
    exact Or.inl ⟨w', hw', .same⟩
  · rw [hf] at hw'
    rcases List.mem_append.1 hw' with hmem | hadded
    · obtain ⟨w, hw, rfl⟩ := List.mem_map.1 hmem
      exact Or.inl ⟨w, hw, hrewrites w hw⟩
    · exact Or.inr hadded

end AgentOrchestrator.Store
