import AgentOrchestrator.Library.Runs
import AgentOrchestrator.Store.Operations

/-!
# The store as a state machine

A `Call` is a call of a public mutating operation with its arguments, the identifiers it draws
and the answers of the process probe.  `step` performs one call against the state file; how the
write ends is part of the input.  Every state on disk satisfies the schema (`valid_run`), and
`Call.next_workers` says once what a call may do to the worker records.
-/

namespace AgentOrchestrator.Store

/-- A call of a public operation. -/
inductive Call where
  | createBatch (name clientId : String) (assignments : List WorkerAttribution)
      (idempotencyKey : Option String) (now : Timestamp) (uuid : ℕ → String)
  | updateWorker (workerId : String) (u : WorkerUpdate)
  | recoverLifecycleDeliveryClaims
  | recordWorkerResult (workerId : String) (succeeded : Bool) (result : Option Json)
      (completedAt : Timestamp)
  | reconcile (alive : ℕ → Option String → Bool) (now : Timestamp)
  | reserveLaunch (intent : LaunchIntent) (now : Timestamp)
  | updateLaunch (idempotencyKey : String) (status : LaunchStatus)
      (runId diagnostic : Option String) (audit : Option SecurityAuditInput) (uuid : String)
      (now : Timestamp)
  | acceptLaunch (input : LaunchInput) (batch : Batch) (uuid : String)
  | acceptLaunchBatch (inputs : List LaunchInput) (batch : Batch) (uuids : List String)
  | appendSecurityAudit (input : SecurityAuditInput) (uuid : String) (now : Timestamp)
  | recordLaunchEvent (assignmentId : String) (target : LaunchTarget) (event : LaunchAuditEvent)
      (audit : Option SecurityAuditInput) (uuid : String)
  | captureResult (input : CapturedResult)

/-- The call is about launch intents. -/
def Call.isIntent : Call → Bool
  | .reserveLaunch .. | .updateLaunch .. => true
  | _ => false

/-- The launches a call offers, with the worker record each one would store. -/
def Call.offered (env : Env) : Call → List (Assignment × Worker)
  | .acceptLaunch input _ _ => [(input.assignment, redactWorker env input.worker)]
  | .acceptLaunchBatch inputs _ _ => inputs.map fun i => (i.assignment, i.worker)
  | _ => []

variable (env : Env)

/-- The state a call asks to persist, `none` when it throws or has nothing to write. -/
def Call.next (s : DurableState) : Call → Option DurableState
  | .createBatch name clientId assignments key now uuid =>
    if assignments.length = 0 ∨ assignments.length > 250 then none
    else (Store.createBatch env name clientId assignments key now uuid s).next
  | .updateWorker workerId u =>
    match u.validate with
    | .error _ => none
    | .ok () => (Store.updateWorker workerId u s).next
  | .recoverLifecycleDeliveryClaims => (Store.recoverLifecycleDeliveryClaims s).next
  | .recordWorkerResult workerId succeeded result completedAt =>
    (Store.recordWorkerResult workerId succeeded result completedAt s).next
  | .reconcile alive now => (Store.reconcile alive now s).next
  | .reserveLaunch intent now => (Store.reserveLaunch intent now s).next
  | .updateLaunch key status runId diagnostic audit uuid now =>
    (Store.updateLaunch env key status runId diagnostic audit uuid now s).next
  | .acceptLaunch input batch uuid => (Store.acceptLaunch env input batch uuid s).next
  | .acceptLaunchBatch inputs batch uuids =>
    (Store.acceptLaunchBatch env inputs batch uuids s).next
  | .appendSecurityAudit input uuid now => (Store.appendSecurityAudit env input uuid now s).next
  | .recordLaunchEvent id target event audit uuid =>
    (Store.recordLaunchEvent env id target event audit uuid s).next
  | .captureResult input => (Store.captureResult env input s).next

/-- One call against the state file. -/
def step (disk : Disk) (i : Call × WriteOutcome) : Disk :=
  match load env disk with
  | .error _ => disk
  | .ok s =>
    match i.1.next env s with
    | none => disk
    | some next => (persist env i.2 next disk).1

/-- The file a store without one reads as. -/
def contents (disk : Disk) : DurableState := disk.getD emptyState

/-- The states reachable from the empty store by calls of public operations. -/
def Reachable (disk : Disk) : Prop := ∃ calls, disk = Runs.run (step env) none calls

/-! ## Steps -/

theorem stateSchema_empty : StateSchema env emptyState := by
  refine ⟨⟨?_, ?_, ?_, ?_, ?_, ?_, ?_, ?_, ?_, ?_, ?_⟩, ?_, ?_⟩
  all_goals first
    | (intro x hx; cases hx; done)
    | skip
  · intro h hh
    obtain rfl := Option.some.inj hh
    decide
  · constructor <;> exact List.nodup_nil
  · constructor <;> intro x hx <;> cases hx

theorem load_eq {disk : Disk} {s : DurableState} (h : load env disk = .ok s) :
    s = contents disk ∧ StateSchema env s := by
  cases disk with
  | none => cases h; exact ⟨rfl, stateSchema_empty env⟩
  | some t =>
    unfold load at h
    dsimp only at h
    split_ifs at h with hs
    cases hc : assertSecurityAuditChain env t with
    | error e => rw [hc] at h; cases h
    | ok u => rw [hc] at h; cases h; exact ⟨rfl, hs⟩

/-- A write takes effect exactly when the state parses and the rename happens. -/
theorem persist_cases (io : WriteOutcome) (next : DurableState) (disk : Disk) :
    ((persist env io next disk).1 = disk ∧ ¬ (StateSchema env next ∧ io ≠ .failedBeforeRename)) ∨
      (StateSchema env next ∧ io ≠ .failedBeforeRename ∧
        (persist env io next disk).1 = some next) := by
  unfold persist
  split_ifs with h
  · cases io with
    | written => exact Or.inr ⟨h, by decide, rfl⟩
    | failedBeforeRename => exact Or.inl ⟨rfl, fun hn => hn.2 rfl⟩
    | failedAfterRename => exact Or.inr ⟨h, by decide, rfl⟩
  · exact Or.inl ⟨rfl, fun hn => h hn.1⟩

variable {env} in
/-- A write that completed. -/
theorem persist_ok {io : WriteOutcome} {next : DurableState} {disk disk' : Disk} {u : Unit}
    (h : persist env io next disk = (disk', .ok u)) :
    StateSchema env next ∧ io = .written ∧ disk' = some next := by
  unfold persist at h
  split_ifs at h with hschema
  · cases io with
    | written => exact ⟨hschema, rfl, (Prod.mk.inj h).1.symm⟩
    | failedBeforeRename => cases (Prod.mk.inj h).2
    | failedAfterRename => cases (Prod.mk.inj h).2
  · cases (Prod.mk.inj h).2

variable {env} in
/-- A write that failed: the file holds the next state if the rename happened. -/
theorem persist_error {io : WriteOutcome} {next : DurableState} {disk disk' : Disk} {e : StoreError}
    (h : persist env io next disk = (disk', .error e)) :
    (StateSchema env next ∧ io = .failedAfterRename ∧ disk' = some next) ∨
      (¬ (StateSchema env next ∧ io ≠ .failedBeforeRename) ∧ disk' = disk) := by
  unfold persist at h
  split_ifs at h with hschema
  · cases io with
    | written => cases (Prod.mk.inj h).2
    | failedBeforeRename => exact Or.inr ⟨fun hn => hn.2 rfl, (Prod.mk.inj h).1.symm⟩
    | failedAfterRename => exact Or.inl ⟨hschema, rfl, (Prod.mk.inj h).1.symm⟩
  · exact Or.inr ⟨fun hn => hschema hn.1, (Prod.mk.inj h).1.symm⟩

/-- **What a step can do.** It leaves the file alone, or writes the next state of its call, which
parses. -/
theorem step_cases (disk : Disk) (c : Call) (io : WriteOutcome) :
    step env disk (c, io) = disk ∨
      ∃ next, StateSchema env (contents disk) ∧ c.next env (contents disk) = some next ∧
        StateSchema env next ∧ step env disk (c, io) = some next := by
  unfold step
  cases hl : load env disk with
  | error e => exact Or.inl rfl
  | ok s =>
    obtain ⟨rfl, hs⟩ := load_eq env hl
    dsimp only
    cases hn : c.next env (contents disk) with
    | none => exact Or.inl rfl
    | some next =>
      rcases persist_cases env io next disk with ⟨h, -⟩ | ⟨hv, -, h⟩
      · exact Or.inl h
      · exact Or.inr ⟨next, hs, rfl, hv, h⟩

/-- A call whose next state parses is written unless the write fails before the rename. -/
theorem step_written {disk : Disk} {c : Call} {io : WriteOutcome} {next : DurableState}
    (hl : load env disk = .ok (contents disk)) (hn : c.next env (contents disk) = some next)
    (hv : StateSchema env next) (hio : io ≠ .failedBeforeRename) :
    step env disk (c, io) = some next := by
  unfold step
  rw [hl]
  dsimp only
  rw [hn]
  rcases persist_cases env io next disk with ⟨-, h⟩ | ⟨-, -, h⟩
  · exact absurd ⟨hv, hio⟩ h
  · exact h

/-- A call that has no next state, or meets a write that fails before the rename, or a file that
does not load, leaves the file alone. -/
theorem step_unwritten {disk : Disk} {c : Call} {io : WriteOutcome}
    (h : ¬ (load env disk = .ok (contents disk) ∧ io ≠ .failedBeforeRename)) :
    step env disk (c, io) = disk := by
  unfold step
  cases hl : load env disk with
  | error e => rfl
  | ok s =>
    obtain ⟨rfl, -⟩ := load_eq env hl
    dsimp only
    cases hn : c.next env (contents disk) with
    | none => rfl
    | some next =>
      rcases persist_cases env io next disk with ⟨h', -⟩ | ⟨-, hio, -⟩
      · exact h'
      · exact absurd ⟨hl, hio⟩ h

/-- Every state on disk parses. -/
def Valid (disk : Disk) : Prop := StateSchema env (contents disk)

theorem valid_none : Valid env none := stateSchema_empty env

theorem valid_step (disk : Disk) (i : Call × WriteOutcome) (h : Valid env disk) :
    Valid env (step env disk i) := by
  rcases step_cases env disk i.1 i.2 with e | ⟨next, _, _, hv, e⟩
  · rw [e]; exact h
  · rw [e]; exact hv

theorem valid_run {disk : Disk} (h : Valid env disk) (calls : List (Call × WriteOutcome)) :
    Valid env (Runs.run (step env) disk calls) :=
  Runs.run_invariant (step env) (valid_step env) h calls

theorem Reachable.valid {disk : Disk} (h : Reachable env disk) : Valid env disk := by
  obtain ⟨calls, rfl⟩ := h
  exact valid_run env (valid_none env) calls

end AgentOrchestrator.Store
