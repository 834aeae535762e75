import AgentOrchestrator.Library.Except
import AgentOrchestrator.Store.Chain

/-!
# The batches on file

A call opens at most one batch, under an identity no batch has, and no call closes one.  `opens`
names the identity, and the lemmas say what this means for the batches after a step.
-/

namespace AgentOrchestrator.Store

variable {env : Env}

/-- The identity of the batch a call opens. -/
def Call.opens : Call → Option String
  | .createBatch _ _ _ _ _ uuid => some (uuid 1)
  | .acceptLaunch _ batch _ => some batch.id
  | .acceptLaunchBatch _ batch _ => some batch.id
  | _ => none

/-! ## The batches after a call -/

theorem bindEventRun_batches {assignmentId sessionId : String} {event : LaunchAuditEvent}
    {s t : DurableState} (h : bindEventRun assignmentId sessionId event s = .ok t) :
    t.batches = s.batches := by
  unfold bindEventRun at h
  split at h
  · cases h
    rfl
  · split at h
    · cases h
    · split_ifs at h
      cases h
      rfl

theorem failEventWorker_batches {assignmentId sessionId : String} {target : LaunchTarget}
    {event : LaunchAuditEvent} {s t : DurableState}
    (h : failEventWorker env assignmentId sessionId target event s = .ok t) :
    t.batches = s.batches := by
  unfold failEventWorker at h
  split_ifs at h
  · split at h
    · cases h
    · cases h
      rfl
  · cases h
    rfl

theorem advanceLaunch_batches {a : Assignment} {target : LaunchTarget} {event : LaunchAuditEvent}
    {existing : Option LaunchAuditEvent} {audit : Option SecurityAuditInput} {uuid : String}
    {s next : DurableState}
    (h : advanceLaunch env a target event existing audit uuid s = .ok next) :
    next.batches = s.batches := by
  obtain ⟨t, ht, h⟩ := bind_eq_ok h
  obtain ⟨u, hu, h⟩ := bind_eq_ok h
  obtain ⟨events, head, rfl⟩ := appendOptionalAudit_spec env h
  have hbound := bindEventRun_batches ht
  exact (failEventWorker_batches hu).trans hbound

theorem recordLaunchEvent_batches {id : String} {target : LaunchTarget} {event : LaunchAuditEvent}
    {audit : Option SecurityAuditInput} {uuid : String} {s next : DurableState}
    (h : (recordLaunchEvent env id target event audit uuid s).next = some next) :
    next.batches = s.batches := by
  obtain ⟨record, h⟩ := Body.exists_commit h
  obtain ⟨-, a, -, ⟨-, -, haudit, -⟩ | ⟨-, -, -, -, -, hadv, -⟩⟩ := recordLaunchEvent_inversion h
  · obtain ⟨events, head, rfl⟩ := appendOptionalAudit_spec env haudit
    rfl
  · exact advanceLaunch_batches hadv

theorem acceptLaunch_batches {input : LaunchInput} {batch : Batch} {uuid : String}
    {s next : DurableState} (h : (acceptLaunch env input batch uuid s).next = some next) :
    next.batches = s.batches ++ [batch] := by
  obtain ⟨value, h⟩ := Body.exists_commit h
  unfold acceptLaunch at h
  dsimp only at h
  split_ifs at h
  split at h
  · split_ifs at h
  · split at h
    · cases h
    · rename_i t ht
      obtain ⟨event, head, rfl⟩ := appendSecurityAuditToState_spec env ht
      obtain ⟨-, rfl⟩ := Body.commit.inj h
      rfl

theorem acceptLaunchBatch_batches {inputs : List LaunchInput} {batch : Batch} {uuids : List String}
    {s next : DurableState} (h : (acceptLaunchBatch env inputs batch uuids s).next = some next) :
    next.batches = s.batches ++ [batch] := by
  obtain ⟨value, h⟩ := Body.exists_commit h
  unfold acceptLaunchBatch at h
  dsimp only at h
  split_ifs at h
  split at h
  · cases h
  · rename_i t ht
    obtain ⟨events, head, rfl⟩ := appendAudits_spec ht
    obtain ⟨-, rfl⟩ := Body.commit.inj h
    rfl

/-- A call appends the batch it opens and leaves the others alone. -/
theorem Call.next_batches {c : Call} {s next : DurableState} (h : c.next env s = some next) :
    ∃ opened : List Batch, next.batches = s.batches ++ opened ∧
      opened.map (·.id) = c.opens.toList := by
  have hnone : next.batches = s.batches → c.opens = none → ∃ opened : List Batch,
      next.batches = s.batches ++ opened ∧ opened.map (·.id) = c.opens.toList := by
    intro hsame hopens
    refine ⟨[], by rw [hsame, List.append_nil], ?_⟩
    rw [hopens]
    rfl
  cases c with
  | createBatch name clientId assignments key now uuid =>
    unfold Call.next at h
    dsimp only at h
    split_ifs at h
    obtain ⟨value, h⟩ := Body.exists_commit h
    unfold Store.createBatch at h
    dsimp only at h
    split at h
    · split_ifs at h
    · obtain ⟨-, rfl⟩ := Body.commit.inj h
      exact ⟨_, rfl, rfl⟩
  | updateWorker workerId u =>
    unfold Call.next at h
    dsimp only at h
    split at h
    · cases h
    · obtain ⟨w, w', claim, hw, ha, rfl⟩ := updateWorker_next h
      exact hnone rfl rfl
  | recoverLifecycleDeliveryClaims =>
    obtain rfl := recoverLifecycleDeliveryClaims_next h
    exact hnone rfl rfl
  | recordWorkerResult workerId succeeded result completedAt =>
    obtain ⟨w, w', hw, hopen, hid, hrun, -, rfl⟩ := recordWorkerResult_next h
    exact hnone rfl rfl
  | reconcile alive now =>
    obtain rfl := Option.some.inj h
    exact hnone rfl rfl
  | reserveLaunch intent now =>
    obtain ⟨intents, rfl⟩ := reserveLaunch_next h
    exact hnone rfl rfl
  | updateLaunch key status runId diagnostic audit uuid now =>
    obtain ⟨intents, events, head, rfl⟩ := updateLaunch_next h
    exact hnone rfl rfl
  | acceptLaunch input batch uuid => exact ⟨[batch], acceptLaunch_batches h, rfl⟩
  | acceptLaunchBatch inputs batch uuids => exact ⟨[batch], acceptLaunchBatch_batches h, rfl⟩
  | appendSecurityAudit input uuid now =>
    obtain ⟨events, head, rfl⟩ := appendSecurityAudit_next h
    exact hnone rfl rfl
  | recordLaunchEvent id target event audit uuid =>
    exact hnone (recordLaunchEvent_batches h) rfl
  | captureResult r =>
    obtain ⟨a, w, -, -, -, hw, rfl⟩ := captureResult_next h
    exact hnone rfl rfl

theorem Call.hasBatch_next {c : Call} {s next : DurableState} (h : c.next env s = some next)
    (id : String) : hasBatch next id ↔ hasBatch s id ∨ c.opens = some id := by
  obtain ⟨opened, hbatches, hids⟩ := Call.next_batches h
  have hmem : id ∈ c.opens.toList ↔ c.opens = some id := Option.mem_toList
  unfold hasBatch
  rw [hbatches, ← hmem, ← hids]
  simp only [List.mem_append, or_and_right, exists_or, List.mem_map]

/-- The batch a call opens is not on file before. -/
theorem Call.opens_new {c : Call} {s next : DurableState} (h : c.next env s = some next)
    (hnext : StateSchema env next) {id : String} (hc : c.opens = some id) : ¬ hasBatch s id := by
  obtain ⟨opened, hbatches, hids⟩ := Call.next_batches h
  have hunique := hnext.uniqueBatches
  rw [hbatches, List.map_append, hids, hc, List.nodup_append] at hunique
  rintro ⟨b, hb, hid⟩
  exact hunique.2.2 b.id (List.mem_map_of_mem hb) id (by simp) hid

/-- A batch on file stays on file. -/
theorem hasBatch_step {disk : Disk} {id : String} (h : hasBatch (contents disk) id)
    (i : Call × WriteOutcome) : hasBatch (contents (step env disk i)) id := by
  rcases step_cases env disk i.1 i.2 with e | ⟨next, -, hn, -, e⟩
  · rw [show step env disk i = disk from e]
    exact h
  · rw [show step env disk i = some next from e]
    exact (Call.hasBatch_next hn id).2 (Or.inl h)

end AgentOrchestrator.Store
