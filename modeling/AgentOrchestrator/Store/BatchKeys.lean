import AgentOrchestrator.Store.Deliveries
import AgentOrchestrator.Store.Versions

/-!
# Idempotency of batches

A batch is found again under its client and idempotency key, which the store concatenates with a
zero character between them.  For a call of `createBatch` after any run of such calls, idempotency
is exact unless a batch on file was created under another pair with the same concatenation.
-/

namespace AgentOrchestrator.Store

variable {env : Env}

/-! ## What a batch was created with -/

/-- The sessions of a batch, as they were added. -/
def membersOf (s : DurableState) (batchId : String) : List Worker :=
  s.workers.filter (·.batchId = batchId)

/-- The request a batch was created with. -/
def originalRequest (s : DurableState) (b : Batch) : String × List WorkerAttribution :=
  (b.name, (membersOf s b.id).map (·.attribution))

/-- Every batch carries the fingerprint of its request, and every worker belongs to a batch. -/
structure Fingerprints (env : Env) (s : DurableState) : Prop where
  batches : ∀ b ∈ s.batches, b.requestFingerprint =
    some (env.digest (batchRequest (originalRequest s b).1 (originalRequest s b).2))
  workers : ∀ w ∈ s.workers, hasBatch s w.batchId

/-- What `createBatch` writes. -/
theorem createBatch_commit {name clientId : String} {assignments : List WorkerAttribution}
    {key : Option String} {now : Timestamp} {uuid : ℕ → String} {s next : DurableState}
    {value : CreatedBatch}
    (h : createBatch env name clientId assignments key now uuid s = .commit value next) :
    value.duplicate = false ∧ value.batch.id = uuid 1 ∧ value.batch.name = name ∧
      value.batch.requestFingerprint = some (env.digest (batchRequest name assignments)) ∧
      next.batches = s.batches ++ [value.batch] ∧
      next.workers = s.workers ++
        (Call.createBatch name clientId assignments key now uuid).added env ∧
      value.sessions = (Call.createBatch name clientId assignments key now uuid).added env := by
  unfold createBatch at h
  dsimp only at h
  split at h
  · split_ifs at h
  · obtain ⟨rfl, rfl⟩ := Body.commit.inj h
    exact ⟨rfl, rfl, rfl, rfl, rfl, rfl, rfl⟩

theorem map_attribution_added {name clientId : String} {assignments : List WorkerAttribution}
    {key : Option String} {now : Timestamp} {uuid : ℕ → String} :
    ((Call.createBatch name clientId assignments key now uuid).added env).map (·.attribution) =
      assignments := by
  unfold Call.added
  dsimp only
  rw [List.map_map]
  exact List.zipIdx_map_fst 0 assignments

theorem batchId_added {name clientId : String} {assignments : List WorkerAttribution}
    {key : Option String} {now : Timestamp} {uuid : ℕ → String} {w : Worker}
    (h : w ∈ (Call.createBatch name clientId assignments key now uuid).added env) :
    w.batchId = uuid 1 := by
  obtain ⟨x, -, rfl⟩ := List.mem_map.1 h
  rfl

theorem Fingerprints.created {name clientId : String} {assignments : List WorkerAttribution}
    {key : Option String} {now : Timestamp} {uuid : ℕ → String} {s next : DurableState}
    (hs : Fingerprints env s) (hnext : StateSchema env next)
    (h : (createBatch env name clientId assignments key now uuid s).next = some next) :
    Fingerprints env next := by
  obtain ⟨value, hcommit⟩ := Body.exists_commit h
  obtain ⟨-, hid, hname, hprint, hbatches, hworkers, -⟩ := createBatch_commit hcommit
  -- The new batch has a new identity, so no worker from before belongs to it.
  have hnew : ∀ b ∈ s.batches, b.id ≠ value.batch.id := by
    have hunique := hnext.uniqueBatches
    rw [hbatches, List.map_append, List.nodup_append] at hunique
    intro b hb
    exact hunique.2.2 b.id (List.mem_map_of_mem hb) value.batch.id (List.mem_singleton_self _)
  have hadded : ∀ w ∈ (Call.createBatch name clientId assignments key now uuid).added env,
      w.batchId = value.batch.id := fun w hw => (batchId_added hw).trans hid.symm
  refine ⟨?_, ?_⟩
  · intro b hb
    rw [hbatches] at hb
    unfold originalRequest membersOf
    rw [hworkers, List.filter_append]
    rcases List.mem_append.1 hb with hb | hb
    · have hnone : ((Call.createBatch name clientId assignments key now uuid).added env).filter
          (·.batchId = b.id) = [] := by
        refine List.filter_eq_nil_iff.2 fun w hw hw' => hnew b hb ?_
        exact (of_decide_eq_true hw').symm.trans (hadded w hw)
      rw [hnone, List.append_nil]
      exact hs.batches b hb
    · obtain rfl := List.mem_singleton.1 hb
      have hold : s.workers.filter (·.batchId = value.batch.id) = [] := by
        refine List.filter_eq_nil_iff.2 fun w hw hw' => ?_
        obtain ⟨b, hb, hbid⟩ := hs.workers w hw
        exact hnew b hb (hbid.trans (of_decide_eq_true hw'))
      have hall : ((Call.createBatch name clientId assignments key now uuid).added env).filter
          (·.batchId = value.batch.id) =
            (Call.createBatch name clientId assignments key now uuid).added env :=
        List.filter_eq_self.2 fun w hw => decide_eq_true (hadded w hw)
      rw [hold, hall, List.nil_append, map_attribution_added, hname]
      exact hprint
  · intro w hw
    rw [hworkers] at hw
    unfold hasBatch
    rw [hbatches]
    rcases List.mem_append.1 hw with hw | hw
    · obtain ⟨b, hb, hbid⟩ := hs.workers w hw
      exact ⟨b, List.mem_append_left _ hb, hbid⟩
    · exact ⟨value.batch, List.mem_append_right _ (List.mem_singleton_self _), (hadded w hw).symm⟩

/-- The batch was created under the client and the key. -/
def CreatedUnder (clientId key : String) (b : Batch) : Prop :=
  b.clientId = some clientId ∧ b.idempotencyKey = some key

theorem CreatedUnder.identity {clientId key : String} {b : Batch}
    (h : CreatedUnder clientId key b) : b.identity = some (batchKey clientId key) := by
  unfold Batch.identity
  rw [h.1, h.2]

/-- A batch of one assignment under a client and a key. -/
def keyedBatch (clientId key : String) (uuid : ℕ → String) : Call × WriteOutcome :=
  written (.createBatch "n" clientId [sampleAttribution] (some key) "2026-01-01" uuid)

def secondIds (n : ℕ) : String := if n = 0 then "s2" else if n = 1 then "b2" else "w2"

end AgentOrchestrator.Store
