import AgentOrchestrator.Launch.BatchReplay
import AgentOrchestrator.Store.Memory

/-!
# Launches of different clients

Every identity of a launch is derived from the client and the idempotency key, and the store finds
an earlier launch by the two.  The client enters after its redaction, so what is kept apart are the
redacted clients.
-/

namespace AgentOrchestrator.Launch

open Store

variable {env : AcceptEnv}

/-! ## Submissions -/

/-- A request of `accept` or `acceptBatch`, with the answers of the authorizer and the clock. -/
inductive Submission where
  | single (request : AsynchronousLaunchRequest) (answer : Authorization) (acceptedAt : Timestamp)
  | batch (request : AsynchronousBatchLaunchRequest) (answers : ℕ → Authorization)
      (acceptedAt : Timestamp)

namespace Submission

def clientId : Submission → String
  | .single request _ _ => request.clientId
  | .batch request _ _ => request.clientId

/-- The idempotency keys of its launches. -/
def keys : Submission → List String
  | .single request _ _ => [request.idempotencyKey]
  | .batch request _ _ => request.assignments.map (·.idempotencyKey)

/-- The idempotency key of its batch. -/
def batchKey : Submission → String
  | .single request _ _ => request.idempotencyKey
  | .batch request _ _ => request.idempotencyKey

/-- The records the service builds. -/
def build (env : AcceptEnv) : Submission → Except Denial (List LaunchInput × Batch)
  | .single request answer acceptedAt =>
    (accept env request answer acceptedAt).map fun built => ([built.1], built.2)
  | .batch request answers acceptedAt => acceptBatch env request answers acceptedAt

/-- The store call the service makes with the built records; a single submission builds one. -/
def call (built : List LaunchInput × Batch) (uuids : List String) : Submission → Call
  | .single .. =>
    match built.1 with
    | [input] => .acceptLaunch input built.2 (uuids.headD "")
    | inputs => .acceptLaunchBatch inputs built.2 uuids
  | .batch .. => .acceptLaunchBatch built.1 built.2 uuids

/-- The client, as it enters the identities. -/
def scope (env : AcceptEnv) (x : Submission) : String := env.redactText x.clientId

end Submission

/-- What the identities of a built submission are derived from. -/
structure Derived (env : AcceptEnv) (x : Submission) (built : List LaunchInput × Batch) : Prop where
  keys : built.1.map (·.assignment.idempotencyKey) = x.keys.map (scopedKey (x.scope env))
  records : ∀ i ∈ built.1, ∃ key ∈ x.keys, i.assignment.idempotencyKey = scopedKey (x.scope env) key ∧
    i.assignment.id = stableId env "assignment" (scopedKey (x.scope env) key) ∧
    i.session.id = stableId env "session" (scopedKey (x.scope env) key) ∧
    i.assignment.attemptId = some (stableId env "attempt" (scopedKey (x.scope env) key))
  batch : built.2.id = stableId env "batch" (scopedKey (x.scope env) x.batchKey)
  keyTexts : ∀ key ∈ x.batchKey :: x.keys, '\x00' ∉ key.toList

theorem zero_not_mem {text : String} (h : text.toList.any Coordinator.isControl = false) :
    '\x00' ∉ text.toList := by
  intro hmem
  have hcontrol := List.any_eq_false.1 h '\x00' hmem
  exact hcontrol (by decide)

theorem Submission.derived {x : Submission} {built : List LaunchInput × Batch}
    (h : x.build env = .ok built) : Derived env x built := by
  cases x with
  | single request answer acceptedAt =>
    cases haccept : accept env request answer acceptedAt with
    | error e =>
      dsimp only [Submission.build] at h
      rw [haccept] at h
      cases h
    | ok pair =>
      dsimp only [Submission.build] at h
      rw [haccept] at h
      obtain rfl := Except.ok.inj h
      obtain ⟨input, batch⟩ := pair
      obtain ⟨launch, hs, -, hbatch, rfl⟩ := accept_ok haccept
      have hclient : launch.1.clientId = env.redactText request.clientId := hs.clientId
      have hkey := hs.idempotencyKey
      refine ⟨?_, ?_, ?_, ?_⟩
      · show [scopedKey launch.1.clientId launch.1.idempotencyKey] =
          [scopedKey (env.redactText request.clientId) request.idempotencyKey]
        rw [hclient, hkey]
      · intro i hi
        obtain rfl := List.mem_singleton.1 hi
        refine ⟨request.idempotencyKey, List.mem_singleton_self _, ?_⟩
        show scopedKey launch.1.clientId launch.1.idempotencyKey = _ ∧
          stableId env "assignment" (scopedKey launch.1.clientId launch.1.idempotencyKey) = _ ∧
          stableId env "session" (scopedKey launch.1.clientId launch.1.idempotencyKey) = _ ∧
          some (stableId env "attempt" (scopedKey launch.1.clientId launch.1.idempotencyKey)) = _
        rw [hclient, hkey]
        exact ⟨rfl, rfl, rfl, rfl⟩
      · show batch.id = stableId env "batch"
          (scopedKey (env.redactText request.clientId) request.idempotencyKey)
        rw [hbatch, ← hclient, ← hkey]
        rfl
      · intro key hmem
        have hsame : key = request.idempotencyKey := by
          simpa [Submission.batchKey, Submission.keys] using hmem
        rw [hsame]
        exact zero_not_mem hs.keyText
  | batch request answers acceptedAt =>
    obtain ⟨inputs, batch⟩ := built
    obtain ⟨launches, hbuilt⟩ := acceptBatch_ok h
    have hkeys : inputs.map (·.assignment.idempotencyKey) =
        (request.assignments.map (·.idempotencyKey)).map
          (scopedKey (env.redactText request.clientId)) := hbuilt.keys_eq
    refine ⟨hkeys, ?_, ?_, ?_⟩
    · intro i hi
      have hmem : i.assignment.idempotencyKey ∈ inputs.map (·.assignment.idempotencyKey) :=
        List.mem_map_of_mem hi
      rw [hkeys] at hmem
      obtain ⟨key, hkey, hscoped⟩ := List.mem_map.1 hmem
      rw [hbuilt.inputs_eq] at hi
      obtain ⟨y, -, rfl⟩ := List.mem_map.1 hi
      refine ⟨key, hkey, hscoped.symm, ?_⟩
      show stableId env "assignment" (scopedKey _ _) = _ ∧ stableId env "session" (scopedKey _ _) = _ ∧
        some (stableId env "attempt" (scopedKey _ _)) = _
      rw [show scopedKey (env.redactText request.clientId) y.1.1.idempotencyKey =
        scopedKey (env.redactText request.clientId) key from hscoped.symm]
      exact ⟨rfl, rfl, rfl⟩
    · show batch.id = _
      rw [hbuilt.batch_eq]
      rfl
    · intro key hmem
      rcases List.mem_cons.1 hmem with rfl | hmem
      · exact zero_not_mem hbuilt.checked.keyText
      · obtain ⟨item, hitem, rfl⟩ := List.mem_map.1 hmem
        obtain ⟨n, hn, rfl⟩ := List.getElem_of_mem hitem
        have hs := (List.forall₂_iff_get.1 hbuilt.sanitized).2 n hn
          (hbuilt.sanitized.length_eq ▸ hn)
        exact zero_not_mem hs.keyText

/-! ## Scoped keys -/

/-- Two texts that end after a separator with parts free of it are equal in both parts. -/
theorem append_separator_inj {α : Type} {z : α} {x x' y y' : List α} (hy : z ∉ y) (hy' : z ∉ y')
    (h : x ++ z :: y = x' ++ z :: y') : x = x' ∧ y = y' := by
  rcases List.append_eq_append_iff.1 h with ⟨a, hx, ha⟩ | ⟨a, hx, ha⟩
  · cases a with
    | nil =>
      rw [List.append_nil] at hx
      exact ⟨hx.symm, (List.cons.inj ha).2⟩
    | cons b a =>
      refine absurd ?_ hy
      rw [(List.cons.inj ha).2]
      exact List.mem_append_right a List.mem_cons_self
  · cases a with
    | nil =>
      rw [List.append_nil] at hx
      exact ⟨hx, (List.cons.inj ha).2.symm⟩
    | cons b a =>
      refine absurd ?_ hy'
      rw [(List.cons.inj ha).2]
      exact List.mem_append_right a List.mem_cons_self

theorem scopedKey_inj {clientId clientId' key key' : String} (hkey : '\x00' ∉ key.toList)
    (hkey' : '\x00' ∉ key'.toList) (h : scopedKey clientId key = scopedKey clientId' key') :
    clientId = clientId' ∧ key = key' := by
  unfold scopedKey at h
  have hlist := congrArg String.toList h
  simp only [String.toList_append] at hlist
  rw [List.append_assoc, List.append_assoc] at hlist
  obtain ⟨hclient, hrest⟩ := append_separator_inj hkey hkey' hlist
  exact ⟨String.toList_inj.1 hclient, String.toList_inj.1 hrest⟩

/-! ## What the store makes of a submission -/

/-- How an acceptance is treated: as a replay, as a conflict with its message, or neither. -/
inductive Treatment where
  | replay
  | conflict (message : String)
  | neither
  deriving DecidableEq

def treatment {α : Type} : Body α → Treatment
  | .reply _ _ => .replay
  | .reject (.error message) _ => .conflict message
  | _ => .neither

theorem treatment_erase {α : Type} (b : Body α) : treatment b.erase = treatment b := by
  cases b with
  | reject error memory => cases error <;> rfl
  | reply value memory => rfl
  | commit value next => rfl

theorem appendSecurityAuditToState_error {env : Store.Env} {input : SecurityAuditInput}
    {uuid : String} {now : Timestamp} {s : DurableState} {e : StoreError}
    (h : appendSecurityAuditToState env input uuid now s = .error e) (message : String) :
    e ≠ .error message := by
  unfold appendSecurityAuditToState at h
  split at h
  · rename_i error hchain
    obtain rfl := Except.error.inj h
    unfold assertSecurityAuditChain at hchain
    split at hchain
    · cases hchain
    · obtain rfl := Except.error.inj hchain
      exact (nomatch ·)
  · dsimp only at h
    split_ifs at h
    obtain rfl := Except.error.inj h
    exact (nomatch ·)

theorem appendAudits_error {env : Store.Env} {inputs : List LaunchInput} {uuids : List String}
    {s : DurableState} {e : StoreError} (h : appendAudits env inputs uuids s = .error e)
    (message : String) : e ≠ .error message := by
  induction inputs generalizing uuids s with
  | nil => cases h
  | cons input inputs ih =>
    unfold appendAudits at h
    split at h
    · rename_i error herror
      obtain rfl := Except.error.inj h
      exact appendSecurityAuditToState_error herror message
    · exact ih h

/-- A state that an audit failed to extend is no conflict. -/
theorem treatment_created {α : Type} {x : Except StoreError DurableState} {value : α}
    {s : DurableState} (h : ∀ e, x = .error e → ∀ message, e ≠ .error message) :
    treatment (match x with
      | .error e => (.reject e s : Body α)
      | .ok next => .commit value next) = .neither := by
  cases x with
  | ok next => rfl
  | error e =>
    cases e with
    | error message => exact absurd rfl (h _ rfl message)
    | _ => rfl

/-- How a launch is treated depends on the assignment with its key alone. -/
theorem treatment_acceptLaunch {env : Store.Env} {input : LaunchInput} {batch : Batch}
    {uuid : String} {s t : DurableState}
    (h : assignmentByKey t input.assignment.idempotencyKey =
      assignmentByKey s input.assignment.idempotencyKey) :
    treatment (acceptLaunch env input batch uuid t) =
      treatment (acceptLaunch env input batch uuid s) := by
  unfold acceptLaunch
  dsimp only
  rw [h]
  split
  · rfl
  split
  · rfl
  split
  · rfl
  split
  · split_ifs <;> rfl
  · exact (treatment_created fun e he => appendSecurityAuditToState_error he).trans
      (treatment_created fun e he => appendSecurityAuditToState_error he).symm

/-- How a batch of launches is treated depends on the assignments with its keys and on whether its
batch is on file. -/
theorem treatment_acceptLaunchBatch {env : Store.Env} {inputs : List LaunchInput} {batch : Batch}
    {uuids : List String} {s t : DurableState}
    (h : ∀ i ∈ inputs, assignmentByKey t i.assignment.idempotencyKey =
      assignmentByKey s i.assignment.idempotencyKey)
    (hbatch : hasBatch t batch.id ↔ hasBatch s batch.id) :
    treatment (acceptLaunchBatch env inputs batch uuids t) =
      treatment (acceptLaunchBatch env inputs batch uuids s) := by
  have hexisting : (inputs.map fun i => (i, assignmentByKey t i.assignment.idempotencyKey)) =
      inputs.map fun i => (i, assignmentByKey s i.assignment.idempotencyKey) :=
    List.map_congr_left fun i hi => by rw [h i hi]
  unfold acceptLaunchBatch
  dsimp only
  rw [hexisting]
  split
  · rfl
  split
  · rfl
  split
  · split
    · rfl
    · split <;> rfl
  by_cases hb : hasBatch s batch.id
  · rw [if_pos hb, if_pos (hbatch.2 hb)]
    rfl
  · rw [if_neg hb, if_neg fun ht => hb (hbatch.1 ht)]
    exact (treatment_created fun e he => appendAudits_error he).trans
      (treatment_created fun e he => appendAudits_error he).symm

/-- The first call, when it creates its records, does not change how the second is treated. -/
def Undisturbed (env : Store.Env) (first second : Call) : Prop :=
  ∀ s next, first.next env s = some next →
    treatment (second.body env next) = treatment (second.body env s)

theorem Submission.offered_call {x : Submission} {built : List LaunchInput × Batch}
    (uuids : List String) :
    ((x.call built uuids).offered env.toEnv).map (·.1) = built.1.map (·.assignment) ∧
      (x.call built uuids).opens = some built.2.id := by
  obtain ⟨inputs, batch⟩ := built
  have hbatch : (((Call.acceptLaunchBatch inputs batch uuids).offered env.toEnv).map (·.1)) =
      inputs.map (·.assignment) := by
    unfold Call.offered
    rw [List.map_map]
    rfl
  cases x with
  | batch request answers acceptedAt => exact ⟨hbatch, rfl⟩
  | single request answer acceptedAt =>
    match inputs with
    | [] => exact ⟨hbatch, rfl⟩
    | [input] => exact ⟨rfl, rfl⟩
    | _ :: _ :: _ => exact ⟨hbatch, rfl⟩

/-- What a submission finds is what it found before, when the other one has other keys. -/
theorem undisturbed_of_keys {x y : Submission} {first second : List LaunchInput × Batch}
    {uuids uuids' : List String}
    (hkeys : ∀ i ∈ first.1, ∀ j ∈ second.1,
      i.assignment.idempotencyKey ≠ j.assignment.idempotencyKey)
    (hbatch : first.2.id ≠ second.2.id) :
    Undisturbed env.toEnv (x.call first uuids) (y.call second uuids') := by
  intro s next hnext
  obtain ⟨hoffered, hopens⟩ := @Submission.offered_call env x first uuids
  have hassignments : next.assignments = s.assignments ++ first.1.map (·.assignment) := by
    rw [← hoffered]
    refine Call.next_assignments ?_ hnext
    cases x with
    | batch request answers acceptedAt => rfl
    | single request answer acceptedAt =>
      dsimp only [Submission.call]
      split <;> rfl
  have hfound : ∀ j ∈ second.1, assignmentByKey next j.assignment.idempotencyKey =
      assignmentByKey s j.assignment.idempotencyKey := by
    intro j hj
    unfold assignmentByKey
    rw [hassignments, List.find?_append]
    have hnone : (first.1.map (·.assignment)).find?
        (fun a => a.idempotencyKey = j.assignment.idempotencyKey) = none := by
      refine List.find?_eq_none.2 fun a ha hkey => ?_
      obtain ⟨i, hi, rfl⟩ := List.mem_map.1 ha
      exact hkeys i hi j hj (of_decide_eq_true hkey)
    rw [hnone, Option.or_none]
  have hused : hasBatch next second.2.id ↔ hasBatch s second.2.id := by
    rw [Call.hasBatch_next hnext, hopens]
    refine or_iff_left fun h => hbatch (Option.some.inj h)
  have hlist : ∀ inputs, inputs = second.1 →
      treatment ((Call.acceptLaunchBatch inputs second.2 uuids').body env.toEnv next) =
        treatment ((Call.acceptLaunchBatch inputs second.2 uuids').body env.toEnv s) := by
    rintro inputs rfl
    unfold Call.body
    dsimp only
    rw [treatment_erase, treatment_erase]
    exact treatment_acceptLaunchBatch hfound hused
  cases y with
  | batch request answers acceptedAt => exact hlist _ rfl
  | single request answer acceptedAt =>
    dsimp only [Submission.call]
    split
    · rename_i input hinput
      unfold Call.body
      dsimp only
      rw [treatment_erase, treatment_erase]
      refine treatment_acceptLaunch (hfound input ?_)
      rw [hinput]
      exact List.mem_singleton_self _
    · exact hlist _ rfl

/-! ## Clients kept apart -/

/-- Two built submissions are kept apart: they share no identity, and neither changes how the store
treats the other. -/
structure KeptApart (env : AcceptEnv) (x y : Submission) (first second : List LaunchInput × Batch) :
    Prop where
  assignments : ∀ i ∈ first.1, ∀ j ∈ second.1, i.assignment.id ≠ j.assignment.id
  sessions : ∀ i ∈ first.1, ∀ j ∈ second.1, i.session.id ≠ j.session.id
  attempts : ∀ i ∈ first.1, ∀ j ∈ second.1, i.assignment.attemptId ≠ j.assignment.attemptId
  batches : first.2.id ≠ second.2.id
  forward : ∀ uuids uuids', Undisturbed env.toEnv (x.call first uuids) (y.call second uuids')
  backward : ∀ uuids uuids', Undisturbed env.toEnv (y.call second uuids) (x.call first uuids')

/-- The kinds of identities that are derived from a scoped key. -/
def identityKinds : List String := ["assignment", "session", "attempt", "batch"]

/-- The truncated digests of the scoped keys of two submissions do not collide. -/
def CollisionFree (env : AcceptEnv) (x y : Submission) : Prop :=
  ∀ kind ∈ identityKinds, ∀ key ∈ x.batchKey :: x.keys, ∀ key' ∈ y.batchKey :: y.keys,
    stableId env kind (scopedKey (x.scope env) key) =
      stableId env kind (scopedKey (y.scope env) key') →
    scopedKey (x.scope env) key = scopedKey (y.scope env) key'

instance (env : AcceptEnv) (x y : Submission) : Decidable (CollisionFree env x y) := by
  unfold CollisionFree
  infer_instance

/-- Every key of a submission has its record. -/
theorem Derived.record_of_key {x : Submission} {built : List LaunchInput × Batch}
    (h : Derived env x built) {key : String} (hkey : key ∈ x.keys) :
    ∃ i ∈ built.1, i.assignment.id = stableId env "assignment" (scopedKey (x.scope env) key) := by
  have hmem : scopedKey (x.scope env) key ∈ built.1.map (·.assignment.idempotencyKey) := by
    rw [h.keys]
    exact List.mem_map_of_mem hkey
  obtain ⟨i, hi, hscoped⟩ := List.mem_map.1 hmem
  obtain ⟨key', -, hkey', hid, -⟩ := h.records i hi
  refine ⟨i, hi, ?_⟩
  rw [hid, ← hkey', hscoped]

/-- **Launches are scoped per client.** Two accepted submissions are kept apart if and only if the
redactions of their clients differ or they share no idempotency key. -/
theorem clients_separate_iff {x y : Submission} {first second : List LaunchInput × Batch}
    (hx : x.build env = .ok first) (hy : y.build env = .ok second) (hfree : CollisionFree env x y) :
    KeptApart env x y first second ↔
      env.redactText x.clientId ≠ env.redactText y.clientId ∨
        ((∀ key ∈ x.keys, key ∉ y.keys) ∧ x.batchKey ≠ y.batchKey) := by
  have hfirst := Submission.derived hx
  have hsecond := Submission.derived hy
  constructor
  · intro hapart
    refine or_iff_not_imp_left.2 fun hscope => ?_
    have hsame : x.scope env = y.scope env := not_not.1 hscope
    refine ⟨?_, ?_⟩
    · intro key hkey hkey'
      obtain ⟨i, hi, hid⟩ := hfirst.record_of_key hkey
      obtain ⟨j, hj, hid'⟩ := hsecond.record_of_key hkey'
      exact hapart.assignments i hi j hj (by rw [hid, hid', hsame])
    · intro hkey
      exact hapart.batches (by rw [hfirst.batch, hsecond.batch, hsame, hkey])
  · intro hcondition
    -- A scoped key in common is a client and a key in common.
    have hdistinct : ∀ key ∈ x.batchKey :: x.keys, ∀ key' ∈ y.batchKey :: y.keys,
        scopedKey (x.scope env) key = scopedKey (y.scope env) key' →
        x.scope env = y.scope env ∧ key = key' := fun key hkey key' hkey' h =>
      scopedKey_inj (hfirst.keyTexts key hkey) (hsecond.keyTexts key' hkey') h
    have hkeys : ∀ key ∈ x.keys, ∀ key' ∈ y.keys,
        scopedKey (x.scope env) key ≠ scopedKey (y.scope env) key' := by
      intro key hkey key' hkey' h
      obtain ⟨hscope, rfl⟩ := hdistinct key (List.mem_cons_of_mem _ hkey) key'
        (List.mem_cons_of_mem _ hkey') h
      exact hcondition.elim (fun hne => hne hscope) fun hnone => hnone.1 key hkey hkey'
    have hstable : ∀ kind ∈ identityKinds, ∀ key ∈ x.keys, ∀ key' ∈ y.keys,
        stableId env kind (scopedKey (x.scope env) key) ≠
          stableId env kind (scopedKey (y.scope env) key') := fun kind hkind key hkey key' hkey' h =>
      hkeys key hkey key' hkey' (hfree kind hkind key (List.mem_cons_of_mem _ hkey) key'
        (List.mem_cons_of_mem _ hkey') h)
    have hbatches : first.2.id ≠ second.2.id := by
      intro h
      rw [hfirst.batch, hsecond.batch] at h
      obtain ⟨hscope, hkey⟩ := hdistinct _ List.mem_cons_self _ List.mem_cons_self
        (hfree "batch" (by decide) _ List.mem_cons_self _ List.mem_cons_self h)
      exact hcondition.elim (fun hne => hne hscope) fun hnone => hnone.2 hkey
    have hscoped : ∀ i ∈ first.1, ∀ j ∈ second.1,
        i.assignment.idempotencyKey ≠ j.assignment.idempotencyKey := by
      intro i hi j hj h
      obtain ⟨key, hkey, hi', -⟩ := hfirst.records i hi
      obtain ⟨key', hkey', hj', -⟩ := hsecond.records j hj
      exact hkeys key hkey key' hkey' (by rw [← hi', ← hj', h])
    refine ⟨?_, ?_, ?_, hbatches, fun _ _ => undisturbed_of_keys hscoped hbatches,
      fun _ _ => undisturbed_of_keys (fun j hj i hi h => hscoped i hi j hj h.symm) hbatches.symm⟩
    · intro i hi j hj h
      obtain ⟨key, hkey, -, hid, -⟩ := hfirst.records i hi
      obtain ⟨key', hkey', -, hid', -⟩ := hsecond.records j hj
      exact hstable "assignment" (by decide) key hkey key' hkey' (by rw [← hid, ← hid', h])
    · intro i hi j hj h
      obtain ⟨key, hkey, -, -, hid, -⟩ := hfirst.records i hi
      obtain ⟨key', hkey', -, -, hid', -⟩ := hsecond.records j hj
      exact hstable "session" (by decide) key hkey key' hkey' (by rw [← hid, ← hid', h])
    · intro i hi j hj h
      obtain ⟨key, hkey, -, -, -, hid⟩ := hfirst.records i hi
      obtain ⟨key', hkey', -, -, -, hid'⟩ := hsecond.records j hj
      rw [hid, hid'] at h
      exact hstable "attempt" (by decide) key hkey key' hkey' (Option.some.inj h)

/-- A launch under the key `k1` of a client. -/
def clientSubmission (clientId : String) : Submission :=
  .single { idempotencyKey := "k1", clientId := clientId, batchName := "nightly",
            attribution := some sampleAttribution, prompt := "Fix the build", workspaceId := "ws-1" }
    (.ok { canonicalPath := "/work", workspaceId := "ws-1", projectId := some "p1" })
    "2026-01-01T00:00:00.000Z"

/-- Two clients with the same key have launches of their own. -/
theorem clients_separate_iff_sample : ∃ first second,
    (clientSubmission "client").build sampleEnv = .ok first ∧
      (clientSubmission "another-client").build sampleEnv = .ok second ∧
      KeptApart sampleEnv (clientSubmission "client") (clientSubmission "another-client") first
        second := by
  have hfirst : ((clientSubmission "client").build sampleEnv).toOption.any (fun _ => true) = true := by
    decide +kernel
  have hsecond : ((clientSubmission "another-client").build sampleEnv).toOption.any
      (fun _ => true) = true := by decide +kernel
  obtain ⟨first, hx, -⟩ := exists_of_any hfirst
  obtain ⟨second, hy, -⟩ := exists_of_any hsecond
  have hfree : CollisionFree sampleEnv (clientSubmission "client")
      (clientSubmission "another-client") := by decide +kernel
  exact ⟨first, second, hx, hy, (clients_separate_iff hx hy hfree).2 (Or.inl (by decide +kernel))⟩

/-- Two clients whose texts differ only in what the redaction hides share their identities. -/
theorem redacted_clients_collide : "token=aaaa" ≠ "token=bbbb" ∧ ∃ first second,
    (clientSubmission "token=aaaa").build sampleEnv = .ok first ∧
      (clientSubmission "token=bbbb").build sampleEnv = .ok second ∧
      ¬ KeptApart sampleEnv (clientSubmission "token=aaaa") (clientSubmission "token=bbbb") first
        second := by
  have hcheck : ((clientSubmission "token=aaaa").build sampleEnv).toOption.any (fun first =>
      ((clientSubmission "token=bbbb").build sampleEnv).toOption.any fun second =>
        decide (first.2.id = second.2.id)) = true := by decide +kernel
  obtain ⟨first, hx, hrest⟩ := exists_of_any hcheck
  obtain ⟨second, hy, hsame⟩ := exists_of_any hrest
  refine ⟨by decide, first, second, hx, hy, fun h => h.batches (of_decide_eq_true hsame)⟩

end AgentOrchestrator.Launch
