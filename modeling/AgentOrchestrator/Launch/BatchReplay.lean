import AgentOrchestrator.Launch.Acceptance
import AgentOrchestrator.Store.Batches
import AgentOrchestrator.Store.Deliveries

/-!
# Replays of a batch launch

A batch launch whose batch is already on file is either a replay of the original request or a
conflict.  The store decides this assignment by assignment: it takes every list of launches of the
original batch for a replay, also a shorter or a reordered one.
-/

namespace AgentOrchestrator.Launch

open Store

variable {env : AcceptEnv}

/-! ## The original list -/

/-- What identifies the launch of an assignment: its key and the fingerprint of its request. -/
def launchIdentity (a : Assignment) : String × String := (a.idempotencyKey, a.requestFingerprint)

/-- The launches a call offers, in order. -/
def offeredLaunches (env : Store.Env) (c : Call) : List (String × String) :=
  (c.offered env).map fun o => launchIdentity o.1

/-- The list with which a run created a batch: that of the first call after which the batch is on
file. -/
def createdWith (env : Store.Env) (batchId : String) :
    Disk → List (Call × WriteOutcome) → List (String × String)
  | _, [] => []
  | disk, i :: calls =>
    if hasBatch (contents (Store.step env disk i)) batchId then offeredLaunches env i.1
    else createdWith env batchId (Store.step env disk i) calls

/-- The launches of a batch on file. -/
def launchesOf (s : DurableState) (batchId : String) : List (String × String) :=
  (s.assignments.filter (·.batchId = batchId)).map launchIdentity

/-- The launches a call offers belong to the batch it opens, under keys of their own. -/
structure Coherent (env : Store.Env) (c : Call) : Prop where
  batch : ∀ o ∈ c.offered env, c.opens = some o.1.batchId
  keys : ((c.offered env).map (·.1.idempotencyKey)).Nodup

theorem scopedKey_injective (clientId : String) : Function.Injective (scopedKey clientId) := by
  intro key key' h
  unfold scopedKey at h
  exact String.append_right_inj _ |>.1 h

/-- The keys of the launches of a batch. -/
theorem BatchBuilt.keys_eq {request : AsynchronousBatchLaunchRequest} {acceptedAt : Timestamp}
    {launches : List (SanitizedRequest × Grant)} {inputs : List LaunchInput} {batch : Batch}
    (h : BatchBuilt env request acceptedAt launches inputs batch) :
    inputs.map (·.assignment.idempotencyKey) =
      (request.assignments.map (·.idempotencyKey)).map
        (scopedKey (env.redactText request.clientId)) := by
  have hitems : launches.map (·.1.idempotencyKey) =
      request.assignments.map (·.idempotencyKey) := by
    have hequal : List.Forall₂ (· = ·) (launches.map (·.1.idempotencyKey))
        (request.assignments.map (·.idempotencyKey)) := by
      rw [List.forall₂_map_left_iff, List.forall₂_map_right_iff]
      exact (h.sanitized.imp fun _ _ hs => hs.idempotencyKey).flip
    rwa [List.forall₂_eq_eq_eq] at hequal
  rw [h.inputs_eq, List.map_map, ← hitems, List.map_map]
  refine Eq.trans ?_ (congrArg (List.map _) (List.zipIdx_map_fst 0 launches))
  rw [List.map_map]
  rfl

theorem BatchBuilt.keys {request : AsynchronousBatchLaunchRequest} {acceptedAt : Timestamp}
    {launches : List (SanitizedRequest × Grant)} {inputs : List LaunchInput} {batch : Batch}
    (h : BatchBuilt env request acceptedAt launches inputs batch) :
    (inputs.map (·.assignment.idempotencyKey)).Nodup := by
  rw [h.keys_eq]
  exact h.checked.keys.map (scopedKey_injective _)

theorem Accepts.coherent {c : Call} (h : Accepts env c) : Coherent env.toEnv c := by
  cases c with
  | acceptLaunch input batch uuid =>
    obtain ⟨request, answer, acceptedAt, haccept⟩ := h
    obtain ⟨launch, -, -, hbatch, rfl⟩ := accept_ok haccept
    refine ⟨?_, List.nodup_singleton _⟩
    intro o ho
    obtain rfl := List.mem_singleton.1 ho
    rfl
  | acceptLaunchBatch inputs batch uuids =>
    obtain ⟨request, answers, acceptedAt, haccept⟩ := h
    obtain ⟨launches, hbuilt⟩ := acceptBatch_ok haccept
    refine ⟨?_, ?_⟩
    · intro o ho
      obtain ⟨i, hi, rfl⟩ := List.mem_map.1 ho
      rw [hbuilt.inputs_eq] at hi
      obtain ⟨x, -, rfl⟩ := List.mem_map.1 hi
      rfl
    · have hkeys := hbuilt.keys
      unfold Call.offered
      rw [List.map_map]
      exact hkeys
  | _ =>
    refine ⟨?_, List.nodup_nil⟩
    intro o ho
    cases ho

/-! ## The launches of a batch over a run -/

/-- An assignment rewritten by a launch event stays the launch it was. -/
structure SameLaunch (a a' : Assignment) : Prop where
  id : a'.id = a.id
  batchId : a'.batchId = a.batchId
  identity : launchIdentity a' = launchIdentity a

/-- What a call makes of the assignments: each stays the launch it was, and the offered ones
follow. -/
theorem next_assignments {env : Store.Env} {c : Call} {s next : DurableState}
    (hs : StateSchema env s) (h : c.next env s = some next) :
    ∃ f : Assignment → Assignment,
      next.assignments = s.assignments.map f ++ (c.offered env).map (·.1) ∧
        ∀ a ∈ s.assignments, SameLaunch a (f a) := by
  by_cases hc : c.isLaunchEvent = true
  swap
  · refine ⟨id, ?_, fun a _ => ⟨rfl, rfl, rfl⟩⟩
    rw [List.map_id]
    exact Call.next_assignments (Bool.eq_false_iff.2 hc) h
  · cases c with
    | recordLaunchEvent id target event audit uuid =>
      have hput : ∃ a a', s.assignment? id = some a ∧ SameLaunch a a' ∧
          next.assignments = Keyed.put (·.id) a' s.assignments := by
        obtain ⟨-, a, ha, ⟨-, -, hr⟩ | ⟨-, -, -, -, -, hadv⟩⟩ :=
          recordLaunchEvent_next hs.uniqueWorkers h
        · exact ⟨a, refuseAssignment event a, ha, ⟨rfl, rfl, rfl⟩, hr.assignments⟩
        · exact ⟨a, advanceAssignment env target event a, ha, ⟨rfl, rfl, rfl⟩, hadv.assignments⟩
      obtain ⟨a, a', ha, hsame, hnext⟩ := hput
      refine ⟨fun x => if x.id = a'.id then a' else x, ?_, ?_⟩
      · rw [hnext]
        exact (List.append_nil _).symm
      · intro x hx
        dsimp only
        split_ifs with hid
        · obtain rfl := Keyed.eq_of_key hs.uniqueAssignments hx (Keyed.mem_of_lookup ha)
            (hid.trans hsame.id)
          exact hsame
        · exact ⟨rfl, rfl, rfl⟩
    | _ => cases hc

/-- The launches of a batch after a call. -/
theorem launchesOf_next {env : Store.Env} {c : Call} {s next : DurableState}
    (hs : StateSchema env s) (hc : Coherent env c) (h : c.next env s = some next)
    (batchId : String) :
    launchesOf next batchId = launchesOf s batchId ++
      if c.opens = some batchId then offeredLaunches env c else [] := by
  obtain ⟨f, hnext, hsame⟩ := next_assignments hs h
  unfold launchesOf
  rw [hnext, List.filter_append, List.map_append]
  congr 1
  · rw [List.filter_map, List.map_map]
    have hfilter : s.assignments.filter ((fun a => decide (a.batchId = batchId)) ∘ f) =
        s.assignments.filter fun a => a.batchId = batchId := by
      refine List.filter_congr fun a ha => ?_
      rw [Function.comp_apply, (hsame a ha).batchId]
    rw [hfilter]
    refine List.map_congr_left fun a ha => ?_
    exact (hsame a (List.mem_of_mem_filter ha)).identity
  · unfold offeredLaunches
    split_ifs with hopens
    · have hall : ((c.offered env).map (·.1)).filter (·.batchId = batchId) =
          (c.offered env).map (·.1) := by
        refine List.filter_eq_self.2 fun a ha => ?_
        obtain ⟨o, ho, rfl⟩ := List.mem_map.1 ha
        exact decide_eq_true (Option.some.inj ((hc.batch o ho).symm.trans hopens))
      rw [hall, List.map_map]
      rfl
    · have hnone : ((c.offered env).map (·.1)).filter (·.batchId = batchId) = [] := by
        refine List.filter_eq_nil_iff.2 fun a ha hb => hopens ?_
        obtain ⟨o, ho, rfl⟩ := List.mem_map.1 ha
        rw [hc.batch o ho]
        exact congrArg some (of_decide_eq_true hb)
      rw [hnone]
      rfl

/-- A batch that is not on file has no launches. -/
theorem launchesOf_unused {env : Store.Env} {s : DurableState} (hs : StateSchema env s)
    {batchId : String} (h : ¬ hasBatch s batchId) : launchesOf s batchId = [] := by
  unfold launchesOf
  have hnone : s.assignments.filter (·.batchId = batchId) = [] := by
    refine List.filter_eq_nil_iff.2 fun a ha hb => h ?_
    rw [← of_decide_eq_true hb]
    exact (hs.assignmentRelations a ha).1
  rw [hnone]
  rfl

/-- A step keeps the launches of a batch on file. -/
theorem launchesOf_step {env : Store.Env} {disk : Disk} {i : Call × WriteOutcome}
    (hc : Coherent env i.1) {batchId : String} (h : hasBatch (contents disk) batchId) :
    launchesOf (contents (Store.step env disk i)) batchId = launchesOf (contents disk) batchId := by
  rcases step_cases env disk i.1 i.2 with e | ⟨next, hs, hn, hnext, e⟩
  · rw [show Store.step env disk i = disk from e]
  · rw [show Store.step env disk i = some next from e]
    have hopens : i.1.opens ≠ some batchId := fun ho => Call.opens_new hn hnext ho h
    rw [show contents (some next) = next from rfl, launchesOf_next hs hc hn, if_neg hopens,
      List.append_nil]

/-- The step that opens a batch stores the launches its call offers. -/
theorem launchesOf_opened {env : Store.Env} {disk : Disk} {i : Call × WriteOutcome}
    (hc : Coherent env i.1) {batchId : String} (h : ¬ hasBatch (contents disk) batchId)
    (h' : hasBatch (contents (Store.step env disk i)) batchId) :
    launchesOf (contents (Store.step env disk i)) batchId = offeredLaunches env i.1 := by
  rcases step_cases env disk i.1 i.2 with e | ⟨next, hs, hn, hnext, e⟩
  · rw [show Store.step env disk i = disk from e] at h'
    exact absurd h' h
  · rw [show Store.step env disk i = some next from e] at h' ⊢
    have hopens := ((Call.hasBatch_next hn batchId).1 h').resolve_left h
    rw [show contents (some next) = next from rfl, launchesOf_next hs hc hn, if_pos hopens,
      launchesOf_unused hs h, List.nil_append]

/-- The launches of a batch on file are those with which the run created it. -/
theorem launchesOf_run {env : Store.Env} {calls : List (Call × WriteOutcome)} {disk : Disk}
    (hcalls : ∀ i ∈ calls, Coherent env i.1) {batchId : String}
    (h : ¬ hasBatch (contents disk) batchId)
    (hrun : hasBatch (contents (Runs.run (Store.step env) disk calls)) batchId) :
    launchesOf (contents (Runs.run (Store.step env) disk calls)) batchId =
      createdWith env batchId disk calls := by
  have hkept : ∀ (calls : List (Call × WriteOutcome)) (disk : Disk),
      (∀ i ∈ calls, Coherent env i.1) → hasBatch (contents disk) batchId →
      launchesOf (contents (Runs.run (Store.step env) disk calls)) batchId =
        launchesOf (contents disk) batchId := by
    intro calls
    induction calls with
    | nil => exact fun _ _ _ => rfl
    | cons i calls ih =>
      intro disk hcalls hd
      rw [Runs.run_cons, ih _ (fun j hj => hcalls j (List.mem_cons_of_mem i hj)) (hasBatch_step hd i),
        launchesOf_step (hcalls i List.mem_cons_self) hd]
  induction calls generalizing disk with
  | nil => exact absurd hrun h
  | cons i calls ih =>
    have htail : ∀ j ∈ calls, Coherent env j.1 := fun j hj => hcalls j (List.mem_cons_of_mem i hj)
    rw [Runs.run_cons] at hrun ⊢
    unfold createdWith
    split_ifs with hopened
    · rw [hkept calls _ htail hopened, launchesOf_opened (hcalls i List.mem_cons_self) h hopened]
    · exact ih htail hopened hrun

/-! ## Keys of assignments -/

/-- No two assignments on file have the same key. -/
def UniqueKeys (disk : Disk) : Prop :=
  ((contents disk).assignments.map (·.idempotencyKey)).Nodup

theorem uniqueKeys_step {env : Store.Env} {disk : Disk} {i : Call × WriteOutcome}
    (h : UniqueKeys disk) (hc : Coherent env i.1) : UniqueKeys (Store.step env disk i) := by
  rcases step_cases env disk i.1 i.2 with e | ⟨next, hs, hn, -, e⟩
  · rw [show Store.step env disk i = disk from e]
    exact h
  · rw [show Store.step env disk i = some next from e]
    obtain ⟨f, hnext, hsame⟩ := next_assignments hs hn
    have hkeys : ((contents disk).assignments.map f).map (·.idempotencyKey) =
        (contents disk).assignments.map (·.idempotencyKey) := by
      rw [List.map_map]
      exact List.map_congr_left fun a ha => congrArg Prod.fst (hsame a ha).identity
    have hoffered : ((i.1.offered env).map (·.1)).map (·.idempotencyKey) =
        (i.1.offered env).map (·.1.idempotencyKey) := by
      rw [List.map_map]
      rfl
    unfold UniqueKeys
    rw [show contents (some next) = next from rfl, hnext, List.map_append, hkeys, hoffered,
      List.nodup_append]
    refine ⟨h, hc.keys, ?_⟩
    intro k hk k' hk'
    obtain ⟨a, ha, rfl⟩ := List.mem_map.1 hk
    obtain ⟨o, ho, rfl⟩ := List.mem_map.1 hk'
    exact Call.next_fresh hn o ho a ha

theorem uniqueKeys_run {env : Store.Env} {calls : List (Call × WriteOutcome)}
    (hcalls : ∀ i ∈ calls, Coherent env i.1) : UniqueKeys (Runs.run (Store.step env) none calls) :=
  Runs.run_invariant_of (Store.step env) (fun _ _ h hi => uniqueKeys_step h hi)
    (show UniqueKeys none from List.nodup_nil) (Runs.admissible_of_forall (Store.step env) hcalls none)

/-- With unique keys, a launch belongs to a batch when the assignment with its key does and has its
fingerprint. -/
theorem mem_launchesOf_iff {s : DurableState} (h : (s.assignments.map (·.idempotencyKey)).Nodup)
    {a : Assignment} {batchId : String} :
    launchIdentity a ∈ launchesOf s batchId ↔
      ∃ b, assignmentByKey s a.idempotencyKey = some b ∧
        b.requestFingerprint = a.requestFingerprint ∧ b.batchId = batchId := by
  unfold launchesOf
  constructor
  · intro hmem
    obtain ⟨b, hb, hidentity⟩ := List.mem_map.1 hmem
    obtain ⟨hb, hbatch⟩ := List.mem_filter.1 hb
    obtain ⟨hkey, hprint⟩ := Prod.mk.inj hidentity
    refine ⟨b, ?_, hprint, of_decide_eq_true hbatch⟩
    rw [← hkey]
    exact Keyed.lookup_of_mem h hb
  · rintro ⟨b, hb, hprint, hbatch⟩
    refine List.mem_map.2 ⟨b, List.mem_filter.2 ⟨Keyed.mem_of_lookup hb, decide_eq_true hbatch⟩, ?_⟩
    have hfound : Keyed.lookup (·.idempotencyKey) a.idempotencyKey s.assignments = some b := hb
    have hkey : b.idempotencyKey = a.idempotencyKey := Keyed.key_of_lookup hfound
    exact Prod.ext hkey hprint

/-! ## The decision of the store -/

/-- The records of a batch launch pass the checks that precede the decision. -/
structure WellFormed (env : Store.Env) (inputs : List LaunchInput) (batch : Batch) : Prop where
  assignments : ∀ i ∈ inputs, AssignmentSchema env i.assignment
  sessions : ∀ i ∈ inputs, SessionSchema env i.session
  workers : ∀ i ∈ inputs, WorkerSchema env i.worker
  batch : BatchSchema env batch
  events : ∀ i ∈ inputs, AuditEventSchema env i.event
  records : ∀ i ∈ inputs, i.Matches
  filled : inputs ≠ []

/-- A batch launch whose batch is on file is taken for a replay when every launch of it belongs to
the batch, and is rejected otherwise. -/
theorem acceptLaunchBatch_used {env : Store.Env} {inputs : List LaunchInput} {batch : Batch}
    {uuids : List String} {s : DurableState} (hwf : WellFormed env inputs batch)
    (hkeys : (s.assignments.map (·.idempotencyKey)).Nodup) (hused : hasBatch s batch.id) :
    ((∀ i ∈ inputs, launchIdentity i.assignment ∈ launchesOf s batch.id) ∧
        ∃ value, acceptLaunchBatch env inputs batch uuids s = .reply value s ∧
          value.created = false) ∨
      ((∃ i ∈ inputs, launchIdentity i.assignment ∉ launchesOf s batch.id) ∧
        ∃ error, acceptLaunchBatch env inputs batch uuids s = .reject error s) := by
  have hschemas : (∀ i ∈ inputs, AssignmentSchema env i.assignment) ∧
      (∀ i ∈ inputs, SessionSchema env i.session) ∧ (∀ i ∈ inputs, WorkerSchema env i.worker) ∧
      BatchSchema env batch ∧ ∀ i ∈ inputs, AuditEventSchema env i.event :=
    ⟨hwf.assignments, hwf.sessions, hwf.workers, hwf.batch, hwf.events⟩
  unfold acceptLaunchBatch
  rw [if_neg (not_not.2 hschemas), if_neg (not_not.2 hwf.records)]
  dsimp only
  simp only [List.any_map, mem_launchesOf_iff hkeys]
  by_cases hsome : inputs.any ((fun e => e.2.isSome) ∘ fun i =>
      (i, assignmentByKey s i.assignment.idempotencyKey)) = true
  swap
  · obtain ⟨first, hfirst⟩ := List.exists_mem_of_ne_nil inputs hwf.filled
    rw [if_neg hsome, if_pos hused]
    refine Or.inr ⟨⟨first, hfirst, ?_⟩, _, rfl⟩
    rintro ⟨b, hb, -⟩
    refine hsome (List.any_eq_true.2 ⟨first, hfirst, ?_⟩)
    rw [Function.comp_apply, hb]
    rfl
  rw [if_pos hsome]
  by_cases hpart : inputs.any ((fun e => e.2.isNone) ∘ fun i =>
      (i, assignmentByKey s i.assignment.idempotencyKey)) = true
  · rw [if_pos hpart]
    obtain ⟨i, hi, hnone⟩ := List.any_eq_true.1 hpart
    refine Or.inr ⟨⟨i, hi, ?_⟩, _, rfl⟩
    rintro ⟨b, hb, -⟩
    rw [Function.comp_apply, hb] at hnone
    cases hnone
  rw [if_neg hpart]
  split_ifs with hdiff
  · obtain ⟨i, hi, hmismatch⟩ := List.any_eq_true.1 hdiff
    refine Or.inr ⟨⟨i, hi, ?_⟩, _, rfl⟩
    rintro ⟨b, hb, hprint, hbatch⟩
    rw [Function.comp_apply, hb] at hmismatch
    simp [hprint, hbatch] at hmismatch
  · refine Or.inl ⟨fun i hi => ?_, _, rfl, rfl⟩
    cases hb : assignmentByKey s i.assignment.idempotencyKey with
    | none =>
      refine absurd (List.any_eq_true.2 ⟨i, hi, ?_⟩) hpart
      rw [Function.comp_apply, hb]
      rfl
    | some b =>
      refine ⟨b, rfl, ?_⟩
      by_contra hne
      refine hdiff (List.any_eq_true.2 ⟨i, hi, ?_⟩)
      rw [Function.comp_apply, hb]
      simpa [imp_iff_not_or, not_and_or] using hne

/-! ## Built batches pass the checks -/

theorem stableId_ne_empty (kind key : String) : stableId env kind key ≠ "" := by
  unfold stableId
  intro h
  have hlength := congrArg String.length h
  simp only [String.length_append] at hlength
  have hunderscore : ("_" : String).length = 1 := rfl
  have hempty : ("" : String).length = 0 := rfl
  omega

theorem event_id_ne_empty (assignmentId : String) (type : LaunchAuditType) (occurredAt : Timestamp) :
    (event assignmentId type occurredAt none none none).id ≠ "" := by
  intro h
  have hlength := congrArg String.length h
  simp only [event, String.length_append] at hlength
  have hcolon : (":" : String).length = 1 := rfl
  have hempty : ("" : String).length = 0 := rfl
  omega

section Checks

variable {canaries : List String} (hredact : env.redactText = Security.redactText canaries)
  (hdigest : ∀ value, Hex64 (env.digest value)) {acceptedAt : Timestamp}
  (hiso : env.isoDatetime acceptedAt = true)

include hredact

theorem redacted_ne_empty {text : String} (h : text ≠ "") : env.redactText text ≠ "" := by
  rw [hredact]
  exact Security.redactText_ne_empty canaries h

theorem Sanitized.attributionSchema {request : AsynchronousLaunchRequest} {r : SanitizedRequest}
    (h : Sanitized env request r) : AttributionSchema r.attribution := by
  obtain ⟨a, hagent, htask, hr⟩ := h.attribution
  rw [hr]
  exact ⟨redacted_ne_empty hredact hagent, redacted_ne_empty hredact htask⟩

include hiso

theorem workerSchema_launchInput {request : AsynchronousLaunchRequest}
    {launch : SanitizedRequest × Grant} (h : Sanitized env request launch.1)
    {requester clientId batchId : String} (hb : batchId ≠ "") (position : ℕ) :
    WorkerSchema env.toEnv
      (launchInput env requester clientId batchId acceptedAt position launch).worker :=
  { id := stableId_ne_empty _ _
    batchId := hb
    sessionId := stableId_ne_empty _ _
    pid := (nomatch ·)
    processStartedAt := (nomatch ·)
    attribution := h.attributionSchema hredact
    startedAt := hiso
    completedAt := fun _ => (nomatch ·)
    runId := (nomatch ·)
    stopReason := (nomatch ·)
    stopDetail := (nomatch ·)
    cancelRequestedAt := fun _ => (nomatch ·)
    deadlineAt := fun _ => (nomatch ·)
    lateObservations := fun _ => (nomatch ·)
    running := (nomatch ·)
    stopReasonAllowed := fun _ => (nomatch ·) }

include hdigest

theorem assignmentSchema_launchInput {request : AsynchronousLaunchRequest}
    {launch : SanitizedRequest × Grant} (h : Sanitized env request launch.1)
    (hpath : launch.2.canonicalPath ≠ "") {requester clientId batchId : String} (hb : batchId ≠ "")
    (position : ℕ) : AssignmentSchema env.toEnv
      (launchInput env requester clientId batchId acceptedAt position launch).assignment := by
  obtain ⟨text, htext, hprompt⟩ := h.prompt
  exact
    { id := stableId_ne_empty _ _
      idempotencyKey := by
        intro he
        have hlength := congrArg String.length he
        simp only [launchInput, scopedKey, String.length_append] at hlength
        have hzero : ("\x00" : String).length = 1 := rfl
        have hempty : ("" : String).length = 0 := rfl
        omega
      requestFingerprint := hdigest _
      batchId := hb
      sessionId := stableId_ne_empty _ _
      attribution := h.attributionSchema hredact
      prompt := by
        show launch.1.prompt ≠ ""
        rw [hprompt]
        exact redacted_ne_empty hredact htext
      workspaceId := fun he => h.workspaceId (Option.some.inj he)
      workspacePath := hpath
      attemptId := fun he => stableId_ne_empty _ _ (Option.some.inj he)
      attempt := fun he => absurd (Option.some.inj he) (by decide)
      acceptedAt := hiso
      updatedAt := hiso
      runId := (nomatch ·)
      error := (nomatch ·)
      errorCode := (nomatch ·) }

/-- What `acceptBatch` hands to the store passes the checks of the store. -/
theorem BatchBuilt.wellFormed {request : AsynchronousBatchLaunchRequest}
    {launches : List (SanitizedRequest × Grant)} {inputs : List LaunchInput} {batch : Batch}
    (h : BatchBuilt env request acceptedAt launches inputs batch) :
    WellFormed env.toEnv inputs batch := by
  have hbatchId : batch.id ≠ "" := by
    rw [h.batch_eq]
    exact stableId_ne_empty _ _
  have hclient : env.redactText request.clientId ≠ "" := redacted_ne_empty hredact h.checked.client
  have hinput : ∀ i ∈ inputs, ∃ launch ∈ launches, ∃ item position,
      Sanitized env (request.full item) launch.1 ∧
      i = launchInput env launch.1.clientId (env.redactText request.clientId) batch.id acceptedAt
        position launch := by
    intro i hi
    rw [h.inputs_eq] at hi
    obtain ⟨⟨launch, position⟩, hmem, rfl⟩ := List.mem_map.1 hi
    have hlaunch : launch ∈ launches := by
      have := List.mem_map_of_mem (f := Prod.fst) hmem
      rwa [List.zipIdx_map_fst] at this
    obtain ⟨item, hitem⟩ := h.sanitized_of_mem hlaunch
    exact ⟨launch, hlaunch, item, position, hitem, rfl⟩
  refine ⟨?_, ?_, ?_, ?_, ?_, ?_, ?_⟩
  · intro i hi
    obtain ⟨launch, hlaunch, item, position, hs, rfl⟩ := hinput i hi
    exact assignmentSchema_launchInput hredact hdigest hiso hs (h.paths launch hlaunch) hbatchId _
  · intro i hi
    obtain ⟨launch, hlaunch, item, position, hs, rfl⟩ := hinput i hi
    exact ⟨stableId_ne_empty _ _, hclient, hiso, hiso⟩
  · intro i hi
    obtain ⟨launch, hlaunch, item, position, hs, rfl⟩ := hinput i hi
    exact workerSchema_launchInput hredact hiso hs hbatchId _
  · rw [h.batch_eq] at hbatchId ⊢
    have hname := redacted_ne_empty hredact h.checked.batchName
    refine ⟨hbatchId, hname, ?_, hiso, hiso, (nomatch ·), (nomatch ·), fun _ => (nomatch ·)⟩
    show (launches.map _).headD "" ≠ ""
    cases hl : launches with
    | nil => exact absurd hl h.launches_ne_nil
    | cons launch rest => exact stableId_ne_empty _ _
  · intro i hi
    obtain ⟨launch, hlaunch, item, position, hs, rfl⟩ := hinput i hi
    exact ⟨event_id_ne_empty _ _ _, stableId_ne_empty _ _, hiso, (nomatch ·), (nomatch ·),
      (nomatch ·)⟩
  · intro i hi
    obtain ⟨launch, hlaunch, item, position, hs, rfl⟩ := hinput i hi
    exact ⟨rfl, rfl, rfl, rfl, rfl⟩
  · rw [h.inputs_eq]
    intro hnil
    have hlength := congrArg List.length hnil
    rw [List.length_map, List.length_zipIdx] at hlength
    exact h.launches_ne_nil (List.length_eq_zero_iff.1 hlength)

end Checks

/-! ## Exact replay -/

/-- The launches of a batch launch, in order. -/
def launchesIn (inputs : List LaunchInput) : List (String × String) :=
  inputs.map fun i => launchIdentity i.assignment

/-- What an exact replay asks: the call reports that it created nothing exactly when its list is the
original one, and is rejected without a write otherwise. -/
structure ReplaysExactly (original : List (String × String)) (inputs : List LaunchInput)
    (disk : Disk) (outcome : Disk × Except StoreError (Acceptance (List Assignment))) : Prop where
  replayed : (∃ value, outcome.2 = .ok value ∧ value.created = false) ↔ launchesIn inputs = original
  rejected : launchesIn inputs ≠ original → ∃ error, outcome = (disk, .error error)

/-- **Replays of a batch launch.** After every run in which launches are accepted as the launch
service builds them, a built batch launch whose batch is on file is replayed exactly if and only if
its list is the one the batch was created with or has a launch that this one lacks. -/
theorem acceptLaunchBatch_exact_iff {canaries : List String}
    (hredact : env.redactText = Security.redactText canaries)
    (hdigest : ∀ value, Hex64 (env.digest value)) {calls : List (Call × WriteOutcome)}
    (hcalls : ∀ i ∈ calls, Accepts env i.1) {request : AsynchronousBatchLaunchRequest}
    {answers : ℕ → Authorization} {acceptedAt : Timestamp}
    (hiso : env.isoDatetime acceptedAt = true) {inputs : List LaunchInput} {batch : Batch}
    (hbuilt : acceptBatch env request answers acceptedAt = .ok (inputs, batch))
    (hused : hasBatch (contents (Runs.run (Store.step env.toEnv) none calls)) batch.id)
    (uuids : List String) (io : WriteOutcome) :
    ReplaysExactly (createdWith env.toEnv batch.id none calls) inputs
        (Runs.run (Store.step env.toEnv) none calls)
        (perform env.toEnv (acceptLaunchBatch env.toEnv inputs batch uuids) io
          (Runs.run (Store.step env.toEnv) none calls)) ↔
      launchesIn inputs = createdWith env.toEnv batch.id none calls ∨
        ∃ launch ∈ launchesIn inputs, launch ∉ createdWith env.toEnv batch.id none calls := by
  have hcoherent : ∀ i ∈ calls, Coherent env.toEnv i.1 := fun i hi => (hcalls i hi).coherent
  have hunused : ¬ hasBatch (contents none) batch.id := by
    rintro ⟨b, hb, -⟩
    cases hb
  have hloads : Loads env.toEnv (Runs.run (Store.step env.toEnv) none calls) :=
    @loads_run env.toEnv none rfl calls
  have hkeys := uniqueKeys_run hcoherent
  have horiginal := launchesOf_run hcoherent hunused hused
  obtain ⟨launches, hbatch⟩ := acceptBatch_ok hbuilt
  have hwf := hbatch.wellFormed hredact hdigest hiso
  rw [← horiginal]
  generalize Runs.run (Store.step env.toEnv) none calls = disk at *
  have hmember : (∀ launch ∈ launchesIn inputs, launch ∈ launchesOf (contents disk) batch.id) ↔
      ∀ i ∈ inputs, launchIdentity i.assignment ∈ launchesOf (contents disk) batch.id :=
    List.forall_mem_map
  rcases @acceptLaunchBatch_used env.toEnv inputs batch uuids _ hwf hkeys hused with
    ⟨hall, value, hreply, hcreated⟩ | ⟨⟨i, hi, hlacks⟩, error, hreject⟩
  · -- Every launch belongs to the batch, so the call is taken for a replay.
    rw [perform_of_reply hloads hreply io]
    constructor
    · intro h
      exact Or.inl (h.replayed.1 ⟨value, rfl, hcreated⟩)
    · rintro (hsame | ⟨launch, hlaunch, hlacks⟩)
      · exact ⟨⟨fun _ => hsame, fun _ => ⟨value, rfl, hcreated⟩⟩, fun hne => absurd hsame hne⟩
      · exact absurd (hmember.2 hall launch hlaunch) hlacks
  · -- One launch does not, so the list is not the original one and the call is rejected.
    have hne : launchesIn inputs ≠ launchesOf (contents disk) batch.id := by
      intro hsame
      refine hlacks ?_
      rw [← hsame]
      exact List.mem_map_of_mem hi
    rw [perform_of_reject hloads hreject io]
    refine iff_of_true ⟨⟨?_, fun hsame => absurd hsame hne⟩, fun _ => ⟨error, rfl⟩⟩
      (Or.inr ⟨_, List.mem_map_of_mem hi, hlacks⟩)
    rintro ⟨value, hok, -⟩
    cases hok

/-! ## A replay of a part -/

/-- The SHA-256 digests of the texts of the sample. -/
def sampleSha256 : String → String
  | "batch\x00client\x00batch-1" =>
    "c63f6cc9e8b5474aebdd846fc2967e698a3ba0aa247390dbee929e3279db55f5"
  | "assignment\x00client\x00k1" =>
    "c3391bd11ba93fde610698447debd4eaca7ee3034f3da8bc8133a75644d41781"
  | "session\x00client\x00k1" => "655a089c734093dfa6a79ad62c6fde3a4feb60f3e5f1039a588eeb66a1300528"
  | "attempt\x00client\x00k1" => "de612d0f691899707f2108a5726740734fde6c6d4a526b8a7e9a44de4b48313f"
  | "assignment\x00client\x00k2" =>
    "20e3d4c04a4d9c06ca3847af4391859cc3f34932a307fec86ea962932aa95d6f"
  | "session\x00client\x00k2" => "724c83fb1536a7fef7416cb3657842caf006a639424891875312849542988598"
  | "attempt\x00client\x00k2" => "e2f9e86aaa9a118b51bd887e9ff9bb1b91e042950e5d9b9a558854769166eb34"
  | "batch\x00client\x00k1" => "57353cfa0c47a1bf1935f1d9cf86e0f262f98e616ac521cfdb9c963650caf02c"
  | "assignment\x00another-client\x00k1" =>
    "8e1527a0c93b24251157e77e3e882b4fa54f280f529ed56dfda9e6fbc7ec5a48"
  | "session\x00another-client\x00k1" =>
    "265103f0b96d78914318153a0257fc269270b3fbac0eb3b69982ba79676989e3"
  | "attempt\x00another-client\x00k1" =>
    "30a1947c2864bd6d8091a30519f4eac5b38f73091ff647fcb35cef89d570a966"
  | "batch\x00another-client\x00k1" =>
    "6b3eb612e4afb0b4d327ec6d37064d7ff8ad6b25eb53890ee8b49875c72955b2"
  | "assignment\x00token=[REDACTED:secret]\x00k1" =>
    "8baf3275e0096641a5fa00f20a77c386ae7f00c6dbf123b4ea6c430c39037278"
  | "session\x00token=[REDACTED:secret]\x00k1" =>
    "8853082c35c67e6dc45e9955978842296717336965ff9ae9662f0761dfdccf89"
  | "attempt\x00token=[REDACTED:secret]\x00k1" =>
    "1fa43db6197fccf1bbc37c97979804b4034458bc679854678a4bd606232077f2"
  | "batch\x00token=[REDACTED:secret]\x00k1" =>
    "ff9d8413c5ed3a2e524f32581e731f3d462c9499ff3ec08e21a63d62d2ca48f9"
  | _ => genesisAuditHash

/-- The SHA-256 digests of the printed values of the sample: its requests and its audit events. -/
def sampleDigest : Json → String
  | .obj (("idempotencyKey", .str "k1") :: _) =>
    "66bae6f4322d5747eaa3ba93254b48b17e04788c7b9080975b95bb652f0e5f99"
  | .obj (("idempotencyKey", .str "k2") :: _) =>
    "b79823632257952182be01f9feac654ada089da08309d0cf27c1e2a5e58d49c5"
  | .arr (.str "u1" :: _) => "f8f66d234bb0e2dfe52bea4d6640e73ea5440d1fa677328c0a8884a0599c9bd5"
  | .arr (.str "u2" :: _) => "792c1e53ff55d0a89c98eb087fbd949c8021466c1bfce5b09f14794cbd4a08e4"
  | _ => genesisAuditHash

theorem hex64_sampleDigest (value : Json) : Hex64 (sampleDigest value) := by
  unfold sampleDigest
  split <;> decide

def sampleEnv : AcceptEnv :=
  { plainEnv with
    redactText := Security.redactText []
    digest := sampleDigest
    sha256 := sampleSha256 }

/-- A batch of launches that differ in their keys only. -/
def sampleRequest (keys : List String) : AsynchronousBatchLaunchRequest :=
  { idempotencyKey := "batch-1", clientId := "client", batchName := "nightly"
    assignments := keys.map fun key =>
      { idempotencyKey := key, attribution := some sampleAttribution, prompt := "Fix the build",
        workspaceId := "ws-1" } }

/-- What the launch service builds for the sample. -/
def sampleBuilt (keys : List String) : Except Denial (List LaunchInput × Batch) :=
  acceptBatch sampleEnv (sampleRequest keys)
    (fun _ => .ok { canonicalPath := "/work", workspaceId := "ws-1", projectId := some "p1" })
    "2026-01-01T00:00:00.000Z"

/-- The run that accepts a built batch. -/
def acceptedRun (built : List LaunchInput × Batch) : List (Call × WriteOutcome) :=
  [written (.acceptLaunchBatch built.1 built.2 ["u1", "u2"])]

/-- The outcome of a second batch launch after the first was accepted. -/
def replayOutcome (first second : List LaunchInput × Batch) :
    Disk × Except StoreError (Acceptance (List Assignment)) :=
  perform sampleEnv.toEnv (acceptLaunchBatch sampleEnv.toEnv second.1 second.2 ["u3", "u4"]) .written
    (Runs.run (Store.step sampleEnv.toEnv) none (acceptedRun first))

/-- A check of a built value that passed. -/
theorem exists_of_any {ε α : Type} {x : Except ε α} {p : α → Bool}
    (h : x.toOption.any p = true) : ∃ a, x = .ok a ∧ p a = true := by
  cases x with
  | error e => cases h
  | ok a => exact ⟨a, rfl, h⟩

/-- The same list a second time is a replay. -/
theorem acceptLaunchBatch_exact_iff_sample : ∃ built,
    sampleBuilt ["k1", "k2"] = .ok built ∧
      ReplaysExactly (createdWith sampleEnv.toEnv built.2.id none (acceptedRun built)) built.1
        (Runs.run (Store.step sampleEnv.toEnv) none (acceptedRun built))
        (replayOutcome built built) := by
  have hcheck : (sampleBuilt ["k1", "k2"]).toOption.any (fun built =>
      decide (hasBatch (contents (Runs.run (Store.step sampleEnv.toEnv) none (acceptedRun built)))
        built.2.id) &&
      decide (launchesIn built.1 =
        createdWith sampleEnv.toEnv built.2.id none (acceptedRun built))) = true := by
    decide +kernel
  obtain ⟨⟨inputs, batch⟩, hbuilt, hchecks⟩ := exists_of_any hcheck
  rw [Bool.and_eq_true, decide_eq_true_iff, decide_eq_true_iff] at hchecks
  refine ⟨(inputs, batch), hbuilt, ?_⟩
  have haccepts : ∀ i ∈ acceptedRun (inputs, batch), Accepts sampleEnv i.1 := by
    intro i hi
    obtain rfl := List.mem_singleton.1 hi
    exact ⟨_, _, _, hbuilt⟩
  exact (acceptLaunchBatch_exact_iff rfl hex64_sampleDigest haccepts rfl hbuilt hchecks.1 ["u3", "u4"]
    .written).2 (Or.inl hchecks.2)

/-- A part of the original batch is taken for a replay of it. -/
theorem partial_batch_replayed : ∃ built part,
    sampleBuilt ["k1", "k2"] = .ok built ∧ sampleBuilt ["k1"] = .ok part ∧
      hasBatch (contents (Runs.run (Store.step sampleEnv.toEnv) none (acceptedRun built)))
        part.2.id ∧
      ¬ ReplaysExactly (createdWith sampleEnv.toEnv part.2.id none (acceptedRun built)) part.1
        (Runs.run (Store.step sampleEnv.toEnv) none (acceptedRun built))
        (replayOutcome built part) := by
  have hcheck : (sampleBuilt ["k1", "k2"]).toOption.any (fun built =>
      (sampleBuilt ["k1"]).toOption.any fun part =>
        decide (hasBatch (contents (Runs.run (Store.step sampleEnv.toEnv) none (acceptedRun built)))
          part.2.id) &&
        decide (launchesIn part.1 ≠
          createdWith sampleEnv.toEnv part.2.id none (acceptedRun built)) &&
        (replayOutcome built part).2.toOption.any (fun value => !value.created)) = true := by
    decide +kernel
  obtain ⟨built, hbuilt, hrest⟩ := exists_of_any hcheck
  obtain ⟨part, hpart, hchecks⟩ := exists_of_any hrest
  rw [Bool.and_eq_true, Bool.and_eq_true, decide_eq_true_iff, decide_eq_true_iff] at hchecks
  obtain ⟨⟨hused, hne⟩, hcreated⟩ := hchecks
  obtain ⟨value, hvalue, hfalse⟩ := exists_of_any hcreated
  refine ⟨built, part, hbuilt, hpart, hused, fun hexact => hne ?_⟩
  exact hexact.replayed.1 ⟨value, hvalue, by simpa using hfalse⟩

end AgentOrchestrator.Launch
