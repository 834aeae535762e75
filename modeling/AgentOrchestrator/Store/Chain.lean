import AgentOrchestrator.Store.Changes

/-!
# The audit chain over whole runs

Every call keeps the security audit chain intact: it leaves the events and the head alone, or
appends events that continue the chain.  So every file that the store writes loads again.
-/

namespace AgentOrchestrator.Store

variable {env : Env}

/-- The audit chain of the state verifies. -/
def Chained (env : Env) (s : DurableState) : Prop := assertSecurityAuditChain env s = .ok ()

theorem chained_iff (s : DurableState) : Chained env s ↔ verifySecurityAuditChain env s = none := by
  unfold Chained assertSecurityAuditChain
  cases verifySecurityAuditChain env s with
  | none => exact iff_of_true rfl rfl
  | some sequence => exact iff_of_false (nomatch ·) (nomatch ·)

/-- The chain depends on the events and the head alone. -/
theorem Chained.congr {s t : DurableState} (h : Chained env s)
    (hevents : t.securityAuditEvents = s.securityAuditEvents)
    (hhead : t.securityAuditHead = s.securityAuditHead) : Chained env t := by
  rw [chained_iff] at h ⊢
  unfold verifySecurityAuditChain at h ⊢
  rw [hevents, hhead]
  exact h

theorem chained_empty : Chained env emptyState := rfl

/-! ## Appending one event -/

/-- A verified list ends with the hash it verifies to, and its last event has the last number. -/
theorem verifyEvents_last {index : ℕ} {first last : String} {l : List SecurityAuditEvent}
    (h : verifyEvents env index first l = .ok last) :
    (l.getLast?.map (·.eventHash)).getD first = last ∧
      (l.getLast?.map (·.sequence)).getD index = index + l.length := by
  induction l generalizing index first with
  | nil => exact ⟨Except.ok.inj h, rfl⟩
  | cons e rest ih =>
    unfold verifyEvents at h
    split_ifs at h with hbroken
    obtain ⟨hhash, hsequence⟩ := ih h
    have hnumber : e.sequence = index + 1 := by
      by_contra hne
      exact hbroken (Or.inl hne)
    rw [List.getLast?_cons]
    refine ⟨?_, ?_⟩
    · rw [← hhash]
      cases rest.getLast? <;> rfl
    · have hlength : index + (e :: rest).length = index + 1 + rest.length := by
        rw [List.length_cons]
        omega
      rw [hlength, ← hsequence]
      cases rest.getLast? with
      | none => exact hnumber
      | some last => rfl

theorem verifyEvents_append {index : ℕ} {first last : String} {l : List SecurityAuditEvent}
    {e : SecurityAuditEvent} (h : verifyEvents env index first l = .ok last)
    (hsequence : e.sequence = index + l.length + 1) (hprevious : e.previousEventHash = last)
    (hhash : securityAuditEventHash env e.toSecurityAuditBody = e.eventHash) :
    verifyEvents env index first (l ++ [e]) = .ok e.eventHash := by
  induction l generalizing index first with
  | nil =>
    obtain rfl := Except.ok.inj h
    show verifyEvents env index first [e] = _
    unfold verifyEvents
    rw [if_neg]
    · rfl
    · rintro (hne | hne | hne)
      · exact hne hsequence
      · exact hne hprevious
      · exact hne hhash
  | cons d rest ih =>
    rw [List.cons_append]
    unfold verifyEvents at h ⊢
    split_ifs at h ⊢ with hbroken
    refine ih h ?_
    rw [hsequence, List.length_cons]
    omega

/-- What a chain that verifies looks like. -/
theorem Chained.verified {s : DurableState} (h : Chained env s) :
    ∃ last, verifyEvents env 0 genesisAuditHash s.securityAuditEvents = .ok last := by
  rw [chained_iff] at h
  unfold verifySecurityAuditChain at h
  cases hv : verifyEvents env 0 genesisAuditHash s.securityAuditEvents with
  | error sequence => rw [hv] at h; cases h
  | ok last => exact ⟨last, rfl⟩

/-- **The next event continues the chain.** -/
theorem Chained.extend {s : DurableState} (h : Chained env s) (input : SecurityAuditInput)
    (uuid : String) (now : Timestamp) :
    Chained env (extendChain (nextSecurityAuditEvent env input uuid now s) s) := by
  obtain ⟨last, hlast⟩ := h.verified
  obtain ⟨hhash, hsequence⟩ := verifyEvents_last hlast
  have hnumber : (nextSecurityAuditEvent env input uuid now s).sequence =
      0 + s.securityAuditEvents.length + 1 := by
    rw [← hsequence]
    rfl
  have happend := verifyEvents_append hlast hnumber
    (show (nextSecurityAuditEvent env input uuid now s).previousEventHash = last from hhash) rfl
  rw [chained_iff]
  unfold verifySecurityAuditChain extendChain
  dsimp only
  rw [happend]
  dsimp only
  rw [if_neg]
  rintro (hne | hne)
  · refine hne ?_
    rw [hnumber, List.length_append, List.length_singleton]
    omega
  · exact hne rfl

theorem appendSecurityAuditToState_chained {input : SecurityAuditInput} {uuid : String}
    {now : Timestamp} {s t : DurableState}
    (h : appendSecurityAuditToState env input uuid now s = .ok t) : Chained env t := by
  obtain ⟨hchain, -, rfl⟩ := (appendSecurityAuditToState_ok env).1 h
  exact Chained.extend hchain input uuid now

theorem appendOptionalAudit_chained {audit : Option SecurityAuditInput} {uuid : String}
    {now : Timestamp} {s t : DurableState} (hs : Chained env s)
    (h : appendOptionalAudit env audit uuid now s = .ok t) : Chained env t := by
  cases audit with
  | none =>
    obtain rfl := Except.ok.inj h
    exact hs
  | some input => exact appendSecurityAuditToState_chained h

theorem appendAudits_chained {inputs : List LaunchInput} {uuids : List String} {s t : DurableState}
    (hs : Chained env s) (h : appendAudits env inputs uuids s = .ok t) : Chained env t := by
  induction inputs generalizing uuids s with
  | nil =>
    obtain rfl := Except.ok.inj h
    exact hs
  | cons input inputs ih =>
    unfold appendAudits at h
    split at h
    · cases h
    · rename_i u hu
      exact ih (appendSecurityAuditToState_chained hu) h

/-! ## Operations -/

theorem acceptLaunch_chained {input : LaunchInput} {batch : Batch} {uuid : String}
    {s next : DurableState} (h : (acceptLaunch env input batch uuid s).next = some next) :
    Chained env next := by
  unfold acceptLaunch at h
  dsimp only at h
  split_ifs at h
  all_goals try cases h
  split at h
  · split_ifs at h <;> cases h
  · split at h
    · cases h
    · rename_i t ht
      obtain rfl := Option.some.inj h
      exact appendSecurityAuditToState_chained ht

theorem acceptLaunchBatch_chained {inputs : List LaunchInput} {batch : Batch} {uuids : List String}
    {s next : DurableState} (hs : Chained env s)
    (h : (acceptLaunchBatch env inputs batch uuids s).next = some next) : Chained env next := by
  unfold acceptLaunchBatch at h
  dsimp only at h
  split_ifs at h
  all_goals try cases h
  split at h
  · cases h
  · rename_i t ht
    obtain rfl := Option.some.inj h
    refine appendAudits_chained ?_ ht
    exact hs.congr rfl rfl

theorem advanceLaunch_chained {a : Assignment} {target : LaunchTarget} {event : LaunchAuditEvent}
    {existing : Option LaunchAuditEvent} {audit : Option SecurityAuditInput} {uuid : String}
    {s next : DurableState} (hunique : (s.workers.map (·.id)).Nodup) (hs : Chained env s)
    (h : advanceLaunch env a target event existing audit uuid s = .ok next) : Chained env next := by
  unfold advanceLaunch at h
  dsimp only [bind, Except.bind] at h
  cases hb : bindEventRun a.id a.sessionId event
      (s.putAssignment (advanceAssignment env target event a)) with
  | error e => rw [hb] at h; cases h
  | ok t =>
    rw [hb] at h
    dsimp only at h
    cases hf : failEventWorker env a.id a.sessionId target event t with
    | error e => rw [hf] at h; cases h
    | ok u =>
      rw [hf] at h
      have hs' : ((s.putAssignment (advanceAssignment env target event a)).workers.map
          (·.id)).Nodup := hunique
      obtain ⟨hnodup, -, ht, -⟩ := bindEventRun_spec hs' hb
      obtain ⟨-, hu, -⟩ := failEventWorker_spec hnodup hf
      refine appendOptionalAudit_chained (hs.congr ?_ ?_) h
      · show u.securityAuditEvents = _
        rw [hu, ht]
        rfl
      · show u.securityAuditHead = _
        rw [hu, ht]
        rfl

theorem recordLaunchEvent_chained {id : String} {target : LaunchTarget} {event : LaunchAuditEvent}
    {audit : Option SecurityAuditInput} {uuid : String} {s next : DurableState}
    (hunique : (s.workers.map (·.id)).Nodup) (hs : Chained env s)
    (h : (recordLaunchEvent env id target event audit uuid s).next = some next) :
    Chained env next := by
  obtain ⟨record, h⟩ := Body.exists_commit h
  obtain ⟨-, a, -, ⟨-, -, haudit, -⟩ | ⟨-, -, -, -, -, hadv, -⟩⟩ := recordLaunchEvent_inversion h
  · refine appendOptionalAudit_chained ?_ haudit
    exact hs.congr rfl rfl
  · exact advanceLaunch_chained hunique hs hadv

theorem updateLaunch_chained {key : String} {status : LaunchStatus}
    {runId diagnostic : Option String} {audit : Option SecurityAuditInput} {uuid : String}
    {now : Timestamp} {s next : DurableState} (hs : Chained env s)
    (h : (updateLaunch env key status runId diagnostic audit uuid now s).next = some next) :
    Chained env next := by
  unfold updateLaunch at h
  cases hi : Keyed.lookup (·.idempotencyKey) key s.launchIntents with
  | none => rw [hi] at h; cases h
  | some intent =>
    rw [hi] at h
    dsimp only at h
    split_ifs at h
    all_goals try cases h
    split at h
    · cases h
    · rename_i t ht
      obtain rfl := Option.some.inj h
      refine appendOptionalAudit_chained ?_ ht
      exact hs.congr rfl rfl

/-- **Every call keeps the chain intact.** -/
theorem Call.next_chained {c : Call} {s next : DurableState} (hunique : UniqueIdentities s)
    (hs : Chained env s) (h : c.next env s = some next) : Chained env next := by
  cases c with
  | createBatch name clientId assignments key now uuid =>
    unfold Call.next at h
    dsimp only at h
    split_ifs at h
    obtain ⟨session, batch, workers, -, rfl⟩ := createBatch_next h
    exact hs.congr rfl rfl
  | updateWorker workerId u =>
    unfold Call.next at h
    dsimp only at h
    split at h
    · cases h
    · obtain ⟨w, w', claim, hw, ha, rfl⟩ := updateWorker_next h
      exact hs.congr rfl rfl
  | recoverLifecycleDeliveryClaims =>
    obtain rfl := recoverLifecycleDeliveryClaims_next h
    exact hs.congr rfl rfl
  | recordWorkerResult workerId succeeded result completedAt =>
    obtain ⟨w, w', hw, hopen, hid, hrun, -, rfl⟩ := recordWorkerResult_next h
    exact hs.congr rfl rfl
  | reconcile alive now =>
    obtain rfl := Option.some.inj h
    exact hs.congr rfl rfl
  | reserveLaunch intent now =>
    obtain ⟨intents, rfl⟩ := reserveLaunch_next h
    exact hs.congr rfl rfl
  | updateLaunch key status runId diagnostic audit uuid now => exact updateLaunch_chained hs h
  | acceptLaunch input batch uuid => exact acceptLaunch_chained h
  | acceptLaunchBatch inputs batch uuids => exact acceptLaunchBatch_chained hs h
  | appendSecurityAudit input uuid now =>
    unfold Call.next Store.appendSecurityAudit at h
    dsimp only at h
    split at h
    · cases h
    · rename_i t ht
      obtain rfl := Option.some.inj h
      exact appendSecurityAuditToState_chained ht
  | recordLaunchEvent id target event audit uuid =>
    exact recordLaunchEvent_chained hunique.uniqueWorkers hs h
  | captureResult r =>
    obtain ⟨a, w, -, -, -, hw, rfl⟩ := captureResult_next h
    exact hs.congr rfl rfl

/-! ## Runs -/

/-- The file loads. -/
def Loads (env : Env) (disk : Disk) : Prop := load env disk = .ok (contents disk)

theorem loads_of_chained {disk : Disk} (hv : Valid env disk) (hc : Chained env (contents disk)) :
    Loads env disk := by
  cases disk with
  | none => rfl
  | some s =>
    unfold Loads load
    dsimp only
    rw [if_pos (show StateSchema env s from hv),
      show assertSecurityAuditChain env s = .ok () from hc]
    rfl

theorem Loads.chained {disk : Disk} (h : Loads env disk) : Chained env (contents disk) := by
  cases disk with
  | none => exact chained_empty
  | some s =>
    unfold Loads load at h
    dsimp only at h
    split_ifs at h
    unfold Chained contents
    cases hc : assertSecurityAuditChain env s with
    | error e => rw [hc] at h; cases h
    | ok u => exact hc

theorem loads_step {disk : Disk} (i : Call × WriteOutcome) (h : Loads env disk) :
    Loads env (step env disk i) := by
  have hvalid := (load_eq env h).2
  refine loads_of_chained (valid_step env disk i hvalid) ?_
  rcases step_cases env disk i.1 i.2 with e | ⟨next, hs, hn, -, e⟩
  · rw [show step env disk i = disk from e]
    exact h.chained
  · rw [show step env disk i = some next from e]
    exact Call.next_chained hs.toUniqueIdentities h.chained hn

theorem loads_run {disk : Disk} (h : Loads env disk) (calls : List (Call × WriteOutcome)) :
    Loads env (Runs.run (step env) disk calls) :=
  Runs.run_invariant (step env) (fun _ i hd => loads_step i hd) h calls

/-- **Every reachable file loads.** -/
theorem Reachable.loads {disk : Disk} (h : Reachable env disk) : Loads env disk := by
  obtain ⟨calls, rfl⟩ := h
  exact @loads_run env none rfl calls

end AgentOrchestrator.Store
