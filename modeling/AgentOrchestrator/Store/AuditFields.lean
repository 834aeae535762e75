import AgentOrchestrator.Security.Canaries
import AgentOrchestrator.Store.Chain

/-!
# The untrusted fields of security audit events

Whatever the calls, every event of the audit chain holds audit fields of texts that one of them
supplied.  So a chain whose texts the redaction can handle holds no canary.
-/

namespace AgentOrchestrator.Store

open Utf16
open Security

variable {env : Env}

/-- The texts that a caller supplies. -/
def SecurityAuditInput.untrusted (input : SecurityAuditInput) : List String :=
  [input.requesterId, input.operation, input.reasonCode, input.correlationId] ++
    input.workspaceId.toList ++ input.projectId.toList ++ input.assignmentId.toList

/-- What a call appends to the chain is built from these. -/
def Call.audits : Call → List SecurityAuditInput
  | .updateLaunch _ _ _ _ audit _ _ => audit.toList
  | .acceptLaunch input _ _ => [input.securityAudit]
  | .acceptLaunchBatch inputs _ _ => inputs.map (·.securityAudit)
  | .appendSecurityAudit input _ _ => [input]
  | .recordLaunchEvent _ _ _ audit _ => audit.toList
  | _ => []

/-- Every new event holds the audit fields of one of the inputs. -/
def AuditsFrom (env : Env) (inputs : List SecurityAuditInput) (s t : DurableState) : Prop :=
  ∀ e ∈ t.securityAuditEvents, e ∈ s.securityAuditEvents ∨
    ∃ input ∈ inputs, e.untrusted = input.untrusted.map env.auditField

theorem auditsFrom_of_eq {inputs : List SecurityAuditInput} {s t : DurableState}
    (h : t.securityAuditEvents = s.securityAuditEvents) : AuditsFrom env inputs s t :=
  fun _ he => .inl (h ▸ he)

theorem AuditsFrom.congr {inputs : List SecurityAuditInput} {s s' t : DurableState}
    (h : AuditsFrom env inputs s t) (hs : s.securityAuditEvents = s'.securityAuditEvents) :
    AuditsFrom env inputs s' t :=
  fun e he => hs ▸ h e he

theorem AuditsFrom.trans {inputs inputs' : List SecurityAuditInput} {s t u : DurableState}
    (h : AuditsFrom env inputs s t) (h' : AuditsFrom env inputs' t u) :
    AuditsFrom env (inputs ++ inputs') s u := by
  intro e he
  rcases h' e he with he | ⟨input, hinput, heq⟩
  · refine (h e he).imp_right fun ⟨input, hinput, heq⟩ => ?_
    exact ⟨input, List.mem_append_left _ hinput, heq⟩
  · exact .inr ⟨input, List.mem_append_right _ hinput, heq⟩

theorem untrusted_nextSecurityAuditEvent (input : SecurityAuditInput) (uuid : String)
    (now : Timestamp) (s : DurableState) :
    (nextSecurityAuditEvent env input uuid now s).untrusted =
      input.untrusted.map env.auditField := by
  simp [SecurityAuditInput.untrusted, nextSecurityAuditEvent, Option.toList_map]

theorem auditsFrom_appendSecurityAuditToState {input : SecurityAuditInput} {uuid : String}
    {now : Timestamp} {s t : DurableState}
    (h : appendSecurityAuditToState env input uuid now s = .ok t) : AuditsFrom env [input] s t := by
  obtain ⟨-, -, rfl⟩ := (appendSecurityAuditToState_ok env).1 h
  intro e he
  rcases List.mem_append.1 he with he | he
  · exact .inl he
  · rw [List.mem_singleton.1 he]
    exact .inr ⟨input, List.mem_singleton_self input, untrusted_nextSecurityAuditEvent ..⟩

theorem auditsFrom_appendOptionalAudit {audit : Option SecurityAuditInput} {uuid : String}
    {now : Timestamp} {s t : DurableState} (h : appendOptionalAudit env audit uuid now s = .ok t) :
    AuditsFrom env audit.toList s t := by
  cases audit with
  | none =>
    obtain rfl := Except.ok.inj h
    exact auditsFrom_of_eq rfl
  | some input => exact auditsFrom_appendSecurityAuditToState h

theorem auditsFrom_appendAudits {inputs : List LaunchInput} {uuids : List String}
    {s t : DurableState} (h : appendAudits env inputs uuids s = .ok t) :
    AuditsFrom env (inputs.map (·.securityAudit)) s t := by
  induction inputs generalizing uuids s with
  | nil =>
    obtain rfl := Except.ok.inj h
    exact auditsFrom_of_eq rfl
  | cons input inputs ih =>
    unfold appendAudits at h
    split at h
    · cases h
    · rename_i u hu
      exact (auditsFrom_appendSecurityAuditToState hu).trans (ih h)

/-! ## Operations -/

theorem auditsFrom_acceptLaunch {input : LaunchInput} {batch : Batch} {uuid : String}
    {s next : DurableState} (h : (acceptLaunch env input batch uuid s).next = some next) :
    AuditsFrom env [input.securityAudit] s next := by
  unfold acceptLaunch at h
  dsimp only at h
  split_ifs at h
  all_goals try cases h
  split at h
  · split_ifs at h <;> cases h
  · split at h
    · cases h
    · rename_i t ht
      obtain rfl := Option.some.inj h
      exact (auditsFrom_appendSecurityAuditToState ht).congr rfl

theorem auditsFrom_acceptLaunchBatch {inputs : List LaunchInput} {batch : Batch}
    {uuids : List String} {s next : DurableState}
    (h : (acceptLaunchBatch env inputs batch uuids s).next = some next) :
    AuditsFrom env (inputs.map (·.securityAudit)) s next := by
  unfold acceptLaunchBatch at h
  dsimp only at h
  split_ifs at h
  all_goals try cases h
  split at h
  · cases h
  · rename_i t ht
    obtain rfl := Option.some.inj h
    exact (auditsFrom_appendAudits ht).congr rfl

theorem auditsFrom_advanceLaunch {a : Assignment} {target : LaunchTarget} {event : LaunchAuditEvent}
    {existing : Option LaunchAuditEvent} {audit : Option SecurityAuditInput} {uuid : String}
    {s next : DurableState} (hunique : (s.workers.map (·.id)).Nodup)
    (h : advanceLaunch env a target event existing audit uuid s = .ok next) :
    AuditsFrom env audit.toList s next := by
  unfold advanceLaunch at h
  dsimp only [bind, Except.bind] at h
  cases hb : bindEventRun a.id a.sessionId event
      (s.putAssignment (advanceAssignment env target event a)) with
  | error e => rw [hb] at h; cases h
  | ok t =>
    rw [hb] at h
    dsimp only at h
    cases hf : failEventWorker env a.id a.sessionId target event t with
    | error e => rw [hf] at h; cases h
    | ok u =>
      rw [hf] at h
      obtain ⟨hnodup, -, ht, -⟩ := bindEventRun_spec
        (show ((s.putAssignment (advanceAssignment env target event a)).workers.map (·.id)).Nodup
          from hunique) hb
      obtain ⟨-, hu, -⟩ := failEventWorker_spec hnodup hf
      refine (auditsFrom_appendOptionalAudit h).congr ?_
      show u.securityAuditEvents = _
      rw [hu, ht]
      rfl

theorem auditsFrom_recordLaunchEvent {id : String} {target : LaunchTarget}
    {event : LaunchAuditEvent} {audit : Option SecurityAuditInput} {uuid : String}
    {s next : DurableState} (hunique : (s.workers.map (·.id)).Nodup)
    (h : (recordLaunchEvent env id target event audit uuid s).next = some next) :
    AuditsFrom env audit.toList s next := by
  obtain ⟨record, h⟩ := Body.exists_commit h
  obtain ⟨-, a, -, ⟨-, -, haudit, -⟩ | ⟨-, -, -, -, -, hadv, -⟩⟩ := recordLaunchEvent_inversion h
  · exact (auditsFrom_appendOptionalAudit haudit).congr rfl
  · exact auditsFrom_advanceLaunch hunique hadv

theorem auditsFrom_updateLaunch {key : String} {status : LaunchStatus}
    {runId diagnostic : Option String} {audit : Option SecurityAuditInput} {uuid : String}
    {now : Timestamp} {s next : DurableState}
    (h : (updateLaunch env key status runId diagnostic audit uuid now s).next = some next) :
    AuditsFrom env audit.toList s next := by
  unfold updateLaunch at h
  cases hi : Keyed.lookup (·.idempotencyKey) key s.launchIntents with
  | none => rw [hi] at h; cases h
  | some intent =>
    rw [hi] at h
    dsimp only at h
    split_ifs at h
    all_goals try cases h
    split at h
    · cases h
    · rename_i t ht
      obtain rfl := Option.some.inj h
      exact (auditsFrom_appendOptionalAudit ht).congr rfl

/-- **Every call appends audit fields of its own inputs.** -/
theorem Call.next_audits {c : Call} {s next : DurableState} (hunique : UniqueIdentities s)
    (h : c.next env s = some next) : AuditsFrom env c.audits s next := by
  cases c with
  | createBatch name clientId assignments key now uuid =>
    unfold Call.next at h
    dsimp only at h
    split_ifs at h
    obtain ⟨session, batch, workers, -, rfl⟩ := createBatch_next h
    exact auditsFrom_of_eq rfl
  | updateWorker workerId u =>
    unfold Call.next at h
    dsimp only at h
    split at h
    · cases h
    · obtain ⟨w, w', claim, hw, ha, rfl⟩ := updateWorker_next h
      exact auditsFrom_of_eq rfl
  | recoverLifecycleDeliveryClaims =>
    obtain rfl := recoverLifecycleDeliveryClaims_next h
    exact auditsFrom_of_eq rfl
  | recordWorkerResult workerId succeeded result completedAt =>
    obtain ⟨w, w', hw, hopen, hid, hrun, -, rfl⟩ := recordWorkerResult_next h
    exact auditsFrom_of_eq rfl
  | reconcile alive now =>
    obtain rfl := Option.some.inj h
    exact auditsFrom_of_eq rfl
  | reserveLaunch intent now =>
    obtain ⟨intents, rfl⟩ := reserveLaunch_next h
    exact auditsFrom_of_eq rfl
  | updateLaunch key status runId diagnostic audit uuid now => exact auditsFrom_updateLaunch h
  | acceptLaunch input batch uuid => exact auditsFrom_acceptLaunch h
  | acceptLaunchBatch inputs batch uuids => exact auditsFrom_acceptLaunchBatch h
  | appendSecurityAudit input uuid now =>
    unfold Call.next Store.appendSecurityAudit at h
    dsimp only at h
    split at h
    · cases h
    · rename_i t ht
      obtain rfl := Option.some.inj h
      exact auditsFrom_appendSecurityAuditToState ht
  | recordLaunchEvent id target event audit uuid =>
    exact auditsFrom_recordLaunchEvent hunique.uniqueWorkers h
  | captureResult r =>
    obtain ⟨a, w, -, -, -, hw, rfl⟩ := captureResult_next h
    exact auditsFrom_of_eq rfl

/-! ## Runs -/

/-- The texts that the calls supply for the chain. -/
def suppliedTexts (calls : List (Call × WriteOutcome)) : List String :=
  calls.flatMap fun i => i.1.audits.flatMap (·.untrusted)

/-- The texts in the events of the chain. -/
def auditTexts (s : DurableState) : List String :=
  s.securityAuditEvents.flatMap (·.untrusted)

theorem auditTexts_step (disk : Disk) (i : Call × WriteOutcome) {text : String}
    (h : text ∈ auditTexts (contents (step env disk i))) : text ∈ auditTexts (contents disk) ∨
      ∃ source ∈ i.1.audits.flatMap (·.untrusted), text = env.auditField source := by
  rcases step_cases env disk i.1 i.2 with heq | ⟨next, hs, hnext, -, heq⟩
  · rw [show step env disk i = disk from heq] at h
    exact .inl h
  · rw [show step env disk i = some next from heq] at h
    obtain ⟨e, he, htext⟩ := List.mem_flatMap.1 h
    rcases Call.next_audits hs.toUniqueIdentities hnext e he with he | ⟨input, hinput, hsame⟩
    · exact .inl (List.mem_flatMap.2 ⟨e, he, htext⟩)
    · rw [hsame] at htext
      obtain ⟨source, hsource, rfl⟩ := List.mem_map.1 htext
      exact .inr ⟨source, List.mem_flatMap.2 ⟨input, hinput, hsource⟩, rfl⟩

/-- Every text in the chain was there before or is the field of a supplied one. -/
theorem auditTexts_run (calls : List (Call × WriteOutcome)) {disk : Disk} {text : String}
    (h : text ∈ auditTexts (contents (Runs.run (step env) disk calls))) :
    text ∈ auditTexts (contents disk) ∨
      ∃ source ∈ suppliedTexts calls, text = env.auditField source := by
  induction calls generalizing disk with
  | nil => exact .inl h
  | cons i calls ih =>
    rcases ih h with h | ⟨source, hsource, heq⟩
    · refine (auditTexts_step disk i h).imp_right fun ⟨source, hsource, heq⟩ => ?_
      exact ⟨source, List.mem_append_left _ hsource, heq⟩
    · exact .inr ⟨source, List.mem_append_right _ hsource, heq⟩

/-- The environment whose audit fields are redacted with the canaries. -/
def Env.auditing (env : Env) (canaries : List String) : Env :=
  { env with auditField := auditText canaries }

/-- **Redaction survives normalization of visible texts.**  The field of a text without escapes and
invisible characters has no canary, and on texts without secrets exactly those fields have one of
which the stripping made one, or that stand for a blank text; the audit chain of every run that is
supplied with visible texts has none. -/
theorem redaction_survives {canaries : List String} (h : ∀ canary ∈ canaries, Eligible canary) :
    (∀ value, Visible value → (Blank value → Free canaries emptyMarker) →
      ∃ field, auditField (canaries.map toUnits) value = some field ∧ Free canaries field) ∧
    (∀ value,
      redactUnits (canaries.map toUnits) (wellFormed value) = some (wellFormed value) →
      (strip (wellFormed value)).length ≤ 256 →
      ∃ field, auditField (canaries.map toUnits) value = some field ∧
        (Free canaries field ↔ Free canaries (strip (wellFormed value)) ∧
          (Blank (strip (wellFormed value)) → Free canaries emptyMarker))) ∧
    ∀ (env : Env) calls, (∀ text ∈ suppliedTexts calls, Visible (toUnits text) ∧
        (Blank (toUnits text) → Free canaries emptyMarker)) →
      ∀ text ∈ auditTexts (contents (Runs.run (step (env.auditing canaries)) none calls)),
        Free canaries (toUnits text) := by
  refine ⟨fun value hvisible hblank => auditField_free h hvisible hblank,
    fun value hredacted hshort => auditField_free_iff h hredacted hshort,
    fun env calls hcalls text htext => ?_⟩
  rcases auditTexts_run calls htext with hnone | ⟨source, hsource, rfl⟩
  · exact absurd hnone List.not_mem_nil
  · exact auditText_free h (hcalls source hsource).1 (hcalls source hsource).2

/-- A canary that shares no character with a marker. -/
def sampleCanary : String := "gl0b41"

theorem eligible_sampleCanary : Eligible sampleCanary := by
  have hmarkers : ∀ marker ∈ markers, toUnits marker ≠ [] ∧
      ∀ u ∈ toUnits sampleCanary, u ∉ toUnits marker := by decide +kernel
  refine ⟨by decide, by decide +kernel, fun marker hmem => ?_⟩
  exact Regex.clear_of_disjoint (hmarkers marker hmem).1 (toUnits_ne_nil (by decide))
    (hmarkers marker hmem).2

theorem redaction_survives_sample :
    ∃ field, auditField [toUnits sampleCanary] (toUnits "login gl0b41") = some field ∧
      Free [sampleCanary] field :=
  (@redaction_survives [sampleCanary] (by
    rw [List.forall_mem_singleton]
    exact eligible_sampleCanary)).1 _ (by decide +kernel) fun h => absurd h (by decide +kernel)

/-- An invisible character hides a canary from the redaction, which the stripping then restores. -/
theorem hidden_canary_restored : ¬ ∀ canaries : List String,
    (∀ canary ∈ canaries, Eligible canary) → ∀ value field,
      auditField (canaries.map toUnits) value = some field → Free canaries field := by
  intro h
  have hfield : auditField [toUnits sampleCanary] (toUnits "gl0\u200bb41") =
      some (toUnits sampleCanary) := by decide +kernel
  refine h [sampleCanary] ?_ _ _ hfield sampleCanary List.mem_cons_self (List.infix_refl _)
  rw [List.forall_mem_singleton]
  exact eligible_sampleCanary

end AgentOrchestrator.Store
