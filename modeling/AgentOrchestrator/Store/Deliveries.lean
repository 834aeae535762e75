import AgentOrchestrator.Store.Chain
import AgentOrchestrator.Store.Sessions

/-!
# Deliveries of results

The captured results are an append-only list in which no delivery and no attempt occurs twice, and
a delivery under a known identity is answered with the stored result or refused.  The capture
service fingerprints the identities of a delivery together with its claim, so a delivery with the
fingerprint of a stored result has its identities.
-/

namespace AgentOrchestrator.Store

variable {env : Env}

/-! ## The list only grows -/

/-- Only a capture touches the captured results, and it appends its input. -/
theorem Call.next_capturedResults {c : Call} {s next : DurableState} (hs : UniqueIdentities s)
    (h : c.next env s = some next) : next.capturedResults = s.capturedResults ∨
      ∃ r, c = .captureResult r ∧ next.capturedResults = s.capturedResults ++ [r] := by
  cases c with
  | createBatch name clientId assignments key now uuid =>
    unfold Call.next at h
    dsimp only at h
    split_ifs at h
    obtain ⟨session, batch, workers, -, rfl⟩ := createBatch_next h
    exact Or.inl rfl
  | updateWorker workerId u =>
    unfold Call.next at h
    dsimp only at h
    split at h
    · cases h
    · obtain ⟨w, w', claim, hw, ha, rfl⟩ := updateWorker_next h
      exact Or.inl rfl
  | recoverLifecycleDeliveryClaims =>
    obtain rfl := recoverLifecycleDeliveryClaims_next h
    exact Or.inl rfl
  | recordWorkerResult workerId succeeded result completedAt =>
    obtain ⟨w, w', hw, hopen, hid, hrun, -, rfl⟩ := recordWorkerResult_next h
    exact Or.inl rfl
  | reconcile alive now =>
    obtain rfl := Option.some.inj h
    exact Or.inl rfl
  | reserveLaunch intent now =>
    obtain ⟨intents, rfl⟩ := reserveLaunch_next h
    exact Or.inl rfl
  | updateLaunch key status runId diagnostic audit uuid now =>
    obtain ⟨intents, events, head, rfl⟩ := updateLaunch_next h
    exact Or.inl rfl
  | acceptLaunch input batch uuid => exact Or.inl (acceptLaunch_next h).capturedResults
  | acceptLaunchBatch inputs batch uuids => exact Or.inl (acceptLaunchBatch_next h).capturedResults
  | appendSecurityAudit input uuid now =>
    obtain ⟨events, head, rfl⟩ := appendSecurityAudit_next h
    exact Or.inl rfl
  | recordLaunchEvent id target event audit uuid =>
    obtain ⟨-, a, -, ⟨-, -, hr⟩ | ⟨-, -, -, -, -, ha⟩⟩ := recordLaunchEvent_next hs.uniqueWorkers h
    · exact Or.inl hr.capturedResults
    · exact Or.inl ha.capturedResults
  | captureResult r =>
    obtain ⟨a, w, -, -, -, hw, rfl⟩ := captureResult_next h
    exact Or.inr ⟨r, rfl, rfl⟩

theorem step_capturedResults (disk : Disk) (i : Call × WriteOutcome) :
    (contents (step env disk i)).capturedResults = (contents disk).capturedResults ∨
      ∃ r, i.1 = .captureResult r ∧
        (contents (step env disk i)).capturedResults = (contents disk).capturedResults ++ [r] := by
  rcases step_cases env disk i.1 i.2 with e | ⟨next, hs, hn, -, e⟩
  · rw [show step env disk i = disk from e]
    exact Or.inl rfl
  · rw [show step env disk i = some next from e]
    exact Call.next_capturedResults hs.toUniqueIdentities hn

/-- **Captured results are never altered or removed.** -/
theorem capturedResults_prefix (disk : Disk) (calls : List (Call × WriteOutcome)) :
    (contents disk).capturedResults <+:
      (contents (Runs.run (step env) disk calls)).capturedResults := by
  refine Runs.run_related (step env) (I := fun _ => True)
    (R := fun d d' => (contents d).capturedResults <+: (contents d').capturedResults)
    (fun _ => List.prefix_rfl) (fun h h' => h.trans h') (fun _ _ _ => trivial) ?_ trivial calls
  intro d i _
  rcases step_capturedResults d i with e | ⟨r, -, e⟩
  · exact e ▸ List.prefix_rfl
  · exact e ▸ List.prefix_append _ _

/-! ## What a delivery is fingerprinted by -/

/-- The claim with its fields in the order of their names. -/
def AgentResultClaim.canonical (c : AgentResultClaim) : Json :=
  Json.defined [("completeness", some (.str c.completeness.text)), ("error", c.error.map .str),
    ("output", c.output.map .str),
    ("resume", c.resume.map fun r => .obj [("adapter", .str r.adapter), ("token", .str r.token)]),
    ("retryable", c.retryable.map .bool), ("status", some (.str c.status.text)),
    ("stopReason", c.stopReason.map .str)]

/-- The identities and the claim of a delivery, in the order of their names. -/
def CapturedResult.canonical (r : CapturedResult) : Json :=
  .obj [("assignmentId", .str r.assignmentId), ("attempt", .nat r.attempt),
    ("attemptId", .str r.attemptId),
    ("attribution", .obj [("agent", .str r.attribution.agent), ("task", .str r.attribution.task)]),
    ("batchId", .str r.batchId), ("claim", r.claim.canonical), ("runId", .str r.runId),
    ("sessionId", .str r.sessionId), ("workspaceId", .optStr r.workspaceId),
    ("workspacePath", .str r.workspacePath)]

/-- A delivery is fingerprinted as the capture service does it. -/
def Fingerprinted (env : Env) (r : CapturedResult) : Prop :=
  r.deliveryFingerprint = env.digest r.canonical

/-- Deliveries with the same canonical form have the same identities. -/
theorem CapturedResult.matches_of_canonical {e r : CapturedResult} {a : Assignment}
    (h : e.canonical = r.canonical) (he : ResultMatches e a) : ResultMatches r a := by
  have hfields := Json.obj.inj h
  simp only [List.cons.injEq, Prod.mk.injEq, Json.str.injEq, Json.nat, Json.num.injEq,
    Rat.natCast_inj, Json.obj.injEq, true_and, and_true] at hfields
  obtain ⟨hassignment, hattempt, hattemptId, ⟨hagent, htask⟩, hbatch, -, hrun, hsession,
    hworkspace, hpath⟩ := hfields
  have hworkspaceId : e.workspaceId = r.workspaceId := Json.optStr_injective hworkspace
  have hattribution : e.attribution = r.attribution := by
    cases he : e.attribution
    cases hr : r.attribution
    rw [he, hr] at hagent htask
    exact congrArg₂ WorkerAttribution.mk hagent htask
  unfold ResultMatches at he ⊢
  rw [hassignment, hattempt, hattemptId, hbatch, hrun, hsession, hpath, hworkspaceId,
    hattribution] at he
  exact he

/-! ## Redeliveries -/

/-- The stored result whose identity a delivery repeats: its delivery's, or else its attempt's. -/
def storedFor (s : DurableState) (r : CapturedResult) : Option CapturedResult :=
  (s.capturedResults.find? fun e => e.deliveryId = r.deliveryId).or
    (s.capturedResults.find? fun e => e.attemptId = r.attemptId)

theorem storedFor_mem {s : DurableState} {r e : CapturedResult} (h : storedFor s r = some e) :
    e ∈ s.capturedResults := by
  unfold storedFor at h
  rcases Option.or_eq_some_iff.1 h with h | ⟨-, h⟩
  · exact List.mem_of_find?_eq_some h
  · exact List.mem_of_find?_eq_some h

theorem identityMismatch_eq_none {a : Assignment} {r : CapturedResult} :
    identityMismatch a r = none ↔ a.batchId = r.batchId ∧ a.sessionId = r.sessionId ∧
      a.workspaceId = r.workspaceId ∧ a.workspacePath = r.workspacePath ∧
      a.attemptId = some r.attemptId ∧ a.attempt = some r.attempt ∧ a.runId = some r.runId := by
  unfold identityMismatch
  split_ifs <;> simp_all

/-- The checks a capture makes against its assignment are those of the state schema. -/
theorem resultMatches_iff {s : DurableState} {r : CapturedResult} {a : Assignment}
    (ha : s.assignment? r.assignmentId = some a) : ResultMatches r a ↔
      identityMismatch a r = none ∧ a.attribution = r.attribution ∧ a.status = .launched := by
  rw [identityMismatch_eq_none]
  unfold ResultMatches
  constructor
  · rintro ⟨-, hst, hbatch, hsession, hrun, hworkspace, hpath, hattemptId, hattempt, hattr⟩
    exact ⟨⟨hbatch.symm, hsession.symm, hworkspace.symm, hpath.symm, hattemptId.symm,
      hattempt.symm, hrun.symm⟩, hattr.symm, hst⟩
  · rintro ⟨⟨hbatch, hsession, hworkspace, hpath, hattemptId, hattempt, hrun⟩, hattr, hst⟩
    exact ⟨Keyed.key_of_lookup ha, hst, hbatch.symm, hsession.symm, hrun.symm, hworkspace.symm,
      hpath.symm, hattemptId.symm, hattempt.symm, hattr.symm⟩

/-- A result that matches an assignment has the exact identities a capture asks for. -/
theorem ResultMatches.exact {r : CapturedResult} {a : Assignment} (h : ResultMatches r a)
    (hr : CapturedResultSchema env r) :
    ¬ (a.workspaceId = none ∨ a.attemptId = none ∨ a.attempt = none) := by
  obtain ⟨-, -, -, -, -, hworkspace, -, hattemptId, hattempt, -⟩ := h
  rw [← hworkspace, ← hattemptId, ← hattempt]
  rintro (h | h | h)
  · exact hr.workspaceId.1 h
  · cases h
  · cases h

/-- A delivery that parses and matches its assignment is answered with the stored result of the
same fingerprint. -/
theorem captureResult_known {s : DurableState} {r e : CapturedResult} {a : Assignment}
    (hs : (s.assignments.map (·.id)).Nodup) (hr : CapturedResultSchema env r)
    (ha : a ∈ s.assignments) (hmatch : ResultMatches r a) (he : storedFor s r = some e)
    (hprint : e.deliveryFingerprint = r.deliveryFingerprint) :
    captureResult env r s = .reply { result := e, duplicate := true } s := by
  have hfound : s.assignment? r.assignmentId = some a := hmatch.1 ▸ Keyed.lookup_of_mem hs ha
  obtain ⟨hidentity, hattr, hst⟩ := (resultMatches_iff hfound).1 hmatch
  unfold captureResult
  rw [if_neg (not_not.2 hr), hfound]
  dsimp only
  rw [if_neg (hmatch.exact hr), hidentity]
  dsimp only
  rw [if_neg (not_not.2 hattr), if_neg (not_not.2 hst)]
  unfold storedFor at he
  rcases Option.or_eq_some_iff.1 he with hd | ⟨hnone, hatt⟩
  · rw [hd]
    dsimp only
    rw [if_neg (not_not.2 hprint)]
  · rw [hnone, hatt]
    dsimp only
    rw [if_neg (not_not.2 hprint)]

/-- A delivery under a known identity with another fingerprint is refused. -/
theorem captureResult_conflict {s : DurableState} {r e : CapturedResult}
    (he : storedFor s r = some e) (hprint : e.deliveryFingerprint ≠ r.deliveryFingerprint) :
    ∃ error, captureResult env r s = .reject error s := by
  unfold captureResult
  by_cases hr : CapturedResultSchema env r
  swap
  · rw [if_pos hr]
    exact ⟨_, rfl⟩
  rw [if_neg (not_not.2 hr)]
  cases ha : s.assignment? r.assignmentId with
  | none => exact ⟨_, rfl⟩
  | some a =>
    dsimp only
    by_cases hexact : a.workspaceId = none ∨ a.attemptId = none ∨ a.attempt = none
    · rw [if_pos hexact]
      exact ⟨_, rfl⟩
    rw [if_neg hexact]
    cases hidentity : identityMismatch a r with
    | some identity => exact ⟨_, rfl⟩
    | none =>
      dsimp only
      by_cases hattr : a.attribution ≠ r.attribution
      · rw [if_pos hattr]
        exact ⟨_, rfl⟩
      rw [if_neg hattr]
      by_cases hst : a.status ≠ .launched
      · rw [if_pos hst]
        exact ⟨_, rfl⟩
      rw [if_neg hst]
      unfold storedFor at he
      rcases Option.or_eq_some_iff.1 he with hd | ⟨hnone, hatt⟩
      · rw [hd]
        dsimp only
        rw [if_pos hprint]
        exact ⟨_, rfl⟩
      · rw [hnone, hatt]
        dsimp only
        rw [if_pos hprint]
        exact ⟨_, rfl⟩

theorem perform_of_reject {α : Type} {body : DurableState → Body α} {disk : Disk}
    {error : StoreError} {memory : DurableState} (hl : Loads env disk)
    (h : body (contents disk) = .reject error memory) (io : WriteOutcome) :
    perform env body io disk = (disk, .error error) := by
  unfold perform
  rw [show load env disk = .ok (contents disk) from hl]
  dsimp only
  rw [h]

theorem perform_of_reply {α : Type} {body : DurableState → Body α} {disk : Disk} {value : α}
    {memory : DurableState} (hl : Loads env disk)
    (h : body (contents disk) = .reply value memory) (io : WriteOutcome) :
    perform env body io disk = (disk, .ok value) := by
  unfold perform
  rw [show load env disk = .ok (contents disk) from hl]
  dsimp only
  rw [h]

/-- In every run of fingerprinted deliveries the stored results are fingerprinted. -/
theorem fingerprinted_run {calls : List (Call × WriteOutcome)}
    (h : ∀ i ∈ calls, ∀ r, i.1 = .captureResult r → Fingerprinted env r) :
    ∀ r ∈ (contents (Runs.run (step env) none calls)).capturedResults, Fingerprinted env r := by
  refine Runs.run_invariant_of (step env)
    (P := fun d => ∀ r ∈ (contents d).capturedResults, Fingerprinted env r) ?_ ?_
    (Runs.admissible_of_forall (step env) h none)
  · intro d i hd hi r hr
    rcases step_capturedResults d i with e | ⟨r', hcall, e⟩
    · exact hd r (e ▸ hr)
    · rw [e] at hr
      rcases List.mem_append.1 hr with hr | hr
      · exact hd r hr
      · obtain rfl := List.mem_singleton.1 hr
        exact hi r hcall
  · intro r hr
    cases hr

/-- **Captured results.** After every run of fingerprinted deliveries the captured results are kept
by every further run, no two share a delivery or an attempt, and each matches its assignment; a
delivery under a known identity is answered with the stored result when its fingerprint is the
stored one, and is otherwise refused, without a write in either case. -/
theorem first_delivery_wins {calls : List (Call × WriteOutcome)}
    (h : ∀ i ∈ calls, ∀ r, i.1 = .captureResult r → Fingerprinted env r) :
    (∀ later, (contents (Runs.run (step env) none calls)).capturedResults <+:
      (contents (Runs.run (step env) none (calls ++ later))).capturedResults) ∧
    ((contents (Runs.run (step env) none calls)).capturedResults.map (·.deliveryId)).Nodup ∧
    ((contents (Runs.run (step env) none calls)).capturedResults.map (·.attemptId)).Nodup ∧
    (∀ r ∈ (contents (Runs.run (step env) none calls)).capturedResults,
      ∃ a ∈ (contents (Runs.run (step env) none calls)).assignments, ResultMatches r a) ∧
    (∀ r e io, storedFor (contents (Runs.run (step env) none calls)) r = some e →
      (e.deliveryFingerprint = r.deliveryFingerprint → CapturedResultSchema env r →
        Fingerprinted env r → (env.digest e.canonical = env.digest r.canonical →
          e.canonical = r.canonical) →
        perform env (captureResult env r) io (Runs.run (step env) none calls) =
          (Runs.run (step env) none calls, .ok { result := e, duplicate := true })) ∧
      (e.deliveryFingerprint ≠ r.deliveryFingerprint →
        ∃ error, perform env (captureResult env r) io (Runs.run (step env) none calls) =
          (Runs.run (step env) none calls, .error error))) := by
  have hvalid := valid_run env (valid_none env) calls
  have hloads : Loads env (Runs.run (step env) none calls) := @loads_run env none rfl calls
  refine ⟨?_, hvalid.uniqueDeliveries, hvalid.uniqueAttempts, hvalid.resultIdentity, ?_⟩
  · intro later
    rw [Runs.run_append]
    exact capturedResults_prefix _ later
  · intro r e io he
    refine ⟨?_, ?_⟩
    · intro hprint hr hfingerprinted hfree
      have hstored := fingerprinted_run h e (storedFor_mem he)
      have hcanonical := hfree (hstored.symm.trans (hprint.trans hfingerprinted))
      obtain ⟨a, ha, hmatch⟩ := hvalid.resultIdentity e (storedFor_mem he)
      exact perform_of_reply hloads (captureResult_known hvalid.uniqueAssignments hr ha
        (CapturedResult.matches_of_canonical hcanonical hmatch) he hprint) io
    · intro hprint
      obtain ⟨error, hreject⟩ := captureResult_conflict he hprint
      exact ⟨error, perform_of_reject hloads hreject io⟩

/-- The result of the sample session is delivered again under another name. -/
theorem first_delivery_wins_sample :
    storedFor (contents sampleDisk) { sampleResult with deliveryId := "d2" } = some sampleResult ∧
    perform plainEnv (captureResult plainEnv { sampleResult with deliveryId := "d2" }) .written
      sampleDisk = (sampleDisk, .ok { result := sampleResult, duplicate := true }) := by
  have hstored : storedFor (contents sampleDisk) { sampleResult with deliveryId := "d2" } =
      some sampleResult := by decide +kernel
  refine ⟨hstored, ((@first_delivery_wins plainEnv sampleCalls ?_).2.2.2.2 _ _ .written hstored).1
    rfl (by decide +kernel) (by rfl) fun _ => rfl⟩
  intro i hi r hr
  simp only [sampleCalls, sampleLaunching, List.cons_append, List.nil_append, List.mem_cons,
    List.not_mem_nil, or_false] at hi
  rcases hi with rfl | rfl | rfl | rfl
  · cases hr
  · cases hr
  · cases hr
  · obtain rfl := Call.captureResult.inj hr
    rfl

/-- **A redelivery that is refused although its fingerprint matches**: it names another run than the
assignment, and the caller gives the fingerprint. -/
theorem matching_fingerprint_refused :
    storedFor (contents sampleDisk) { sampleResult with runId := "run-2" } = some sampleResult ∧
    CapturedResultSchema plainEnv { sampleResult with runId := "run-2" } ∧
    perform plainEnv (captureResult plainEnv { sampleResult with runId := "run-2" }) .written
      sampleDisk = (sampleDisk, .error (.error "Result runId does not match its assignment")) := by
  have hloads : Loads plainEnv sampleDisk := @loads_run plainEnv none rfl sampleCalls
  refine ⟨by decide +kernel, by decide +kernel, ?_⟩
  exact perform_of_reject hloads rfl .written

end AgentOrchestrator.Store
