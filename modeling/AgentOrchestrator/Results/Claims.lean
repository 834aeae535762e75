import AgentOrchestrator.Launch.Invariant
import AgentOrchestrator.Results.Capture
import Mathlib.Algebra.GroupWithZero.Nat

/-!
# Captured claims

What the store holds as results, over whole runs in which every capture is one of the service: a
claim has the fields of its status, its completeness says what is there of the output, its texts are
bounded together, and no claim carries the token of a resume.  `capture_stored_iff` says which
deliveries of a launched assignment are stored.
-/

namespace AgentOrchestrator.Results

open Store (AgentResultClaim ResultClaimStatus ResultCompleteness ResumeMetadata Assignment
  CapturedResult Timestamp Call WriteOutcome DurableState contents)
open Lifecycle (RunStatus TerminalRunStatus RunResult ResultDelivery completeness)
open Launch (Refusal)
open Coordinator (isControl)
open Security (redactText)

/-! ## The budget of a claim -/

/-- The texts of a claim, in the order in which they are counted. -/
def claimTexts (c : AgentResultClaim) : List (Option String) :=
  [c.output, c.error, c.stopReason, c.resume.map (·.adapter), c.resume.map (·.token)]

/-- The text has no control characters. -/
def Plain (value : Option String) : Prop := ∀ text ∈ value, text.toList.any isControl = false

instance (value : Option String) : Decidable (Plain value) :=
  inferInstanceAs (Decidable (∀ text ∈ value, text.toList.any isControl = false))

def bytes (value : Option String) : ℕ := value.elim 0 String.utf8ByteSize

theorem assertBoundedOptionalText_ok {value name : String} {maxBytes : ℕ} :
    assertBoundedOptionalText value name maxBytes = .ok () ↔
      value.toList.any isControl = false ∧ value.utf8ByteSize ≤ maxBytes := by
  rw [assertBoundedOptionalText, ite_error_eq_ok_iff, ite_error_eq_ok_iff, Nat.not_lt,
    Bool.not_eq_true]
  simp

theorem bounded_ok {value : Option String} {name : String} {remaining rest : ℕ} :
    bounded value name remaining = .ok rest ↔
      Plain value ∧ bytes value ≤ remaining ∧ rest = remaining - bytes value := by
  cases value with
  | none =>
    simp only [bounded, Plain, bytes, Option.not_mem_none, false_imp_iff, implies_true, true_and,
      Option.elim_none, Nat.zero_le, Nat.sub_zero, Except.ok.injEq]
    exact eq_comm
  | some text =>
    rw [bounded, bind_eq_ok_iff]
    constructor
    · rintro ⟨_, hcheck, hrest⟩
      obtain ⟨hplain, hsize⟩ := assertBoundedOptionalText_ok.1 hcheck
      refine ⟨?_, hsize, (Except.ok.inj hrest).symm⟩
      intro text' htext
      obtain rfl := Option.mem_some.1 htext
      exact hplain
    · rintro ⟨hplain, hsize, rfl⟩
      exact ⟨(), assertBoundedOptionalText_ok.2 ⟨hplain text rfl, hsize⟩, rfl⟩

/-- The texts of a claim are bounded together. -/
theorem boundedClaim_ok {c c' : AgentResultClaim} : boundedClaim c = .ok c' ↔ c' = c ∧
    (∀ value ∈ claimTexts c, Plain value) ∧ ((claimTexts c).map bytes).sum ≤ maxResultBytes := by
  simp only [boundedClaim, bind_eq_ok_iff, bounded_ok, claimTexts, List.forall_mem_cons,
    List.not_mem_nil, List.map_cons, List.map_nil, List.sum_cons, List.sum_nil, Except.ok.injEq]
  constructor
  · rintro ⟨_, ⟨houtput, h₁, rfl⟩, _, ⟨herror, h₂, rfl⟩, _, ⟨hreason, h₃, rfl⟩, _,
      ⟨hadapter, h₄, rfl⟩, _, ⟨htoken, h₅, rfl⟩, rfl⟩
    refine ⟨rfl, ⟨houtput, herror, hreason, hadapter, htoken, by simp⟩, ?_⟩
    omega
  · rintro ⟨rfl, ⟨houtput, herror, hreason, hadapter, htoken, -⟩, hsum⟩
    refine ⟨_, ⟨houtput, ?_, rfl⟩, _, ⟨herror, ?_, rfl⟩, _, ⟨hreason, ?_, rfl⟩, _,
      ⟨hadapter, ?_, rfl⟩, _, ⟨htoken, ?_, rfl⟩, rfl⟩ <;> omega

/-! ## The shape of a claim -/

/-- What the completeness of a claim says about its output. -/
def completenessOf : ResultClaimStatus → Option String → ResultCompleteness
  | .malformed, _ => .malformed
  | _, none => .missing
  | .succeeded, some output => if output = "" then .empty else .complete
  | _, some output => if output = "" then .empty else .partly

/-- The fields that go with the status of a claim. -/
def FieldsOf (c : AgentResultClaim) : Prop :=
  match c.status with
  | .succeeded => c.output ≠ none ∧ c.error = none ∧ c.retryable = none ∧ c.stopReason = none
  | .failed => c.error ≠ none ∧ c.retryable ≠ none ∧ c.stopReason = none
  | .cancelled => c.error = none ∧ c.retryable = none
  | .stoppedWithoutResult => c.output = none ∧ c.error = none ∧ c.retryable = none ∧ c.resume = none
  | .malformed => c.output = none ∧ c.error ≠ none ∧ c.retryable = none ∧ c.stopReason = none ∧
      c.resume = none

variable {canaries : List String} {lower : String → String}

theorem redactText_empty (canaries : List String) : redactText canaries "" = "" := by
  have hvariants : ∀ (l : List String), l.foldl (fun units variant =>
      Security.replaceText (Utf16.toUnits variant) (Utf16.toUnits "[REDACTED:canary]") units)
        [] = [] := by
    intro l
    induction l with
    | nil => rfl
    | cons variant l ih => exact ih
  have hcanaries : ∀ (l : List String), l.foldl (fun units canary =>
      (Security.variants canary).foldl (fun units variant =>
        Security.replaceText (Utf16.toUnits variant) (Utf16.toUnits "[REDACTED:canary]") units)
          units) [] = [] := by
    intro l
    induction l with
    | nil => rfl
    | cons canary l ih => rw [List.foldl_cons, hvariants, ih]
  have hpatterns : Security.secretPatterns.foldl
      (fun units p => p.1.replaceAll p.2 units) (Utf16.toUnits "") = [] := rfl
  unfold redactText
  rw [hpatterns]
  dsimp only
  rw [hcanaries]
  rfl

theorem redactText_eq_empty (canaries : List String) (text : String) :
    redactText canaries text = "" ↔ text = "" := by
  constructor
  · intro h
    by_contra hne
    exact Security.redactText_ne_empty canaries hne h
  · rintro rfl
    exact redactText_empty canaries

theorem completenessOf_redacted (status : ResultClaimStatus) (output : Option String) :
    completenessOf status (output.map (redactText canaries)) = completenessOf status output := by
  cases output with
  | none => rfl
  | some output => cases status <;> simp [completenessOf, redactText_eq_empty]

/-- What a delivery is normalized to has the fields of its status. -/
theorem normalize_fields (delivery : ResultDelivery) :
    FieldsOf (redactClaim canaries lower (Lifecycle.normalize delivery)) ∧
      (Lifecycle.normalize delivery).completeness =
        completenessOf (Lifecycle.normalize delivery).status
          (Lifecycle.normalize delivery).output := by
  cases delivery with
  | malformed error => simp [Lifecycle.normalize, redactClaim, FieldsOf, completenessOf]
  | stoppedWithoutResult status stopReason =>
    simp [Lifecycle.normalize, redactClaim, FieldsOf, completenessOf]
  | adapterResult result =>
    cases result with
    | succeeded output resume =>
      simp [Lifecycle.normalize, redactClaim, FieldsOf, completenessOf]
    | failed error retryable output resume =>
      cases output <;>
        simp [Lifecycle.normalize, redactClaim, FieldsOf, completenessOf, completeness]
    | cancelled reason output resume =>
      cases output <;>
        simp [Lifecycle.normalize, redactClaim, FieldsOf, completenessOf, completeness]

variable (canaries lower) in
/-- What holds of every claim the service stores. -/
structure Proper (c : AgentResultClaim) : Prop where
  fields : FieldsOf c
  completeness : c.completeness = completenessOf c.status c.output
  plain : ∀ value ∈ claimTexts c, Plain value
  budget : ((claimTexts c).map bytes).sum ≤ maxResultBytes
  /-- The text is one that was redacted. -/
  redacted : ∀ value ∈ [c.output, c.error, c.stopReason, c.resume.map (·.adapter)],
    ∃ raw : Option String, value = raw.map (redactText canaries)
  /-- No token of a resume is stored. -/
  token : ∀ m ∈ c.resume, m.token = Security.keyMarker lower "token"

theorem proper_of_bounded {delivery : ResultDelivery} {c : AgentResultClaim}
    (h : boundedClaim (redactClaim canaries lower (Lifecycle.normalize delivery)) = .ok c) :
    Proper canaries lower c := by
  obtain ⟨rfl, hplain, hbudget⟩ := boundedClaim_ok.1 h
  obtain ⟨hfields, hcompleteness⟩ := @normalize_fields canaries lower delivery
  refine ⟨hfields, ?_, hplain, hbudget, ?_, ?_⟩
  · exact hcompleteness.trans (completenessOf_redacted _ _).symm
  · simp only [List.forall_mem_cons, redactClaim, Option.map_map]
    refine ⟨⟨_, rfl⟩, ⟨_, rfl⟩, ⟨_, rfl⟩,
      ⟨(Lifecycle.normalize delivery).resume.map (·.adapter), by rw [Option.map_map]; rfl⟩, by simp⟩
  · intro m hm
    obtain ⟨raw, -, rfl⟩ := Option.map_eq_some_iff.1 hm
    rfl

/-! ## The service and the store -/

/-- One delivery of the service: its two readings of the assignment, what the provider answered, and
the identity of the delivery. -/
structure Delivery where
  first : Assignment
  second : Assignment
  status : Answer
  result : Answer
  deliveryId : String
  now : Timestamp

/-- The state file, and every version of an assignment it has held. -/
structure State where
  disk : Store.Disk := none
  seen : List Assignment := []

inductive Act where
  /-- Another party calls the store. -/
  | call (c : Call) (io : WriteOutcome)
  | deliver (x : Delivery) (io : WriteOutcome)

section

variable (env : Store.Env) (number : Json.NumberFormat) (isoDatetime : String → Bool)
variable (canaries : List String) (lower : String → String)

/-- What a delivery hands to the store. -/
def Delivery.input (x : Delivery) : Option CapturedResult :=
  match collectedRun x.first with
  | .error _ => none
  | .ok runId =>
    match collect number isoDatetime runId x.status x.result with
    | .delivers delivery _ =>
      (ingest env canaries lower x.second x.deliveryId delivery x.now).toOption
    | _ => none

def State.to (s : State) (disk : Store.Disk) : State :=
  { disk := disk, seen := s.seen ++ (contents disk).assignments }

/-- The readings of a delivery are versions of one assignment. -/
def step (s : State) : Act → State
  | .call c io => s.to (Store.step env s.disk (c, io))
  | .deliver x io =>
    if x.first ∈ s.seen ∧ x.second ∈ s.seen ∧ x.first.id = x.second.id then
      match x.input env number isoDatetime canaries lower with
      | some r => s.to (Store.step env s.disk (.captureResult r, io))
      | none => s
    else s

/-- The other parties capture no results, and launches enter as the launch service builds them. -/
def Legal : Act → Prop
  | .call c _ => (∀ r, c ≠ .captureResult r) ∧ ∀ o ∈ c.offered env, Store.Entering o
  | .deliver _ _ => True

end

variable {env : Store.Env} {number : Json.NumberFormat} {isoDatetime : String → Bool}

/-! ### The run of a session -/

variable (env) in
/-- Every version of an assignment belongs to the session of the one on file, and has its run. -/
structure Sourced (s : State) : Prop where
  valid : Store.Valid env s.disk
  held : ∀ b ∈ (contents s.disk).assignments, b ∈ s.seen
  bound : ∀ b ∈ s.seen, Store.RunBound (contents s.disk).workers b
  onFile : ∀ b ∈ s.seen, ∃ c ∈ (contents s.disk).assignments, c.id = b.id ∧
    c.sessionId = b.sessionId

/-- A call of the store keeps the sessions of the assignments. -/
theorem store_sessions (disk : Store.Disk) (c : Call) (io : WriteOutcome) :
    ∀ b ∈ (contents disk).assignments,
      ∃ b' ∈ (contents (Store.step env disk (c, io))).assignments,
        b'.id = b.id ∧ b'.sessionId = b.sessionId := by
  intro b hb
  by_cases hevent : c.isLaunchEvent = false
  · rcases Launch.otherCall_assignments hevent disk io with e | ⟨e, -⟩
    · exact ⟨b, by rw [e]; exact hb, rfl, rfl⟩
    · exact ⟨b, by rw [e]; exact List.mem_append_left _ hb, rfl, rfl⟩
  · obtain ⟨id, target, ev, audit, uuid, rfl⟩ : ∃ id target ev audit uuid,
        c = .recordLaunchEvent id target ev audit uuid := by
      cases c <;> first | exact ⟨_, _, _, _, _, rfl⟩ | exact absurd rfl hevent
    obtain ⟨b', hb', hid, -, hsession, -⟩ :=
      (Launch.launchEvent_touches disk id target ev audit uuid io).versions b hb
    exact ⟨b', hb', hid, hsession⟩

theorem sourced_to {s : State} (h : Sourced env s) {c : Call}
    (hentering : ∀ o ∈ c.offered env, Store.Entering o) (io : WriteOutcome) :
    Sourced env (s.to (Store.step env s.disk (c, io))) := by
  have hforward := Store.forward_step s.disk (c, io) h.valid
  have hbound : Store.RunsBound (contents (Store.step env s.disk (c, io))) := by
    have hold : Store.RunsBound (contents s.disk) := fun b hb => h.bound b (h.held b hb)
    rcases Store.step_cases env s.disk c io with e | ⟨next, hs, hn, hnext, e⟩
    · rw [e]
      exact hold
    · rw [e]
      exact hold.next hs hnext hentering hn
  refine ⟨Store.valid_step env s.disk (c, io) h.valid, ?_, ?_, ?_⟩
  · intro b hb
    exact List.mem_append_right _ hb
  · intro b hb
    rcases List.mem_append.1 hb with hb | hb
    · exact (h.bound b hb).forward hforward
    · exact hbound b hb
  · intro b hb
    rcases List.mem_append.1 hb with hb | hb
    · obtain ⟨d, hd, hid, hsession⟩ := h.onFile b hb
      obtain ⟨d', hd', hid', hsession'⟩ := store_sessions s.disk c io d hd
      exact ⟨d', hd', hid'.trans hid, hsession'.trans hsession⟩
    · exact ⟨b, hb, rfl, rfl⟩

theorem sourced_step {s : State} {act : Act} (h : Sourced env s) (hlegal : Legal env act) :
    Sourced env (step env number isoDatetime canaries lower s act) := by
  cases act with
  | call c io => exact sourced_to h hlegal.2 io
  | deliver x io =>
    simp only [step]
    split_ifs
    · split
      · refine sourced_to h ?_ io
        intro o ho
        cases ho
      · exact h
    · exact h

/-- Two versions of an assignment that have runs have the same run. -/
theorem Sourced.run_eq {s : State} (h : Sourced env s) {b c : Assignment} (hb : b ∈ s.seen)
    (hc : c ∈ s.seen) (hid : b.id = c.id) {r r' : String} (hr : b.runId = some r)
    (hr' : c.runId = some r') : r = r' := by
  obtain ⟨d, hd, hdid, hdsession⟩ := h.onFile b hb
  obtain ⟨e, he, heid, hesession⟩ := h.onFile c hc
  obtain rfl := Keyed.eq_of_key h.valid.uniqueAssignments hd he (hdid.trans (hid.trans heid.symm))
  have hsession : b.sessionId = c.sessionId := hdsession.symm.trans hesession
  obtain ⟨w, hw, hwrun⟩ := (h.bound b hb).worker h.valid hr
  obtain ⟨w', hw', hwrun'⟩ := (h.bound c hc).worker h.valid hr'
  rw [hsession, hw'] at hw
  obtain rfl := Option.some.inj hw
  exact Option.some.inj (hwrun.symm.trans hwrun')

/-! ### What is captured -/

/-- The status of the claim of a result. -/
def claimStatus : TerminalRunStatus → ResultClaimStatus
  | .succeeded => .succeeded
  | .failed => .failed
  | .cancelled => .cancelled

/-- The provider said of the run that it ended so. -/
structure Ended (number : Json.NumberFormat) (isoDatetime : String → Bool) (status : Answer)
    (runId : String) (terminal : TerminalRunStatus) : Prop where
  state : ∃ response state, status = .ok response ∧
    parseProviderStatus number isoDatetime response = .ok state ∧ state.runId = runId ∧
    state.status.terminal = some terminal

theorem normalize_adapterResult (result : RunResult) :
    (Lifecycle.normalize (.adapterResult result)).status = claimStatus result.status := by
  cases result <;> rfl

/-- What `collect` makes of the result of a run that ended. -/
theorem collectResult_status {terminal : TerminalRunStatus} {answer : Answer}
    {delivery : ResultDelivery} {observed : Option TerminalRunStatus}
    (h : collectResult number terminal answer = .delivers delivery observed) :
    (Lifecycle.normalize delivery).status ∈
      [claimStatus terminal, .stoppedWithoutResult, ResultClaimStatus.malformed] := by
  unfold collectResult at h
  dsimp only at h
  split at h
  · split_ifs at h
    cases h
    simp [Lifecycle.normalize]
  · split at h
    · cases h
      simp [Lifecycle.normalize]
    · split at h
      · cases h
        simp [Lifecycle.normalize]
      · cases h
        simp [Lifecycle.normalize]
      · split_ifs at h with hstatus
        · cases h
          simp [Lifecycle.normalize]
        · cases h
          rw [normalize_adapterResult, not_not.1 hstatus]
          exact List.mem_cons_self

/-- A delivery that is not malformed is of a run that the provider said to have ended. -/
theorem collect_ended {runId : String} {status result : Answer} {delivery : ResultDelivery}
    {observed : Option TerminalRunStatus}
    (h : collect number isoDatetime runId status result = .delivers delivery observed)
    (hclaim : (Lifecycle.normalize delivery).status ≠ .malformed) :
    ∃ terminal, Ended number isoDatetime status runId terminal ∧
      ((Lifecycle.normalize delivery).status = claimStatus terminal ∨
        (Lifecycle.normalize delivery).status = .stoppedWithoutResult) := by
  unfold collect at h
  split at h
  · split_ifs at h
    cases h
    exact absurd rfl hclaim
  · rename_i response
    split at h
    · cases h
      exact absurd rfl hclaim
    · rename_i state hstate
      split_ifs at h with hrun
      · cases h
        exact absurd rfl hclaim
      · split at h
        · cases h
        · rename_i terminal hterminal
          refine ⟨terminal, ⟨response, state, rfl, hstate, not_not.1 hrun, hterminal⟩, ?_⟩
          have hmem := collectResult_status h
          simp only [List.mem_cons, List.not_mem_nil, or_false] at hmem
          rcases hmem with hmem | hmem | hmem
          · exact Or.inl hmem
          · exact Or.inr hmem
          · exact absurd hmem hclaim

theorem collectedRun_ok {a : Assignment} {runId : String} (h : collectedRun a = .ok runId) :
    a.status = .launched ∧ a.runId = some runId := by
  unfold collectedRun at h
  split at h
  · rename_i run hstatus hrun
    cases hexact : requireExactIdentities a with
    | error e => rw [hexact] at h; cases h
    | ok identities =>
      rw [hexact] at h
      obtain rfl := Except.ok.inj h
      exact ⟨hstatus, hrun⟩
  · cases h

/-- What `ingest` hands to the store. -/
structure Ingested (env : Store.Env) (canaries : List String) (lower : String → String)
    (a : Assignment) (deliveryId : String) (delivery : ResultDelivery) (now : Timestamp)
    (r : CapturedResult) : Prop where
  identifier : Coordinator.assertIdentifier deliveryId "deliveryId" 256 = .ok ()
  deliveryId : r.deliveryId = deliveryId
  fingerprint : r.deliveryFingerprint = env.digest r.canonical
  assignment : r.assignmentId = a.id ∧ r.batchId = a.batchId ∧ r.sessionId = a.sessionId ∧
    r.workspacePath = a.workspacePath ∧ r.attribution = a.attribution
  exact : a.runId = some r.runId ∧ a.workspaceId = r.workspaceId ∧ r.workspaceId ≠ none ∧
    a.attemptId = some r.attemptId ∧ a.attempt = some r.attempt
  claim : r.claim = redactClaim canaries lower (Lifecycle.normalize delivery)
  bounded : boundedClaim r.claim = .ok r.claim
  named : Named canaries r.claim
  capturedAt : r.capturedAt = now

theorem ingest_ok {a : Assignment} {deliveryId : String} {delivery : ResultDelivery}
    {now : Timestamp} {r : CapturedResult}
    (h : ingest env canaries lower a deliveryId delivery now = .ok r) :
    Ingested env canaries lower a deliveryId delivery now r := by
  unfold ingest at h
  obtain ⟨_, hid, h⟩ := bind_eq_ok h
  split at h
  · cases h
  · rename_i runId hrun
    obtain ⟨identities, hexact, h⟩ := bind_eq_ok h
    obtain ⟨claim, hclaim, h⟩ := bind_eq_ok h
    rw [ite_error_eq_ok_iff] at h
    obtain ⟨hnamed, h⟩ := h
    obtain rfl := Except.ok.inj h
    have hbounded := mapError_eq_ok hclaim
    obtain ⟨rfl, -⟩ := boundedClaim_ok.1 hbounded
    unfold requireExactIdentities at hexact
    split at hexact
    · rename_i hworkspace hattemptId hattempt
      obtain rfl := Except.ok.inj hexact
      exact ⟨mapError_eq_ok hid, rfl, rfl, ⟨rfl, rfl, rfl, rfl, rfl⟩,
        ⟨hrun, hworkspace, Option.some_ne_none _, hattemptId, hattempt⟩, rfl, hbounded,
        not_not.1 hnamed, rfl⟩
    · cases hexact

variable (number isoDatetime canaries lower) in
/-- The result is what the provider answered in this delivery about its run. -/
structure Delivery.Reports (x : Delivery) (r : CapturedResult) : Prop where
  deliveryId : r.deliveryId = x.deliveryId
  claim : ∃ delivery observed,
    collect number isoDatetime r.runId x.status x.result = .delivers delivery observed ∧
    r.claim = redactClaim canaries lower (Lifecycle.normalize delivery)

theorem input_reports {s : State} (hs : Sourced env s) {x : Delivery} {r : CapturedResult}
    (hfirst : x.first ∈ s.seen) (hsecond : x.second ∈ s.seen) (hid : x.first.id = x.second.id)
    (h : x.input env number isoDatetime canaries lower = some r) :
    Proper canaries lower r.claim ∧ x.Reports canaries lower number isoDatetime r := by
  unfold Delivery.input at h
  split at h
  · cases h
  · rename_i runId hrun
    split at h
    · rename_i delivery observed hcollect
      cases hingest : ingest env canaries lower x.second x.deliveryId delivery x.now with
      | error e => rw [hingest] at h; cases h
      | ok r' =>
        rw [hingest] at h
        obtain rfl := Option.some.inj h
        have hr := ingest_ok hingest
        have hrunId : runId = r'.runId :=
          hs.run_eq hfirst hsecond hid (collectedRun_ok hrun).2 hr.exact.1
        rw [hrunId] at hcollect
        have hbounded : boundedClaim (redactClaim canaries lower (Lifecycle.normalize delivery)) =
            .ok r'.claim := hr.claim ▸ hr.bounded
        exact ⟨proper_of_bounded hbounded, hr.deliveryId, delivery, observed, hcollect, hr.claim⟩
    · cases h

/-- **What the captured results say.** In every run of the service beside other parties, every
captured claim has the fields of its status, a completeness that says what is there of the output,
texts without control characters that are bounded together and redacted, and no token of a resume.
It reports what the provider answered in a delivery of this run; unless it is malformed, the
provider then said of the very run of its session that it had ended with that status. -/
theorem captured_claims {acts : List Act} (h : ∀ act ∈ acts, Legal env act) {r : CapturedResult}
    (hr : r ∈ (contents (Runs.run (step env number isoDatetime canaries lower) {}
      acts).disk).capturedResults) :
    Proper canaries lower r.claim ∧ ∃ x io, Act.deliver x io ∈ acts ∧
      x.Reports canaries lower number isoDatetime r ∧
      (r.claim.status ≠ .malformed → ∃ terminal,
        Ended number isoDatetime x.status r.runId terminal ∧
        (r.claim.status = claimStatus terminal ∨ r.claim.status = .stoppedWithoutResult)) := by
  have hrun : Sourced env (Runs.run (step env number isoDatetime canaries lower) {} acts) ∧
      ∀ r ∈ (contents (Runs.run (step env number isoDatetime canaries lower) {}
        acts).disk).capturedResults, Proper canaries lower r.claim ∧
          ∃ x io, Act.deliver x io ∈ acts ∧ x.Reports canaries lower number isoDatetime r := by
    have hadmissible : Runs.Admissible (step env number isoDatetime canaries lower)
        (fun _ act => act ∈ acts) {} acts :=
      Runs.admissible_of_forall _ (fun act hact => hact) _
    refine Runs.run_invariant_of (step env number isoDatetime canaries lower)
      (P := fun s => Sourced env s ∧ ∀ r ∈ (contents s.disk).capturedResults,
        Proper canaries lower r.claim ∧ ∃ x io, Act.deliver x io ∈ acts ∧
          x.Reports canaries lower number isoDatetime r) ?_ ?_ hadmissible
    · rintro s act ⟨hs, hcaptured⟩ hact
      refine ⟨sourced_step hs (h act hact), ?_⟩
      cases act with
      | call c io =>
        rcases @Store.step_capturedResults env s.disk (c, io) with e | ⟨r, hc, -⟩
        · intro r hr
          exact hcaptured r (e ▸ hr)
        · exact absurd hc ((h _ hact).1 r)
      | deliver x io =>
        simp only [step]
        split_ifs with hread
        · split
          · rename_i input hinput
            intro r hr
            rcases @Store.step_capturedResults env s.disk (.captureResult input, io) with
              e | ⟨r', hc, e⟩
            · exact hcaptured r (e ▸ hr)
            · obtain rfl := Call.captureResult.inj hc
              have hmem : r ∈ (contents (Store.step env s.disk
                (.captureResult input, io))).capturedResults := hr
              rw [e] at hmem
              rcases List.mem_append.1 hmem with hold | hnew
              · exact hcaptured r hold
              · obtain rfl := List.mem_singleton.1 hnew
                obtain ⟨hproper, hreports⟩ := input_reports hs hread.1 hread.2.1 hread.2.2 hinput
                exact ⟨hproper, x, io, hact, hreports⟩
          · exact hcaptured
        · exact hcaptured
    · refine ⟨⟨Store.valid_none env, ?_, ?_, ?_⟩, ?_⟩ <;> intro b hb <;> cases hb
  obtain ⟨hproper, x, io, hx, hreports⟩ := hrun.2 r hr
  refine ⟨hproper, x, io, hx, hreports, ?_⟩
  intro hmalformed
  obtain ⟨delivery, observed, hcollect, hclaim⟩ := hreports.claim
  rw [hclaim] at hmalformed ⊢
  exact collect_ended hcollect hmalformed

/-! ### A captured result -/

/-- The sample launch has begun its run. -/
def sampleLaunch : List Act :=
  [.call (.acceptLaunch Store.sampleInput Store.sampleBatch "u1") .written,
    .call (Store.sampleEvent "e2" .launching none).1 .written,
    .call (Store.sampleEvent "e3" .launched (some "run-1")).1 .written]

def launchedSample : Assignment :=
  { Store.sampleAssignment with
    status := .launched, updatedAt := "2026-01-02", runId := some "run-1" }

/-- The provider reports that the run succeeded, with a resume. -/
def sampleDelivery : Delivery :=
  { first := launchedSample, second := launchedSample
    status := .ok (.json (.obj [("runId", .str "run-1"), ("status", .str "succeeded"),
      ("updatedAt", .str "2026-01-03")]))
    result := .ok (.json (resultJson (.succeeded "done" (some
      { adapter := "codex", token := "thread" }))))
    deliveryId := "d1", now := "2026-01-03" }

theorem captured_claims_sample : ∃ r ∈ (contents (Runs.run
    (step Store.plainEnv Json.fractions (fun _ => true) [] id) {}
      (sampleLaunch ++ [.deliver sampleDelivery .written])).disk).capturedResults,
    Proper [] id r.claim ∧ r.claim.status = .succeeded ∧
      r.claim.resume = some { adapter := "codex", token := "[REDACTED:token]" } := by
  have hcaptured : ((contents (Runs.run
      (step Store.plainEnv Json.fractions (fun _ => true) [] id) {}
        (sampleLaunch ++ [.deliver sampleDelivery .written])).disk).capturedResults.any fun r =>
      r.claim.status = .succeeded && r.claim.resume = some
        { adapter := "codex", token := "[REDACTED:token]" }) = true := by
    decide +kernel
  obtain ⟨r, hr, hclaim⟩ := List.any_eq_true.1 hcaptured
  simp only [Bool.and_eq_true, decide_eq_true_eq] at hclaim
  have hlegal : ∀ act ∈ sampleLaunch ++ [.deliver sampleDelivery .written],
      Legal Store.plainEnv act := by
    simp only [sampleLaunch, List.cons_append, List.nil_append, List.forall_mem_cons,
      List.not_mem_nil, false_imp_iff, implies_true, and_true]
    refine ⟨⟨fun r h => (by cases h), ?_⟩, ⟨fun r h => (by cases h), ?_⟩,
      ⟨fun r h => (by cases h), ?_⟩, trivial⟩
    · intro o ho
      obtain rfl := List.mem_singleton.1 ho
      exact ⟨rfl, rfl⟩
    · intro o ho
      cases ho
    · intro o ho
      cases ho
  exact ⟨r, hr, (captured_claims hlegal hr).1, hclaim⟩

/-! ## Which deliveries are stored -/

variable (canaries lower) in
/-- The claim of a delivery fits into its budget and parses. -/
structure Storable (delivery : ResultDelivery) : Prop where
  plain : ∀ value ∈ claimTexts (redactClaim canaries lower (Lifecycle.normalize delivery)),
    Plain value
  budget : ((claimTexts (redactClaim canaries lower (Lifecycle.normalize delivery))).map bytes).sum ≤
    maxResultBytes
  named : Named canaries (Lifecycle.normalize delivery)
  error : (Lifecycle.normalize delivery).error ≠ some ""
  stopReason : (Lifecycle.normalize delivery).stopReason ≠ some ""
  adapter : ∀ m ∈ (Lifecycle.normalize delivery).resume, m.adapter ≠ ""

variable (env) in
/-- The assignment can be given its first result by this delivery. -/
structure Collectable (s : DurableState) (a : Assignment) (deliveryId : String) (now : Timestamp) :
    Prop where
  mem : a ∈ s.assignments
  launched : a.status = .launched
  exact : a.runId ≠ none ∧ a.workspaceId ≠ none ∧ a.attemptId ≠ none ∧ a.attempt ≠ none
  worker : s.worker? a.sessionId ≠ none
  identifier : Coordinator.assertIdentifier deliveryId "deliveryId" 256 = .ok ()
  fresh : ∀ e ∈ s.capturedResults, e.deliveryId ≠ deliveryId ∧ a.attemptId ≠ some e.attemptId
  now : env.isoDatetime now = true

theorem redacted_eq_empty (o : Option String) :
    o.map (redactText canaries) = some "" ↔ o = some "" := by
  cases o with
  | none => simp
  | some text => simp [redactText_eq_empty]

theorem redactedClaim_schema (c : AgentResultClaim) :
    Store.ResultClaimSchema (redactClaim canaries lower c) ↔
      c.error ≠ some "" ∧ c.stopReason ≠ some "" ∧ ∀ m ∈ c.resume, m.adapter ≠ "" := by
  have htoken : Security.keyMarker lower "token" ≠ "" := by
    intro h
    have hchars := congrArg String.toList h
    simp [Security.keyMarker] at hchars
  rw [Store.resultClaimSchema_iff]
  simp only [redactClaim, ne_eq, redacted_eq_empty]
  refine and_congr_right fun _ => and_congr_right fun _ => ?_
  cases c.resume with
  | none => simp
  | some m => simp [redactText_eq_empty, htoken]

/-- The result a collectable assignment is given. -/
theorem ingest_collectable {s : DurableState} {a : Assignment} {deliveryId : String}
    {now : Timestamp} (h : Collectable env s a deliveryId now) {delivery : ResultDelivery}
    (hd : Storable canaries lower delivery) :
    ∃ r, ingest env canaries lower a deliveryId delivery now = .ok r := by
  obtain ⟨hrun, hworkspace, hattemptId, hattempt⟩ := h.exact
  obtain ⟨runId, hrun⟩ := Option.ne_none_iff_exists'.1 hrun
  obtain ⟨workspaceId, hworkspace⟩ := Option.ne_none_iff_exists'.1 hworkspace
  obtain ⟨attemptId, hattemptId⟩ := Option.ne_none_iff_exists'.1 hattemptId
  obtain ⟨attempt, hattempt⟩ := Option.ne_none_iff_exists'.1 hattempt
  have hbounded := boundedClaim_ok.2 ⟨rfl, hd.plain, hd.budget⟩
  have hnamed : Named canaries (redactClaim canaries lower (Lifecycle.normalize delivery)) :=
    hd.named
  unfold ingest
  rw [h.identifier, hrun]
  simp [requireExactIdentities, hworkspace, hattemptId, hattempt, hbounded, hnamed, Except.mapError,
    bind, Except.bind]

/-- An ingested result with a storable claim parses. -/
theorem ingested_schema {s : DurableState} (hs : Store.StateSchema env s) {a : Assignment}
    {deliveryId : String} {now : Timestamp} (h : Collectable env s a deliveryId now)
    (hdigest : ∀ j, Store.Hex64 (env.digest j)) {delivery : ResultDelivery} {r : CapturedResult}
    (hr : Ingested env canaries lower a deliveryId delivery now r)
    (hclaim : Store.ResultClaimSchema r.claim) : Store.CapturedResultSchema env r := by
  have ha := hs.assignments a h.mem
  obtain ⟨hassignment, hbatch, hsession, hpath, hattribution⟩ := hr.assignment
  obtain ⟨hrun, hworkspace, hsome, hattemptId, hattempt⟩ := hr.exact
  have hidentifier : deliveryId ≠ "" := by
    obtain ⟨_, hbound, -⟩ := bind_eq_ok h.identifier
    unfold Coordinator.assertBoundedText at hbound
    exact (not_of_ite_error hbound).1
  exact {
    deliveryId := hr.deliveryId ▸ hidentifier
    deliveryFingerprint := hr.fingerprint ▸ hdigest _
    assignmentId := hassignment ▸ ha.id
    batchId := hbatch ▸ ha.batchId
    sessionId := hsession ▸ ha.sessionId
    workspaceId := ⟨hsome, fun e => ha.workspaceId (hworkspace.trans e)⟩
    workspacePath := hpath ▸ ha.workspacePath
    attemptId := fun e => ha.attemptId (e ▸ hattemptId)
    attempt := Nat.pos_of_ne_zero fun e => ha.attempt (e ▸ hattempt)
    runId := fun e => ha.runId (e ▸ hrun)
    attribution := hattribution ▸ ha.attribution
    claim := hclaim
    capturedAt := hr.capturedAt ▸ h.now }

/-- **Which deliveries are stored.** The first delivery for a launched assignment is stored exactly
when its claim, redacted, has no control characters, fits into the budget of a result and names its
status and completeness as before, and no error, stop reason or resume adapter in it is an empty
text.  A run the provider reports as
cancelled with an empty reason thus passes its protocol and is never stored. -/
theorem capture_stored_iff {s : DurableState} (hs : Store.StateSchema env s) {a : Assignment}
    {deliveryId : String} {now : Timestamp} (h : Collectable env s a deliveryId now)
    (hdigest : ∀ j, Store.Hex64 (env.digest j)) (delivery : ResultDelivery) :
    (∃ r next, ingest env canaries lower a deliveryId delivery now = .ok r ∧
      Store.captureResult env r s = .commit { result := r, duplicate := false } next) ↔
      Storable canaries lower delivery := by
  constructor
  · rintro ⟨r, next, hingest, hcommit⟩
    have hr := ingest_ok hingest
    have hschema : Store.CapturedResultSchema env r := by
      by_contra hinvalid
      unfold Store.captureResult at hcommit
      rw [if_pos hinvalid] at hcommit
      cases hcommit
    have hbounded := hr.bounded
    rw [hr.claim] at hbounded
    obtain ⟨-, hplain, hbudget⟩ := boundedClaim_ok.1 hbounded
    have hclaim := hschema.claim
    rw [hr.claim, redactedClaim_schema] at hclaim
    obtain ⟨herror, hreason, hadapter⟩ := hclaim
    have hnamed := hr.named
    rw [hr.claim] at hnamed
    exact ⟨hplain, hbudget, hnamed, herror, hreason, hadapter⟩
  · intro hd
    obtain ⟨r, hingest⟩ := ingest_collectable h hd
    have hr := ingest_ok hingest
    have hclaim : Store.ResultClaimSchema r.claim := by
      rw [hr.claim, redactedClaim_schema]
      exact ⟨hd.error, hd.stopReason, hd.adapter⟩
    have hschema := ingested_schema hs h hdigest hr hclaim
    obtain ⟨hassignment, hbatch, hsession, hpath, hattribution⟩ := hr.assignment
    obtain ⟨hrun, hworkspace, hsome, hattemptId, hattempt⟩ := hr.exact
    have hmatch : Store.ResultMatches r a :=
      ⟨hassignment.symm, h.launched, hbatch, hsession, hrun.symm, hworkspace.symm, hpath,
        hattemptId.symm, hattempt.symm, hattribution⟩
    have hfound : s.assignment? r.assignmentId = some a :=
      hassignment ▸ Keyed.lookup_of_mem hs.uniqueAssignments h.mem
    obtain ⟨hidentity, hattr, hst⟩ := (Store.resultMatches_iff hfound).1 hmatch
    have hdelivery : (s.capturedResults.find? fun e => e.deliveryId = r.deliveryId) = none := by
      rw [List.find?_eq_none]
      intro e he
      simpa [hr.deliveryId] using (h.fresh e he).1
    have hnew : (s.capturedResults.find? fun e => e.attemptId = r.attemptId) = none := by
      rw [List.find?_eq_none]
      intro e he
      have hne := (h.fresh e he).2
      rw [hattemptId, ne_eq, Option.some.injEq] at hne
      simpa [eq_comm] using hne
    obtain ⟨w, hw⟩ := Option.ne_none_iff_exists'.1 h.worker
    suffices hcommit : ∃ next,
        Store.captureResult env r s = .commit { result := r, duplicate := false } next by
      obtain ⟨next, hcommit⟩ := hcommit
      exact ⟨r, next, hingest, hcommit⟩
    unfold Store.captureResult
    rw [if_neg (not_not.2 hschema), hfound]
    dsimp only
    rw [if_neg (hmatch.exact hschema), hidentity]
    dsimp only
    rw [if_neg (not_not.2 hattr), if_neg (not_not.2 hst), hdelivery, hnew, hsession, hw]
    exact ⟨_, rfl⟩

/-- The file on which the sample launch has begun its run. -/
def launchedDisk : Store.Disk :=
  (Runs.run (step Store.plainEnv Json.fractions (fun _ => true) [] id) {} sampleLaunch).disk

theorem capture_stored_iff_sample :
    (∃ r next, ingest Store.plainEnv [] id launchedSample "d1"
        (.adapterResult (.cancelled (some "asked") none none)) "2026-01-03" = .ok r ∧
      Store.captureResult Store.plainEnv r (contents launchedDisk) =
        .commit { result := r, duplicate := false } next) ∧
    ¬ ∃ r next, ingest Store.plainEnv [] id launchedSample "d1"
        (.adapterResult (.cancelled (some "") none none)) "2026-01-03" = .ok r ∧
      Store.captureResult Store.plainEnv r (contents launchedDisk) =
        .commit { result := r, duplicate := false } next := by
  have hs : Store.StateSchema Store.plainEnv (contents launchedDisk) := by decide +kernel
  have hcollectable : Collectable Store.plainEnv (contents launchedDisk) launchedSample "d1"
      "2026-01-03" := by
    refine ⟨by decide +kernel, rfl, by decide, by decide +kernel, rfl, ?_, rfl⟩
    have hnone : (contents launchedDisk).capturedResults = [] := by decide +kernel
    intro e he
    rw [hnone] at he
    cases he
  have hdigest : ∀ j, Store.Hex64 (Store.plainEnv.digest j) := by
    intro j
    show Store.Hex64 Store.genesisAuditHash
    decide +kernel
  constructor
  · refine (capture_stored_iff hs hcollectable hdigest _).2 ⟨?_, ?_, ?_, ?_, ?_, ?_⟩ <;>
      decide +kernel
  · intro hstored
    exact ((capture_stored_iff hs hcollectable hdigest _).1 hstored).stopReason rfl

end AgentOrchestrator.Results
