import AgentOrchestrator.Launch.Invariant
import AgentOrchestrator.Store.Sessions

/-!
# A failed launch and the runs of the provider

A launch should be recorded as failed only while the provider holds no run for its key.  The
dispatch looks the key up before it gives up on a launch, except when the workspace authorizer
refuses a launch that is being recovered: that refusal is recorded without a lookup.  Runs without
such a refusal keep the promise, for every provider that honours its contract
(`failed_only_without_run`).
-/

namespace AgentOrchestrator.Launch

open Store

variable {env : Env}

/-! ## The contract of the provider -/

/-- A lookup answers with the run of the key, or that there is none, or throws. -/
def HonestLookup (runs : ProviderRuns) (key : String) : Except LaunchError Handle → Prop
  | .error e => e ≠ .malformedRunHandle
  | .ok .undefined => runs key = none
  | .ok .malformed => False
  | .ok (.run runId) => runId ≠ "" ∧ runs key = some runId

/-- A launch creates a run only when there is none for the key, and answers with the run of the
key or throws. -/
def HonestLaunch (runs : ProviderRuns) (key : String) (created : Option String) :
    Except LaunchError Handle → Prop
  | .error e => (∀ runId ∈ created, runId ≠ "" ∧ runs key = none) ∧ e ≠ .malformedRunHandle
  | .ok .undefined => False
  | .ok .malformed => False
  | .ok (.run runId) => (∀ runId ∈ created, runId ≠ "" ∧ runs key = none) ∧ runId ≠ "" ∧
      created.or (runs key) = some runId

instance (runs : ProviderRuns) (key : String) :
    ∀ answer, Decidable (HonestLookup runs key answer)
  | .error e => inferInstanceAs (Decidable (e ≠ .malformedRunHandle))
  | .ok .undefined => inferInstanceAs (Decidable (runs key = none))
  | .ok .malformed => inferInstanceAs (Decidable False)
  | .ok (.run runId) => inferInstanceAs (Decidable (runId ≠ "" ∧ runs key = some runId))

instance (runs : ProviderRuns) (key : String) (created : Option String) :
    ∀ answer, Decidable (HonestLaunch runs key created answer)
  | .error e => inferInstanceAs (Decidable
      ((∀ runId ∈ created, runId ≠ "" ∧ runs key = none) ∧ e ≠ .malformedRunHandle))
  | .ok .undefined => inferInstanceAs (Decidable False)
  | .ok .malformed => inferInstanceAs (Decidable False)
  | .ok (.run runId) => inferInstanceAs (Decidable
      ((∀ runId ∈ created, runId ≠ "" ∧ runs key = none) ∧ runId ≠ "" ∧
        created.or (runs key) = some runId))

/-- The input honours the contract where the dispatch waits for the provider. -/
def Pc.Honest (runs : ProviderRuns) : Pc → Input → Prop
  | .lookingUp a _, .lookup answer => HonestLookup runs a.idempotencyKey answer
  | .recovering a _ _, .lookup answer => HonestLookup runs a.idempotencyKey answer
  | .calling _ _ request, .launch created answer =>
    HonestLaunch runs request.idempotencyKey created answer
  | _, _ => True

instance (runs : ProviderRuns) (pc : Pc) (input : Input) : Decidable (pc.Honest runs input) := by
  unfold Pc.Honest
  split <;> infer_instance

/-- The adapter honours its contract at the step. -/
def Contract (sys : System) : Act → Prop
  | .resume d input => ∀ f ∈ (sys.dispatchers d).frame, f.pc.Honest sys.runs input
  | _ => True

instance (sys : System) (act : Act) : Decidable (Contract sys act) := by
  unfold Contract
  split <;> infer_instance

/-! ## Refusals without a lookup -/

/-- The check of the workspace fails in a way that no retry mends. -/
def refusedForGood (a : Assignment) (answer : Authorization) : Bool :=
  match authorize a answer with
  | .error refusal => !refusal.retryable
  | .ok _ => false

/-- The authorizer refuses for good a launch that is being recovered and that has a run. -/
def Pc.BlindRefusal (runs : ProviderRuns) : Pc → Input → Prop
  | .authorizing a, .authorizer answer => a.status = .launching ∧
      refusedForGood a answer = true ∧ runs a.idempotencyKey ≠ none
  | _, _ => False

instance (runs : ProviderRuns) (pc : Pc) (input : Input) :
    Decidable (pc.BlindRefusal runs input) := by
  unfold Pc.BlindRefusal
  split <;> infer_instance

/-- The step is a refusal without a lookup of a launch that has a run. -/
def BlindRefusal (sys : System) : Act → Prop
  | .resume d input => ∃ f ∈ (sys.dispatchers d).frame, f.pc.BlindRefusal sys.runs input
  | _ => False

instance (sys : System) (act : Act) : Decidable (BlindRefusal sys act) := by
  unfold BlindRefusal
  split <;> infer_instance

/-- A dispatch about to record a failure knows that there is no run. -/
def Pc.Clear (runs : ProviderRuns) : Pc → Prop
  | .failingRefused a _ | .failing a _ _ _ => runs a.idempotencyKey = none
  | _ => True

/-- An assignment that is still accepted has no run. -/
theorem no_run_of_accepted {sys : System} (h : Sound env sys) {id : String} {a : Assignment}
    (hon : On (contents sys.disk) id a .accepted) : sys.runs a.idempotencyKey = none := by
  by_contra hrun
  obtain ⟨b, hb, hbk, hbst⟩ := h.evidence _ hrun
  obtain ⟨-, c, hc, -, hck, -, hcst⟩ := hon
  obtain rfl := Keyed.eq_of_key h.keys hb hc (hbk.trans hck.symm)
  exact hbst hcst

/-- An honest lookup that finds no run is right. -/
theorem HonestLookup.absent {runs : ProviderRuns} {key : String}
    {answer : Except LaunchError Handle} (h : HonestLookup runs key answer)
    (ha : checkedHandle answer = .ok none) : runs key = none := by
  cases answer with
  | error e => cases ha
  | ok handle =>
    cases handle with
    | undefined => exact h
    | malformed => cases ha
    | run runId =>
      unfold checkedHandle validRunHandle at ha
      dsimp only at ha
      split_ifs at ha
      cases ha

theorem HonestLookup.wellFormed {runs : ProviderRuns} {key : String}
    {answer : Except LaunchError Handle} (h : HonestLookup runs key answer) :
    checkedHandle answer ≠ .error .malformedRunHandle := by
  intro ha
  cases answer with
  | error e => exact h (Except.error.inj ha)
  | ok handle =>
    cases handle with
    | undefined => cases ha
    | malformed => exact h
    | run runId =>
      unfold checkedHandle validRunHandle at ha
      dsimp only at ha
      rw [if_neg h.1] at ha
      cases ha

theorem HonestLaunch.defined {runs : ProviderRuns} {key : String} {created : Option String}
    {answer : Except LaunchError Handle} (h : HonestLaunch runs key created answer) :
    checkedHandle answer ≠ .ok none := by
  intro ha
  cases answer with
  | error e => cases ha
  | ok handle =>
    cases handle with
    | undefined => exact h
    | malformed => exact h
    | run runId =>
      unfold checkedHandle validRunHandle at ha
      dsimp only at ha
      split_ifs at ha
      cases ha

/-- A resumed dispatch that goes on to record a failure knows that there is no run. -/
theorem resume_clear {sys : System} (h : Sound env sys) {d : ℕ} {f : Frame} {input : Input}
    {pc : Pc} (hf : sys.FrameAt d f) (hclear : f.pc.Clear sys.runs)
    (honest : f.pc.Honest sys.runs input) (hseen : ¬ f.pc.BlindRefusal sys.runs input)
    (hpc : (f.pc.resume env f.id sys.disk sys.runs input).pc = some pc) :
    pc.Clear (f.pc.resume env f.id sys.disk sys.runs input).runs := by
  have hexp := h.frames d f hf
  have hcont := resume_continues hpc
  -- only a launch call adds a run
  have hkept : (∀ a grant request, f.pc ≠ .calling a grant request) → ∀ k, sys.runs k = none →
      (f.pc.resume env f.id sys.disk sys.runs input).runs k = none := by
    intro hcalls k hnone
    by_contra hrun
    rcases resume_runs hrun with hrun | ⟨a, grant, request, hcall, -⟩
    · exact hrun hnone
    · exact hcalls a grant request hcall
  generalize f.pc = pc₀ at *
  cases hcont with
  | waiting hwait =>
    rw [hwait]
    exact hclear
  | @refusedOld a answer refusal hst hr hretry =>
    -- The launch is being recovered and was refused for good.
    refine hkept (fun _ _ _ e => by cases e) a.idempotencyKey ?_
    by_contra hrun
    have hgood : refusedForGood a answer = true := by
      unfold refusedForGood
      rw [hr]
      exact Bool.not_eq_true' _ ▸ hretry
    exact hseen ⟨hexp.2.resolve_left hst, hgood, hrun⟩
  | @reservedRefused a _ _ _ _ _ _ ha₀ hmem =>
    exact hkept (fun _ _ _ e => by cases e) a.idempotencyKey (no_run_of_accepted h hexp)
  | launchedNothing hnone => exact absurd hnone (HonestLaunch.defined honest)
  | malformed hbad => exact absurd hbad honest.wellFormed
  | @rejected a _ _ _ message code hnone =>
    exact hkept (fun _ _ _ e => by cases e) a.idempotencyKey (HonestLookup.absent honest hnone)
  | _ => trivial

/-! ## Whole runs -/

/-- Every dispatch about to record a failure knows that there is no run. -/
def AllClear (sys : System) : Prop := ∀ d f, sys.FrameAt d f → f.pc.Clear sys.runs

/-- A run that another dispatch creates is for another key. -/
theorem clear_of_distinct {sys : System} (h : Sound env sys) {d d' : ℕ} {f g : Frame}
    (hf : sys.FrameAt d f) (hg : sys.FrameAt d' g) (hne : d' ≠ d) (hclear : g.pc.Clear sys.runs)
    (input : Input) : g.pc.Clear (f.pc.resume env f.id sys.disk sys.runs input).runs := by
  have hkey : ∀ a, On (contents sys.disk) g.id a .launching → sys.runs a.idempotencyKey = none →
      (f.pc.resume env f.id sys.disk sys.runs input).runs a.idempotencyKey = none := by
    rintro a ⟨-, b, hb, hbid, hbk, -⟩ hnone
    by_contra hrun
    rcases resume_runs hrun with hrun | ⟨c, grant, request, hpc, hck⟩
    · exact hrun hnone
    · have hexp := h.frames d f hf
      rw [hpc] at hexp
      obtain ⟨⟨-, b', hb', hbid', hbk', -⟩, hreq⟩ := hexp
      have hsame : b = b' :=
        Keyed.eq_of_key h.keys hb hb' (by rw [hbk, hbk', hck, hreq])
      exact h.owned.distinct hf hg hne (by rw [← hbid, ← hbid', hsame])
  have hexp := h.frames d' g hg
  generalize g.pc = pc at *
  cases pc with
  | failingRefused a refusal => exact hkey a hexp hclear
  | failing a grant message code => exact hkey a hexp hclear
  | _ => trivial

theorem allClear_step {sys : System} (h : Sound env sys) (hclear : AllClear sys) {act : Act}
    (hcontract : Contract sys act) (hseen : ¬ BlindRefusal sys act) :
    AllClear (step env sys act) := by
  intro d g hg
  rcases @step_world env sys act with ⟨-, hr, hidle⟩ | ⟨c, io, hact, -, -, hr⟩ |
      ⟨d', input, f, hact, hf, -, hr⟩
  · rw [hr]
    rcases frame_origin hg with ⟨hg, -⟩ | ⟨input, f, pc, hact, hf, -⟩ | ⟨-, -, -, hpc⟩
    · exact hclear d g hg
    · exact absurd hf (hidle d input f hact)
    · rw [hpc]
      trivial
  · rw [hr]
    rcases frame_origin hg with ⟨hg, -⟩ | ⟨input, f, pc, hact', -⟩ | ⟨-, -, -, hpc⟩
    · exact hclear d g hg
    · rw [hact] at hact'
      cases hact'
    · rw [hpc]
      trivial
  · rw [hr]
    subst hact
    rcases frame_origin hg with ⟨hg, hne⟩ | ⟨input', f', pc, hact', hf', hpc, rfl⟩ | ⟨hact', -⟩
    · have hd : d ≠ d' := fun e => hne input (by rw [e])
      exact clear_of_distinct h hf hg hd (hclear d g hg) input
    · obtain ⟨rfl, rfl⟩ := Act.resume.inj hact'
      obtain rfl := Option.some.inj (hf.symm.trans hf')
      exact resume_clear h hf (hclear d' f hf) (hcontract f hf) (fun hb => hseen ⟨f, hf, hb⟩) hpc
    · cases hact'

/-- What a launch event does to the status of an assignment. -/
theorem launchEvent_status {disk : Disk} (hv : Valid env disk) {id : String}
    {target : LaunchTarget} {ev : LaunchAuditEvent} {audit : Option SecurityAuditInput}
    {uuid : String} {io : WriteOutcome} {a a' : Assignment} (ha : a ∈ (contents disk).assignments)
    (ha' : a' ∈ (contents (Store.step env disk
      (.recordLaunchEvent id target ev audit uuid, io))).assignments)
    (hid : a'.id = a.id) :
    a' = a ∨ (a.id = id ∧ (a'.status = target.status ∨ target = .launching)) := by
  rcases step_cases env disk (.recordLaunchEvent id target ev audit uuid) io with
    e | ⟨next, -, hn, -, e⟩
  · rw [e] at ha'
    exact Or.inl (Keyed.eq_of_key hv.uniqueAssignments ha' ha hid)
  · rw [e] at ha'
    obtain ⟨-, b, hb, hw⟩ := recordLaunchEvent_next hv.uniqueWorkers hn
    have hbid := Keyed.key_of_lookup hb
    obtain ⟨ht, -, hr⟩ | ⟨-, -, -, -, -, hadv⟩ := hw
    · replace ha' : a' ∈ Keyed.put (·.id) _ _ := hr.assignments ▸ ha'
      rcases Keyed.mem_put ha' with rfl | ⟨hmem, -⟩
      · exact Or.inr ⟨hid.symm.trans hbid, Or.inr ht⟩
      · exact Or.inl (Keyed.eq_of_key hv.uniqueAssignments hmem ha hid)
    · replace ha' : a' ∈ Keyed.put (·.id) _ _ := hadv.assignments ▸ ha'
      rcases Keyed.mem_put ha' with rfl | ⟨hmem, -⟩
      · exact Or.inr ⟨hid.symm.trans hbid, Or.inl rfl⟩
      · exact Or.inl (Keyed.eq_of_key hv.uniqueAssignments hmem ha hid)

/-- A dispatch that records a failure knows that there is no run. -/
theorem resume_failed {sys : System} (h : Sound env sys) {d : ℕ} {f : Frame} {input : Input}
    (hf : sys.FrameAt d f) (hclear : f.pc.Clear sys.runs) {a a' : Assignment}
    (ha : a ∈ (contents sys.disk).assignments)
    (ha' : a' ∈ (contents (f.pc.resume env f.id sys.disk sys.runs input).disk).assignments)
    (hid : a'.id = a.id) (hst : a.status ≠ .failed) (hst' : a'.status = .failed) :
    sys.runs a.idempotencyKey = none := by
  have hexp := h.frames d f hf
  have hunique := h.valid.uniqueAssignments
  have hne : a' ≠ a := fun e => hst (by rw [← e]; exact hst')
  -- The assignment of the dispatch is the one that changed.
  have hkey : ∀ {b status}, On (contents sys.disk) f.id b status → a.id = b.id →
      a.idempotencyKey = b.idempotencyKey := by
    rintro b status ⟨hb, c, hc, hcid, hck, -⟩ hab
    rw [Keyed.eq_of_key hunique ha hc (by rw [hab, hb, hcid]), hck]
  have haudit : ∀ {input uuid now io}, a' ∈ (contents (Store.step env sys.disk
      (.appendSecurityAudit input uuid now, io))).assignments → False := by
    intro input uuid now io hmem
    have hc : (Call.appendSecurityAudit input uuid now).isLaunchEvent = false := rfl
    rcases otherCall_assignments hc sys.disk io with e | ⟨e, -⟩
    · rw [e] at hmem
      exact hne (Keyed.eq_of_key hunique hmem ha hid)
    · rw [e, List.mem_append] at hmem
      rcases hmem with hmem | hmem
      · exact hne (Keyed.eq_of_key hunique hmem ha hid)
      · cases hmem
  have hidle : a' ∈ (contents sys.disk).assignments → False :=
    fun hmem => hne (Keyed.eq_of_key hunique hmem ha hid)
  rw [resume_disk] at ha'
  generalize f.pc = pc at *
  cases pc <;> cases input <;> try exact absurd ha' hidle
  case auditing.store => exact absurd ha' haudit
  case auditingIntent.store => exact absurd ha' haudit
  case reservingRefused.store =>
    obtain ⟨hab, -⟩ := (launchEvent_status h.valid ha ha' hid).resolve_left hne
    rw [hkey hexp hab]
    exact no_run_of_accepted h hexp
  case reserving.store =>
    obtain ⟨hab, -⟩ := (launchEvent_status h.valid ha ha' hid).resolve_left hne
    rw [hkey hexp hab]
    exact no_run_of_accepted h hexp
  case failingRefused.store =>
    obtain ⟨hab, -⟩ := (launchEvent_status h.valid ha ha' hid).resolve_left hne
    rw [hkey hexp hab]
    exact hclear
  case failing.store =>
    obtain ⟨hab, -⟩ := (launchEvent_status h.valid ha ha' hid).resolve_left hne
    rw [hkey hexp hab]
    exact hclear
  case recordingLaunched.store =>
    obtain ⟨-, hs | ht⟩ := (launchEvent_status h.valid ha ha' hid).resolve_left hne
    · rw [hst'] at hs
      cases hs
    · cases ht

/-- A step records a failure only for an assignment without a run, when every dispatch about to do
so knows that there is none. -/
theorem step_failed {sys : System} (h : Sound env sys) (hclear : AllClear sys) {act : Act}
    {a a' : Assignment} (ha : a ∈ (contents sys.disk).assignments)
    (ha' : a' ∈ (contents (step env sys act).disk).assignments) (hid : a'.id = a.id)
    (hst : a.status ≠ .failed) (hst' : a'.status = .failed) :
    sys.runs a.idempotencyKey = none := by
  have hunique := h.valid.uniqueAssignments
  rcases @step_world env sys act with ⟨hd, -⟩ | ⟨c, io, -, hc, hd, -⟩ | ⟨d, input, f, -, hf, hd, -⟩
  · rw [hd] at ha'
    rw [Keyed.eq_of_key hunique ha' ha hid] at hst'
    exact absurd hst' hst
  · obtain ⟨added, hbuilt, -, hadded⟩ := @service_assignments env sys c io hc
    rw [hd, hadded, List.mem_append] at ha'
    rcases ha' with ha' | ha'
    · rw [Keyed.eq_of_key hunique ha' ha hid] at hst'
      exact absurd hst' hst
    · obtain ⟨o, ho, rfl⟩ := List.mem_map.1 ha'
      rw [(hbuilt.records o ho).1] at hst'
      cases hst'
  · rw [hd] at ha'
    exact resume_failed h hf (hclear d f hf) ha ha' hid hst hst'

/-- The steps of a run that honours the contract and has no refusal without a lookup. -/
def SeenRefusals (sys : System) (act : Act) : Prop := Contract sys act ∧ ¬ BlindRefusal sys act

instance (sys : System) (act : Act) : Decidable (SeenRefusals sys act) :=
  inferInstanceAs (Decidable (Contract sys act ∧ ¬ BlindRefusal sys act))

theorem allClear_run {acts : List Act} (h : Runs.Admissible (step env) SeenRefusals {} acts) :
    AllClear (Runs.run (step env) {} acts) := by
  refine (Runs.run_invariant_of (step env) (P := fun sys => Sound env sys ∧ AllClear sys) ?_
    ⟨sound_init, ?_⟩ h).2
  · intro sys act hsys hact
    exact ⟨sound_step hsys.1 act, allClear_step hsys.1 hsys.2 hact.1 hact.2⟩
  · intro d f hf
    cases hf

/-- **A failed launch has no run.** When the provider honours its contract and no launch under
recovery is refused for good while it has a run, then every step that records an assignment as
failed does so while the provider holds no run for its key. -/
theorem failed_only_without_run {acts : List Act} {act : Act}
    (h : Runs.Admissible (step env) SeenRefusals {} (acts ++ [act])) {a a' : Assignment}
    (ha : a ∈ (contents (Runs.run (step env) {} acts).disk).assignments)
    (ha' : a' ∈ (contents (Runs.run (step env) {} (acts ++ [act])).disk).assignments)
    (hid : a'.id = a.id) (hst : a.status ≠ .failed) (hst' : a'.status = .failed) :
    (Runs.run (step env) {} acts).runs a.idempotencyKey = none := by
  have hclear := allClear_run ((Runs.admissible_append (step env)).1 h).1
  rw [Runs.run_append, Runs.run_cons, Runs.run_nil] at ha'
  exact step_failed (sound_run acts) hclear ha ha' hid hst hst'

/-! ## A launch on record -/

def sampleGrant : Grant := { canonicalPath := "/w", workspaceId := "w1", projectId := none }

/-- A store call that succeeds. -/
def stored (uuid : String) : Input := .store "2026-01-02" uuid .written ""

/-- The sample launch is accepted and a dispatcher goes as far as the call to the provider. -/
def sampleReserved : List Act :=
  [.service (.acceptLaunch sampleInput sampleBatch "u1") .written, .start 0, .lock 0,
    .resume 0 .read, .resume 0 (.authorizer (.ok sampleGrant)), .resume 0 (stored "u2"),
    .resume 0 (stored "u3")]

/-- The provider rejects the sample launch and reports no run for it. -/
def sampleRejected : List Act :=
  sampleReserved ++ [.resume 0 (.launch none (.error (.other "rejected" none "POLICY_DENIED"))),
    .resume 0 (.lookup (.ok .undefined))]

theorem failed_only_without_run_sample :
    ∃ a ∈ (contents (Runs.run (step plainEnv) {} sampleRejected).disk).assignments,
    ∃ a' ∈ (contents (Runs.run (step plainEnv) {}
        (sampleRejected ++ [.resume 0 (stored "u4")])).disk).assignments,
      a'.id = a.id ∧ a.status ≠ .failed ∧ a'.status = .failed ∧
      (Runs.run (step plainEnv) {} sampleRejected).runs a.idempotencyKey = none := by
  have hrun : Runs.Admissible (step plainEnv) SeenRefusals {}
      (sampleRejected ++ [.resume 0 (stored "u4")]) := by decide +kernel
  have hfailed : ∃ a ∈ (contents (Runs.run (step plainEnv) {} sampleRejected).disk).assignments,
      ∃ a' ∈ (contents (Runs.run (step plainEnv) {}
        (sampleRejected ++ [.resume 0 (stored "u4")])).disk).assignments,
        a'.id = a.id ∧ a.status ≠ .failed ∧ a'.status = .failed := by decide +kernel
  obtain ⟨a, ha, a', ha', hid, hst, hst'⟩ := hfailed
  exact ⟨a, ha, a', ha', hid, hst, hst', failed_only_without_run hrun ha ha' hid hst hst'⟩

/-- The dispatcher dies after the provider created the run; the next one is refused. -/
def sampleRefused : List Act :=
  sampleReserved ++ [.resume 0 (.launch (some "run-1") (.ok (.run "run-1"))), .crash 0 true,
    .start 1, .lock 1, .resume 1 .read,
    .resume 1 (.authorizer (.error
      { retryable := false, reason := "POLICY_DENIED", message := "denied" }))]

/-- The refusal of the recovered launch records it as failed although its run exists. -/
theorem failed_with_run :
    Runs.Admissible (step plainEnv) Contract {} (sampleRefused ++ [.resume 1 (stored "u4")]) ∧
    ∃ a ∈ (contents (Runs.run (step plainEnv) {} sampleRefused).disk).assignments,
    ∃ a' ∈ (contents (Runs.run (step plainEnv) {}
        (sampleRefused ++ [.resume 1 (stored "u4")])).disk).assignments,
      a'.id = a.id ∧ a.status ≠ .failed ∧ a'.status = .failed ∧
      (Runs.run (step plainEnv) {} sampleRefused).runs a.idempotencyKey = some "run-1" := by
  decide +kernel

end AgentOrchestrator.Launch
