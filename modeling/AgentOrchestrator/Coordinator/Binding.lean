import AgentOrchestrator.Coordinator.Intents
import AgentOrchestrator.Store.Sessions

/-!
# Write-ahead and binding

Whenever the provider holds a run, the intent of its key has left the status reserved on file, and
a bound intent has the run of the provider.  Both follow from what a call knows at each point
(`LaunchPc.Expects`, `ReconcilePc.Expects`), which no step of another call takes away (`Later`).
-/

namespace AgentOrchestrator.Coordinator

open Store

variable {env : Env}

/-! ## The store call of a call -/

variable (env) in
/-- The store call a `launch` makes when it resumes. -/
def LaunchPc.storeCall (request : AttributedLaunchRequest) :
    LaunchPc → Input → Option (Call × WriteOutcome)
  | .auditing audit, .store now uuid io _ => some (.appendSecurityAudit audit uuid now, io)
  | .reserving _, .store now _ io _ => some (.reserveLaunch (intentOf env request) now, io)
  | .bindingRecovered intent runId, .store now uuid io _ =>
    some (.updateLaunch intent.idempotencyKey .bound (some runId) none
      (some (intentAudit intent .allowed "launch_recovered")) uuid now, io)
  | .auditingIntent grant _, .store now uuid io _ =>
    some (.appendSecurityAudit (auditInput request .allowed "launch_intent" grant.projectId) uuid now,
      io)
  | .dispatching _ _, .store now uuid io _ =>
    some (.updateLaunch request.idempotencyKey .dispatching none none none uuid now, io)
  | .bindingLaunched _ intent runId, .store now uuid io _ =>
    some (.updateLaunch intent.idempotencyKey .bound (some runId) none
      (some (intentAudit intent .allowed "launch_started")) uuid now, io)
  | .recordingUnknown grant error, .store now uuid io _ =>
    some (.updateLaunch request.idempotencyKey .unknownOutcome none
      (some (env.redactText error.message))
      (some (auditInput request .failed error.reason grant.projectId)) uuid now, io)
  | _, _ => none

/-- The store call a `reconcile` makes when it resumes. -/
def ReconcilePc.storeCall : ReconcilePc → Input → Option (Call × WriteOutcome)
  | .auditing intent reason _ _, .store now uuid io _ =>
    some (.appendSecurityAudit (intentAudit intent .denied reason) uuid now, io)
  | .binding intent runId _ _, .store now uuid io _ =>
    some (.updateLaunch intent.idempotencyKey .bound (some runId) none
      (some (intentAudit intent .allowed "launch_recovered")) uuid now, io)
  | _, _ => none

/-- The file after a store call, if there is one. -/
def afterCall (env : Env) (disk : Disk) : Option (Call × WriteOutcome) → Disk
  | none => disk
  | some i => Store.step env.toEnv disk i

theorem launch_disk (request : AttributedLaunchRequest) (disk : Disk) (memory : List LaunchIntent)
    (pc : LaunchPc) (input : Input) :
    (pc.resume env request disk memory input).disk =
      afterCall env disk (pc.storeCall env request input) := by
  cases pc <;> cases input <;> try rfl
  case auditing.store => exact appendAudit_disk _ _ _ _ disk memory
  case reserving.store => exact reserve_disk _ _ _ disk memory
  case bindingRecovered.store => exact update_disk ..
  case auditingIntent.store => exact appendAudit_disk _ _ _ _ disk memory
  case dispatching.store =>
    simp only [LaunchPc.resume]
    split <;> exact update_disk ..
  case bindingLaunched.store => exact update_disk ..
  case recordingUnknown.store => exact update_disk ..

theorem reconcile_disk (disk : Disk) (memory : List LaunchIntent) (pc : ReconcilePc)
    (input : Input) :
    (pc.resume env disk memory input).disk = afterCall env disk (pc.storeCall input) := by
  cases pc <;> cases input <;> try rfl
  case auditing.store => exact appendAudit_disk _ _ _ _ disk memory
  case binding.store => exact update_disk ..

theorem moved_afterCall (disk : Disk) (i : Option (Call × WriteOutcome)) :
    Moved (intents disk) (intents (afterCall env disk i)) := by
  cases i with
  | none => exact .refl _
  | some i => exact moved_step disk i

/-! ## What a call knows -/

/-- The request is on file under its key and its hash. -/
def OnFile (env : Env) (disk : Disk) (request : AttributedLaunchRequest) : Prop :=
  ∃ i ∈ intents disk, i.idempotencyKey = request.idempotencyKey ∧
    i.requestHash = launchHash env request

variable (env) in
/-- What a `launch` knows at each point. -/
def LaunchPc.Expects (sys : System) (request : AttributedLaunchRequest) : LaunchPc → Prop
  | .authorizing | .auditing _ | .reserving _ | .threw => True
  | .lookingUp _ intent _ | .revalidating _ intent | .auditingIntent _ intent
  | .dispatching _ intent =>
    OnFile env sys.disk request ∧ intent.idempotencyKey = request.idempotencyKey
  | .calling _ intent => OnFile env sys.disk request ∧
    intent.idempotencyKey = request.idempotencyKey
  | .reauthorizing intent runId | .bindingRecovered intent runId
  | .bindingLaunched _ intent runId => OnFile env sys.disk request ∧
    intent.idempotencyKey = request.idempotencyKey ∧ sys.runs request.idempotencyKey = some runId
  | .recordingUnknown _ _ | .returned _ => OnFile env sys.disk request

/-- What a `reconcile` knows at each point. -/
def ReconcilePc.Expects (sys : System) : ReconcilePc → Prop
  | .authorizing intent runId _ _ | .binding intent runId _ _ =>
    sys.runs intent.idempotencyKey = some runId
  | _ => True

variable (env) in
def Activity.Expects (sys : System) : Activity → Prop
  | .launch request pc => pc.Expects env sys request
  | .reconcile pc => pc.Expects sys

/-- What no step takes away. -/
structure Later (sys sys' : System) : Prop where
  moved : Moved (intents sys.disk) (intents sys'.disk)
  sent : ∀ key, sys.sent key = true → sys'.sent key = true
  runs : ∀ key r, sys.runs key = some r → sys'.runs key = some r

theorem OnFile.moved {disk disk' : Disk} {request : AttributedLaunchRequest}
    (h : OnFile env disk request) (hmoved : Moved (intents disk) (intents disk')) :
    OnFile env disk' request := by
  obtain ⟨i, hi, hkey, hhash⟩ := h
  obtain ⟨j, hj, hij⟩ := hmoved i hi
  exact ⟨j, hj, hij.key.trans hkey, hij.hash.trans hhash⟩

theorem Activity.Expects.later {sys sys' : System} {activity : Activity}
    (h : activity.Expects env sys) (hlater : Later sys sys') : activity.Expects env sys' := by
  have hfile : ∀ {request}, OnFile env sys.disk request → OnFile env sys'.disk request :=
    fun h => h.moved hlater.moved
  cases activity with
  | launch request pc =>
    cases pc with
    | authorizing | auditing | reserving | threw => trivial
    | lookingUp | revalidating | auditingIntent | dispatching | calling => exact ⟨hfile h.1, h.2⟩
    | reauthorizing | bindingRecovered | bindingLaunched =>
      exact ⟨hfile h.1, h.2.1, hlater.runs _ _ h.2.2⟩
    | recordingUnknown | returned => exact hfile h
  | reconcile pc =>
    cases pc with
    | authorizing | binding => exact hlater.runs _ _ h
    | _ => trivial

theorem Activity.Expects.end {sys : System} {activity : Activity} (h : activity.Expects env sys) :
    activity.end.Expects env sys := by
  cases activity with
  | launch request pc =>
    cases pc with
    | returned => exact h
    | _ => trivial
  | reconcile pc =>
    cases pc with
    | returned => exact h
    | _ => trivial

theorem expects_advance (sys : System) : ∀ (todo reconciled : List LaunchIntent),
    (advance todo reconciled).Expects sys
  | [], _ => trivial
  | intent :: todo, reconciled => by
    unfold advance
    split_ifs
    · exact expects_advance sys todo reconciled
    · trivial

/-! ## The provider -/

/-- The answer of the provider is the one it holds for the key. -/
def LaunchPc.honest (runs : Launch.ProviderRuns) (request : AttributedLaunchRequest) :
    LaunchPc → Input → Bool
  | .lookingUp .., .lookup (.ok found) => found = runs request.idempotencyKey
  | .calling .., .launched (.ok runId) => runs request.idempotencyKey = some runId
  | _, _ => true

def ReconcilePc.honest (runs : Launch.ProviderRuns) : ReconcilePc → Input → Bool
  | .lookingUp intent _ _, .lookup (.ok found) => found = runs intent.idempotencyKey
  | _, _ => true

/-- The contract of the adapter: a lookup returns the run accepted for the key, or nothing when there
is none, and a launch returns the run accepted for the key; any call may fail. -/
def contract (sys : System) : Act → Bool
  | .resume call input =>
    match sys.frames call with
    | some ⟨_, .launch request pc⟩ => pc.honest sys.runs request input
    | some ⟨_, .reconcile pc⟩ => pc.honest sys.runs input
    | none => true
  | _ => true

/-! ## A call goes on -/

section Resume

variable {sys sys' : System} {memory : List LaunchIntent} {input : Input}

theorem launch_expects {request : AttributedLaunchRequest} {pc : LaunchPc}
    (h : pc.Expects env sys request) (hhonest : pc.honest sys.runs request input = true)
    (hlater : Later sys sys')
    (hdisk : sys'.disk = (pc.resume env request sys.disk memory input).disk) :
    (pc.resume env request sys.disk memory input).pc.Expects env sys' request := by
  have hfile : OnFile env sys.disk request → OnFile env sys'.disk request :=
    fun h => h.moved hlater.moved
  have hstart : Activity.Expects env sys (.launch request pc) := h
  have hsame : Activity.Expects env sys' (.launch request pc) := hstart.later hlater
  cases pc <;> cases input <;> try exact hsame
  case authorizing.authorizer answer =>
    cases answer <;> trivial
  case auditing.store =>
    simp only [LaunchPc.resume, Stored.then]
    split <;> trivial
  case reserving.store grant now uuid io failure =>
    simp only [LaunchPc.resume, Stored.then] at hdisk ⊢
    split
    · rename_i value hresult
      obtain ⟨intent, created⟩ := value
      obtain ⟨hkey, hhash, hmem⟩ := reserve_ok hresult
      have honfile : OnFile env sys'.disk request := ⟨intent, hdisk ▸ hmem, hkey, hhash⟩
      dsimp only
      split_ifs
      · exact honfile
      · exact ⟨honfile, hkey⟩
    · trivial
  case lookingUp.lookup grant intent created answer =>
    cases answer with
    | error e => trivial
    | ok found =>
      have hfound : found = sys.runs request.idempotencyKey := of_decide_eq_true hhonest
      simp only [LaunchPc.resume]
      cases found with
      | none =>
        dsimp only
        split_ifs
        · trivial
        · exact ⟨hfile h.1, h.2⟩
      | some runId =>
        dsimp only
        split_ifs
        · trivial
        · exact ⟨hfile h.1, h.2, hlater.runs _ _ hfound.symm⟩
  case reauthorizing.authorizer intent runId answer =>
    cases answer with
    | error e => trivial
    | ok grant => exact hsame
  case bindingRecovered.store =>
    simp only [LaunchPc.resume, Stored.then]
    split
    · exact hfile h.1
    · trivial
  case revalidating.revalidated grant intent answer =>
    cases answer with
    | error e => trivial
    | ok u => exact hsame
  case auditingIntent.store =>
    simp only [LaunchPc.resume, Stored.then]
    split
    · exact ⟨hfile h.1, h.2⟩
    · trivial
  case dispatching.store =>
    simp only [LaunchPc.resume]
    split
    · exact ⟨hfile h.1, h.2⟩
    · exact hfile h.1
    · trivial
  case calling.launched grant intent answer =>
    cases answer with
    | error e => exact hfile h.1
    | ok runId =>
      have hrun : sys.runs request.idempotencyKey = some runId := of_decide_eq_true hhonest
      exact ⟨hfile h.1, h.2, hlater.runs _ _ hrun⟩
  case bindingLaunched.store =>
    simp only [LaunchPc.resume, Stored.then]
    split
    · exact hfile h.1
    · exact hfile h.1
  case recordingUnknown.store =>
    simp only [LaunchPc.resume, Stored.then]
    split <;> trivial

theorem reconcile_expects {pc : ReconcilePc} (h : pc.Expects sys)
    (hhonest : pc.honest sys.runs input = true) (hlater : Later sys sys') :
    (pc.resume env sys.disk memory input).pc.Expects sys' := by
  have hstart : Activity.Expects env sys (.reconcile pc) := h
  have hsame : Activity.Expects env sys' (.reconcile pc) := hstart.later hlater
  cases pc <;> cases input <;> try exact hsame
  case lookingUp.lookup intent todo reconciled answer =>
    cases answer with
    | error e => trivial
    | ok found =>
      have hfound : found = sys.runs intent.idempotencyKey := of_decide_eq_true hhonest
      simp only [ReconcilePc.resume]
      cases found with
      | none => exact expects_advance sys' _ _
      | some runId =>
        dsimp only
        split_ifs
        · trivial
        · exact hlater.runs _ _ hfound.symm
  case authorizing.authorizer intent runId todo reconciled answer =>
    cases answer with
    | error e => trivial
    | ok grant => exact hsame
  case auditing.store =>
    simp only [ReconcilePc.resume, Stored.then]
    split
    · exact expects_advance sys' _ _
    · trivial
  case binding.store =>
    simp only [ReconcilePc.resume, Stored.then]
    split
    · exact expects_advance sys' _ _
    · trivial

/-- A `launch` binds its intent to the run of the provider only. -/
theorem launch_binds {request : AttributedLaunchRequest} {pc : LaunchPc}
    (h : pc.Expects env sys request) :
    ∀ i ∈ pc.storeCall env request input, Binds sys.runs i.1 := by
  cases pc <;> cases input <;> try (intro i hi; cases hi; done)
  all_goals
    intro i hi
    cases hi
    first
      | trivial
      | (intro hbound; cases hbound; done)
      | (intro; exact ⟨_, rfl, h.2.1 ▸ h.2.2⟩)

theorem reconcile_binds {pc : ReconcilePc} (h : pc.Expects sys) :
    ∀ i ∈ pc.storeCall input, Binds sys.runs i.1 := by
  cases pc <;> cases input <;> try (intro i hi; cases hi; done)
  all_goals
    intro i hi
    cases hi
    first
      | trivial
      | exact fun _ => ⟨_, rfl, h⟩

theorem boundTo_afterCall {disk : Disk} {runs : Launch.ProviderRuns} {i : Option (Call × WriteOutcome)}
    (h : BoundTo runs (intents disk)) (hi : ∀ c ∈ i, Binds runs c.1) :
    BoundTo runs (intents (afterCall env disk i)) := by
  cases i with
  | none => exact h
  | some c => exact boundTo_step h (hi c rfl) c.2

/-- A `launch` that calls the provider has left the status reserved on file. -/
theorem begun_of_sends {request : AttributedLaunchRequest} {pc : LaunchPc} {disk : Disk}
    (h : (pc.resume env request disk memory input).sends = true) :
    ∃ i ∈ intents (pc.resume env request disk memory input).disk,
      i.idempotencyKey = request.idempotencyKey ∧ i.status ≠ .reserved := by
  cases pc <;> cases input <;> try cases h
  case dispatching.store grant intent now uuid io failure =>
    simp only [LaunchPc.resume] at h ⊢
    split at h
    · rename_i value hresult _
      obtain ⟨hkey, hstatus, -, hmem⟩ := update_ok hresult
      exact ⟨value, hmem, hkey, by rw [hstatus]; nofun⟩
    · cases h
    · cases h

theorem reconcile_sends {pc : ReconcilePc} {disk : Disk} :
    (pc.resume env disk memory input).sends = false := by
  cases pc <;> cases input <;> rfl

end Resume

/-! ## The invariant -/

/-- **The invariant of the coordinator.** -/
structure Sound (env : Env) (sys : System) : Prop where
  valid : Valid env.toEnv sys.disk
  /-- A key the provider has been sent has an intent that is not reserved any more. -/
  ahead : ∀ key, sys.sent key = true →
    ∃ i ∈ intents sys.disk, i.idempotencyKey = key ∧ i.status ≠ .reserved
  held : ∀ key, sys.runs key ≠ none → sys.sent key = true
  bound : BoundTo sys.runs (intents sys.disk)
  frames : ∀ call f, sys.frames call = some f → f.activity.Expects env sys

theorem Later.of_eq {sys sys' : System} (hdisk : sys'.disk = sys.disk) (hsent : sys'.sent = sys.sent)
    (hruns : sys'.runs = sys.runs) : Later sys sys' := by
  refine ⟨?_, ?_, ?_⟩
  · rw [hdisk]
    exact .refl _
  · rw [hsent]
    exact fun _ h => h
  · rw [hruns]
    exact fun _ _ h => h

theorem begun_moved {l l' : List LaunchIntent} (h : Moved l l') {key : String}
    (hbegun : ∃ i ∈ l, i.idempotencyKey = key ∧ i.status ≠ .reserved) :
    ∃ i ∈ l', i.idempotencyKey = key ∧ i.status ≠ .reserved := by
  obtain ⟨i, hi, hkey, hstatus⟩ := hbegun
  obtain ⟨j, hj, hij⟩ := h i hi
  exact ⟨j, hj, hij.key.trans hkey, hij.begun hstatus⟩

theorem valid_afterCall {disk : Disk} (h : Valid env.toEnv disk) (i : Option (Call × WriteOutcome)) :
    Valid env.toEnv (afterCall env disk i) := by
  cases i with
  | none => exact h
  | some i => exact valid_step env.toEnv disk i h

/-- The frames after one of them was set. -/
theorem expects_update {sys sys' : System} {call : ℕ} {frame : Frame}
    (h : ∀ c f, sys.frames c = some f → f.activity.Expects env sys) (hlater : Later sys sys')
    (hframe : frame.activity.Expects env sys')
    (hframes : sys'.frames = Function.update sys.frames call (some frame)) :
    ∀ c f, sys'.frames c = some f → f.activity.Expects env sys' := by
  intro c f hf
  rw [hframes] at hf
  by_cases hc : c = call
  · rw [hc, Function.update_self] at hf
    cases hf
    exact hframe
  · rw [Function.update_of_ne hc] at hf
    exact (h c f hf).later hlater

theorem sound_setFrame {sys : System} (h : Sound env sys) (call : ℕ) {frame : Frame}
    (hframe : frame.activity.Expects env sys) : Sound env (sys.setFrame call frame) := by
  have hlater : Later sys (sys.setFrame call frame) := .of_eq rfl rfl rfl
  exact ⟨h.valid, h.ahead, h.held, h.bound,
    expects_update h.frames hlater (hframe.later hlater) rfl⟩

/-- A call that resumes with a store call that binds what the provider holds. -/
theorem sound_apply {α : Type} {sys : System} (h : Sound env sys) {call store : ℕ} {key : String}
    {e : Effect α} {activity : α → Activity} {i : Option (Call × WriteOutcome)}
    (hdisk : e.disk = afterCall env sys.disk i) (hbinds : ∀ c ∈ i, Binds sys.runs c.1)
    (hsends : e.sends = true → ∃ j ∈ intents e.disk, j.idempotencyKey = key ∧ j.status ≠ .reserved)
    (hexpects : Later sys (sys.apply call store key e activity) →
      (activity e.pc).Expects env (sys.apply call store key e activity)) :
    Sound env (sys.apply call store key e activity) := by
  have hmoved : Moved (intents sys.disk) (intents e.disk) := by
    rw [hdisk]
    exact moved_afterCall _ _
  have hsent : ∀ k, (sys.apply call store key e activity).sent k = true ↔
      sys.sent k = true ∨ (e.sends = true ∧ k = key) := by
    intro k
    show (if e.sends then Function.update sys.sent key true else sys.sent) k = true ↔ _
    by_cases hk : k = key
    · subst hk
      split_ifs with hs
      · simp [hs]
      · simp [hs]
    · split_ifs with hs
      · rw [Function.update_of_ne hk]
        simp [hk]
      · simp [hk]
  have hlater : Later sys (sys.apply call store key e activity) :=
    ⟨hmoved, fun k hk => (hsent k).2 (Or.inl hk), fun _ _ hr => hr⟩
  refine ⟨?_, ?_, ?_, ?_, ?_⟩
  · show Valid env.toEnv e.disk
    rw [hdisk]
    exact valid_afterCall h.valid i
  · intro k hk
    rcases (hsent k).1 hk with hk | ⟨hs, rfl⟩
    · exact begun_moved hmoved (h.ahead k hk)
    · exact hsends hs
  · intro k hk
    exact (hsent k).2 (Or.inl (h.held k hk))
  · show BoundTo sys.runs (intents e.disk)
    rw [hdisk]
    exact boundTo_afterCall h.bound hbinds
  · exact expects_update h.frames hlater (hexpects hlater) rfl

theorem sound_step {sys : System} (h : Sound env sys) {act : Act} (hact : contract sys act = true) :
    Sound env (step env sys act) := by
  cases act with
  | service store c io =>
    unfold step
    dsimp only
    split_ifs with hc
    · exact h
    · have hmoved : Moved (intents sys.disk) (intents (Store.step env.toEnv sys.disk (c, io))) :=
        moved_step _ _
      refine ⟨valid_step env.toEnv _ _ h.valid, ?_, h.held, ?_, ?_⟩
      · exact fun key hkey => begun_moved hmoved (h.ahead key hkey)
      · refine boundTo_step h.bound ?_ io
        cases c <;> trivial
      · exact fun call f hf => (h.frames call f hf).later ⟨hmoved, fun _ hk => hk, fun _ _ hr => hr⟩
  | launch call store request =>
    unfold step
    dsimp only
    split_ifs
    · refine sound_setFrame h call ?_
      show LaunchPc.Expects env _ request (LaunchPc.start env request)
      unfold LaunchPc.start
      split <;> trivial
    · exact h
  | reconcile call store =>
    unfold step
    dsimp only
    split_ifs
    · refine sound_setFrame h call ?_
      exact expects_advance sys _ _
    · exact h
  | resume call input =>
    unfold step
    dsimp only
    unfold contract at hact
    dsimp only at hact
    split
    · exact h
    · rename_i store request pc hframe
      rw [hframe] at hact
      have hexp : pc.Expects env sys request := h.frames call _ hframe
      exact sound_apply h (launch_disk request sys.disk _ pc input) (launch_binds hexp) begun_of_sends
        fun hlater => launch_expects hexp hact hlater rfl
    · rename_i store pc hframe
      rw [hframe] at hact
      have hexp : pc.Expects sys := h.frames call _ hframe
      refine sound_apply h (reconcile_disk sys.disk _ pc input) (reconcile_binds hexp) ?_
        fun hlater => reconcile_expects hexp hact hlater
      intro hsends
      rw [reconcile_sends] at hsends
      cases hsends
  | accept key runId =>
    unfold step
    dsimp only
    split_ifs with haccept
    · obtain ⟨hsent, hnone⟩ := haccept
      have hruns : ∀ k r, sys.runs k = some r →
          Function.update sys.runs key (some runId) k = some r := by
        intro k r hr
        have hne : k ≠ key := by
          rintro rfl
          rw [hnone] at hr
          cases hr
        rw [Function.update_of_ne hne]
        exact hr
      refine ⟨h.valid, h.ahead, ?_, ?_, ?_⟩
      · intro k hk
        by_cases hkey : k = key
        · rw [hkey]
          exact hsent
        · refine h.held k fun hnone => hk ?_
          exact (Function.update_of_ne hkey _ _).trans hnone
      · intro i hi hbound
        obtain ⟨hsome, hrun⟩ := h.bound i hi hbound
        obtain ⟨r, hr⟩ := Option.ne_none_iff_exists'.1 hsome
        refine ⟨hsome, ?_⟩
        rw [hr] at hrun ⊢
        exact (hruns _ r hrun.symm).symm
      · exact fun call f hf => (h.frames call f hf).later ⟨.refl _, fun _ hk => hk, hruns⟩
    · exact h
  | cut call =>
    unfold step
    dsimp only
    split
    · exact h
    · rename_i frame hframe
      refine sound_setFrame h call ?_
      exact (h.frames call frame hframe).end
  | crash store =>
    refine ⟨h.valid, h.ahead, h.held, h.bound, ?_⟩
    intro call f hf
    obtain ⟨frame, hframe, rfl⟩ := Option.map_eq_some_iff.1 hf
    have hexp : Activity.Expects env (step env sys (.crash store)) frame.activity :=
      (h.frames call frame hframe).later (.of_eq rfl rfl rfl)
    split_ifs
    · exact hexp.end
    · exact hexp

theorem sound_init : Sound env {} := by
  refine ⟨valid_none env.toEnv, ?_, ?_, ?_, ?_⟩
  · intro key hkey
    cases hkey
  · intro key hkey
    exact absurd rfl hkey
  · intro i hi
    cases hi
  · intro call f hf
    cases hf

theorem sound_run {acts : List Act}
    (h : Runs.Admissible (step env) (fun sys act => contract sys act = true) {} acts) :
    Sound env (Runs.run (step env) {} acts) :=
  Runs.run_invariant_of (step env) (P := Sound env) (fun _ _ hsys hact => sound_step hsys hact)
    sound_init h

/-! ## Bound for good -/

/-- The file after a step is the file before it, or the file after one call to the store. -/
theorem step_disk (sys : System) (act : Act) :
    ∃ i, (step env sys act).disk = afterCall env sys.disk i := by
  cases act with
  | service store c io =>
    unfold step
    dsimp only
    split_ifs
    · exact ⟨none, rfl⟩
    · exact ⟨some (c, io), rfl⟩
  | launch call store request =>
    unfold step
    dsimp only
    split_ifs <;> exact ⟨none, rfl⟩
  | reconcile call store =>
    unfold step
    dsimp only
    split_ifs <;> exact ⟨none, rfl⟩
  | resume call input =>
    unfold step
    dsimp only
    split
    · exact ⟨none, rfl⟩
    · exact ⟨_, launch_disk ..⟩
    · exact ⟨_, reconcile_disk ..⟩
  | accept key runId =>
    unfold step
    dsimp only
    split_ifs <;> exact ⟨none, rfl⟩
  | cut call =>
    unfold step
    dsimp only
    split <;> exact ⟨none, rfl⟩
  | crash store => exact ⟨none, rfl⟩

theorem moved_run (sys : System) (acts : List Act) :
    Moved (intents sys.disk) (intents (Runs.run (step env) sys acts).disk) := by
  refine Runs.run_related (step env) (I := fun _ => True)
    (R := fun sys sys' => Moved (intents sys.disk) (intents sys'.disk)) (fun _ => .refl _)
    (fun h h' => h.trans h') (fun _ _ _ => trivial) ?_ trivial acts
  intro sys act _
  obtain ⟨i, hi⟩ := @step_disk env sys act
  rw [hi]
  exact moved_afterCall _ _

theorem valid_run {sys : System} (h : Valid env.toEnv sys.disk) (acts : List Act) :
    Valid env.toEnv (Runs.run (step env) sys acts).disk := by
  refine Runs.run_invariant (step env) (P := fun sys => Valid env.toEnv sys.disk) ?_ h acts
  intro sys act hvalid
  obtain ⟨i, hi⟩ := @step_disk env sys act
  rw [hi]
  exact valid_afterCall hvalid i

/-! ## Conflicting requests -/

/-- The key of the request is on file under another hash. -/
def Conflicts (env : Env) (disk : Disk) (request : AttributedLaunchRequest) : Prop :=
  ∃ i ∈ intents disk, i.idempotencyKey = request.idempotencyKey ∧
    i.requestHash ≠ launchHash env request

theorem Conflicts.not_onFile {disk : Disk} {request : AttributedLaunchRequest}
    (h : Conflicts env disk request) (hvalid : Valid env.toEnv disk) :
    ¬ OnFile env disk request := by
  obtain ⟨i, hi, hkey, hhash⟩ := h
  rintro ⟨j, hj, hjkey, hjhash⟩
  have hsame : i = j := Keyed.eq_of_key hvalid.uniqueKeys hi hj (hkey.trans hjkey.symm)
  rw [hsame] at hhash
  exact hhash hjhash

/-- The reservation of a conflicting request throws. -/
theorem Conflicts.threw {disk : Disk} {request : AttributedLaunchRequest}
    (h : Conflicts env disk request) (hvalid : Valid env.toEnv disk) (grant : Launch.Grant)
    (memory : List LaunchIntent) (now : Timestamp) (uuid : String) (io : WriteOutcome)
    (failure : String) :
    (LaunchPc.resume env request disk memory (.reserving grant) (.store now uuid io failure)).pc =
      .threw := by
  simp only [LaunchPc.resume, Stored.then]
  split
  · rename_i value hresult
    obtain ⟨intent, created⟩ := value
    obtain ⟨hkey, hhash, hmem⟩ := reserve_ok hresult
    rw [reserve_disk] at hmem
    have honfile : OnFile env (Store.step env.toEnv disk (.reserveLaunch (intentOf env request) now, io))
        request := ⟨intent, hmem, hkey, hhash⟩
    -- The conflicting intent is still on file, under a key that is unique.
    obtain ⟨i, hi, hikey, hihash⟩ := h
    obtain ⟨j, hj, hij⟩ := moved_step disk (.reserveLaunch (intentOf env request) now, io) i hi
    have hconflict : Conflicts env (Store.step env.toEnv disk
        (.reserveLaunch (intentOf env request) now, io)) request :=
      ⟨j, hj, hij.key.trans hikey, by rw [hij.hash]; exact hihash⟩
    exact absurd honfile (hconflict.not_onFile (valid_step env.toEnv _ _ hvalid))
  · rfl

/-- The points of a `launch` before it has called the provider, and where it has thrown. -/
def LaunchPc.Rejecting : LaunchPc → Prop
  | .authorizing | .auditing _ | .reserving _ | .threw => True
  | _ => False

theorem LaunchPc.Expects.onFile {sys : System} {request : AttributedLaunchRequest} {pc : LaunchPc}
    (h : pc.Expects env sys request) : pc.Rejecting ∨ OnFile env sys.disk request := by
  cases pc with
  | authorizing | auditing | reserving | threw => exact Or.inl trivial
  | recordingUnknown | returned => exact Or.inr h
  | _ => exact Or.inr h.1

/-- **Write-ahead and binding.** In every run in which the adapter honours its contract: a key with
a run has an intent that is dispatching, unknown or bound; a bound intent has the run of the
provider, and keeps it through every further run; a launch whose key is on file under another hash,
now or later, stands at no call to the provider and has not returned, and its reservation throws. -/
theorem write_ahead_and_binding (env : Env) (acts : List Act)
    (h : Runs.Admissible (step env) (fun sys act => contract sys act = true) {} acts) :
    (∀ key, (Runs.run (step env) {} acts).runs key ≠ none →
      ∃ i ∈ intents (Runs.run (step env) {} acts).disk, i.idempotencyKey = key ∧
        (i.status = .dispatching ∨ i.status = .unknownOutcome ∨ i.status = .bound)) ∧
    (∀ i ∈ intents (Runs.run (step env) {} acts).disk, i.status = .bound →
      (∃ r, i.runId = some r ∧ (Runs.run (step env) {} acts).runs i.idempotencyKey = some r) ∧
      ∀ more, ∃ j ∈ intents (Runs.run (step env) {} (acts ++ more)).disk,
        j.idempotencyKey = i.idempotencyKey ∧ j.status = .bound ∧ j.runId = i.runId) ∧
    ∀ call store request pc,
      (Runs.run (step env) {} acts).frames call = some ⟨store, .launch request pc⟩ →
      (∀ more, Conflicts env (Runs.run (step env) {} (acts ++ more)).disk request → pc.Rejecting) ∧
      (Conflicts env (Runs.run (step env) {} acts).disk request → ∀ grant, pc = .reserving grant →
        ∀ memory now uuid io failure, (pc.resume env request (Runs.run (step env) {} acts).disk memory
          (.store now uuid io failure)).pc = .threw) := by
  have hsound := sound_run h
  refine ⟨?_, ?_, ?_⟩
  · intro key hkey
    obtain ⟨i, hi, hikey, hstatus⟩ := hsound.ahead key (hsound.held key hkey)
    refine ⟨i, hi, hikey, ?_⟩
    cases hst : i.status with
    | reserved => exact absurd hst hstatus
    | dispatching => exact Or.inl rfl
    | unknownOutcome => exact Or.inr (Or.inl rfl)
    | bound => exact Or.inr (Or.inr rfl)
  · intro i hi hbound
    obtain ⟨hsome, hrun⟩ := hsound.bound i hi hbound
    obtain ⟨r, hr⟩ := Option.ne_none_iff_exists'.1 hsome
    refine ⟨⟨r, hr, by rw [← hrun, hr]⟩, fun more => ?_⟩
    rw [Runs.run_append]
    obtain ⟨j, hj, hij⟩ := @moved_run env (Runs.run (step env) {} acts) more i hi
    obtain ⟨hjbound, hjrun⟩ := hij.bound hbound
    exact ⟨j, hj, hij.key, hjbound, hjrun⟩
  · intro call store request pc hframe
    have hexp : pc.Expects env _ request := hsound.frames call _ hframe
    constructor
    · intro more hconflicts
      rcases hexp.onFile with hrejecting | honfile
      · exact hrejecting
      · -- Past its reservation a launch has its own hash on file, for good.
        rw [Runs.run_append] at hconflicts
        exact absurd (honfile.moved (moved_run _ more))
          (hconflicts.not_onFile (valid_run hsound.valid more))
    · rintro hconflicts grant rfl memory now uuid io failure
      exact hconflicts.threw hsound.valid grant memory now uuid io failure

/-! ## A launch on record -/

def plainEnv : Env := { Store.plainEnv with launchDigest := fun _ => genesisAuditHash }

def sampleRequest : AttributedLaunchRequest :=
  { idempotencyKey := "k1", prompt := "p", workspaceId := "w1", sessionId := "s1", batchId := "b1",
    workerId := "s1", attribution := sampleAttribution }

def sampleGrant : Launch.Grant := { canonicalPath := "/w", workspaceId := "w1", projectId := none }

/-- A store call that succeeds. -/
def stored (uuid : String) : Input := .store "2026-01-02" uuid .written ""

/-- The sample launch goes as far as the call to the provider, which accepts it. -/
def sampleAccepted : List Act :=
  [.launch 0 0 sampleRequest, .resume 0 (.authorizer (.ok sampleGrant)), .resume 0 (stored "u1"),
    .resume 0 (.lookup (.ok none)), .resume 0 (.revalidated (.ok ())), .resume 0 (stored "u2"),
    .resume 0 (stored "u3"), .accept "k1" "run-1"]

/-- The sample launch is bound to its run. -/
def sampleBound : List Act :=
  sampleAccepted ++ [.resume 0 (.launched (.ok "run-1")), .resume 0 (stored "u4")]

theorem write_ahead_and_binding_sample :
    Runs.Admissible (step plainEnv) (fun sys act => contract sys act = true) {} sampleBound ∧
      (Runs.run (step plainEnv) {} sampleBound).runs "k1" ≠ none ∧
      (∃ i ∈ intents (Runs.run (step plainEnv) {} sampleBound).disk, i.idempotencyKey = "k1" ∧
        (i.status = .dispatching ∨ i.status = .unknownOutcome ∨ i.status = .bound)) ∧
      ∃ i ∈ intents (Runs.run (step plainEnv) {} sampleBound).disk, i.status = .bound ∧
        ∀ more, ∃ j ∈ intents (Runs.run (step plainEnv) {} (sampleBound ++ more)).disk,
          j.idempotencyKey = i.idempotencyKey ∧ j.status = .bound ∧ j.runId = i.runId := by
  have hrun : Runs.Admissible (step plainEnv) (fun sys act => contract sys act = true) {}
      sampleBound := by decide +kernel
  have hheld : (Runs.run (step plainEnv) {} sampleBound).runs "k1" ≠ none := by decide +kernel
  have hbound : ∃ i ∈ intents (Runs.run (step plainEnv) {} sampleBound).disk,
      i.status = .bound := by decide +kernel
  obtain ⟨hahead, hkept, -⟩ := write_ahead_and_binding plainEnv sampleBound hrun
  obtain ⟨i, hi, hstatus⟩ := hbound
  exact ⟨hrun, hheld, hahead "k1" hheld, i, hi, hstatus, (hkept i hi hstatus).2⟩

end AgentOrchestrator.Coordinator
