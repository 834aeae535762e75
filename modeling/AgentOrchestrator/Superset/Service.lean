import AgentOrchestrator.Superset.OneAgent
import AgentOrchestrator.Launch.FailedLaunch

/-!
# The launch service over the live adapter

A `Service` is the launch system with the live adapter in the place of its provider: a dispatch
that waits for `launch` has a launch of the adapter in progress, and a dispatch that waits for a
lookup reads the run-state file.  `view` is the launch system as a provider with the sessions of
the adapter would leave it; in it, a session that may have been started counts as a run.
-/

namespace AgentOrchestrator.Superset

open Store (Env Assignment DurableState)

/-! ## The adapter in the place of the provider -/

/-- A failure of the adapter as the launch service sees it. -/
def Failure.launchError (e : Failure) : Launch.LaunchError :=
  .other e.thrown.message e.thrown.code e.thrown.reason

def lookupHandle : Except Failure (Option String) → Except Launch.LaunchError Launch.Handle
  | .error e => .error e.launchError
  | .ok none => .ok .undefined
  | .ok (some runId) => .ok (.run runId)

def replyHandle : Reply → Except Launch.LaunchError Launch.Handle
  | .error e => .error e.launchError
  | .ok runId => .ok (.run runId)

/-- The request of the launch service. -/
def liveRequest (request : Launch.LaunchRequest) : LaunchRequest :=
  { idempotencyKey := request.idempotencyKey, prompt := request.prompt,
    workspaceId := some request.workspaceId, agentPresetId := some request.agentPresetId }

structure Service where
  launch : Launch.System := {}
  adapter : System := {}

inductive ServiceAct where
  /-- The launch system does something that is not about the provider. -/
  | launch (act : Launch.Act)
  /-- A dispatch calls `launch`. -/
  | call (d : ℕ) (revalidation : Option Thrown)
  /-- A launch of the adapter goes on. -/
  | adapter (act : Act)
  /-- A launch of the adapter answers its dispatch. -/
  | answer (d : ℕ)
  /-- A dispatch calls `findByIdempotencyKey`. -/
  | lookup (d : ℕ) (readable : Bool)
  /-- A dispatch is cut off, with its launch of the adapter. -/
  | crash (d : ℕ) (restart : Bool)

/-- The steps of the launch system that neither wait for the provider nor cut a dispatch off. -/
def ownAct : Launch.Act → Bool
  | .resume _ (.lookup _) | .resume _ (.launch _ _) | .crash _ _ => false
  | _ => true

/-- The steps of a launch of the adapter that is in progress. -/
def insideAct : Act → Bool
  | .acquire .. | .resume .. | .start _ | .compromise _ => true
  | _ => false

/-- The key a dispatch looks up. -/
def lookupKey? : Launch.Pc → Option String
  | .lookingUp a _ | .recovering a _ _ => some a.idempotencyKey
  | _ => none

/-- The request a dispatch makes. -/
def launchRequest? : Launch.Pc → Option Launch.LaunchRequest
  | .calling _ _ request => some request
  | _ => none

/-- What a launch answers, once it is done. -/
def Pc.reply? : Pc → Option Reply
  | .done reply => some reply
  | _ => none

/-- Where the dispatch of `d` stands. -/
def pcOf (sys : Launch.System) (d : ℕ) : Option Launch.Pc := (sys.dispatchers d).frame.map (·.pc)

variable (env : Env)

def Service.step (sys : Service) : ServiceAct → Service
  | .launch act =>
    if ownAct act then { sys with launch := Launch.step env sys.launch act } else sys
  | .call d revalidation =>
    match (pcOf sys.launch d).bind launchRequest? with
    | some request =>
      { sys with
        adapter := Superset.step sys.adapter (.launch d d (liveRequest request) revalidation) }
    | none => sys
  | .adapter act =>
    if insideAct act then { sys with adapter := Superset.step sys.adapter act } else sys
  | .answer d =>
    match (sys.adapter.frames d).bind (·.pc.reply?) with
    | some reply =>
      { launch := Launch.step env sys.launch (.resume d (.launch none (replyHandle reply)))
        adapter := Superset.step sys.adapter (.finish d) }
    | none => sys
  | .lookup d readable =>
    match (pcOf sys.launch d).bind lookupKey? with
    | some key =>
      { sys with launch := Launch.step env sys.launch (.resume d (.lookup
          (lookupHandle (findByIdempotencyKey key sys.adapter.file readable)))) }
    | none => sys
  | .crash d restart =>
    { launch := Launch.step env sys.launch (.crash d restart)
      adapter := Superset.step sys.adapter (.crash d) }

/-! ## Sessions as runs -/

/-- The runs of a provider that holds what the adapter may have started. -/
def sessions (sys : System) : Launch.ProviderRuns := fun key =>
  match (contents sys.file).runs key with
  | some record => some record.runId
  | none => if sys.calls.any fun c => c.key = key && !c.refused then some "" else none

/-- The launch system over those runs. -/
def Service.view (sys : Service) : Launch.System := { sys.launch with runs := sessions sys.adapter }

/-- A key has no run exactly if every call for it was refused. -/
theorem sessions_eq_none_iff {sys : System} (h : Ledger (contents sys.file) sys.calls)
    {key : String} : sessions sys key = none ↔ Closed sys.calls key := by
  unfold sessions
  cases hruns : (contents sys.file).runs key with
  | some record =>
    refine ⟨(nomatch ·), fun hclosed => ?_⟩
    obtain ⟨-, n, c, hc, hkey, hr, -⟩ := h.sources key record hruns
    rw [hclosed n c hc hkey] at hr
    cases hr
  | none =>
    dsimp only
    split_ifs with hany
    · refine ⟨(nomatch ·), fun hclosed => ?_⟩
      obtain ⟨c, hc, hopen⟩ := List.any_eq_true.1 hany
      obtain ⟨n, hn⟩ := List.mem_iff_getElem?.1 hc
      rw [Bool.and_eq_true, decide_eq_true_iff, Bool.not_eq_true'] at hopen
      rw [hclosed n c hn hopen.1] at hopen
      cases hopen.2
    · refine ⟨fun _ n c hc hkey => ?_, fun _ => rfl⟩
      by_contra hr
      refine hany (List.any_eq_true.2 ⟨c, List.mem_of_getElem? hc, ?_⟩)
      rw [Bool.and_eq_true, decide_eq_true_iff, Bool.not_eq_true']
      exact ⟨hkey, Bool.not_eq_true _ ▸ hr⟩

/-- The runs of a bound key. -/
theorem sessions_of_bound {sys : System} {key : String} {record : BoundRecord}
    (h : (contents sys.file).runs key = some record) : sessions sys key = some record.runId := by
  unfold sessions
  rw [h]

variable {env}

/-! ## The runs do not steer a dispatch -/

/-- The input creates no run. -/
def CreatesNothing : Launch.Input → Prop
  | .launch created _ => created = none
  | _ => True

/-- A dispatch does not look at the runs of the provider; it sees its answers only. -/
theorem resume_withRuns (pc : Launch.Pc) (id : String) (disk : Store.Disk)
    (runs runs' : Launch.ProviderRuns) {input : Launch.Input} (h : CreatesNothing input) :
    pc.resume env id disk runs' input = { pc.resume env id disk runs input with runs := runs' } := by
  cases pc <;> cases input <;> try rfl
  case locked.read =>
    unfold Launch.Pc.resume
    dsimp only
    split
    · rfl
    · split <;> rfl
  case authorizing.authorizer =>
    unfold Launch.Pc.resume
    dsimp only
    split <;> rfl
  case lookingUp.lookup =>
    unfold Launch.Pc.resume
    dsimp only
    split <;> rfl
  case auditingIntent.store =>
    unfold Launch.Pc.resume
    dsimp only
    split <;> rfl
  case calling.launch =>
    obtain rfl := h
    unfold Launch.Pc.resume
    dsimp only
    split <;> rfl
  case recovering.lookup =>
    unfold Launch.Pc.resume
    dsimp only
    split
    · rfl
    · rfl
    · rfl
    · split <;> rfl

/-- The step creates no run. -/
def StepCreatesNothing : Launch.Act → Prop
  | .resume _ input => CreatesNothing input
  | _ => True

/-- A step that creates no run does the same over any runs. -/
theorem step_withRuns (sys : Launch.System) (runs : Launch.ProviderRuns) {act : Launch.Act}
    (h : StepCreatesNothing act) :
    Launch.step env { sys with runs := runs } act =
      { Launch.step env sys act with runs := runs } := by
  cases act with
  | service c io =>
    unfold Launch.step
    dsimp only
    split_ifs <;> rfl
  | start d =>
    unfold Launch.step
    dsimp only
    split <;> rfl
  | lock d =>
    unfold Launch.step
    dsimp only
    split
    · split_ifs <;> rfl
    · rfl
  | skip d =>
    unfold Launch.step
    dsimp only
    split <;> rfl
  | resume d input =>
    unfold Launch.step
    dsimp only
    split
    · rfl
    · rename_i f hf
      rw [resume_withRuns f.pc f.id sys.disk sys.runs runs h]
      dsimp only
      split <;> rfl
  | crash d restart =>
    unfold Launch.step
    dsimp only
    split <;> rfl

end AgentOrchestrator.Superset
