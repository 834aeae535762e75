import AgentOrchestrator.Lifecycle.Steps

/-!
# What holds in every state of the lifecycle system

The launch system below keeps its invariants, because the lifecycle service makes only calls that
its dispatches allow for, and a task stops the run that is bound to its session (`steady_run`).
-/

namespace AgentOrchestrator.Lifecycle

open Store

variable {env : Env}

/-! ## Bound runs -/

/-- The worker of the session is bound to the run. -/
def BoundTo (s : DurableState) (sessionId runId : String) : Prop :=
  ∃ w, s.worker? sessionId = some w ∧ w.runId = some runId

theorem BoundTo.step {disk : Disk} (hv : Valid env disk) {sessionId runId : String}
    (h : BoundTo (contents disk) sessionId runId) (i : Call × WriteOutcome) :
    BoundTo (contents (Store.step env disk i)) sessionId runId := by
  obtain ⟨w, hw, hrun⟩ := h
  obtain ⟨w', hw', hrewrites⟩ := step_version hv i hw
  exact ⟨w', hw', hrewrites.later.runId runId hrun⟩

/-- The run of a worker that was read is bound on file. -/
def Known (s : DurableState) (w : Worker) : Prop := ∀ r, w.runId = some r → BoundTo s w.id r

theorem known_of_mem {s : DurableState} (hs : (s.workers.map (·.id)).Nodup) {w : Worker}
    (hw : w ∈ s.workers) : Known s w :=
  fun _ hr => ⟨w, Keyed.lookup_of_mem hs hw, hr⟩

/-- The stop a task is about. -/
def Pc.stop : Pc → Option Stop
  | .reading .. | .requesting .. => none
  | .claiming x | .queued x | .stopping x | .rejected x | .acknowledged x | .releasing x
  | .observing x | .fetching x _ | .settling x .. => some x

/-- A task stays with its stop; `cancelSession` begins one for the run it read. -/
theorem resume_stop {pc pc' : Pc} {input : Input} {disk : Disk} {x : Stop}
    (h : (pc.resume env disk input).pc = some pc') (hx : pc'.stop = some x) :
    pc.stop = some x ∨ BoundTo (contents (pc.resume env disk input).disk) x.sessionId x.runId := by
  have hcontinues := resume_continues h
  clear h
  cases hcontinues with
  | permitted => cases hx
  | @intended id reason runId detail now io w claim hr hrun =>
    obtain rfl := Option.some.inj hx
    obtain ⟨-, -, -, hfile⟩ := update_ok hr
    exact Or.inr ⟨w, hfile, hrun⟩
  | failed hpc => rcases hpc with rfl | rfl | rfl | rfl <;> exact Or.inl hx
  | proceeds hpc => rcases hpc with rfl | rfl | rfl | rfl | rfl <;> exact Or.inl hx
  | _ => exact Or.inl hx

theorem stop_opening {caller : Caller} {supported : Bool} {w : Worker} {pc : Pc} {x : Stop}
    (h : caller.opening supported w = some pc) (hx : pc.stop = some x) :
    x.sessionId = w.id ∧ w.runId = some x.runId ∧ (pc = .claiming x ∨ pc = .observing x) := by
  obtain ⟨runId, hrun, h⟩ := Option.bind_eq_some_iff.1 h
  cases caller with
  | cancelSession => cases h
  | reconcileCancellations =>
    obtain rfl := Option.some.inj h
    split_ifs at hx ⊢ <;> obtain rfl := Option.some.inj hx <;> simp [hrun]
  | enforceDeadlines =>
    dsimp only at h
    split_ifs at h
    obtain rfl := Option.some.inj h
    obtain rfl := Option.some.inj hx
    exact ⟨rfl, hrun, Or.inl rfl⟩
  | reconcileTimedOutResults =>
    obtain rfl := Option.some.inj h
    split_ifs at hx ⊢ <;> obtain rfl := Option.some.inj hx <;> simp [hrun]

/-! ## The invariant -/

/-- **The invariant of the lifecycle system.** -/
structure Steady (env : Env) (sys : System) : Prop where
  sound : Launch.Sound env sys.launch
  paired : Launch.Paired (contents sys.disk)
  tasks : ∀ t pc x, sys.tasks t = some pc → pc.stop = some x →
    BoundTo (contents sys.disk) x.sessionId x.runId
  background : ∀ t b, sys.background t = some b →
    BoundTo (contents sys.disk) b.stop.sessionId b.stop.runId
  sweeps : ∀ k sw, sys.sweeps k = some sw → ∀ w ∈ sw.items, Known (contents sys.disk) w

theorem Steady.valid {sys : System} (h : Steady env sys) : Valid env sys.disk := h.sound.valid

/-- A session whose launch may still change has no run. -/
theorem unbound_of_allowed {sys : System} (h : Steady env sys) {id : String} {a : Assignment}
    {target : LaunchTarget} (ha : (contents sys.disk).assignment? id = some a)
    (hallowed : launchAllowed a.status target = true) {w : Worker}
    (hw : w ∈ (contents sys.disk).workers) (hid : w.id = a.sessionId) : w.runId = none := by
  refine (h.paired.unbound a (Keyed.mem_of_lookup ha) ?_ w hw hid).runId
  cases hstatus : a.status with
  | accepted => exact Or.inl hstatus
  | launching => exact Or.inr hstatus
  | launched => rw [hstatus] at hallowed; cases target <;> cases hallowed
  | failed => rw [hstatus] at hallowed; cases target <;> cases hallowed

/-- The update neither binds a run nor records an outcome. -/
def Plain : WorkerUpdate → Prop
  | .bindWorkerRun .. | .recordWorkerTerminal .. | .settleWorkerCancellation .. => False
  | _ => True

theorem serviceCall_of_offers_nothing {s : DurableState} {c : Call} (hc : c.offered env = [])
    (h : Launch.serviceCall env s c = decide (Launch.Built (c.offered env))) :
    Launch.serviceCall env s c = true := by
  rw [h, hc]
  exact decide_eq_true ⟨List.nodup_nil, fun _ ho => nomatch ho⟩

/-- A plain update is a call the launch system allows for. -/
theorem serviceCall_plain (s : DurableState) (workerId : String) {u : WorkerUpdate} (hu : Plain u) :
    Launch.serviceCall env s (.updateWorker workerId u) = true := by
  cases u with
  | bindWorkerRun r e => exact hu.elim
  | recordWorkerTerminal status result reason now => exact hu.elim
  | settleWorkerCancellation status result reason now keep => exact hu.elim
  | _ => exact serviceCall_of_offers_nothing rfl rfl

/-- A bound session may be settled. -/
theorem serviceCall_settle {s : DurableState} {workerId r : String} (hb : BoundTo s workerId r)
    (status : TerminalWorkerStatus) (result : Option Json) (reason : Option String)
    (now : Timestamp) (keep : Bool) :
    Launch.serviceCall env s
      (.updateWorker workerId (.settleWorkerCancellation status result reason now keep)) = true := by
  obtain ⟨w, hw, hrun⟩ := hb
  show (s.worker? workerId).any (fun w => w.runId.isSome) = true
  rw [hw]
  show w.runId.isSome = true
  rw [hrun]
  rfl

theorem plain_stop (caller : Caller) :
    Plain caller.claim ∧ Plain caller.reject ∧ Plain caller.deliver ∧ Plain caller.release := by
  cases caller <;> exact ⟨trivial, trivial, trivial, trivial⟩

/-- The calls of the lifecycle service are calls the launch system allows for. -/
theorem Issues.service {sys : System} (h : Steady env sys) {act : Act} {i : Call × WriteOutcome}
    (hi : Issues env sys act i) (hact : ∀ a, act ≠ .launch a) :
    Launch.serviceCall env (contents sys.disk) i.1 = true := by
  cases hi with
  | other hother hfresh hc => exact hc
  | dispatched hf hi => exact absurd rfl (hact _)
  | expired => exact serviceCall_plain _ _ trivial
  | @resumed t input pc c io ht hi hasks =>
    cases hasks with
    | requested => exact serviceCall_plain _ _ trivial
    | @claimed x => exact serviceCall_plain _ _ (plain_stop x.caller).1
    | @rejected x => exact serviceCall_plain _ _ (plain_stop x.caller).2.1
    | @delivered x => exact serviceCall_plain _ _ (plain_stop x.caller).2.2.1
    | @released x => exact serviceCall_plain _ _ (plain_stop x.caller).2.2.2
    | @settled x => exact serviceCall_settle (h.tasks t _ x ht rfl) ..
  | @released t io x ht => exact serviceCall_plain _ _ (plain_stop x.caller).2.2.2
  | recovered => exact serviceCall_of_offers_nothing rfl rfl

/-- The launch system below moves by its own steps. -/
theorem step_launch {sys : System} (h : Steady env sys) (act : Act) :
    (step env sys act).launch = sys.launch ∨
      ∃ a, (step env sys act).launch = Launch.step env sys.launch a := by
  by_cases hact : ∃ a, act = .launch a
  · obtain ⟨a, rfl⟩ := hact
    unfold step
    dsimp only
    split_ifs
    · exact Or.inr ⟨a, rfl⟩
    · exact Or.inl rfl
  have hlaunch : (step env sys act).launch =
      { sys.launch with disk := (step env sys act).disk } := by
    have hmoves := @step_moves env sys act
    generalize step env sys act = sys' at hmoves ⊢
    cases hmoves with
    | launched hl => exact absurd ⟨_, rfl⟩ hact
    | _ => rfl
  rcases @step_disk env sys act with hd | ⟨⟨c, io⟩, hi, hd⟩
  · rw [hlaunch, hd]
    exact Or.inl rfl
  · refine Or.inr ⟨.service c io, ?_⟩
    rw [hlaunch, hd]
    exact (if_pos (hi.service h fun a e => hact ⟨a, e⟩)).symm

theorem BoundTo.system {sys : System} (h : Steady env sys) {sessionId runId : String}
    (hb : BoundTo (contents sys.disk) sessionId runId) (act : Act) :
    BoundTo (contents (Lifecycle.step env sys act).disk) sessionId runId := by
  rcases @step_disk env sys act with hd | ⟨i, -, hd⟩
  · rw [hd]
    exact hb
  · rw [hd]
    exact hb.step h.valid i

theorem steady_step {sys : System} (h : Steady env sys) (act : Act) :
    Steady env (step env sys act) := by
  have hlaunch : Launch.Sound env (step env sys act).launch ∧
      Launch.Paired (contents (step env sys act).disk) := by
    rcases step_launch h act with e | ⟨a, e⟩
    · unfold System.disk
      rw [e]
      exact ⟨h.sound, h.paired⟩
    · unfold System.disk
      rw [e]
      exact ⟨Launch.sound_step h.sound a, Launch.paired_step h.sound h.paired a⟩
  have hknown : ∀ w, Known (contents sys.disk) w → Known (contents (step env sys act).disk) w :=
    fun w hw r hr => (hw r hr).system h act
  refine ⟨hlaunch.1, hlaunch.2, ?_, ?_, ?_⟩
  · intro t pc x ht hx
    rcases task_origin ht with ⟨hold, -⟩ | ⟨supported, sessionId, reason, detail, rfl⟩ |
        ⟨k, sw, w, supported, hk, hw, hopen⟩ | ⟨input, pc₀, rfl, ht₀, hpc⟩
    · exact (h.tasks t pc x hold hx).system h act
    · cases hx
    · obtain ⟨hid, hrun, -⟩ := stop_opening hopen hx
      rw [hid]
      exact (h.sweeps k sw hk w hw _ hrun).system h act
    · rcases resume_stop hpc hx with hold | hnew
      · exact (h.tasks t pc₀ x ht₀ hold).system h _
      · rw [step_resume ht₀]
        exact hnew
  · intro t b hb
    rcases background_origin hb with ⟨b₀, hb₀, hstop, -⟩ | ⟨input, pc, x, rfl, ht, hx, rfl⟩
    · rw [hstop]
      exact (h.background t b₀ hb₀).system h act
    · obtain ⟨rfl, -⟩ := resume_background hx
      exact (h.tasks t _ x ht rfl).system h _
  · intro k sw hk w hw
    rcases item_origin hk hw with ⟨sw₀, hk₀, hw₀⟩ | hfile | ⟨workerId, hfile⟩
    · exact hknown w (h.sweeps k sw₀ hk₀ w hw₀)
    · exact hknown w (known_of_mem h.valid.uniqueWorkers hfile)
    · intro r hr
      obtain rfl := Keyed.key_of_lookup hfile
      exact ⟨w, hfile, hr⟩

theorem steady_init : Steady env {} where
  sound := Launch.sound_init
  paired := Launch.paired_empty
  tasks _ _ _ ht := nomatch ht
  background _ _ hb := nomatch hb
  sweeps _ _ hk := nomatch hk

/-- The invariant holds after every run. -/
theorem steady_run (acts : List Act) : Steady env (Runs.run (step env) {} acts) :=
  Runs.run_invariant (step env) (P := Steady env) (fun _ act h => steady_step h act) steady_init acts

end AgentOrchestrator.Lifecycle
