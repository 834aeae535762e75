import AgentOrchestrator.Launch.FailedLaunch

/-!
# No launch for a finished session

The provider should not be asked to launch an assignment whose worker was already terminal when
its dispatch obtained the lock.  The `launching` transition refuses such an assignment, but a
launch under recovery skips that transition: when the lookup finds no run, it is launched for a
session that is over.  This is the only way (`no_launch_for_finished_session`).
-/

namespace AgentOrchestrator.Launch

open Store

variable {env : Env}

/-! ## Finished sessions stay finished -/

/-- The worker of the assignment `id` is terminal. -/
def OverOn (s : DurableState) (id : String) : Prop :=
  ∃ a ∈ s.assignments, a.id = id ∧ ∃ w ∈ s.workers, w.id = a.sessionId ∧
    w.status.isTerminal = true

theorem sessionOver_worker {s : DurableState} {a : Assignment} (h : sessionOver s a = true) :
    ∃ w ∈ s.workers, w.id = a.sessionId ∧ w.status.isTerminal = true := by
  obtain ⟨w, hw, ht⟩ := (Option.any_eq_true _ _).1 h
  exact ⟨w, Keyed.mem_of_lookup hw, Keyed.key_of_lookup hw, ht⟩

theorem sessionOver_of_worker {s : DurableState} (hs : (s.workers.map (·.id)).Nodup)
    {a : Assignment} {w : Worker} (hw : w ∈ s.workers) (hid : w.id = a.sessionId)
    (ht : w.status.isTerminal = true) : sessionOver s a = true := by
  have hfound : s.worker? a.sessionId = some w := hid ▸ Keyed.lookup_of_mem hs hw
  unfold sessionOver
  rw [hfound]
  exact ht

theorem overOn_of_overById {s : DurableState} {id : String} (h : overById s id = true) :
    OverOn s id := by
  obtain ⟨a, ha, hover⟩ := (Option.any_eq_true _ _).1 h
  exact ⟨a, Keyed.mem_of_lookup ha, Keyed.key_of_lookup ha, sessionOver_worker hover⟩

/-- The workers of the system move forward. -/
theorem forward_system {sys : System} (h : Sound env sys) (act : Act) :
    Forward (contents sys.disk).workers (contents (step env sys act).disk).workers := by
  rcases @step_world env sys act with ⟨hd, -⟩ | ⟨c, io, -, -, hd, -⟩ | ⟨d, input, f, -, -, hd, -⟩
  · rw [hd]
    exact .refl _
  · rw [hd]
    exact forward_step sys.disk (c, io) h.valid
  · rw [hd, resume_disk]
    split
    · exact .refl _
    · exact forward_step sys.disk _ h.valid

/-- Every assignment keeps its identity and its session. -/
theorem assignment_version {sys : System} (h : Sound env sys) (act : Act) {a : Assignment}
    (ha : a ∈ (contents sys.disk).assignments) :
    ∃ a' ∈ (contents (step env sys act).disk).assignments, a'.id = a.id ∧
      a'.sessionId = a.sessionId := by
  rcases @step_world env sys act with ⟨hd, -⟩ | ⟨c, io, -, hc, hd, -⟩ | ⟨d, input, f, -, hf, hd, -⟩
  · rw [hd]
    exact ⟨a, ha, rfl, rfl⟩
  · obtain ⟨added, -, -, hadded⟩ := @service_assignments env sys c io hc
    rw [hd, hadded]
    exact ⟨a, List.mem_append_left _ ha, rfl, rfl⟩
  · rw [hd]
    have htouch := @resume_touches env f.pc f.id sys.disk (h.frames d f hf) sys.runs input
    obtain ⟨b, hb, hbid, -, hbs, -⟩ := htouch.versions a ha
    exact ⟨b, hb, hbid, hbs⟩

theorem OverOn.step {sys : System} (h : Sound env sys) {id : String}
    (hover : OverOn (contents sys.disk) id) (act : Act) :
    OverOn (contents (Launch.step env sys act).disk) id := by
  obtain ⟨a, ha, hid, w, hw, hwid, ht⟩ := hover
  obtain ⟨a', ha', hid', hs'⟩ := assignment_version h act ha
  obtain ⟨w', hw', hl⟩ := forward_system h act w hw
  refine ⟨a', ha', hid'.trans hid, w', hw', ?_, ?_⟩
  · rw [hl.id, hwid, hs']
  · rw [(hl.outcome ht).status]
    exact ht

/-! ## Launches under recovery -/

/-- The dispatch goes on to call the provider. -/
def Pc.committed : Pc → Bool
  | .auditingIntent .. | .calling .. => true
  | _ => false

/-- The dispatch calls the provider. -/
def Pc.isCalling : Pc → Bool
  | .calling .. => true
  | _ => false

def Pc.isLookingUp : Pc → Bool
  | .lookingUp .. => true
  | _ => false

/-- A launch is recovered for a session that was over at the lock, and the lookup finds no run. -/
def StaleLookup (sys : System) : Act → Prop
  | .resume d (.lookup answer) => ∃ f ∈ (sys.dispatchers d).frame, f.overAtLock = true ∧
      f.pc.isLookingUp = true ∧ checkedHandle answer = .ok none
  | _ => False

instance (sys : System) (act : Act) : Decidable (StaleLookup sys act) := by
  unfold StaleLookup
  split <;> infer_instance

/-- A session that was over at the lock still is, and its dispatch does not call the provider. -/
def Frame.Guarded (s : DurableState) (f : Frame) : Prop :=
  f.overAtLock = true → OverOn s f.id ∧ f.pc.committed = false

/-- A dispatch of a finished session reaches the provider only through a stale lookup. -/
theorem resume_committed {sys : System} (h : Sound env sys) {d : ℕ} {f : Frame} {input : Input}
    {pc : Pc} (hf : sys.FrameAt d f) (hover : f.overAtLock = true)
    (hguard : OverOn (contents sys.disk) f.id) (hbefore : f.pc.committed = false)
    (hstale : ¬ StaleLookup sys (.resume d input))
    (hpc : (f.pc.resume env f.id sys.disk sys.runs input).pc = some pc) :
    pc.committed = false := by
  have hexp := h.frames d f hf
  have hlook : ∀ answer, input = .lookup answer → f.pc.isLookingUp = true →
      checkedHandle answer ≠ .ok none := by
    rintro answer rfl hl hnone
    exact hstale ⟨f, hf, hover, hl, hnone⟩
  have hcont := resume_continues hpc
  generalize f.pc = pc₀ at *
  cases hcont with
  | waiting hwait => exact hbefore
  | reserved ha₀ hopen hmem =>
    -- The transition would have been refused: the session is still over.
    obtain ⟨b, hb, hbid, w, hw, hwid, ht⟩ := hguard
    have hid := (Keyed.key_of_lookup ha₀).trans (hexp.1.trans hbid.symm)
    obtain rfl := Keyed.eq_of_key h.valid.uniqueAssignments (Keyed.mem_of_lookup ha₀) hb hid
    rw [sessionOver_of_worker h.valid.uniqueWorkers hw hwid ht] at hopen
    cases hopen
  | absent hnone => exact absurd hnone (hlook _ rfl rfl)
  | audited => cases hbefore
  | _ => rfl

/-- Every dispatch in progress is guarded. -/
def AllGuarded (sys : System) : Prop :=
  ∀ d f, sys.FrameAt d f → f.Guarded (contents sys.disk)

theorem allGuarded_step {sys : System} (h : Sound env sys) (hguard : AllGuarded sys) {act : Act}
    (hstale : ¬ StaleLookup sys act) : AllGuarded (step env sys act) := by
  intro d g hg hover
  rcases frame_origin hg with ⟨hg', -⟩ | ⟨input, f, pc, rfl, hf, hpc, rfl⟩ | ⟨hact, -, hlock, hpc⟩
  · obtain ⟨hon, hcommitted⟩ := hguard d g hg' hover
    exact ⟨hon.step h act, hcommitted⟩
  · obtain ⟨hon, hcommitted⟩ := hguard d f hf hover
    exact ⟨hon.step h _, resume_committed h hf hover hon hcommitted hstale hpc⟩
  · rw [hlock] at hover
    refine ⟨(overOn_of_overById hover).step h act, ?_⟩
    rw [hpc]
    rfl

/-- **No launch for a finished session.** In every run in which no recovered launch of a session
that was over at the lock is told that there is no run, a dispatch that calls `adapter.launch`
obtained its lock while the worker was not terminal. -/
theorem no_launch_for_finished_session {acts : List Act}
    (h : Runs.Admissible (step env) (fun sys act => ¬ StaleLookup sys act) {} acts) {d : ℕ}
    {f : Frame} (hf : (Runs.run (step env) {} acts).FrameAt d f) (hpc : f.pc.isCalling = true) :
    f.overAtLock = false := by
  have hguard : AllGuarded (Runs.run (step env) {} acts) := by
    refine (Runs.run_invariant_of (step env) (P := fun sys => Sound env sys ∧ AllGuarded sys) ?_
      ⟨sound_init, ?_⟩ h).2
    · intro sys act hsys hact
      exact ⟨sound_step hsys.1 act, allGuarded_step hsys.1 hsys.2 hact⟩
    · intro d f hf
      cases hf
  by_contra hover
  obtain ⟨-, hcommitted⟩ := hguard d f hf (Bool.of_not_eq_false hover)
  generalize f.pc = pc at hpc hcommitted
  cases pc with
  | calling a grant request => cases hcommitted
  | _ => cases hpc

theorem no_launch_for_finished_session_sample :
    ∃ f, (Runs.run (step plainEnv) {} sampleReserved).FrameAt 0 f ∧ f.pc.isCalling = true ∧
      f.overAtLock = false := by
  have hrun : Runs.Admissible (step plainEnv) (fun sys act => ¬ StaleLookup sys act) {}
      sampleReserved := by decide +kernel
  have hcalls : ((Runs.run (step plainEnv) {} sampleReserved).dispatchers 0).frame.any
      (fun f => f.pc.isCalling) = true := by decide +kernel
  obtain ⟨f, hf, hpc⟩ := (Option.any_eq_true _ _).1 hcalls
  exact ⟨f, hf, hpc, no_launch_for_finished_session hrun hf hpc⟩

/-- A dispatcher dies before the provider is called.  The next one takes its snapshot, then the
deadline of the session passes, and only then it obtains the lock. -/
def sampleStale : List Act :=
  [.service (.acceptLaunch sampleInput sampleBatch "u1") .written,
    .service (.updateWorker "s1" (.setWorkerDeadline "2026-01-03")) .written,
    .start 0, .lock 0, .resume 0 .read, .resume 0 (.authorizer (.ok sampleGrant)),
    .resume 0 (stored "u2"), .crash 0 true, .start 1,
    .service (.updateWorker "s1" (.expireWorker none "2026-01-04")) .written,
    .lock 1, .resume 1 .read, .resume 1 (.authorizer (.ok sampleGrant)),
    .resume 1 (.lookup (.ok .undefined)), .resume 1 (stored "u3")]

/-- The expired session is launched. -/
theorem finished_session_launched :
    Runs.Admissible (step plainEnv) Contract {} sampleStale ∧
    ∃ f ∈ ((Runs.run (step plainEnv) {} sampleStale).dispatchers 1).frame,
      f.pc.isCalling = true ∧ f.overAtLock = true := by
  decide +kernel

end AgentOrchestrator.Launch
