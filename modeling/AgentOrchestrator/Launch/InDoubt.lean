import AgentOrchestrator.Launch.Pairing

/-!
# Launches in doubt

An assignment that is launching while the provider already holds its run is in doubt until the run
is recorded.  Recovery finds it through `pendingAssignments`, which leaves out terminal sessions,
or through the lifecycle reconciliation, which needs a bound run.  A deadline that passes while the
launch is in doubt therefore hides it from both, unless its dispatch is still in progress and gets
to record the run (`launching_recoverable`).
-/

namespace AgentOrchestrator.Launch

open Store

variable {env : Env}

/-- The launch is begun, its run exists, and its session is over. -/
def InDoubt (sys : System) (id : String) : Prop :=
  ∃ a ∈ (contents sys.disk).assignments, a.id = id ∧ a.status = .launching ∧
    sessionOver (contents sys.disk) a = true ∧ sys.runs a.idempotencyKey ≠ none

instance (sys : System) (id : String) : Decidable (InDoubt sys id) := by
  unfold InDoubt; infer_instance

/-- A deadline passes while the provider holds the run of a launch that no dispatch attends to. -/
def LostExpiry (sys : System) : Act → Prop
  | .service (.updateWorker id (.expireWorker deadline now)) _ =>
    (∃ w ∈ (contents sys.disk).worker? id,
      (Store.expireWorker (contents sys.disk) deadline now w).2 = true) ∧
    ∃ a ∈ (contents sys.disk).assignments, a.status = .launching ∧ a.sessionId = id ∧
      sys.owner a.id = none ∧ sys.runs a.idempotencyKey ≠ none
  | _ => False

instance (sys : System) (act : Act) : Decidable (LostExpiry sys act) := by
  unfold LostExpiry
  split <;> infer_instance

variable (env) in
/-- A dispatch of a launch in doubt is cut off, or ends without recording the launch. -/
def Interrupted (sys : System) : Act → Prop
  | .crash d _ => ∃ f ∈ (sys.dispatchers d).frame, InDoubt sys f.id
  | .resume d input => ∃ f ∈ (sys.dispatchers d).frame, InDoubt sys f.id ∧
      (f.pc.resume env f.id sys.disk sys.runs input).pc = none ∧
      ∃ a ∈ (contents (f.pc.resume env f.id sys.disk sys.runs input).disk).assignments,
        a.id = f.id ∧ a.status = .launching
  | _ => False

instance (sys : System) : ∀ act, Decidable (Interrupted env sys act)
  | .crash d _ => inferInstanceAs (Decidable (∃ f ∈ (sys.dispatchers d).frame, InDoubt sys f.id))
  | .resume d input => inferInstanceAs (Decidable (∃ f ∈ (sys.dispatchers d).frame,
      InDoubt sys f.id ∧ (f.pc.resume env f.id sys.disk sys.runs input).pc = none ∧
      ∃ a ∈ (contents (f.pc.resume env f.id sys.disk sys.runs input).disk).assignments,
        a.id = f.id ∧ a.status = .launching))
  | .service _ _ | .start _ | .lock _ | .skip _ => inferInstanceAs (Decidable False)

/-! ## Workers of launches -/

/-- **The invariant behind recovery.** Every assignment has its own worker, unbound as long as the
launch is pending, and a launch whose session is over is attended to or has no run. -/
structure Tracked (sys : System) : Prop where
  busy : sys.Busy
  sessions : ((contents sys.disk).assignments.map (·.sessionId)).Nodup
  workers : ∀ a ∈ (contents sys.disk).assignments,
    ∃ w ∈ (contents sys.disk).workers, w.id = a.sessionId
  unbound : ∀ a ∈ (contents sys.disk).assignments, Pending a →
    ∀ w ∈ (contents sys.disk).workers, w.id = a.sessionId → Unbound w
  attended : ∀ a ∈ (contents sys.disk).assignments, a.status = .launching →
    ∀ w ∈ (contents sys.disk).workers, w.id = a.sessionId → w.status.isTerminal = true →
      sys.owner a.id = none → sys.runs a.idempotencyKey = none

theorem Tracked.paired {sys : System} (ht : Tracked sys) : Paired (contents sys.disk) :=
  ⟨ht.sessions, ht.workers, ht.unbound⟩

/-- The launch of the only assignment of a session is found by its worker. -/
theorem launchInProgress_of {s : DurableState} (hs : (s.assignments.map (·.sessionId)).Nodup)
    {a : Assignment} (ha : a ∈ s.assignments) (hst : a.status = .launching) {w : Worker}
    (hid : w.id = a.sessionId) : launchInProgress s w = true := by
  have hfound : launchOf s w = some a := by
    have h := Keyed.lookup_of_mem hs ha
    rw [← hid] at h
    exact h
  unfold launchInProgress
  rw [hfound]
  exact decide_eq_true hst

/-- **What ends the session of a launch in progress.** Of the calls of the services, only a
deadline that passes. -/
theorem service_ends {s : DurableState} {c : Call} (hc : serviceCall env s c = true)
    (hs : (s.assignments.map (·.sessionId)).Nodup) (hworkers : (s.workers.map (·.id)).Nodup)
    {a : Assignment} (ha : a ∈ s.assignments) (hst : a.status = .launching) {w : Worker}
    (hw : w ∈ s.workers) (hid : w.id = a.sessionId) (hunbound : Unbound w) (h : c.MayEnd s w) :
    ∃ deadline now, c = .updateWorker w.id (.expireWorker deadline now) ∧
      (Store.expireWorker s deadline now w).2 = true := by
  have hfound : s.worker? w.id = some w := Keyed.lookup_of_mem hworkers hw
  cases c with
  | updateWorker id u =>
    obtain ⟨rfl, hend⟩ := h
    cases u with
    | expireWorker deadline now => exact ⟨deadline, now, rfl, hend⟩
    | requestWorkerCancellation reason detail now =>
      have hend' : launchInProgress s w = false := hend
      rw [launchInProgress_of hs ha hst hid] at hend'
      cases hend'
    | recordWorkerTerminal status result reason now => cases hc
    | settleWorkerCancellation status result reason now keep =>
      have hc' : (s.worker? w.id).any (fun w => w.runId.isSome) = true := hc
      rw [hfound] at hc'
      have hbound : w.runId.isSome = true := hc'
      rw [hunbound.runId] at hbound
      cases hbound
    | _ => exact hend.elim
  | recordWorkerResult id succeeded result completedAt => cases hc
  | captureResult r =>
    obtain ⟨-, b, hb, hbst, hbs⟩ := h
    obtain rfl := Keyed.eq_of_key hs hb ha (hbs.trans hid)
    rw [hst] at hbst
    cases hbst
  | _ => exact h.elim

/-! ## Service calls -/

section
variable {sys : System} {c : Call} {io : WriteOutcome}

theorem service_attended (h : Sound env sys) (ht : Tracked sys)
    (hc : serviceCall env (contents sys.disk) c = true)
    (hs : ServiceStep env (contents sys.disk) (contents (Store.step env sys.disk (c, io))) c)
    (hlost : ¬ LostExpiry sys (.service c io)) :
    ∀ a ∈ (contents (Store.step env sys.disk (c, io))).assignments, a.status = .launching →
      ∀ w ∈ (contents (Store.step env sys.disk (c, io))).workers, w.id = a.sessionId →
        w.status.isTerminal = true → sys.owner a.id = none →
        sys.runs a.idempotencyKey = none := by
  obtain ⟨added, hbuilt, hadded, -, -, -⟩ := hs.assignments
  intro a ha hst w hw hid hterm howner
  rw [hadded] at ha
  rcases List.mem_append.1 ha with ha | ha
  swap
  · obtain ⟨o, ho, rfl⟩ := List.mem_map.1 ha
    rw [(hbuilt.records o ho).1] at hst
    cases hst
  rcases hs.workers w hw with ⟨v, hv, hserviced⟩ | ⟨-, hreq⟩
  swap
  · rw [hreq] at hterm
    cases hterm
  have hvid : v.id = a.sessionId := hserviced.id.symm.trans hid
  by_cases hvt : v.status.isTerminal = true
  · exact ht.attended a ha hst v hv hvid hvt howner
  -- The call ended the session, so it is a deadline that passed.
  have hunbound := ht.unbound a ha (Or.inr hst) v hv hvid
  have hend := hserviced.ended hunbound.cancel (Bool.eq_false_iff.2 hvt) hterm
  obtain ⟨deadline, now, rfl, hexp⟩ := service_ends hc ht.sessions h.valid.uniqueWorkers ha hst hv
    hvid hunbound hend
  by_contra hrun
  refine hlost ⟨⟨v, ?_, hexp⟩, a, ha, hst, hvid.symm, howner, hrun⟩
  exact Keyed.lookup_of_mem h.valid.uniqueWorkers hv

end

/-! ## Dispatch steps -/

section
variable {sys : System} {d : ℕ} {f : Frame} {input : Input}

/-- A dispatch that comes to its end has not called the provider. -/
theorem resume_end_runs {k : String}
    (hpc : (f.pc.resume env f.id sys.disk sys.runs input).pc = none)
    (hk : (f.pc.resume env f.id sys.disk sys.runs input).runs k ≠ none) : sys.runs k ≠ none := by
  rcases resume_runs hk with hk | ⟨a, grant, request, hcall, -⟩
  · exact hk
  · rw [hcall] at hpc hk
    cases input with
    | launch created answer =>
      simp only [Pc.resume] at hpc
      split at hpc <;> cases hpc
    | _ => cases hpc

theorem resume_attended (h : Sound env sys) (ht : Tracked sys) (hf : sys.FrameAt d f)
    (hcut : ¬ Interrupted env sys (.resume d input)) {a : Assignment}
    (ha : a ∈ (contents (f.pc.resume env f.id sys.disk sys.runs input).disk).assignments)
    (hst : a.status = .launching) {w : Worker}
    (hw : w ∈ (contents (f.pc.resume env f.id sys.disk sys.runs input).disk).workers)
    (hid : w.id = a.sessionId) (hterm : w.status.isTerminal = true)
    (howner : (step env sys (.resume d input)).owner a.id = none) :
    (f.pc.resume env f.id sys.disk sys.runs input).runs a.idempotencyKey = none := by
  obtain ⟨hw, b, hb, hbid, hbk, hbs, hbp, hsame⟩ := resume_pending h ht.paired hf ha (Or.inr hst) hw hid
  by_contra hrun
  -- The dispatch of the launch, if there was one, ended with this step.
  have hended : ∀ d' g, sys.FrameAt d' g → g.id = a.id →
      (f.pc.resume env f.id sys.disk sys.runs input).pc = none ∧ d' = d := by
    intro d' g hg hgid
    rcases @frame_kept env sys (.resume d input) d' g hg with ⟨g', hg', hgid'⟩ | ⟨r, e⟩ | ⟨i, e, hpc⟩
    · have ho := owned_step h.owned (.resume d input) d' g' hg'
      rw [hgid', hgid, howner] at ho
      cases ho
    · cases e
    · obtain ⟨rfl, rfl⟩ := Act.resume.inj e
      obtain rfl := Option.some.inj (hf.symm.trans hg)
      exact ⟨hpc, rfl⟩
  by_cases haf : a.id = f.id
  · obtain ⟨hpc, -⟩ := hended d f hf haf.symm
    have hbefore : sys.runs b.idempotencyKey ≠ none := by
      rw [← hbk]
      exact resume_end_runs hpc hrun
    have hbst : b.status = .launching := by
      rcases hbp with hacc | hl
      · obtain ⟨c, hc, hck, hcst⟩ := h.evidence _ hbefore
        rw [Keyed.eq_of_key h.keys hc hb hck] at hcst
        exact absurd hacc hcst
      · exact hl
    refine hcut ⟨f, hf, ⟨b, hb, hbid.symm.trans haf, hbst, ?_, hbefore⟩, hpc, a, ha, haf, hst⟩
    exact sessionOver_of_worker h.valid.uniqueWorkers hw (hid.trans hbs) hterm
  · obtain rfl := hsame haf
    have hnone : sys.owner a.id = none := by
      by_contra hsome
      obtain ⟨d', hd'⟩ := Option.ne_none_iff_exists'.1 hsome
      obtain ⟨g, hg, hgid⟩ := ht.busy a.id d' hd'
      obtain ⟨-, rfl⟩ := hended d' g hg hgid
      obtain rfl := Option.some.inj (hf.symm.trans hg)
      exact haf hgid.symm
    have hbefore := ht.attended a hb hst w hw hid hterm hnone
    rcases resume_runs hrun with hk | ⟨c, grant, request, hcall, hk⟩
    · exact hk hbefore
    · have hexp := h.frames d f hf
      rw [hcall] at hexp
      obtain ⟨⟨-, e, he, heid, hek, -⟩, hreq⟩ := hexp
      have hae : a = e := Keyed.eq_of_key h.keys hb he (by rw [hek, ← hreq, hk])
      exact haf (by rw [hae, heid])

end

/-! ## Whole runs -/

variable (env) in
/-- A crash and a deadline do not meet on a launch in doubt. -/
def Separate (sys : System) (act : Act) : Prop :=
  ¬ LostExpiry sys act ∧ ¬ Interrupted env sys act

instance (sys : System) (act : Act) : Decidable (Separate env sys act) :=
  inferInstanceAs (Decidable (¬ LostExpiry sys act ∧ ¬ Interrupted env sys act))

/-- A lock that is free after a step was free before it, unless the step ended the dispatch. -/
theorem owner_free {sys : System} (h : Sound env sys) (ht : Tracked sys) {act : Act} {id : String}
    (howner : (step env sys act).owner id = none) :
    sys.owner id = none ∨ ∃ d f, sys.FrameAt d f ∧ f.id = id ∧
      ((∃ restart, act = .crash d restart) ∨ ∃ input, act = .resume d input) := by
  cases ho : sys.owner id with
  | none => exact Or.inl rfl
  | some d =>
    obtain ⟨f, hf, hid⟩ := ht.busy id d ho
    refine Or.inr ⟨d, f, hf, hid, ?_⟩
    rcases @frame_kept env sys act d f hf with ⟨g, hg, hgid⟩ | hcrash | ⟨input, hact, -⟩
    · have := owned_step h.owned act d g hg
      rw [hgid, hid, howner] at this
      cases this
    · exact Or.inl hcrash
    · exact Or.inr ⟨input, hact⟩

theorem tracked_step {sys : System} (h : Sound env sys) (ht : Tracked sys) {act : Act}
    (hsep : Separate env sys act) : Tracked (step env sys act) := by
  obtain ⟨hsessions, hworkers, hunbound⟩ := @paired_step env sys h ht.paired act
  refine ⟨@busy_step env sys ht.busy act, hsessions, hworkers, hunbound, ?_⟩
  rcases @step_world env sys act with ⟨hd, hr, hidle⟩ | ⟨c, io, rfl, hc, hd, hr⟩ |
      ⟨d, input, f, rfl, hf, hd, hr⟩
  · rw [hd, hr]
    intro a ha hst w hw hid hterm howner
    rcases owner_free h ht howner with hfree | ⟨d, f, hf, hfid, ⟨restart, rfl⟩ | ⟨input, rfl⟩⟩
    · exact ht.attended a ha hst w hw hid hterm hfree
    · by_contra hrun
      refine hsep.2 ⟨f, hf, a, ha, hfid.symm, hst, ?_, hrun⟩
      exact sessionOver_of_worker h.valid.uniqueWorkers hw hid hterm
    · exact absurd hf (hidle d input f rfl)
  · have hs := @serviceStep env sys.disk c io hc
    rw [hd, hr]
    intro a ha hst w hw hid hterm howner
    rcases owner_free h ht howner with hfree | ⟨d, f, hf, hfid, ⟨restart, e⟩ | ⟨input, e⟩⟩
    · exact service_attended h ht hc hs hsep.1 a ha hst w hw hid hterm hfree
    · cases e
    · cases e
  · rw [hd, hr]
    intro a ha hst w hw hid hterm howner
    exact resume_attended h ht hf hsep.2 ha hst hw hid hterm howner

theorem tracked_init : Tracked {} := by
  refine ⟨?_, List.nodup_nil, ?_, ?_, ?_⟩
  · intro id d h
    cases h
  · intro a ha
    cases ha
  · intro a ha
    cases ha
  · intro a ha
    cases ha

/-- **No launch in doubt falls out of recovery.** In every run in which a deadline does not pass
while the run of a launch is unattended, and no dispatch of a launch in doubt is cut off, every
launching assignment is pending or has no run once no dispatch is in progress. -/
theorem launching_recoverable {acts : List Act}
    (h : Runs.Admissible (step env) (Separate env) {} acts)
    (hquiet : ∀ d, ((Runs.run (step env) {} acts).dispatchers d).frame = none) {a : Assignment}
    (ha : a ∈ (contents (Runs.run (step env) {} acts).disk).assignments)
    (hst : a.status = .launching) :
    a ∈ pendingAssignments (contents (Runs.run (step env) {} acts).disk) ∨
      (Runs.run (step env) {} acts).runs a.idempotencyKey = none := by
  obtain ⟨hsound, ht⟩ := Runs.run_invariant_of (step env)
    (P := fun sys => Sound env sys ∧ Tracked sys)
    (fun sys act hsys hact => ⟨sound_step hsys.1 act, tracked_step hsys.1 hsys.2 hact⟩)
    ⟨sound_init, tracked_init⟩ h
  generalize Runs.run (step env) {} acts = sys at *
  obtain ⟨w, hw, hid⟩ := ht.workers a ha
  have hfound : (contents sys.disk).worker? a.sessionId = some w :=
    hid ▸ Keyed.lookup_of_mem hsound.valid.uniqueWorkers hw
  by_cases hterm : w.status.isTerminal = true
  · right
    refine ht.attended a ha hst w hw hid hterm ?_
    by_contra hsome
    obtain ⟨d, hd⟩ := Option.ne_none_iff_exists'.1 hsome
    obtain ⟨f, hf, -⟩ := ht.busy a.id d hd
    cases (hquiet d).symm.trans hf
  · left
    refine List.mem_filter.2 ⟨ha, decide_eq_true ⟨Or.inr hst, ?_⟩⟩
    rw [hfound]
    show (!w.status.isTerminal) = true
    rw [Bool.eq_false_iff.2 hterm]
    rfl

/-- The dispatcher of the sample launch dies after the provider created the run. -/
def sampleCrashed : List Act :=
  sampleReserved ++ [.resume 0 (.launch (some "run-1") (.ok (.run "run-1"))), .crash 0 true]

/-- A crashed launch is pending again. -/
theorem launching_recoverable_sample :
    ∃ a ∈ (contents (Runs.run (step plainEnv) {} sampleCrashed).disk).assignments,
      a.status = .launching ∧
      (a ∈ pendingAssignments (contents (Runs.run (step plainEnv) {} sampleCrashed).disk) ∨
        (Runs.run (step plainEnv) {} sampleCrashed).runs a.idempotencyKey = none) := by
  have hrun : Runs.Admissible (step plainEnv) (Separate plainEnv) {} sampleCrashed := by
    decide +kernel
  have hquiet : ∀ d, ((Runs.run (step plainEnv) {} sampleCrashed).dispatchers d).frame = none := by
    intro d
    cases d with
    | zero => decide +kernel
    | succ n => rfl
  have hlaunching : ∃ a ∈ (contents (Runs.run (step plainEnv) {} sampleCrashed).disk).assignments,
      a.status = .launching := by decide +kernel
  obtain ⟨a, ha, hst⟩ := hlaunching
  exact ⟨a, ha, hst, launching_recoverable hrun hquiet ha hst⟩

/-- Then the deadline of its session passes. -/
def sampleLost : List Act :=
  sampleCrashed ++ [.service (.updateWorker "s1" (.expireWorker (some "2026-01-03") "2026-01-04"))
    .written]

/-- The launch is neither pending nor without a run, and no dispatch is in progress. -/
theorem launching_lost :
    Runs.Admissible (step plainEnv) Contract {} sampleLost ∧
    (∀ d, ((Runs.run (step plainEnv) {} sampleLost).dispatchers d).frame = none) ∧
    ∃ a ∈ (contents (Runs.run (step plainEnv) {} sampleLost).disk).assignments,
      a.status = .launching ∧
      a ∉ pendingAssignments (contents (Runs.run (step plainEnv) {} sampleLost).disk) ∧
      (Runs.run (step plainEnv) {} sampleLost).runs a.idempotencyKey = some "run-1" := by
  refine ⟨by decide +kernel, fun d => ?_, by decide +kernel⟩
  cases d with
  | zero => decide +kernel
  | succ n => rfl

end AgentOrchestrator.Launch
