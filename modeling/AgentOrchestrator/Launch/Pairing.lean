import AgentOrchestrator.Launch.FinishedSession
import AgentOrchestrator.Store.SessionEnd

/-!
# Assignments and their workers

In every state of the launch system an assignment has a worker of its own, and the worker is not
bound to a run as long as the launch of the assignment is pending: the event that binds the run
settles the launch as well.
-/

namespace AgentOrchestrator.Launch

open Store

variable {env : Env}

/-- A worker that no launch has bound yet. -/
structure Unbound (w : Worker) : Prop where
  runId : w.runId = none
  cancel : OpenCancel w

/-- Every assignment has its own worker, unbound as long as the launch is pending. -/
structure Paired (s : DurableState) : Prop where
  sessions : (s.assignments.map (·.sessionId)).Nodup
  workers : ∀ a ∈ s.assignments, ∃ w ∈ s.workers, w.id = a.sessionId
  unbound : ∀ a ∈ s.assignments, Pending a → ∀ w ∈ s.workers, w.id = a.sessionId → Unbound w

theorem paired_empty : Paired (contents none) where
  sessions := List.nodup_nil
  workers _ ha := nomatch ha
  unbound _ ha := nomatch ha

/-! ## Service calls -/

/-- The workers offered with launches are stored, under identities not in use before. -/
theorem Call.next_offered {c : Call} {s next : DurableState} (hnext : UniqueIdentities next)
    (h : c.next env s = some next) :
    (∀ o ∈ c.offered env, o.2 ∈ next.workers) ∧ ((c.offered env).map (·.2.id)).Nodup ∧
      ∀ o ∈ c.offered env, ∀ w ∈ s.workers, w.id ≠ o.2.id := by
  have haccepted : ∀ {offered}, Accepted offered s next →
      (∀ o ∈ offered, o.2 ∈ next.workers) ∧ (offered.map (·.2.id)).Nodup ∧
        ∀ o ∈ offered, ∀ w ∈ s.workers, w.id ≠ o.2.id := by
    intro offered ha
    have hunique := hnext.uniqueWorkers
    rw [ha.workers, List.map_append, List.map_map, List.nodup_append] at hunique
    refine ⟨fun o ho => ?_, hunique.2.1, fun o ho w hw => ?_⟩
    · rw [ha.workers]
      exact List.mem_append_right _ (List.mem_map_of_mem ho)
    · exact hunique.2.2 w.id (List.mem_map_of_mem hw) o.2.id (List.mem_map_of_mem ho)
  have hnone : c.offered env = [] → (∀ o ∈ c.offered env, o.2 ∈ next.workers) ∧
      ((c.offered env).map (·.2.id)).Nodup ∧ ∀ o ∈ c.offered env, ∀ w ∈ s.workers, w.id ≠ o.2.id := by
    intro e
    rw [e]
    refine ⟨?_, List.nodup_nil, ?_⟩
    · intro o ho
      cases ho
    · intro o ho
      cases ho
  cases c with
  | acceptLaunch input batch uuid => exact haccepted (acceptLaunch_next h)
  | acceptLaunchBatch inputs batch uuids => exact haccepted (acceptLaunchBatch_next h)
  | _ => exact hnone rfl

/-- A worker added by a service call is unbound and open. -/
theorem added_unbound {c : Call} (hb : Built (c.offered env)) {w : Worker} (h : c.Adds env w) :
    Unbound w ∧ w.status = .requested := by
  have hcancel : w.preCancelStatus = none → OpenCancel w := by
    intro hp st hst
    rw [hp] at hst
    cases hst
  rcases h with ⟨o, ho, rfl⟩ | ⟨hst, hrun, hpre⟩
  · obtain ⟨-, -, -, hst, hrun, hpre⟩ := hb.records o ho
    exact ⟨⟨hrun, hcancel hpre⟩, hst⟩
  · exact ⟨⟨hrun, hcancel hpre⟩, hst⟩

theorem serviceCall_binds {s : DurableState} {c : Call} (h : serviceCall env s c = true) :
    c.binds = false := by
  cases c with
  | recordLaunchEvent id target ev audit uuid => cases h
  | updateWorker id u =>
    cases u with
    | bindWorkerRun runId execution => cases h
    | _ => rfl
  | _ => rfl

/-- What a service call leaves of the assignments and workers. -/
structure ServiceStep (env : Env) (s next : DurableState) (c : Call) : Prop where
  assignments : ∃ added : List (Assignment × Worker), Built added ∧
    next.assignments = s.assignments ++ added.map (·.1) ∧ (∀ o ∈ added, o.2 ∈ next.workers) ∧
    (added.map (·.2.id)).Nodup ∧ ∀ o ∈ added, ∀ w ∈ s.workers, w.id ≠ o.2.id
  workers : ∀ w' ∈ next.workers, (∃ w ∈ s.workers, Serviced (c.MayEnd s w) w w') ∨
    (Unbound w' ∧ w'.status = .requested)

theorem serviceStep {disk : Disk} {c : Call} {io : WriteOutcome}
    (hc : serviceCall env (contents disk) c = true) :
    ServiceStep env (contents disk) (contents (Store.step env disk (c, io))) c := by
  obtain ⟨hev, hbuilt⟩ := serviceCall_spec hc
  rcases step_cases env disk c io with e | ⟨next, hs, hn, hv, e⟩
  · rw [e]
    refine ⟨⟨[], ⟨List.nodup_nil, ?_⟩, ?_, ?_, List.nodup_nil, ?_⟩, ?_⟩
    · intro o ho
      cases ho
    · rw [List.map_nil, List.append_nil]
    · intro o ho
      cases ho
    · intro o ho
      cases ho
    · intro w hw
      exact Or.inl ⟨w, hw, .refl w⟩
  · rw [e]
    obtain ⟨hmem, hnodup, hfresh⟩ := Call.next_offered hv.toUniqueIdentities hn
    refine ⟨⟨c.offered env, hbuilt, Call.next_assignments hev hn, hmem, hnodup, hfresh⟩, ?_⟩
    intro w' hw'
    rcases Call.serviced (serviceCall_binds hc) hn hw' with h | h
    · exact Or.inl h
    · exact Or.inr (added_unbound hbuilt h)

section
variable {sys : System} {c : Call} {io : WriteOutcome}

theorem service_sessions (hp : Paired (contents sys.disk))
    (hs : ServiceStep env (contents sys.disk) (contents (Store.step env sys.disk (c, io))) c) :
    ((contents (Store.step env sys.disk (c, io))).assignments.map (·.sessionId)).Nodup := by
  obtain ⟨added, hbuilt, hadded, -, hnodup, hfresh⟩ := hs.assignments
  have hids : (added.map (·.1)).map (·.sessionId) = added.map (·.2.id) := by
    rw [List.map_map]
    exact List.map_congr_left fun o ho => (hbuilt.records o ho).2.2.1.symm
  rw [hadded, List.map_append, hids]
  refine List.Nodup.append hp.sessions hnodup ?_
  intro id hid hid'
  obtain ⟨a, ha, rfl⟩ := List.mem_map.1 hid
  obtain ⟨o, ho, hoid⟩ := List.mem_map.1 hid'
  obtain ⟨w, hw, hwid⟩ := hp.workers a ha
  exact hfresh o ho w hw (hwid.trans hoid.symm)

theorem service_workers (h : Sound env sys) (hp : Paired (contents sys.disk))
    (hs : ServiceStep env (contents sys.disk) (contents (Store.step env sys.disk (c, io))) c) :
    ∀ a ∈ (contents (Store.step env sys.disk (c, io))).assignments,
      ∃ w ∈ (contents (Store.step env sys.disk (c, io))).workers, w.id = a.sessionId := by
  obtain ⟨added, hbuilt, hadded, hmem, -, -⟩ := hs.assignments
  intro a ha
  rw [hadded] at ha
  rcases List.mem_append.1 ha with ha | ha
  · obtain ⟨w, hw, hwid⟩ := hp.workers a ha
    obtain ⟨w', hw', hl⟩ := forward_step sys.disk (c, io) h.valid w hw
    exact ⟨w', hw', hl.id.trans hwid⟩
  · obtain ⟨o, ho, rfl⟩ := List.mem_map.1 ha
    exact ⟨o.2, hmem o ho, (hbuilt.records o ho).2.2.1⟩

theorem service_unbound (hp : Paired (contents sys.disk))
    (hs : ServiceStep env (contents sys.disk) (contents (Store.step env sys.disk (c, io))) c) :
    ∀ a ∈ (contents (Store.step env sys.disk (c, io))).assignments, Pending a →
      ∀ w ∈ (contents (Store.step env sys.disk (c, io))).workers, w.id = a.sessionId →
        Unbound w := by
  obtain ⟨added, hbuilt, hadded, hmem, -, hfresh⟩ := hs.assignments
  intro a ha hpending w hw hid
  rcases hs.workers w hw with ⟨v, hv, hserviced⟩ | ⟨hunbound, -⟩
  swap
  · exact hunbound
  rw [hadded] at ha
  rcases List.mem_append.1 ha with ha | ha
  · have hv' := hp.unbound a ha hpending v hv (hserviced.id.symm.trans hid)
    exact ⟨hserviced.runId.trans hv'.runId, hserviced.preCancel hv'.cancel⟩
  · -- The worker of a new assignment is new as well.
    obtain ⟨o, ho, rfl⟩ := List.mem_map.1 ha
    have hoid := (hbuilt.records o ho).2.2.1
    exact absurd (hserviced.id.symm.trans (hid.trans hoid.symm)) (hfresh o ho v hv)

theorem service_paired (h : Sound env sys) (hp : Paired (contents sys.disk))
    (hc : serviceCall env (contents sys.disk) c = true) :
    Paired (contents (Store.step env sys.disk (c, io))) := by
  have hs := @serviceStep env sys.disk c io hc
  exact ⟨service_sessions hp hs, service_workers h hp hs, service_unbound hp hs⟩

end

/-! ## Dispatch steps -/

/-- A launch event of a dispatch leaves the workers alone, or settles the launch and touches the
worker of its session only. -/
theorem launchEvent_workers {disk : Disk} {id : String} {target : LaunchTarget}
    {ev : LaunchAuditEvent} {audit : Option SecurityAuditInput} {uuid : String}
    {io : WriteOutcome} (hev : target = .launching → ev.runId = none) :
    (contents (Store.step env disk (.recordLaunchEvent id target ev audit uuid, io))).workers =
        (contents disk).workers ∨
      ∃ b ∈ (contents disk).assignments, b.id = id ∧
        (∀ w ∈ (contents (Store.step env disk
          (.recordLaunchEvent id target ev audit uuid, io))).workers,
          w.id ≠ b.sessionId → w ∈ (contents disk).workers) ∧
        ∀ a ∈ (contents (Store.step env disk
          (.recordLaunchEvent id target ev audit uuid, io))).assignments,
          a.id = id → ¬ Pending a := by
  rcases step_cases env disk (.recordLaunchEvent id target ev audit uuid) io with
    e | ⟨next, hs, hn, -, e⟩
  · rw [e]
    exact Or.inl rfl
  rw [e]
  obtain ⟨-, b, hb, ⟨-, -, hr⟩ | ⟨-, -, -, -, -, hadv⟩⟩ := recordLaunchEvent_next hs.uniqueWorkers hn
  · exact Or.inl hr.workers
  by_cases hl : target = .launching
  · exact Or.inl (hadv.untouched (hev hl) (by rw [hl]; decide))
  have hbid := Keyed.key_of_lookup hb
  refine Or.inr ⟨b, Keyed.mem_of_lookup hb, hbid, hadv.others, ?_⟩
  intro a ha haid
  have ha' : a ∈ Keyed.put (·.id) (advanceAssignment env target ev b) (contents disk).assignments :=
    hadv.assignments ▸ ha
  rcases Keyed.mem_put ha' with rfl | ⟨-, hne⟩
  · cases target with
    | launching => exact absurd rfl hl
    | launched => rintro (h | h) <;> cases h
    | failed => rintro (h | h) <;> cases h
  · exact absurd (haid.trans hbid.symm) hne

/-- A resumed dispatch leaves the workers alone, or settles its launch and touches the worker of
its session only. -/
theorem resume_workers {pc : Pc} {id : String} {disk : Disk} (h : pc.Expects (contents disk) id)
    (runs : ProviderRuns) (input : Input) :
    (contents (pc.resume env id disk runs input).disk).workers = (contents disk).workers ∨
      ∃ b ∈ (contents disk).assignments, b.id = id ∧
        (∀ w ∈ (contents (pc.resume env id disk runs input).disk).workers,
          w.id ≠ b.sessionId → w ∈ (contents disk).workers) ∧
        ∀ a ∈ (contents (pc.resume env id disk runs input).disk).assignments,
          a.id = id → ¬ Pending a := by
  have haudit : ∀ input uuid now io, (contents (Store.step env disk
      (.appendSecurityAudit input uuid now, io))).workers = (contents disk).workers := by
    intro input uuid now io
    rcases step_cases env disk (.appendSecurityAudit input uuid now) io with e | ⟨next, -, hn, -, e⟩
    · rw [e]
    · rw [e]
      obtain ⟨events, head, rfl⟩ := appendSecurityAudit_next hn
      rfl
  rw [resume_disk]
  cases pc <;> cases input <;> try exact Or.inl rfl
  case auditing.store => exact Or.inl (haudit ..)
  case auditingIntent.store => exact Or.inl (haudit ..)
  case reservingRefused.store =>
    obtain rfl := h.1
    exact launchEvent_workers fun _ => rfl
  case reserving.store =>
    obtain rfl := h.1
    exact launchEvent_workers fun _ => rfl
  case failingRefused.store =>
    obtain rfl := h.1
    exact launchEvent_workers fun e => by cases e
  case failing.store =>
    obtain rfl := h.1
    exact launchEvent_workers fun e => by cases e
  case recordingLaunched.store =>
    obtain rfl := h.1
    exact launchEvent_workers fun e => by cases e

section
variable {sys : System} {d : ℕ} {f : Frame} {input : Input}

/-- The worker of a pending launch after a dispatch resumed is the worker from before, and so is
the launch up to its status. -/
theorem resume_pending (h : Sound env sys) (hpaired : Paired (contents sys.disk)) (hf : sys.FrameAt d f)
    {a : Assignment}
    (ha : a ∈ (contents (f.pc.resume env f.id sys.disk sys.runs input).disk).assignments)
    (hp : Pending a) {w : Worker}
    (hw : w ∈ (contents (f.pc.resume env f.id sys.disk sys.runs input).disk).workers)
    (hid : w.id = a.sessionId) :
    w ∈ (contents sys.disk).workers ∧ ∃ b ∈ (contents sys.disk).assignments, a.id = b.id ∧
      a.idempotencyKey = b.idempotencyKey ∧ a.sessionId = b.sessionId ∧ Pending b ∧
      (a.id ≠ f.id → a = b) := by
  have hexp := h.frames d f hf
  have htouch := @resume_touches env f.pc f.id sys.disk hexp sys.runs input
  obtain ⟨b, hb, hbid, hbk, hbs, hbp, hsame⟩ := htouch.sources a ha
  refine ⟨?_, b, hb, hbid, hbk, hbs, hbp hp, hsame⟩
  rcases @resume_workers env f.pc f.id sys.disk hexp sys.runs input with e | ⟨c, hc, hcid, hothers, hset⟩
  · rw [e] at hw
    exact hw
  · refine hothers w hw fun e => ?_
    have hbc : b = c := Keyed.eq_of_key hpaired.sessions hb hc (hbs.symm.trans (hid.symm.trans e))
    exact hset a ha (by rw [hbid, hbc, hcid]) hp

theorem resume_paired (h : Sound env sys) (hpaired : Paired (contents sys.disk))
    (hf : sys.FrameAt d f) :
    Paired (contents (f.pc.resume env f.id sys.disk sys.runs input).disk) := by
  have htouch := @resume_touches env f.pc f.id sys.disk (h.frames d f hf) sys.runs input
  refine ⟨?_, ?_, ?_⟩
  · rw [htouch.sessions]
    exact hpaired.sessions
  · intro a ha
    obtain ⟨b, hb, -, -, hbs, -⟩ := htouch.sources a ha
    obtain ⟨w, hw, hwid⟩ := hpaired.workers b hb
    obtain ⟨w', hw', hl⟩ : ∃ w' ∈ (contents (f.pc.resume env f.id sys.disk sys.runs
        input).disk).workers, w.Later w' := by
      rw [resume_disk]
      split
      · exact ⟨w, hw, .refl w⟩
      · exact forward_step sys.disk _ h.valid w hw
    exact ⟨w', hw', by rw [hl.id, hwid, hbs]⟩
  · intro a ha hp w hw hid
    obtain ⟨hw, b, hb, -, -, hbs, hbp, -⟩ := resume_pending h hpaired hf ha hp hw hid
    exact hpaired.unbound b hb hbp w hw (hid.trans hbs)

end

/-- **Pending launches are unbound** after every step. -/
theorem paired_step {sys : System} (h : Sound env sys) (hp : Paired (contents sys.disk))
    (act : Act) : Paired (contents (step env sys act).disk) := by
  rcases @step_world env sys act with ⟨hd, -⟩ | ⟨c, io, -, hc, hd, -⟩ | ⟨d, input, f, -, hf, hd, -⟩
  · rw [hd]
    exact hp
  · rw [hd]
    exact service_paired h hp hc
  · rw [hd]
    exact resume_paired h hp hf

end AgentOrchestrator.Launch
