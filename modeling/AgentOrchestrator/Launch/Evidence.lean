import AgentOrchestrator.Launch.FailedLaunch

/-!
# Evidence of a launch

The provider is called for an assignment only when the file holds the reservation of its launch and
an allowed `launch_intent` in the security audit (`launch_after_evidence`), whatever the other
parties do in between.  A dispatch whose reservation or audit was not persisted goes on to points
that do not lead to a call (`Pc.Past`).
-/

namespace AgentOrchestrator.Launch

open Store

variable {env : Env}

/-- The audit of the launch of the assignment is on file. -/
def Intended (env : Env) (s : DurableState) (a : Assignment) : Prop :=
  ∃ e ∈ s.securityAuditEvents, e.decision = .allowed ∧ e.operation = env.auditField "sessions_launch" ∧
    e.reasonCode = env.auditField "launch_intent" ∧ e.assignmentId = some (env.auditField a.id) ∧
    e.correlationId = env.auditField a.idempotencyKey

/-- What the file holds when the provider is called for the assignment. -/
structure Evidence (env : Env) (s : DurableState) (a : Assignment) : Prop where
  /-- The launch is reserved: the status is launching, or a later one. -/
  reserved : ∃ b ∈ s.assignments, b.id = a.id ∧ b.idempotencyKey = a.idempotencyKey ∧
    b.status ≠ .accepted
  audited : Intended env s a

theorem Intended.grow {s next : DurableState} {a : Assignment} (h : Intended env s a)
    (hevents : s.securityAuditEvents <+: next.securityAuditEvents) : Intended env next a := by
  obtain ⟨e, he, hrest⟩ := h
  exact ⟨e, hevents.subset he, hrest⟩

/-- An audit that succeeded is on file. -/
theorem intended_of_audit {a : Assignment} {projectId : Option String} {uuid : String}
    {now : Timestamp} {io : WriteOutcome} {disk : Disk}
    (h : (auditAssignment env a .allowed "launch_intent" projectId uuid now io disk).2 = .ok ()) :
    Intended env (contents
      (auditAssignment env a .allowed "launch_intent" projectId uuid now io disk).1) a := by
  have happend : ∀ {s value memory}, appendSecurityAudit env
      (auditAssignmentInput a .allowed "launch_intent" projectId) uuid now s ≠
        .reply value memory := by
    intro s value memory hreply
    unfold appendSecurityAudit at hreply
    split at hreply <;> cases hreply
  rcases perform_ok h with ⟨memory, hreply⟩ | ⟨next, -, hcommit, -, hdisk⟩
  · exact absurd hreply happend
  · unfold auditAssignment
    rw [hdisk]
    unfold appendSecurityAudit at hcommit
    split at hcommit
    · cases hcommit
    · rename_i t ht
      obtain ⟨-, rfl⟩ := Body.commit.inj hcommit
      obtain ⟨-, -, rfl⟩ := (appendSecurityAuditToState_ok env).1 ht
      exact ⟨_, List.mem_append_right _ List.mem_cons_self, rfl, rfl, rfl, rfl, rfl⟩

/-- A dispatch comes to the call of the provider with its intent on file. -/
theorem intended_of_resume {pc : Pc} {input : Input} {id : String} {disk : Disk}
    {runs : ProviderRuns} {a : Assignment} {grant : Grant} {request : LaunchRequest}
    (h : (pc.resume env id disk runs input).pc = some (.calling a grant request)) :
    pc = .calling a grant request ∨
      Intended env (contents (pc.resume env id disk runs input).disk) a := by
  cases resume_continues h with
  | waiting => exact Or.inl rfl
  | @audited _ _ now uuid failure io =>
    refine Or.inr ?_
    simp only [Pc.resume] at h ⊢
    split at h
    · rename_i hok
      exact intended_of_audit hok
    · cases h

/-! ## Runs -/

/-- Every dispatch that calls the provider has its intent on file. -/
def AllIntended (env : Env) (sys : System) : Prop :=
  ∀ d f, sys.FrameAt d f → ∀ a grant request, f.pc = .calling a grant request →
    Intended env (contents sys.disk) a

theorem events_step (sys : System) (act : Act) : (contents sys.disk).securityAuditEvents <+:
    (contents (step env sys act).disk).securityAuditEvents := by
  rcases @step_world env sys act with ⟨hd, -⟩ | ⟨c, io, -, -, hd, -⟩ | ⟨d, input, f, -, -, hd, -⟩
  · exact hd ▸ List.prefix_rfl
  · rw [hd]
    exact step_events _ _
  · rw [hd, resume_disk]
    split
    · exact List.prefix_rfl
    · exact step_events _ _

theorem allIntended_step {sys : System} (h : AllIntended env sys) (act : Act) :
    AllIntended env (step env sys act) := by
  have hgrow := @events_step env sys act
  intro d g hg a grant request hpc
  rcases frame_origin hg with ⟨hold, -⟩ | ⟨input, f, pc, rfl, hf, hresume, rfl⟩ | ⟨-, -, -, hlocked⟩
  · exact (h d g hold a grant request hpc).grow hgrow
  · dsimp only at hpc
    subst hpc
    rcases intended_of_resume hresume with hwaiting | hintended
    · exact (h d f hf a grant request hwaiting).grow hgrow
    · rcases @step_world env sys (.resume d input) with ⟨-, -, hidle⟩ | ⟨c, io, hact, -⟩ |
          ⟨d', input', f', hact, hf', hd, -⟩
      · exact absurd hf (hidle d input f rfl)
      · cases hact
      · cases hact
        obtain rfl := Option.some.inj (hf.symm.trans hf')
        rw [hd]
        exact hintended
  · rw [hlocked] at hpc
    cases hpc

theorem allIntended_run (acts : List Act) : AllIntended env (Runs.run (step env) {} acts) := by
  refine Runs.run_invariant (step env) (P := AllIntended env) (fun _ act h => allIntended_step h act)
    ?_ acts
  intro d f hf
  cases hf

/-! ## Failed persistence -/

/-- The call to the store that reserves the launch, or audits the intent, throws. -/
def Pc.PersistFails (env : Env) (disk : Disk) : Pc → Input → Prop
  | .reserving a _, .store now uuid io _ =>
    ∃ e, (recordEvent env a .launching (reserveEvent a now) none uuid io disk).2 = .error e
  | .auditingIntent a grant, .store now uuid io _ =>
    ∃ e, (auditAssignment env a .allowed "launch_intent" grant.projectId uuid now io disk).2 = .error e
  | _, _ => False

/-- The dispatch will not call the provider any more. -/
def Pc.Past : Pc → Prop
  | .auditing .. | .reservingRefused .. | .failingRefused .. | .recovering .. | .failing ..
  | .recordingLaunched .. => True
  | _ => False

theorem Pc.Past.resume {pc pc' : Pc} {input : Input} {id : String} {disk : Disk}
    {runs : ProviderRuns} (h : pc.Past) (he : (pc.resume env id disk runs input).pc = some pc') :
    pc'.Past := by
  cases resume_continues he with
  | waiting => exact h
  | read | denied | refusedNew | refusedOld | grantedNew | grantedOld | reserved | absent | audited =>
    cases h
  | _ => trivial

theorem Pc.PersistFails.past {pc pc' : Pc} {input : Input} {id : String} {disk : Disk}
    {runs : ProviderRuns} (h : pc.PersistFails env disk input)
    (he : (pc.resume env id disk runs input).pc = some pc') : pc'.Past := by
  unfold Pc.PersistFails at h
  split at h
  · obtain ⟨e, herror⟩ := h
    simp only [Pc.resume, herror, afterReserve] at he
    cases he
  · obtain ⟨e, herror⟩ := h
    simp only [Pc.resume, herror] at he
    cases he
    trivial
  · cases h

/-- Until a dispatcher takes the next lock, a dispatch that is past its call stays so. -/
theorem past_run {d : ℕ} {later : List Act} : ∀ {sys : System},
    (∀ g, sys.FrameAt d g → g.pc.Past) → .lock d ∉ later →
      ∀ g, (Runs.run (step env) sys later).FrameAt d g → g.pc.Past := by
  induction later with
  | nil =>
    intro sys h _ g hg
    exact h g hg
  | cons act later ih =>
    intro sys h hlock g hg
    rw [List.mem_cons, not_or] at hlock
    refine ih (fun g hg => ?_) hlock.2 g hg
    rcases frame_origin hg with ⟨hold, -⟩ | ⟨input, f, pc, rfl, hf, hresume, rfl⟩ | ⟨hact, -⟩
    · exact h g hold
    · exact (h f hf).resume hresume
    · exact absurd hact.symm hlock.1

/-- **Every launch is preceded by durable evidence.** In every run, a dispatch that calls the
provider has the reservation and the audit of its launch on file; a dispatch whose reservation or
audit failed to persist does not call the provider before its dispatcher takes the next lock. -/
theorem launch_after_evidence (env : Env) (acts : List Act) (d : ℕ) (f : Frame)
    (hf : (Runs.run (step env) {} acts).FrameAt d f) :
    (∀ a grant request, f.pc = .calling a grant request →
      a.id = f.id ∧ request.idempotencyKey = a.idempotencyKey ∧
        Evidence env (contents (Runs.run (step env) {} acts).disk) a) ∧
    ∀ input later, f.pc.PersistFails env (Runs.run (step env) {} acts).disk input →
      .lock d ∉ later → ∀ g, (Runs.run (step env) {} (acts ++ .resume d input :: later)).FrameAt d g →
        ∀ a grant request, g.pc ≠ .calling a grant request := by
  constructor
  · intro a grant request hpc
    have hexpects := (@sound_run env acts).frames d f hf
    rw [hpc] at hexpects
    obtain ⟨⟨hid, b, hb, hbid, hkey, -, hstatus⟩, hrequest⟩ := hexpects
    refine ⟨hid, hrequest, ⟨b, hb, hbid.trans hid.symm, hkey, ?_⟩,
      @allIntended_run env acts d f hf a grant request hpc⟩
    rw [hstatus]
    nofun
  · intro input later hfails hlock g hg a grant request hpc
    rw [Runs.run_append, Runs.run_cons] at hg
    have hpast : ∀ g, (step env (Runs.run (step env) {} acts) (.resume d input)).FrameAt d g →
        g.pc.Past := by
      intro g hg
      rcases frame_origin hg with ⟨-, hne⟩ | ⟨input', f', pc, hact, hf', hresume, rfl⟩ | ⟨hact, -⟩
      · exact absurd rfl (hne input)
      · cases hact
        obtain rfl := Option.some.inj (hf.symm.trans hf')
        exact hfails.past hresume
      · cases hact
    have hlast := past_run hpast hlock g hg
    rw [hpc] at hlast
    exact hlast

/-- The sample launch as far as the audit of its intent. -/
def sampleIntent : List Act := sampleReserved.dropLast

/-- A store call whose write fails. -/
def unstored : Input := .store "2026-01-02" "u3" .failedBeforeRename "disk full"

theorem launch_after_evidence_sample :
    (∃ f a grant request, (Runs.run (step plainEnv) {} sampleReserved).FrameAt 0 f ∧
      f.pc = .calling a grant request ∧
      Evidence plainEnv (contents (Runs.run (step plainEnv) {} sampleReserved).disk) a) ∧
    ∃ f, (Runs.run (step plainEnv) {} sampleIntent).FrameAt 0 f ∧
      f.pc.PersistFails plainEnv (Runs.run (step plainEnv) {} sampleIntent).disk unstored ∧
      ∀ later, .lock 0 ∉ later →
        ∀ g, (Runs.run (step plainEnv) {} (sampleIntent ++ .resume 0 unstored :: later)).FrameAt 0 g →
          ∀ a grant request, g.pc ≠ .calling a grant request := by
  constructor
  · have hcalls : ((Runs.run (step plainEnv) {} sampleReserved).dispatchers 0).frame.any
        (fun f => match f.pc with | .calling .. => true | _ => false) = true := by decide +kernel
    obtain ⟨f, hf, hcalling⟩ := (Option.any_eq_true _ _).1 hcalls
    split at hcalling
    · rename_i a grant request hpc
      obtain ⟨-, -, hevidence⟩ := (launch_after_evidence plainEnv sampleReserved 0 f hf).1 a grant
        request hpc
      exact ⟨f, a, grant, request, hf, hpc, hevidence⟩
    · cases hcalling
  · have haudits : ((Runs.run (step plainEnv) {} sampleIntent).dispatchers 0).frame.any
        (fun f => match f.pc with
          | .auditingIntent a grant => (auditAssignment plainEnv a .allowed "launch_intent"
              grant.projectId "u3" "2026-01-02" .failedBeforeRename
              (Runs.run (step plainEnv) {} sampleIntent).disk).2.toOption.isNone
          | _ => false) = true := by decide +kernel
    obtain ⟨f, hf, hauditing⟩ := (Option.any_eq_true _ _).1 haudits
    have hfails : f.pc.PersistFails plainEnv (Runs.run (step plainEnv) {} sampleIntent).disk
        unstored := by
      split at hauditing
      · rename_i a grant hpc
        rw [hpc]
        cases hresult : (auditAssignment plainEnv a .allowed "launch_intent" grant.projectId "u3"
            "2026-01-02" .failedBeforeRename
            (Runs.run (step plainEnv) {} sampleIntent).disk).2 with
        | error e => exact ⟨e, hresult⟩
        | ok u =>
          rw [hresult] at hauditing
          cases hauditing
      · cases hauditing
    exact ⟨f, hf, hfails, fun later =>
      (launch_after_evidence plainEnv sampleIntent 0 f hf).2 unstored later hfails⟩

end AgentOrchestrator.Launch
