import AgentOrchestrator.Launch.FailedLaunch
import AgentOrchestrator.Security.Workspace

/-!
# The workspace of a launch

The launch service asks the workspace authorizer on every dispatch, also on one that recovers a
launch from before a crash.  When the answers are those of the registered authorizer, no dispatch of
any run calls the provider but for a workspace that was granted and revalidated in that dispatch,
and in the directory the assignment has on file.  An act of a run comes with what the authorizer
finds while it answers: the moments of its authorization and those of its revalidation.
-/

namespace AgentOrchestrator.Launch

open Store
open Security (Moment WorkspaceGrant Granted Unchanged)

variable {env : Env}

/-! ## The answers of the registered authorizer -/

variable (authorizer : Security.Authorizer)

def grantOf (g : WorkspaceGrant) : Grant :=
  { canonicalPath := g.canonicalPath, workspaceId := g.workspaceId, projectId := some g.projectId }

/-- What a dispatch asks: a grant for the workspace, and its first revalidation. -/
def ask (moment later : ℕ → Moment) (workspaceId : String) : Authorization := do
  let g ← Security.authorize authorizer moment workspaceId
  Security.revalidate authorizer later g
  .ok (grantOf g)

theorem ask_ok {moment later : ℕ → Moment} {workspaceId : String} {grant : Grant}
    (h : ask authorizer moment later workspaceId = .ok grant) :
    ∃ g, Granted authorizer moment workspaceId g ∧ Unchanged later g ∧ grant = grantOf g := by
  obtain ⟨g, hg, h⟩ := bind_eq_ok h
  obtain ⟨_, hrevalidate, h⟩ := bind_eq_ok h
  exact ⟨g, Security.authorize_granted authorizer hg,
    (Security.revalidate_ok_iff authorizer hg).1 hrevalidate, (Except.ok.inj h).symm⟩

/-- The grant is one of the authorizer for the workspace of the assignment, whose directory is the
one on record. -/
def Vouched (moment later : ℕ → Moment) (p : Assignment) (grant : Grant) : Prop :=
  ∃ workspaceId g, p.workspaceId = some workspaceId ∧ Granted authorizer moment workspaceId g ∧
    Unchanged later g ∧ grant = grantOf g ∧ p.workspacePath = g.canonicalPath

variable {authorizer}

theorem Vouched.congr {moment later : ℕ → Moment} {p q : Assignment} {grant : Grant}
    (h : Vouched authorizer moment later p grant) (hid : q.workspaceId = p.workspaceId)
    (hpath : q.workspacePath = p.workspacePath) : Vouched authorizer moment later q grant := by
  obtain ⟨workspaceId, g, hp, hg, hu, rfl, hdir⟩ := h
  exact ⟨workspaceId, g, hid.trans hp, hg, hu, rfl, hpath.trans hdir⟩

theorem authorize_vouched {moment later : ℕ → Moment} {p : Assignment} {answer : Authorization}
    {grant : Grant} (h : authorize p answer = .ok grant)
    (hasked : ∀ workspaceId, p.workspaceId = some workspaceId →
      answer = ask authorizer moment later workspaceId) :
    Vouched authorizer moment later p grant := by
  unfold authorize at h
  cases hp : p.workspaceId with
  | none => simp [hp] at h
  | some workspaceId =>
    obtain rfl := hasked workspaceId hp
    rw [if_neg (by simp [hp])] at h
    cases hanswer : ask authorizer moment later workspaceId with
    | error refusal =>
      rw [hanswer] at h
      cases h
    | ok granted =>
      rw [hanswer] at h
      simp only [ne_eq, ite_error_eq_ok_iff, Decidable.not_not, Except.ok.injEq] at h
      obtain ⟨hpath, rfl⟩ := h
      obtain ⟨g, hg, hu, rfl⟩ := ask_ok authorizer hanswer
      exact ⟨workspaceId, g, hp, hg, hu, rfl, hpath.symm⟩

/-! ## The assignments keep their workspaces -/

/-- The assignment is on file with this workspace. -/
def OnFile (s : DurableState) (p : Assignment) : Prop :=
  ∃ b ∈ s.assignments, b.id = p.id ∧ b.workspaceId = p.workspaceId ∧
    b.workspacePath = p.workspacePath

/-- Every assignment of the state has a version in the next one, with the same workspace. -/
def Keeps (s next : DurableState) : Prop := ∀ b ∈ s.assignments, OnFile next b

theorem OnFile.keeps {s next : DurableState} {p : Assignment} (h : OnFile s p)
    (hk : Keeps s next) : OnFile next p := by
  obtain ⟨b, hb, hid, hworkspace, hpath⟩ := h
  obtain ⟨c, hc, hcid, hcworkspace, hcpath⟩ := hk b hb
  exact ⟨c, hc, hcid.trans hid, hcworkspace.trans hworkspace, hcpath.trans hpath⟩

theorem Keeps.refl (s : DurableState) : Keeps s s := fun b hb => ⟨b, hb, rfl, rfl, rfl⟩

theorem keeps_put {s next : DurableState} {b b' : Assignment} (hid : b'.id = b.id)
    (hs : (s.assignments.map (·.id)).Nodup) (hb : b ∈ s.assignments)
    (hworkspace : b'.workspaceId = b.workspaceId) (hpath : b'.workspacePath = b.workspacePath)
    (h : next.assignments = Keyed.put (·.id) b' s.assignments) : Keeps s next := by
  intro c hc
  by_cases hcid : c.id = b'.id
  · obtain rfl := Keyed.eq_of_key hs hc hb (hcid.trans hid)
    exact ⟨b', h ▸ Keyed.mem_put_self hc hcid, hid, hworkspace, hpath⟩
  · exact ⟨c, h ▸ Keyed.mem_put_of_ne hc hcid, rfl, rfl, rfl⟩

/-- No call of the store changes the workspace of an assignment. -/
theorem store_keeps (disk : Disk) (c : Call) (io : WriteOutcome) :
    Keeps (contents disk) (contents (Store.step env disk (c, io))) := by
  by_cases hevent : c.isLaunchEvent = false
  · rcases otherCall_assignments hevent disk io with e | ⟨e, -⟩
    · rw [e]
      exact .refl _
    · intro b hb
      exact ⟨b, by rw [e]; exact List.mem_append_left _ hb, rfl, rfl, rfl⟩
  · obtain ⟨id, target, ev, audit, uuid, rfl⟩ : ∃ id target ev audit uuid,
        c = .recordLaunchEvent id target ev audit uuid := by
      cases c <;> first | exact ⟨_, _, _, _, _, rfl⟩ | exact absurd rfl hevent
    rcases step_cases env disk (.recordLaunchEvent id target ev audit uuid) io with
      e | ⟨next, hs, hn, -, e⟩
    · rw [e]
      exact .refl _
    · rw [e]
      obtain ⟨-, b, hb, ⟨-, -, hr⟩ | ⟨-, -, -, -, -, hadv⟩⟩ :=
        recordLaunchEvent_next hs.uniqueWorkers hn
      · exact keeps_put (by rfl) hs.uniqueAssignments (Keyed.mem_of_lookup hb) (by rfl) (by rfl)
          hr.assignments
      · exact keeps_put (by rfl) hs.uniqueAssignments (Keyed.mem_of_lookup hb) (by rfl) (by rfl)
          hadv.assignments

theorem resume_keeps (pc : Pc) (input : Input) (id : String) (disk : Disk) (runs : ProviderRuns) :
    Keeps (contents disk) (contents (pc.resume env id disk runs input).disk) := by
  rw [resume_disk]
  split
  · exact .refl _
  · exact store_keeps _ _ _

theorem step_keeps (sys : System) (act : Act) :
    Keeps (contents sys.disk) (contents (step env sys act).disk) := by
  rcases @step_world env sys act with ⟨hd, -⟩ | ⟨c, io, -, -, hd, -⟩ | ⟨d, input, f, -, -, hd, -⟩
  · rw [hd]
    exact .refl _
  · rw [hd]
    exact store_keeps _ _ _
  · rw [hd]
    exact resume_keeps f.pc input f.id sys.disk sys.runs

/-! ## The grant of a dispatch -/

/-- The assignment and the grant of a dispatch that was granted its workspace and has not called the
provider yet, or calls it. -/
def Pc.granted : Pc → Option (Assignment × Grant)
  | .reserving p grant => some (p, grant)
  | .lookingUp p grant => some (p, grant)
  | .auditingIntent p grant => some (p, grant)
  | .calling p grant _ => some (p, grant)
  | _ => none

/-- What a dispatch knows about its assignment. -/
def Pc.Confirmed (s : DurableState) : Pc → Prop
  | .authorizing p => OnFile s p
  | .reserving p _ | .lookingUp p _ | .auditingIntent p _ => OnFile s p
  | .calling p grant request => OnFile s p ∧ request = launchRequest p grant
  | _ => True

theorem Pc.Confirmed.keeps {pc : Pc} {s next : DurableState} (h : pc.Confirmed s)
    (hk : Keeps s next) : pc.Confirmed next := by
  cases pc with
  | authorizing p => exact OnFile.keeps h hk
  | reserving p grant => exact OnFile.keeps h hk
  | lookingUp p grant => exact OnFile.keeps h hk
  | auditingIntent p grant => exact OnFile.keeps h hk
  | calling p grant request => exact ⟨h.1.keeps hk, h.2⟩
  | _ => trivial

/-- An act, with the moments the authorizer looks at if it answers in it: while it grants the
workspace, and while it revalidates the grant. -/
abbrev Observed := Act × (ℕ → Moment) × (ℕ → Moment)

variable (env) in
def observe (sys : System) (i : Observed) : System := step env sys i.1

/-- The authorizer is the one that answers, and it is asked about the workspace on record. -/
def Asks (authorizer : Security.Authorizer) (sys : System) (i : Observed) : Prop :=
  match i.1 with
  | .resume d (.authorizer answer) => ∀ f p workspaceId, sys.FrameAt d f → f.pc = .authorizing p →
    p.workspaceId = some workspaceId → answer = ask authorizer i.2.1 i.2.2 workspaceId
  | _ => True

/-- A dispatch that goes on with a grant was given that grant. -/
theorem authorize_of_granted {p : Assignment} {answer : Authorization} {grant : Grant} {pc' : Pc}
    {id : String} {disk : Disk} {runs : ProviderRuns}
    (he : ((Pc.authorizing p).resume env id disk runs (.authorizer answer)).pc = some pc')
    (hpc' : pc' = .reserving p grant ∨ pc' = .lookingUp p grant) :
    authorize p answer = .ok grant := by
  simp only [Pc.resume] at he
  cases hanswer : authorize p answer with
  | error refusal =>
    simp only [hanswer, Option.some.injEq] at he
    rcases hpc' with rfl | rfl <;> split_ifs at he
  | ok granted =>
    simp only [hanswer, Option.some.injEq] at he
    rcases hpc' with rfl | rfl <;> split_ifs at he <;> cases he <;> rfl

theorem resume_confirmed {pc pc' : Pc} {input : Input} {id : String} {disk : Disk}
    {runs : ProviderRuns} (h : pc.Confirmed (contents disk))
    (he : (pc.resume env id disk runs input).pc = some pc') :
    pc'.Confirmed (contents (pc.resume env id disk runs input).disk) := by
  have hkeeps := @resume_keeps env pc input id disk runs
  cases resume_continues he with
  | waiting hwait => exact h.keeps hkeeps
  | read hp hst => exact OnFile.keeps ⟨_, Keyed.mem_of_lookup hp, rfl, rfl, rfl⟩ hkeeps
  | grantedNew grant hst => exact OnFile.keeps h hkeeps
  | grantedOld grant hst => exact OnFile.keeps h hkeeps
  | reserved hb hopen hmem => exact OnFile.keeps ⟨_, Keyed.mem_of_lookup hb, rfl, rfl, rfl⟩ hkeeps
  | absent hnone => exact OnFile.keeps h hkeeps
  | audited => exact ⟨OnFile.keeps h hkeeps, rfl⟩
  | _ => trivial

/-- A dispatch has a grant because it was given it now, or goes on with it. -/
theorem resume_granted {pc pc' : Pc} {input : Input} {id : String} {disk : Disk}
    {runs : ProviderRuns} (hv : Valid env disk) (h : pc.Confirmed (contents disk))
    (he : (pc.resume env id disk runs input).pc = some pc') {q : Assignment} {grant : Grant}
    (hgrant : pc'.granted = some (q, grant)) :
    (pc = .authorizing q ∧ ∃ answer, input = .authorizer answer ∧ authorize q answer = .ok grant) ∨
      ∃ p, pc.granted = some (p, grant) ∧ q.workspaceId = p.workspaceId ∧
        q.workspacePath = p.workspacePath := by
  cases resume_continues he with
  | waiting hwait => exact Or.inr ⟨q, hgrant, rfl, rfl⟩
  | grantedNew granted hst =>
    cases hgrant
    exact Or.inl ⟨rfl, _, rfl, authorize_of_granted he (.inl rfl)⟩
  | grantedOld granted hst =>
    cases hgrant
    exact Or.inl ⟨rfl, _, rfl, authorize_of_granted he (.inr rfl)⟩
  | reserved hb hopen hmem =>
    -- The reserved version is one of the assignment on file, so of the one that was authorized.
    cases hgrant
    obtain ⟨c, hc, hcid, hworkspace, hpath⟩ := h
    obtain rfl := Keyed.eq_of_key hv.uniqueAssignments (Keyed.mem_of_lookup hb) hc
      ((Keyed.key_of_lookup hb).trans hcid.symm)
    exact Or.inr ⟨_, rfl, hworkspace, hpath⟩
  | absent hnone =>
    cases hgrant
    exact Or.inr ⟨_, rfl, rfl, rfl⟩
  | audited =>
    cases hgrant
    exact Or.inr ⟨_, rfl, rfl, rfl⟩
  | _ => cases hgrant

/-! ## The act that gave the grant -/

variable (env) in
/-- The dispatcher was given the grant in the act of the run with these moments, in a dispatch of
the assignment, and has been in that dispatch with that grant ever since. -/
def GrantedIn (acts : List Observed) (d : ℕ) (id : String) (grant : Grant)
    (moment later : ℕ → Moment) : Prop :=
  ∃ before answer after,
    acts = before ++ (.resume d (.authorizer answer), moment, later) :: after ∧
    (∃ f p, (Runs.run (observe env) {} before).FrameAt d f ∧ f.id = id ∧ f.pc = .authorizing p) ∧
    ∀ l, l <+: after → ∃ f p, (Runs.run (observe env) {}
      (before ++ (.resume d (.authorizer answer), moment, later) :: l)).FrameAt d f ∧ f.id = id ∧
      f.pc.granted = some (p, grant)

/-- The dispatch goes on with its grant. -/
theorem GrantedIn.append {acts : List Observed} {d : ℕ} {id : String} {grant : Grant}
    {moment later : ℕ → Moment} (h : GrantedIn env acts d id grant moment later) {i : Observed}
    {f : Frame} (hf : (Runs.run (observe env) {} (acts ++ [i])).FrameAt d f) (hid : f.id = id)
    {p : Assignment} (hgrant : f.pc.granted = some (p, grant)) :
    GrantedIn env (acts ++ [i]) d id grant moment later := by
  obtain ⟨before, answer, after, rfl, hstart, hsince⟩ := h
  refine ⟨before, answer, after ++ [i], by simp, hstart, ?_⟩
  intro l hl
  rcases List.prefix_concat_iff.1 hl with rfl | hl
  · rw [List.append_assoc, List.cons_append] at hf
    exact ⟨f, p, hf, hid, hgrant⟩
  · exact hsince l hl

variable (env authorizer) in
/-- Every dispatch with a grant was given it for the workspace of its assignment. -/
structure Confined (acts : List Observed) : Prop where
  sound : Sound env (Runs.run (observe env) {} acts)
  frames : ∀ d f, (Runs.run (observe env) {} acts).FrameAt d f →
    f.pc.Confirmed (contents (Runs.run (observe env) {} acts).disk)
  granted : ∀ d f p grant, (Runs.run (observe env) {} acts).FrameAt d f →
    f.pc.granted = some (p, grant) → ∃ moment later,
      GrantedIn env acts d f.id grant moment later ∧ Vouched authorizer moment later p grant

theorem disk_resume {sys : System} {d : ℕ} {f : Frame} (hf : sys.FrameAt d f) (input : Input) :
    (step env sys (.resume d input)).disk = (f.pc.resume env f.id sys.disk sys.runs input).disk := by
  rcases @step_world env sys (.resume d input) with
    ⟨-, -, hidle⟩ | ⟨c, io, hact, -⟩ | ⟨d', input', f', hact, hf', hd, -⟩
  · exact absurd hf (hidle d input f rfl)
  · cases hact
  · obtain ⟨rfl, rfl⟩ := Act.resume.inj hact
    obtain rfl := Option.some.inj (hf.symm.trans hf')
    exact hd

theorem Confined.append {acts : List Observed} (h : Confined env authorizer acts) {i : Observed}
    (hasks : Asks authorizer (Runs.run (observe env) {} acts) i) :
    Confined env authorizer (acts ++ [i]) := by
  have hrun : Runs.run (observe env) {} (acts ++ [i]) =
      step env (Runs.run (observe env) {} acts) i.1 := Runs.run_append _ _ acts [i]
  refine ⟨hrun ▸ sound_step h.sound i.1, ?_, ?_⟩
  · rw [hrun]
    intro d g hg
    rcases frame_origin hg with ⟨hg, -⟩ | ⟨input, f, pc, hact, hf, hpc, rfl⟩ | ⟨-, -, -, hpc⟩
    · exact (h.frames d g hg).keeps (step_keeps _ i.1)
    · rw [hact, disk_resume hf]
      exact resume_confirmed (h.frames d f hf) hpc
    · rw [hpc]
      trivial
  · intro d g q grant hg hgrant
    have hg' := hg
    rw [hrun] at hg'
    rcases frame_origin hg' with ⟨hbefore, -⟩ | ⟨input, f, pc, hact, hf, hpc, rfl⟩ | ⟨-, -, -, hpc⟩
    · obtain ⟨moment, later, hgiven, hvouched⟩ := h.granted d g q grant hbefore hgrant
      exact ⟨moment, later, hgiven.append hg rfl hgrant, hvouched⟩
    · rcases resume_granted h.sound.valid (h.frames d f hf) hpc hgrant with
        ⟨hauthorizing, answer, rfl, hanswer⟩ | ⟨p, hp, hid, hpath⟩
      · obtain ⟨act, moment, later⟩ := i
        obtain rfl : act = .resume d (.authorizer answer) := hact
        refine ⟨moment, later, ⟨acts, answer, [], rfl, ⟨f, q, hf, rfl, hauthorizing⟩, ?_⟩, ?_⟩
        · intro l hl
          rw [List.prefix_nil.1 hl]
          exact ⟨_, q, hg, rfl, hgrant⟩
        · exact authorize_vouched hanswer fun workspaceId hworkspace =>
            hasks f q workspaceId hf hauthorizing hworkspace
      · obtain ⟨moment, later, hgiven, hvouched⟩ := h.granted d f p grant hf hp
        exact ⟨moment, later, hgiven.append hg rfl hgrant, hvouched.congr hid hpath⟩
    · rw [hpc] at hgrant
      cases hgrant

theorem confined_run {acts : List Observed}
    (hasks : Runs.Admissible (observe env) (Asks authorizer) {} acts) :
    Confined env authorizer acts := by
  induction acts using List.reverseRecOn with
  | nil =>
    refine ⟨sound_init, fun d f hf => ?_, fun d f p grant hf => ?_⟩
    · cases hf
    · cases hf
  | append_singleton acts i ih =>
    obtain ⟨hbefore, hlast, -⟩ := (Runs.admissible_append _).1 hasks
    exact (ih hbefore).append hlast

/-- **No launch outside a workspace.** In every run whose dispatches ask the registered authorizer,
with any number of dispatchers, crashes and recoveries, and with an inventory and a file system that
change at any time, a dispatch that calls the provider calls it for the workspace its assignment
has on file, in the directory the assignment has on file; in an act of this dispatch that workspace
was granted at the moments of that act, and its registration and directories were unchanged at the
moments when the act revalidated the grant. -/
theorem launch_confined {acts : List Observed}
    (hasks : Runs.Admissible (observe env) (Asks authorizer) {} acts) {d : ℕ} {f : Frame}
    (hf : (Runs.run (observe env) {} acts).FrameAt d f) {p : Assignment} {grant : Grant}
    {request : LaunchRequest} (hpc : f.pc = .calling p grant request) :
    ∃ moment later g, GrantedIn env acts d f.id grant moment later ∧
      Granted authorizer moment request.workspaceId g ∧ Unchanged later g ∧ grant = grantOf g ∧
      request.workspacePath = g.workspaceDirectory.path ∧
      ∃ b ∈ (contents (Runs.run (observe env) {} acts).disk).assignments, b.id = f.id ∧
        b.workspaceId = some request.workspaceId ∧ b.workspacePath = request.workspacePath := by
  have hconfined := confined_run hasks
  have hframe := hconfined.frames d f hf
  have hexpects := hconfined.sound.frames d f hf
  obtain ⟨moment, later, hgiven, hvouched⟩ :=
    hconfined.granted d f p grant hf (by rw [hpc]; rfl)
  rw [hpc] at hframe hexpects
  obtain ⟨⟨b, hb, hbid, hworkspace, hpath⟩, rfl⟩ := hframe
  obtain ⟨workspaceId, g, hp, hg, hu, rfl, hdir⟩ := hvouched
  have hgid : g.workspaceId = workspaceId := hg.id.1
  refine ⟨moment, later, g, hgiven, ?_, hu, rfl, rfl, b, hb, hbid.trans hexpects.1.1, ?_,
    hpath.trans hdir⟩
  · show Granted authorizer moment g.workspaceId g
    rw [hgid]
    exact hg
  · rw [hworkspace, hp, ← hgid]
    rfl

/-! ## A launch in an approved workspace -/

/-- The worktree of the sample stands outside of its project. -/
def externalMoment : Moment :=
  { inventory := .ok
      { hostId := "host", organizationId := "org", projects := [{ id := "p-1", path := some "/repo" }]
        workspaces := [{ id := "w1", organizationId := "org", projectId := "p-1", hostId := "host",
                         createdByUserId := none, worktreePath := "/w", worktreeExists := true }] }
    realpath := some
    stat := fun _ => some { isDirectory := true, dev := 1, ino := 2 } }

def approving : Security.Authorizer :=
  { externalWorkspaces := [{ workspaceId := "w1", projectId := "p-1", canonicalPath := "/w" }] }

/-- Nothing changes while the authorizer answers. -/
def still (act : Act) : Observed := (act, fun _ => externalMoment, fun _ => externalMoment)

/-- The sample launch is accepted and read by a dispatcher. -/
def sampleRead : List Observed :=
  [still (.service (.acceptLaunch sampleInput sampleBatch "u1") .written), still (.start 0),
    still (.lock 0), still (.resume 0 .read)]

/-- The dispatcher goes as far as the call to the provider. -/
def sampleGranted : List Observed :=
  [still (.resume 0 (.authorizer
      (ask approving (fun _ => externalMoment) (fun _ => externalMoment) "w1"))),
    still (.resume 0 (stored "u2")), still (.resume 0 (stored "u3"))]

/-- The workspace that is being authorized. -/
def Pc.authorizes : Pc → Option String
  | .authorizing a => a.workspaceId
  | _ => none

/-- The call to the provider is for the workspace. -/
def Pc.callsIn (workspaceId path : String) : Pc → Bool
  | .calling _ _ request => request.workspaceId = workspaceId && request.workspacePath = path
  | _ => false

theorem launch_confined_sample :
    ∃ moment later g,
      GrantedIn plainEnv (sampleRead ++ sampleGranted) 0 "a1" (grantOf g) moment later ∧
      Granted approving moment "w1" g ∧ Unchanged later g ∧ g.workspaceDirectory.path = "/w" := by
  have hread : ((Runs.run (observe plainEnv) {} sampleRead).dispatchers 0).frame.bind
      (fun f => f.pc.authorizes) = some "w1" := by decide +kernel
  have hcalls : ((Runs.run (observe plainEnv) {} (sampleRead ++ sampleGranted)).dispatchers 0).frame.any
      (fun f => decide (f.id = "a1") && f.pc.callsIn "w1" "/w") = true := by decide +kernel
  have hasks : Runs.Admissible (observe plainEnv) (Asks approving) {} (sampleRead ++ sampleGranted) := by
    refine (Runs.admissible_append (observe plainEnv)).2
      ⟨⟨trivial, trivial, trivial, trivial, trivial⟩, ?_, trivial, trivial, trivial⟩
    intro f p workspaceId hf hpc hworkspace
    rw [hf, Option.bind_some, hpc] at hread
    obtain rfl := Option.some.inj (hworkspace.symm.trans hread)
    rfl
  obtain ⟨f, hf, hboth⟩ := (Option.any_eq_true _ _).1 hcalls
  obtain ⟨hid, hrequest⟩ := Bool.and_eq_true_iff.1 hboth
  cases hpc : f.pc with
  | calling p grant request =>
    simp only [hpc, Pc.callsIn, Bool.and_eq_true, decide_eq_true_eq] at hrequest
    obtain ⟨moment, later, g, hgiven, hg, hu, rfl, hpath, -⟩ := launch_confined hasks hf hpc
    rw [hrequest.1] at hg
    rw [of_decide_eq_true hid] at hgiven
    exact ⟨moment, later, g, hgiven, hg, hu, hpath.symm.trans hrequest.2⟩
  | _ => simp [hpc, Pc.callsIn] at hrequest

end AgentOrchestrator.Launch
