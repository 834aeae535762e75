import AgentOrchestrator.Launch.Frames
import AgentOrchestrator.Store.Changes

/-!
# What holds in every state of the launch system

The dispatch locks keep two dispatches of one assignment apart, so what a dispatch has read about
its assignment stays true while it waits (`Pc.Expects`): nobody else records launch events for it.
A run at the provider is evidence of a launch that was begun in the store before.  Both hold for
every provider, every authorizer and every interleaving (`sound_run`).
-/

namespace AgentOrchestrator.Launch

open Store

variable {env : Env}

/-- The assignment `a` of a dispatch is on file under `id` with this status. -/
def On (s : DurableState) (id : String) (a : Assignment) (status : AssignmentLaunchStatus) : Prop :=
  a.id = id ∧ ∃ b ∈ s.assignments, b.id = id ∧ b.idempotencyKey = a.idempotencyKey ∧
    b.sessionId = a.sessionId ∧ b.status = status

/-- What a dispatch knows about its assignment at each point. -/
def Pc.Expects (s : DurableState) (id : String) : Pc → Prop
  | .locked | .auditing .. => True
  | .authorizing a => On s id a a.status ∧ (a.status = .accepted ∨ a.status = .launching)
  | .reservingRefused a _ | .reserving a _ => On s id a .accepted
  | .failingRefused a _ | .lookingUp a _ | .auditingIntent a _ | .recovering a _ _
  | .failing a _ _ _ | .recordingLaunched a _ _ => On s id a .launching
  | .calling a _ request => On s id a .launching ∧ request.idempotencyKey = a.idempotencyKey

/-! ## Launch events of one assignment -/

/-- The launch of the assignment is not settled. -/
def Pending (a : Assignment) : Prop := a.status = .accepted ∨ a.status = .launching

/-- The next state differs from the state at most in the assignment `id`, which keeps its
identities and does not go back to accepted. -/
structure Touches (id : String) (s next : DurableState) : Prop where
  keys : next.assignments.map (·.idempotencyKey) = s.assignments.map (·.idempotencyKey)
  sessions : next.assignments.map (·.sessionId) = s.assignments.map (·.sessionId)
  others : ∀ b ∈ s.assignments, b.id ≠ id → b ∈ next.assignments
  sources : ∀ b' ∈ next.assignments, ∃ b ∈ s.assignments, b'.id = b.id ∧
    b'.idempotencyKey = b.idempotencyKey ∧ b'.sessionId = b.sessionId ∧
    (Pending b' → Pending b) ∧ (b'.id ≠ id → b' = b)
  versions : ∀ b ∈ s.assignments, ∃ b' ∈ next.assignments, b'.id = b.id ∧
    b'.idempotencyKey = b.idempotencyKey ∧ b'.sessionId = b.sessionId ∧
    (b.status ≠ .accepted → b'.status ≠ .accepted)

theorem Touches.refl (id : String) (s : DurableState) : Touches id s s :=
  ⟨rfl, rfl, fun _ hb _ => hb, fun b hb => ⟨b, hb, rfl, rfl, rfl, fun h => h, fun _ => rfl⟩,
    fun b hb => ⟨b, hb, rfl, rfl, rfl, fun h => h⟩⟩

theorem Touches.of_eq {id : String} {s next : DurableState}
    (h : next.assignments = s.assignments) : Touches id s next := by
  have hmem : ∀ b, b ∈ next.assignments ↔ b ∈ s.assignments := fun b => by rw [h]
  exact ⟨by rw [h], by rw [h], fun b hb _ => (hmem b).2 hb,
    fun b hb => ⟨b, (hmem b).1 hb, rfl, rfl, rfl, fun e => e, fun _ => rfl⟩,
    fun b hb => ⟨b, (hmem b).2 hb, rfl, rfl, rfl, fun e => e⟩⟩

/-- Replacing an assignment by a version with the same identities. -/
theorem Touches.put {s next : DurableState} {a a' : Assignment}
    (hs : (s.assignments.map (·.id)).Nodup) (ha : a ∈ s.assignments) (hid : a'.id = a.id)
    (hkey : a'.idempotencyKey = a.idempotencyKey) (hsession : a'.sessionId = a.sessionId)
    (hstatus : a'.status ≠ .accepted) (hpending : Pending a' → Pending a)
    (h : next.assignments = Keyed.put (·.id) a' s.assignments) : Touches a.id s next := by
  -- A field that the new version keeps is the same along the whole list.
  have hfield : ∀ g : Assignment → String, g a' = g a →
      next.assignments.map g = s.assignments.map g := by
    intro g hg
    rw [h]
    unfold Keyed.put
    rw [List.map_map]
    refine List.map_congr_left fun b hb => ?_
    show g (if b.id = a'.id then a' else b) = g b
    split_ifs with hb'
    · rw [Keyed.eq_of_key hs hb ha (hb'.trans hid)]
      exact hg
    · rfl
  refine ⟨hfield _ hkey, hfield _ hsession, ?_, ?_, ?_⟩
  · intro b hb hne
    rw [h]
    exact Keyed.mem_put_of_ne hb (fun e => hne (e.trans hid))
  · intro b hb
    rw [h] at hb
    rcases Keyed.mem_put hb with rfl | ⟨hb, -⟩
    · exact ⟨a, ha, hid, hkey, hsession, hpending, fun hne => absurd hid hne⟩
    · exact ⟨b, hb, rfl, rfl, rfl, fun e => e, fun _ => rfl⟩
  · intro b hb
    by_cases hb' : b.id = a'.id
    · obtain rfl := Keyed.eq_of_key hs hb ha (hb'.trans hid)
      refine ⟨a', ?_, hid, hkey, hsession, fun _ => hstatus⟩
      rw [h]
      exact Keyed.mem_put_self hb hb'
    · refine ⟨b, ?_, rfl, rfl, rfl, fun e => e⟩
      rw [h]
      exact Keyed.mem_put_of_ne hb hb'

theorem LaunchTarget.status_ne_accepted (target : LaunchTarget) : target.status ≠ .accepted := by
  cases target <;> exact fun h => by cases h

/-- A launch event touches its assignment only. -/
theorem launchEvent_touches (disk : Disk) (id : String) (target : LaunchTarget)
    (ev : LaunchAuditEvent) (audit : Option SecurityAuditInput) (uuid : String)
    (io : WriteOutcome) :
    Touches id (contents disk)
      (contents (Store.step env disk (.recordLaunchEvent id target ev audit uuid, io))) := by
  rcases step_cases env disk (.recordLaunchEvent id target ev audit uuid) io with
    e | ⟨next, hs, hn, -, e⟩
  · rw [e]
    exact .refl id _
  · rw [e]
    obtain ⟨-, a, ha, hw⟩ := recordLaunchEvent_next hs.uniqueWorkers hn
    have hmem := Keyed.mem_of_lookup ha
    obtain rfl : a.id = id := Keyed.key_of_lookup ha
    obtain ⟨-, -, hr⟩ | ⟨-, -, -, -, hallow, hadv⟩ := hw
    · have hput : (contents (some next)).assignments = _ := hr.assignments
      refine .put hs.uniqueAssignments hmem (by rfl) (by rfl) (by rfl) (fun h => by cases h) ?_ hput
      rintro (h | h) <;> cases h
    · have hput : (contents (some next)).assignments = _ := hadv.assignments
      refine .put hs.uniqueAssignments hmem (by rfl) (by rfl) (by rfl)
        (LaunchTarget.status_ne_accepted target) ?_ hput
      intro _
      cases hst : a.status with
      | accepted => exact Or.inl hst
      | launching => exact Or.inr hst
      | launched => rw [hst] at hallow; cases target <;> cases hallow
      | failed => rw [hst] at hallow; cases target <;> cases hallow

/-- A call that is not a launch event keeps the assignments and may add accepted ones. -/
theorem otherCall_assignments {c : Call} (hc : c.isLaunchEvent = false) (disk : Disk)
    (io : WriteOutcome) :
    Store.step env disk (c, io) = disk ∨ ((contents (Store.step env disk (c, io))).assignments =
        (contents disk).assignments ++ (c.offered env).map (·.1) ∧
      ∀ o ∈ c.offered env, ∀ a ∈ (contents disk).assignments,
        a.idempotencyKey ≠ o.1.idempotencyKey) := by
  rcases step_cases env disk c io with e | ⟨next, -, hn, -, e⟩
  · exact Or.inl e
  · refine Or.inr ⟨?_, Call.next_fresh hn⟩
    rw [e]
    exact Call.next_assignments hc hn

theorem On.touched {id id' : String} {s next : DurableState} {a : Assignment}
    {status : AssignmentLaunchStatus} (h : On s id a status) (ht : Touches id' s next)
    (hne : id ≠ id') : On next id a status := by
  obtain ⟨ha, b, hb, hid, hrest⟩ := h
  exact ⟨ha, b, ht.others b hb (fun e => hne (hid.symm.trans e)), hid, hrest⟩

theorem On.mono {id : String} {s next : DurableState} {a : Assignment}
    {status : AssignmentLaunchStatus} (h : On s id a status)
    (hsub : ∀ b ∈ s.assignments, b ∈ next.assignments) : On next id a status := by
  obtain ⟨ha, b, hb, hrest⟩ := h
  exact ⟨ha, b, hsub b hb, hrest⟩

/-- The expectations of a dispatch only depend on what is on file under its assignment. -/
theorem Pc.Expects.imp {id : String} {s next : DurableState}
    (hon : ∀ a status, On s id a status → On next id a status) {pc : Pc}
    (h : pc.Expects s id) : pc.Expects next id := by
  cases pc with
  | locked => trivial
  | auditing a decision reason projectId => trivial
  | authorizing a => exact ⟨hon _ _ h.1, h.2⟩
  | calling a grant request => exact ⟨hon _ _ h.1, h.2⟩
  | _ => exact hon _ _ h

/-! ## The store call of a dispatch -/

variable (env) in
/-- The store call a dispatch makes when it resumes. -/
def Pc.storeCall : Pc → Input → Option (Call × WriteOutcome)
  | .auditing a decision reason projectId, .store now uuid io _ =>
    some (.appendSecurityAudit (auditAssignmentInput a decision reason projectId) uuid now, io)
  | .auditingIntent a grant, .store now uuid io _ =>
    some (.appendSecurityAudit
      (auditAssignmentInput a .allowed "launch_intent" grant.projectId) uuid now, io)
  | .reservingRefused a _, .store now uuid io _ | .reserving a _, .store now uuid io _ =>
    some (.recordLaunchEvent a.id .launching (reserveEvent a now) none uuid, io)
  | .failingRefused a refusal, .store now uuid io _ =>
    some (.recordLaunchEvent a.id .failed
      (event a.id .launchFailed now none (some (env.redactText refusal.message)) none)
      (some (auditAssignmentInput a .denied refusal.reason none)) uuid, io)
  | .failing a grant message code, .store now uuid io _ =>
    some (.recordLaunchEvent a.id .failed
      (event a.id .launchFailed now none (some message) (some code))
      (some (auditAssignmentInput a .failed code grant.projectId)) uuid, io)
  | .recordingLaunched a grant runId, .store now uuid io _ =>
    some (.recordLaunchEvent a.id .launched
      (event a.id .executionStarted now (some runId) none none)
      (some (auditAssignmentInput a .allowed "launch_started" grant.projectId)) uuid, io)
  | _, _ => none

theorem recordEvent_disk (a : Assignment) (target : LaunchTarget) (e : LaunchAuditEvent)
    (audit : Option SecurityAuditInput) (uuid : String) (io : WriteOutcome) (disk : Disk) :
    (recordEvent env a target e audit uuid io disk).1 =
      Store.step env disk (.recordLaunchEvent a.id target e audit uuid, io) :=
  perform_disk (fun _ => rfl) io disk

theorem auditAssignment_disk (a : Assignment) (decision : AuditDecision) (reason : String)
    (projectId : Option String) (uuid : String) (now : Timestamp) (io : WriteOutcome)
    (disk : Disk) :
    (auditAssignment env a decision reason projectId uuid now io disk).1 =
      Store.step env disk
        (.appendSecurityAudit (auditAssignmentInput a decision reason projectId) uuid now, io) :=
  perform_disk (fun _ => rfl) io disk

/-- The file after a dispatch resumed is the file after its store call. -/
theorem resume_disk (pc : Pc) (input : Input) (id : String) (disk : Disk) (runs : ProviderRuns) :
    (pc.resume env id disk runs input).disk =
      match pc.storeCall env input with
      | none => disk
      | some i => Store.step env disk i := by
  cases pc <;> cases input <;> try rfl
  case locked.read =>
    simp only [Pc.resume, Pc.storeCall]
    split
    · rfl
    · split <;> rfl
  case authorizing.authorizer a answer =>
    simp only [Pc.resume, Pc.storeCall]
    split <;> rfl
  case auditing.store => exact auditAssignment_disk ..
  case reservingRefused.store => exact recordEvent_disk ..
  case failingRefused.store => exact recordEvent_disk ..
  case reserving.store => exact recordEvent_disk ..
  case lookingUp.lookup =>
    simp only [Pc.resume, Pc.storeCall]
    split <;> rfl
  case auditingIntent.store a grant now uuid io failure =>
    refine Eq.trans ?_ (@auditAssignment_disk env a .allowed "launch_intent" grant.projectId uuid
      now io disk)
    simp only [Pc.resume]
    split <;> rfl
  case calling.launch =>
    simp only [Pc.resume, Pc.storeCall]
    split <;> rfl
  case recovering.lookup a grant error answer =>
    simp only [Pc.resume, Pc.storeCall]
    split
    · rfl
    · rfl
    · rfl
    · split <;> rfl
  case failing.store => exact recordEvent_disk ..
  case recordingLaunched.store => exact recordEvent_disk ..

/-! ## A dispatch keeps its expectations -/

/-- A launch that was reserved is on file as launching, and its session was not over. -/
theorem reserved_spec {a : Assignment} {ev : LaunchAuditEvent} {uuid : String}
    {io : WriteOutcome} {disk : Disk} {next : Assignment → Pc} {pc : Pc}
    (h : afterReserve (recordEvent env a .launching ev none uuid io disk).2 next = some pc) :
    ∃ a₀, (contents disk).assignment? a.id = some a₀ ∧ sessionOver (contents disk) a₀ = false ∧
      pc = next (advanceAssignment env .launching ev a₀) ∧
      advanceAssignment env .launching ev a₀ ∈
        (contents (recordEvent env a .launching ev none uuid io disk).1).assignments := by
  unfold afterReserve at h
  cases hr : (recordEvent env a .launching ev none uuid io disk).2 with
  | error e => rw [hr] at h; cases h
  | ok record =>
    rw [hr] at h
    dsimp only at h
    split_ifs at h with ht
    have hreply : ∀ memory, recordLaunchEvent env a.id .launching ev none uuid (contents disk) ≠
        .reply record memory := by
      intro memory hm
      rw [recordLaunchEvent_reply hm] at ht
      cases ht
    rcases perform_ok hr with ⟨memory, hm⟩ | ⟨s', hs, hc, -, hdisk⟩
    · exact absurd hm (hreply memory)
    obtain ⟨-, a₀, ha₀, ⟨-, -, -, hfalse⟩ | ⟨hn, -, -, -, -, hadv, hrec⟩⟩ :=
      recordLaunchEvent_commit hs.uniqueWorkers hc
    · rw [hfalse] at ht
      cases ht
    · refine ⟨a₀, ha₀, ?_, ?_, ?_⟩
      · exact Bool.eq_false_iff.2 fun hover => hn ⟨rfl, hover⟩
      · rw [← hrec]
        exact (Option.some.inj h).symm
      · show _ ∈ (contents (perform env _ io disk).1).assignments
        rw [hdisk]
        show _ ∈ s'.assignments
        rw [hadv.assignments]
        exact Keyed.mem_put_self (Keyed.mem_of_lookup ha₀) rfl

/-- The reserved assignment has the identities the dispatch has read. -/
theorem reserved_identities {a a₀ : Assignment} {id : String} {s : DurableState}
    (hs : (s.assignments.map (·.id)).Nodup) (hon : On s id a .accepted)
    (ha₀ : s.assignment? a.id = some a₀) :
    a₀.id = id ∧ a₀.idempotencyKey = a.idempotencyKey ∧ a₀.sessionId = a.sessionId := by
  obtain ⟨hid, b, hb, hbid, hkey, hsession, -⟩ := hon
  have ha₀id : a₀.id = id := (Keyed.key_of_lookup ha₀).trans hid
  obtain rfl := Keyed.eq_of_key hs (Keyed.mem_of_lookup ha₀) hb (ha₀id.trans hbid.symm)
  exact ⟨ha₀id, hkey, hsession⟩

/-- An audit of the dispatch keeps what is on file. -/
theorem On.audited {id : String} {disk : Disk} {a : Assignment} {status : AssignmentLaunchStatus}
    (h : On (contents disk) id a status) (input : SecurityAuditInput) (uuid : String)
    (now : Timestamp) (io : WriteOutcome) :
    On (contents (Store.step env disk (.appendSecurityAudit input uuid now, io))) id a status := by
  have hc : (Call.appendSecurityAudit input uuid now).isLaunchEvent = false := rfl
  rcases otherCall_assignments hc disk io with e | ⟨e, -⟩
  · rw [e]
    exact h
  · refine h.mono fun b hb => ?_
    rw [e]
    exact List.mem_append_left _ hb

variable (env) in
/-- How a dispatch of the assignment `id` goes on. -/
inductive Continues (id : String) (disk : Disk) (runs : ProviderRuns) : Pc → Input → Pc → Prop
  /-- An input the dispatch does not wait for changes nothing. -/
  | waiting {pc : Pc} {input : Input}
      (h : pc.resume env id disk runs input = ⟨disk, runs, some pc⟩) :
    Continues id disk runs pc input pc
  | read {a : Assignment} (ha : (contents disk).assignment? id = some a)
      (hst : a.status = .accepted ∨ a.status = .launching) :
    Continues id disk runs .locked .read (.authorizing a)
  | denied {a : Assignment} {answer : Authorization} (reason : String) :
    Continues id disk runs (.authorizing a) (.authorizer answer) (.auditing a .denied reason none)
  | refusedNew {a : Assignment} {answer : Authorization} (refusal : Refusal)
      (hst : a.status = .accepted) :
    Continues id disk runs (.authorizing a) (.authorizer answer) (.reservingRefused a refusal)
  | refusedOld {a : Assignment} {answer : Authorization} (refusal : Refusal)
      (hst : a.status ≠ .accepted) (hr : authorize a answer = .error refusal)
      (hretry : refusal.retryable = false) :
    Continues id disk runs (.authorizing a) (.authorizer answer) (.failingRefused a refusal)
  | grantedNew {a : Assignment} {answer : Authorization} (grant : Grant)
      (hst : a.status = .accepted) :
    Continues id disk runs (.authorizing a) (.authorizer answer) (.reserving a grant)
  | grantedOld {a : Assignment} {answer : Authorization} (grant : Grant)
      (hst : a.status ≠ .accepted) :
    Continues id disk runs (.authorizing a) (.authorizer answer) (.lookingUp a grant)
  | reservedRefused {a a₀ : Assignment} {refusal : Refusal} {now uuid failure : String}
      {io : WriteOutcome} (ha₀ : (contents disk).assignment? a.id = some a₀)
      (hmem : advanceAssignment env .launching (reserveEvent a now) a₀ ∈
        (contents (Store.step env disk
          (.recordLaunchEvent a.id .launching (reserveEvent a now) none uuid, io))).assignments) :
    Continues id disk runs (.reservingRefused a refusal) (.store now uuid io failure)
      (.failingRefused a refusal)
  | reserved {a a₀ : Assignment} {grant : Grant} {now uuid failure : String}
      {io : WriteOutcome} (ha₀ : (contents disk).assignment? a.id = some a₀)
      (hopen : sessionOver (contents disk) a₀ = false)
      (hmem : advanceAssignment env .launching (reserveEvent a now) a₀ ∈
        (contents (Store.step env disk
          (.recordLaunchEvent a.id .launching (reserveEvent a now) none uuid, io))).assignments) :
    Continues id disk runs (.reserving a grant) (.store now uuid io failure)
      (.auditingIntent (advanceAssignment env .launching (reserveEvent a now) a₀) grant)
  | found {a : Assignment} {grant : Grant} {answer : Except LaunchError Handle} (runId : String) :
    Continues id disk runs (.lookingUp a grant) (.lookup answer) (.recordingLaunched a grant runId)
  | absent {a : Assignment} {grant : Grant} {answer : Except LaunchError Handle}
      (h : checkedHandle answer = .ok none) :
    Continues id disk runs (.lookingUp a grant) (.lookup answer) (.auditingIntent a grant)
  | unanswered {a : Assignment} {grant : Grant} {answer : Except LaunchError Handle}
      (error : LaunchError) :
    Continues id disk runs (.lookingUp a grant) (.lookup answer) (.recovering a grant error)
  | audited {a : Assignment} {grant : Grant} {now uuid failure : String} {io : WriteOutcome} :
    Continues id disk runs (.auditingIntent a grant) (.store now uuid io failure)
      (.calling a grant (launchRequest a grant))
  | unaudited {a : Assignment} {grant : Grant} {now uuid failure : String} {io : WriteOutcome} :
    Continues id disk runs (.auditingIntent a grant) (.store now uuid io failure)
      (.recovering a grant (.other failure none "POLICY_DENIED"))
  | launched {a : Assignment} {grant : Grant} {request : LaunchRequest} {created : Option String}
      {answer : Except LaunchError Handle} (runId : String) :
    Continues id disk runs (.calling a grant request) (.launch created answer)
      (.recordingLaunched a grant runId)
  | launchedNothing {a : Assignment} {grant : Grant} {request : LaunchRequest}
      {created : Option String} {answer : Except LaunchError Handle}
      (h : checkedHandle answer = .ok none) :
    Continues id disk runs (.calling a grant request) (.launch created answer)
      (.failing a grant malformedMessage "INVALID_PROVIDER_RESPONSE")
  | threw {a : Assignment} {grant : Grant} {request : LaunchRequest} {created : Option String}
      {answer : Except LaunchError Handle} (error : LaunchError) :
    Continues id disk runs (.calling a grant request) (.launch created answer)
      (.recovering a grant error)
  | recovered {a : Assignment} {grant : Grant} {error : LaunchError}
      {answer : Except LaunchError Handle} (runId : String) :
    Continues id disk runs (.recovering a grant error) (.lookup answer)
      (.recordingLaunched a grant runId)
  | unrecovered {a : Assignment} {grant : Grant} {error : LaunchError}
      {answer : Except LaunchError Handle} (reason : String) :
    Continues id disk runs (.recovering a grant error) (.lookup answer)
      (.auditing a .failed reason grant.projectId)
  | malformed {a : Assignment} {grant : Grant} {error : LaunchError}
      {answer : Except LaunchError Handle}
      (h : checkedHandle answer = .error .malformedRunHandle) :
    Continues id disk runs (.recovering a grant error) (.lookup answer)
      (.failing a grant malformedMessage "INVALID_PROVIDER_RESPONSE")
  | rejected {a : Assignment} {grant : Grant} {error : LaunchError}
      {answer : Except LaunchError Handle} (message code : String)
      (h : checkedHandle answer = .ok none) :
    Continues id disk runs (.recovering a grant error) (.lookup answer)
      (.failing a grant message code)

/-- Every way a dispatch goes on is one of these. -/
theorem resume_continues {pc pc' : Pc} {input : Input} {id : String} {disk : Disk}
    {runs : ProviderRuns} (he : (pc.resume env id disk runs input).pc = some pc') :
    Continues env id disk runs pc input pc' := by
  cases pc <;> cases input <;> try (cases he; exact .waiting rfl)
  case locked.read =>
    simp only [Pc.resume] at he
    cases hl : load env disk with
    | error e => rw [hl] at he; cases he
    | ok s =>
      obtain ⟨rfl, -⟩ := load_eq env hl
      rw [hl] at he
      dsimp only at he
      unfold assignmentForResult at he
      cases ha : (contents disk).assignment? id with
      | none => rw [ha] at he; cases he
      | some a =>
        rw [ha] at he
        dsimp only at he
        split_ifs at he with hst
        cases he
        exact .read ha hst
  case authorizing.authorizer a answer =>
    simp only [Pc.resume] at he
    split at he
    · rename_i refusal hr
      split_ifs at he with hretry hacc <;> cases he
      · exact .denied _
      · exact .refusedNew refusal hacc
      · exact .refusedOld refusal hacc hr (Bool.eq_false_iff.2 hretry)
    · split_ifs at he with hacc <;> cases he
      · exact .grantedNew _ hacc
      · exact .grantedOld _ hacc
  case auditing.store => cases he
  case reservingRefused.store a refusal now uuid io failure =>
    simp only [Pc.resume] at he
    obtain ⟨a₀, ha₀, -, rfl, hmem⟩ := reserved_spec he
    rw [recordEvent_disk] at hmem
    exact .reservedRefused ha₀ hmem
  case failingRefused.store => cases he
  case reserving.store a grant now uuid io failure =>
    simp only [Pc.resume] at he
    obtain ⟨a₀, ha₀, hopen, rfl, hmem⟩ := reserved_spec he
    rw [recordEvent_disk] at hmem
    exact .reserved ha₀ hopen hmem
  case lookingUp.lookup a grant answer =>
    simp only [Pc.resume] at he
    split at he <;> cases he
    · exact .found _
    · exact .absent ‹_›
    · exact .unanswered _
  case auditingIntent.store a grant now uuid io failure =>
    simp only [Pc.resume] at he
    split at he <;> cases he
    · exact .audited
    · exact .unaudited
  case calling.launch a grant request created answer =>
    simp only [Pc.resume] at he
    split at he <;> cases he
    · exact .launched _
    · exact .launchedNothing ‹_›
    · exact .threw _
  case recovering.lookup a grant error answer =>
    simp only [Pc.resume] at he
    split at he
    · cases he
      exact .malformed ‹_›
    · cases he
      exact .unrecovered _
    · cases he
      exact .recovered _
    · split at he
      · cases he
        exact .rejected _ _ ‹_›
      · dsimp only at he
        split_ifs at he
        cases he
        exact .rejected _ _ ‹_›
  case failing.store => cases he
  case recordingLaunched.store => cases he

theorem resume_expects {pc pc' : Pc} {input : Input} {id : String} {disk : Disk}
    {runs : ProviderRuns} (hv : Valid env disk) (h : pc.Expects (contents disk) id)
    (he : (pc.resume env id disk runs input).pc = some pc') :
    pc'.Expects (contents (pc.resume env id disk runs input).disk) id := by
  have hold : ∀ {a}, a.status ≠ .accepted → Pc.Expects (contents disk) id (.authorizing a) →
      On (contents disk) id a .launching := by
    intro a hne hexp
    rw [← hexp.2.resolve_left hne]
    exact hexp.1
  have hnew : ∀ {a}, a.status = .accepted → Pc.Expects (contents disk) id (.authorizing a) →
      On (contents disk) id a .accepted := by
    intro a hacc hexp
    rw [← hacc]
    exact hexp.1
  have hcont := resume_continues he
  rw [resume_disk]
  cases hcont with
  | waiting hwait =>
    rw [← resume_disk pc input id disk runs, hwait]
    exact h
  | read ha hst =>
    have hid := Keyed.key_of_lookup ha
    exact ⟨⟨hid, _, Keyed.mem_of_lookup ha, hid, rfl, rfl, rfl⟩, hst⟩
  | denied => trivial
  | refusedNew refusal hst => exact hnew hst h
  | refusedOld refusal hst => exact hold hst h
  | grantedNew grant hst => exact hnew hst h
  | grantedOld grant hst => exact hold hst h
  | reservedRefused ha₀ hmem =>
    obtain ⟨hid, hkey, hsession⟩ := reserved_identities hv.uniqueAssignments h ha₀
    exact ⟨h.1, _, hmem, hid, hkey, hsession, rfl⟩
  | reserved ha₀ hopen hmem =>
    obtain ⟨hid, -⟩ := reserved_identities hv.uniqueAssignments h ha₀
    exact ⟨hid, _, hmem, hid, rfl, rfl, rfl⟩
  | audited => exact ⟨On.audited h .., rfl⟩
  | unaudited => exact On.audited h ..
  | launched runId => exact h.1
  | launchedNothing hnone => exact h.1
  | threw error => exact h.1
  | unrecovered reason => trivial
  | _ => exact h

/-! ## The state file and the provider -/

/-- A resumed dispatch writes about its own assignment only. -/
theorem resume_touches {pc : Pc} {id : String} {disk : Disk} (h : pc.Expects (contents disk) id)
    (runs : ProviderRuns) (input : Input) :
    Touches id (contents disk) (contents (pc.resume env id disk runs input).disk) := by
  have haudit : ∀ input uuid now io, Touches id (contents disk)
      (contents (Store.step env disk (.appendSecurityAudit input uuid now, io))) := by
    intro input uuid now io
    have hc : (Call.appendSecurityAudit input uuid now).isLaunchEvent = false := rfl
    rcases otherCall_assignments hc disk io with e | ⟨e, -⟩
    · rw [e]
      exact .refl id _
    · rw [show (Call.appendSecurityAudit input uuid now).offered env = [] from rfl, List.map_nil,
        List.append_nil] at e
      exact .of_eq e
  rw [resume_disk]
  cases pc <;> cases input <;> try exact .refl id _
  case auditing.store => exact haudit ..
  case auditingIntent.store => exact haudit ..
  case reservingRefused.store => exact h.1 ▸ launchEvent_touches ..
  case reserving.store => exact h.1 ▸ launchEvent_touches ..
  case failingRefused.store => exact h.1 ▸ launchEvent_touches ..
  case failing.store => exact h.1 ▸ launchEvent_touches ..
  case recordingLaunched.store => exact h.1 ▸ launchEvent_touches ..

/-- The provider gains a run only for the launch call of a dispatch. -/
theorem resume_runs {pc : Pc} {id : String} {disk : Disk} {runs : ProviderRuns} {input : Input}
    {k : String} (h : (pc.resume env id disk runs input).runs k ≠ none) :
    runs k ≠ none ∨ ∃ a grant request, pc = .calling a grant request ∧
      k = request.idempotencyKey := by
  cases pc <;> cases input <;> try exact Or.inl h
  case locked.read =>
    simp only [Pc.resume] at h
    split at h
    · exact Or.inl h
    · split at h <;> exact Or.inl h
  case authorizing.authorizer =>
    simp only [Pc.resume] at h
    split at h <;> exact Or.inl h
  case lookingUp.lookup =>
    simp only [Pc.resume] at h
    split at h <;> exact Or.inl h
  case auditingIntent.store =>
    simp only [Pc.resume] at h
    split at h <;> exact Or.inl h
  case calling.launch a grant request created answer =>
    by_cases hk : k = request.idempotencyKey
    · exact Or.inr ⟨a, grant, request, rfl, hk⟩
    · refine Or.inl fun e => h ?_
      simp only [Pc.resume]
      split <;> dsimp only <;> (split <;> first | exact e | (rw [Function.update_of_ne hk]; exact e))
  case recovering.lookup =>
    simp only [Pc.resume] at h
    split at h
    · exact Or.inl h
    · exact Or.inl h
    · exact Or.inl h
    · split at h <;> exact Or.inl h

/-! ## The invariant -/

/-- **The invariant of the launch system.** -/
structure Sound (env : Env) (sys : System) : Prop where
  valid : Valid env sys.disk
  keys : ((contents sys.disk).assignments.map (·.idempotencyKey)).Nodup
  owned : sys.Owned
  frames : ∀ d f, sys.FrameAt d f → f.pc.Expects (contents sys.disk) f.id
  /-- A run at the provider was begun in the store. -/
  evidence : ∀ k, sys.runs k ≠ none →
    ∃ a ∈ (contents sys.disk).assignments, a.idempotencyKey = k ∧ a.status ≠ .accepted

theorem serviceCall_spec {s : DurableState} {c : Call} (h : serviceCall env s c = true) :
    c.isLaunchEvent = false ∧ Built (c.offered env) := by
  have hnil : Built [] := ⟨List.nodup_nil, fun o ho => by cases ho⟩
  unfold serviceCall at h
  split at h
  · cases h
  · cases h
  · cases h
  · cases h
  · exact ⟨rfl, hnil⟩
  · rename_i hn _ _ _ _
    refine ⟨?_, of_decide_eq_true h⟩
    cases c with
    | recordLaunchEvent id target ev audit uuid => exact absurd rfl (hn id target ev audit uuid)
    | _ => rfl

/-- The assignments after a service call: those before it, and new accepted ones. -/
theorem service_assignments {sys : System} {c : Call} {io : WriteOutcome}
    (h : serviceCall env (contents sys.disk) c = true) :
    ∃ added : List (Assignment × Worker), Built added ∧
      (∀ o ∈ added, ∀ a ∈ (contents sys.disk).assignments,
        a.idempotencyKey ≠ o.1.idempotencyKey) ∧
      (contents (Store.step env sys.disk (c, io))).assignments =
        (contents sys.disk).assignments ++ added.map (·.1) := by
  obtain ⟨hev, hbuilt⟩ := serviceCall_spec h
  rcases otherCall_assignments hev sys.disk io with e | ⟨e, hfresh⟩
  · refine ⟨[], ⟨List.nodup_nil, ?_⟩, ?_, ?_⟩
    · intro o ho
      cases ho
    · intro o ho
      cases ho
    · rw [e, List.map_nil, List.append_nil]
  · exact ⟨_, hbuilt, hfresh, e⟩

theorem valid_resume {disk : Disk} (h : Valid env disk) (pc : Pc) (id : String)
    (runs : ProviderRuns) (input : Input) :
    Valid env (pc.resume env id disk runs input).disk := by
  rw [resume_disk]
  split
  · exact h
  · exact valid_step env disk _ h

theorem sound_step {sys : System} (h : Sound env sys) (act : Act) : Sound env (step env sys act) := by
  have howned := @owned_step env sys h.owned act
  rcases @step_world env sys act with ⟨hd, hr, hidle⟩ | ⟨c, io, hact, hc, hd, hr⟩ |
      ⟨d, input, f, hact, hf, hd, hr⟩
  · refine ⟨by rw [hd]; exact h.valid, by rw [hd]; exact h.keys, howned, ?_, ?_⟩
    · intro d g hg
      rw [hd]
      rcases frame_origin hg with ⟨hg, -⟩ | ⟨input, f, pc, hact, hf, hpc, rfl⟩ | ⟨-, -, -, hpc⟩
      · exact h.frames d g hg
      · exact absurd hf (hidle d input f hact)
      · rw [hpc]
        trivial
    · intro k hk
      rw [hr] at hk
      rw [hd]
      exact h.evidence k hk
  · obtain ⟨added, hbuilt, hfresh, hadded⟩ := @service_assignments env sys c io hc
    have hsub : ∀ b ∈ (contents sys.disk).assignments,
        b ∈ (contents (Store.step env sys.disk (c, io))).assignments := by
      intro b hb
      rw [hadded]
      exact List.mem_append_left _ hb
    refine ⟨by rw [hd]; exact valid_step env _ _ h.valid, ?_, howned, ?_, ?_⟩
    · rw [hd, hadded, List.map_append]
      refine List.Nodup.append h.keys (by rw [List.map_map]; exact hbuilt.keys) ?_
      intro k hk hk'
      obtain ⟨a, ha, rfl⟩ := List.mem_map.1 hk
      obtain ⟨b, hb, hbk⟩ := List.mem_map.1 hk'
      obtain ⟨o, ho, rfl⟩ := List.mem_map.1 hb
      exact hfresh o ho a ha hbk.symm
    · intro d g hg
      rw [hd]
      rcases frame_origin hg with ⟨hg, -⟩ | ⟨input, f, pc, hact', -⟩ | ⟨-, -, -, hpc⟩
      · exact (h.frames d g hg).imp fun a status hon => hon.mono hsub
      · rw [hact] at hact'
        cases hact'
      · rw [hpc]
        trivial
    · intro k hk
      rw [hr] at hk
      rw [hd]
      obtain ⟨a, ha, hak, hst⟩ := h.evidence k hk
      exact ⟨a, hsub a ha, hak, hst⟩
  · have hexp := h.frames d f hf
    have htouch := @resume_touches env f.pc f.id sys.disk hexp sys.runs input
    refine ⟨by rw [hd]; exact valid_resume h.valid _ _ _ _, ?_, howned, ?_, ?_⟩
    · rw [hd, htouch.keys]
      exact h.keys
    · intro d' g hg
      rw [hd]
      rcases frame_origin hg with ⟨hg, hne⟩ | ⟨input', f', pc, hact', hf', hpc, rfl⟩ | ⟨hact', -⟩
      · have hd' : d' ≠ d := fun e => hne input (e ▸ hact)
        have hid := h.owned.distinct hf hg hd'
        exact (h.frames d' g hg).imp fun a status hon => hon.touched htouch hid
      · rw [hact] at hact'
        obtain ⟨rfl, rfl⟩ := Act.resume.inj hact'
        obtain rfl := Option.some.inj (hf.symm.trans hf')
        exact resume_expects h.valid hexp hpc
      · rw [hact] at hact'
        cases hact'
    · intro k hk
      rw [hr] at hk
      rw [hd]
      have hversion : ∀ a ∈ (contents sys.disk).assignments, a.idempotencyKey = k →
          a.status ≠ .accepted → ∃ b ∈ (contents
            (f.pc.resume env f.id sys.disk sys.runs input).disk).assignments,
              b.idempotencyKey = k ∧ b.status ≠ .accepted := by
        intro a ha hak hst
        obtain ⟨b, hb, -, hbk, -, hbst⟩ := htouch.versions a ha
        exact ⟨b, hb, hbk.trans hak, hbst hst⟩
      rcases resume_runs hk with hk | ⟨a, grant, request, hpc, rfl⟩
      · obtain ⟨a, ha, hak, hst⟩ := h.evidence k hk
        exact hversion a ha hak hst
      · rw [hpc] at hexp
        obtain ⟨⟨-, b, hb, -, hbk, -, hbst⟩, hreq⟩ := hexp
        exact hversion b hb (hbk.trans hreq.symm) (by rw [hbst]; exact fun e => by cases e)

theorem sound_init : Sound env {} := by
  refine ⟨valid_none env, List.nodup_nil, ?_, ?_, ?_⟩
  · intro d f hf
    cases hf
  · intro d f hf
    cases hf
  · intro k hk
    exact absurd rfl hk

/-- The invariant holds after every run. -/
theorem sound_run (acts : List Act) : Sound env (Runs.run (step env) {} acts) :=
  Runs.run_invariant (step env) (P := Sound env) (fun _ act h => sound_step h act) sound_init acts

end AgentOrchestrator.Launch
