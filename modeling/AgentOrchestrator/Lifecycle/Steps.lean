import AgentOrchestrator.Launch.Pairing
import AgentOrchestrator.Lifecycle.Model

/-!
# Steps of the lifecycle system

A step makes at most one call to the store (`Issues`), and the tasks, background calls and sweeps
after it are those from before, or come from the task or sweep that moved (`task_origin`,
`background_origin`, `item_origin`).
-/

namespace AgentOrchestrator.Lifecycle

open Store

variable {env : Env}

/-! ## Updates of a worker -/

theorem update_disk (workerId : String) (u : WorkerUpdate) (io : WriteOutcome) (disk : Disk) :
    (update env workerId u io disk).1 = Store.step env disk (.updateWorker workerId u, io) := by
  unfold update
  cases hu : u.validate with
  | error e =>
    unfold Store.step Call.next
    cases load env disk with
    | error e' => rfl
    | ok s =>
      dsimp only
      rw [hu]
  | ok v =>
    refine perform_disk (fun s => ?_) io disk
    unfold Call.next
    dsimp only
    rw [hu]

/-- An update that succeeds has rewritten the worker on file. -/
theorem update_ok {workerId : String} {u : WorkerUpdate} {io : WriteOutcome} {disk : Disk}
    {w' : Worker} {claim : CancellationClaim}
    (h : (update env workerId u io disk).2 = .ok (w', claim)) :
    ∃ w, (contents disk).worker? workerId = some w ∧
      u.apply (contents disk) w = .ok (w', claim) ∧
      (contents (update env workerId u io disk).1).worker? workerId = some w' := by
  unfold update at h ⊢
  cases hu : u.validate with
  | error e => rw [hu] at h; cases h
  | ok v =>
    rw [hu] at h
    dsimp only at h ⊢
    have hbody : ∀ {value next}, updateWorker workerId u (contents disk) = .commit value next →
        ∃ w, (contents disk).worker? workerId = some w ∧
          u.apply (contents disk) w = .ok value ∧ next = (contents disk).putWorker value.1 := by
      intro value next hb
      unfold updateWorker at hb
      split at hb
      · cases hb
      · rename_i w hw
        split at hb
        · cases hb
        · rename_i w' claim ha
          obtain ⟨rfl, rfl⟩ := Body.commit.inj hb
          exact ⟨w, hw, ha, rfl⟩
    rcases perform_ok h with ⟨memory, hb⟩ | ⟨next, hs, hb, -, hdisk⟩
    · unfold updateWorker at hb
      split at hb
      · cases hb
      · split at hb <;> cases hb
    · obtain ⟨w, hw, ha, rfl⟩ := hbody hb
      refine ⟨w, hw, ha, ?_⟩
      rw [hdisk]
      have hid : w'.id = workerId :=
        (WorkerUpdate.later ha).id.trans (Keyed.key_of_lookup hw)
      have hmem : ∃ v ∈ (contents disk).workers, v.id = w'.id :=
        ⟨w, Keyed.mem_of_lookup hw, (WorkerUpdate.later ha).id.symm⟩
      rw [← hid]
      exact Keyed.lookup_put_self hmem

/-- A write that did not take effect leaves the file alone. -/
theorem update_unrecorded {workerId : String} {u : WorkerUpdate} {io : WriteOutcome} {disk : Disk}
    (h : recorded io (update env workerId u io disk).2 = false) :
    (update env workerId u io disk).1 = disk := by
  unfold update at h ⊢
  cases hu : u.validate with
  | error e => rfl
  | ok v =>
    rw [hu] at h
    dsimp only at h ⊢
    unfold perform at h ⊢
    cases hl : load env disk with
    | error e => rfl
    | ok s =>
      rw [hl] at h
      dsimp only at h ⊢
      cases hb : updateWorker workerId u s with
      | reject e memory => rfl
      | reply value memory => rfl
      | commit value next =>
        rw [hb] at h
        dsimp only at h ⊢
        unfold persist at h ⊢
        split_ifs at h ⊢
        · cases io with
          | written => cases h
          | failedBeforeRename => rfl
          | failedAfterRename => cases h
        · rfl

/-! ## The store call of a task -/

/-- The store call a task makes when it resumes. -/
def Pc.storeCall : Pc → Input → Option (Call × WriteOutcome)
  | .requesting id reason detail, .store now io =>
    some (.updateWorker id (.requestWorkerCancellation reason detail now), io)
  | .claiming x, .store _ io => some (.updateWorker x.sessionId x.caller.claim, io)
  | .rejected x, .store _ io => some (.updateWorker x.sessionId x.caller.reject, io)
  | .acknowledged x, .store _ io => some (.updateWorker x.sessionId x.caller.deliver, io)
  | .releasing x, .store _ io => some (.updateWorker x.sessionId x.caller.release, io)
  | .settling x observed claim keep, .store now io =>
    some (.updateWorker x.sessionId (.settleWorkerCancellation (terminalStatusFor observed)
      (some claim.toJson) (if observed = .failed then some "execution_error" else none) now keep),
      io)
  | _, _ => none

/-- The store calls a task makes, by where it stands. -/
inductive Asks : Pc → Call → Prop
  | requested {id reason : String} {detail : Option String} {now : Timestamp} :
    Asks (.requesting id reason detail)
      (.updateWorker id (.requestWorkerCancellation reason detail now))
  | claimed {x : Stop} : Asks (.claiming x) (.updateWorker x.sessionId x.caller.claim)
  | rejected {x : Stop} : Asks (.rejected x) (.updateWorker x.sessionId x.caller.reject)
  | delivered {x : Stop} : Asks (.acknowledged x) (.updateWorker x.sessionId x.caller.deliver)
  | released {x : Stop} : Asks (.releasing x) (.updateWorker x.sessionId x.caller.release)
  | settled {x : Stop} {observed : TerminalRunStatus} {claim : AgentResultClaim} {keep : Bool}
      {now : Timestamp} :
    Asks (.settling x observed claim keep) (.updateWorker x.sessionId
      (.settleWorkerCancellation (terminalStatusFor observed) (some claim.toJson)
        (if observed = .failed then some "execution_error" else none) now keep))

theorem asks_of_storeCall {pc : Pc} {input : Input} {i : Call × WriteOutcome}
    (h : pc.storeCall input = some i) : Asks pc i.1 := by
  cases pc <;> cases input <;> cases h <;> constructor

/-- The file after a task resumed is the file after its store call. -/
theorem resume_disk (pc : Pc) (input : Input) (disk : Disk) :
    (pc.resume env disk input).disk =
      match pc.storeCall input with
      | none => disk
      | some i => Store.step env disk i := by
  cases pc <;> cases input <;> try rfl
  case reading.read =>
    simp only [Pc.resume, Pc.storeCall]
    split
    · rfl
    · split <;> rfl
  case requesting.store => exact update_disk ..
  case claiming.store => exact update_disk ..
  case stopping.cancel =>
    simp only [Pc.resume, Pc.storeCall]
    split <;> rfl
  case stopping.timeout =>
    simp only [Pc.resume, Pc.storeCall]
    split_ifs <;> rfl
  case rejected.store => exact update_disk ..
  case acknowledged.store => exact update_disk ..
  case releasing.store => exact update_disk ..
  case settling.store => exact update_disk ..

/-! ## How a task goes on -/

/-- How a task goes on. -/
inductive Continues (env : Env) (disk : Disk) : Pc → Input → Pc → Prop
  | waiting {pc : Pc} {input : Input} : Continues env disk pc input pc
  | permitted {supported : Bool} {id reason : String} {detail : Option String} :
    Continues env disk (.reading supported id reason detail) .read (.requesting id reason detail)
  | intended {id reason runId : String} {detail : Option String} {now : Timestamp}
      {io : WriteOutcome} {w : Worker} {claim : CancellationClaim}
      (hr : (update env id (.requestWorkerCancellation reason detail now) io disk).2 =
        .ok (w, claim)) (hrun : w.runId = some runId) :
    Continues env disk (.requesting id reason detail) (.store now io)
      (.claiming { caller := .cancelSession, sessionId := id, runId := runId,
                   reason := some (detail.getD reason) })
  | claimed {x : Stop} {now : Timestamp} {io : WriteOutcome} {w : Worker}
      {claim : CancellationClaim}
      (hr : (update env x.sessionId x.caller.claim io disk).2 = .ok (w, claim))
      (hclaimed : claim.claimed = true) :
    Continues env disk (.claiming x) (.store now io) (.queued x)
  | granted {x : Stop} : Continues env disk (.queued x) (.slot true) (.stopping x)
  | acknowledged {x : Stop} :
    Continues env disk (.stopping x) (.cancel (.ok .accepted)) (.acknowledged x)
  | unsupported {x : Stop} :
    Continues env disk (.stopping x) (.cancel (.ok .unsupported)) (.rejected x)
  | failed {pc : Pc} {x : Stop} {input : Input}
      (hpc : pc = .queued x ∨ pc = .stopping x ∨ pc = .rejected x ∨ pc = .acknowledged x) :
    Continues env disk pc input (.releasing x)
  | proceeds {pc : Pc} {x : Stop} {input : Input}
      (hpc : pc = .claiming x ∨ pc = .stopping x ∨ pc = .rejected x ∨ pc = .acknowledged x ∨
        pc = .releasing x) :
    Continues env disk pc input (.observing x)
  | observed {x : Stop} {answer : Except ProviderFailure RunState} {o : TerminalRunStatus} :
    Continues env disk (.observing x) (.status answer) (.fetching x o)
  | fetched {x : Stop} {answer : Except ProviderFailure (Option RunResult)}
      {o : TerminalRunStatus} :
    Continues env disk (.fetching x o) (.result answer)
      (.settling x o (observedClaim o answer) (keepsPending o answer))

theorem afterFailure_eq {x : Stop} {pc : Pc} (h : x.afterFailure = some pc) :
    pc = .observing x := by
  unfold Stop.afterFailure at h
  split at h
  · exact (Option.some.inj h).symm
  · cases h

/-- Every way a task goes on is one of these. -/
theorem resume_continues {pc pc' : Pc} {input : Input} {disk : Disk}
    (h : (pc.resume env disk input).pc = some pc') : Continues env disk pc input pc' := by
  have hwait : some pc = some pc' → Continues env disk pc input pc' := by
    intro e
    obtain rfl := Option.some.inj e
    exact .waiting
  cases pc with
  | reading supported id reason detail =>
    cases input with
    | read =>
      simp only [Pc.resume] at h
      split at h
      · cases h
      · split at h
        · cases h
        · dsimp only at h
          split_ifs at h
          obtain rfl := Option.some.inj h
          exact .permitted
    | _ => exact hwait h
  | requesting id reason detail =>
    cases input with
    | store now io =>
      simp only [Pc.resume] at h
      split at h
      · cases h
      · rename_i w claim hr
        split_ifs at h
        obtain ⟨runId, hrun, rfl⟩ := Option.map_eq_some_iff.1 h
        exact .intended hr hrun
    | _ => exact hwait h
  | claiming x =>
    cases input with
    | store now io =>
      simp only [Pc.resume] at h
      split at h
      · cases h
      · rename_i w claim hr
        split_ifs at h with hclaimed
        · obtain rfl := Option.some.inj h
          exact .claimed hr hclaimed
        · obtain rfl := Option.some.inj h
          exact .proceeds (Or.inl rfl)
    | _ => exact hwait h
  | queued x =>
    cases input with
    | slot granted =>
      cases granted with
      | true => obtain rfl := Option.some.inj h; exact .granted
      | false => obtain rfl := Option.some.inj h; exact .failed (Or.inl rfl)
    | _ => exact hwait h
  | stopping x =>
    cases input with
    | cancel answer =>
      simp only [Pc.resume] at h
      split at h
      · obtain rfl := Option.some.inj h
        exact .acknowledged
      · obtain rfl := Option.some.inj h
        exact .unsupported
      · obtain rfl := Option.some.inj h
        exact .failed (Or.inr (Or.inl rfl))
    | timeout settled =>
      cases settled with
      | true => obtain rfl := Option.some.inj h; exact .failed (Or.inr (Or.inl rfl))
      | false =>
        obtain rfl := afterFailure_eq h
        exact .proceeds (Or.inr (Or.inl rfl))
    | _ => exact hwait h
  | rejected x =>
    cases input with
    | store now io =>
      simp only [Pc.resume] at h
      split at h
      · obtain rfl := Option.some.inj h
        exact .failed (Or.inr (Or.inr (Or.inl rfl)))
      · split_ifs at h
        obtain rfl := Option.some.inj h
        exact .proceeds (Or.inr (Or.inr (Or.inl rfl)))
    | _ => exact hwait h
  | acknowledged x =>
    cases input with
    | store now io =>
      simp only [Pc.resume] at h
      split at h
      · obtain rfl := Option.some.inj h
        exact .failed (Or.inr (Or.inr (Or.inr rfl)))
      · obtain rfl := Option.some.inj h
        exact .proceeds (Or.inr (Or.inr (Or.inr (Or.inl rfl))))
    | _ => exact hwait h
  | releasing x =>
    cases input with
    | store now io =>
      simp only [Pc.resume] at h
      split at h
      · cases h
      · obtain rfl := afterFailure_eq h
        exact .proceeds (Or.inr (Or.inr (Or.inr (Or.inr rfl))))
    | _ => exact hwait h
  | observing x =>
    cases input with
    | status answer =>
      simp only [Pc.resume] at h
      split at h
      · cases h
      · split_ifs at h
        obtain ⟨o, -, rfl⟩ := Option.map_eq_some_iff.1 h
        exact .observed
    | _ => exact hwait h
  | fetching x o =>
    cases input with
    | result answer => obtain rfl := Option.some.inj h; exact .fetched
    | _ => exact hwait h
  | settling x o claim keep =>
    cases input with
    | store now io => cases h
    | _ => exact hwait h

/-- Only a stop call in flight goes on in the background. -/
theorem resume_background {pc : Pc} {input : Input} {disk : Disk} {x : Stop}
    (h : (pc.resume env disk input).background = some x) :
    pc = .stopping x ∧ (pc.resume env disk input).pc = x.afterFailure := by
  cases pc with
  | stopping y =>
    cases input with
    | cancel answer =>
      simp only [Pc.resume] at h
      split at h <;> cases h
    | timeout settled =>
      cases settled with
      | true => cases h
      | false =>
        obtain rfl := Option.some.inj h
        exact ⟨rfl, rfl⟩
    | _ => cases h
  | reading supported id reason detail =>
    cases input with
    | read =>
      simp only [Pc.resume] at h
      split at h
      · cases h
      · split at h <;> cases h
    | _ => cases h
  | _ => cases input <;> cases h

/-! ## What a step does -/

/-- What a step does: nothing, a step of the launch system, a call or sweep that begins, an expiry,
the work on a session that begins, a task that resumes, a background call that settles or is
released, a crash, or the recovery of claims. -/
inductive Moves (env : Env) (sys : System) : Act → System → Prop
  | idle {act : Act} (hact : ∀ t input, act = .resume t input → sys.tasks t = none) :
    Moves env sys act sys
  | launched {act : Launch.Act} (hact : launchAct env act) :
    Moves env sys (.launch act) { sys with launch := Launch.step env sys.launch act }
  | called {t : ℕ} {supported : Bool} {sessionId reason : String} {detail : Option String}
      (ht : sys.idle t = true) :
    Moves env sys (.cancelSession t supported sessionId reason detail)
      (sys.setTask t (some (.reading supported sessionId reason detail)))
  | swept {k : ℕ} {caller : Caller} {now : Timestamp} {s : DurableState}
      (hl : load env sys.disk = .ok s) :
    Moves env sys (.sweep k caller now) (sys.setSweep k (some (caller.sweep env now s)))
  | expired {k : ℕ} {io : WriteOutcome} {now : Timestamp} {w : Worker} {expiring items : List Worker}
      (hk : sys.sweeps k = some ⟨.enforceDeadlines, now, w :: expiring, items⟩) :
    Moves env sys (.expire k io)
      ((sys.setDisk (update env w.id (.expireWorker none now) io sys.disk).1).setSweep k
        (afterExpiry now expiring items (update env w.id (.expireWorker none now) io sys.disk).2))
  | begun {k t : ℕ} {supported : Bool} {caller : Caller} {now : Timestamp} {w : Worker}
      {items : List Worker} (hk : sys.sweeps k = some ⟨caller, now, [], w :: items⟩)
      (ht : sys.idle t = true) :
    Moves env sys (.begin k t supported)
      ((sys.setSweep k (some ⟨caller, now, [], items⟩)).setTask t (caller.opening supported w))
  | resumed {t : ℕ} {input : Input} {pc : Pc} (ht : sys.tasks t = some pc) :
    Moves env sys (.resume t input) (sys.resumed t (pc.resume env sys.disk input))
  | settled {t : ℕ} :
    Moves env sys (.settle t)
      (sys.setBackground t ((sys.background t).map fun b => { b with settled := true }))
  | released {t : ℕ} {io : WriteOutcome} {x : Stop} {b : Option Background}
      (ht : sys.background t = some ⟨x, true⟩) (hb : b = none ∨ b = some ⟨x, true⟩) :
    Moves env sys (.release t io) ((sys.setDisk (update env x.sessionId x.caller.release io
      sys.disk).1).setBackground t b)
  | crashed {tasks sweeps : ℕ → Bool} :
    Moves env sys (.crash tasks sweeps)
      { sys with
        tasks := fun t => if tasks t then none else sys.tasks t
        background := fun t => if tasks t then none else sys.background t
        sweeps := fun k => if sweeps k then none else sys.sweeps k }
  | recovered {io : WriteOutcome} :
    Moves env sys (.recoverLifecycleDeliveryClaims io)
      (sys.setDisk (perform env recoverLifecycleDeliveryClaims io sys.disk).1)

theorem step_moves (sys : System) (act : Act) : Moves env sys act (step env sys act) := by
  unfold step
  cases act with
  | launch act =>
    dsimp only
    split_ifs with hact
    · exact .launched hact
    · exact .idle nofun
  | cancelSession t supported sessionId reason detail =>
    dsimp only
    split_ifs with ht
    · exact .called ht
    · exact .idle nofun
  | sweep k caller now =>
    dsimp only
    split
    · rename_i hl
      exact .swept hl
    · exact .idle nofun
  | expire k io =>
    dsimp only
    split
    · rename_i hk
      exact .expired hk
    · exact .idle nofun
  | begin k t supported =>
    dsimp only
    split
    · rename_i hk
      split_ifs with ht
      · exact .begun hk ht
      · exact .idle nofun
    · exact .idle nofun
  | resume t input =>
    dsimp only
    split
    · rename_i ht
      refine .idle fun t' _ e => ?_
      obtain ⟨rfl, -⟩ := Act.resume.inj e
      exact ht
    · rename_i ht
      exact .resumed ht
  | settle t => exact .settled
  | release t io =>
    dsimp only
    split
    · rename_i ht
      refine .released ht ?_
      split
      · exact Or.inr rfl
      · exact Or.inl rfl
    · exact .idle nofun
  | crash tasks sweeps => exact .crashed
  | recoverLifecycleDeliveryClaims io => exact .recovered

theorem step_resume {sys : System} {t : ℕ} {pc : Pc} (ht : sys.tasks t = some pc) (input : Input) :
    step env sys (.resume t input) = sys.resumed t (pc.resume env sys.disk input) := by
  unfold step
  dsimp only
  rw [ht]

/-! ## The call of a step -/

/-- The call a step makes to the store. -/
inductive Issues (env : Env) (sys : System) : Act → Call × WriteOutcome → Prop
  | other {c : Call} {io : WriteOutcome} (hother : otherCall c = true)
      (hfresh : ∀ w ∈ c.added env, Fresh w)
      (hc : Launch.serviceCall env (contents sys.disk) c = true) :
    Issues env sys (.launch (.service c io)) (c, io)
  | dispatched {d : ℕ} {input : Launch.Input} {f : Launch.Frame} {i : Call × WriteOutcome}
      (hf : sys.launch.FrameAt d f) (hi : f.pc.storeCall env input = some i) :
    Issues env sys (.launch (.resume d input)) i
  | expired {k : ℕ} {io : WriteOutcome} {workerId : String} {now : Timestamp} :
    Issues env sys (.expire k io) (.updateWorker workerId (.expireWorker none now), io)
  | resumed {t : ℕ} {input : Input} {pc : Pc} {c : Call} {io : WriteOutcome}
      (ht : sys.tasks t = some pc) (hi : pc.storeCall input = some (c, io)) (hasks : Asks pc c) :
    Issues env sys (.resume t input) (c, io)
  | released {t : ℕ} {io : WriteOutcome} {x : Stop} (ht : sys.background t = some ⟨x, true⟩) :
    Issues env sys (.release t io) (.updateWorker x.sessionId x.caller.release, io)
  | recovered {io : WriteOutcome} :
    Issues env sys (.recoverLifecycleDeliveryClaims io) (.recoverLifecycleDeliveryClaims, io)

/-- The workers a call adds are fresh. -/
theorem Issues.fresh {sys : System} {act : Act} {i : Call × WriteOutcome}
    (hi : Issues env sys act i) {w : Worker} (hw : w ∈ i.1.added env) : Fresh w := by
  cases hi with
  | other hother hfresh hc => exact hfresh w hw
  | @dispatched d input f i hf hi =>
    generalize f.pc = pc at hi
    cases pc <;> cases input <;> cases hi <;> cases hw
  | resumed ht hi hasks => cases hasks <;> cases hw
  | _ => cases hw

/-- A step leaves the file alone or makes one call. -/
theorem step_disk (sys : System) (act : Act) :
    (step env sys act).disk = sys.disk ∨
      ∃ i, Issues env sys act i ∧ (step env sys act).disk = Store.step env sys.disk i := by
  have hmoves := @step_moves env sys act
  generalize step env sys act = sys' at hmoves ⊢
  cases hmoves with
  | idle hact => exact Or.inl rfl
  | @launched act hact =>
    rcases @Launch.step_world env sys.launch act with ⟨hd, -⟩ | ⟨c, io, rfl, hc, hd, -⟩ |
        ⟨d, input, f, rfl, hf, hd, -⟩
    · exact Or.inl hd
    · exact Or.inr ⟨(c, io), .other hact.1 hact.2 hc, hd⟩
    · rw [Launch.resume_disk] at hd
      cases hi : f.pc.storeCall env input with
      | none => rw [hi] at hd; exact Or.inl hd
      | some i => rw [hi] at hd; exact Or.inr ⟨i, .dispatched hf hi, hd⟩
  | called ht => exact Or.inl rfl
  | swept hl => exact Or.inl rfl
  | expired hk => exact Or.inr ⟨_, .expired, update_disk ..⟩
  | begun hk ht => exact Or.inl rfl
  | @resumed t input pc ht =>
    have hdisk : (sys.resumed t (pc.resume env sys.disk input)).disk = _ := resume_disk pc input _
    rw [hdisk]
    cases hi : pc.storeCall input with
    | none => exact Or.inl rfl
    | some i => exact Or.inr ⟨i, .resumed ht hi (asks_of_storeCall hi), rfl⟩
  | settled => exact Or.inl rfl
  | released ht hb => exact Or.inr ⟨_, .released ht, update_disk ..⟩
  | crashed => exact Or.inl rfl
  | recovered => exact Or.inr ⟨_, .recovered, perform_disk (fun _ => rfl) _ sys.disk⟩

/-! ## Where tasks come from -/

/-- What the tasks after a step are: tasks from before, a call of `cancelSession` that begins, the
work on a session of a sweep that begins, or a task that resumed. -/
theorem task_origin {sys : System} {act : Act} {t : ℕ} {pc : Pc}
    (h : (step env sys act).tasks t = some pc) :
    (sys.tasks t = some pc ∧ ∀ input, act ≠ .resume t input) ∨
      (∃ supported sessionId reason detail, pc = .reading supported sessionId reason detail) ∨
      (∃ k sw w supported, sys.sweeps k = some sw ∧ w ∈ sw.items ∧
        sw.caller.opening supported w = some pc) ∨
      ∃ input pc₀, act = .resume t input ∧ sys.tasks t = some pc₀ ∧
        (pc₀.resume env sys.disk input).pc = some pc := by
  have hmoves := @step_moves env sys act
  generalize step env sys act = sys' at hmoves h
  cases hmoves with
  | idle hact =>
    refine Or.inl ⟨h, fun input e => ?_⟩
    cases (hact t input e).symm.trans h
  | called ht =>
    rcases Keyed.update_cases h with ⟨-, hpc⟩ | ⟨-, hpc⟩
    · exact Or.inr (Or.inl ⟨_, _, _, _, (Option.some.inj hpc).symm⟩)
    · exact Or.inl ⟨hpc, nofun⟩
  | begun hk ht =>
    rcases Keyed.update_cases h with ⟨-, hpc⟩ | ⟨-, hpc⟩
    · exact Or.inr (Or.inr (Or.inl ⟨_, _, _, _, hk, List.mem_cons_self, hpc⟩))
    · exact Or.inl ⟨hpc, nofun⟩
  | @resumed t' input pc₀ ht =>
    rcases Keyed.update_cases h with ⟨rfl, hpc⟩ | ⟨hne, hpc⟩
    · exact Or.inr (Or.inr (Or.inr ⟨input, pc₀, rfl, ht, hpc⟩))
    · exact Or.inl ⟨hpc, fun _ e => hne (Act.resume.inj e).1.symm⟩
  | @crashed tasks sweeps =>
    dsimp only at h
    split_ifs at h
    exact Or.inl ⟨h, nofun⟩
  | _ => exact Or.inl ⟨h, nofun⟩

/-- What the background calls after a step are: calls from before, a call that settled, or a stop
call that timed out. -/
theorem background_origin {sys : System} {act : Act} {t : ℕ} {b : Background}
    (h : (step env sys act).background t = some b) :
    (∃ b₀, sys.background t = some b₀ ∧ b.stop = b₀.stop ∧ (b.settled = false → b = b₀)) ∨
      ∃ input pc x, act = .resume t input ∧ sys.tasks t = some pc ∧
        (pc.resume env sys.disk input).background = some x ∧ b = { stop := x } := by
  have hmoves := @step_moves env sys act
  generalize step env sys act = sys' at hmoves h
  cases hmoves with
  | @resumed t' input pc ht =>
    rcases Keyed.update_cases h with ⟨rfl, hb⟩ | ⟨-, hb⟩
    · cases he : (pc.resume env sys.disk input).background with
      | none =>
        rw [he] at hb
        exact Or.inl ⟨b, hb, rfl, fun _ => rfl⟩
      | some x =>
        rw [he] at hb
        exact Or.inr ⟨input, pc, x, rfl, ht, he, (Option.some.inj hb).symm⟩
    · exact Or.inl ⟨b, hb, rfl, fun _ => rfl⟩
  | settled =>
    rcases Keyed.update_cases h with ⟨rfl, hb⟩ | ⟨-, hb⟩
    · obtain ⟨b₀, hb₀, rfl⟩ := Option.map_eq_some_iff.1 hb
      exact Or.inl ⟨b₀, hb₀, rfl, nofun⟩
    · exact Or.inl ⟨b, hb, rfl, fun _ => rfl⟩
  | released ht hreleased =>
    rcases Keyed.update_cases h with ⟨rfl, hb⟩ | ⟨-, hb⟩
    · rcases hreleased with rfl | rfl
      · cases hb
      · exact Or.inl ⟨b, ht.trans hb, rfl, fun _ => rfl⟩
    · exact Or.inl ⟨b, hb, rfl, fun _ => rfl⟩
  | crashed =>
    dsimp only at h
    split_ifs at h
    exact Or.inl ⟨b, h, rfl, fun _ => rfl⟩
  | _ => exact Or.inl ⟨b, h, rfl, fun _ => rfl⟩

/-- What the sessions of a sweep after a step are: those from before, sessions on file, or the
session it just expired. -/
theorem item_origin {sys : System} {act : Act} {k : ℕ} {sw : Sweep} {w : Worker}
    (h : (step env sys act).sweeps k = some sw) (hw : w ∈ sw.items) :
    (∃ sw₀, sys.sweeps k = some sw₀ ∧ w ∈ sw₀.items) ∨ w ∈ (contents sys.disk).workers ∨
      ∃ workerId, (contents (step env sys act).disk).worker? workerId = some w := by
  have hmoves := @step_moves env sys act
  generalize step env sys act = sys' at hmoves h ⊢
  cases hmoves with
  | @swept k' caller now s hl =>
    rcases Keyed.update_cases h with ⟨rfl, hsw⟩ | ⟨-, hsw⟩
    · obtain rfl := Option.some.inj hsw
      obtain ⟨rfl, -⟩ := load_eq env hl
      refine Or.inr (Or.inl ?_)
      cases caller with
      | cancelSession => cases hw
      | reconcileCancellations => exact (List.mem_filter.1 hw).1
      | enforceDeadlines => cases hw
      | reconcileTimedOutResults => exact (List.mem_filter.1 hw).1
    · exact Or.inl ⟨sw, hsw, hw⟩
  | @expired k' io now v expiring items hk =>
    rcases Keyed.update_cases h with ⟨rfl, hsw⟩ | ⟨-, hsw⟩
    · cases hr : (update env v.id (.expireWorker none now) io sys.disk).2 with
      | error e => rw [hr] at hsw; cases hsw
      | ok r =>
        rw [hr] at hsw
        obtain rfl := Option.some.inj hsw
        dsimp only at hw
        split_ifs at hw
        · rcases List.mem_append.1 hw with hold | hnew
          · exact Or.inl ⟨_, hk, hold⟩
          · obtain rfl := List.mem_singleton.1 hnew
            obtain ⟨-, -, -, hfile⟩ := update_ok hr
            exact Or.inr (Or.inr ⟨v.id, hfile⟩)
        · exact Or.inl ⟨_, hk, hw⟩
    · exact Or.inl ⟨sw, hsw, hw⟩
  | begun hk ht =>
    rcases Keyed.update_cases h with ⟨rfl, hsw⟩ | ⟨-, hsw⟩
    · obtain rfl := Option.some.inj hsw
      exact Or.inl ⟨_, hk, List.mem_cons_of_mem _ hw⟩
    · exact Or.inl ⟨sw, hsw, hw⟩
  | crashed =>
    dsimp only at h
    split_ifs at h
    exact Or.inl ⟨sw, h, hw⟩
  | _ => exact Or.inl ⟨sw, h, hw⟩

end AgentOrchestrator.Lifecycle
