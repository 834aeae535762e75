import AgentOrchestrator.Superset.Ledger
import AgentOrchestrator.Library.Runs

/-!
# One agent per key

The lock keeps the launches of all processes apart, so what a launch has read stays true until its
last write, and a crash only takes a launch and its lock away.  Hence at most one call for a key
may ever have started a session, and a binding is final (`one_agent_per_key`).
-/

namespace AgentOrchestrator.Superset

/-! ## Assumptions about the world -/

/-- The lock is not lost while it is held, and a call that comes back `not_dispatched` or
`rejected` has started no session and never will. -/
def Trusted (sys : System) : Act → Prop
  | .compromise _ => False
  | .start call => ∀ c ∈ sys.calls[call]?, c.refused = false
  | .resume i (.answer (.toolError outcome _ _) _) =>
    outcome ≠ .unknown → ∀ f ∈ sys.frames i, ∀ call ∈ f.pc.call?, ∀ c ∈ sys.calls[call]?,
      c.started = false
  | _ => True

instance (sys : System) (act : Act) : Decidable (Trusted sys act) := by
  unfold Trusted
  split <;> infer_instance

/-! ## One step of the system -/

/-- What a trusted step does. -/
inductive Moves (sys : System) : Act → System → Prop
  | idle {act : Act} : Moves sys act sys
  | entered {i p : ℕ} {request : LaunchRequest} {revalidation : Option Thrown} (f : Frame)
      (queue : ℕ → List ℕ) (hnone : sys.frames i = none) (hprocess : f.process = p)
      (hrequest : f.request = request) (hkept : f.compromised = false)
      (hpc : (∃ target, f.pc = .queued target) ∨
        ∃ e, f.pc = .done (.error e) ∧ e.beforeRead = true) :
    Moves sys (.launch i p request revalidation) { sys.setFrame i f with queue := queue }
  | locked {i : ℕ} {f : Frame} {target : Target} (hf : sys.frames i = some f)
      (hpc : f.pc = .queued target) (hlock : sys.lock = none) :
    Moves sys (.acquire i true) { sys.setFrame i { f with pc := .reading target } with
      lock := some i }
  | gaveUp {i : ℕ} {f : Frame} {target : Target} (hf : sys.frames i = some f)
      (hpc : f.pc = .queued target) :
    Moves sys (.acquire i false) (sys.setFrame i { f with pc := .done (.error .lock) })
  | resumed {i : ℕ} {input : Input} {f : Frame} (hf : sys.frames i = some f) :
    Moves sys (.resume i input)
      { sys.setFrame i
          { f with pc := (f.pc.resume f.request f.compromised sys.file sys.calls input).pc } with
        file := (f.pc.resume f.request f.compromised sys.file sys.calls input).file
        calls := (f.pc.resume f.request f.compromised sys.file sys.calls input).calls }
  | finished {i : ℕ} {f : Frame} {reply : Reply} (queue : ℕ → List ℕ)
      (hf : sys.frames i = some f) (hpc : f.pc = .done reply) :
    Moves sys (.finish i) { sys with
      lock := sys.unlock i, queue := queue, frames := Function.update sys.frames i none }
  | started {call : ℕ} :
    Moves sys (.start call)
      { sys with calls := sys.calls.modify call fun c => { c with started := true } }
  | crashed {p : ℕ} (queue : ℕ → List ℕ) :
    Moves sys (.crash p) { sys with
      lock := sys.lock.filter (!sys.inProcess p ·), queue := queue
      frames := fun i => (sys.frames i).filter (·.process ≠ p) }

theorem target_error {request : LaunchRequest} {revalidation : Option Thrown} {e : Failure}
    (h : request.target revalidation = .error e) : e.beforeRead = true := by
  unfold LaunchRequest.target at h
  split at h
  · obtain rfl := Except.error.inj h
    rfl
  · split at h
    · cases h
    · obtain rfl := Except.error.inj h
      rfl

theorem step_moves {sys : System} {act : Act} (h : Trusted sys act) :
    Moves sys act (step sys act) := by
  unfold step
  cases act with
  | launch i p request revalidation =>
    dsimp only
    split
    · exact .idle
    · rename_i hnone
      split
      · rename_i e he
        exact .entered _ sys.queue hnone rfl rfl rfl (Or.inr ⟨e, rfl, target_error he⟩)
      · rename_i target _
        exact .entered _ _ hnone rfl rfl rfl (Or.inl ⟨target, rfl⟩)
  | acquire i obtained =>
    dsimp only
    split
    · rename_i f hf
      split
      · rename_i target hpc
        split_ifs with hhead hobtained hlock
        · subst hobtained
          exact .locked hf hpc hlock
        · exact .idle
        · obtain rfl : obtained = false := by simpa using hobtained
          exact .gaveUp hf hpc
        · exact .idle
      · exact .idle
    · exact .idle
  | resume i input =>
    dsimp only
    split
    · rename_i f hf
      exact .resumed hf
    · exact .idle
  | finish i =>
    dsimp only
    split
    · rename_i f hf
      split
      · rename_i reply hpc
        exact .finished _ hf hpc
      · exact .idle
    · exact .idle
  | lookup key readable => exact .idle
  | start call => exact .started
  | compromise i => exact h.elim
  | crash p => exact .crashed _

/-- **The invariant of the adapter.** -/
structure Sound (sys : System) : Prop where
  ledger : Ledger (contents sys.file) sys.calls
  /-- A launch between its first read and its last write holds the lock. -/
  held : ∀ i f, sys.frames i = some f → f.pc.Locked → sys.lock = some i
  kept : ∀ i f, sys.frames i = some f → f.compromised = false
  frames : ∀ i f, sys.frames i = some f →
    f.pc.Expects f.request.idempotencyKey (contents sys.file) sys.calls

/-- A launch that does not hold the lock expects nothing. -/
theorem Pc.expects_of_not_locked {pc : Pc} (h : ¬ pc.Locked) (key : String)
    (state : ProviderState) (calls : List Call) : pc.Expects key state calls := by
  cases pc with
  | queued _ => trivial
  | done _ => trivial
  | _ => exact absurd trivial h

/-- Starting a session does not change what a launch expects. -/
theorem Pc.Expects.start {pc : Pc} (h : pc.Expects key state calls) (n : ℕ) :
    pc.Expects key state (calls.modify n fun c => { c with started := true }) := by
  have hclosed : Closed calls key →
      Closed (calls.modify n fun c => { c with started := true }) key := by
    intro hc m c' hc' hkey
    obtain ⟨c, hcm, ⟨-, rfl⟩ | ⟨-, rfl⟩⟩ := getElem?_changed hc'
    · exact hc m c hcm hkey
    · exact hc m c' hcm hkey
  have hopen : ∀ {m}, OpenAt calls key m →
      OpenAt (calls.modify n fun c => { c with started := true }) key m := by
    rintro m ⟨c, hc, hkey, hr, hb⟩
    refine ⟨_, getElem?_change hc, ?_⟩
    split_ifs <;> exact ⟨hkey, hr, hb⟩
  cases pc with
  | queued _ => trivial
  | reading _ => trivial
  | savingIntent _ _ => exact h
  | withdrawing _ => exact ⟨hclosed h.1, h.2⟩
  | calling _ _ _ => exact ⟨h.1, hopen h.2⟩
  | clearing _ _ _ _ => exact ⟨hclosed h.1, h.2⟩
  | binding _ _ _ => exact ⟨hopen h.1, h.2⟩
  | done _ => trivial

/-- The launch after a step: the launch the step is about, or another one. -/
theorem frames_setFrame {sys : System} {i j : ℕ} {f g : Frame}
    (h : (sys.setFrame i f).frames j = some g) :
    (j = i ∧ g = f) ∨ (j ≠ i ∧ sys.frames j = some g) := by
  have h' : Function.update sys.frames i (some f) j = some g := h
  by_cases hj : j = i
  · rw [hj, Function.update_self] at h'
    exact Or.inl ⟨hj, (Option.some.inj h').symm⟩
  · rw [Function.update_of_ne hj] at h'
    exact Or.inr ⟨hj, h'⟩

/-- A launch that does not hold the lock comes in or goes on. -/
theorem Sound.setFrame {sys : System} (h : Sound sys) (i : ℕ) {f : Frame} (queue : ℕ → List ℕ)
    (hkept : f.compromised = false) (hpc : ¬ f.pc.Locked) :
    Sound { sys.setFrame i f with queue := queue } := by
  refine ⟨h.ledger, ?_, ?_, ?_⟩
  · intro j g hg hl
    rcases frames_setFrame hg with ⟨-, rfl⟩ | ⟨-, hg⟩
    · exact absurd hl hpc
    · exact h.held j g hg hl
  · intro j g hg
    rcases frames_setFrame hg with ⟨-, rfl⟩ | ⟨-, hg⟩
    · exact hkept
    · exact h.kept j g hg
  · intro j g hg
    rcases frames_setFrame hg with ⟨-, rfl⟩ | ⟨-, hg⟩
    · exact Pc.expects_of_not_locked hpc _ _ _
    · exact h.frames j g hg

/-- What a launch in progress resumes to, when it has not lost its lock. -/
theorem Sound.resumes {sys : System} (h : Sound sys) {i : ℕ} {f : Frame}
    (hf : sys.frames i = some f) (input : Input) :
    Resumes f.request sys.file sys.calls f.pc input
      (f.pc.resume f.request f.compromised sys.file sys.calls input) := by
  rw [h.kept i f hf]
  exact resume_resumes f.pc input

/-- What a trusted answer says about the call of the launch. -/
theorem Trusted.answer {sys : System} {i : ℕ} {input : Input} (h : Trusted sys (.resume i input))
    {f : Frame} (hf : sys.frames i = some f) :
    ∀ outcome code message now, input = .answer (.toolError outcome code message) now →
      outcome ≠ .unknown → ∀ call ∈ f.pc.call?, ∀ c : Call, sys.calls[call]? = some c →
        c.started = false := by
  rintro outcome code message now rfl houtcome call hcall c hc
  exact h houtcome f hf call hcall c hc

theorem sound_step {sys : System} (h : Sound sys) {act : Act} (ht : Trusted sys act) :
    Sound (step sys act) := by
  have hmoves := step_moves ht
  generalize step sys act = sys' at hmoves
  cases hmoves with
  | idle => exact h
  | @entered i p request revalidation f queue hnone _ _ hkept hpc =>
    refine h.setFrame i queue hkept ?_
    rcases hpc with ⟨target, e⟩ | ⟨failure, e, -⟩ <;>
      · rw [e]
        exact fun hl => hl
  | @gaveUp i f target hf hpc => exact h.setFrame i sys.queue (h.kept i f hf) (fun hl => hl)
  | @locked i f target hf hpc hlock =>
    -- nobody else holds the lock
    have hfree : ∀ j g, sys.frames j = some g → ¬ g.pc.Locked := by
      intro j g hg hl
      have := h.held j g hg hl
      rw [hlock] at this
      cases this
    refine ⟨h.ledger, ?_, ?_, ?_⟩
    · intro j g hg hl
      rcases frames_setFrame hg with ⟨rfl, -⟩ | ⟨-, hg⟩
      · rfl
      · exact absurd hl (hfree j g hg)
    · intro j g hg
      rcases frames_setFrame hg with ⟨-, rfl⟩ | ⟨-, hg⟩
      · exact h.kept i f hf
      · exact h.kept j g hg
    · intro j g hg
      rcases frames_setFrame hg with ⟨-, rfl⟩ | ⟨-, hg⟩
      · trivial
      · exact h.frames j g hg
  | @resumed i input f hf =>
    have hmove := h.resumes hf input
    obtain ⟨hledger, hexp⟩ := resumes_ledger h.ledger (h.frames i f hf) (ht.answer hf) hmove
    generalize f.pc.resume f.request f.compromised sys.file sys.calls input = e at *
    refine ⟨hledger, ?_, ?_, ?_⟩
    · intro j g hg hl
      rcases frames_setFrame hg with ⟨rfl, rfl⟩ | ⟨-, hg⟩
      · exact h.held j f hf (resumes_locked hmove hl)
      · exact h.held j g hg hl
    · intro j g hg
      rcases frames_setFrame hg with ⟨-, rfl⟩ | ⟨-, hg⟩
      · exact h.kept i f hf
      · exact h.kept j g hg
    · intro j g hg
      rcases frames_setFrame hg with ⟨-, rfl⟩ | ⟨hne, hg⟩
      · exact hexp
      · by_cases hl : f.pc.Locked
        · -- the launch that goes on holds the lock, so this one does not
          refine Pc.expects_of_not_locked (fun hl' => hne ?_) _ _ _
          exact Option.some.inj ((h.held j g hg hl').symm.trans (h.held i f hf hl))
        · obtain ⟨hfile, hcalls⟩ := resumes_idle hmove hl
          show g.pc.Expects _ (contents e.file) e.calls
          rw [hfile, hcalls]
          exact h.frames j g hg
  | @finished i f reply queue hf hpc =>
    have hother : ∀ {j g}, Function.update sys.frames i none j = some g →
        j ≠ i ∧ sys.frames j = some g := by
      intro j g hg
      by_cases hj : j = i
      · rw [hj, Function.update_self] at hg
        cases hg
      · rw [Function.update_of_ne hj] at hg
        exact ⟨hj, hg⟩
    refine ⟨h.ledger, ?_, fun j g hg => h.kept j g (hother hg).2,
      fun j g hg => h.frames j g (hother hg).2⟩
    intro j g hg hl
    obtain ⟨hj, hg⟩ := hother hg
    show sys.unlock i = some j
    have hlock := h.held j g hg hl
    unfold System.unlock
    rw [hlock, if_neg (fun e => hj (Option.some.inj e))]
  | @started call =>
    refine ⟨h.ledger.start fun c hc => ht c hc, h.held, h.kept, ?_⟩
    intro i f hf
    exact (h.frames i f hf).start call
  | @crashed p queue =>
    have hother : ∀ {j g}, (sys.frames j).filter (·.process ≠ p) = some g →
        sys.frames j = some g ∧ g.process ≠ p := by
      intro j g hg
      obtain ⟨hg, hp⟩ := Option.filter_eq_some_iff.1 hg
      exact ⟨hg, of_decide_eq_true hp⟩
    refine ⟨h.ledger, ?_, fun j g hg => h.kept j g (hother hg).1,
      fun j g hg => h.frames j g (hother hg).1⟩
    intro j g hg hl
    obtain ⟨hg, hp⟩ := hother hg
    show sys.lock.filter (!sys.inProcess p ·) = some j
    rw [h.held j g hg hl, Option.filter_eq_some_iff]
    refine ⟨rfl, ?_⟩
    unfold System.inProcess
    rw [hg]
    simpa using hp

/-- No trusted step takes a binding away. -/
theorem step_runs {sys : System} (h : Sound sys) {act : Act} (ht : Trusted sys act) {key : String}
    {record : BoundRecord} (hruns : (contents sys.file).runs key = some record) :
    (contents (step sys act).file).runs key = some record := by
  have hmoves := step_moves ht
  generalize step sys act = sys' at hmoves
  cases hmoves with
  | @resumed i input f hf =>
    exact resumes_runs h.ledger (h.frames i f hf) (h.resumes hf input) hruns
  | _ => exact hruns

/-! ## Launches of a bound key -/

/-- The launch has not read the file yet. -/
def Pc.Waiting : Pc → Prop
  | .queued _ | .reading _ => True
  | _ => False

/-- The answer is the bound session, or the launch failed before it saw the file. -/
def Answers (record : BoundRecord) (reply : Reply) : Prop :=
  reply = .ok record.runId ∨ ∃ e, reply = .error e ∧ e.beforeRead = true

/-- The launch waits, or has answered as a launch of a bound key does. -/
def Pc.Late (record : BoundRecord) : Pc → Prop
  | .queued _ | .reading _ => True
  | .done reply => Answers record reply
  | _ => False

/-- The key is bound, and the launch of it under `i` reads the file after that. -/
structure LateAt (key : String) (record : BoundRecord) (i : ℕ) (sys : System) : Prop where
  bound : (contents sys.file).runs key = some record
  late : ∀ f, sys.frames i = some f → f.request.idempotencyKey = key → f.pc.Late record

theorem resumes_late {record : BoundRecord} {pc : Pc} {input : Input} {e : Effect}
    (hruns : (contents file).runs request.idempotencyKey = some record) (h : pc.Late record)
    (hmove : Resumes request file calls pc input e) : e.pc.Late record := by
  cases hmove with
  | waiting => exact h
  | unread => exact Or.inr ⟨.read, rfl, rfl⟩
  | found hfound =>
    rw [hruns] at hfound
    obtain rfl := Option.some.inj hfound
    exact Or.inl rfl
  | blocked hnone =>
    rw [hruns] at hnone
    cases hnone
  | planned _ hnone _ =>
    rw [hruns] at hnone
    cases hnone
  | _ => exact h.elim

theorem lateAt_step {key : String} {record : BoundRecord} {i : ℕ} {sys : System} (h : Sound sys)
    (hlate : LateAt key record i sys) {act : Act} (ht : Trusted sys act) :
    LateAt key record i (step sys act) := by
  refine ⟨step_runs h ht hlate.bound, ?_⟩
  have hmoves := step_moves ht
  generalize step sys act = sys' at hmoves
  intro g hg hkey
  cases hmoves with
  | idle => exact hlate.late g hg hkey
  | entered f queue _ _ _ _ hpc =>
    rcases frames_setFrame hg with ⟨-, rfl⟩ | ⟨-, hg⟩
    · rcases hpc with ⟨target, e⟩ | ⟨failure, e, hbefore⟩
      · rw [e]
        trivial
      · rw [e]
        exact Or.inr ⟨failure, rfl, hbefore⟩
    · exact hlate.late g hg hkey
  | locked hf hpc hlock =>
    rcases frames_setFrame hg with ⟨-, rfl⟩ | ⟨-, hg⟩
    · trivial
    · exact hlate.late g hg hkey
  | gaveUp hf hpc =>
    rcases frames_setFrame hg with ⟨-, rfl⟩ | ⟨-, hg⟩
    · exact Or.inr ⟨.lock, rfl, rfl⟩
    · exact hlate.late g hg hkey
  | @resumed j input f hf =>
    rcases frames_setFrame hg with ⟨rfl, rfl⟩ | ⟨-, hg⟩
    · have hkey' : f.request.idempotencyKey = key := hkey
      exact resumes_late (hkey' ▸ hlate.bound) (hlate.late f hf hkey') (h.resumes hf input)
    · exact hlate.late g hg hkey
  | @finished j f reply queue hf hpc =>
    have hg' : Function.update sys.frames j none i = some g := hg
    by_cases hj : i = j
    · rw [hj, Function.update_self] at hg'
      cases hg'
    · rw [Function.update_of_ne hj] at hg'
      exact hlate.late g hg' hkey
  | started => exact hlate.late g hg hkey
  | crashed queue => exact hlate.late g (Option.filter_eq_some_iff.1 hg).1 hkey

/-! ## Whole runs -/

theorem sound_init : Sound {} := by
  refine ⟨⟨?_, ?_, ?_, ?_, ?_⟩, ?_, ?_, ?_⟩
  · intro n c hc
    cases hc
  · intro n m c d hc
    cases hc
  · intro n c hc
    cases hc
  · intro n c hc
    cases hc
  · intro key record h
    cases h
  · intro i f hf
    cases hf
  · intro i f hf
    cases hf
  · intro i f hf
    cases hf

theorem sound_run {sys : System} (h : Sound sys) {acts : List Act}
    (ht : Runs.Admissible step Trusted sys acts) : Sound (Runs.run step sys acts) :=
  Runs.run_invariant_of step (P := Sound) (fun _ _ hs ha => sound_step hs ha) h ht

theorem lateAt_run {key : String} {record : BoundRecord} {i : ℕ} {sys : System} (h : Sound sys)
    (hlate : LateAt key record i sys) {acts : List Act}
    (ht : Runs.Admissible step Trusted sys acts) :
    LateAt key record i (Runs.run step sys acts) := by
  refine (Runs.run_invariant_of step (P := fun s => Sound s ∧ LateAt key record i s) ?_
    ⟨h, hlate⟩ ht).2
  intro s act hs ha
  exact ⟨sound_step hs.1 ha, lateAt_step hs.1 hs.2 ha⟩

/-- **One agent per key.** As long as the lock is not lost and refusals are true, at most one call
for a key may ever have started a session, and once a key is bound every later lookup and every
launch that reads the file later answers with that session. -/
theorem one_agent_per_key {acts : List Act} (h : Runs.Admissible step Trusted {} acts) :
    (∀ (n m : ℕ) (c d : Call), (Runs.run step {} acts).calls[n]? = some c →
        (Runs.run step {} acts).calls[m]? = some d → c.key = d.key →
        c.MayHaveStarted → d.MayHaveStarted → n = m) ∧
    ∀ key record, (contents (Runs.run step {} acts).file).runs key = some record →
      ∀ later, Runs.Admissible step Trusted (Runs.run step {} acts) later →
        (∀ readable, findByIdempotencyKey key (Runs.run step {} (acts ++ later)).file readable =
          if readable then .ok (some record.runId) else .error .read) ∧
        ∀ i f reply, (∀ g, (Runs.run step {} acts).frames i = some g → g.pc.Waiting) →
          (Runs.run step {} (acts ++ later)).frames i = some f →
          f.request.idempotencyKey = key → f.pc = .done reply → Answers record reply := by
  have hsound := sound_run sound_init h
  refine ⟨?_, ?_⟩
  · intro n m c d hc hd hkey hcs hds
    exact hsound.ledger.single n m c d hc hd hkey (hsound.ledger.not_refused hc hcs)
      (hsound.ledger.not_refused hd hds)
  · intro key record hruns later hlater
    rw [Runs.run_append]
    refine ⟨?_, ?_⟩
    · intro readable
      have hbound := Runs.run_invariant_of step
        (P := fun s => Sound s ∧ (contents s.file).runs key = some record)
        (fun s act hs ha => ⟨sound_step hs.1 ha, step_runs hs.1 ha hs.2⟩) ⟨hsound, hruns⟩ hlater
      unfold findByIdempotencyKey readState
      cases readable with
      | false => rfl
      | true =>
        show Except.ok (Option.map _ ((contents _).runs key)) = _
        rw [hbound.2]
        rfl
    · intro i f reply hwait hf hkey hpc
      have hlate : LateAt key record i (Runs.run step {} acts) := by
        refine ⟨hruns, ?_⟩
        intro g hg _
        have hg' := hwait g hg
        cases hgpc : g.pc with
        | queued _ => trivial
        | reading _ => trivial
        | _ =>
          rw [hgpc] at hg'
          exact hg'.elim
      have hf' := (lateAt_run hsound hlate hlater).late f hf hkey
      rw [hpc] at hf'
      exact hf'

def sampleRequest : LaunchRequest :=
  { idempotencyKey := "key-1", prompt := "do", workspaceId := some "w1", agentPresetId := some "a1" }

/-- The process 0 launches the sample, and `agents_create` comes back. -/
def sampleCalled (answer : ToolAnswer) : List Act :=
  [.launch 0 0 sampleRequest none, .acquire 0 true, .resume 0 (.read true "u1" "t1"),
    .resume 0 (.write .written), .start 0, .resume 0 (.answer answer "t2")]

/-- The binding is renamed into place, the write fails and the process dies. -/
def sampleBound : List Act :=
  sampleCalled (.value (some "session-1")) ++ [.resume 0 (.write .failedAfterRename), .crash 0]

/-- Another process launches the same key. -/
def sampleRetried : List Act :=
  [.launch 1 1 sampleRequest none, .acquire 1 true, .resume 1 (.read true "u2" "t3")]

theorem one_agent_per_key_sample :
    ∃ record f reply, (contents (Runs.run step {} sampleBound).file).runs "key-1" = some record ∧
      (Runs.run step {} (sampleBound ++ sampleRetried)).frames 1 = some f ∧
      f.pc = .done reply ∧ Answers record reply := by
  have hbound : Runs.Admissible step Trusted {} sampleBound := by decide +kernel
  have hretried : Runs.Admissible step Trusted (Runs.run step {} sampleBound) sampleRetried := by
    decide +kernel
  have hfree : ∀ g, (Runs.run step {} sampleBound).frames 1 = some g → g.pc.Waiting := nofun
  exact ⟨_, _, _, rfl, rfl, rfl,
    ((one_agent_per_key hbound).2 "key-1" _ rfl sampleRetried hretried).2 1 _ _ hfree rfl rfl rfl⟩

end AgentOrchestrator.Superset
