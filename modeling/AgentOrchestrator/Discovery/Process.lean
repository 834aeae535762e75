import AgentOrchestrator.Library.ChildProcess
import AgentOrchestrator.Library.Utf8

/-!
# The process of a discovery command

`runProcess` pins the executable, then starts it with its output going to a private file, which is
read when the process is closed.  A timer, a monitor of the size, the errors that are read and an
abort may decide before that how the call ends, and kill the process; the call settles at the close
all the same.  The output file is appended to only.

1. `process_resolved_iff`: when the close resolves the call, and with what.
2. `settled_over`: a settled call has no process, or one that is closed or could not be handled.
-/

namespace AgentOrchestrator.Discovery

open Runs ChildProcess

inductive DiscoveryErrorCode where
  | ambiguous | malformedResponse | remoteOnly | timedOut | unavailable | unsupportedVersion
  deriving DecidableEq

structure SupersetDiscoveryError where
  code : DiscoveryErrorCode
  message : String
  deriving DecidableEq

/-- Why the process of a command gives no result. -/
inductive Failure where
  | timedOut (timeoutMs : ℕ)
  /-- more output and errors than is read -/
  | exceeded
  | cancelled
  /-- the process cannot be started -/
  | unavailable
  /-- the executable is not pinned, or the output file cannot be created -/
  | refused (message : String)
  deriving DecidableEq

/-- The error, as `invoke` throws it. -/
def Failure.error : Failure → SupersetDiscoveryError
  | .timedOut timeoutMs =>
    { code := .timedOut
      message := "Superset discovery exceeded " ++ toString timeoutMs ++ " ms" }
  | .exceeded =>
    { code := .malformedResponse
      message := "Superset discovery output exceeded the supported limit" }
  | .cancelled => { code := .unavailable, message := "Superset discovery was cancelled" }
  | .unavailable => { code := .unavailable, message := "Superset executable is unavailable" }
  | .refused message => { code := .unavailable, message := message }

structure ProcessResult where
  stdout : List Char
  stderr : List Char
  exitCode : ℤ
  deriving DecidableEq

namespace Process

/-- `MAX_OUTPUT_BYTES` -/
def maxOutputBytes : ℕ := 4 * 1024 * 1024

/-- The timer and the monitor of the output. -/
inductive Own where
  | timeout | monitor
  deriving DecidableEq

structure State where
  settled : Option (Except Failure ProcessResult) := none
  /-- the executable is pinned, and the process started -/
  spawned : Bool := false
  aborted : Bool := false
  /-- `terminationError` -/
  termination : Option Failure := none
  /-- the timers are pending, and the listener of the abort is registered -/
  watching : Bool := true
  stderr : List ℕ := []
  stderrBytes : ℕ := 0
  /-- the directory of the output file is removed -/
  removed : Bool := false

/-- `terminationError ??= …` -/
def State.terminate (s : State) (e : Failure) : State :=
  { s with termination := s.termination.or (some e) }

/-- `finish` -/
def State.finish (s : State) (x : Except Failure ProcessResult) : State :=
  if s.settled.isSome then s
  else { s with settled := some x, watching := false, removed := true }

/-- `stdoutSize` -/
def State.size (s : State) (file : List ℕ) : ℕ := if s.removed then 0 else file.length

/-- How the close settles the call. -/
def State.verdict (s : State) (file : List ℕ) (status : Status) :
    Except Failure ProcessResult :=
  match s.termination with
  | some e => .error e
  | none =>
    if maxOutputBytes < s.size file + s.stderrBytes then .error .exceeded
    else .ok { stdout := Utf8.decode file, stderr := Utf8.decode s.stderr,
               exitCode := status.code.getD (-1) }

variable (timeoutMs : ℕ)

/-- An event of the process, while the output file has these contents. -/
def clientStep (file : List ℕ) (s : State) : Event Own → State
  | .data .stdout _ => s
  | .data .stderr chunk =>
    let s' := { s with stderrBytes := s.stderrBytes + chunk.length }
    if maxOutputBytes < s'.stderrBytes + s'.size file then s'.terminate .exceeded
    else { s' with stderr := s'.stderr ++ chunk }
  | .error => s.finish (.error .unavailable)
  | .exit _ => s
  | .close status => s.finish (s.verdict file status)
  | .own .timeout => if s.watching then s.terminate (.timedOut timeoutMs) else s
  | .own .monitor =>
    if s.watching ∧ maxOutputBytes < s.size file + s.stderrBytes then s.terminate .exceeded else s

/-- The client with its process; the output is a file. -/
structure System where
  client : State := {}
  world : World Own := {}
  file : List ℕ := []

inductive Act where
  /-- the executable is pinned -/
  | spawn
  /-- it is not, or the output file cannot be created -/
  | refuse (message : String)
  | abort
  /-- the process, or what it left behind, writes its output -/
  | write (bytes : List ℕ)
  | process (a : ChildProcess.Act Own)

/-- `abort` -/
def State.abort (s : State) : State :=
  if s.aborted then s
  else if s.spawned ∧ s.watching then { s with aborted := true }.terminate .cancelled
  else { s with aborted := true }

def step (sys : System) : Act → System
  | .spawn =>
    if sys.client.spawned ∨ sys.client.settled.isSome then sys
    else if sys.client.aborted then
      { sys with client := { sys.client with settled := some (.error .cancelled) } }
    else { sys with client := { sys.client with spawned := true } }
  | .refuse message =>
    if sys.client.spawned ∨ sys.client.settled.isSome then sys
    else { sys with client := { sys.client with settled := some (.error (.refused message)) } }
  | .abort => { sys with client := sys.client.abort }
  | .write bytes => if sys.client.spawned then { sys with file := sys.file ++ bytes } else sys
  | .process a =>
    if sys.client.spawned then
      let world := ChildProcess.step sys.world a
      { sys with
        world := world
        client := run (clientStep timeoutMs sys.file) sys.client
          (world.events.drop sys.world.events.length) }
    else sys

/-! ## What holds between two steps -/

/-- The output that counts. -/
def System.size (sys : System) : ℕ := sys.file.length + (sys.world.pipe .stderr).written.length

/-- What the client knows while it waits. -/
structure Waiting (sys : System) : Prop where
  watching : sys.client.watching = true
  removed : sys.client.removed = false
  open_ : sys.world.closed = false
  failed : .error ∉ sys.world.events
  stderrBytes : sys.client.stderrBytes = (bytesOf .stderr sys.world.events).length
  stderr : sys.client.termination = none → sys.client.stderr = bytesOf .stderr sys.world.events
  termination : sys.client.termination.isSome →
    sys.client.aborted = true ∨ .own .timeout ∈ sys.world.events ∨ maxOutputBytes < sys.size
  aborted : sys.client.spawned = true → sys.client.aborted = true → sys.client.termination.isSome
  timeout : .own .timeout ∈ sys.world.events → sys.client.termination.isSome

structure Sound (sys : System) : Prop where
  world : ChildProcess.Sound sys.world
  unspawned : sys.client.spawned = false → sys.world = {}
  waiting : sys.client.settled = none → Waiting sys
  finished : sys.client.settled.isSome → sys.client.spawned = true →
    sys.world.closed = true ∨ .error ∈ sys.world.events

theorem sound_start : Sound {} where
  world := ChildProcess.sound_start
  unspawned _ := rfl
  waiting _ := by
    refine ⟨rfl, rfl, rfl, by simp, rfl, fun _ => rfl, ?_, ?_, ?_⟩ <;> simp
  finished h := absurd h (by simp)

variable {timeoutMs : ℕ} {sys : System}

@[simp] theorem State.terminate_settled (s : State) (e : Failure) :
    (s.terminate e).settled = s.settled := rfl

@[simp] theorem State.terminate_isSome (s : State) (e : Failure) :
    (s.terminate e).termination.isSome = true := by
  cases h : s.termination <;> simp [State.terminate, h]

theorem State.terminate_ne_none (s : State) (e : Failure) :
    (s.terminate e).termination ≠ none :=
  Option.isSome_iff_ne_none.1 (s.terminate_isSome e)

theorem State.finish_settled {s : State} {x} (h : s.settled.isSome) : s.finish x = s := if_pos h

theorem clientStep_settled {file : List ℕ} {s : State} (h : s.settled.isSome) (e : Event Own) :
    (clientStep timeoutMs file s e).settled = s.settled ∧
      (clientStep timeoutMs file s e).spawned = s.spawned := by
  cases e with
  | data stream chunk =>
    cases stream with
    | stdout => exact ⟨rfl, rfl⟩
    | stderr => simp only [clientStep]; split_ifs <;> exact ⟨rfl, rfl⟩
  | error => rw [clientStep, State.finish_settled h]; exact ⟨rfl, rfl⟩
  | exit status => exact ⟨rfl, rfl⟩
  | close status => rw [clientStep, State.finish_settled h]; exact ⟨rfl, rfl⟩
  | own e => cases e <;> simp only [clientStep] <;> split_ifs <;> exact ⟨rfl, rfl⟩

theorem clientStep_spawned {file : List ℕ} {s : State} (e : Event Own) :
    (clientStep timeoutMs file s e).spawned = s.spawned := by
  cases e with
  | data stream chunk =>
    cases stream with
    | stdout => rfl
    | stderr => simp only [clientStep]; split_ifs <;> rfl
  | error => rw [clientStep, State.finish]; split_ifs <;> rfl
  | exit status => rfl
  | close status => rw [clientStep, State.finish]; split_ifs <;> rfl
  | own e => cases e <;> simp only [clientStep] <;> split_ifs <;> rfl

/-- An abort of a process that is waited for. -/
theorem Waiting.abort (h : Waiting sys) : Waiting { sys with client := sys.client.abort } := by
  unfold State.abort
  split_ifs with haborted hspawned
  · exact h
  · exact ⟨h.watching, h.removed, h.open_, h.failed, h.stderrBytes,
      fun hnone => absurd hnone (State.terminate_ne_none _ _), fun _ => Or.inl rfl,
      fun _ _ => State.terminate_isSome _ _, fun _ => State.terminate_isSome _ _⟩
  · refine ⟨h.watching, h.removed, h.open_, h.failed, h.stderrBytes, h.stderr, ?_, ?_, h.timeout⟩
    · exact fun _ => Or.inl rfl
    · exact fun hspawn _ => absurd ⟨hspawn, h.watching⟩ hspawned

/-- The world after an event that the client has not settled with. -/
theorem Waiting.next (h : Waiting sys) (hsound : ChildProcess.Sound sys.world) {world : World Own}
    (hworld : ChildProcess.Sound world) {extra : List (Event Own)}
    (heq : world.events = sys.world.events ++ extra)
    (hwritten : (sys.world.pipe .stderr).written <+: (world.pipe .stderr).written)
    (hextra : ∀ e ∈ extra, e ≠ .error ∧ ∀ status, e ≠ .close status) :
    world.closed = false ∧ .error ∉ world.events ∧
      sys.size ≤ ({ sys with world := world } : System).size := by
  refine ⟨eq_false_of_ne_true fun hclosed => ?_, ?_, ?_⟩
  · obtain ⟨status, hmem⟩ := hworld.closed hclosed
    rw [heq] at hmem
    rcases List.mem_append.1 hmem with hmem | hmem
    · exact absurd (h.open_.symm.trans (hsound.closes status hmem)) Bool.false_ne_true
    · exact (hextra _ hmem).2 status rfl
  · rw [heq]
    intro hmem
    rcases List.mem_append.1 hmem with hmem | hmem
    · exact h.failed hmem
    · exact (hextra _ hmem).1 rfl
  · have := hwritten.length_le
    simp only [System.size]
    omega

/-- The cause of a termination remains. -/
theorem Waiting.cause (h : Waiting sys) {world : World Own} {extra : List (Event Own)}
    (heq : world.events = sys.world.events ++ extra)
    (hsize : sys.size ≤ ({ sys with world := world } : System).size) :
    sys.client.termination.isSome → sys.client.aborted = true ∨ .own .timeout ∈ world.events ∨
      maxOutputBytes < ({ sys with world := world } : System).size := by
  intro hterm
  rcases h.termination hterm with haborted | htimeout | hover
  · exact Or.inl haborted
  · exact Or.inr (Or.inl (heq ▸ List.mem_append_left _ htimeout))
  · exact Or.inr (Or.inr (hover.trans_le hsize))

/-- The process goes on, and nothing is reported. -/
theorem Waiting.silent (h : Waiting sys) (hsound : ChildProcess.Sound sys.world) {world : World Own}
    (hworld : ChildProcess.Sound world) (heq : world.events = sys.world.events)
    (hwritten : (sys.world.pipe .stderr).written <+: (world.pipe .stderr).written) :
    Waiting { sys with world := world } := by
  have hevents : world.events = sys.world.events ++ [] := by rw [heq, List.append_nil]
  obtain ⟨hopen, hfailed, hsize⟩ := h.next hsound hworld hevents hwritten (by simp)
  refine ⟨h.watching, h.removed, hopen, hfailed, ?_, ?_,
    h.cause hevents hsize, h.aborted, ?_⟩
  · simpa [heq] using h.stderrBytes
  · simpa [heq] using h.stderr
  · simpa [heq] using h.timeout

/-- The size that is looked at is one of bytes that were written. -/
theorem System.size_ge (sys : System) (hsound : ChildProcess.Sound sys.world) :
    sys.file.length + (bytesOf .stderr sys.world.events).length ≤ sys.size := by
  rw [hsound.bytes, System.size, List.length_take]
  omega

theorem Waiting.stderrEvent (h : Waiting sys) (hsound : ChildProcess.Sound sys.world)
    {world : World Own} (hworld : ChildProcess.Sound world) {chunk : List ℕ}
    (heq : world.events = sys.world.events ++ [.data .stderr chunk])
    (hwritten : (sys.world.pipe .stderr).written <+: (world.pipe .stderr).written) :
    Waiting { sys with
      world := world
      client := clientStep timeoutMs sys.file sys.client (.data .stderr chunk) } := by
  obtain ⟨hopen, hfailed, hsize⟩ := h.next hsound hworld heq hwritten (by simp)
  have hbytes : bytesOf .stderr world.events = bytesOf .stderr sys.world.events ++ chunk := by
    rw [heq]; simp [Event.bytes]
  have hlength : sys.client.stderrBytes + chunk.length = (bytesOf .stderr world.events).length := by
    rw [hbytes, List.length_append, h.stderrBytes]
  have htimeout : .own .timeout ∈ world.events ↔ .own .timeout ∈ sys.world.events := by
    rw [heq]; simp
  have hmax := System.size_ge { sys with world := world } hworld
  have hfile : ({ sys.client with stderrBytes := sys.client.stderrBytes + chunk.length } : State).size
      sys.file = sys.file.length := if_neg (by simp [h.removed])
  simp only [clientStep]
  split_ifs with hover
  · refine ⟨h.watching, h.removed, hopen, hfailed, hlength,
      fun hnone => absurd hnone (State.terminate_ne_none _ _), fun _ => Or.inr (Or.inr ?_),
      fun _ _ => State.terminate_isSome _ _, fun _ => State.terminate_isSome _ _⟩
    rw [hfile, hlength] at hover
    simp only [System.size] at hmax ⊢
    omega
  · refine ⟨h.watching, h.removed, hopen, hfailed, hlength, fun hnone => ?_, h.cause heq hsize,
      h.aborted, fun hmem => h.timeout (htimeout.1 hmem)⟩
    rw [hbytes]
    simp only [h.stderr hnone]

/-- Events that do not settle the call. -/
theorem Waiting.event (h : Waiting sys) (hsound : ChildProcess.Sound sys.world)
    {world : World Own} (hworld : ChildProcess.Sound world) {e : Event Own}
    (heq : world.events = sys.world.events ++ [e])
    (hwritten : (sys.world.pipe .stderr).written <+: (world.pipe .stderr).written)
    (he : e ≠ .error ∧ ∀ status, e ≠ .close status) :
    Waiting { sys with world := world, client := clientStep timeoutMs sys.file sys.client e } := by
  obtain ⟨hopen, hfailed, hsize⟩ := h.next hsound hworld heq hwritten (by simpa using he)
  -- An event that leaves the errors and the timer alone.
  have hskip : (∀ stream, e.bytes stream = []) → e ≠ .own .timeout →
      Waiting { sys with world := world } := by
    intro hbytes htimeout
    have hsame : bytesOf .stderr world.events = bytesOf .stderr sys.world.events := by
      rw [heq]; simp [hbytes]
    refine ⟨h.watching, h.removed, hopen, hfailed, ?_, ?_, h.cause heq hsize, h.aborted, ?_⟩
    · rw [hsame]; exact h.stderrBytes
    · rw [hsame]; exact h.stderr
    · rw [heq]
      simpa [Ne.symm htimeout] using h.timeout
  cases e with
  | data stream chunk =>
    cases stream with
    | stdout =>
      have hsame : bytesOf .stderr world.events = bytesOf .stderr sys.world.events := by
        rw [heq]; simp [Event.bytes]
      refine ⟨h.watching, h.removed, hopen, hfailed, ?_, ?_, h.cause heq hsize, h.aborted, ?_⟩
      · rw [hsame]; exact h.stderrBytes
      · rw [hsame]; exact h.stderr
      · rw [heq]
        simpa [clientStep] using h.timeout
    | stderr => exact h.stderrEvent hsound hworld heq hwritten
  | error => exact absurd rfl he.1
  | exit status => exact hskip (fun _ => rfl) (by simp)
  | close status => exact absurd rfl (he.2 status)
  | own e =>
    cases e with
    | timeout =>
      have hsame : bytesOf .stderr world.events = bytesOf .stderr sys.world.events := by
        rw [heq]; simp [Event.bytes]
      have hmem : .own .timeout ∈ world.events := by rw [heq]; simp
      simp only [clientStep, if_pos h.watching]
      refine ⟨h.watching, h.removed, hopen, hfailed, ?_, ?_, fun _ => Or.inr (Or.inl hmem),
        fun _ _ => State.terminate_isSome _ _, fun _ => State.terminate_isSome _ _⟩
      · rw [hsame]; exact h.stderrBytes
      · exact fun hnone => absurd hnone (State.terminate_ne_none _ _)
    | monitor =>
      have hwaiting := hskip (fun _ => rfl) (by simp)
      have hmax := sys.size_ge hsound
      rw [← h.stderrBytes] at hmax
      simp only [clientStep, State.size, h.removed, Bool.false_eq_true, if_false]
      split_ifs with hover
      · refine ⟨h.watching, h.removed, hopen, hfailed, hwaiting.stderrBytes, ?_, ?_,
          fun _ _ => State.terminate_isSome _ _, fun _ => State.terminate_isSome _ _⟩
        · exact fun hnone => absurd hnone (State.terminate_ne_none _ _)
        · intro _
          refine Or.inr (Or.inr ?_)
          have hlarge : maxOutputBytes < sys.size := hover.2.trans_le hmax
          exact hlarge.trans_le hsize
      · exact hwaiting

theorem run_drop (timeoutMs : ℕ) (w : World Own) (file : List ℕ) (s : State)
    (a : ChildProcess.Act Own) :
    ((ChildProcess.step w a).events = w.events ∧
      run (clientStep timeoutMs file) s
        ((ChildProcess.step w a).events.drop w.events.length) = s) ∨
    ∃ e, (ChildProcess.step w a).events = w.events ++ [e] ∧
      run (clientStep timeoutMs file) s ((ChildProcess.step w a).events.drop w.events.length) =
        clientStep timeoutMs file s e := by
  rcases step_events w a with heq | ⟨e, heq⟩
  · refine Or.inl ⟨heq, ?_⟩
    rw [heq, List.drop_length]
    rfl
  · refine Or.inr ⟨e, heq, ?_⟩
    rw [heq, List.drop_left]
    rfl

theorem sound_step (a : Act) (h : Sound sys) : Sound (step timeoutMs sys a) := by
  cases a with
  | spawn =>
    rw [step]
    split_ifs with hbegun haborted
    · exact h
    · push Not at hbegun
      have hspawned := eq_false_of_ne_true hbegun.1
      exact ⟨h.world, h.unspawned, fun hnone => absurd hnone (by simp),
        fun _ hspawn => absurd (hspawned.symm.trans hspawn) Bool.false_ne_true⟩
    · push Not at hbegun
      have hnone : sys.client.settled = none := by simpa using hbegun.2
      have hwait := h.waiting hnone
      refine ⟨h.world, fun hspawn => absurd hspawn (by simp), fun _ => ?_,
        fun hsome => absurd hsome hbegun.2⟩
      exact ⟨hwait.watching, hwait.removed, hwait.open_, hwait.failed, hwait.stderrBytes,
        hwait.stderr, hwait.termination, fun _ habort => absurd habort haborted, hwait.timeout⟩
  | refuse message =>
    rw [step]
    split_ifs with hbegun
    · exact h
    · push Not at hbegun
      have hspawned := eq_false_of_ne_true hbegun.1
      exact ⟨h.world, h.unspawned, fun hnone => absurd hnone (by simp),
        fun _ hspawn => absurd (hspawned.symm.trans hspawn) Bool.false_ne_true⟩
  | abort =>
    have hkept : sys.client.abort.settled = sys.client.settled ∧
        sys.client.abort.spawned = sys.client.spawned := by
      unfold State.abort
      split_ifs <;> exact ⟨rfl, rfl⟩
    refine ⟨h.world, fun hspawn => h.unspawned (hkept.2 ▸ hspawn), fun hnone => ?_,
      fun hsome hspawn => h.finished (hkept.1 ▸ hsome) (hkept.2 ▸ hspawn)⟩
    exact (h.waiting (hkept.1 ▸ hnone)).abort
  | write bytes =>
    rw [step]
    split_ifs
    · refine ⟨h.world, h.unspawned, fun hnone => ?_, h.finished⟩
      have hwait := h.waiting hnone
      refine ⟨hwait.watching, hwait.removed, hwait.open_, hwait.failed, hwait.stderrBytes,
        hwait.stderr, fun hterm => ?_, hwait.aborted, hwait.timeout⟩
      rcases hwait.termination hterm with haborted | htimeout | hover
      · exact Or.inl haborted
      · exact Or.inr (Or.inl htimeout)
      · refine Or.inr (Or.inr (hover.trans_le ?_))
        simp only [System.size, List.length_append]
        omega
    · exact h
  | process a =>
    rw [step]
    split_ifs with hspawned
    · have hworld := ChildProcess.sound_step sys.world a h.world
      have hwritten := written_step sys.world a .stderr
      have hclosed : sys.world.closed = true → (ChildProcess.step sys.world a).closed = true :=
        fun hclosed => h.world.closed_step hclosed a
      have hfailed : .error ∈ sys.world.events → .error ∈ (ChildProcess.step sys.world a).events :=
        fun hmem => (events_extend sys.world [a]).subset hmem
      rcases run_drop timeoutMs sys.world sys.file sys.client a with ⟨heq, hrun⟩ | ⟨e, heq, hrun⟩
      · simp only [hrun]
        exact ⟨hworld, fun hspawn => absurd (hspawned.symm.trans hspawn) (by simp),
          fun hnone => (h.waiting hnone).silent h.world hworld heq hwritten,
          fun hsome hspawn => (h.finished hsome hspawn).imp hclosed hfailed⟩
      · simp only [hrun]
        refine ⟨hworld, fun hspawn => ?_, fun hnone => ?_, fun hsome _ => ?_⟩
        · rw [clientStep_spawned] at hspawn
          exact absurd (hspawned.symm.trans hspawn) (by simp)
        · have hbefore : sys.client.settled = none := by
            by_contra hsome
            have hsome' := Option.isSome_iff_ne_none.2 hsome
            rw [(clientStep_settled hsome' e).1] at hnone
            exact hsome hnone
          refine (h.waiting hbefore).event h.world hworld heq hwritten ⟨?_, ?_⟩
          · rintro rfl
            simp [clientStep, State.finish, hbefore] at hnone
          · rintro status rfl
            simp [clientStep, State.finish, hbefore] at hnone
        · by_cases hbefore : sys.client.settled.isSome
          · exact (h.finished hbefore hspawned).imp hclosed hfailed
          · have hnone : sys.client.settled = none := by simpa using hbefore
            cases e with
            | error => exact Or.inr (by rw [heq]; simp)
            | close status => exact Or.inl (hworld.closes status (by rw [heq]; simp))
            | data stream chunk =>
              cases stream with
              | stdout => exact absurd hsome hbefore
              | stderr =>
                simp only [clientStep] at hsome
                split_ifs at hsome <;> exact absurd hsome hbefore
            | exit status => exact absurd hsome hbefore
            | own e =>
              cases e <;> simp only [clientStep] at hsome <;> split_ifs at hsome <;>
                exact absurd hsome hbefore
    · exact h

theorem sound_run (acts : List Act) : Sound (run (step timeoutMs) {} acts) :=
  run_invariant (step timeoutMs) (fun _ a h => sound_step a h) sound_start acts

/-! ## How a call settles -/

theorem step_settled {x : Except Failure ProcessResult}
    (h : sys.client.settled = some x) (a : Act) :
    (step timeoutMs sys a).client.settled = some x := by
  have hsome : sys.client.settled.isSome := by rw [h]; rfl
  cases a with
  | spawn => rw [step, if_pos (Or.inr hsome)]; exact h
  | refuse message => rw [step, if_pos (Or.inr hsome)]; exact h
  | abort =>
    simp only [step, State.abort]
    split_ifs <;> exact h
  | write bytes => rw [step]; split_ifs <;> exact h
  | process a =>
    rw [step]
    split_ifs
    · rcases run_drop timeoutMs sys.world sys.file sys.client a with ⟨-, hrun⟩ | ⟨e, -, hrun⟩
      · simp only [hrun]; exact h
      · simp only [hrun]; exact (clientStep_settled hsome e).1.trans h
    · exact h

theorem settled_run {x : Except Failure ProcessResult}
    (h : sys.client.settled = some x) (acts : List Act) :
    (run (step timeoutMs) sys acts).client.settled = some x :=
  run_invariant (P := fun sys : System => sys.client.settled = some x) (step timeoutMs)
    (fun _ a hs => step_settled hs a) h acts

/-- The close of a process that is waited for settles the call. -/
theorem close_settles (timeoutMs : ℕ) (h : Sound sys) (hnone : sys.client.settled = none)
    (hclosed : (ChildProcess.step sys.world .close).closed = true) :
    ∃ status, sys.world.status = some status ∧
      (step timeoutMs sys (.process .close)).client.settled =
        some (sys.client.verdict sys.file status) := by
  have hwait := h.waiting hnone
  have hspawned : sys.client.spawned = true := by
    by_contra hspawned
    rw [h.unspawned (eq_false_of_ne_true hspawned)] at hclosed
    exact absurd hclosed (by simp [ChildProcess.step])
  obtain ⟨status, hstatus, hevents, -⟩ := close_reports hwait.open_ hclosed
  refine ⟨status, hstatus, ?_⟩
  rw [step, if_pos hspawned]
  simp only [hevents, List.drop_left, run_cons, run_nil, clientStep, State.finish, hnone]
  simp

variable (timeoutMs) in
/-- **When a discovery command resolves.**  Of a call that waits for its process: the close resolves
it if and only if there was no abort and no timeout and the output and the errors are within the
limit; the result is all that is in the file then, all errors and the code. -/
theorem process_resolved_iff (acts later : List Act) (r : ProcessResult)
    (hnone : (run (step timeoutMs) {} acts).client.settled = none)
    (hclosed : (ChildProcess.step (run (step timeoutMs) {} acts).world .close).closed = true) :
    let sys := run (step timeoutMs) {} acts
    (run (step timeoutMs) {} (acts ++ .process .close :: later)).client.settled = some (.ok r) ↔
      sys.client.aborted = false ∧ .own .timeout ∉ sys.world.events ∧ sys.size ≤ maxOutputBytes ∧
        r.stdout = Utf8.decode sys.file ∧
        r.stderr = Utf8.decode (sys.world.pipe .stderr).written ∧
        ∃ status, sys.world.status = some status ∧ r.exitCode = status.code.getD (-1) := by
  intro sys
  have hsound : Sound sys := sound_run acts
  have hwait := hsound.waiting hnone
  obtain ⟨status, hstatus, hsettled⟩ := close_settles timeoutMs hsound hnone hclosed
  obtain ⟨-, -, -, hdrained⟩ := close_reports hwait.open_ hclosed
  have hread : bytesOf .stderr sys.world.events = (sys.world.pipe .stderr).written := by
    rw [hsound.world.bytes, (hdrained .stderr).2, List.take_length]
  have hspawned : sys.client.spawned = true := by
    by_contra hspawned
    rw [hsound.unspawned (eq_false_of_ne_true hspawned)] at hstatus
    exact absurd hstatus (by simp)
  rw [run_append, run_cons, settled_run hsettled later, Option.some.injEq]
  have hsize : sys.client.size sys.file + sys.client.stderrBytes = sys.size := by
    rw [State.size, hwait.removed, hwait.stderrBytes, hread, System.size]
    simp
  unfold State.verdict
  cases hterm : sys.client.termination with
  | some e =>
    constructor
    · intro h
      exact absurd h (by simp)
    · rintro ⟨haborted, htimeout, hsmall, -⟩
      rcases hwait.termination (by rw [hterm]; rfl) with h | h | h
      · exact absurd (haborted.symm.trans h) Bool.false_ne_true
      · exact absurd h htimeout
      · omega
  | none =>
    have hisNone : ¬ sys.client.termination.isSome := by rw [hterm]; simp
    have haborted : sys.client.aborted = false :=
      eq_false_of_ne_true fun h => hisNone (hwait.aborted hspawned h)
    have htimeout : .own .timeout ∉ sys.world.events := fun h => hisNone (hwait.timeout h)
    rw [hsize, hwait.stderr hterm, hread]
    split_ifs with hover
    · constructor
      · intro h
        exact absurd h (by simp)
      · rintro ⟨-, -, hsmall, -⟩
        omega
    · constructor
      · intro h
        obtain rfl := Except.ok.inj h
        exact ⟨haborted, htimeout, Nat.not_lt.1 hover, rfl, rfl, status, hstatus, rfl⟩
      · rintro ⟨-, -, -, hstdout, hstderr, status', hstatus', hcode⟩
        obtain rfl := Option.some.inj (hstatus.symm.trans hstatus')
        obtain ⟨stdout, stderr, code⟩ := r
        simp only at hstdout hstderr hcode
        rw [hstdout, hstderr, hcode]

/-- The answer of a command is written, and part of its errors is read before it ends. -/
def answered : List Act :=
  [.spawn, .write [0x7b, 0x7d], .process (.write .stderr [0x21]), .process (.read .stderr 1),
    .process (.stop { code := some 0, signal := none }), .process .exit,
    .process (.finish .stdout), .process (.finish .stderr)]

theorem process_resolved_iff_sample :
    (run (step 5000) {} (answered ++ [.process .close])).client.settled =
      some (.ok { stdout := ['{', '}'], stderr := ['!'], exitCode := 0 }) :=
  (process_resolved_iff 5000 answered [] _ (by decide +kernel) (by decide +kernel)).2
    ⟨by decide +kernel, by decide +kernel, by decide +kernel, by decide +kernel,
      by decide +kernel, ⟨some 0, none⟩, by decide +kernel, by decide +kernel⟩

/-- A call that has settled leaves no process behind: it was not started, is closed, or could not
be handled. -/
theorem settled_over (acts : List Act)
    (h : (run (step timeoutMs) {} acts).client.settled.isSome) :
    (run (step timeoutMs) {} acts).client.spawned = false ∨
      (run (step timeoutMs) {} acts).world.closed = true ∨
      .error ∈ (run (step timeoutMs) {} acts).world.events := by
  cases hspawned : (run (step timeoutMs) {} acts).client.spawned with
  | false => exact Or.inl rfl
  | true => exact Or.inr ((sound_run acts).finished h hspawned)

/-! ## What an answer says -/

/-- What stands behind a result. -/
structure Answered (sys : System) (r : ProcessResult) : Prop where
  closed : sys.world.closed = true
  stdout : ∃ part, part <+: sys.file ∧ part.length ≤ maxOutputBytes ∧ r.stdout = Utf8.decode part
  exitCode : ∃ status, sys.world.status = some status ∧ r.exitCode = status.code.getD (-1)

theorem clientStep_ok {file : List ℕ} {s : State} {e : Event Own} {r : ProcessResult}
    (h : (clientStep timeoutMs file s e).settled = some (.ok r)) (hnone : s.settled = none) :
    ∃ status, e = .close status ∧ s.verdict file status = .ok r := by
  cases e with
  | data stream chunk =>
    cases stream with
    | stdout => exact absurd (hnone.symm.trans h) (by simp)
    | stderr =>
      simp only [clientStep] at h
      split_ifs at h <;> exact absurd (hnone.symm.trans h) (by simp)
  | error => simp [clientStep, State.finish, hnone] at h
  | exit status => exact absurd (hnone.symm.trans h) (by simp)
  | close status =>
    refine ⟨status, rfl, ?_⟩
    simpa [clientStep, State.finish, hnone] using h
  | own e =>
    cases e <;> simp only [clientStep] at h <;> split_ifs at h <;>
      exact absurd (hnone.symm.trans h) (by simp)

theorem verdict_ok {s : State} {file : List ℕ} {status : Status} {r : ProcessResult}
    (h : s.verdict file status = .ok r) :
    s.size file ≤ maxOutputBytes ∧ r.stdout = Utf8.decode file ∧
      r.exitCode = status.code.getD (-1) := by
  unfold State.verdict at h
  split at h
  · exact absurd h (by simp)
  · split_ifs at h with hover
    obtain rfl := Except.ok.inj h
    exact ⟨by omega, rfl, rfl⟩

theorem Answered.step {r : ProcessResult} (h : Answered sys r) (hsound : Sound sys) (a : Act) :
    Answered (step timeoutMs sys a) r := by
  obtain ⟨hclosed, ⟨part, hpart, hlimit, hstdout⟩, status, hstatus, hcode⟩ := h
  cases a with
  | spawn =>
    rw [Process.step]
    split_ifs <;> exact ⟨hclosed, ⟨part, hpart, hlimit, hstdout⟩, status, hstatus, hcode⟩
  | refuse message =>
    rw [Process.step]
    split_ifs <;> exact ⟨hclosed, ⟨part, hpart, hlimit, hstdout⟩, status, hstatus, hcode⟩
  | abort => exact ⟨hclosed, ⟨part, hpart, hlimit, hstdout⟩, status, hstatus, hcode⟩
  | write bytes =>
    rw [Process.step]
    split_ifs
    · exact ⟨hclosed, ⟨part, hpart.trans (List.prefix_append _ _), hlimit, hstdout⟩, status, hstatus,
        hcode⟩
    · exact ⟨hclosed, ⟨part, hpart, hlimit, hstdout⟩, status, hstatus, hcode⟩
  | process a =>
    rw [Process.step]
    split_ifs
    · exact ⟨hsound.world.closed_step hclosed a, ⟨part, hpart, hlimit, hstdout⟩, status,
        status_step hstatus a, hcode⟩
    · exact ⟨hclosed, ⟨part, hpart, hlimit, hstdout⟩, status, hstatus, hcode⟩

/-- The step that settles a call with a result. -/
theorem answered_of_step {r : ProcessResult} (h : Sound sys) (hnone : sys.client.settled = none)
    (a : Act) (hok : (step timeoutMs sys a).client.settled = some (.ok r)) :
    Answered (step timeoutMs sys a) r := by
  have hwait := h.waiting hnone
  cases a with
  | spawn =>
    rw [step] at hok
    split_ifs at hok <;> simp [hnone] at hok
  | refuse message =>
    rw [step] at hok
    split_ifs at hok <;> simp [hnone] at hok
  | abort =>
    simp only [step, State.abort] at hok
    split_ifs at hok <;> simp [hnone] at hok
  | write bytes =>
    rw [step] at hok
    split_ifs at hok <;> simp [hnone] at hok
  | process a =>
    rw [step] at hok ⊢
    split_ifs at hok ⊢
    · rcases run_drop timeoutMs sys.world sys.file sys.client a with ⟨-, hrun⟩ | ⟨e, heq, hrun⟩
      · simp only [hrun] at hok
        exact absurd (hnone.symm.trans hok) (by simp)
      · simp only [hrun] at hok
        obtain ⟨status, rfl, hverdict⟩ := clientStep_ok hok hnone
        obtain ⟨hlimit, hstdout, hcode⟩ := verdict_ok hverdict
        have hworld := ChildProcess.sound_step sys.world a h.world
        refine ⟨hworld.closes status (by rw [heq]; simp), ⟨sys.file, List.prefix_refl _, ?_, hstdout⟩,
          status, (hworld.close _ _ [] heq).status, hcode⟩
        rwa [State.size, hwait.removed, if_neg Bool.false_ne_true] at hlimit
    · exact absurd (hnone.symm.trans hok) (by simp)

theorem answered_step (a : Act) (h : Sound sys ∧ ∀ r, sys.client.settled = some (.ok r) →
    Answered sys r) : Sound (step timeoutMs sys a) ∧
      ∀ r, (step timeoutMs sys a).client.settled = some (.ok r) →
        Answered (step timeoutMs sys a) r := by
  refine ⟨sound_step a h.1, fun r hok => ?_⟩
  cases hsettled : sys.client.settled with
  | none => exact answered_of_step h.1 hsettled a hok
  | some x =>
    obtain rfl := Option.some.inj ((step_settled hsettled a).symm.trans hok)
    exact (h.2 r hsettled).step h.1 a

theorem answered_run {acts : List Act} {r : ProcessResult}
    (h : (run (step timeoutMs) {} acts).client.settled = some (.ok r)) :
    Answered (run (step timeoutMs) {} acts) r :=
  (run_invariant (P := fun sys : System => Sound sys ∧ ∀ r, sys.client.settled = some (.ok r) →
    Answered sys r) (step timeoutMs) (fun _ a h => answered_step a h)
    ⟨sound_start, fun _ h => absurd h (by simp)⟩ acts).2 r h

/-! ## Aborts -/

/-- Only an abort cancels. -/
structure Cancels (s : State) : Prop where
  termination : s.termination = some .cancelled → s.aborted = true
  settled : s.settled = some (.error .cancelled) → s.aborted = true

theorem Cancels.terminate {s : State} (h : Cancels s) {e : Failure} (he : e ≠ .cancelled) :
    Cancels (s.terminate e) := by
  refine ⟨fun hterm => ?_, h.settled⟩
  cases hs : s.termination with
  | none => simp [State.terminate, hs, he] at hterm
  | some e' =>
    refine h.termination ?_
    simpa [State.terminate, hs] using hterm

theorem Cancels.finish {s : State} (h : Cancels s) {x : Except Failure ProcessResult}
    (hx : x = .error .cancelled → s.aborted = true) : Cancels (s.finish x) := by
  unfold State.finish
  split_ifs
  · exact h
  · exact ⟨h.termination, fun hsettled => hx (Option.some.inj hsettled)⟩

theorem Cancels.clientStep {file : List ℕ} {s : State} (h : Cancels s) (e : Event Own) :
    Cancels (clientStep timeoutMs file s e) := by
  cases e with
  | data stream chunk =>
    cases stream with
    | stdout => exact h
    | stderr =>
      have hcounted : Cancels { s with stderrBytes := s.stderrBytes + chunk.length } :=
        ⟨h.termination, h.settled⟩
      simp only [Process.clientStep]
      split_ifs
      · exact hcounted.terminate (by simp)
      · exact ⟨h.termination, h.settled⟩
  | error => exact h.finish (by simp)
  | exit status => exact h
  | close status =>
    refine h.finish fun hverdict => ?_
    unfold State.verdict at hverdict
    split at hverdict
    · next e hterm =>
      obtain rfl := Except.error.inj hverdict
      exact h.termination hterm
    · split_ifs at hverdict
      exact absurd hverdict (by simp)
  | own e =>
    cases e with
    | timeout =>
      rw [Process.clientStep]
      split_ifs
      · exact h.terminate (by simp)
      · exact h
    | monitor =>
      rw [Process.clientStep]
      split_ifs
      · exact h.terminate (by simp)
      · exact h

theorem cancels_step (sys : System) (a : Act) (h : Cancels sys.client) :
    Cancels (step timeoutMs sys a).client := by
  cases a with
  | spawn =>
    rw [step]
    split_ifs with hbegun haborted
    · exact h
    · exact ⟨h.termination, fun _ => haborted⟩
    · exact ⟨h.termination, h.settled⟩
  | refuse message =>
    rw [step]
    split_ifs
    · exact h
    · exact ⟨h.termination, fun hsettled => absurd hsettled (by simp)⟩
  | abort =>
    simp only [step, State.abort]
    split_ifs
    · exact h
    · exact ⟨fun _ => rfl, fun _ => rfl⟩
    · exact ⟨fun _ => rfl, fun _ => rfl⟩
  | write bytes => rw [step]; split_ifs <;> exact h
  | process a =>
    rw [step]
    split_ifs
    · rcases run_drop timeoutMs sys.world sys.file sys.client a with ⟨-, hrun⟩ | ⟨e, -, hrun⟩
      · simp only [hrun]; exact h
      · simp only [hrun]; exact h.clientStep e
    · exact h

theorem clientStep_aborted {file : List ℕ} {s : State} (e : Event Own) :
    (clientStep timeoutMs file s e).aborted = s.aborted := by
  cases e with
  | data stream chunk =>
    cases stream with
    | stdout => rfl
    | stderr => simp only [clientStep]; split_ifs <;> rfl
  | error => rw [clientStep, State.finish]; split_ifs <;> rfl
  | exit status => rfl
  | close status => rw [clientStep, State.finish]; split_ifs <;> rfl
  | own e => cases e <;> simp only [clientStep] <;> split_ifs <;> rfl

theorem aborted_step {a : Act} (h : sys.client.aborted = false) (ha : a ≠ .abort) :
    (step timeoutMs sys a).client.aborted = false := by
  cases a with
  | spawn => rw [step]; split_ifs <;> exact h
  | refuse message => rw [step]; split_ifs <;> exact h
  | abort => exact absurd rfl ha
  | write bytes => rw [step]; split_ifs <;> exact h
  | process a =>
    rw [step]
    split_ifs
    · rcases run_drop timeoutMs sys.world sys.file sys.client a with ⟨-, hrun⟩ | ⟨e, -, hrun⟩
      · simp only [hrun]; exact h
      · simp only [hrun]; exact (clientStep_aborted e).trans h
    · exact h

/-- A call that was not aborted is not cancelled. -/
theorem not_cancelled {acts : List Act} (hacts : .abort ∉ acts) :
    (run (step timeoutMs) {} acts).client.settled ≠ some (.error .cancelled) := by
  intro hcancelled
  have hcancels : Cancels (run (step timeoutMs) {} acts).client :=
    run_invariant (P := fun sys : System => Cancels sys.client) (step timeoutMs) cancels_step
      ⟨fun h => absurd h (by simp), fun h => absurd h (by simp)⟩ acts
  have haborted : (run (step timeoutMs) {} acts).client.aborted = false :=
    run_invariant_of (P := fun sys : System => sys.client.aborted = false) (step timeoutMs)
      (fun _ _ hs ha => aborted_step hs ha) rfl
      (admissible_of_forall (step timeoutMs) (fun a ha => ne_of_mem_of_not_mem ha hacts) _)
  exact absurd (haborted.symm.trans (hcancels.settled hcancelled)) Bool.false_ne_true

end Process

end AgentOrchestrator.Discovery
