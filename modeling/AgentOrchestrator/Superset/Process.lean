import AgentOrchestrator.JsonText
import AgentOrchestrator.Library.ChildProcess
import AgentOrchestrator.Library.Utf8
import AgentOrchestrator.Results.Protocol

/-!
# One command of the process adapter

`SupersetProcessAdapter.invoke` starts a command, writes its payload and waits for the process to be
closed.  A timeout, an abort or too much output asks the process group to terminate, and kills it if
it is still there after a while.

1. `invoke_resolved_iff`: when a command resolves, and with what.
2. `launch_rejected_iff`: when the code of its failure is `LAUNCH_REJECTED`.
3. `late_kill_iff`: when the group of a process that is gone can still be killed.
-/

namespace AgentOrchestrator.Superset.Process

open Runs ChildProcess
open Results (strictObject required optionalField boolean runStatus datetime)
open Lifecycle (RunStatus RunResult CancellationOutcome)
open Store (ResumeMetadata)

/-! ## Schemas -/

inductive SupersetProcessErrorCode where
  | providerUnavailable | providerProtocolError | launchRejected | cancelUnsupported
  deriving DecidableEq

/-- `z.string()` -/
def string : Json → Option String
  | .str text => some text
  | _ => none

/-- `z.string().min(1)` -/
def nonEmptyString : Json → Option String
  | .str text => if text = "" then none else some text
  | _ => none

/-- `.nullable()` -/
def nullable {α : Type} (read : Json → Option α) : Json → Option (Option α)
  | .null => some none
  | value => (read value).map some

def handleSchema (value : Json) : Option String := do
  required nonEmptyString "runId" (← strictObject ["runId"] value)

def resumeSchema (value : Json) : Option ResumeMetadata := do
  let fields ← strictObject ["adapter", "token"] value
  let adapter ← required nonEmptyString "adapter" fields
  let token ← required nonEmptyString "token" fields
  some { adapter := adapter, token := token }

structure RunState where
  runId : String
  status : RunStatus
  updatedAt : String
  deriving DecidableEq

def stateSchema (isoDatetime : String → Bool) (value : Json) : Option RunState := do
  let fields ← strictObject ["runId", "status", "updatedAt"] value
  let runId ← required nonEmptyString "runId" fields
  let status ← required runStatus "status" fields
  let updatedAt ← required (datetime isoDatetime) "updatedAt" fields
  some { runId := runId, status := status, updatedAt := updatedAt }

def resultSchema (value : Json) : Option RunResult :=
  match value with
  | .obj fields =>
    match Results.field? "status" fields with
    | some (.str "succeeded") => do
      let fields ← strictObject ["status", "output", "resume"] value
      let output ← required string "output" fields
      let resume ← optionalField resumeSchema "resume" fields
      some (.succeeded output resume)
    | some (.str "failed") => do
      let fields ← strictObject ["status", "error", "retryable", "output", "resume"] value
      let error ← required string "error" fields
      let retryable ← required boolean "retryable" fields
      let output ← optionalField string "output" fields
      let resume ← optionalField resumeSchema "resume" fields
      some (.failed error retryable output resume)
    | some (.str "cancelled") => do
      let fields ← strictObject ["status", "reason", "output", "resume"] value
      let reason ← optionalField string "reason" fields
      let output ← optionalField string "output" fields
      let resume ← optionalField resumeSchema "resume" fields
      some (.cancelled reason output resume)
    | _ => none
  | _ => none

/-- `z.object({ cancelled: z.literal(true) }).strict()` -/
def cancelledSchema (value : Json) : Option Unit := do
  let cancelled ← required boolean "cancelled" (← strictObject ["cancelled"] value)
  if cancelled then some () else none

/-- The codes a command may declare. -/
def declaredCode : Json → Option SupersetProcessErrorCode
  | .str "PROVIDER_UNAVAILABLE" => some .providerUnavailable
  | .str "LAUNCH_REJECTED" => some .launchRejected
  | .str "CANCEL_UNSUPPORTED" => some .cancelUnsupported
  | _ => none

/-- `processErrorSchema` -/
def processErrorSchema (value : Json) : Option SupersetProcessErrorCode := do
  let fields ← strictObject ["code", "message"] value
  let code ← required declaredCode "code" fields
  let _ ← required nonEmptyString "message" fields
  some code

/-- `parseProcessError`, of which the code is used -/
def parseProcessError (stderr : List Char) : Option SupersetProcessErrorCode :=
  (Json.parse stderr).bind processErrorSchema

/-! ## A command -/

inductive Command where
  | find | launch | status | result | cancel | resume
  deriving DecidableEq

def Command.text : Command → String
  | .find => "find"
  | .launch => "launch"
  | .status => "status"
  | .result => "result"
  | .cancel => "cancel"
  | .resume => "resume"

/-- `4 * 1024 * 1024` -/
def maxOutputBytes : ℕ := 4 * 1024 * 1024

/-- How the promise of the process settles. -/
inductive Settlement where
  | resolved (stdout : List Char)
  | rejected (code : SupersetProcessErrorCode) (message : String)
  /-- with the reason of the abort -/
  | aborted
  deriving DecidableEq

inductive Signal where
  | term | kill
  deriving DecidableEq

/-- What the client waits for besides the process.  The escalations have the same delay, so the
oldest one fires first. -/
inductive Own where
  | timeout | abort | escalate
  deriving DecidableEq

/-- The command, whether the process was started, and whether the call is aborted already. -/
structure Invocation where
  command : Command
  spawned : Bool := true
  aborted : Bool := false

structure State where
  settled : Option Settlement := none
  timedOut : Bool := false
  /-- the timeout is pending -/
  armed : Bool := true
  aborted : Bool := false
  /-- the listener of the abort is registered -/
  listening : Bool := true
  stdout : List ℕ := []
  stderr : List ℕ := []
  outputBytes : ℕ := 0
  /-- the escalations that are pending; `escalation` is the newest -/
  escalations : ℕ := 0
  /-- what was sent to the process group -/
  signals : List Signal := []

variable (call : Invocation)

/-- `terminateProcessGroup` -/
def State.signal (s : State) (signal : Signal) : State :=
  { s with signals := if call.spawned then s.signals ++ [signal] else s.signals }

def State.terminate (s : State) : State :=
  { s.signal call .term with escalations := s.escalations + 1 }

def State.settle (s : State) (x : Settlement) : State :=
  if s.settled.isSome then s else { s with settled := some x }

/-- `collect` -/
def State.collect (s : State) (stream : Stream) (chunk : List ℕ) : State :=
  let s' := { s with outputBytes := s.outputBytes + chunk.length }
  if maxOutputBytes < s'.outputBytes then s'.terminate call
  else match stream with
    | .stdout => { s' with stdout := s'.stdout ++ chunk }
    | .stderr => { s' with stderr := s'.stderr ++ chunk }

/-- `${command} provider command failed` -/
def failedMessage (command : Command) : String := command.text ++ " provider command failed"

/-- How a process that was closed settles the call. -/
def verdict (command : Command) (aborted timedOut oversized : Bool) (status : Status)
    (stdout stderr : List ℕ) : Settlement :=
  if aborted then .aborted
  else if status.code ≠ some 0 ∨ status.signal ≠ none ∨ timedOut ∨ oversized then
    .rejected ((parseProcessError (Utf8.decode stderr)).getD
      (if timedOut ∨ status.signal ≠ none ∨ oversized then .providerUnavailable
        else if command = .launch then .launchRejected else .providerUnavailable))
      (failedMessage command)
  else .resolved (Utf8.decode stdout)

def step (s : State) : Event Own → State
  | .data stream chunk => s.collect call stream chunk
  | .error =>
    { s with armed := false, listening := false }.settle
      (.rejected .providerUnavailable (failedMessage call.command))
  | .exit _ => s
  | .close status =>
    { s with armed := false, listening := false, escalations := s.escalations - 1 }.settle
      (verdict call.command s.aborted s.timedOut (decide (maxOutputBytes < s.outputBytes)) status
        s.stdout s.stderr)
  | .own .timeout =>
    if s.armed then { s with armed := false, timedOut := true }.terminate call else s
  | .own .abort =>
    if s.aborted then s
    else if s.listening then
      { s with aborted := true, listening := false }.terminate call
    else { s with aborted := true }
  | .own .escalate =>
    if s.escalations = 0 then s
    else { s with escalations := s.escalations - 1 }.signal call .kill

def start : State :=
  if call.aborted then { aborted := true : State }.terminate call else {}

/-- The client after what has happened. -/
def client (w : World Own) : State := run (step call) (start call) w.events

/-! ## The methods of the adapter -/

inductive Thrown where
  | process (code : SupersetProcessErrorCode) (message : String)
  | aborted
  deriving DecidableEq

/-- What `invoke` makes of the output. -/
def Settlement.parsed {α : Type} (schema : Json → Option α) (command : Command) :
    Settlement → Except Thrown α
  | .resolved text =>
    match (Json.parse text).bind schema with
    | some value => .ok value
    | none => .error (.process .providerProtocolError
        ("Invalid " ++ command.text ++ " provider response"))
  | .rejected code message => .error (.process code message)
  | .aborted => .error .aborted

def findByIdempotencyKey (x : Settlement) : Except Thrown (Option String) :=
  x.parsed (nullable handleSchema) .find

def launch (x : Settlement) : Except Thrown String := x.parsed handleSchema .launch

def status (isoDatetime : String → Bool) (x : Settlement) : Except Thrown RunState :=
  x.parsed (stateSchema isoDatetime) .status

def result (x : Settlement) : Except Thrown (Option RunResult) :=
  x.parsed (nullable resultSchema) .result

def cancel (x : Settlement) : Except Thrown CancellationOutcome :=
  match x.parsed cancelledSchema .cancel with
  | .ok () => .ok .accepted
  | .error (.process .cancelUnsupported _) => .ok .unsupported
  | .error e => .error e

def resumeMetadata (x : Settlement) : Except Thrown (Option ResumeMetadata) :=
  x.parsed (nullable resumeSchema) .resume

/-! ## What the client has seen -/

/-- The event ends the wait for the process. -/
def ends : Event Own → Bool
  | .error | .close _ => true
  | _ => false

/-- The process wrote more than is collected. -/
def Oversized (w : World Own) : Prop :=
  maxOutputBytes < (w.pipe .stdout).written.length + (w.pipe .stderr).written.length

instance (w : World Own) : Decidable (Oversized w) := inferInstanceAs (Decidable (_ < _))

/-- What the client knows while it waits. -/
structure Seen (l : List (Event Own)) (s : State) : Prop where
  settled : s.settled = none
  armed : s.armed = !s.timedOut
  timedOut : s.timedOut = true ↔ .own .timeout ∈ l
  aborted : s.aborted = true ↔ call.aborted = true ∨ .own .abort ∈ l
  listening : s.aborted = false → s.listening = true
  outputBytes : s.outputBytes = (bytesOf .stdout l).length + (bytesOf .stderr l).length
  kept : s.outputBytes ≤ maxOutputBytes →
    s.stdout = bytesOf .stdout l ∧ s.stderr = bytesOf .stderr l

variable {call}

theorem seen_start : Seen call [] (start call) := by
  unfold start
  split_ifs with haborted
  · constructor <;> simp [State.terminate, State.signal, haborted]
  · constructor <;> simp [haborted]

theorem Seen.collect {l : List (Event Own)} {s : State} (h : Seen call l s) (stream : Stream)
    (chunk : List ℕ) : Seen call (l ++ [.data stream chunk]) (s.collect call stream chunk) := by
  have hbytes : (bytesOf .stdout (l ++ [.data stream chunk])).length +
      (bytesOf .stderr (l ++ [.data stream chunk])).length = s.outputBytes + chunk.length := by
    rw [h.outputBytes]
    cases stream <;> simp [Event.bytes] <;> omega
  have hmem : ∀ e, Event.own e ∈ l ++ [.data stream chunk] ↔ .own e ∈ l := by simp
  simp only [State.collect]
  split_ifs with hover
  · refine ⟨h.settled, h.armed, ?_, ?_, h.listening, hbytes.symm, fun hle => ?_⟩
    · rw [hmem]; exact h.timedOut
    · rw [hmem]; exact h.aborted
    · exact absurd hover (Nat.not_lt.2 hle)
  · obtain ⟨hstdout, hstderr⟩ := h.kept (by simp only [Nat.not_lt] at hover; omega)
    cases stream with
    | stdout =>
      refine ⟨h.settled, h.armed, ?_, ?_, h.listening, hbytes.symm, fun _ => ?_⟩
      · rw [hmem]; exact h.timedOut
      · rw [hmem]; exact h.aborted
      · simp [Event.bytes, hstdout, hstderr]
    | stderr =>
      refine ⟨h.settled, h.armed, ?_, ?_, h.listening, hbytes.symm, fun _ => ?_⟩
      · rw [hmem]; exact h.timedOut
      · rw [hmem]; exact h.aborted
      · simp [Event.bytes, hstdout, hstderr]

theorem Seen.step {l : List (Event Own)} {s : State} (h : Seen call l s) {e : Event Own}
    (he : ends e = false) : Seen call (l ++ [e]) (step call s e) := by
  have hbytes : ∀ stream e', bytesOf stream (l ++ [.own e']) = bytesOf stream l := by
    intro stream e'
    simp [Event.bytes]
  cases e with
  | data stream chunk => exact h.collect stream chunk
  | error => exact absurd he (by decide)
  | close status => exact absurd he (by simp [ends])
  | exit status =>
    have hexit : ∀ stream, bytesOf stream (l ++ [.exit status]) = bytesOf stream l := by
      intro stream
      simp [Event.bytes]
    change Seen call (l ++ [.exit status]) s
    refine ⟨h.settled, h.armed, ?_, ?_, h.listening, ?_, ?_⟩
    · simpa using h.timedOut
    · simpa using h.aborted
    · rw [hexit, hexit]; exact h.outputBytes
    · rw [hexit, hexit]; exact h.kept
  | own e =>
    cases e with
    | timeout =>
      by_cases harmed : s.armed = true
      · simp only [Process.step, if_pos harmed, State.terminate, State.signal]
        refine ⟨h.settled, rfl, by simp, by simpa using h.aborted, h.listening, ?_, ?_⟩
        · rw [hbytes, hbytes]; exact h.outputBytes
        · rw [hbytes, hbytes]; exact h.kept
      · have htimedOut : s.timedOut = true := by simpa [h.armed] using harmed
        simp only [Process.step, if_neg harmed]
        refine ⟨h.settled, h.armed, by simp [htimedOut], by simpa using h.aborted, h.listening,
          ?_, ?_⟩
        · rw [hbytes, hbytes]; exact h.outputBytes
        · rw [hbytes, hbytes]; exact h.kept
    | abort =>
      by_cases haborted : s.aborted = true
      · simp only [Process.step, if_pos haborted]
        refine ⟨h.settled, h.armed, by simpa using h.timedOut, by simp [haborted], h.listening,
          ?_, ?_⟩
        · rw [hbytes, hbytes]; exact h.outputBytes
        · rw [hbytes, hbytes]; exact h.kept
      · have hlistening := h.listening (eq_false_of_ne_true haborted)
        simp only [Process.step, if_neg haborted, if_pos hlistening, State.terminate, State.signal]
        refine ⟨h.settled, h.armed, by simpa using h.timedOut, by simp, by simp, ?_, ?_⟩
        · rw [hbytes, hbytes]; exact h.outputBytes
        · rw [hbytes, hbytes]; exact h.kept
    | escalate =>
      have hsame : Seen call (l ++ [.own .escalate]) s := by
        refine ⟨h.settled, h.armed, by simpa using h.timedOut, by simpa using h.aborted,
          h.listening, ?_, ?_⟩
        · rw [hbytes, hbytes]; exact h.outputBytes
        · rw [hbytes, hbytes]; exact h.kept
      by_cases hnone : s.escalations = 0
      · simpa only [Process.step, if_pos hnone] using hsame
      · simp only [Process.step, if_neg hnone, State.signal]
        exact ⟨hsame.settled, hsame.armed, hsame.timedOut, hsame.aborted, hsame.listening,
          hsame.outputBytes, hsame.kept⟩

variable (call) in
/-- While it waits, the client knows what has happened. -/
theorem seen_run (l : List (Event Own)) (hl : ∀ e ∈ l, ends e = false) :
    Seen call l (run (step call) (start call) l) := by
  induction l using List.reverseRecOn with
  | nil => exact seen_start
  | append_singleton l e ih =>
    rw [run_append]
    exact (ih fun x hx => hl x (List.mem_append_left _ hx)).step
      (hl e (List.mem_append_right _ (List.mem_singleton_self e)))

/-! ## How a call settles -/

theorem State.settle_settled {s : State} {x y : Settlement} (h : s.settled = some x) :
    (s.settle y).settled = some x := by
  rw [State.settle, if_pos (by rw [h]; rfl)]
  exact h

theorem step_settled {s : State} {x : Settlement} (h : s.settled = some x) (e : Event Own) :
    (step call s e).settled = some x := by
  cases e with
  | data stream chunk =>
    simp only [step, State.collect]
    split_ifs
    · exact h
    · cases stream <;> exact h
  | error => exact State.settle_settled h
  | exit status => exact h
  | close status => exact State.settle_settled h
  | own e =>
    cases e <;> simp only [step] <;> split_ifs <;> exact h

theorem settled_run {s : State} {x : Settlement} (h : s.settled = some x) (l : List (Event Own)) :
    (run (step call) s l).settled = some x :=
  run_invariant (P := fun s : State => s.settled = some x) (step call)
    (fun _ e hs => step_settled hs e) h l

/-- The error of a process that could not be started settles the call. -/
theorem settled_error {before after : List (Event Own)} (hbefore : ∀ e ∈ before, ends e = false) :
    (run (step call) (start call) (before ++ .error :: after)).settled =
      some (.rejected .providerUnavailable (failedMessage call.command)) := by
  have hseen := seen_run call before hbefore
  rw [run_append, run_cons]
  refine settled_run ?_ after
  simp [step, State.settle, hseen.settled]

/-- The close of a process settles the call, with all it wrote. -/
theorem settled_close {w : World Own} (hw : ChildProcess.Sound w) {before after : List (Event Own)}
    {status : Status} (heq : w.events = before ++ .close status :: after)
    (hbefore : ∀ e ∈ before, ends e = false) {s : State}
    (hs : s = run (step call) (start call) before) :
    (client call w).settled = some (verdict call.command s.aborted s.timedOut
      (decide (Oversized w)) status s.stdout s.stderr) ∧
    (¬ Oversized w → s.stdout = (w.pipe .stdout).written ∧ s.stderr = (w.pipe .stderr).written) := by
  have hseen := seen_run call before hbefore
  rw [← hs] at hseen
  have hcomplete := (hw.close before status after heq).complete
  have hover : s.outputBytes =
      (w.pipe .stdout).written.length + (w.pipe .stderr).written.length := by
    rw [hseen.outputBytes, hcomplete, hcomplete]
  constructor
  · rw [client, heq, run_append, run_cons, ← hs]
    refine settled_run ?_ after
    simp only [step, State.settle, hseen.settled, hover, Option.isSome_none, Bool.false_eq_true,
      if_false]
    rfl
  · intro hsize
    obtain ⟨hstdout, hstderr⟩ := hseen.kept (by rw [hover]; exact Nat.not_lt.1 hsize)
    rw [hstdout, hstderr, hcomplete, hcomplete]
    exact ⟨rfl, rfl⟩

theorem ends_of_close {w : World Own} (hw : ChildProcess.Sound w) {before after : List (Event Own)}
    {status : Status} (heq : w.events = before ++ .close status :: after)
    (herror : .error ∉ before) : ∀ e ∈ before, ends e = false := by
  intro e he
  cases e with
  | error => exact absurd he herror
  | close status' => exact absurd he ((hw.close before status after heq).first status')
  | _ => rfl

variable (call) in
/-- A call waits, could not start its process, or saw it closed. -/
theorem settled_cases (w : World Own) :
    (client call w).settled = none ∨
    (client call w).settled =
      some (.rejected .providerUnavailable (failedMessage call.command)) ∨
    ∃ before status after, w.events = before ++ .close status :: after ∧ .error ∉ before := by
  cases hfind : w.events.find? ends with
  | none =>
    refine Or.inl (seen_run call w.events fun e he => ?_).settled
    exact eq_false_of_ne_true (List.find?_eq_none.1 hfind e he)
  | some e =>
    obtain ⟨hends, before, after, heq, hbefore⟩ := List.find?_eq_some_iff_append.1 hfind
    have hopen : ∀ e ∈ before, ends e = false := fun e he => by simpa using hbefore e he
    right
    cases e with
    | error =>
      left
      rw [client, heq]
      exact settled_error hopen
    | close status =>
      exact Or.inr ⟨before, status, after, heq, fun he => by simpa [ends] using hopen _ he⟩
    | data stream chunk => exact absurd hends (by simp [ends])
    | exit status => exact absurd hends (by simp [ends])
    | own e => exact absurd hends (by simp [ends])

theorem verdict_resolved {command : Command} {aborted timedOut oversized : Bool} {status : Status}
    {stdout stderr : List ℕ} {text : List Char} :
    verdict command aborted timedOut oversized status stdout stderr = .resolved text ↔
      aborted = false ∧ timedOut = false ∧ oversized = false ∧ status = ⟨some 0, none⟩ ∧
        text = Utf8.decode stdout := by
  obtain ⟨code, signal⟩ := status
  unfold verdict
  split_ifs with haborted hfailed
  · simp [haborted]
  · constructor
    · intro h; exact absurd h (by simp)
    · rintro ⟨-, htimedOut, hoversized, hstatus, -⟩
      obtain ⟨rfl, rfl⟩ := Status.mk.inj hstatus
      simp [htimedOut, hoversized] at hfailed
  · simp only [ne_eq, not_or, not_not, Bool.not_eq_true] at hfailed
    obtain ⟨rfl, rfl, htimedOut, hoversized⟩ := hfailed
    simp [haborted, htimedOut, hoversized, eq_comm]

variable (call) in
/-- **When a command resolves.**  Its process was started and was closed with the code 0, before
the timeout and an abort; then the text is all that was written to its output, by the process or by
what it left behind. -/
theorem invoke_resolved_iff (acts : List (ChildProcess.Act Own)) (text : List Char) :
    let w := run ChildProcess.step {} acts
    (client call w).settled = some (.resolved text) ↔
      ∃ before after, w.events = before ++ .close ⟨some 0, none⟩ :: after ∧ .error ∉ before ∧
        call.aborted = false ∧ .own .abort ∉ before ∧ .own .timeout ∉ before ∧ ¬ Oversized w ∧
        text = Utf8.decode (w.pipe .stdout).written := by
  intro w
  have hw : ChildProcess.Sound w := ChildProcess.sound_run acts
  constructor
  · intro h
    rcases settled_cases call w with hnone | hrejected | ⟨before, status, after, heq, herror⟩
    · exact absurd (hnone.symm.trans h) (by simp)
    · exact absurd (hrejected.symm.trans h) (by simp)
    · have hopen := ends_of_close hw heq herror
      have hseen := seen_run call before hopen
      obtain ⟨hsettled, hkept⟩ := settled_close hw heq hopen rfl
      obtain ⟨haborted, htimedOut, hover, rfl, rfl⟩ :=
        verdict_resolved.1 (Option.some.inj (hsettled.symm.trans h))
      have hsize : ¬ Oversized w := by simpa using hover
      have hnot : ¬ (call.aborted = true ∨ .own .abort ∈ before) := fun habort =>
        absurd (haborted.symm.trans (hseen.aborted.2 habort)) Bool.false_ne_true
      refine ⟨before, after, heq, herror, ?_, fun habort => hnot (Or.inr habort), ?_, hsize, ?_⟩
      · exact eq_false_of_ne_true fun habort => hnot (Or.inl habort)
      · intro htimeout
        exact absurd (htimedOut.symm.trans (hseen.timedOut.2 htimeout)) Bool.false_ne_true
      · rw [(hkept hsize).1]
  · rintro ⟨before, after, heq, herror, hcall, habort, htimeout, hsize, rfl⟩
    have hopen := ends_of_close hw heq herror
    have hseen := seen_run call before hopen
    obtain ⟨hsettled, hkept⟩ := settled_close hw heq hopen rfl
    rw [hsettled, (hkept hsize).1]
    refine congrArg some (verdict_resolved.2 ⟨?_, ?_, by simpa using hsize, rfl, rfl⟩)
    · refine eq_false_of_ne_true fun haborted => ?_
      rcases hseen.aborted.1 haborted with h | h
      · exact absurd (hcall.symm.trans h) Bool.false_ne_true
      · exact habort h
    · exact eq_false_of_ne_true fun h => htimeout (hseen.timedOut.1 h)

/-! ## A rejected launch -/

variable (call) in
/-- The code the command declares, by what was collected of its errors. -/
def declared (before : List (Event Own)) : Option SupersetProcessErrorCode :=
  parseProcessError (Utf8.decode (run (step call) (start call) before).stderr)

theorem verdict_launchRejected {command : Command} {aborted timedOut oversized : Bool}
    {status : Status} {stdout stderr : List ℕ} :
    (∃ message, verdict command aborted timedOut oversized status stdout stderr =
        .rejected .launchRejected message) ↔
      aborted = false ∧
      (status.code ≠ some 0 ∨ status.signal ≠ none ∨ timedOut = true ∨ oversized = true) ∧
      (parseProcessError (Utf8.decode stderr) = some .launchRejected ∨
        parseProcessError (Utf8.decode stderr) = none ∧ command = .launch ∧ timedOut = false ∧
          status.signal = none ∧ oversized = false) := by
  by_cases haborted : aborted = true
  · simp [verdict, haborted]
  rw [verdict, if_neg haborted]
  by_cases hfailed : status.code ≠ some 0 ∨ status.signal ≠ none ∨ timedOut = true ∨ oversized = true
  · rw [if_pos hfailed]
    simp only [haborted, hfailed, true_and, Settlement.rejected.injEq, exists_and_left, exists_eq',
      and_true]
    cases parseProcessError (Utf8.decode stderr) with
    | some code => simp
    | none =>
      rw [Option.getD_none]
      by_cases hcut : timedOut = true ∨ status.signal ≠ none ∨ oversized = true
      · rw [if_pos hcut]
        constructor
        · intro h
          exact absurd h (by decide)
        · rintro (h | ⟨-, -, htimedOut, hsignal, hoversized⟩)
          · exact absurd h (by simp)
          · simp [htimedOut, hsignal, hoversized] at hcut
      · rw [if_neg hcut]
        push Not at hcut
        obtain ⟨htimedOut, hsignal, hoversized⟩ := hcut
        by_cases hlaunch : command = .launch
        · simp [hlaunch, htimedOut, hsignal, hoversized]
        · simp [hlaunch]
  · rw [if_neg hfailed]
    constructor
    · rintro ⟨message, h⟩
      exact absurd h (by simp)
    · rintro ⟨-, h, -⟩
      exact absurd h hfailed

variable (call) in
/-- **When the code of a failure is `LAUNCH_REJECTED`.**  The command declares it, or declares
nothing, is a launch, and ended by itself with another code than 0, with no timeout and no more
output than is collected. -/
theorem launch_rejected_iff (acts : List (ChildProcess.Act Own)) :
    let w := run ChildProcess.step {} acts
    (∃ message, (client call w).settled = some (.rejected .launchRejected message)) ↔
      ∃ before status after, w.events = before ++ .close status :: after ∧ .error ∉ before ∧
        call.aborted = false ∧ .own .abort ∉ before ∧
        (status.code ≠ some 0 ∨ status.signal ≠ none ∨ .own .timeout ∈ before ∨ Oversized w) ∧
        (declared call before = some .launchRejected ∨
          declared call before = none ∧ call.command = .launch ∧ .own .timeout ∉ before ∧
            status.signal = none ∧ ¬ Oversized w) := by
  intro w
  have hw : ChildProcess.Sound w := ChildProcess.sound_run acts
  have hclose : ∀ before status after, w.events = before ++ .close status :: after →
      .error ∉ before → ((∃ message, (client call w).settled =
        some (.rejected .launchRejected message)) ↔
      (call.aborted = false ∧ .own .abort ∉ before) ∧
        (status.code ≠ some 0 ∨ status.signal ≠ none ∨ .own .timeout ∈ before ∨ Oversized w) ∧
        (declared call before = some .launchRejected ∨
          declared call before = none ∧ call.command = .launch ∧ .own .timeout ∉ before ∧
            status.signal = none ∧ ¬ Oversized w)) := by
    intro before status after heq herror
    have hopen := ends_of_close hw heq herror
    have hseen := seen_run call before hopen
    have haborted : (run (step call) (start call) before).aborted = false ↔
        call.aborted = false ∧ .own .abort ∉ before := by
      rw [← Bool.not_eq_true, hseen.aborted, not_or, Bool.not_eq_true]
    have htimedOut : (run (step call) (start call) before).timedOut = false ↔
        .own .timeout ∉ before := by
      rw [← Bool.not_eq_true, hseen.timedOut]
    rw [(settled_close hw heq hopen rfl).1]
    simp only [Option.some.injEq]
    rw [verdict_launchRejected, haborted, htimedOut, hseen.timedOut, decide_eq_true_eq,
      decide_eq_false_iff_not]
    rfl
  constructor
  · rintro ⟨message, h⟩
    rcases settled_cases call w with hnone | hrejected | ⟨before, status, after, heq, herror⟩
    · exact absurd (hnone.symm.trans h) (by simp)
    · exact absurd (hrejected.symm.trans h) (by simp)
    · obtain ⟨⟨hcall, habort⟩, hfailed, hcode⟩ :=
        (hclose before status after heq herror).1 ⟨message, h⟩
      exact ⟨before, status, after, heq, herror, hcall, habort, hfailed, hcode⟩
  · rintro ⟨before, status, after, heq, herror, hcall, habort, hfailed, hcode⟩
    exact (hclose before status after heq herror).2 ⟨⟨hcall, habort⟩, hfailed, hcode⟩

/-! ## Signals after the close -/

variable (call) in
/-- Until the process is closed, every termination escalates or is going to. -/
structure Counted (s : State) : Prop where
  silent : call.spawned = false → s.signals = []
  balance : call.spawned = true →
    s.signals.count .kill + s.escalations = s.signals.count .term

variable (call) in
/-- After the close, the newest escalation is cleared. -/
structure Idle (s : State) : Prop where
  armed : s.armed = false
  listening : s.listening = false
  silent : call.spawned = false → s.signals = []
  balance : call.spawned = true →
    s.signals.count .kill + s.escalations + 1 = s.signals.count .term ∨
      s.escalations = 0 ∧ s.signals.count .kill = s.signals.count .term

theorem Counted.terminate {s : State} (h : Counted call s) :
    Counted call (s.terminate call) := by
  constructor
  · intro hspawned
    simp [State.terminate, State.signal, hspawned, h.silent hspawned]
  · intro hspawned
    have := h.balance hspawned
    simp only [State.terminate, State.signal, hspawned, if_true, List.count_append]
    simp
    omega

theorem counted_start : Counted call (start call) := by
  have hnew : ∀ aborted, Counted call ({ aborted := aborted } : State) :=
    fun _ => ⟨fun _ => rfl, fun _ => rfl⟩
  unfold start
  split_ifs
  · exact (hnew true).terminate
  · exact hnew false

theorem Counted.step {s : State} (h : Counted call s) {e : Event Own}
    (he : ∀ status, e ≠ .close status) : Counted call (step call s e) := by
  cases e with
  | data stream chunk =>
    simp only [Process.step, State.collect]
    split_ifs
    · exact Counted.terminate ⟨h.silent, h.balance⟩
    · cases stream <;> exact ⟨h.silent, h.balance⟩
  | error =>
    rw [Process.step, State.settle]
    split_ifs <;> exact ⟨h.silent, h.balance⟩
  | exit status => exact h
  | close status => exact absurd rfl (he status)
  | own e =>
    cases e with
    | timeout =>
      rw [Process.step]
      split_ifs
      · exact Counted.terminate ⟨h.silent, h.balance⟩
      · exact h
    | abort =>
      rw [Process.step]
      split_ifs
      · exact h
      · exact Counted.terminate ⟨h.silent, h.balance⟩
      · exact ⟨h.silent, h.balance⟩
    | escalate =>
      rw [Process.step]
      split_ifs with hnone
      · exact h
      · constructor
        · intro hspawned
          simp [State.signal, hspawned, h.silent hspawned]
        · intro hspawned
          have := h.balance hspawned
          simp only [State.signal, hspawned, if_true, List.count_append]
          simp
          omega

theorem Idle.step {s : State} (h : Idle call s) {e : Event Own}
    (he : Quiet e) : Idle call (step call s e) := by
  rcases he with rfl | ⟨event, rfl⟩
  · rw [Process.step, State.settle]
    split_ifs <;> exact ⟨rfl, rfl, h.silent, h.balance⟩
  · cases event with
    | timeout => rwa [Process.step, if_neg (by simp [h.armed])]
    | abort =>
      rw [Process.step]
      split_ifs with haborted hlistening
      · exact h
      · exact absurd (h.listening.symm.trans hlistening) Bool.false_ne_true
      · exact ⟨h.armed, h.listening, h.silent, h.balance⟩
    | escalate =>
      rw [Process.step]
      split_ifs with hnone
      · exact h
      · refine ⟨h.armed, h.listening, ?_, ?_⟩
        · intro hspawned
          simp [State.signal, hspawned, h.silent hspawned]
        · intro hspawned
          have := h.balance hspawned
          simp only [State.signal, hspawned, if_true, List.count_append]
          simp
          omega

theorem Counted.close {s : State} (h : Counted call s) (status : Status) :
    Idle call (Process.step call s (.close status)) := by
  have hidle : Idle call
      { s with armed := false, listening := false, escalations := s.escalations - 1 } := by
    refine ⟨rfl, rfl, h.silent, fun hspawned => ?_⟩
    have := h.balance hspawned
    simp only
    omega
  rw [Process.step, State.settle]
  split_ifs
  · exact hidle
  · exact ⟨hidle.armed, hidle.listening, hidle.silent, hidle.balance⟩

theorem counted_run {s : State} (h : Counted call s) {l : List (Event Own)}
    (hl : ∀ e ∈ l, ∀ status, e ≠ .close status) : Counted call (run (step call) s l) :=
  run_invariant_of (P := Counted call) (step call) (fun _ _ hs he => hs.step he) h
    (admissible_of_forall (step call) hl s)

theorem idle_run {s : State} (h : Idle call s) {l : List (Event Own)} (hl : ∀ e ∈ l, Quiet e) :
    Idle call (run (step call) s l) :=
  run_invariant_of (P := Idle call) (step call) (fun _ _ hs he => hs.step he) h
    (admissible_of_forall (step call) hl s)

/-- Once the process is closed, the client is idle. -/
theorem idle_of_closed {w : World Own} (hw : ChildProcess.Sound w) {before after : List (Event Own)}
    {status : Status} (heq : w.events = before ++ .close status :: after) :
    Idle call (client call w) := by
  have hclosed := hw.close before status after heq
  have hcounted : Counted call (run (step call) (start call) before) := by
    refine counted_run counted_start ?_
    rintro e he status rfl
    exact hclosed.first status he
  rw [client, heq, run_append, run_cons]
  exact idle_run (hcounted.close status) hclosed.quiet

theorem Idle.signals_run {s : State} (h : Idle call s) (hnone : s.escalations = 0)
    {l : List (Event Own)} (hl : ∀ e ∈ l, Quiet e) :
    (run (Process.step call) s l).signals = s.signals := by
  have hstep : ∀ (s' : State) (e : Event Own),
      (Idle call s' ∧ s'.escalations = 0 ∧ s'.signals = s.signals) → Quiet e →
      (Idle call (Process.step call s' e) ∧ (Process.step call s' e).escalations = 0 ∧
        (Process.step call s' e).signals = s.signals) := by
    rintro s' e ⟨hidle, hzero, hsignals⟩ he
    refine ⟨hidle.step he, ?_⟩
    rcases he with rfl | ⟨event, rfl⟩
    · rw [Process.step, State.settle]
      split_ifs <;> exact ⟨hzero, hsignals⟩
    · cases event with
      | timeout =>
        rw [Process.step, if_neg (by simp [hidle.armed])]
        exact ⟨hzero, hsignals⟩
      | abort =>
        rw [Process.step, if_neg (c := s'.listening = true) (by simp [hidle.listening])]
        split_ifs <;> exact ⟨hzero, hsignals⟩
      | escalate =>
        rw [Process.step, if_pos hzero]
        exact ⟨hzero, hsignals⟩
  exact (run_invariant_of (Process.step call) hstep ⟨h, hnone, rfl⟩
    (admissible_of_forall (Process.step call) hl _)).2.2

variable (call) in
/-- **When a process that is gone is still killed.**  Every termination sends `SIGTERM` and arms an
escalation of its own, but the close clears the newest only.  So after the close a `SIGKILL` can
still be sent to the group if and only if at least two terminations have not escalated by then, the
newest counted. -/
theorem late_kill_iff (acts : List (ChildProcess.Act Own))
    (hclosed : (run ChildProcess.step ({} : World Own) acts).closed = true) :
    (∃ later, (client call (run ChildProcess.step {} (acts ++ later))).signals ≠
        (client call (run ChildProcess.step {} acts)).signals) ↔
      (client call (run ChildProcess.step {} acts)).signals.count .kill + 1 <
        (client call (run ChildProcess.step {} acts)).signals.count .term := by
  set w := run ChildProcess.step ({} : World Own) acts with hw
  have hsound : ChildProcess.Sound w := ChildProcess.sound_run acts
  obtain ⟨status, hmem⟩ := hsound.closed hclosed
  obtain ⟨before, after, heq⟩ := List.append_of_mem hmem
  have hidle : Idle call (client call w) := idle_of_closed hsound heq
  constructor
  · rintro ⟨later, hlater⟩
    by_contra hcount
    apply hlater
    rw [run_append, ← hw]
    obtain ⟨extra, hextra⟩ := events_extend w later
    have hsound' : ChildProcess.Sound (run ChildProcess.step w later) := by
      rw [hw, ← run_append]; exact ChildProcess.sound_run _
    have hquiet : ∀ e ∈ extra, Quiet e := by
      have heq' : (run ChildProcess.step w later).events =
          before ++ .close status :: (after ++ extra) := by
        rw [← hextra, heq]; simp
      exact fun e he => (hsound'.close _ _ _ heq').quiet e (List.mem_append_right _ he)
    rw [client, ← hextra, run_append]
    by_cases hspawned : call.spawned = true
    · refine hidle.signals_run ?_ hquiet
      have := hidle.balance hspawned
      omega
    · have hnone := eq_false_of_ne_true hspawned
      have hlast : Idle call (run (step call) (client call w) extra) := idle_run hidle hquiet
      exact (hlast.silent hnone).trans (hidle.silent hnone).symm
  · intro hcount
    refine ⟨[.own .escalate], ?_⟩
    have hspawned : call.spawned = true := by
      by_contra hspawned
      rw [hidle.silent (eq_false_of_ne_true hspawned)] at hcount
      simp at hcount
    have hpending : (client call w).escalations ≠ 0 := by
      have := hidle.balance hspawned
      omega
    rw [run_append, ← hw]
    simp only [run_cons, run_nil, ChildProcess.step, World.report, client, run_append]
    rw [show run (step call) (start call) w.events = client call w from rfl, step,
      if_neg hpending]
    simp [State.signal, hspawned]

/-- A status that times out and is aborted before its process ends: two terminations, of which the
close clears one. -/
def stubborn : List (ChildProcess.Act Own) :=
  [.own .timeout, .own .abort, .stop { code := none, signal := some "SIGTERM" }, .exit,
    .finish .stdout, .finish .stderr, .close]

theorem late_kill_iff_sample :
    ∃ later, (client { command := .status }
        (run ChildProcess.step {} (stubborn ++ later))).signals ≠
      (client { command := .status } (run ChildProcess.step {} stubborn)).signals :=
  (late_kill_iff { command := .status } stubborn (by decide +kernel)).2 (by decide +kernel)

end AgentOrchestrator.Superset.Process
