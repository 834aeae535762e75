import AgentOrchestrator.JsonText
import AgentOrchestrator.Lease.Storage
import AgentOrchestrator.Library.LineReader
import AgentOrchestrator.Library.Runs
import AgentOrchestrator.Superset.Model
import Mathlib.Data.List.DropRight
import Mathlib.Data.List.Infix

/-!
# One call over the bridge

`invokeLocalTool` starts a bridge process, sends `initialize`, and sends `tools/call` when the answer
has come.  The output of the process is decoded and read line by line, and the call settles with the
first line, error, exit or timeout that decides it.  What is done to the process afterwards is left
out.

1. `settled_run`: a call settles once, and nothing is sent after it has.
2. `stdout_run`: what the call does depends on the lines of the output only, not on its chunks.
3. `Accounted`: how many `tools/call` there are, and what the outcome of a failed call says about
   them.
-/

namespace AgentOrchestrator.Superset.Transport

open Runs LineReader

/-! ## Messages -/

def maxOutputBytes : ℕ := 4 * 1024 * 1024

def mcpProtocolVersion : String := "2025-06-18"

/-- `PRE_DISPATCH_JSON_RPC_ERRORS` -/
def preDispatchJsonRpcErrors : List ℚ := [-32700, -32600, -32601, -32602]

/-- A field of an object. -/
def field? (name : String) (fields : List (String × Json)) : Option Json :=
  (Keyed.lookup Prod.fst name fields).map Prod.snd

/-- What the client sends. -/
inductive Sent where
  | initializeRequest (id : String)
  | initialized
  | toolsCall (id name : String) (args : Json)
  | methodNotFound (id : Json)
  deriving DecidableEq

/-- A message as it is printed. -/
def Sent.message : Sent → Json
  | .initializeRequest id => .obj [("jsonrpc", .str "2.0"), ("id", .str id), ("method", .str "initialize"),
      ("params", .obj [("protocolVersion", .str mcpProtocolVersion), ("capabilities", .obj []),
        ("clientInfo", .obj [("name", .str "superset-agent-orchestrator"),
          ("version", .str "0.1.0")])])]
  | .initialized => .obj [("jsonrpc", .str "2.0"), ("method", .str "notifications/initialized")]
  | .toolsCall id name args => .obj [("jsonrpc", .str "2.0"), ("id", .str id),
      ("method", .str "tools/call"), ("params", .obj [("name", .str name), ("arguments", args)])]
  | .methodNotFound id => .obj [("jsonrpc", .str "2.0"), ("id", id),
      ("error", .obj [("code", .num (-32601)), ("message", .str "Method not found")])]

def Sent.isCall : Sent → Bool
  | .toolsCall .. => true
  | _ => false

/-- `jsonRpcResponseSchema`, less the keys it strips. -/
inductive Response where
  | result (id : String) (result : Json)
  | error (id : Option String) (code : ℚ) (message : String)
  deriving DecidableEq

/-- The error of a response. -/
def parseError (value : Json) : Option (ℚ × String) :=
  match value with
  | .obj fields =>
    match field? "code" fields, field? "message" fields with
    | some (.num code), some (.str message) => some (code, message)
    | _, _ => none
  | _ => none

/-- `jsonRpcResponseSchema.parse`: a result is tried first. -/
def parseResponse (value : Json) : Option Response :=
  match value with
  | .obj fields =>
    if field? "jsonrpc" fields = some (.str "2.0") then
      match field? "id" fields, field? "result" fields, (field? "error" fields).bind parseError with
      | some (.str id), some result, _ => some (.result id result)
      | some (.str id), none, some e => some (.error (some id) e.1 e.2)
      | some .null, _, some e => some (.error none e.1 e.2)
      | _, _, _ => none
    else none
  | _ => none

/-- What a line of the bridge is. -/
inductive Incoming where
  | malformed
  | notification
  | request (id : Json)
  | response (r : Response)
  deriving DecidableEq

def Incoming.ofResponse : Option Response → Incoming
  | none => .malformed
  | some r => .response r

def readMessage (line : List Char) : Incoming :=
  match Json.parse line with
  | none => .malformed
  | some (.obj fields) =>
    match field? "id" fields with
    | none => .notification
    | some id =>
      if (field? "method" fields).isSome then .request id
      else .ofResponse (parseResponse (.obj fields))
  | some value => .ofResponse (parseResponse value)

/-- A text item of a tool result. -/
def textItem (item : Json) : Option String :=
  match item with
  | .obj fields =>
    match field? "type" fields, field? "text" fields with
    | some (.str "text"), some (.str text) => some text
    | _, _ => none
  | _ => none

/-- `toolResultSchema`: the first text, and whether it is an error. -/
def toolResult (value : Json) : Option (String × Bool) :=
  match value with
  | .obj fields =>
    match field? "content" fields with
    | some (.arr (first :: rest)) =>
      if rest.all fun item => (textItem item).isSome then
        match textItem first, field? "isError" fields with
        | some text, none => some (text, false)
        | some text, some (.bool isError) => some (text, isError)
        | _, _ => none
      else none
    | _ => none
  | _ => none

/-! ## The client -/

/-- The arguments of the call, and the identifiers it draws. -/
structure Invocation where
  name : String
  args : Json
  initializeId : String
  callId : String
  timeoutMs : ℕ

/-- How a call settles. -/
inductive Settlement where
  | resolved (value : Json)
  | rejected (code message : String) (outcome : ToolOutcome)
  deriving DecidableEq

/-- What lines change. -/
structure Core where
  dispatched : Bool := false
  settled : Option Settlement := none
  writable : Bool := true
  sent : List Sent := []

structure State extends Core where
  outputBytes : ℕ := 0
  decoder : Utf8.State := {}
  pendingLine : List Char := []
  stderr : List ℕ := []

variable (call : Invocation)

/-- The outcome of a failure that nothing is known about. -/
def Core.outcome (s : Core) : ToolOutcome := if s.dispatched then .unknown else .notDispatched

def Core.fail (s : Core) (code message : String) (outcome : ToolOutcome) : Core :=
  if s.settled.isSome then s
  else { s with settled := some (.rejected code
          ("Superset local MCP " ++ call.name ++ ": " ++ message) outcome) }

def Core.succeed (s : Core) (value : Json) : Core :=
  if s.settled.isSome then s else { s with settled := some (.resolved value), writable := false }

def Core.send (s : Core) (message : Sent) : Core :=
  if s.writable then { s with sent := s.sent ++ [message] } else s

/-- The answer to `tools/call`. -/
def Core.handleResult (s : Core) (result : Json) : Core :=
  match toolResult result with
  | none => s.fail call "PROVIDER_PROTOCOL_ERROR" "returned a malformed tool result" s.outcome
  | some (text, true) => s.fail call "PROVIDER_UNAVAILABLE" text .unknown
  | some (text, false) =>
    match Json.parse text.toList with
    | some value => s.succeed value
    | none => s.fail call "PROVIDER_PROTOCOL_ERROR" "returned non-JSON tool content" s.outcome

def Core.handleMessage (s : Core) (line : List Char) : Core :=
  match readMessage line with
  | .malformed =>
    s.fail call "PROVIDER_PROTOCOL_ERROR" "returned a malformed JSON-RPC message" s.outcome
  | .notification => s
  | .request id => s.send (.methodNotFound id)
  | .response (.result id result) =>
    if id = call.initializeId then
      Core.send { s.send .initialized with dispatched := true }
        (.toolsCall call.callId call.name call.args)
    else if id = call.callId then s.handleResult call result
    else s
  | .response (.error (some id) code message) =>
    if id = call.initializeId then
      s.fail call "PROVIDER_UNAVAILABLE" ("initialize failed: " ++ message) s.outcome
    else if id = call.callId then
      s.fail call "PROVIDER_UNAVAILABLE" message
        (if code ∈ preDispatchJsonRpcErrors then .rejected else .unknown)
    else s
  | .response (.error none _ message) =>
    s.fail call "PROVIDER_PROTOCOL_ERROR" message s.outcome

/-- `trim` -/
def trim (line : List Char) : List Char :=
  (line.dropWhile Lease.isTrimmed).rdropWhile Lease.isTrimmed

/-- A line of the output; white space around it is not looked at. -/
def Core.handleLine (s : Core) (line : List Char) : Core :=
  if s.settled.isSome ∨ trim line = [] then s else s.handleMessage call (trim line)

/-- The loop over `pendingLine`: a text behind it, which has no newline before. -/
def State.readLines (s : State) : List Char → State
  | [] => s
  | c :: text =>
    if c = '\n' then
      let core := s.toCore.handleLine call s.pendingLine
      if core.settled.isSome then { s with toCore := core, pendingLine := text }
      else State.readLines { s with toCore := core, pendingLine := [] } text
    else State.readLines { s with pendingLine := s.pendingLine ++ [c] } text

/-- A failure outside a line. -/
def State.fail (s : State) (code message : String) : State :=
  { s with toCore := s.toCore.fail call code message s.outcome }

inductive Event where
  | stdout (chunk : List ℕ)
  | stderr (chunk : List ℕ)
  | error (message : String)
  | close (code : Option ℤ) (signal : Option String)
  | timeout
  /-- the input of the process can no longer be written -/
  | unwritable

/-- `countOutput`: the bytes are counted, and too many of them fail the call. -/
def State.countOutput (s : State) (chunk : List ℕ) : State :=
  let outputBytes := s.outputBytes + chunk.length
  if outputBytes ≤ maxOutputBytes then { s with outputBytes }
  else State.fail call { s with outputBytes } "PROVIDER_UNAVAILABLE"
    "output exceeded the supported limit"

/-- The message about a process that is gone. -/
def exitMessage (code : Option ℤ) (signal : Option String) (stderr : List ℕ) : String :=
  let text := String.ofList (trim (Utf8.decode stderr))
  let detail := Utf16.ofUnits ((Utf16.toUnits text).take 2000)
  "exited " ++ signal.getD ((code.map toString).getD "null") ++ " before responding" ++
    if detail = "" then "" else ": " ++ detail

def step (s : State) : Event → State
  | .stdout chunk =>
    if s.settled.isSome then s
    else
      let s' := s.countOutput call chunk
      if s'.outputBytes ≤ maxOutputBytes then
        { s' with decoder := Utf8.after s'.decoder chunk }.readLines call
          (Utf8.emitted s'.decoder chunk)
      else s'
  | .stderr chunk =>
    if s.settled.isSome then s
    else
      let s' := s.countOutput call chunk
      if s'.outputBytes ≤ maxOutputBytes then { s' with stderr := s'.stderr ++ chunk } else s'
  | .error message => s.fail call "PROVIDER_UNAVAILABLE" ("could not start: " ++ message)
  | .close code signal => s.fail call "PROVIDER_UNAVAILABLE" (exitMessage code signal s.stderr)
  | .timeout =>
    s.fail call "PROVIDER_UNAVAILABLE" ("timed out after " ++ toString call.timeoutMs ++ "ms")
  | .unwritable => { s with writable := false }

/-- The call after its process has been started. -/
def start : State := { sent := [.initializeRequest call.initializeId] }

/-- What the launch of an agent makes of it: `createResultSchema` wants a session ID. -/
def Settlement.toolAnswer : Settlement → ToolAnswer
  | .resolved (.obj fields) =>
    match field? "sessionId" fields with
    | some (.str sessionId) => .value (some sessionId)
    | _ => .value none
  | .resolved _ => .value none
  | .rejected code message outcome => .toolError outcome code message

/-! ## A call settles once -/

variable {call}

theorem Core.fail_settled {s : Core} (h : s.settled.isSome) (code message : String)
    (outcome : ToolOutcome) : s.fail call code message outcome = s := if_pos h

theorem Core.handleLine_settled {s : Core} (h : s.settled.isSome) (line : List Char) :
    s.handleLine call line = s := if_pos (Or.inl h)

theorem Core.handleLine_lines {s : Core} (h : s.settled.isSome) (lines : List (List Char)) :
    lines.foldl (fun s line => s.handleLine call line) s = s := by
  induction lines with
  | nil => rfl
  | cons line lines ih => rw [List.foldl_cons, Core.handleLine_settled h, ih]

variable (call) in
theorem step_settled {s : State} (h : s.settled.isSome) (e : Event) :
    (step call s e).settled = s.settled ∧ (step call s e).sent = s.sent := by
  cases e with
  | stdout chunk => simp [step, h]
  | stderr chunk => simp [step, h]
  | unwritable => exact ⟨rfl, rfl⟩
  | _ => simp [step, State.fail, Core.fail_settled h]

/-- **A call settles once**, and sends nothing after that. -/
theorem settled_run {s : State} (h : s.settled.isSome) (events : List Event) :
    (run (step call) s events).settled = s.settled ∧ (run (step call) s events).sent = s.sent := by
  refine run_invariant (P := fun s' : State => s'.settled = s.settled ∧ s'.sent = s.sent)
    (step call) ?_ ⟨rfl, rfl⟩ events
  rintro s' e ⟨hsettled, hsent⟩
  have hstep := step_settled call (hsettled ▸ h) e
  exact ⟨hstep.1.trans hsettled, hstep.2.trans hsent⟩

/-! ## Chunks and lines -/

variable (call) in
/-- The loop handles the lines its text completes. -/
theorem readLines_core (text : List Char) : ∀ {s : State}, s.settled = none →
    (s.readLines call text).toCore =
        (completed s.pendingLine text).foldl (fun s line => s.handleLine call line) s.toCore ∧
      ((s.readLines call text).settled = none →
        (s.readLines call text).pendingLine = remaining s.pendingLine text) ∧
      (s.readLines call text).outputBytes = s.outputBytes ∧
      (s.readLines call text).decoder = s.decoder := by
  induction text with
  | nil => exact fun _ => ⟨rfl, fun _ => rfl, rfl, rfl⟩
  | cons c text ih =>
    intro s hopen
    by_cases hc : c = '\n'
    · cases hsettled : (s.toCore.handleLine call s.pendingLine).settled with
      | some settlement =>
        have hsome : (s.toCore.handleLine call s.pendingLine).settled.isSome := by
          rw [hsettled]; rfl
        have hread : s.readLines call (c :: text) =
            { s with toCore := s.toCore.handleLine call s.pendingLine, pendingLine := text } := by
          simp only [State.readLines, if_pos hc, hsettled, Option.isSome_some, if_true]
        rw [hread]
        refine ⟨?_, ?_, rfl, rfl⟩
        · simp only [completed, if_pos hc, List.foldl_cons]
          exact (Core.handleLine_lines hsome _).symm
        · intro hnone
          rw [show (s.toCore.handleLine call s.pendingLine).settled = none from hnone] at hsettled
          cases hsettled
      | none =>
        have hread : s.readLines call (c :: text) = State.readLines call
            { s with toCore := s.toCore.handleLine call s.pendingLine, pendingLine := [] } text := by
          simp only [State.readLines, if_pos hc, hsettled, Option.isSome_none, Bool.false_eq_true,
            if_false]
        rw [hread]
        simp only [completed, remaining, if_pos hc, List.foldl_cons]
        exact ih (s := { s with
          toCore := s.toCore.handleLine call s.pendingLine, pendingLine := [] }) hsettled
    · have hread : s.readLines call (c :: text) =
          State.readLines call { s with pendingLine := s.pendingLine ++ [c] } text := by
        simp only [State.readLines, if_neg hc]
      rw [hread]
      simp only [completed, remaining, if_neg hc]
      exact ih (s := { s with pendingLine := s.pendingLine ++ [c] }) hopen

theorem countOutput_within {s : State} {chunk : List ℕ}
    (h : s.outputBytes + chunk.length ≤ maxOutputBytes) :
    s.countOutput call chunk = { s with outputBytes := s.outputBytes + chunk.length } := if_pos h

variable (call) in
/-- A chunk within the limit. -/
theorem stdout_within {s : State} (hopen : s.settled = none) {chunk : List ℕ}
    (h : s.outputBytes + chunk.length ≤ maxOutputBytes) :
    step call s (.stdout chunk) = State.readLines call
      { s with outputBytes := s.outputBytes + chunk.length, decoder := Utf8.after s.decoder chunk }
      (Utf8.emitted s.decoder chunk) := by
  simp only [step, hopen, Option.isSome_none, Bool.false_eq_true, if_false, countOutput_within h,
    if_pos h]

/-- The state when there is too much output. -/
def State.overflow (call : Invocation) (s : State) (chunk : List ℕ) : State :=
  State.fail call { s with outputBytes := s.outputBytes + chunk.length } "PROVIDER_UNAVAILABLE"
    "output exceeded the supported limit"

theorem stdout_beyond {s : State} (hopen : s.settled = none) {chunk : List ℕ}
    (h : ¬ s.outputBytes + chunk.length ≤ maxOutputBytes) :
    step call s (.stdout chunk) = s.overflow call chunk := by
  have hcount : s.countOutput call chunk = s.overflow call chunk := if_neg h
  simp only [step, hopen, Option.isSome_none, Bool.false_eq_true, if_false, hcount]
  exact if_neg h

/-- A chunk of the other stream is counted. -/
theorem stderr_cases {s : State} (hopen : s.settled = none) (chunk : List ℕ) :
    step call s (.stderr chunk) =
      if s.outputBytes + chunk.length ≤ maxOutputBytes then
        { s with outputBytes := s.outputBytes + chunk.length, stderr := s.stderr ++ chunk }
      else s.overflow call chunk := by
  simp only [step, hopen, Option.isSome_none, Bool.false_eq_true, if_false]
  split_ifs with h hlimit hlimit
  · rw [countOutput_within hlimit]
  · have hcount : s.countOutput call chunk = s.overflow call chunk := if_neg hlimit
    rw [hcount] at h
    exact absurd h hlimit
  · rw [countOutput_within hlimit] at h
    exact absurd hlimit h
  · exact if_neg hlimit

/-- **The chunks do not matter.**  Within the limit, a call sends and settles as the lines of the
whole output make it. -/
theorem stdout_run (chunks : List (List ℕ)) {s : State} (hopen : s.settled = none)
    (hlimit : s.outputBytes + chunks.flatten.length ≤ maxOutputBytes) :
    (run (step call) s (chunks.map .stdout)).toCore =
      (completed s.pendingLine (Utf8.emitted s.decoder chunks.flatten)).foldl
        (fun s line => s.handleLine call line) s.toCore := by
  induction chunks generalizing s with
  | nil => rfl
  | cons chunk chunks ih =>
    rw [List.flatten_cons, List.length_append] at hlimit
    have hstep := stdout_within call hopen (show s.outputBytes + chunk.length ≤ maxOutputBytes by omega)
    obtain ⟨hcore, hpending, hbytes, hdecoder⟩ := readLines_core call
      (Utf8.emitted s.decoder chunk) (s := { s with
        outputBytes := s.outputBytes + chunk.length
        decoder := Utf8.after s.decoder chunk }) hopen
    rw [← hstep] at hcore hpending hbytes hdecoder
    rw [List.map_cons, run_cons, List.flatten_cons, emitted_append, completed_append,
      List.foldl_append, ← hcore]
    cases hsettled : (step call s (.stdout chunk)).settled with
    | none =>
      have hlength : (step call s (.stdout chunk)).outputBytes = s.outputBytes + chunk.length := hbytes
      rw [ih hsettled (by omega), hpending hsettled, hdecoder]
    | some settlement =>
      have hsome : (step call s (.stdout chunk)).settled.isSome := by rw [hsettled]; rfl
      rw [Core.handleLine_lines hsome]
      -- later chunks are not looked at
      have hrest : ∀ (more : List (List ℕ)), run (step call) (step call s (.stdout chunk))
          (more.map .stdout) = step call s (.stdout chunk) := by
        intro more
        induction more with
        | nil => rfl
        | cons c more ihmore =>
          rw [List.map_cons, run_cons]
          have hsame : step call (step call s (.stdout chunk)) (.stdout c) =
              step call s (.stdout chunk) := if_pos hsome
          rw [hsame, ihmore]
      rw [hrest]

def sampleInvocation : Invocation :=
  { name := "agents_create", args := .obj [], initializeId := "i", callId := "c", timeoutMs := 30000 }

/-- A notification in two chunks. -/
theorem stdout_run_sample :
    (run (step sampleInvocation) (start sampleInvocation) ([[123], [125, 10]].map .stdout)).toCore =
      [['\x7b', '\x7d']].foldl (fun s line => s.handleLine sampleInvocation line)
        (start sampleInvocation).toCore :=
  stdout_run [[123], [125, 10]] rfl (by decide)

/-! ## Messages are only added -/

theorem Core.send_sent (s : Core) (message : Sent) : s.sent <+: (s.send message).sent := by
  unfold Core.send
  split_ifs
  · exact List.prefix_append _ _
  · exact List.prefix_refl _

theorem Core.fail_sent (s : Core) (code message : String) (outcome : ToolOutcome) :
    (s.fail call code message outcome).sent = s.sent := by
  unfold Core.fail
  split_ifs <;> rfl

theorem Core.succeed_sent (s : Core) (value : Json) : (s.succeed value).sent = s.sent := by
  unfold Core.succeed
  split_ifs <;> rfl

theorem Core.handleResult_sent (s : Core) (result : Json) :
    (s.handleResult call result).sent = s.sent := by
  unfold Core.handleResult
  split
  · exact s.fail_sent _ _ _
  · exact s.fail_sent _ _ _
  · split
    · exact s.succeed_sent _
    · exact s.fail_sent _ _ _

theorem Core.handleLine_sent (s : Core) (line : List Char) :
    s.sent <+: (s.handleLine call line).sent := by
  have hfail : ∀ {code message outcome}, s.sent <+: (s.fail call code message outcome).sent := by
    intro code message outcome
    rw [s.fail_sent]
  unfold Core.handleLine
  split_ifs
  · exact List.prefix_refl _
  unfold Core.handleMessage
  split
  · exact hfail
  · exact List.prefix_refl _
  · exact s.send_sent _
  · split_ifs
    · exact (s.send_sent .initialized).trans
        (Core.send_sent { s.send .initialized with dispatched := true } _)
    · rw [s.handleResult_sent]
    · exact List.prefix_refl _
  · split_ifs
    · exact hfail
    · exact hfail
    · exact hfail
    · exact List.prefix_refl _
  · exact hfail

theorem Core.handleLines_sent (lines : List (List Char)) (s : Core) :
    s.sent <+: (lines.foldl (fun s line => s.handleLine call line) s).sent := by
  induction lines generalizing s with
  | nil => exact List.prefix_refl _
  | cons line lines ih => exact (s.handleLine_sent line).trans (ih _)

theorem step_sent (s : State) (e : Event) : s.sent <+: (step call s e).sent := by
  cases hsettled : s.settled with
  | some settlement =>
    have hsent := (step_settled call (s := s) (by rw [hsettled]; rfl) e).2
    rw [hsent]
  | none =>
    have hfail : ∀ {s' : State}, s'.sent = s.sent → ∀ code message,
        s.sent <+: (s'.fail call code message).sent := by
      intro s' hs' code message
      rw [← hs']
      show s'.sent <+: (Core.fail call s'.toCore code message _).sent
      rw [Core.fail_sent]
    cases e with
    | stdout chunk =>
      by_cases h : s.outputBytes + chunk.length ≤ maxOutputBytes
      · rw [stdout_within call hsettled h]
        obtain ⟨hcore, -⟩ := readLines_core call (Utf8.emitted s.decoder chunk)
          (s := { s with
            outputBytes := s.outputBytes + chunk.length
            decoder := Utf8.after s.decoder chunk }) hsettled
        rw [hcore]
        exact Core.handleLines_sent _ _
      · rw [stdout_beyond hsettled h]
        exact hfail rfl _ _
    | stderr chunk =>
      rw [stderr_cases hsettled]
      split_ifs
      · exact List.prefix_refl _
      · exact hfail rfl _ _
    | unwritable => exact List.prefix_refl _
    | _ => exact hfail rfl _ _

/-! ## What an outcome says -/

variable (call) in
/-- The line answers `initialize` with a result. -/
def greets (line : List Char) : Bool :=
  match readMessage (trim line) with
  | .response (.result id _) => id = call.initializeId
  | _ => false

variable (call) in
/-- The line refuses the call before it is dispatched. -/
def refuses (line : List Char) : Bool :=
  match readMessage (trim line) with
  | .response (.error (some id) code _) => id = call.callId && code ∈ preDispatchJsonRpcErrors
  | _ => false

/-- The calls that were sent. -/
def Core.calls (s : Core) : ℕ := s.sent.countP Sent.isCall

variable (call) in
/-- What can be said of a call that has handled some lines. -/
structure Accounted (lines : List (List Char)) (s : Core) : Prop where
  calls : s.calls ≤ lines.countP (greets call)
  silent : s.dispatched = false → s.calls = 0
  early : ∀ code message, s.settled = some (.rejected code message .notDispatched) →
    s.dispatched = false
  refused : ∀ code message, s.settled = some (.rejected code message .rejected) →
    ∃ line ∈ lines, refuses call line = true

section Accounts

variable {lines : List (List Char)} {s : Core}

theorem Accounted.append (h : Accounted call lines s) (more : List (List Char)) :
    Accounted call (lines ++ more) s := by
  refine ⟨?_, h.silent, h.early, ?_⟩
  · rw [List.countP_append]
    exact Nat.le_add_right_of_le h.calls
  · intro code message hs
    obtain ⟨line, hline, href⟩ := h.refused code message hs
    exact ⟨line, List.mem_append_left _ hline, href⟩

theorem Accounted.fail (h : Accounted call lines s) (code message : String) {outcome : ToolOutcome}
    (hearly : outcome = .notDispatched → s.dispatched = false)
    (hrefused : outcome = .rejected → ∃ line ∈ lines, refuses call line = true) :
    Accounted call lines (s.fail call code message outcome) := by
  unfold Core.fail
  split_ifs
  · exact h
  · refine ⟨h.calls, h.silent, ?_, ?_⟩
    · intro code' message' hs
      cases hs
      exact hearly rfl
    · intro code' message' hs
      cases hs
      exact hrefused rfl

theorem Core.outcome_ne_rejected (s : Core) : s.outcome ≠ .rejected := by
  unfold Core.outcome
  split_ifs <;> simp

/-- A failure whose outcome is read off `dispatched`. -/
theorem Accounted.fail_outcome (h : Accounted call lines s) (code message : String) :
    Accounted call lines (s.fail call code message s.outcome) := by
  refine h.fail code message ?_ (fun e => absurd e s.outcome_ne_rejected)
  intro e
  unfold Core.outcome at e
  split_ifs at e with hdispatched
  exact Bool.eq_false_iff.2 hdispatched

theorem Accounted.succeed (h : Accounted call lines s) (value : Json) :
    Accounted call lines (s.succeed value) := by
  unfold Core.succeed
  split_ifs
  · exact h
  · refine ⟨h.calls, h.silent, ?_, ?_⟩
    · intro code message hs; cases hs
    · intro code message hs; cases hs

theorem calls_send (s : Core) (message : Sent) :
    (s.send message).calls ≤ s.calls + message.isCall.toNat ∧
      (s.send message).settled = s.settled ∧ (s.send message).dispatched = s.dispatched := by
  unfold Core.send
  split_ifs
  · refine ⟨?_, rfl, rfl⟩
    unfold Core.calls
    rw [List.countP_append, List.countP_singleton]
    cases message.isCall <;> simp
  · exact ⟨Nat.le_add_right _ _, rfl, rfl⟩

theorem Accounted.send (h : Accounted call lines s) {message : Sent} (hm : message.isCall = false) :
    Accounted call lines (s.send message) := by
  obtain ⟨hcalls, hsettled, hdispatched⟩ := calls_send s message
  rw [hm] at hcalls
  refine ⟨hcalls.trans h.calls, ?_, ?_, ?_⟩
  · intro hd
    exact Nat.le_zero.1 (hcalls.trans (h.silent (hdispatched ▸ hd)).le)
  · rw [hsettled, hdispatched]
    exact h.early
  · rw [hsettled]
    exact h.refused

theorem Accounted.handleResult (h : Accounted call lines s) (result : Json) :
    Accounted call lines (s.handleResult call result) := by
  unfold Core.handleResult
  split
  · exact h.fail_outcome _ _
  · exact h.fail _ _ (nofun) (nofun)
  · split
    · exact h.succeed _
    · exact h.fail_outcome _ _

/-- The answer to `initialize`: the call is sent. -/
theorem Accounted.greeted (h : Accounted call lines s) (hopen : s.settled = none)
    {line : List Char} (hgreets : greets call line = true) :
    Accounted call (lines ++ [line]) (Core.send { s.send .initialized with dispatched := true }
      (.toolsCall call.callId call.name call.args)) := by
  obtain ⟨hfirst, hfirstSettled, -⟩ := calls_send s .initialized
  obtain ⟨hcalls, hsettled, hdispatched⟩ := calls_send { s.send .initialized with dispatched := true }
    (.toolsCall call.callId call.name call.args)
  refine ⟨?_, ?_, ?_, ?_⟩
  · have hbound := h.calls
    rw [List.countP_append, List.countP_singleton, if_pos hgreets]
    exact hcalls.trans (Nat.add_le_add (hfirst.trans hbound) (Nat.le_refl 1))
  · rw [hdispatched]
    exact nofun
  all_goals
    intro code message hs
    rw [hsettled, show (Core.settled { s.send .initialized with dispatched := true }) =
      (s.send .initialized).settled from rfl, hfirstSettled, hopen] at hs
    cases hs

/-- **A line keeps the account.** -/
theorem Accounted.handleLine (h : Accounted call lines s) (line : List Char) :
    Accounted call (lines ++ [line]) (s.handleLine call line) := by
  unfold Core.handleLine
  split_ifs with hskip
  · exact h.append [line]
  have hopen : s.settled = none := Option.not_isSome_iff_eq_none.1 (not_or.1 hskip).1
  have h' := h.append [line]
  show Accounted call (lines ++ [line]) (s.handleMessage call (trim line))
  unfold Core.handleMessage
  cases hread : readMessage (trim line) with
  | malformed => exact h'.fail_outcome _ _
  | notification => exact h'
  | request id => exact h'.send rfl
  | response r =>
    cases r with
    | result id result =>
      dsimp only
      split_ifs with hid
      · refine h.greeted hopen ?_
        unfold greets
        rw [hread]
        simpa using hid
      · exact h'.handleResult result
      · exact h'
    | error id code message =>
      cases id with
      | none => exact h'.fail_outcome _ _
      | some id =>
        dsimp only
        split_ifs with hid hcall hcode
        · exact h'.fail_outcome _ _
        · refine h'.fail _ _ nofun fun _ => ⟨line, by simp, ?_⟩
          unfold refuses
          rw [hread]
          simp [hcall, hcode]
        · exact h'.fail _ _ nofun nofun
        · exact h'

theorem Accounted.handleLines (more : List (List Char)) (h : Accounted call lines s) :
    Accounted call (lines ++ more) (more.foldl (fun s line => s.handleLine call line) s) := by
  induction more generalizing lines s with
  | nil => simpa using h
  | cons line more ih =>
    rw [List.foldl_cons]
    have hnext := ih (h.handleLine line)
    rwa [List.append_assoc] at hnext

end Accounts

variable (call) in
theorem accounted_start : Accounted call [] (start call).toCore := by
  refine ⟨Nat.le_refl 0, fun _ => rfl, ?_, ?_⟩
  · intro code message hs; cases hs
  · intro code message hs; cases hs

end AgentOrchestrator.Superset.Transport
