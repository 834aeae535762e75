import AgentOrchestrator.Superset.Transport

/-!
# The client and its bridge

The client of `Transport` and a bridge process, with the messages and bytes between them.  The bridge
reads a message at a time; a `tools/call` it either refuses while it validates it, or hands to the
tool, which may start a session.  It keeps to JSON-RPC: it answers `initialize` once, and answers with
a validation error only when it has refused a call.  Its output reaches the client in any chunks.

1. `Sound`: what the client has handled are lines of the bridge, in order, and every call that was
   read is accounted for.
2. `one_call`: the bridge gets the call once.
3. `refused_never_starts`: a call that comes back `not_dispatched` or `rejected` has started nothing,
   and never will, which is what `Trusted` asks of the calls of a launch.
-/

namespace AgentOrchestrator.Superset.Transport

open Runs LineReader

/-! ## The system -/

structure Bridge where
  /-- the messages it has read -/
  read : ℕ := 0
  /-- a call was handed to the tool -/
  started : Bool := false
  /-- a call was refused before that -/
  refused : Bool := false
  /-- the lines it has written -/
  lines : List (List Char) := []

def Bridge.output (b : Bridge) : List ℕ := Utf8.encode (joined b.lines)

structure System where
  client : State
  bridge : Bridge := {}
  /-- the bytes that have reached the client -/
  delivered : ℕ := 0

inductive Act where
  /-- the bridge reads the next message, and refuses it if it is a call -/
  | read (refuse : Bool)
  | write (line : List Char)
  /-- the next bytes reach the client -/
  | deliver (count : ℕ)
  /-- anything else happens to the client -/
  | event (e : Event)

variable (call : Invocation)

/-- JSON-RPC: no newline within a line, one answer to `initialize`, and a validation error for a
refused call only. -/
def Bridge.MayWrite (b : Bridge) (line : List Char) : Prop :=
  '\n' ∉ line ∧ (greets call line = true → b.lines.countP (greets call) = 0) ∧
    (refuses call line = true → b.refused = true)

instance (b : Bridge) (line : List Char) : Decidable (b.MayWrite call line) := by
  unfold Bridge.MayWrite; infer_instance

def Bridge.receive (b : Bridge) (message : Sent) (refuse : Bool) : Bridge :=
  { b with
    read := b.read + 1
    started := b.started || (message.isCall && !refuse)
    refused := b.refused || (message.isCall && refuse) }

/-- The next bytes on their way. -/
def System.chunk (sys : System) (count : ℕ) : List ℕ :=
  (sys.bridge.output.drop sys.delivered).take count

def System.step (sys : System) : Act → System
  | .read refuse =>
    match sys.client.sent[sys.bridge.read]? with
    | none => sys
    | some message => { sys with bridge := sys.bridge.receive message refuse }
  | .write line =>
    if sys.bridge.MayWrite call line then
      { sys with bridge := { sys.bridge with lines := sys.bridge.lines ++ [line] } }
    else sys
  | .deliver count =>
    { sys with
      client := Transport.step call sys.client (.stdout (sys.chunk count))
      delivered := sys.delivered + (sys.chunk count).length }
  | .event (.stdout _) => sys
  | .event e => { sys with client := Transport.step call sys.client e }

/-! ## What holds between two steps -/

/-- The bytes that have reached the client. -/
def System.arrived (sys : System) : List ℕ := sys.bridge.output.take sys.delivered

/-- The client has handled lines of the bridge. -/
structure Handled (sys : System) (lines : List (List Char)) : Prop where
  written : lines <+: sys.bridge.lines
  account : Accounted call lines sys.client.toCore
  /-- until it settles, it has handled all that arrived -/
  current : sys.client.settled = none →
    lines = completed [] (Utf8.emitted {} sys.arrived) ∧
    sys.client.pendingLine = remaining [] (Utf8.emitted {} sys.arrived) ∧
    sys.client.decoder = Utf8.after {} sys.arrived

structure Sound (sys : System) : Prop where
  oneLine : ∀ line ∈ sys.bridge.lines, '\n' ∉ line
  greeted : sys.bridge.lines.countP (greets call) ≤ 1
  refusals : ∀ line ∈ sys.bridge.lines, refuses call line = true → sys.bridge.refused = true
  delivered : sys.delivered ≤ sys.bridge.output.length
  read : sys.bridge.read ≤ sys.client.sent.length
  reads : sys.bridge.started.toNat + sys.bridge.refused.toNat ≤
    (sys.client.sent.take sys.bridge.read).countP Sent.isCall
  handled : ∃ lines, Handled call sys lines

variable {call}

theorem output_append (b : Bridge) (line : List Char) :
    ({ b with lines := b.lines ++ [line] } : Bridge).output =
      b.output ++ Utf8.encode (line ++ ['\n']) := by
  unfold Bridge.output
  rw [joined_concat, Utf8.encode_append]

theorem Sound.receive {sys : System} (h : Sound call sys) {message : Sent}
    (hm : sys.client.sent[sys.bridge.read]? = some message) (refuse : Bool) :
    Sound call { sys with bridge := sys.bridge.receive message refuse } := by
  obtain ⟨lines, hlines⟩ := h.handled
  have hlt := (List.getElem?_eq_some_iff.1 hm).1
  refine ⟨h.oneLine, h.greeted, ?_, h.delivered, hlt, ?_, lines, ?_⟩
  · intro line hline hrefuses
    simp only [Bridge.receive, h.refusals line hline hrefuses, Bool.true_or]
  · have hread := h.reads
    have hnext : (sys.client.sent.take (sys.bridge.read + 1)).countP Sent.isCall =
        (sys.client.sent.take sys.bridge.read).countP Sent.isCall + message.isCall.toNat := by
      rw [List.take_add_one, hm, List.countP_append, Option.toList_some, List.countP_singleton]
      cases message.isCall <;> rfl
    simp only [Bridge.receive]
    rw [hnext]
    generalize (sys.client.sent.take sys.bridge.read).countP Sent.isCall = n at hread
    revert hread
    cases sys.bridge.started <;> cases sys.bridge.refused <;> cases message.isCall <;>
      cases refuse <;> simp <;> omega
  · exact ⟨hlines.written, hlines.account, hlines.current⟩

theorem Sound.write {sys : System} (h : Sound call sys) {line : List Char}
    (hline : sys.bridge.MayWrite call line) :
    Sound call { sys with bridge := { sys.bridge with lines := sys.bridge.lines ++ [line] } } := by
  obtain ⟨hnewline, hgreets, hrefuses⟩ := hline
  obtain ⟨lines, hlines⟩ := h.handled
  have harrived : System.arrived { sys with
      bridge := { sys.bridge with lines := sys.bridge.lines ++ [line] } } = sys.arrived := by
    unfold System.arrived
    rw [output_append, List.take_append_of_le_length h.delivered]
  refine ⟨?_, ?_, ?_, ?_, h.read, h.reads, lines, ?_, hlines.account, ?_⟩
  · intro l hl
    rcases List.mem_append.1 hl with hl | hl
    · exact h.oneLine l hl
    · rw [List.mem_singleton.1 hl]
      exact hnewline
  · show (sys.bridge.lines ++ [line]).countP (greets call) ≤ 1
    rw [List.countP_append, List.countP_singleton]
    have hone := h.greeted
    split_ifs with hgreet
    · rw [hgreets hgreet]
    · omega
  · intro l hl hl'
    rcases List.mem_append.1 hl with hl | hl
    · exact h.refusals l hl hl'
    · rw [List.mem_singleton.1 hl] at hl'
      exact hrefuses hl'
  · show sys.delivered ≤ _
    rw [output_append, List.length_append]
    exact Nat.le_add_right_of_le h.delivered
  · exact hlines.written.trans (List.prefix_append _ _)
  · rw [harrived]
    exact hlines.current

/-- The client does something, and more bytes may have arrived. -/
theorem Sound.client {sys : System} (h : Sound call sys) (client : State) (delivered : ℕ)
    (hsent : sys.client.sent <+: client.sent) (hle : delivered ≤ sys.bridge.output.length)
    (hhandled : ∃ lines, Handled call { sys with client, delivered } lines) :
    Sound call { sys with client, delivered } := by
  refine ⟨h.oneLine, h.greeted, h.refusals, hle, h.read.trans hsent.length_le, ?_, hhandled⟩
  obtain ⟨more, hmore⟩ := hsent
  show _ ≤ (client.sent.take sys.bridge.read).countP Sent.isCall
  rw [← hmore, List.take_append_of_le_length h.read]
  exact h.reads

/-- A failure of the client that no line is to blame for. -/
theorem Handled.fail {sys : System} {lines : List (List Char)} (h : Handled call sys lines)
    (client : State) (delivered : ℕ) (hcore : client.toCore = sys.client.toCore)
    (hopen : sys.client.settled = none) (code message : String) :
    Handled call { sys with client := client.fail call code message, delivered } lines := by
  refine ⟨h.written, ?_, ?_⟩
  · show Accounted call lines (client.toCore.fail call code message client.toCore.outcome)
    rw [hcore]
    exact h.account.fail_outcome code message
  · intro hnone
    have hsettled : (client.toCore.fail call code message client.toCore.outcome).settled.isSome := by
      unfold Core.fail
      rw [hcore, hopen]
      rfl
    rw [show (client.toCore.fail call code message client.toCore.outcome).settled = none from hnone]
      at hsettled
    cases hsettled

theorem Handled.overflow {sys : System} {lines : List (List Char)} (h : Handled call sys lines)
    (chunk : List ℕ) (delivered : ℕ) (hopen : sys.client.settled = none) :
    Handled call { sys with client := sys.client.overflow call chunk, delivered } lines :=
  h.fail { sys.client with outputBytes := sys.client.outputBytes + chunk.length } delivered rfl hopen
    _ _

theorem arrived_append (sys : System) (count : ℕ) :
    sys.bridge.output.take (sys.delivered + (sys.chunk count).length) =
      sys.arrived ++ sys.chunk count := by
  have hchunk : (sys.bridge.output.drop sys.delivered).take (sys.chunk count).length =
      sys.chunk count := by
    unfold System.chunk
    rw [List.take_eq_take_iff, List.length_take]
    omega
  unfold System.arrived
  rw [List.take_add, hchunk]

theorem Sound.deliver {sys : System} (h : Sound call sys) (count : ℕ) :
    Sound call (sys.step call (.deliver count)) := by
  obtain ⟨lines, hlines⟩ := h.handled
  have hle : sys.delivered + (sys.chunk count).length ≤ sys.bridge.output.length := by
    have hdelivered := h.delivered
    simp only [System.chunk, List.length_take, List.length_drop]
    omega
  have harrived := arrived_append sys count
  refine h.client _ _ (step_sent sys.client _) hle ?_
  cases hsettled : sys.client.settled with
  | some settlement =>
    have hsame : Transport.step call sys.client (.stdout (sys.chunk count)) = sys.client :=
      if_pos (by rw [hsettled]; rfl)
    rw [hsame]
    refine ⟨lines, hlines.written, hlines.account, ?_⟩
    intro hnone
    rw [show sys.client.settled = none from hnone] at hsettled
    cases hsettled
  | none =>
    obtain ⟨hcurrent, hpending, hdecoder⟩ := hlines.current hsettled
    by_cases hlimit : sys.client.outputBytes + (sys.chunk count).length ≤ maxOutputBytes
    · obtain ⟨hcore, hrest, -, hafter⟩ := readLines_core call
        (Utf8.emitted sys.client.decoder (sys.chunk count)) (s := { sys.client with
          outputBytes := sys.client.outputBytes + (sys.chunk count).length
          decoder := Utf8.after sys.client.decoder (sys.chunk count) }) hsettled
      rw [stdout_within call hsettled hlimit]
      have htext : Utf8.emitted {} (sys.arrived ++ sys.chunk count) =
          Utf8.emitted {} sys.arrived ++ Utf8.emitted sys.client.decoder (sys.chunk count) := by
        rw [emitted_append, hdecoder]
      have hall : completed [] (Utf8.emitted {} (sys.arrived ++ sys.chunk count)) =
          lines ++ completed sys.client.pendingLine
            (Utf8.emitted sys.client.decoder (sys.chunk count)) := by
        rw [htext, completed_append, ← hcurrent, ← hpending]
      refine ⟨completed [] (Utf8.emitted {} (sys.arrived ++ sys.chunk count)), ?_, ?_, ?_⟩
      · refine completed_prefix_lines h.oneLine ?_
        rw [← harrived]
        exact List.take_prefix _ _
      · rw [hall]
        show Accounted call _ (State.readLines call _ _).toCore
        rw [hcore]
        exact hlines.account.handleLines _
      · intro hnone
        simp only [System.arrived]
        rw [harrived]
        refine ⟨rfl, ?_, ?_⟩
        · rw [hrest hnone, htext, remaining_append, ← hpending]
        · rw [hafter, after_append, ← hdecoder]
    · rw [stdout_beyond hsettled hlimit]
      exact ⟨lines, hlines.overflow _ _ hsettled⟩

theorem Sound.event {sys : System} (h : Sound call sys) (e : Event) :
    Sound call (sys.step call (.event e)) := by
  obtain ⟨lines, hlines⟩ := h.handled
  have hchange : (∃ lines, Handled call { sys with client := Transport.step call sys.client e } lines) →
      Sound call { sys with client := Transport.step call sys.client e } :=
    fun hhandled => h.client _ sys.delivered (step_sent sys.client e) h.delivered hhandled
  have hsame : ∀ {client : State}, client.toCore = sys.client.toCore →
      client.pendingLine = sys.client.pendingLine → client.decoder = sys.client.decoder →
      Handled call { sys with client } lines := by
    intro client hcore hpending hdecoder
    refine ⟨hlines.written, hcore ▸ hlines.account, ?_⟩
    intro hnone
    rw [hpending, hdecoder]
    exact hlines.current ((congrArg Core.settled hcore).symm.trans hnone)
  have hfail : ∀ code message,
      Handled call { sys with client := sys.client.fail call code message } lines := by
    intro code message
    cases hsettled : sys.client.settled with
    | some settlement =>
      have hfailed : (sys.client.fail call code message).toCore = sys.client.toCore :=
        if_pos (by rw [hsettled]; rfl)
      exact hsame hfailed rfl rfl
    | none => exact hlines.fail sys.client sys.delivered rfl hsettled code message
  cases e with
  | stdout chunk => exact h
  | stderr chunk =>
    refine hchange ⟨lines, ?_⟩
    cases hsettled : sys.client.settled with
    | some settlement =>
      have hstep : Transport.step call sys.client (.stderr chunk) = sys.client :=
        if_pos (by rw [hsettled]; rfl)
      rw [hstep]
      exact hlines
    | none =>
      rw [stderr_cases hsettled]
      split_ifs
      · exact hsame rfl rfl rfl
      · exact hlines.overflow _ sys.delivered hsettled
  | unwritable =>
    refine hchange ⟨lines, hlines.written, ?_, hlines.current⟩
    exact ⟨hlines.account.calls, hlines.account.silent, hlines.account.early,
      hlines.account.refused⟩
  | error message => exact hchange ⟨lines, hfail _ _⟩
  | close code signal => exact hchange ⟨lines, hfail _ _⟩
  | timeout => exact hchange ⟨lines, hfail _ _⟩

theorem sound_step (sys : System) (act : Act) (h : Sound call sys) :
    Sound call (sys.step call act) := by
  cases act with
  | read refuse =>
    simp only [System.step]
    cases hm : sys.client.sent[sys.bridge.read]? with
    | none => exact h
    | some message => exact h.receive hm refuse
  | write line =>
    simp only [System.step]
    split_ifs with hline
    · exact h.write hline
    · exact h
  | deliver count => exact h.deliver count
  | event e => exact h.event e

variable (call) in
/-- The client has been started with its bridge. -/
def System.start : System := { client := Transport.start call }

theorem sound_start : Sound call (System.start call) := by
  refine ⟨?_, Nat.zero_le 1, ?_, Nat.zero_le _, Nat.zero_le _, Nat.le_refl 0, [], ?_⟩
  · intro line hline; cases hline
  · intro line hline; cases hline
  · exact ⟨List.prefix_refl [], accounted_start call, fun _ => ⟨rfl, rfl, rfl⟩⟩

theorem sound_run (acts : List Act) : Sound call (run (System.step call) (System.start call) acts) :=
  run_invariant _ sound_step sound_start acts

/-! ## What the bridge gets -/

theorem Sound.calls_le {sys : System} (h : Sound call sys) : sys.client.calls ≤ 1 := by
  obtain ⟨lines, hlines⟩ := h.handled
  calc sys.client.calls
    _ ≤ lines.countP (greets call) := hlines.account.calls
    _ ≤ sys.bridge.lines.countP (greets call) := hlines.written.sublist.countP_le
    _ ≤ 1 := h.greeted

/-- Nothing was started when the call came back `not_dispatched` or `rejected`. -/
theorem Sound.not_started {sys : System} (h : Sound call sys) {code message : String}
    {outcome : ToolOutcome} (hsettled : sys.client.settled = some (.rejected code message outcome))
    (hknown : outcome ≠ .unknown) : sys.bridge.started = false := by
  obtain ⟨lines, hlines⟩ := h.handled
  have hread : (sys.client.sent.take sys.bridge.read).countP Sent.isCall ≤ sys.client.calls :=
    (List.take_sublist _ _).countP_le
  have hreads := h.reads
  cases outcome with
  | unknown => exact absurd rfl hknown
  | notDispatched =>
    have hsilent := hlines.account.silent (hlines.account.early code message hsettled)
    cases hstarted : sys.bridge.started with
    | false => rfl
    | true =>
      rw [hstarted, Bool.toNat_true] at hreads
      omega
  | rejected =>
    -- the only call was read and refused
    obtain ⟨line, hline, hrefuses⟩ := hlines.account.refused code message hsettled
    have hrefused := h.refusals line (hlines.written.mem hline) hrefuses
    have hone := h.calls_le
    cases hstarted : sys.bridge.started with
    | false => rfl
    | true =>
      rw [hstarted, hrefused, Bool.toNat_true] at hreads
      omega

/-- **The bridge gets at most one call**, whatever the chunks, the errors and the timeouts. -/
theorem one_call (acts : List Act) :
    (run (System.step call) (System.start call) acts).client.calls ≤ 1 :=
  (sound_run acts).calls_le

/-- The client stays as it has settled. -/
theorem settled_system {sys : System} (h : sys.client.settled.isSome) (acts : List Act) :
    (run (System.step call) sys acts).client.settled = sys.client.settled := by
  refine run_invariant (P := fun s : System => s.client.settled = sys.client.settled)
    (System.step call) ?_ rfl acts
  intro s act hs
  have hsome : s.client.settled.isSome := hs ▸ h
  have hclient : ∀ e, (Transport.step call s.client e).settled = sys.client.settled :=
    fun e => (step_settled call hsome e).1.trans hs
  cases act with
  | read refuse =>
    simp only [System.step]
    split <;> exact hs
  | write line =>
    simp only [System.step]
    split_ifs <;> exact hs
  | deliver count => exact hclient _
  | event e =>
    cases e with
    | stdout chunk => exact hs
    | _ => exact hclient _

/-- **A call that was refused never starts a session.**  Once the launch of an agent sees
`not_dispatched` or `rejected`, no handler of the bridge has run, and none will run in any
continuation. -/
theorem refused_never_starts (acts acts' : List Act) (settlement : Settlement)
    (outcome : ToolOutcome) (code message : String)
    (hsettled : (run (System.step call) (System.start call) acts).client.settled = some settlement)
    (hanswer : settlement.toolAnswer = .toolError outcome code message)
    (hknown : outcome ≠ .unknown) :
    (run (System.step call) (System.start call) (acts ++ acts')).bridge.started = false := by
  have hlater : (run (System.step call) (System.start call) (acts ++ acts')).client.settled =
      some settlement := by
    rw [run_append, settled_system (by rw [hsettled]; rfl), hsettled]
  cases settlement with
  | rejected code' message' outcome' =>
    obtain rfl : outcome' = outcome := by
      simp only [Settlement.toolAnswer, ToolAnswer.toolError.injEq] at hanswer
      exact hanswer.1
    exact (sound_run (acts ++ acts')).not_started hlater hknown
  | resolved value =>
    unfold Settlement.toolAnswer at hanswer
    split at hanswer
    · split at hanswer <;> cases hanswer
    · cases hanswer
    · rename_i heq
      cases heq

/-! ### A run in which the call is refused -/

def sampleGreeting : List Char := "\x7b\"jsonrpc\":\"2.0\",\"id\":\"i\",\"result\":\x7b\x7d\x7d".toList

def sampleRefusal : List Char :=
  "\x7b\"jsonrpc\":\"2.0\",\"id\":\"c\",\"error\":\x7b\"code\":-32602,\"message\":\"m\"\x7d\x7d".toList

def sampleRefused : List Act :=
  [.read false, .write sampleGreeting, .deliver 20, .deliver 100, .read false, .read true,
    .write sampleRefusal, .deliver 100]

theorem refused_never_starts_sample :
    (run (System.step sampleInvocation) (System.start sampleInvocation)
      (sampleRefused ++ [.read false])).bridge.started = false :=
  refused_never_starts sampleRefused [.read false]
    (.rejected "PROVIDER_UNAVAILABLE" "Superset local MCP agents_create: m" .rejected) .rejected
    "PROVIDER_UNAVAILABLE" "Superset local MCP agents_create: m" (by decide +kernel) rfl (by simp)

end AgentOrchestrator.Superset.Transport
