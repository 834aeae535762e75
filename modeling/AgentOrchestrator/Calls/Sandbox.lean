import AgentOrchestrator.Library.ChildProcess
import AgentOrchestrator.Library.Utf8

/-!
# The process of a tool

`spawnBounded` starts the sandbox of a tool, bounds its output and takes what it has read of it when
the process exits.  The pipes may then hold more.

1. `sandbox_resolved_iff`: when the call resolves, and with what.
2. `sandbox_text_iff`: which texts the output of a tool may come to.
3. `errors_recent`: of the errors the newest chunks that fit are reported.
-/

namespace AgentOrchestrator.Calls.Sandbox

open Runs ChildProcess

/-! ## The client -/

/-- What the client waits for besides the process. -/
inductive Own where
  | timeout
  /-- the input cannot be written -/
  | inputError (epipe : Bool)
  deriving DecidableEq

inductive Failure where
  /-- the error of `spawn` -/
  | spawn
  /-- the error of the input -/
  | input
  | unkillable
  | timedOut
  | exceeded
  | exited (status : Status) (errors : List Char)
  deriving DecidableEq

inductive Settlement where
  | resolved (output : List Char)
  | rejected (failure : Failure)
  deriving DecidableEq

structure State where
  settled : Option Settlement := none
  errors : List (List ℕ) := []
  output : List ℕ := []
  errorBytes : ℕ := 0
  outputBytes : ℕ := 0
  outputExceeded : Bool := false
  timedOut : Bool := false
  /-- the timer is pending -/
  armed : Bool := true

/-- The oldest errors are dropped until the others fit. -/
def dropErrors (maxBytes : ℕ) : ℕ → List (List ℕ) → ℕ × List (List ℕ)
  | errorBytes, [] => (errorBytes, [])
  | errorBytes, chunk :: errors =>
    if maxBytes < errorBytes then dropErrors maxBytes (errorBytes - chunk.length) errors
    else (errorBytes, chunk :: errors)

def State.settle (s : State) (x : Settlement) : State :=
  if s.settled.isSome then s else { s with settled := some x }

/-- How the exit settles the call. -/
def State.verdict (s : State) (status : Status) : Settlement :=
  if s.timedOut then .rejected .timedOut
  else if s.outputExceeded then .rejected .exceeded
  else if status.code = some 0 then .resolved (Utf8.decode s.output)
  else .rejected (.exited status (Utf8.decode s.errors.flatten))

-- The bound on the output, and what `child.kill` returns at the timeout.
variable (maxBytes : ℕ) (killed : Bool)

def step (s : State) : Event Own → State
  | .data .stderr chunk =>
    let kept := dropErrors maxBytes (s.errorBytes + chunk.length) (s.errors ++ [chunk])
    { s with errorBytes := kept.1, errors := kept.2 }
  | .data .stdout chunk =>
    let s' := { s with outputBytes := s.outputBytes + chunk.length }
    if maxBytes < s'.outputBytes then { s' with outputExceeded := true }
    else { s' with output := s'.output ++ chunk }
  | .error => s.settle (.rejected .spawn)
  | .exit status => { s with armed := false }.settle (s.verdict status)
  | .close _ => s
  | .own .timeout =>
    if s.armed then
      let s' := { s with armed := false, timedOut := true }
      if killed then s' else s'.settle (.rejected .unkillable)
    else s
  | .own (.inputError epipe) => if epipe then s else s.settle (.rejected .input)

/-- The client after what has happened. -/
def client (w : World Own) : State := run (step maxBytes killed) {} w.events

/-! ## What the client has seen -/

/-- The event settles the call. -/
def ends : Event Own → Bool
  | .error | .exit _ | .own (.inputError false) => true
  | .own .timeout => !killed
  | _ => false

/-- What the client knows while it waits. -/
structure Seen (l : List (Event Own)) (s : State) : Prop where
  settled : s.settled = none
  armed : s.armed = !s.timedOut
  timedOut : s.timedOut = true ↔ .own .timeout ∈ l
  outputBytes : s.outputBytes = (bytesOf .stdout l).length
  exceeded : s.outputExceeded = true ↔ maxBytes < (bytesOf .stdout l).length
  output : s.outputExceeded = false → s.output = bytesOf .stdout l

variable {maxBytes killed}

theorem seen_start : Seen maxBytes [] {} := by
  constructor <;> simp

/-- An event that changes neither the output nor the timer. -/
theorem Seen.skip {l : List (Event Own)} {s s' : State} (h : Seen maxBytes l s) {e : Event Own}
    (hbytes : e.bytes .stdout = []) (htimeout : e ≠ .own .timeout)
    (hs : s' = { s with errorBytes := s'.errorBytes, errors := s'.errors }) :
    Seen maxBytes (l ++ [e]) s' := by
  have hout : bytesOf .stdout (l ++ [e]) = bytesOf .stdout l := by simp [hbytes]
  have hmem : .own .timeout ∈ l ++ [e] ↔ .own .timeout ∈ l := by
    simp [Ne.symm htimeout]
  rw [hs]
  refine ⟨h.settled, h.armed, ?_, ?_, ?_, ?_⟩
  · rw [hmem]; exact h.timedOut
  · rw [hout]; exact h.outputBytes
  · rw [hout]; exact h.exceeded
  · rw [hout]; exact h.output

theorem Seen.stdout {l : List (Event Own)} {s : State} (h : Seen maxBytes l s) (chunk : List ℕ) :
    Seen maxBytes (l ++ [.data .stdout chunk]) (step maxBytes killed s (.data .stdout chunk)) := by
  have hout : bytesOf .stdout (l ++ [.data .stdout chunk]) = bytesOf .stdout l ++ chunk := by
    simp [Event.bytes]
  have hbytes : s.outputBytes + chunk.length =
      (bytesOf .stdout (l ++ [.data .stdout chunk])).length := by
    rw [hout, List.length_append, h.outputBytes]
  have htimedOut : s.timedOut = true ↔ .own .timeout ∈ l ++ [.data .stdout chunk] := by
    simpa using h.timedOut
  simp only [step]
  split_ifs with hover
  · rw [hbytes] at hover
    exact ⟨h.settled, h.armed, htimedOut, hbytes, by simpa using hover, by simp⟩
  · have hnot : s.outputExceeded = false := by
      refine eq_false_of_ne_true fun hexceeded => hover ?_
      have := h.exceeded.1 hexceeded
      rw [h.outputBytes]
      omega
    refine ⟨h.settled, h.armed, htimedOut, hbytes, ?_, fun _ => ?_⟩
    · rw [hbytes] at hover
      exact ⟨fun hexceeded => absurd (hnot.symm.trans hexceeded) Bool.false_ne_true,
        fun hlt => absurd hlt hover⟩
    · simp only [hout, h.output hnot]

theorem Seen.step {l : List (Event Own)} {s : State} (h : Seen maxBytes l s) {e : Event Own}
    (he : ends killed e = false) : Seen maxBytes (l ++ [e]) (step maxBytes killed s e) := by
  cases e with
  | data stream chunk =>
    cases stream with
    | stdout => exact h.stdout chunk
    | stderr => exact h.skip rfl (by simp) rfl
  | error => exact absurd he (by simp [ends])
  | exit status => exact absurd he (by simp [ends])
  | close status => exact h.skip rfl (by simp) rfl
  | own e =>
    cases e with
    | timeout =>
      obtain rfl : killed = true := by simpa [ends] using he
      have hout : bytesOf .stdout (l ++ [.own .timeout]) = bytesOf .stdout l := by
        simp [Event.bytes]
      have hsame : ∀ s' : State, s'.settled = none → s'.armed = !s'.timedOut →
          s'.timedOut = true → s'.outputBytes = s.outputBytes →
          s'.outputExceeded = s.outputExceeded → s'.output = s.output →
          Seen maxBytes (l ++ [.own .timeout]) s' := by
        intro s' hsettled harmed htimedOut hbytes hexceeded houtput
        refine ⟨hsettled, harmed, by simp [htimedOut], ?_, ?_, ?_⟩
        · rw [hout, hbytes]; exact h.outputBytes
        · rw [hout, hexceeded]; exact h.exceeded
        · rw [hout, hexceeded, houtput]; exact h.output
      simp only [Sandbox.step, if_true]
      split_ifs with harmed
      · exact hsame _ h.settled rfl rfl rfl rfl rfl
      · exact hsame _ h.settled h.armed (by simpa [h.armed] using harmed) rfl rfl rfl
    | inputError epipe =>
      obtain rfl : epipe = true := by
        cases epipe
        · exact absurd he (by simp [ends])
        · rfl
      exact h.skip rfl (by simp) rfl

variable (maxBytes killed) in
/-- While it waits, the client knows what has happened. -/
theorem seen_run (l : List (Event Own)) (hl : ∀ e ∈ l, ends killed e = false) :
    Seen maxBytes l (run (Sandbox.step maxBytes killed) {} l) := by
  induction l using List.reverseRecOn with
  | nil => exact seen_start
  | append_singleton l e ih =>
    rw [run_append]
    exact (ih fun x hx => hl x (List.mem_append_left _ hx)).step
      (hl e (List.mem_append_right _ (List.mem_singleton_self e)))

/-! ## How a call settles -/

theorem State.settle_settled {s : State} {x y : Settlement} (h : s.settled = some x) :
    (s.settle y).settled = some x := by
  rw [State.settle, if_pos (by rw [h]; rfl)]
  exact h

theorem step_settled {s : State} {x : Settlement} (h : s.settled = some x) (e : Event Own) :
    (step maxBytes killed s e).settled = some x := by
  cases e with
  | data stream chunk =>
    cases stream with
    | stdout => simp only [step]; split_ifs <;> exact h
    | stderr => exact h
  | error => exact State.settle_settled h
  | exit status => exact State.settle_settled h
  | close status => exact h
  | own e =>
    cases e with
    | timeout =>
      simp only [step]
      split_ifs
      · exact h
      · exact State.settle_settled h
      · exact h
    | inputError epipe =>
      simp only [step]
      split_ifs
      · exact h
      · exact State.settle_settled h

theorem settled_run {s : State} {x : Settlement} (h : s.settled = some x) (l : List (Event Own)) :
    (run (step maxBytes killed) s l).settled = some x :=
  run_invariant (P := fun s : State => s.settled = some x) (step maxBytes killed)
    (fun _ e hs => step_settled hs e) h l

/-- Of the events that settle the call, only an exit resolves it. -/
theorem settled_of_ends {before after : List (Event Own)} {e : Event Own}
    (he : ends killed e = true) (hbefore : ∀ e ∈ before, ends killed e = false)
    {text : List Char} :
    (run (step maxBytes killed) {} (before ++ e :: after)).settled = some (.resolved text) ↔
      ∃ status, e = .exit status ∧ status.code = some 0 ∧ .own .timeout ∉ before ∧
        (bytesOf .stdout before).length ≤ maxBytes ∧ text = Utf8.decode (bytesOf .stdout before) := by
  have hseen := seen_run maxBytes killed before hbefore
  rw [run_append, run_cons]
  set s := run (step maxBytes killed) {} before
  have hsettle : ∀ (s' : State) x, s'.settled = none →
      ((run (step maxBytes killed) (s'.settle x) after).settled = some (.resolved text) ↔
        x = .resolved text) := by
    intro s' x hs
    have hx : (s'.settle x).settled = some x := by simp [State.settle, hs]
    rw [settled_run hx, Option.some.injEq]
  cases e with
  | data stream chunk => cases stream <;> exact absurd he (by simp [ends])
  | close status => exact absurd he (by simp [ends])
  | error =>
    rw [step, hsettle _ _ hseen.settled]
    simp
  | exit status =>
    have hlimit : s.outputExceeded = false ↔ (bytesOf .stdout before).length ≤ maxBytes := by
      rw [← Bool.not_eq_true, hseen.exceeded, Nat.not_lt]
    have htimer : s.timedOut = false ↔ .own .timeout ∉ before := by
      rw [← Bool.not_eq_true, hseen.timedOut]
    rw [step, hsettle { s with armed := false } _ hseen.settled]
    simp only [Event.exit.injEq, exists_eq_left', State.verdict]
    rw [← hlimit, ← htimer]
    split_ifs with htimedOut hexceeded hcode
    · simp [htimedOut]
    · simp [hexceeded]
    · rw [Settlement.resolved.injEq, hseen.output (eq_false_of_ne_true hexceeded)]
      simp [hcode, hexceeded, htimedOut, eq_comm]
    · simp [hcode]
  | own e =>
    cases e with
    | timeout =>
      obtain rfl : killed = false := by simpa [ends] using he
      have hnone : .own .timeout ∉ before := fun hmem => absurd (hbefore _ hmem) (by simp [ends])
      have harmed : s.armed = true := by
        rw [hseen.armed, Bool.not_eq_true', ← Bool.not_eq_true, hseen.timedOut]
        exact hnone
      simp only [step, if_pos harmed, Bool.false_eq_true, if_false]
      rw [hsettle _ _ (by exact hseen.settled)]
      simp
    | inputError epipe =>
      obtain rfl : epipe = false := by
        cases epipe
        · rfl
        · exact absurd he (by simp [ends])
      simp only [step, Bool.false_eq_true, if_false]
      rw [hsettle _ _ hseen.settled]
      simp

variable (maxBytes killed) in
/-- **When a tool resolves.**  The first event that settles the call is the exit with the code 0,
before the timeout; the text is what had been read of the output by then. -/
theorem sandbox_resolved_iff (w : World Own) (text : List Char) :
    (client maxBytes killed w).settled = some (.resolved text) ↔
      ∃ before status after, w.events = before ++ .exit status :: after ∧
        (∀ e ∈ before, ends killed e = false) ∧ status.code = some 0 ∧ .own .timeout ∉ before ∧
        (bytesOf .stdout before).length ≤ maxBytes ∧
        text = Utf8.decode (bytesOf .stdout before) := by
  constructor
  · intro h
    cases hfind : w.events.find? (ends killed) with
    | none =>
      have hseen := seen_run maxBytes killed w.events fun e he =>
        eq_false_of_ne_true (List.find?_eq_none.1 hfind e he)
      exact absurd (hseen.settled.symm.trans h) (by simp)
    | some e =>
      obtain ⟨hends, before, after, heq, hbefore⟩ := List.find?_eq_some_iff_append.1 hfind
      have hopen : ∀ e ∈ before, ends killed e = false := fun e he => by simpa using hbefore e he
      rw [client, heq] at h
      obtain ⟨status, rfl, hcode, htimeout, hlimit, htext⟩ := (settled_of_ends hends hopen).1 h
      exact ⟨before, status, after, heq, hopen, hcode, htimeout, hlimit, htext⟩
  · rintro ⟨before, status, after, heq, hopen, hcode, htimeout, hlimit, htext⟩
    rw [client, heq]
    exact (settled_of_ends rfl hopen).2 ⟨status, rfl, hcode, htimeout, hlimit, htext⟩

/-! ## What may be lost -/

/-- A process writes, some of it is read, and the process is seen to exit. -/
def cut (part rest : List ℕ) : List (ChildProcess.Act Own) :=
  [.write .stdout (part ++ rest), .read .stdout part.length, .stop ⟨some 0, none⟩, .exit]

theorem run_cut (part rest : List ℕ) :
    let w := run ChildProcess.step ({} : World Own) (cut part rest)
    w.exited = true ∧ (w.pipe .stdout).written = part ++ rest ∧
      ∃ before, w.events = before ++ [.exit ⟨some 0, none⟩] ∧ bytesOf .stdout before = part ∧
        ∀ e ∈ before, ∃ chunk, e = .data .stdout chunk := by
  cases part with
  | nil =>
    refine ⟨?_, ?_, [], ?_, rfl, by simp⟩ <;>
      simp [cut, ChildProcess.step, World.setPipe, World.report, Pipe.chunk]
  | cons b part =>
    refine ⟨?_, ?_, [.data .stdout (b :: part)], ?_, ?_, ?_⟩ <;>
      simp [cut, ChildProcess.step, World.setPipe, World.report, Pipe.chunk, Event.bytes]

variable (maxBytes killed) in
/-- **An output may be cut anywhere.**  The exit may be reported before the output has been read:
of a process that writes `out`, and is closed in the end, the call may resolve with any first part of
`out` within the bound, and with nothing else. -/
theorem sandbox_text_iff (out : List ℕ) (text : List Char) :
    (∃ acts, (run ChildProcess.step ({} : World Own) acts).closed = true ∧
      ((run ChildProcess.step ({} : World Own) acts).pipe .stdout).written = out ∧
      (client maxBytes killed (run ChildProcess.step {} acts)).settled = some (.resolved text)) ↔
      ∃ part, part <+: out ∧ part.length ≤ maxBytes ∧ text = Utf8.decode part := by
  constructor
  · rintro ⟨acts, -, rfl, hsettled⟩
    obtain ⟨before, status, after, heq, -, -, -, hlimit, htext⟩ :=
      (sandbox_resolved_iff maxBytes killed _ text).1 hsettled
    refine ⟨bytesOf .stdout before, ?_, hlimit, htext⟩
    have hbytes := (ChildProcess.sound_run acts).bytes .stdout
    rw [heq, bytesOf_append] at hbytes
    exact (List.prefix_append _ _).trans (hbytes ▸ List.take_prefix _ _)
  · rintro ⟨part, ⟨rest, rfl⟩, hlimit, rfl⟩
    obtain ⟨hexited, hwritten, before, hevents, hbytes, hdata⟩ := run_cut part rest
    set w := run ChildProcess.step ({} : World Own) (cut part rest) with hw
    have hsound : ChildProcess.Sound w := ChildProcess.sound_run _
    have hopen : ∀ e ∈ before, ends killed e = false := by
      intro e he
      obtain ⟨chunk, rfl⟩ := hdata e he
      rfl
    have hsettled : (client maxBytes killed w).settled = some (.resolved (Utf8.decode part)) := by
      refine (sandbox_resolved_iff maxBytes killed w _).2
        ⟨before, ⟨some 0, none⟩, [], hevents, hopen, rfl, fun hmem => ?_, ?_, ?_⟩
      · obtain ⟨chunk, h⟩ := hdata _ hmem
        exact absurd h (by simp)
      · rw [hbytes]; exact hlimit
      · rw [hbytes]
    obtain ⟨later, hclosed, hsame⟩ := exists_close hsound hexited
    obtain ⟨extra, hextra⟩ := events_extend w later
    refine ⟨cut part rest ++ later, ?_, ?_, ?_⟩
    · rw [run_append]; exact hclosed
    · rw [run_append, hsame]; exact hwritten
    · rw [run_append, client, ← hw, ← hextra, run_append]
      exact settled_run hsettled extra

/-! ## The errors that are reported -/

/-- The longest end of the chunks with at most `maxBytes` bytes. -/
structure Recent (maxBytes : ℕ) (chunks kept : List (List ℕ)) : Prop where
  suffix : kept <:+ chunks
  fits : kept.flatten.length ≤ maxBytes
  longest : ∀ other, other <:+ chunks → other.flatten.length ≤ maxBytes → other <:+ kept

/-- The chunks of the errors. -/
def errorChunks (l : List (Event Own)) : List (List ℕ) :=
  l.filterMap fun e => match e with
    | .data .stderr chunk => some chunk
    | _ => none

theorem dropErrors_recent (maxBytes : ℕ) (chunks : List (List ℕ)) :
    (dropErrors maxBytes chunks.flatten.length chunks).1 =
        (dropErrors maxBytes chunks.flatten.length chunks).2.flatten.length ∧
      Recent maxBytes chunks (dropErrors maxBytes chunks.flatten.length chunks).2 := by
  induction chunks with
  | nil => exact ⟨rfl, List.suffix_refl _, Nat.zero_le _, fun other h _ => h⟩
  | cons chunk chunks ih =>
    rw [dropErrors]
    split_ifs with hover
    · have hrest : (chunk :: chunks).flatten.length - chunk.length = chunks.flatten.length := by
        simp
      rw [hrest]
      refine ⟨ih.1, ih.2.suffix.trans (List.suffix_cons _ _), ih.2.fits, fun other h hfits => ?_⟩
      rcases List.suffix_cons_iff.1 h with rfl | h
      · omega
      · exact ih.2.longest other h hfits
    · exact ⟨rfl, List.suffix_refl _, Nat.not_lt.1 hover, fun other h _ => h⟩

theorem Recent.concat {chunks kept kept' : List (List ℕ)} {chunk : List ℕ}
    (h : Recent maxBytes chunks kept) (h' : Recent maxBytes (kept ++ [chunk]) kept') :
    Recent maxBytes (chunks ++ [chunk]) kept' := by
  have happend : ∀ {l l' : List (List ℕ)}, l <:+ l' → l ++ [chunk] <:+ l' ++ [chunk] := by
    rintro l _ ⟨t, rfl⟩
    exact ⟨t, by simp⟩
  refine ⟨h'.suffix.trans (happend h.suffix), h'.fits, fun other hother hfits => ?_⟩
  rcases List.suffix_concat_iff.1 hother with rfl | ⟨front, rfl, hfront⟩
  · exact List.nil_suffix
  · refine h'.longest _ (happend (h.longest front hfront ?_)) hfits
    rw [List.flatten_append, List.length_append] at hfits
    omega

theorem State.settle_errors (s : State) (x : Settlement) :
    (s.settle x).errors = s.errors ∧ (s.settle x).errorBytes = s.errorBytes := by
  unfold State.settle
  split_ifs <;> exact ⟨rfl, rfl⟩

variable (maxBytes killed) in
/-- **The errors of a failure** are the newest chunks that fit: of all that was read, the longest end
of at most `maxBytes` bytes, and no more is held. -/
theorem errors_recent (l : List (Event Own)) :
    Recent maxBytes (errorChunks l) (run (step maxBytes killed) {} l).errors ∧
      (run (step maxBytes killed) {} l).errorBytes =
        (run (step maxBytes killed) {} l).errors.flatten.length := by
  induction l using List.reverseRecOn with
  | nil => exact ⟨⟨List.suffix_refl _, Nat.zero_le _, fun other h _ => h⟩, rfl⟩
  | append_singleton l e ih =>
    rw [run_append]
    set s := run (step maxBytes killed) {} l
    obtain ⟨hrecent, hbytes⟩ := ih
    have hskip : ∀ s' : State, errorChunks (l ++ [e]) = errorChunks l → s'.errors = s.errors →
        s'.errorBytes = s.errorBytes → Recent maxBytes (errorChunks (l ++ [e])) s'.errors ∧
          s'.errorBytes = s'.errors.flatten.length := by
      intro s' hchunks herrors hsame
      rw [hchunks, herrors, hsame]
      exact ⟨hrecent, hbytes⟩
    cases e with
    | data stream chunk =>
      cases stream with
      | stdout =>
        refine hskip _ (by simp [errorChunks]) ?_ ?_ <;>
          simp only [run_cons, run_nil, step] <;> split_ifs <;> rfl
      | stderr =>
        have hlength : s.errorBytes + chunk.length = (s.errors ++ [chunk]).flatten.length := by
          rw [hbytes]; simp
        obtain ⟨hkept, hnew⟩ := dropErrors_recent maxBytes (s.errors ++ [chunk])
        simp only [run_cons, run_nil, step, hlength]
        refine ⟨?_, hkept⟩
        rw [show errorChunks (l ++ [.data .stderr chunk]) = errorChunks l ++ [chunk] by
          simp [errorChunks]]
        exact hrecent.concat hnew
    | error => exact hskip _ (by simp [errorChunks]) (s.settle_errors _).1 (s.settle_errors _).2
    | exit status =>
      exact hskip _ (by simp [errorChunks]) (State.settle_errors _ _).1 (State.settle_errors _ _).2
    | close status => exact hskip _ (by simp [errorChunks]) rfl rfl
    | own e =>
      cases e with
      | timeout =>
        refine hskip _ (by simp [errorChunks]) ?_ ?_ <;>
          simp only [run_cons, run_nil, step] <;> split_ifs <;>
          first | rfl | exact (State.settle_errors _ _).1 | exact (State.settle_errors _ _).2
      | inputError epipe =>
        refine hskip _ (by simp [errorChunks]) ?_ ?_ <;>
          simp only [run_cons, run_nil, step] <;> split_ifs <;>
          first | rfl | exact (State.settle_errors _ _).1 | exact (State.settle_errors _ _).2

end AgentOrchestrator.Calls.Sandbox
