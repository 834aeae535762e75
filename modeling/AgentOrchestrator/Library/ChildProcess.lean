import AgentOrchestrator.Library.Runs
import Mathlib.Data.List.Infix

/-!
# A child process and its pipes

A process with pipes for its output and its errors, and what the runtime reports of it: the chunks
it reads, the exit of the process, and the close, once the process is gone and both pipes are at
their end.  What a process leaves behind may hold the pipes and write after the exit.  A client
reads the events in order, with events of its own between them.

1. `Sound`: what was read of a pipe is what was written to it first.
2. `Sound.close`: a close comes once, after the exit, and everything has been read before it.
-/

namespace ChildProcess

open Runs

/-- How a process ends: with a code or by a signal. -/
structure Status where
  code : Option ℤ
  signal : Option String
  deriving DecidableEq

inductive Stream where
  | stdout | stderr
  deriving DecidableEq

/-- An event a client sees; `τ` are its own events, such as timers. -/
inductive Event (τ : Type*) where
  | data (stream : Stream) (chunk : List ℕ)
  /-- the process could not be started, or not be signalled -/
  | error
  | exit (status : Status)
  | close (status : Status)
  | own (event : τ)
  deriving DecidableEq

variable {τ : Type*}

/-- The bytes an event reports of a stream. -/
def Event.bytes (stream : Stream) : Event τ → List ℕ
  | .data stream' chunk => if stream' = stream then chunk else []
  | _ => []

/-- The bytes reported of a stream. -/
def bytesOf (stream : Stream) (events : List (Event τ)) : List ℕ :=
  events.flatMap (Event.bytes stream)

structure Pipe where
  written : List ℕ := []
  /-- how many bytes have been read -/
  read : ℕ := 0
  /-- no process has it open for writing any more -/
  ended : Bool := false

def Pipe.Drained (p : Pipe) : Prop := p.ended = true ∧ p.read = p.written.length

instance (p : Pipe) : Decidable p.Drained :=
  inferInstanceAs (Decidable (p.ended = true ∧ p.read = p.written.length))

structure World (τ : Type*) where
  pipe : Stream → Pipe := fun _ => {}
  status : Option Status := none
  /-- the exit has been reported -/
  exited : Bool := false
  /-- the close has been reported -/
  closed : Bool := false
  events : List (Event τ) := []

inductive Act (τ : Type*) where
  | write (stream : Stream) (bytes : List ℕ)
  /-- the last process that had the stream open for writing is gone -/
  | finish (stream : Stream)
  /-- the process ends -/
  | stop (status : Status)
  /-- the next bytes of a pipe are reported -/
  | read (stream : Stream) (count : ℕ)
  | exit
  | close
  | error
  | own (event : τ)

def World.setPipe (w : World τ) (stream : Stream) (p : Pipe) : World τ :=
  { w with pipe := Function.update w.pipe stream p }

def World.report (w : World τ) (e : Event τ) : World τ := { w with events := w.events ++ [e] }

/-- The next bytes of a pipe. -/
def Pipe.chunk (p : Pipe) (count : ℕ) : List ℕ := (p.written.drop p.read).take count

def step (w : World τ) : Act τ → World τ
  | .write stream bytes =>
    if (w.pipe stream).ended then w
    else w.setPipe stream
      { w.pipe stream with written := (w.pipe stream).written ++ bytes }
  | .finish stream => w.setPipe stream { w.pipe stream with ended := true }
  | .stop status => if w.status.isSome then w else { w with status := some status }
  | .read stream count =>
    let chunk := (w.pipe stream).chunk count
    if chunk = [] then w
    else (w.setPipe stream
      { w.pipe stream with read := (w.pipe stream).read + chunk.length }).report
        (.data stream chunk)
  | .exit =>
    match w.status with
    | some status => if w.exited then w else { w with exited := true }.report (.exit status)
    | none => w
  | .close =>
    match w.status with
    | some status =>
      if w.exited ∧ w.closed = false ∧ (w.pipe .stdout).Drained ∧ (w.pipe .stderr).Drained then
        { w with closed := true }.report (.close status)
      else w
    | none => w
  | .error => w.report .error
  | .own event => w.report (.own event)

/-! ## What the events say -/

@[simp] theorem bytesOf_nil (stream : Stream) : bytesOf stream ([] : List (Event τ)) = [] := rfl

@[simp] theorem bytesOf_append (stream : Stream) (events events' : List (Event τ)) :
    bytesOf stream (events ++ events') = bytesOf stream events ++ bytesOf stream events' :=
  List.flatMap_append

@[simp] theorem bytesOf_singleton (stream : Stream) (e : Event τ) :
    bytesOf stream [e] = e.bytes stream := List.append_nil _

/-- An event of a list with one more at its end. -/
theorem append_singleton_split {α : Type*} {l before after : List α} {e x : α}
    (h : l ++ [e] = before ++ x :: after) :
    (after = [] ∧ e = x ∧ l = before) ∨ ∃ after', after = after' ++ [e] ∧ l = before ++ x :: after' := by
  rcases after.eq_nil_or_concat' with rfl | ⟨after', last, rfl⟩
  · obtain ⟨hbefore, hlast⟩ := List.append_inj' h rfl
    exact Or.inl ⟨rfl, List.singleton_inj.1 hlast, hbefore⟩
  · refine Or.inr ⟨after', ?_, ?_⟩
    · rw [← List.cons_append, ← List.append_assoc] at h
      obtain ⟨-, hlast⟩ := List.append_inj' h rfl
      rw [List.singleton_inj.1 hlast]
    · rw [← List.cons_append, ← List.append_assoc] at h
      exact (List.append_inj' h rfl).1

/-- An error, or an event of the client. -/
def Quiet (e : Event τ) : Prop := e = .error ∨ ∃ event, e = .own event

/-- The events before and after a close. -/
structure Closed (w : World τ) (before after : List (Event τ)) (ending : Status) : Prop where
  status : w.status = some ending
  exited : .exit ending ∈ before
  first : ∀ status', .close status' ∉ before
  complete : ∀ stream, bytesOf stream before = (w.pipe stream).written
  quiet : ∀ e ∈ after, Quiet e

structure Sound (w : World τ) : Prop where
  read : ∀ stream, (w.pipe stream).read ≤ (w.pipe stream).written.length
  bytes : ∀ stream,
    bytesOf stream w.events = (w.pipe stream).written.take (w.pipe stream).read
  exits : ∀ status, .exit status ∈ w.events → w.exited = true ∧ w.status = some status
  exited : w.exited = true → ∃ status, w.status = some status ∧ .exit status ∈ w.events
  drained : w.closed = true → w.exited = true ∧ ∀ stream, (w.pipe stream).Drained
  closes : ∀ status, .close status ∈ w.events → w.closed = true
  closed : w.closed = true → ∃ status, .close status ∈ w.events
  close : ∀ before status after, w.events = before ++ .close status :: after →
    Closed w before after status

theorem sound_start : Sound ({} : World τ) where
  read stream := Nat.zero_le _
  bytes stream := rfl
  exits status h := absurd h List.not_mem_nil
  exited h := absurd h Bool.false_ne_true
  drained h := absurd h Bool.false_ne_true
  closes status h := absurd h List.not_mem_nil
  closed h := absurd h Bool.false_ne_true
  close before status after h := by simp at h

/-! ### Steps -/

section Steps

variable {w : World τ}

theorem Sound.open_of_ended (h : Sound w) (stream : Stream) (hopen : ¬ (w.pipe stream).Drained) :
    w.closed = false := by
  by_contra hclosed
  exact hopen ((h.drained (eq_true_of_ne_false hclosed)).2 stream)

theorem Sound.no_close (h : Sound w) (hopen : w.closed = false) {before after : List (Event τ)}
    {status : Status} (heq : w.events = before ++ .close status :: after) : False := by
  have hclosed := h.closes status (by rw [heq]; simp)
  rw [hopen] at hclosed
  exact absurd hclosed Bool.false_ne_true

/-- Bytes are written. -/
theorem Sound.write (h : Sound w) {stream : Stream} (hopen : (w.pipe stream).ended = false)
    (bytes : List ℕ) : Sound (w.setPipe stream
      { w.pipe stream with written := (w.pipe stream).written ++ bytes }) := by
  have hclosed : w.closed = false := h.open_of_ended stream fun hdrained =>
    absurd (hopen.symm.trans hdrained.1) Bool.false_ne_true
  constructor
  · intro stream'
    by_cases hs : stream' = stream
    · subst hs
      have := h.read stream'
      simp only [World.setPipe, Function.update_self, List.length_append]
      omega
    · simpa [World.setPipe, Function.update_of_ne hs] using h.read stream'
  · intro stream'
    by_cases hs : stream' = stream
    · subst hs
      simp only [World.setPipe, Function.update_self]
      rw [List.take_append_of_le_length (h.read stream')]
      exact h.bytes stream'
    · simpa [World.setPipe, Function.update_of_ne hs] using h.bytes stream'
  · exact h.exits
  · exact h.exited
  · intro hclosed'
    exact absurd (hclosed.symm.trans hclosed') Bool.false_ne_true
  · exact h.closes
  · exact h.closed
  · intro before status after heq
    exact (h.no_close hclosed heq).elim

/-- The last writer of a stream is gone. -/
theorem Sound.finish (h : Sound w) (stream : Stream) :
    Sound (w.setPipe stream { w.pipe stream with ended := true }) := by
  have hpipe : ∀ stream', ((w.setPipe stream { w.pipe stream with ended := true }).pipe
      stream').written = (w.pipe stream').written ∧
      ((w.setPipe stream { w.pipe stream with ended := true }).pipe stream').read =
        (w.pipe stream').read := by
    intro stream'
    by_cases hs : stream' = stream
    · subst hs
      simp [World.setPipe]
    · simp [World.setPipe, Function.update_of_ne hs]
  constructor
  · intro stream'
    rw [(hpipe stream').1, (hpipe stream').2]
    exact h.read stream'
  · intro stream'
    rw [(hpipe stream').1, (hpipe stream').2]
    exact h.bytes stream'
  · exact h.exits
  · exact h.exited
  · intro hclosed
    refine ⟨(h.drained hclosed).1, fun stream' => ?_⟩
    obtain ⟨hended, hread⟩ := (h.drained hclosed).2 stream'
    refine ⟨?_, by rw [(hpipe stream').1, (hpipe stream').2]; exact hread⟩
    by_cases hs : stream' = stream
    · subst hs
      simp [World.setPipe]
    · simpa [World.setPipe, Function.update_of_ne hs] using hended
  · exact h.closes
  · exact h.closed
  · intro before status after heq
    have hclose := h.close before status after heq
    exact ⟨hclose.status, hclose.exited, hclose.first,
      fun stream' => (hclose.complete stream').trans (hpipe stream').1.symm, hclose.quiet⟩

/-- The process ends. -/
theorem Sound.stop (h : Sound w) (hrunning : w.status = none) (status : Status) :
    Sound { w with status := some status } := by
  have hexited : w.exited = false := by
    by_contra hexited
    obtain ⟨status', hstatus, -⟩ := h.exited (eq_true_of_ne_false hexited)
    exact absurd (hrunning.symm.trans hstatus) (by simp)
  have hclosed : w.closed = false := by
    by_contra hclosed
    have := (h.drained (eq_true_of_ne_false hclosed)).1
    exact absurd (hexited.symm.trans this) Bool.false_ne_true
  constructor
  · exact h.read
  · exact h.bytes
  · intro status' hmem
    exact absurd (hexited.symm.trans (h.exits status' hmem).1) Bool.false_ne_true
  · intro hexited'
    exact absurd (hexited.symm.trans hexited') Bool.false_ne_true
  · exact h.drained
  · exact h.closes
  · exact h.closed
  · intro before status' after heq
    exact (h.no_close hclosed heq).elim

/-- An event of the client, or an error, is reported. -/
theorem Sound.report (h : Sound w) {e : Event τ} (he : Quiet e) :
    Sound (w.report e) := by
  have hbytes : ∀ stream, e.bytes stream = [] := by
    rcases he with rfl | ⟨event, rfl⟩ <;> exact fun _ => rfl
  have hexit : ∀ status, Event.exit status ∈ w.events ++ [e] ↔ .exit status ∈ w.events := by
    rcases he with rfl | ⟨event, rfl⟩ <;> simp
  have hcloses : ∀ status, Event.close status ∈ w.events ++ [e] ↔ .close status ∈ w.events := by
    rcases he with rfl | ⟨event, rfl⟩ <;> simp
  constructor
  · exact h.read
  · intro stream
    simp only [World.report, bytesOf_append, bytesOf_singleton, hbytes, List.append_nil]
    exact h.bytes stream
  · exact fun status hmem => h.exits status ((hexit status).1 hmem)
  · intro hexited
    obtain ⟨status, hstatus, hmem⟩ := h.exited hexited
    exact ⟨status, hstatus, (hexit status).2 hmem⟩
  · exact h.drained
  · exact fun status hmem => h.closes status ((hcloses status).1 hmem)
  · intro hclosed
    obtain ⟨status, hmem⟩ := h.closed hclosed
    exact ⟨status, (hcloses status).2 hmem⟩
  · intro before status after heq
    rcases append_singleton_split heq with ⟨-, rfl, -⟩ | ⟨after', rfl, heq'⟩
    · rcases he with he | ⟨event, he⟩ <;> exact absurd he (by simp)
    · have hclose := h.close before status after' heq'
      refine ⟨hclose.status, hclose.exited, hclose.first, hclose.complete, ?_⟩
      intro x hx
      rcases List.mem_append.1 hx with hx | hx
      · exact hclose.quiet x hx
      · rw [List.mem_singleton.1 hx]
        exact he

theorem chunk_length_le (p : Pipe) (count : ℕ) :
    (p.chunk count).length ≤ p.written.length - p.read := by
  rw [Pipe.chunk, List.length_take, List.length_drop]
  exact Nat.min_le_right _ _

/-- What was read, with the next bytes. -/
theorem take_chunk (p : Pipe) (count : ℕ) :
    p.written.take (p.read + (p.chunk count).length) = p.written.take p.read ++ p.chunk count := by
  rw [List.take_add]
  congr 1
  exact (List.prefix_iff_eq_take.1 (List.take_prefix count (p.written.drop p.read))).symm

/-- The next bytes of a pipe are reported. -/
theorem Sound.data (h : Sound w) {stream : Stream} {count : ℕ}
    (hchunk : (w.pipe stream).chunk count ≠ []) :
    Sound ((w.setPipe stream { w.pipe stream with
      read := (w.pipe stream).read + ((w.pipe stream).chunk count).length }).report
        (.data stream ((w.pipe stream).chunk count))) := by
  have hlength := chunk_length_le (w.pipe stream) count
  have hpos := List.length_pos_iff.2 hchunk
  have hclosed : w.closed = false := h.open_of_ended stream fun hdrained => by
    have := hdrained.2
    omega
  constructor
  · intro stream'
    by_cases hs : stream' = stream
    · subst hs
      have := h.read stream'
      simp only [World.report, World.setPipe, Function.update_self]
      omega
    · simpa [World.report, World.setPipe, Function.update_of_ne hs] using h.read stream'
  · intro stream'
    by_cases hs : stream' = stream
    · subst hs
      simp only [World.report, World.setPipe, Function.update_self, bytesOf_append,
        bytesOf_singleton, Event.bytes, if_pos]
      rw [h.bytes stream', take_chunk]
    · simp only [World.report, World.setPipe, Function.update_of_ne hs, bytesOf_append,
        bytesOf_singleton, Event.bytes, if_neg (Ne.symm hs), List.append_nil]
      exact h.bytes stream'
  · intro status hmem
    exact h.exits status (by simpa [World.report, World.setPipe] using hmem)
  · intro hexited
    obtain ⟨status, hstatus, hmem⟩ := h.exited hexited
    exact ⟨status, hstatus, List.mem_append_left _ hmem⟩
  · intro hclosed'
    exact absurd (hclosed.symm.trans hclosed') Bool.false_ne_true
  · intro status hmem
    exact h.closes status (by simpa [World.report, World.setPipe] using hmem)
  · intro hclosed'
    exact absurd (hclosed.symm.trans hclosed') Bool.false_ne_true
  · intro before status after heq
    rcases append_singleton_split heq with ⟨-, he, -⟩ | ⟨after', rfl, heq'⟩
    · exact absurd he (by simp)
    · exact (h.no_close hclosed heq').elim

/-- The exit is reported. -/
theorem Sound.exit (h : Sound w) {status : Status} (hstatus : w.status = some status)
    (hexited : w.exited = false) : Sound ({ w with exited := true }.report (.exit status)) := by
  have hclosed : w.closed = false := by
    by_contra hclosed
    have := (h.drained (eq_true_of_ne_false hclosed)).1
    exact absurd (hexited.symm.trans this) Bool.false_ne_true
  constructor
  · exact h.read
  · intro stream
    simp only [World.report, bytesOf_append, bytesOf_singleton, Event.bytes, List.append_nil]
    exact h.bytes stream
  · intro status' hmem
    rcases List.mem_append.1 hmem with hmem | hmem
    · exact ⟨rfl, (h.exits status' hmem).2⟩
    · rw [Event.exit.inj (List.mem_singleton.1 hmem)]
      exact ⟨rfl, hstatus⟩
  · exact fun _ => ⟨status, hstatus, List.mem_append_right _ (List.mem_singleton_self _)⟩
  · intro hclosed'
    exact absurd (hclosed.symm.trans hclosed') Bool.false_ne_true
  · intro status' hmem
    exact h.closes status' (by simpa [World.report] using hmem)
  · intro hclosed'
    exact absurd (hclosed.symm.trans hclosed') Bool.false_ne_true
  · intro before status' after heq
    rcases append_singleton_split heq with ⟨-, he, -⟩ | ⟨after', rfl, heq'⟩
    · exact absurd he (by simp)
    · exact (h.no_close hclosed heq').elim

/-- The close is reported. -/
theorem Sound.closing (h : Sound w) {status : Status} (hstatus : w.status = some status)
    (hexited : w.exited = true) (hclosed : w.closed = false)
    (hdrained : ∀ stream, (w.pipe stream).Drained) :
    Sound ({ w with closed := true }.report (.close status)) := by
  constructor
  · exact h.read
  · intro stream
    simp only [World.report, bytesOf_append, bytesOf_singleton, Event.bytes, List.append_nil]
    exact h.bytes stream
  · intro status' hmem
    exact h.exits status' (by simpa [World.report] using hmem)
  · intro _
    obtain ⟨status', hstatus', hmem⟩ := h.exited hexited
    exact ⟨status', hstatus', List.mem_append_left _ hmem⟩
  · exact fun _ => ⟨hexited, hdrained⟩
  · exact fun _ _ => rfl
  · exact fun _ => ⟨status, List.mem_append_right _ (List.mem_singleton_self _)⟩
  · intro before status' after heq
    rcases append_singleton_split heq with ⟨rfl, he, rfl⟩ | ⟨after', rfl, heq'⟩
    · obtain rfl := Event.close.inj he
      obtain ⟨status', hstatus', hmem⟩ := h.exited hexited
      obtain rfl := Option.some.inj (hstatus.symm.trans hstatus')
      refine ⟨hstatus, hmem, fun status' hclose => ?_, fun stream => ?_, ?_⟩
      · exact absurd (hclosed.symm.trans (h.closes status' hclose)) Bool.false_ne_true
      · rw [h.bytes stream, (hdrained stream).2, List.take_length]
        rfl
      · exact fun e he => absurd he List.not_mem_nil
    · exact (h.no_close hclosed heq').elim

end Steps

theorem sound_step (w : World τ) (a : Act τ) (h : Sound w) : Sound (step w a) := by
  cases a with
  | write stream bytes =>
    rw [step]
    split_ifs with hended
    · exact h
    · exact h.write (eq_false_of_ne_true hended) bytes
  | finish stream => exact h.finish stream
  | stop status =>
    rw [step]
    split_ifs with hstatus
    · exact h
    · exact h.stop (by simpa using hstatus) status
  | read stream count =>
    simp only [step]
    split_ifs with hchunk
    · exact h
    · exact h.data hchunk
  | exit =>
    rw [step]
    split
    · split_ifs with hexited
      · exact h
      · exact h.exit ‹_› (eq_false_of_ne_true hexited)
    · exact h
  | close =>
    rw [step]
    split
    · split_ifs with hready
      · obtain ⟨hexited, hclosed, hstdout, hstderr⟩ := hready
        refine h.closing ‹_› hexited hclosed fun stream => ?_
        cases stream with
        | stdout => exact hstdout
        | stderr => exact hstderr
      · exact h
    · exact h
  | error => exact h.report (Or.inl rfl)
  | own event => exact h.report (Or.inr ⟨event, rfl⟩)

/-- **What the events of a run say about the process.** -/
theorem sound_run (acts : List (Act τ)) : Sound (run step ({} : World τ) acts) :=
  run_invariant step sound_step sound_start acts

/-- A step reports one event at most. -/
theorem step_events (w : World τ) (a : Act τ) :
    (step w a).events = w.events ∨ ∃ e, (step w a).events = w.events ++ [e] := by
  cases a with
  | write stream bytes => rw [step]; split_ifs <;> exact Or.inl rfl
  | finish stream => exact Or.inl rfl
  | stop status => rw [step]; split_ifs <;> exact Or.inl rfl
  | read stream count =>
    simp only [step]
    split_ifs
    · exact Or.inl rfl
    · exact Or.inr ⟨_, rfl⟩
  | exit =>
    rw [step]
    split
    · split_ifs
      · exact Or.inl rfl
      · exact Or.inr ⟨_, rfl⟩
    · exact Or.inl rfl
  | close =>
    rw [step]
    split
    · split_ifs
      · exact Or.inr ⟨_, rfl⟩
      · exact Or.inl rfl
    · exact Or.inl rfl
  | error => exact Or.inr ⟨_, rfl⟩
  | own event => exact Or.inr ⟨_, rfl⟩

theorem written_setPipe (w : World τ) (stream stream' : Stream) {p : Pipe}
    (hp : (w.pipe stream).written <+: p.written) :
    (w.pipe stream').written <+: ((w.setPipe stream p).pipe stream').written := by
  by_cases hs : stream' = stream
  · subst hs
    simpa [World.setPipe] using hp
  · simp [World.setPipe, Function.update_of_ne hs]

/-- What was written stays. -/
theorem written_step (w : World τ) (a : Act τ) (stream : Stream) :
    (w.pipe stream).written <+: ((step w a).pipe stream).written := by
  cases a with
  | write stream' bytes =>
    rw [step]
    split_ifs
    · exact List.prefix_refl _
    · exact written_setPipe w stream' stream (List.prefix_append _ _)
  | finish stream' => exact written_setPipe w stream' stream (List.prefix_refl _)
  | stop status => rw [step]; split_ifs <;> exact List.prefix_refl _
  | read stream' count =>
    simp only [step]
    split_ifs
    · exact List.prefix_refl _
    · exact written_setPipe w stream' stream (List.prefix_refl _)
  | exit =>
    rw [step]
    split
    · split_ifs <;> exact List.prefix_refl _
    · exact List.prefix_refl _
  | close =>
    rw [step]
    split
    · split_ifs <;> exact List.prefix_refl _
    · exact List.prefix_refl _
  | error => exact List.prefix_refl _
  | own event => exact List.prefix_refl _

/-- How the process ended stays. -/
theorem status_step {w : World τ} {status : Status} (h : w.status = some status) (a : Act τ) :
    (step w a).status = some status := by
  cases a with
  | write stream bytes => rw [step]; split_ifs <;> exact h
  | finish stream => exact h
  | stop status' => rw [step, if_pos (by rw [h]; rfl)]; exact h
  | read stream count => simp only [step]; split_ifs <;> exact h
  | exit =>
    rw [step]
    split
    · split_ifs <;> exact h
    · exact h
  | close =>
    rw [step]
    split
    · split_ifs <;> exact h
    · exact h
  | error => exact h
  | own event => exact h

/-- Events are only added. -/
theorem events_extend (w : World τ) (acts : List (Act τ)) :
    w.events <+: (run step w acts).events := by
  refine run_invariant (P := fun w' : World τ => w.events <+: w'.events) step ?_
    (List.prefix_refl _) acts
  intro w' a h
  rcases step_events w' a with heq | ⟨e, heq⟩
  · rwa [heq]
  · rw [heq]
    exact h.trans (List.prefix_append _ _)

theorem Sound.closed_step {w : World τ} (h : Sound w) (hclosed : w.closed = true) (a : Act τ) :
    (step w a).closed = true := by
  obtain ⟨status, hmem⟩ := h.closed hclosed
  exact (sound_step w a h).closes status ((events_extend w [a]).subset hmem)

/-- What a close that is reported says. -/
theorem close_reports {w : World τ} (hopen : w.closed = false)
    (hclosed : (step w .close).closed = true) :
    ∃ status, w.status = some status ∧ (step w .close).events = w.events ++ [.close status] ∧
      ∀ stream, (w.pipe stream).Drained := by
  rw [step] at hclosed ⊢
  split at hclosed
  · next status hstatus =>
    split_ifs at hclosed ⊢ with hready
    · refine ⟨status, hstatus, rfl, fun stream => ?_⟩
      cases stream with
      | stdout => exact hready.2.2.1
      | stderr => exact hready.2.2.2
    · exact absurd (hopen.symm.trans hclosed) Bool.false_ne_true
  · exact absurd (hopen.symm.trans hclosed) Bool.false_ne_true

/-! ## A process that has exited can be closed -/

/-- The client reads a pipe to its end. -/
theorem read_all {w : World τ} (stream : Stream)
    (hread : (w.pipe stream).read ≤ (w.pipe stream).written.length) :
    let w' := step w (.read stream (w.pipe stream).written.length)
    (w'.pipe stream).read = (w'.pipe stream).written.length ∧
      (∀ stream', (w'.pipe stream').written = (w.pipe stream').written) ∧
      (∀ stream', stream' ≠ stream → w'.pipe stream' = w.pipe stream') ∧
      w'.status = w.status ∧ w'.exited = w.exited ∧ w'.closed = w.closed := by
  have hchunk : (w.pipe stream).chunk (w.pipe stream).written.length =
      (w.pipe stream).written.drop (w.pipe stream).read :=
    List.take_of_length_le (by rw [List.length_drop]; omega)
  simp only [step, hchunk]
  split_ifs with hempty
  · refine ⟨?_, fun _ => rfl, fun _ _ => rfl, rfl, rfl, rfl⟩
    have := List.drop_eq_nil_iff.1 hempty
    omega
  · refine ⟨?_, fun stream' => ?_, fun stream' hs => ?_, rfl, rfl, rfl⟩
    · simp [World.report, World.setPipe]
      omega
    · by_cases hs : stream' = stream
      · subst hs
        simp [World.report, World.setPipe]
      · simp [World.report, World.setPipe, Function.update_of_ne hs]
    · simp [World.report, World.setPipe, Function.update_of_ne hs]

/-- The last writers of pipes that have been read are gone, and the close is reported. -/
theorem close_drained {w : World τ} {status : Status} (hstatus : w.status = some status)
    (hexited : w.exited = true) (hopen : w.closed = false)
    (hread : ∀ stream, (w.pipe stream).read = (w.pipe stream).written.length) :
    (run step w [.finish .stdout, .finish .stderr, .close]).closed = true ∧
      ∀ stream, ((run step w [.finish .stdout, .finish .stderr, .close]).pipe stream).written =
        (w.pipe stream).written := by
  have hout := hread .stdout
  have herr := hread .stderr
  constructor
  · simp [step, World.setPipe, World.report, Pipe.Drained, hstatus, hexited, hopen, hout, herr]
  · intro stream
    cases stream <;>
      simp [step, World.setPipe, World.report, Pipe.Drained, hstatus, hexited, hopen, hout, herr]

theorem exists_close {w : World τ} (h : Sound w) (hexited : w.exited = true) :
    ∃ later, (run step w later).closed = true ∧
      ∀ stream, ((run step w later).pipe stream).written = (w.pipe stream).written := by
  cases hclosed : w.closed with
  | true => exact ⟨[], hclosed, fun _ => rfl⟩
  | false =>
    obtain ⟨status, hstatus, -⟩ := h.exited hexited
    obtain ⟨hout, hwritten, hother, hstatus', hexited', hclosed'⟩ := read_all .stdout (h.read .stdout)
    set w' := step w (.read .stdout (w.pipe .stdout).written.length) with hw'
    have herr : (w'.pipe .stderr).read ≤ (w'.pipe .stderr).written.length := by
      rw [hother .stderr (by decide)]
      exact h.read .stderr
    obtain ⟨herr', hwritten', hother', hstatus'', hexited'', hclosed''⟩ := read_all .stderr herr
    set w'' := step w' (.read .stderr (w'.pipe .stderr).written.length) with hw''
    have hread : ∀ stream, (w''.pipe stream).read = (w''.pipe stream).written.length := by
      intro stream
      cases stream with
      | stdout =>
        rw [hother' .stdout (by decide)]
        exact hout
      | stderr => exact herr'
    obtain ⟨hlast, hsame⟩ := close_drained (hstatus''.trans (hstatus'.trans hstatus))
      (hexited''.trans (hexited'.trans hexited)) (hclosed''.trans (hclosed'.trans hclosed)) hread
    refine ⟨.read .stdout (w.pipe .stdout).written.length ::
      .read .stderr (w'.pipe .stderr).written.length :: [.finish .stdout, .finish .stderr, .close],
      hlast, fun stream => ?_⟩
    exact (hsame stream).trans ((hwritten' stream).trans (hwritten stream))

end ChildProcess
