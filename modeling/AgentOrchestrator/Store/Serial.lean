import AgentOrchestrator.Library.PromiseQueue
import AgentOrchestrator.Store.Sessions
import Mathlib.Data.List.Infix

/-!
# The lock of the store

`withLock` puts the operations of one process in the queue of their path, takes the lock of the
state file, and runs the operation, which loads the file, runs its body and replaces the file.
Every one of these is a step of its own here, for any number of processes that share the file; a
process may crash between any two.  A lock file is held by at most one living caller.

1. `Held`: the caller that holds the lock file is the one that is inside its section, and what it
   has loaded is what the file holds.
2. `withLock_serial`: the file is what the calls leave when they are performed one after another, so
   `Machine` says what concurrent operations do.
-/

namespace AgentOrchestrator.Store

open Runs PromiseQueue

/-- `withLock`: `tail` is `previous.then(() => queued)`, a rejected `release()` leaves the `finally`
block before `releaseQueue()`, and the last caller deletes the entry of its path. -/
def withLock : Policy := { chained := true, catches := false, forgets := true }

/-- A queue: a process, and a path as its stores spell it. -/
structure QueueKey where
  process : ℕ
  path : String
  deriving DecidableEq

/-- The operation of a caller: what it has loaded, and whether its body is over. -/
structure Section where
  call : Call
  loaded : Option (Except StoreError DurableState) := none
  finished : Bool := false

/-- An operation that is over, with what it loaded and how its write ended. -/
structure Entry where
  caller : ℕ
  call : Call
  outcome : WriteOutcome
  loaded : Except StoreError DurableState

def Entry.input (e : Entry) : Call × WriteOutcome := (e.call, e.outcome)

/-- Processes that share a state file; `log` is the order in which their operations were over. -/
structure System where
  queue : PromiseQueue.State QueueKey := {}
  sections : List Section := []
  crashed : ℕ → Bool := fun _ => false
  holder : Option ℕ := none
  disk : Disk := none
  log : List Entry := []

namespace System

/-- The caller at a position, unless its process crashed. -/
def caller? (s : System) (i : ℕ) : Option (Caller QueueKey) :=
  (s.queue.callers[i]?).filter fun c => !s.crashed c.key.process

inductive Act where
  | call (key : QueueKey) (c : Call)
  /-- the wait for the queue is over -/
  | resume (i : ℕ)
  /-- `assertPrivateStatePath` and `lockfile.lock` are over; the lock is not given while it is held -/
  | locked (i : ℕ) (ok : Bool)
  | load (i : ℕ)
  /-- the body, and the write it asks for -/
  | perform (i : ℕ) (outcome : WriteOutcome)
  | operated (i : ℕ)
  | released (i : ℕ) (ok : Bool)
  /-- a process dies; its lock goes stale -/
  | crash (process : ℕ)

variable (env : Env)

/-- The file after the body of a call that loaded a state. -/
def write (c : Call) (outcome : WriteOutcome) (loaded : Except StoreError DurableState)
    (disk : Disk) : Disk :=
  match loaded with
  | .error _ => disk
  | .ok s =>
    match c.next env s with
    | none => disk
    | some next => (persist env outcome next disk).1

theorem write_load (c : Call) (outcome : WriteOutcome) (disk : Disk) :
    write env c outcome (load env disk) disk = Store.step env disk (c, outcome) := rfl

def onSection (s : System) (i : ℕ) (f : Caller QueueKey → Section → System) : System :=
  match s.caller? i, s.sections[i]? with
  | some c, some section_ => f c section_
  | _, _ => s

/-- A step of the queue of the processes. -/
def advance (s : System) (a : PromiseQueue.Act QueueKey) : System :=
  { s with queue := PromiseQueue.step withLock s.queue a }

def step (s : System) : Act → System
  | .call key c =>
    if s.crashed key.process then s
    else { s.advance (.call key) with sections := s.sections ++ [{ call := c }] }
  | .resume i => s.onSection i fun _ _ => s.advance (.resume i)
  | .locked i ok => s.onSection i fun c _ =>
    if c.phase = .entered then
      if ok then if s.holder = none then { s.advance (.locked i true) with holder := some i } else s
      else s.advance (.locked i false)
    else s
  | .load i => s.onSection i fun c o =>
    if c.phase = .holding ∧ o.finished = false ∧ o.loaded = none then
      { s with sections := s.sections.set i { o with loaded := some (load env s.disk) } }
    else s
  | .perform i outcome => s.onSection i fun c o =>
    match o.loaded with
    | none => s
    | some loaded =>
      if c.phase = .holding ∧ o.finished = false then
        { s with
          sections := s.sections.set i { o with finished := true }
          disk := write env o.call outcome loaded s.disk
          log := s.log ++ [{ caller := i, call := o.call, outcome, loaded }] }
      else s
  | .operated i => s.onSection i fun _ o => if o.finished then s.advance (.operated i) else s
  | .released i ok => s.onSection i fun c _ =>
    if c.phase = .releasing then { s.advance (.released i ok) with holder := none } else s
  | .crash process =>
    { s with
      crashed := Function.update s.crashed process true
      holder := s.holder.filter fun i => (s.queue.callers[i]?).any fun c => c.key.process ≠ process }

/-! ## What holds between two steps -/

/-- The keys of the callers, in the order of the calls. -/
def keys (s : System) : List QueueKey := s.queue.callers.map (·.key)

/-- The caller is inside the section of the lock file. -/
def inside (p : Phase) : Prop := p = .holding ∨ p = .releasing

/-- The caller has not got the lock file yet. -/
def outside (p : Phase) : Prop := p = .waiting ∨ p = .entered

/-- Who holds the lock file, and what has been loaded. -/
structure Held (s : System) : Prop where
  queued : Queued s.queue
  length : s.sections.length = s.queue.callers.length
  bound : ∀ i, s.holder = some i → i < s.queue.callers.length
  holder : ∀ (i : ℕ) (c : Caller QueueKey), s.caller? i = some c → (s.holder = some i ↔ inside c.phase)
  unstarted : ∀ (i : ℕ) (c : Caller QueueKey) (o : Section), s.queue.callers[i]? = some c →
    s.sections[i]? = some o → outside c.phase → o.loaded = none ∧ o.finished = false
  fresh : ∀ (i : ℕ) (c : Caller QueueKey) (o : Section) (loaded : Except StoreError DurableState),
    s.caller? i = some c → s.sections[i]? = some o → c.phase = .holding → o.finished = false →
    o.loaded = some loaded → loaded = load env s.disk

/-- What the log says about the file and the sections. -/
structure Logged (s : System) : Prop where
  disk : s.disk = run (Store.step env) none (s.log.map Entry.input)
  loaded : ∀ l e l', s.log = l ++ e :: l' →
    e.loaded = load env (run (Store.step env) none (l.map Entry.input))
  entry : ∀ e ∈ s.log, ∃ o, s.sections[e.caller]? = some o ∧ o.finished = true ∧ o.call = e.call
  finished : ∀ (i : ℕ) (o : Section), s.sections[i]? = some o → o.finished = true →
    ∃ e ∈ s.log, e.caller = i
  fifo : s.log.Pairwise fun e e' =>
    s.keys[e.caller]? = s.keys[e'.caller]? → e.caller < e'.caller

theorem caller?_eq {s : System} {i : ℕ} {c : Caller QueueKey} :
    s.caller? i = some c ↔ s.queue.callers[i]? = some c ∧ s.crashed c.key.process = false := by
  unfold caller?
  simp [Option.filter_eq_some_iff]

theorem onSection_cases (s : System) (i : ℕ) (f : Caller QueueKey → Section → System) :
    s.onSection i f = s ∨ ∃ c o, s.caller? i = some c ∧ s.sections[i]? = some o ∧
      s.onSection i f = f c o := by
  unfold onSection
  cases hc : s.caller? i with
  | none => exact Or.inl rfl
  | some c =>
    cases ho : s.sections[i]? with
    | none => exact Or.inl rfl
    | some o => exact Or.inr ⟨c, o, rfl, rfl, rfl⟩

variable {env}

/-- The phase of one caller changes, and with it perhaps the holder. -/
theorem Held.change {s : System} (h : Held env s) {i : ℕ} {c : Caller QueueKey} {p : Phase}
    (hc : s.queue.callers[i]? = some c) {q : PromiseQueue.State QueueKey} (hq : Queued q)
    (hcallers : q.callers = s.queue.callers.set i { c with phase := p }) {holder : Option ℕ}
    (hself : holder = some i ↔ inside p)
    (hother : ∀ j, j ≠ i → (holder = some j ↔ s.holder = some j))
    (hout : outside p → outside c.phase) (hin : p = .holding → outside c.phase) :
    Held env { s with queue := q, holder } := by
  have hlt : i < s.queue.callers.length := (List.getElem?_eq_some_iff.1 hc).1
  have hcases : ∀ {j : ℕ} {d : Caller QueueKey}, q.callers[j]? = some d →
      j = i ∧ d = { c with phase := p } ∨ j ≠ i ∧ s.queue.callers[j]? = some d := by
    intro j d hd
    rw [hcallers] at hd
    by_cases hj : j = i
    · subst hj
      rw [List.getElem?_set_self hlt] at hd
      exact Or.inl ⟨rfl, (Option.some.inj hd).symm⟩
    · rw [List.getElem?_set_ne (Ne.symm hj)] at hd
      exact Or.inr ⟨hj, hd⟩
  refine ⟨hq, ?_, ?_, ?_, ?_, ?_⟩
  · show s.sections.length = q.callers.length
    rw [hcallers, List.length_set]
    exact h.length
  · intro j hj
    show j < q.callers.length
    rw [hcallers, List.length_set]
    by_cases hji : j = i
    · exact hji ▸ hlt
    · exact h.bound j ((hother j hji).1 hj)
  · intro j d hd
    obtain ⟨hd, hlive⟩ := caller?_eq.1 hd
    rcases hcases hd with ⟨rfl, rfl⟩ | ⟨hj, hd⟩
    · exact hself
    · exact (hother j hj).trans (h.holder j d (caller?_eq.2 ⟨hd, hlive⟩))
  · intro j d o hd ho hphase
    rcases hcases hd with ⟨rfl, rfl⟩ | ⟨-, hd⟩
    · exact h.unstarted j c o hc ho (hout hphase)
    · exact h.unstarted j d o hd ho hphase
  · intro j d o loaded hd ho hphase hover hloaded
    obtain ⟨hd, hlive⟩ := caller?_eq.1 hd
    rcases hcases hd with ⟨rfl, rfl⟩ | ⟨-, hd⟩
    · rw [(h.unstarted j c o hc ho (hin hphase)).1] at hloaded
      cases hloaded
    · exact h.fresh j d o loaded (caller?_eq.2 ⟨hd, hlive⟩) ho hphase hover hloaded

theorem keys_set {callers : List (Caller QueueKey)} {i : ℕ} {c : Caller QueueKey}
    (hc : callers[i]? = some c) (p : Phase) :
    (callers.set i { c with phase := p }).map (·.key) = callers.map (·.key) := by
  apply List.ext_getElem?
  intro j
  by_cases hj : j = i
  · subst hj
    have hlt : j < callers.length := (List.getElem?_eq_some_iff.1 hc).1
    rw [List.getElem?_map, List.getElem?_map, List.getElem?_set_self hlt, hc]
    rfl
  · rw [List.getElem?_map, List.getElem?_map, List.getElem?_set_ne (Ne.symm hj)]

/-- The log speaks about the calls, the sections and the file only. -/
theorem Logged.frame {s : System} (h : Logged env s) {q : PromiseQueue.State QueueKey}
    {holder : Option ℕ} {crashed : ℕ → Bool} (hkeys : q.callers.map (·.key) = s.keys) :
    Logged env { s with queue := q, holder, crashed } := by
  refine ⟨h.disk, h.loaded, h.entry, h.finished, ?_⟩
  show s.log.Pairwise fun e e' => (q.callers.map (·.key))[e.caller]? =
    (q.callers.map (·.key))[e'.caller]? → e.caller < e'.caller
  rw [hkeys]
  exact h.fifo

theorem outside_of_changes {a : PromiseQueue.Act QueueKey} {i : ℕ} {p q : Phase}
    (h : a.Changes i p q) : (outside q → outside p) ∧ (q = .holding → outside p) := by
  cases h <;> simp [outside]

/-- **A step of the queue keeps both.** -/
theorem advance_kept {s : System} (hh : Held env s) (hl : Logged env s)
    {a : PromiseQueue.Act QueueKey} (ha : a.isCall = false) (holder : Option ℕ)
    (hself : ∀ i c p, s.queue.callers[i]? = some c → a.Changes i c.phase p →
      (holder = some i ↔ inside p) ∧ ∀ j, j ≠ i → (holder = some j ↔ s.holder = some j))
    (hstuck : PromiseQueue.step withLock s.queue a = s.queue → holder = s.holder) :
    Held env { s.advance a with holder } ∧ Logged env { s.advance a with holder } := by
  rcases step_changes withLock s.queue ha with e | ⟨i, c, p, hc, hp, e⟩
  · rw [hstuck e]
    unfold advance
    rw [e]
    exact ⟨hh, hl⟩
  · obtain ⟨hin, hother⟩ := hself i c p hc hp
    constructor
    · exact hh.change hc (queued_step withLock s.queue a hh.queued) e hin hother
        (outside_of_changes hp).1 (outside_of_changes hp).2
    · refine hl.frame ?_
      show (PromiseQueue.step withLock s.queue a).callers.map (·.key) = s.keys
      rw [e, keys_set hc]
      rfl

/-! ## Every step keeps both -/

theorem Held.call {s : System} (h : Held env s) (key : QueueKey) (c : Call) :
    Held env { s.advance (.call key) with sections := s.sections ++ [{ call := c }] } := by
  have hnew : ∀ {i : ℕ} {d : Caller QueueKey}, (enqueue key s.queue).callers[i]? = some d →
      s.queue.callers[i]? = some d ∨ i = s.queue.callers.length ∧ d.phase = .waiting := by
    intro i d hd
    by_cases hi : i < s.queue.callers.length
    · left
      simpa only [enqueue, List.getElem?_append_left hi] using hd
    · right
      have hlt := (List.getElem?_eq_some_iff.1 hd).1
      simp only [enqueue, List.length_append, List.length_singleton] at hlt
      obtain rfl : i = s.queue.callers.length := by omega
      refine ⟨rfl, ?_⟩
      simp only [enqueue, List.getElem?_concat_length, Option.some.injEq] at hd
      exact hd ▸ rfl
  have hsection : ∀ {i : ℕ} {o : Section},
      (s.sections ++ [({ call := c } : Section)])[i]? = some o →
      i < s.queue.callers.length ∧ s.sections[i]? = some o ∨
        i = s.queue.callers.length ∧ o = ({ call := c } : Section) := by
    intro i o ho
    rw [← h.length]
    by_cases hi : i < s.sections.length
    · rw [List.getElem?_append_left hi] at ho
      exact Or.inl ⟨hi, ho⟩
    · have hlt := (List.getElem?_eq_some_iff.1 ho).1
      rw [List.length_append, List.length_singleton] at hlt
      obtain rfl : i = s.sections.length := by omega
      rw [List.getElem?_concat_length, Option.some.injEq] at ho
      exact Or.inr ⟨rfl, ho.symm⟩
  refine ⟨h.queued.enqueue key, ?_, ?_, ?_, ?_, ?_⟩
  · show (s.sections ++ [({ call := c } : Section)]).length = (enqueue key s.queue).callers.length
    simp [enqueue, h.length]
  · intro i hi
    have hlt := h.bound i hi
    show i < (enqueue key s.queue).callers.length
    simp only [enqueue, List.length_append, List.length_singleton]
    omega
  · intro i d hd
    obtain ⟨hd, hdead⟩ := caller?_eq.1 hd
    rcases hnew hd with hd | ⟨rfl, hwait⟩
    · exact h.holder i d (caller?_eq.2 ⟨hd, hdead⟩)
    · constructor
      · intro hi
        exact absurd (h.bound _ hi) (Nat.lt_irrefl _)
      · rintro (e | e) <;> rw [hwait] at e <;> cases e
  · intro i d o hd ho hphase
    rcases hsection ho with ⟨hi, ho⟩ | ⟨-, rfl⟩
    · rcases hnew hd with hd | ⟨rfl, -⟩
      · exact h.unstarted i d o hd ho hphase
      · omega
    · exact ⟨rfl, rfl⟩
  · intro i d o loaded hd ho hphase hover hloaded
    obtain ⟨hd, hdead⟩ := caller?_eq.1 hd
    rcases hsection ho with ⟨hi, ho⟩ | ⟨-, rfl⟩
    · rcases hnew hd with hd | ⟨rfl, -⟩
      · exact h.fresh i d o loaded (caller?_eq.2 ⟨hd, hdead⟩) ho hphase hover hloaded
      · omega
    · cases hloaded

theorem Logged.call {s : System} (hh : Held env s) (h : Logged env s) (key : QueueKey) (c : Call) :
    Logged env { s.advance (.call key) with sections := s.sections ++ [{ call := c }] } := by
  have hlt : ∀ e ∈ s.log, e.caller < s.sections.length := by
    intro e he
    obtain ⟨o, ho, -⟩ := h.entry e he
    exact (List.getElem?_eq_some_iff.1 ho).1
  refine ⟨h.disk, h.loaded, ?_, ?_, ?_⟩
  · intro e he
    obtain ⟨o, ho, hover⟩ := h.entry e he
    exact ⟨o, (List.getElem?_append_left (hlt e he)).trans ho, hover⟩
  · intro i o ho hover
    by_cases hi : i < s.sections.length
    · exact h.finished i o ((List.getElem?_append_left hi).symm.trans ho) hover
    · have hlen := (List.getElem?_eq_some_iff.1 ho).1
      simp only [List.length_append, List.length_singleton] at hlen
      obtain rfl : i = s.sections.length := by omega
      simp only [List.getElem?_concat_length, Option.some.injEq] at ho
      rw [← ho] at hover
      cases hover
  · have hkeys : ∀ e ∈ s.log, ((enqueue key s.queue).callers.map (·.key))[e.caller]? =
        s.keys[e.caller]? := by
      intro e he
      have hcaller := hlt e he
      rw [hh.length] at hcaller
      simp only [enqueue, List.map_append]
      exact List.getElem?_append_left (by simpa using hcaller)
    refine h.fifo.imp_of_mem ?_
    intro e e' he he' hfifo hsame
    refine hfifo ?_
    rw [← hkeys e he, ← hkeys e' he']
    exact hsame

theorem Held.crash {s : System} (h : Held env s) (process : ℕ) :
    Held env (step env s (.crash process)) := by
  have hlive : ∀ {i : ℕ} {c : Caller QueueKey}, (step env s (.crash process)).caller? i = some c →
      s.caller? i = some c ∧ c.key.process ≠ process := by
    intro i c hc
    obtain ⟨hc, hdead⟩ := caller?_eq.1 hc
    have hne : c.key.process ≠ process := by
      intro e
      simp [step, e] at hdead
    simp only [step, Function.update_of_ne hne] at hdead
    exact ⟨caller?_eq.2 ⟨hc, hdead⟩, hne⟩
  refine ⟨h.queued, h.length, ?_, ?_, h.unstarted, ?_⟩
  · intro i hi
    exact h.bound i (Option.filter_eq_some_iff.1 hi).1
  · intro i c hc
    obtain ⟨hc, hne⟩ := hlive hc
    rw [← h.holder i c hc]
    show s.holder.filter _ = some i ↔ _
    rw [Option.filter_eq_some_iff, (caller?_eq.1 hc).1]
    simp [hne]
  · intro i c o loaded hc
    exact h.fresh i c o loaded (hlive hc).1

/-- What happens inside a section changes neither the queue nor the holder. -/
theorem Held.section_ {s : System} (h : Held env s) {i : ℕ} {c : Caller QueueKey} {o : Section}
    (hc : s.caller? i = some c) (ho : s.sections[i]? = some o) (hphase : c.phase = .holding)
    {o' : Section} {disk : Disk} {log : List Entry}
    (hfresh : o'.finished = false → ∀ loaded, o'.loaded = some loaded → loaded = load env disk) :
    Held env { s with sections := s.sections.set i o', disk, log } := by
  have hlt : i < s.sections.length := (List.getElem?_eq_some_iff.1 ho).1
  have hholder : s.holder = some i := (h.holder i c hc).2 (Or.inl hphase)
  refine ⟨h.queued, ?_, h.bound, h.holder, ?_, ?_⟩
  · show (s.sections.set i o').length = s.queue.callers.length
    rw [List.length_set]
    exact h.length
  · intro j d p hd hp hout
    by_cases hj : j = i
    · subst hj
      obtain rfl : c = d := Option.some.inj ((caller?_eq.1 hc).1.symm.trans hd)
      rcases hout with e | e <;> rw [hphase] at e <;> cases e
    · exact h.unstarted j d p hd ((List.getElem?_set_ne (Ne.symm hj)).symm.trans hp) hout
  · intro j d p loaded hd hp hhold hover hloaded
    -- only the holder can be inside
    have hj : j = i := by
      have hholds := (h.holder j d hd).2 (Or.inl hhold)
      exact Option.some.inj (hholds.symm.trans hholder)
    subst hj
    obtain rfl : o' = p := Option.some.inj ((List.getElem?_set_self hlt).symm.trans hp)
    exact hfresh hover loaded hloaded

theorem Logged.load {s : System} (h : Logged env s) {i : ℕ} {o : Section}
    (ho : s.sections[i]? = some o) (hover : o.finished = false)
    (loaded : Option (Except StoreError DurableState)) :
    Logged env { s with sections := s.sections.set i { o with loaded } } := by
  have hlt : i < s.sections.length := (List.getElem?_eq_some_iff.1 ho).1
  refine ⟨h.disk, h.loaded, ?_, ?_, h.fifo⟩
  · intro e he
    obtain ⟨p, hp, hpover, hcall⟩ := h.entry e he
    have hne : e.caller ≠ i := by
      intro hei
      rw [hei, ho, Option.some.injEq] at hp
      rw [← hp, hover] at hpover
      cases hpover
    exact ⟨p, (List.getElem?_set_ne (Ne.symm hne)).trans hp, hpover, hcall⟩
  · intro j p hp hpover
    by_cases hj : j = i
    · subst hj
      obtain rfl := Option.some.inj ((List.getElem?_set_self hlt).symm.trans hp)
      rw [hover] at hpover
      cases hpover
    · exact h.finished j p ((List.getElem?_set_ne (Ne.symm hj)).symm.trans hp) hpover

/-- An operation that is over comes before one of its queue that holds the lock file. -/
theorem Held.before {s : System} (hh : Held env s) {i j : ℕ} {c : Caller QueueKey} {p : Section}
    (hc : s.queue.callers[i]? = some c) (hphase : c.phase = .holding) (hne : j ≠ i)
    (hp : s.sections[j]? = some p) (hover : p.finished = true) (hkey : s.keys[j]? = s.keys[i]?) :
    j < i := by
  obtain ⟨d, hd⟩ : ∃ d, s.queue.callers[j]? = some d := by
    have hlt := (List.getElem?_eq_some_iff.1 hp).1
    rw [hh.length] at hlt
    exact ⟨_, List.getElem?_eq_getElem hlt⟩
  have hsame : d.key = c.key := by
    simpa [keys, hd, hc] using hkey
  have hstarted : d.phase ≠ .waiting := by
    intro hwait
    have hnot := (hh.unstarted j d p hd hp (Or.inl hwait)).2
    rw [hover] at hnot
    cases hnot
  rcases Nat.lt_trichotomy j i with hji | hji | hij
  · exact hji
  · exact absurd hji hne
  · have hfin := hh.queued.started j d hd hstarted i c hij hc hsame.symm
    rw [hphase] at hfin
    cases hfin

theorem Logged.perform {s : System} (hh : Held env s) (h : Logged env s) {i : ℕ}
    {c : Caller QueueKey} {o : Section} (hc : s.caller? i = some c)
    (ho : s.sections[i]? = some o) (hphase : c.phase = .holding) (hover : o.finished = false)
    (outcome : WriteOutcome) :
    Logged env { s with
      sections := s.sections.set i { o with finished := true }
      disk := write env o.call outcome (Store.load env s.disk) s.disk
      log := s.log ++ [⟨i, o.call, outcome, Store.load env s.disk⟩] } := by
  have hlt : i < s.sections.length := (List.getElem?_eq_some_iff.1 ho).1
  have hself : (s.sections.set i { o with finished := true })[i]? = some { o with finished := true } :=
    List.getElem?_set_self hlt
  have hother : ∀ {j : ℕ}, j ≠ i →
      (s.sections.set i { o with finished := true })[j]? = s.sections[j]? :=
    fun hj => List.getElem?_set_ne (Ne.symm hj)
  have hne : ∀ e ∈ s.log, e.caller ≠ i := by
    intro e he hei
    obtain ⟨p, hp, hpover, -⟩ := h.entry e he
    rw [hei, ho, Option.some.injEq] at hp
    rw [← hp, hover] at hpover
    cases hpover
  refine ⟨?_, ?_, ?_, ?_, ?_⟩
  · show write env o.call outcome (Store.load env s.disk) s.disk = _
    rw [write_load, List.map_append, run_append, ← h.disk]
    rfl
  · intro l e l' hlog
    rcases List.eq_nil_or_concat l' with rfl | ⟨l'', e', rfl⟩
    · obtain ⟨rfl, he⟩ := List.append_inj_left' hlog rfl, List.append_inj_right' hlog rfl
      obtain rfl := List.singleton_inj.1 he
      exact congrArg (Store.load env) h.disk
    · rw [List.concat_eq_append, ← List.cons_append, ← List.append_assoc] at hlog
      exact h.loaded l e l'' (List.append_inj_left' hlog rfl)
  · intro e he
    rcases List.mem_append.1 he with he | he
    · obtain ⟨p, hp, hpover⟩ := h.entry e he
      exact ⟨p, (hother (hne e he)).trans hp, hpover⟩
    · obtain rfl := List.mem_singleton.1 he
      exact ⟨_, hself, rfl, rfl⟩
  · intro j p hp hpover
    by_cases hj : j = i
    · subst hj
      exact ⟨_, List.mem_append_right _ (List.mem_singleton_self _), rfl⟩
    · obtain ⟨e, he, hcaller⟩ := h.finished j p ((hother hj).symm.trans hp) hpover
      exact ⟨e, List.mem_append_left _ he, hcaller⟩
  · refine List.pairwise_append.2 ⟨h.fifo, List.pairwise_singleton _ _, ?_⟩
    intro e he e' he' hkey
    obtain rfl := List.mem_singleton.1 he'
    obtain ⟨p, hp, hpover, -⟩ := h.entry e he
    exact hh.before (caller?_eq.1 hc).1 hphase (hne e he) hp hpover hkey

theorem locked_ne {s : PromiseQueue.State QueueKey} {i : ℕ} {c : Caller QueueKey}
    (hc : s.callers[i]? = some c) (hphase : c.phase = .entered) :
    PromiseQueue.step withLock s (.locked i true) ≠ s := by
  simp only [PromiseQueue.step, onCaller_some hc, hphase, if_true]
  exact setPhase_ne hc (by simp [hphase])

theorem released_ne {s : PromiseQueue.State QueueKey} {i : ℕ} {c : Caller QueueKey} (ok : Bool)
    (hc : s.callers[i]? = some c) (hphase : c.phase = .releasing) :
    PromiseQueue.step withLock s (.released i ok) ≠ s := by
  simp only [PromiseQueue.step, onCaller_some hc, hphase, if_true]
  split_ifs
  · exact finish_ne hc (by simp [hphase])
  · exact setPhase_ne hc (by simp [hphase])

/-- A step of a caller that does not touch the lock file. -/
theorem advance_unlocked {s : System} (hh : Held env s) (hl : Logged env s)
    {a : PromiseQueue.Act QueueKey} (ha : a.isCall = false)
    (hinside : ∀ i c p, s.caller? i = some c → a.Changes i c.phase p → (inside p ↔ inside c.phase))
    (hlive : ∀ i p q, a.Changes i p q → ∃ c, s.caller? i = some c) :
    Held env (s.advance a) ∧ Logged env (s.advance a) := by
  refine advance_kept hh hl ha s.holder ?_ (fun _ => rfl)
  intro i c p hc hp
  obtain ⟨d, hd⟩ := hlive i _ _ hp
  obtain rfl : c = d := Option.some.inj (hc.symm.trans (caller?_eq.1 hd).1)
  exact ⟨(hh.holder i c hd).trans (hinside i c p hd hp).symm, fun j _ => Iff.rfl⟩

theorem not_inside {p : Phase} (h : p ≠ .holding ∧ p ≠ .releasing) : ¬ inside p := by
  rintro (e | e)
  · exact h.1 e
  · exact h.2 e

/-- **Every step keeps both.** -/
theorem step_kept (s : System) (a : Act) (hh : Held env s) (hl : Logged env s) :
    Held env (step env s a) ∧ Logged env (step env s a) := by
  cases a with
  | call key c =>
    simp only [step]
    split_ifs
    · exact ⟨hh, hl⟩
    · exact ⟨hh.call key c, hl.call hh key c⟩
  | resume i =>
    simp only [step]
    rcases onSection_cases s i _ with e | ⟨c, o, hc, -, e⟩
    · rw [e]; exact ⟨hh, hl⟩
    rw [e]
    refine advance_unlocked hh hl rfl ?_ ?_
    · intro j d p _ hp
      obtain ⟨-, hwait, rfl⟩ := changes_resume hp
      rw [hwait]
      exact iff_of_false (not_inside (by simp)) (not_inside (by simp))
    · intro j p q hp
      exact (changes_resume hp).1 ▸ ⟨c, hc⟩
  | locked i ok =>
    simp only [step]
    rcases onSection_cases s i _ with e | ⟨c, o, hc, -, e⟩
    · rw [e]; exact ⟨hh, hl⟩
    rw [e]
    have hcaller := (caller?_eq.1 hc).1
    split_ifs with hphase hok hfree
    · refine advance_kept hh hl rfl (some i) ?_ ?_
      · intro j d p _ hp
        obtain ⟨rfl, -, rfl⟩ := changes_locked hp
        refine ⟨iff_of_true rfl (Or.inl rfl), ?_⟩
        intro k hk
        rw [hfree]
        exact iff_of_false (fun e => hk (Option.some.inj e).symm) (by simp)
      · intro hstuck
        exact absurd hstuck (locked_ne hcaller hphase)
    · exact ⟨hh, hl⟩
    · refine advance_unlocked hh hl rfl ?_ ?_
      · intro j d p _ hp
        obtain ⟨-, hentered, rfl⟩ := changes_locked hp
        rw [hentered]
        exact iff_of_false (not_inside (by simp)) (not_inside (by simp))
      · intro j p q hp
        exact (changes_locked hp).1 ▸ ⟨c, hc⟩
    · exact ⟨hh, hl⟩
  | load i =>
    simp only [step]
    rcases onSection_cases s i _ with e | ⟨c, o, hc, ho, e⟩
    · rw [e]; exact ⟨hh, hl⟩
    rw [e]
    split_ifs with h
    · refine ⟨hh.section_ hc ho h.1 ?_, hl.load ho h.2.1 _⟩
      intro _ loaded hloaded
      exact (Option.some.inj hloaded).symm
    · exact ⟨hh, hl⟩
  | perform i outcome =>
    simp only [step]
    rcases onSection_cases s i _ with e | ⟨c, o, hc, ho, e⟩
    · rw [e]; exact ⟨hh, hl⟩
    rw [e]
    cases hloaded : o.loaded with
    | none => exact ⟨hh, hl⟩
    | some loaded =>
      dsimp only
      split_ifs with h
      · obtain rfl := hh.fresh i c o loaded hc ho h.1 h.2 hloaded
        refine ⟨hh.section_ hc ho h.1 ?_, ?_⟩
        · intro hover
          cases hover
        · have hp := hl.perform hh hc ho h.1 h.2 outcome
          rwa [hloaded] at hp
      · exact ⟨hh, hl⟩
  | operated i =>
    simp only [step]
    rcases onSection_cases s i _ with e | ⟨c, o, hc, -, e⟩
    · rw [e]; exact ⟨hh, hl⟩
    rw [e]
    split_ifs
    · refine advance_unlocked hh hl rfl ?_ ?_
      · intro j d p _ hp
        obtain ⟨-, hhold, rfl⟩ := changes_operated hp
        rw [hhold]
        exact iff_of_true (Or.inr rfl) (Or.inl rfl)
      · intro j p q hp
        exact (changes_operated hp).1 ▸ ⟨c, hc⟩
    · exact ⟨hh, hl⟩
  | released i ok =>
    simp only [step]
    rcases onSection_cases s i _ with e | ⟨c, o, hc, -, e⟩
    · rw [e]; exact ⟨hh, hl⟩
    rw [e]
    split_ifs with hphase
    · have hholder : s.holder = some i := (hh.holder i c hc).2 (Or.inr hphase)
      refine advance_kept hh hl rfl none ?_ ?_
      · intro j d p _ hp
        obtain ⟨rfl, -, hp⟩ := changes_released hp
        refine ⟨iff_of_false (by simp) (not_inside ?_), ?_⟩
        · rcases hp with rfl | rfl <;> simp
        · intro k hk
          rw [hholder]
          exact iff_of_false (by simp) (fun e => hk (Option.some.inj e).symm)
      · intro hstuck
        exact absurd hstuck (released_ne ok (caller?_eq.1 hc).1 hphase)
    · exact ⟨hh, hl⟩
  | crash process =>
    exact ⟨hh.crash process, hl.frame rfl⟩

theorem kept_init : Held env {} ∧ Logged env {} := by
  refine ⟨⟨queued_init, rfl, ?_, ?_, ?_, ?_⟩, ⟨rfl, ?_, ?_, ?_, List.Pairwise.nil⟩⟩
  · intro i hi; cases hi
  · intro i c hc; cases hc
  · intro i c o hc; cases hc
  · intro i c o loaded hc; cases hc
  · intro l e l' h
    cases l <;> cases h
  · intro e he; cases he
  · intro i o ho; cases ho

variable (env) in
theorem kept_run (acts : List Act) :
    Held env (run (step env) {} acts) ∧ Logged env (run (step env) {} acts) :=
  run_invariant (P := fun s => Held env s ∧ Logged env s) (step env)
    (fun s a h => step_kept s a h.1 h.2) kept_init acts

/-- Entries are only ever added to the log. -/
theorem log_prefix (s : System) (acts : List Act) : s.log <+: (run (step env) s acts).log := by
  refine run_related (I := fun _ => True) (R := fun s s' => s.log <+: s'.log) (step env)
    (fun _ => List.prefix_refl _) (fun h h' => h.trans h') (fun _ _ _ => trivial) ?_ trivial acts
  intro s a _
  cases a with
  | call key c => simp only [step]; split_ifs <;> exact List.prefix_refl _
  | crash process => exact List.prefix_refl _
  | perform i outcome =>
    simp only [step]
    rcases onSection_cases s i _ with e | ⟨c, o, -, -, e⟩
    · rw [e]
    rw [e]
    cases o.loaded with
    | none => exact List.prefix_refl _
    | some loaded =>
      dsimp only
      split_ifs
      · exact List.prefix_append _ _
      · exact List.prefix_refl _
  | _ =>
    simp only [step]
    rcases onSection_cases s _ _ with e | ⟨c, o, -, -, e⟩ <;> rw [e]
    all_goals try split_ifs
    all_goals exact List.prefix_refl _

/-- **Concurrent operations are performed one after another.**  Whatever the interleaving of the
callers of any number of processes, and whoever crashes in between: the file is what the operations
of the log leave when they are performed in its order; every operation loaded what the operations
before it left; an operation is in the log once its body is over, and for good; and those of one
queue are in the order of their calls. -/
theorem withLock_serial (acts acts' : List Act) :
    let s := run (step env) {} acts
    s.disk = run (Store.step env) none (s.log.map Entry.input) ∧
    (∀ l e l', s.log = l ++ e :: l' →
      e.loaded = Store.load env (run (Store.step env) none (l.map Entry.input))) ∧
    (∀ i o, s.sections[i]? = some o →
      (o.finished = true ↔ ∃ e ∈ s.log, e.caller = i ∧ e.call = o.call)) ∧
    (s.log.Pairwise fun e e' => s.keys[e.caller]? = s.keys[e'.caller]? → e.caller < e'.caller) ∧
    s.log <+: (run (step env) {} (acts ++ acts')).log := by
  intro s
  obtain ⟨-, h⟩ := kept_run env acts
  refine ⟨h.disk, h.loaded, ?_, h.fifo, ?_⟩
  · intro i o ho
    constructor
    · intro hover
      obtain ⟨e, he, rfl⟩ := h.finished i o ho hover
      obtain ⟨p, hp, -, hcall⟩ := h.entry e he
      obtain rfl := Option.some.inj (ho.symm.trans hp)
      exact ⟨e, he, rfl, hcall.symm⟩
    · rintro ⟨e, he, rfl, -⟩
      obtain ⟨p, hp, hover, -⟩ := h.entry e he
      obtain rfl := Option.some.inj (ho.symm.trans hp)
      exact hover
  · rw [run_append]
    exact log_prefix _ _

/-- What concurrent processes leave on disk is what one of them could have left alone. -/
theorem reachable_disk (acts : List Act) : Reachable env (run (step env) {} acts).disk :=
  ⟨_, (kept_run env acts).2.disk⟩

/-! ## Who waits forever -/

variable (env) in
/-- No caller can go on. -/
def Quiet (s : System) : Prop :=
  ∀ a, (∀ key c, a ≠ .call key c) → (∀ process, a ≠ .crash process) → step env s a = s

theorem onSection_some {s : System} {i : ℕ} {c : Caller QueueKey} {o : Section}
    (hc : s.caller? i = some c) (ho : s.sections[i]? = some o)
    (f : Caller QueueKey → Section → System) : s.onSection i f = f c o := by
  unfold onSection
  rw [hc, ho]

theorem Held.section? {s : System} (h : Held env s) {i : ℕ} {c : Caller QueueKey}
    (hc : s.queue.callers[i]? = some c) : ∃ o, s.sections[i]? = some o := by
  have hlt := (List.getElem?_eq_some_iff.1 hc).1
  rw [← h.length] at hlt
  exact ⟨_, List.getElem?_eq_getElem hlt⟩

/-- A living caller of a quiet system waits, has finished, or its release was rejected. -/
theorem Quiet.phase {s : System} (hquiet : Quiet env s) (hh : Held env s) {i : ℕ}
    {c : Caller QueueKey} (hc : s.caller? i = some c) :
    c.phase = .waiting ∨ c.phase = .abandoned ∨ c.phase = .finished := by
  have hcaller := (caller?_eq.1 hc).1
  obtain ⟨o, ho⟩ := hh.section? hcaller
  cases hphase : c.phase with
  | waiting => exact Or.inl rfl
  | abandoned => exact Or.inr (Or.inl rfl)
  | finished => exact Or.inr (Or.inr rfl)
  | entered =>
    have hstep := congrArg System.queue (hquiet (.locked i false) (by simp) (by simp))
    simp only [step, onSection_some hc ho, hphase, if_true, Bool.false_eq_true, if_false, advance,
      PromiseQueue.step, onCaller_some hcaller] at hstep
    exact absurd hstep (finish_ne hcaller (by simp [hphase]))
  | holding =>
    cases hover : o.finished with
    | true =>
      have hstep := congrArg System.queue (hquiet (.operated i) (by simp) (by simp))
      simp only [step, onSection_some hc ho, hover, if_true, advance, PromiseQueue.step,
        onCaller_some hcaller, hphase] at hstep
      exact absurd hstep (setPhase_ne hcaller (by simp [hphase]))
    | false =>
      cases hloaded : o.loaded with
      | none =>
        have hstep := hquiet (.load i) (by simp) (by simp)
        simp only [step, onSection_some hc ho, hphase, hover, hloaded, and_self, if_true] at hstep
        have hset := congrArg (fun s : System => s.sections[i]?) hstep
        simp only [List.getElem?_set_self (List.getElem?_eq_some_iff.1 ho).1, ho,
          Option.some.injEq] at hset
        have hsome := congrArg Section.loaded hset
        rw [hloaded] at hsome
        cases hsome
      | some loaded =>
        have hstep := hquiet (.perform i .written) (by simp) (by simp)
        simp only [step, onSection_some hc ho, hphase, hover, hloaded, and_self, if_true] at hstep
        have hlog := congrArg (fun s : System => s.log.length) hstep
        simp at hlog
  | releasing =>
    have hstep := congrArg System.queue (hquiet (.released i true) (by simp) (by simp))
    simp only [step, onSection_some hc ho, hphase, if_true] at hstep
    exact absurd hstep (released_ne true hcaller hphase)

/-- **One rejected release stops a queue for good.**  When nothing can go on any more, a caller of a
process that lives has finished or was itself abandoned, unless it comes after a caller of the same
queue whose release was rejected: then it waits, and so does everyone who comes later. -/
theorem withLock_waits_iff (acts : List Act) (hquiet : Quiet env (run (step env) {} acts)) {i : ℕ}
    {c : Caller QueueKey} (hc : (run (step env) {} acts).caller? i = some c) :
    (c.phase = .waiting ∨ c.phase = .abandoned ∨ c.phase = .finished) ∧
    (c.phase = .waiting ↔ ∃ j d, j < i ∧ (run (step env) {} acts).queue.callers[j]? = some d ∧
      d.key = c.key ∧ d.phase = .abandoned) := by
  obtain ⟨hh, -⟩ := kept_run env acts
  generalize run (step env) {} acts = s at hquiet hc hh
  obtain ⟨hcaller, hlive⟩ := caller?_eq.1 hc
  have hstill : Still withLock s.queue c.key := by
    refine ⟨?_, ?_⟩
    · intro j d hd hkey
      exact hquiet.phase hh (caller?_eq.2 ⟨hd, hkey ▸ hlive⟩)
    · intro j d hd hkey
      have hd' : s.caller? j = some d := caller?_eq.2 ⟨hd, hkey ▸ hlive⟩
      obtain ⟨o, ho⟩ := hh.section? hd
      have hstep := congrArg System.queue (hquiet (.resume j) (by simp) (by simp))
      simp only [step, onSection_some hd' ho] at hstep
      exact hstep
  exact ⟨hquiet.phase hh hc, waits_iff hh.queued hstill hcaller rfl⟩

/-- A system is quiet when no caller is past its wait and the awaited promises are not resolved. -/
theorem quiet_of {s : System} (h : ∀ i c, s.caller? i = some c →
    c.phase = .abandoned ∨ c.phase = .finished ∨ c.phase = .waiting ∧
      ¬ resolved withLock s.queue.callers s.queue.callers.length c.previous) : Quiet env s := by
  have hphase : ∀ {i c}, s.caller? i = some c →
      c.phase ≠ .entered ∧ c.phase ≠ .holding ∧ c.phase ≠ .releasing := by
    intro i c hc
    rcases h i c hc with e | e | ⟨e, -⟩ <;> simp [e]
  intro a hcall hcrash
  cases a with
  | call key c => exact absurd rfl (hcall key c)
  | crash process => exact absurd rfl (hcrash process)
  | resume i =>
    simp only [step]
    rcases onSection_cases s i _ with e | ⟨c, o, hc, -, e⟩
    · exact e
    rw [e]
    have hsame : PromiseQueue.step withLock s.queue (.resume i) = s.queue := by
      simp only [PromiseQueue.step, onCaller_some (caller?_eq.1 hc).1]
      refine if_neg ?_
      rintro ⟨hwait, hres⟩
      rcases h i c hc with e | e | ⟨-, hopen⟩
      · rw [e] at hwait; cases hwait
      · rw [e] at hwait; cases hwait
      · exact hopen hres
    simp only [advance, hsame]
  | locked i ok =>
    simp only [step]
    rcases onSection_cases s i _ with e | ⟨c, o, hc, -, e⟩
    · exact e
    rw [e, if_neg (hphase hc).1]
  | load i =>
    simp only [step]
    rcases onSection_cases s i _ with e | ⟨c, o, hc, -, e⟩
    · exact e
    rw [e, if_neg fun hn => (hphase hc).2.1 hn.1]
  | perform i outcome =>
    simp only [step]
    rcases onSection_cases s i _ with e | ⟨c, o, hc, -, e⟩
    · exact e
    rw [e]
    cases o.loaded with
    | none => rfl
    | some loaded => exact if_neg fun hn => (hphase hc).2.1 hn.1
  | operated i =>
    simp only [step]
    rcases onSection_cases s i _ with e | ⟨c, o, hc, -, e⟩
    · exact e
    have hsame : PromiseQueue.step withLock s.queue (.operated i) = s.queue := by
      simp only [PromiseQueue.step, onCaller_some (caller?_eq.1 hc).1]
      exact if_neg (hphase hc).2.1
    rw [e]
    split_ifs
    · simp only [advance, hsame]
    · rfl
  | released i ok =>
    simp only [step]
    rcases onSection_cases s i _ with e | ⟨c, o, hc, -, e⟩
    · exact e
    rw [e, if_neg (hphase hc).2.2]

def sampleKey : QueueKey := ⟨0, "state.json"⟩

/-- Two callers of one queue; the release of the first one is rejected. -/
def sampleRejected : List Act :=
  let call : Call := .createBatch "" "" [] none "" fun _ => ""
  [.call sampleKey call, .call sampleKey call, .resume 0, .locked 0 true, .load 0,
    .perform 0 .written, .operated 0, .released 0 false]

theorem sampleRejected_callers : (run (step plainEnv) {} sampleRejected).queue.callers =
    [⟨sampleKey, none, .abandoned⟩, ⟨sampleKey, some 0, .waiting⟩] := by
  decide +kernel

theorem sampleRejected_quiet : Quiet plainEnv (run (step plainEnv) {} sampleRejected) := by
  refine quiet_of ?_
  intro i c hc
  obtain ⟨hc, -⟩ := caller?_eq.1 hc
  rw [sampleRejected_callers] at hc ⊢
  match i with
  | 0 => exact Or.inl (Option.some.inj hc ▸ rfl)
  | 1 =>
    obtain rfl := Option.some.inj hc
    exact Or.inr (Or.inr ⟨rfl, by decide⟩)
  | i + 2 => cases hc

theorem withLock_waits_iff_sample :
    ∃ c, (run (step plainEnv) {} sampleRejected).caller? 1 = some c ∧ c.phase = .waiting := by
  have hfirst : (run (step plainEnv) {} sampleRejected).queue.callers[0]? =
      some ⟨sampleKey, none, .abandoned⟩ := by
    rw [sampleRejected_callers]; rfl
  have hsecond : (run (step plainEnv) {} sampleRejected).caller? 1 =
      some ⟨sampleKey, some 0, .waiting⟩ := by
    decide +kernel
  exact ⟨_, hsecond, ((withLock_waits_iff sampleRejected sampleRejected_quiet hsecond).2).2
    ⟨0, _, Nat.zero_lt_one, hfirst, rfl, rfl⟩⟩

end System

end AgentOrchestrator.Store
