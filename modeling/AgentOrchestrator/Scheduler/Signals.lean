import AgentOrchestrator.Scheduler.Fairness

/-!
# Signals that requests share

`acquire` adds a listener to the signal of a request, and admission or rejection removes it.  When
the signal aborts, its listeners are called in the order they were added.  Each takes its request
out of the queue, rejects it and drains.  Without pressure hooks that drain admits at once, and a
request behind that carries the same signal may be among the admitted: its listener is removed
before its turn.
-/

namespace AgentOrchestrator.Scheduler.Signals

open Runs

/-- The scheduler, the tickets with their signals in the order the listeners were added, and the
signals that have aborted. -/
structure State where
  scheduler : Scheduler.State := {}
  carried : List (ℕ × ℕ) := []
  aborted : List ℕ := []

/-- The tickets of the requests that carry the signal. -/
def State.listeners (signal : ℕ) (s : State) : List ℕ :=
  (s.carried.filter fun e => e.2 = signal).map (·.1)

variable (policy : ConcurrencyPolicy) (hooked : Bool)

/-- `acquire` of a request with a signal or none; a signal that has aborted already rejects it. -/
def acquire (request : AdmissionRequest) (signal : Option ℕ) (clock : ℕ → ℤ) (s : State) :
    Except SchedulerError ℕ × State :=
  match Scheduler.acquire policy hooked { request with abortable := signal.isSome }
      (signal.any fun signal => s.aborted.contains signal) clock s.scheduler with
  | (.error e, scheduler) => (.error e, { s with scheduler := scheduler })
  | (.ok ticket, scheduler) =>
    (.ok ticket, { s with scheduler := scheduler
                          carried := s.carried ++ signal.toList.map fun signal => (ticket, signal) })

/-- The listeners are called; `clock n` has the readings during the one at `n`. -/
def dispatch (clock : ℕ → ℕ → ℤ) : List ℕ → ℕ → Scheduler.State → Scheduler.State
  | [], _, s => s
  | ticket :: rest, n, s =>
    dispatch clock rest (n + 1) (Scheduler.abort policy hooked ticket (clock n) s)

/-- The signal aborts, which it does once. -/
def abort (signal : ℕ) (clock : ℕ → ℕ → ℤ) (s : State) : State :=
  if signal ∈ s.aborted then s
  else
    { s with scheduler := dispatch policy hooked clock (s.listeners signal) 0 s.scheduler
             aborted := signal :: s.aborted }

inductive Act where
  | acquire (request : AdmissionRequest) (signal : Option ℕ)
  | acquireExisting (request : AdmissionRequest)
  | release (permit : ℕ)
  | abort (signal : ℕ)
  | answer (answer : PressureAnswer)
  | wake
  deriving DecidableEq

/-- One call, abort, answer or timer, with the readings of the clock in each `drain` of it. -/
def step (s : State) (i : Act × (ℕ → ℕ → ℤ)) : State :=
  match i.1 with
  | .acquire request signal => (acquire policy hooked request signal (i.2 0) s).2
  | .acquireExisting request =>
    { s with scheduler := (Scheduler.acquireExisting request s.scheduler).2 }
  | .release permit => { s with scheduler := release policy hooked permit (i.2 0) s.scheduler }
  | .abort signal => abort policy hooked signal i.2 s
  | .answer answer => { s with scheduler := resumeDrain policy hooked answer (i.2 0) s.scheduler }
  | .wake => { s with scheduler := Scheduler.wake policy hooked (i.2 0) s.scheduler }

/-! ## The calls of the scheduler in a run -/

/-- The listeners, as aborts of one request each. -/
def dispatchCalls (clock : ℕ → ℕ → ℤ) : List ℕ → ℕ → List (Scheduler.Act × (ℕ → ℤ))
  | [], _ => []
  | ticket :: rest, n => (.abort ticket, clock n) :: dispatchCalls clock rest (n + 1)

/-- What a step does to the scheduler. -/
def calls (s : State) (i : Act × (ℕ → ℕ → ℤ)) : List (Scheduler.Act × (ℕ → ℤ)) :=
  match i.1 with
  | .acquire request signal =>
    [(.acquire { request with abortable := signal.isSome }
      (signal.any fun signal => s.aborted.contains signal), i.2 0)]
  | .acquireExisting request => [(.acquireExisting request, i.2 0)]
  | .release permit => [(.release permit, i.2 0)]
  | .abort signal =>
    if signal ∈ s.aborted then [] else dispatchCalls i.2 (s.listeners signal) 0
  | .answer answer => [(.answer answer, i.2 0)]
  | .wake => [(.wake, i.2 0)]

/-- What a run does to the scheduler. -/
def history : State → List (Act × (ℕ → ℕ → ℤ)) → List (Scheduler.Act × (ℕ → ℤ))
  | _, [] => []
  | s, i :: l => calls s i ++ history (step policy hooked s i) l

variable {policy hooked} {s : State}

theorem run_dispatchCalls (clock : ℕ → ℕ → ℤ) (tickets : List ℕ) (n : ℕ)
    (sched : Scheduler.State) :
    run (Scheduler.step policy hooked) sched (dispatchCalls clock tickets n) =
      dispatch policy hooked clock tickets n sched := by
  induction tickets generalizing n sched with
  | nil => rfl
  | cons ticket rest ih => exact ih (n + 1) _

variable (policy hooked) in
/-- The ticket a step gives out. -/
def enqueuedBy (s : State) (i : Act × (ℕ → ℕ → ℤ)) : List ℕ :=
  match i.1 with
  | .acquire request signal =>
    match (acquire policy hooked request signal (i.2 0) s).1 with
    | .ok ticket => [ticket]
    | .error _ => []
  | _ => []

variable (policy hooked) in
/-- The tickets of the requests a run enqueues, the first one first. -/
def enqueued : State → List (Act × (ℕ → ℕ → ℤ)) → List ℕ
  | _, [] => []
  | s, i :: l => enqueuedBy policy hooked s i ++ enqueued (step policy hooked s i) l

/-- Every queued request was queued before, as the same request. -/
def Shrinks (sched sched' : Scheduler.State) : Prop :=
  ∀ q' ∈ sched'.queue, ∃ q ∈ sched.queue, q.entry = q'.entry

theorem Shrinks.of_sublist {sched sched' : Scheduler.State}
    (h : sched'.queue.Sublist sched.queue) : Shrinks sched sched' :=
  fun q' hq' => ⟨q', h.subset hq', rfl⟩

theorem sublist_drainFrom {sched : Scheduler.State} {clock : ℕ → ℤ}
    {queue before : List PendingRequest} {n : ℕ} (hqueue : sched.queue = queue)
    (hidle : sched.checking = none) (h : sched.queue.Sublist before) :
    (drainFrom policy hooked clock queue n sched).queue.Sublist before := by
  refine drainFrom_keeps (P := fun sched => sched.queue.Sublist before) ?_ ?_ ?_ hqueue hidle h
  · intro sched pending rest hqueue _ _ h
    exact (hqueue ▸ List.sublist_cons_self pending rest).trans h
  · intro sched pending rest _ _ _ h
    exact h
  · intro sched timer h
    exact h

theorem sublist_drain (clock : ℕ → ℤ) (sched : Scheduler.State) :
    (drain policy hooked clock sched).queue.Sublist sched.queue :=
  drain_keeps (P := fun sched' => sched'.queue.Sublist sched.queue) sublist_drainFrom
    (List.Sublist.refl _)

theorem shrinks_resumeDrain (answer : PressureAnswer) (clock : ℕ → ℤ) (sched : Scheduler.State) :
    Shrinks sched (resumeDrain policy hooked answer clock sched) := by
  have hloop : ∀ {clock : ℕ → ℤ} {queue : List PendingRequest} {n : ℕ} {sched' : Scheduler.State},
      sched'.queue = queue → sched'.checking = none → Shrinks sched sched' →
      Shrinks sched (drainFrom policy hooked clock queue n sched') := by
    intro clock queue n sched' hqueue hidle h q hq
    exact h q ((sublist_drainFrom hqueue hidle (List.Sublist.refl _)).subset hq)
  have hsame : Shrinks sched sched := .of_sublist (List.Sublist.refl _)
  refine resumeDrain_keeps (P := Shrinks sched) hloop hsame hsame ?_ ?_ ?_
  · intro pending rest decision hqueue _ _ _
    exact .of_sublist (hqueue ▸ List.sublist_cons_self pending rest)
  · intro pending rest error hqueue
    exact .of_sublist (hqueue ▸ List.sublist_cons_self pending rest)
  · intro pending rest reason readyAt timer hqueue q' hq'
    rcases List.mem_cons.1 hq' with rfl | hq'
    · exact ⟨pending, hqueue ▸ List.mem_cons_self, rfl⟩
    · exact ⟨q', hqueue ▸ List.mem_cons_of_mem pending hq', rfl⟩

theorem sublist_abort (ticket : ℕ) (clock : ℕ → ℤ) (sched : Scheduler.State) :
    (Scheduler.abort policy hooked ticket clock sched).queue.Sublist sched.queue := by
  rcases abort_cases policy hooked ticket clock sched with h | ⟨q, -, -, h⟩
  · rw [h]
  · rw [h]
    exact (sublist_drain clock _).trans List.filter_sublist

theorem sublist_dispatch (clock : ℕ → ℕ → ℤ) (tickets : List ℕ) (n : ℕ)
    (sched : Scheduler.State) :
    (dispatch policy hooked clock tickets n sched).queue.Sublist sched.queue := by
  induction tickets generalizing n sched with
  | nil => exact List.Sublist.refl _
  | cons ticket rest ih => exact (ih (n + 1) _).trans (sublist_abort ticket (clock n) sched)

/-- The request has a listener. -/
theorem abort_waiting {ticket : ℕ} {sched : Scheduler.State} (h : sched.Abortable ticket)
    (clock : ℕ → ℤ) :
    ∃ error, Scheduler.abort policy hooked ticket clock sched = drain policy hooked clock
      { sched with queue := sched.queue.filter fun p => p.ticket ≠ ticket
                   wakeTimer := none
                   log := .rejected ticket error :: sched.log } := by
  obtain ⟨q, hq, hticket, habortable⟩ := h
  have hwaits : (sched.queue.any fun p => p.ticket = ticket && p.request.abortable) = true :=
    List.any_eq_true.2 ⟨q, hq, by simp [hticket, habortable]⟩
  unfold Scheduler.abort
  rw [if_pos hwaits]
  exact ⟨_, rfl⟩

/-- The listeners that are called leave none of their requests in the queue. -/
theorem dispatch_leaves {tickets : List ℕ} {sched : Scheduler.State}
    (habortable : ∀ q ∈ sched.queue, q.ticket ∈ tickets → q.request.abortable = true)
    (clock : ℕ → ℕ → ℤ) (n : ℕ) :
    ∀ q ∈ (dispatch policy hooked clock tickets n sched).queue, q.ticket ∉ tickets := by
  induction tickets generalizing n sched with
  | nil => simp
  | cons ticket rest ih =>
    intro q hq hmem
    have hafter : q ∈ (Scheduler.abort policy hooked ticket (clock n) sched).queue :=
      (sublist_dispatch clock rest (n + 1) _).subset hq
    have hbefore := @sublist_abort policy hooked ticket (clock n) sched
    rcases List.mem_cons.1 hmem with heq | hmem
    · have hwaits : sched.Abortable ticket :=
        ⟨q, hbefore.subset hafter, heq, habortable q (hbefore.subset hafter) (heq ▸ List.mem_cons_self)⟩
      obtain ⟨error, habort⟩ := @abort_waiting policy hooked ticket sched hwaits (clock n)
      rw [habort] at hafter
      have hfiltered := (sublist_drain (clock n) _).subset hafter
      exact absurd heq (of_decide_eq_true (List.mem_filter.1 hfiltered).2)
    · refine ih ?_ (n + 1) q hq hmem
      intro q hq hmem
      exact habortable q (hbefore.subset hq) (List.mem_cons_of_mem _ hmem)

theorem acquire_aborted {request : AdmissionRequest} {clock : ℕ → ℤ}
    {sched sched' : Scheduler.State} {ticket : ℕ} :
    Scheduler.acquire policy hooked request true clock sched ≠ (.ok ticket, sched') := by
  unfold Scheduler.acquire
  intro h
  split at h
  · cases (Prod.mk.inj h).1
  · rw [if_pos rfl] at h
    cases (Prod.mk.inj h).1

/-- The listeners of the queued requests: what carries a signal can be aborted, and nothing queued
carries a signal that has aborted. -/
structure Listening (s : State) : Prop where
  abortable : ∀ q ∈ s.scheduler.queue, ∀ signal, (q.ticket, signal) ∈ s.carried →
    q.request.abortable = true
  given : ∀ e ∈ s.carried, e.1 < s.scheduler.nextTicket
  gone : ∀ q ∈ s.scheduler.queue, ∀ signal ∈ s.aborted, (q.ticket, signal) ∉ s.carried

variable {s' : State}

/-- Requests leave the queue, and no signal aborts. -/
theorem Listening.shrunk (hs : Listening s) (hqueue : Shrinks s.scheduler s'.scheduler)
    (hcarried : s'.carried = s.carried) (haborted : s'.aborted = s.aborted)
    (hnext : s'.scheduler.nextTicket = s.scheduler.nextTicket) : Listening s' := by
  refine ⟨?_, ?_, ?_⟩
  · intro q' hq' signal hsignal
    obtain ⟨q, hq, hentry⟩ := hqueue q' hq'
    obtain ⟨hticket, hrequest⟩ := Prod.mk.inj hentry
    rw [hcarried] at hsignal
    exact hrequest ▸ hs.abortable q hq signal (hticket ▸ hsignal)
  · rw [hcarried, hnext]
    exact hs.given
  · intro q' hq' signal hsignal hmem
    obtain ⟨q, hq, hentry⟩ := hqueue q' hq'
    rw [hcarried] at hmem
    exact hs.gone q hq signal (haborted ▸ hsignal) ((Prod.mk.inj hentry).1 ▸ hmem)

theorem mem_added {ticket signal next : ℕ} {added : Option ℕ} :
    (ticket, signal) ∈ added.toList.map (fun signal => (next, signal)) ↔
      ticket = next ∧ added = some signal := by
  cases added with
  | none => simp
  | some σ => simp [eq_comm]

/-- A request joins the queue with a signal that has not aborted, or with none. -/
theorem Listening.enqueue (hs : Listening s)
    (hqueued : ∀ q ∈ s.scheduler.queue, q.ticket < s.scheduler.nextTicket) {signal : Option ℕ}
    (hlive : ∀ σ, signal = some σ → σ ∉ s.aborted) {sched : Scheduler.State}
    (hqueue : ∀ q ∈ sched.queue, q ∈ s.scheduler.queue ∨
      q.ticket = s.scheduler.nextTicket ∧ q.request.abortable = signal.isSome)
    (hnext : sched.nextTicket = s.scheduler.nextTicket + 1) :
    Listening { s with
      scheduler := sched
      carried := s.carried ++ signal.toList.map fun σ => (s.scheduler.nextTicket, σ) } := by
  have hcarried : ∀ q ∈ s.scheduler.queue, ∀ σ,
      (q.ticket, σ) ∈ s.carried ++ signal.toList.map (fun σ => (s.scheduler.nextTicket, σ)) →
      (q.ticket, σ) ∈ s.carried := by
    intro q hq σ hmem
    refine (List.mem_append.1 hmem).resolve_right ?_
    intro hadded
    exact (hqueued q hq).ne (mem_added.1 hadded).1
  have hadded : ∀ q σ, q = s.scheduler.nextTicket →
      (q, σ) ∈ s.carried ++ signal.toList.map (fun σ => (s.scheduler.nextTicket, σ)) →
      signal = some σ := by
    rintro q σ rfl hmem
    refine (mem_added.1 ((List.mem_append.1 hmem).resolve_left ?_)).2
    intro hold
    exact lt_irrefl _ (hs.given _ hold)
  refine ⟨?_, ?_, ?_⟩
  · intro q hq σ hmem
    rcases hqueue q hq with hq | ⟨hticket, habortable⟩
    · exact hs.abortable q hq σ (hcarried q hq σ hmem)
    · rw [habortable, hadded q.ticket σ hticket hmem]
      rfl
  · rintro ⟨t, σ⟩ he
    show t < sched.nextTicket
    rw [hnext]
    rcases List.mem_append.1 he with he | he
    · exact Nat.lt_succ_of_lt (hs.given _ he)
    · rw [(mem_added.1 he).1]
      exact Nat.lt_succ_self _
  · intro q hq σ hσ hmem
    rcases hqueue q hq with hq | ⟨hticket, -⟩
    · exact hs.gone q hq σ hσ (hcarried q hq σ hmem)
    · exact hlive σ (hadded q.ticket σ hticket hmem) hσ

theorem Listening.acquire (hs : Listening s)
    (hqueued : ∀ q ∈ s.scheduler.queue, q.ticket < s.scheduler.nextTicket)
    (request : AdmissionRequest) (signal : Option ℕ) (clock : ℕ → ℤ) :
    Listening (acquire policy hooked request signal clock s).2 := by
  unfold Signals.acquire
  split
  · rename_i sched' hcall
    rw [acquire_error hcall]
    exact hs
  · rename_i ticket sched' hcall
    have hlive : ∀ σ, signal = some σ → σ ∉ s.aborted := by
      rintro σ rfl hσ
      have haborted : (some σ).any (fun signal => s.aborted.contains signal) = true := by
        simpa using hσ
      rw [haborted] at hcall
      exact acquire_aborted hcall
    obtain ⟨-, rfl, rfl⟩ := acquire_ok hcall
    refine hs.enqueue hqueued hlive ?_ (drain_nextTicket clock _)
    intro q hq
    rcases Keyed.mem_append_singleton.1 ((sublist_drain clock _).subset hq) with hq | rfl
    · exact Or.inl hq
    · exact Or.inr ⟨rfl, rfl⟩

theorem mem_listeners {ticket signal : ℕ} :
    ticket ∈ s.listeners signal ↔ (ticket, signal) ∈ s.carried := by
  unfold State.listeners
  rw [List.mem_map]
  constructor
  · rintro ⟨⟨t, σ⟩, he, rfl⟩
    obtain ⟨hmem, heq⟩ := List.mem_filter.1 he
    exact of_decide_eq_true heq ▸ hmem
  · intro h
    exact ⟨_, List.mem_filter.2 ⟨h, decide_eq_true rfl⟩, rfl⟩

theorem dispatch_nextTicket (clock : ℕ → ℕ → ℤ) (tickets : List ℕ) (n : ℕ)
    (sched : Scheduler.State) :
    (dispatch policy hooked clock tickets n sched).nextTicket = sched.nextTicket := by
  induction tickets generalizing n sched with
  | nil => rfl
  | cons ticket rest ih =>
    rw [dispatch, ih]
    rcases abort_cases policy hooked ticket (clock n) sched with h | ⟨q, -, -, h⟩
    · rw [h]
    · rw [h, drain_nextTicket]

theorem Listening.abort (hs : Listening s) (signal : ℕ) (clock : ℕ → ℕ → ℤ) :
    Listening (abort policy hooked signal clock s) := by
  unfold Signals.abort
  split_ifs
  · exact hs
  · have hsub := @sublist_dispatch policy hooked clock (s.listeners signal) 0 s.scheduler
    refine ⟨?_, ?_, ?_⟩
    · intro q hq
      exact hs.abortable q (hsub.subset hq)
    · intro e he
      show e.1 < (dispatch policy hooked clock _ 0 _).nextTicket
      rw [dispatch_nextTicket]
      exact hs.given e he
    · intro q hq signal' hsignal' hmem
      rcases List.mem_cons.1 hsignal' with rfl | hsignal'
      · refine dispatch_leaves ?_ clock 0 q hq (mem_listeners.2 hmem)
        intro q hq hlistens
        exact hs.abortable q hq signal' (mem_listeners.1 hlistens)
      · exact hs.gone q (hsub.subset hq) signal' hsignal' hmem

theorem Listening.step (hs : Listening s)
    (hqueued : ∀ q ∈ s.scheduler.queue, q.ticket < s.scheduler.nextTicket)
    (i : Act × (ℕ → ℕ → ℤ)) : Listening (step policy hooked s i) := by
  obtain ⟨act, clock⟩ := i
  cases act with
  | acquire request signal => exact hs.acquire hqueued request signal (clock 0)
  | acquireExisting request =>
    rcases acquireExisting_cases request s.scheduler with h | ⟨-, h⟩
    · refine hs.shrunk (.of_sublist ?_) rfl rfl ?_
      · show (Scheduler.acquireExisting request s.scheduler).2.queue.Sublist _
        rw [h]
      · show (Scheduler.acquireExisting request s.scheduler).2.nextTicket = _
        rw [h]
    · refine hs.shrunk (.of_sublist ?_) rfl rfl ?_
      · show (Scheduler.acquireExisting request s.scheduler).2.queue.Sublist _
        rw [h]
        exact List.Sublist.refl _
      · show (Scheduler.acquireExisting request s.scheduler).2.nextTicket = _
        rw [h]
        rfl
  | release permit =>
    refine hs.shrunk (.of_sublist ?_) rfl rfl ?_
    · show (release policy hooked permit (clock 0) s.scheduler).queue.Sublist _
      rcases release_cases policy hooked permit (clock 0) s.scheduler with h | ⟨id, -, h⟩
      · rw [h]
      · rw [h]
        exact sublist_drain (clock 0) _
    · show (release policy hooked permit (clock 0) s.scheduler).nextTicket = _
      rcases release_cases policy hooked permit (clock 0) s.scheduler with h | ⟨id, -, h⟩
      · rw [h]
      · rw [h, drain_nextTicket]
  | abort signal => exact hs.abort signal clock
  | answer answer =>
    refine hs.shrunk (shrinks_resumeDrain answer (clock 0) s.scheduler) rfl rfl ?_
    exact resumeDrain_keeps (P := fun s' => s'.nextTicket = s.scheduler.nextTicket)
      (fun hqueue hidle h => drainFrom_nextTicket hqueue hidle h) rfl rfl
      (fun _ _ _ _ _ _ _ => rfl) (fun _ _ _ _ => rfl) (fun _ _ _ _ _ _ => rfl)
  | wake =>
    refine hs.shrunk ?_ rfl rfl ?_
    · show Shrinks _ (Scheduler.wake policy hooked (clock 0) s.scheduler)
      unfold Scheduler.wake
      split_ifs
      · exact .of_sublist (sublist_drain (clock 0) _)
      · exact .of_sublist (List.Sublist.refl _)
    · show (Scheduler.wake policy hooked (clock 0) s.scheduler).nextTicket = _
      unfold Scheduler.wake
      split_ifs
      · exact drain_nextTicket (clock 0) _
      · rfl

variable (policy) in
/-- Draining the queue comes to admit a request that carries the signal; the requests that carry it
and are blocked are taken out. -/
def overtaken (carries : ℕ → Bool) : List PendingRequest → List AdmissionRequest → Bool
  | [], _ => false
  | pending :: rest, active =>
    if blockedBy policy active pending.request ≠ [] then
      carries pending.ticket && overtaken carries rest active
    else carries pending.ticket || overtaken carries rest (setActive pending.request active)

variable (policy hooked) in
/-- The loop of `drain` admits no request that carries the signal, now or later in the dispatch. -/
def Clear (carries : ℕ → Bool) (queue : List PendingRequest) (active : List AdmissionRequest) :
    Prop := hooked = true ∨ overtaken policy carries queue active = false

/-- The ticket was rejected. -/
def Rejected (ticket : ℕ) (sched : Scheduler.State) : Prop :=
  ∃ error, .rejected ticket error ∈ sched.log

theorem Rejected.dispatch {ticket : ℕ} {sched : Scheduler.State} (h : Rejected ticket sched)
    (clock : ℕ → ℕ → ℤ) (tickets : List ℕ) (n : ℕ) :
    Rejected ticket (dispatch policy hooked clock tickets n sched) := by
  obtain ⟨error, herror⟩ := h
  rw [← run_dispatchCalls]
  exact ⟨error, (later_run _ _).log.subset herror⟩

/-- The first of the tickets that still waits. -/
def firstWaiting (tickets : List ℕ) (queue : List PendingRequest) : Option ℕ :=
  tickets.find? fun ticket => queue.any (·.ticket = ticket)

variable (policy hooked) in
/-- An abort overtakes no request that carries its signal: there are pressure hooks, or the queue
without the first request that carries the signal leaves no room for another one of them. -/
def Spares (s : State) (i : Act × (ℕ → ℕ → ℤ)) : Prop :=
  match i.1 with
  | .abort signal =>
    ∀ first, firstWaiting (s.listeners signal) s.scheduler.queue = some first →
      Clear policy hooked (fun ticket => (s.listeners signal).contains ticket)
        (s.scheduler.queue.filter fun p => p.ticket ≠ first) s.scheduler.active
  | _ => True

/-- A queue without requests that carry the signal is clear. -/
theorem overtaken_of_absent {carries : ℕ → Bool} {queue : List PendingRequest}
    {active : List AdmissionRequest} (h : ∀ q ∈ queue, carries q.ticket = false) :
    overtaken policy carries queue active = false := by
  induction queue generalizing active with
  | nil => rfl
  | cons pending rest ih =>
    have hrest : ∀ q ∈ rest, carries q.ticket = false :=
      fun q hq => h q (List.mem_cons_of_mem _ hq)
    rw [overtaken, h pending List.mem_cons_self]
    split_ifs
    · rfl
    · exact ih hrest

/-- A signal that one queued request carries overtakes nothing. -/
theorem spares_of_unshared {signal : ℕ} {clock : ℕ → ℕ → ℤ}
    (h : ∀ q ∈ s.scheduler.queue, ∀ q' ∈ s.scheduler.queue, (q.ticket, signal) ∈ s.carried →
      (q'.ticket, signal) ∈ s.carried → q.ticket = q'.ticket) :
    Spares policy hooked s (.abort signal, clock) := by
  intro first hfirst
  refine Or.inr (overtaken_of_absent ?_)
  have hqueued : (s.scheduler.queue.any (·.ticket = first)) = true :=
    List.find?_some (p := fun ticket => s.scheduler.queue.any (·.ticket = ticket)) hfirst
  obtain ⟨p, hp, hticket⟩ := List.any_eq_true.1 hqueued
  have hticket : p.ticket = first := of_decide_eq_true hticket
  have hcarried := mem_listeners.1 (List.mem_of_find?_eq_some hfirst)
  intro q hq
  obtain ⟨hq, hne⟩ := List.mem_filter.1 hq
  rw [Bool.eq_false_iff]
  intro hlistens
  refine of_decide_eq_true hne ?_
  rw [← hticket]
  exact h q hq p hp (mem_listeners.1 (List.contains_iff_mem.1 hlistens)) (hticket ▸ hcarried)

variable (policy hooked) in
/-- What the scheduler owes its callers in the state a run from the start reaches. -/
structure Served (l : List (Act × (ℕ → ℕ → ℤ))) (s : State) : Prop where
  /-- The requests admitted are among the requests enqueued, in the same order. -/
  fifo : (admissions s.scheduler.log).reverse.Sublist (enqueued policy hooked {} l)
  distinct : (enqueued policy hooked {} l).Nodup
  once : (settled s.scheduler.log).Nodup
  rejected : ∀ t error, .rejected t error ∈ s.scheduler.log → t ∉ admissions s.scheduler.log
  /-- What waits with a signal when the signal aborts is never admitted. -/
  aborted : ∀ l₁ signal clock l₂, l = l₁ ++ (.abort signal, clock) :: l₂ →
    ∀ q ∈ (run (step policy hooked) {} l₁).scheduler.queue,
      (q.ticket, signal) ∈ (run (step policy hooked) {} l₁).carried →
      q.ticket ∉ admissions s.scheduler.log
  ids : (s.scheduler.queue.map (·.request.id) ++ s.scheduler.active.map (·.id)).Nodup
  short : s.scheduler.queue.length ≤ max policy.maxQueued 1
  /-- An active request has one permit, and that is what holds its slot. -/
  holder : ∀ r ∈ s.scheduler.active, ∃! p, Held s.scheduler p r
  /-- A release function that was called before does nothing. -/
  stale : ∀ l₁ p clock l₂ clock', l = l₁ ++ (.release p, clock) :: l₂ →
    p < (run (step policy hooked) {} l₁).scheduler.permits.length →
    release policy hooked p clock' s.scheduler = s.scheduler
  /-- A release function frees no slot but its own. -/
  others : ∀ p q r clock, Held s.scheduler q r → q ≠ p →
    Held (release policy hooked p clock s.scheduler) q r

def sampleRequest (id workspaceId : String) : AdmissionRequest :=
  ⟨⟨"host", "project", "agent", workspaceId⟩, id, false⟩

end AgentOrchestrator.Scheduler.Signals
