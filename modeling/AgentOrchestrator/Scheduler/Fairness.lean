import AgentOrchestrator.Scheduler.Permits
import Mathlib.Data.List.Pairwise
import Mathlib.Data.List.Sort

/-!
# First in, first out

`acquire` puts a request at the end of the queue, `drain` admits its head, and an abort or a
rejection takes a request out of it.  The tickets in the queue ascend, the admitted ones lie below
them, and a ticket is settled as it leaves the queue.  A release function clears its flag on its
first call and then does nothing.  An abort here is the call of one listener; what a signal does
that several requests carry is in `Scheduler.Signals`.
-/

namespace AgentOrchestrator.Scheduler

open Runs

/-! ## What happened to a ticket -/

def Event.admittedTicket : Event → Option ℕ
  | .admitted ticket _ _ => some ticket
  | _ => none

/-- The ticket whose promise the event settled. -/
def Event.settledTicket : Event → Option ℕ
  | .admitted ticket _ _ => some ticket
  | .rejected ticket _ => some ticket
  | _ => none

/-- The tickets admitted through `acquire`, the last one first. -/
def admissions (log : List Event) : List ℕ := log.filterMap Event.admittedTicket

/-- The tickets whose promises settled, the last one first. -/
def settled (log : List Event) : List ℕ := log.filterMap Event.settledTicket

theorem settled_admitted (t : ℕ) (request : AdmissionRequest) (before : List AdmissionRequest)
    (log : List Event) : settled (.admitted t request before :: log) = t :: settled log := rfl

theorem settled_rejected (t : ℕ) (error : SchedulerError) (log : List Event) :
    settled (.rejected t error :: log) = t :: settled log := rfl

theorem mem_admissions {t : ℕ} {log : List Event} :
    t ∈ admissions log ↔ ∃ request before, .admitted t request before ∈ log := by
  unfold admissions
  rw [List.mem_filterMap]
  constructor
  · rintro ⟨event, hevent, hticket⟩
    cases event with
    | admitted ticket request before =>
      cases hticket
      exact ⟨request, before, hevent⟩
    | _ => cases hticket
  · rintro ⟨request, before, hevent⟩
    exact ⟨_, hevent, rfl⟩

theorem admissions_subset_settled (log : List Event) : admissions log ⊆ settled log := by
  intro t ht
  obtain ⟨request, before, hevent⟩ := mem_admissions.1 ht
  exact List.mem_filterMap.2 ⟨_, hevent, rfl⟩

theorem settlement_eq_none {t : ℕ} {log : List Event} :
    settlement t log = none ↔ t ∉ settled log := by
  induction log with
  | nil => simp [settlement, settled]
  | cons event log ih =>
    cases event with
    | admitted ticket request before =>
      rw [settlement, settled_admitted, List.mem_cons, not_or]
      split_ifs with h
      · simp [h]
      · rw [ih]
        exact (and_iff_right (fun e => h e.symm)).symm
    | rejected ticket error =>
      rw [settlement, settled_rejected, List.mem_cons, not_or]
      split_ifs with h
      · simp [h]
      · rw [ih]
        exact (and_iff_right (fun e => h e.symm)).symm
    | checked ticket => exact ih
    | existing id => exact ih

/-! ## The invariant -/

variable {policy : ConcurrencyPolicy} {hooked : Bool} {s s' : State}

/-- The queue is short, admissions went in order and are over for the tickets below the queue, and
nothing was settled twice. -/
structure Orderly (policy : ConcurrencyPolicy) (s : State) : Prop where
  accounts : Accounts s
  short : s.queue.length ≤ max policy.maxQueued 1
  fifo : (admissions s.log).Pairwise (· > ·)
  passed : ∀ t ∈ admissions s.log, ∀ q ∈ s.queue, t < q.ticket
  once : (settled s.log).Nodup

theorem orderly_init (policy : ConcurrencyPolicy) : Orderly policy {} :=
  ⟨accounts_init, Nat.zero_le _, List.Pairwise.nil, fun _ h => absurd h List.not_mem_nil,
    List.nodup_nil⟩

theorem Orderly.admitHead (hs : Orderly policy s) {pending : PendingRequest}
    {rest : List PendingRequest} (hqueue : s.queue = pending :: rest) :
    Orderly policy (admitHead pending rest s) := by
  have hhead : pending ∈ s.queue := hqueue ▸ List.mem_cons_self
  have hsorted := hs.accounts.sorted
  rw [hqueue, List.pairwise_cons] at hsorted
  have hshort := hs.short
  rw [hqueue, List.length_cons] at hshort
  have hnew : pending.ticket ∉ settled s.log :=
    settlement_eq_none.1 (hs.accounts.queued pending hhead).2
  refine ⟨hs.accounts.admitHead hqueue, (Nat.le_succ _).trans hshort, ?_, ?_, ?_⟩
  · refine List.pairwise_cons.2 ⟨?_, hs.fifo⟩
    intro t ht
    exact hs.passed t ht pending hhead
  · intro t ht q hq
    rcases List.mem_cons.1 ht with rfl | ht
    · exact hsorted.1 q hq
    · exact hs.passed t ht q (hqueue ▸ List.mem_cons_of_mem _ hq)
  · exact List.nodup_cons.2 ⟨hnew, hs.once⟩

/-- A request leaves the queue unserved. -/
theorem Orderly.reject (hs : Orderly policy s) (haccounts : Accounts s') {t : ℕ}
    {error : SchedulerError} (hnew : settlement t s.log = none)
    (hqueue : s'.queue.Sublist s.queue) (hlog : s'.log = .rejected t error :: s.log) :
    Orderly policy s' := by
  have hadmissions : admissions s'.log = admissions s.log := by
    rw [hlog]
    rfl
  refine ⟨haccounts, hqueue.length_le.trans hs.short, ?_, ?_, ?_⟩
  · rw [hadmissions]
    exact hs.fifo
  · rw [hadmissions]
    intro u hu q hq
    exact hs.passed u hu q (hqueue.subset hq)
  · rw [hlog]
    exact List.nodup_cons.2 ⟨settlement_eq_none.1 hnew, hs.once⟩

theorem Orderly.rejectHead (hs : Orderly policy s) {pending : PendingRequest}
    {rest : List PendingRequest} {error : SchedulerError} (hqueue : s.queue = pending :: rest)
    (hs'q : s'.queue = rest) (hs'a : s'.active = s.active) (hs'p : s'.permits = s.permits)
    (hs'n : s'.nextTicket = s.nextTicket)
    (hs'l : s'.log = .rejected pending.ticket error :: s.log) : Orderly policy s' := by
  refine hs.reject (hs.accounts.rejectHead hqueue hs'q hs'a hs'p hs'n hs'l) ?_ ?_ hs'l
  · exact (hs.accounts.queued pending (hqueue ▸ List.mem_cons_self)).2
  · rw [hs'q, hqueue]
    exact List.sublist_cons_self _ _

/-- Timers, checks, pressure fields and recovered runs do not touch the order. -/
theorem Orderly.same (hs : Orderly policy s) (haccounts : Accounts s')
    (hqueue : s'.queue.map (·.ticket) = s.queue.map (·.ticket))
    (hadmissions : admissions s'.log = admissions s.log)
    (hsettled : settled s'.log = settled s.log) : Orderly policy s' := by
  have hlength : s'.queue.length = s.queue.length := by
    have := congrArg List.length hqueue
    rwa [List.length_map, List.length_map] at this
  refine ⟨haccounts, hlength ▸ hs.short, hadmissions ▸ hs.fifo, ?_, hsettled ▸ hs.once⟩
  rw [hadmissions]
  intro t ht q hq
  have hmem : q.ticket ∈ s.queue.map (·.ticket) := hqueue ▸ List.mem_map_of_mem hq
  obtain ⟨p, hp, hticket⟩ := List.mem_map.1 hmem
  exact hticket ▸ hs.passed t ht p hp

theorem Orderly.enqueue (hs : Orderly policy s) {request : AdmissionRequest}
    (hnew : knownId request.id s = false)
    (hroom : s.queue = [] ∨ s.queue.length < policy.maxQueued) :
    Orderly policy { s with queue := s.queue ++ [{ ticket := s.nextTicket, request := request }]
                            nextTicket := s.nextTicket + 1 } := by
  refine ⟨hs.accounts.enqueue hnew, ?_, hs.fifo, ?_, hs.once⟩
  · show (s.queue ++ _).length ≤ _
    rw [List.length_append, List.length_singleton]
    rcases hroom with hempty | hlt
    · rw [hempty]
      exact le_max_right _ _
    · exact (Nat.succ_le_of_lt hlt).trans (le_max_left _ _)
  · intro t ht q hq
    rcases Keyed.mem_append_singleton.1 hq with hq | rfl
    · exact hs.passed t ht q hq
    · -- a ticket given out before is below the next one
      by_contra hle
      exact settlement_eq_none.1 (hs.accounts.past t (not_lt.1 hle))
        (admissions_subset_settled _ ht)

/-! ## Steps -/

theorem Orderly.drainFrom {clock : ℕ → ℤ} {queue : List PendingRequest} {n : ℕ}
    (hqueue : s.queue = queue) (hidle : s.checking = none) (hs : Orderly policy s) :
    Orderly policy (drainFrom policy hooked clock queue n s) := by
  refine drainFrom_keeps ?_ ?_ ?_ hqueue hidle hs
  · intro s pending rest hqueue _ _ hs
    exact hs.admitHead hqueue
  · intro s pending rest _ _ _ hs
    exact hs.same (hs.accounts.same rfl rfl rfl rfl rfl fun _ => rfl) rfl rfl rfl
  · intro s timer hs
    exact hs.same (hs.accounts.same rfl rfl rfl rfl rfl fun _ => rfl) rfl rfl rfl

theorem Orderly.drain {clock : ℕ → ℤ} (hs : Orderly policy s) :
    Orderly policy (drain policy hooked clock s) := drain_keeps Orderly.drainFrom hs

theorem Orderly.resumeDrain (hs : Orderly policy s) (answer : PressureAnswer) (clock : ℕ → ℤ) :
    Orderly policy (resumeDrain policy hooked answer clock s) := by
  have hidle : Orderly policy { s with checking := none } :=
    hs.same (hs.accounts.same rfl rfl rfl rfl rfl fun _ => rfl) rfl rfl rfl
  refine resumeDrain_keeps Orderly.drainFrom hs hidle ?_ ?_ ?_
  · intro pending rest decision hqueue _ _ _
    exact hidle.admitHead hqueue
  · intro pending rest error hqueue
    exact hs.rejectHead hqueue rfl rfl rfl rfl rfl
  · intro pending rest reason readyAt timer hqueue
    refine hs.same (hs.accounts.same ?_ rfl rfl rfl rfl fun _ => rfl) ?_ rfl rfl
    · rw [hqueue]
      rfl
    · rw [hqueue]
      rfl

theorem Orderly.existing (hs : Orderly policy s) (request : AdmissionRequest) :
    Orderly policy (acquireExisting request s).2 := by
  rcases acquireExisting_cases request s with h | ⟨hnew, h⟩
  · rw [h]
    exact hs
  · rw [h]
    refine hs.same (hs.accounts.existing ?_) rfl rfl rfl
    exact hnew

theorem Orderly.released (hs : Orderly policy s) {permit : ℕ} {id : String}
    (hlive : s.Live permit id) :
    Orderly policy { s with permits := s.permits.set permit (id, true)
                            active := s.active.filter fun r => r.id ≠ id } :=
  hs.same (hs.accounts.release hlive) rfl rfl rfl

theorem Orderly.aborted (hs : Orderly policy s) {q : PendingRequest} (hq : q ∈ s.queue)
    {error : SchedulerError} :
    Orderly policy { s with queue := s.queue.filter fun p => p.ticket ≠ q.ticket
                            wakeTimer := none
                            log := .rejected q.ticket error :: s.log } := by
  have hsub : (s.queue.filter fun p => decide (p.ticket ≠ q.ticket)).Sublist s.queue :=
    List.filter_sublist
  refine hs.reject ?_ (hs.accounts.queued q hq).2 hsub rfl
  refine hs.accounts.leave (hsub.map _) rfl rfl rfl rfl ?_ ?_
  · intro p hp
    obtain ⟨hp, hne⟩ := List.mem_filter.1 hp
    rw [settlement, if_neg (fun e => of_decide_eq_true hne e.symm)]
    exact (hs.accounts.queued p hp).2
  · intro t ht
    rw [settlement, if_neg ((hs.accounts.queued q hq).1.trans_le ht).ne]
    exact hs.accounts.past t ht

/-- An abort of a request that waits and has a signal; any other abort changes nothing. -/
theorem abort_cases (policy : ConcurrencyPolicy) (hooked : Bool) (ticket : ℕ) (clock : ℕ → ℤ)
    (s : State) :
    abort policy hooked ticket clock s = s ∨
      ∃ q ∈ s.queue, q.ticket = ticket ∧ abort policy hooked ticket clock s =
        drain policy hooked clock
          { s with queue := s.queue.filter fun p => p.ticket ≠ ticket
                   wakeTimer := none
                   log := .rejected ticket
                     (.cancelled (s.queue.filter fun p => p.ticket ≠ ticket).length) :: s.log } := by
  unfold abort
  split_ifs with h
  · obtain ⟨q, hq, hticket⟩ := List.any_eq_true.1 h
    exact Or.inr ⟨q, hq, of_decide_eq_true (Bool.and_eq_true_iff.1 hticket).1, rfl⟩
  · exact Or.inl rfl

theorem Orderly.step (s : State) (i : Act × (ℕ → ℤ)) (hs : Orderly policy s) :
    Orderly policy (step policy hooked s i) := by
  obtain ⟨act, clock⟩ := i
  cases act with
  | acquire request aborted =>
    show Orderly policy (acquire policy hooked request aborted clock s).2
    rcases acquire_cases policy hooked request aborted clock s with h | ⟨hnew, hroom, h⟩
    · rw [h]
      exact hs
    · rw [h]
      exact (hs.enqueue hnew hroom).drain
  | acquireExisting request => exact hs.existing request
  | release permit =>
    show Orderly policy (release policy hooked permit clock s)
    rcases release_cases policy hooked permit clock s with h | ⟨id, hlive, h⟩
    · rw [h]
      exact hs
    · rw [h]
      exact (hs.released hlive).drain
  | abort ticket =>
    show Orderly policy (abort policy hooked ticket clock s)
    rcases abort_cases policy hooked ticket clock s with h | ⟨q, hq, rfl, h⟩
    · rw [h]
      exact hs
    · rw [h]
      exact (hs.aborted hq).drain
  | answer answer => exact hs.resumeDrain answer clock
  | wake =>
    show Orderly policy (wake policy hooked clock s)
    unfold wake
    split_ifs
    · have hfired : Orderly policy { s with wakeTimer := none } :=
        hs.same (hs.accounts.same rfl rfl rfl rfl rfl fun _ => rfl) rfl rfl rfl
      exact hfired.drain
    · exact hs

theorem Orderly.run (l : List (Act × (ℕ → ℤ))) :
    Orderly policy (run (Scheduler.step policy hooked) {} l) :=
  run_invariant _ (P := Orderly policy) Orderly.step (orderly_init policy) l

/-! ## Tickets -/

variable (policy hooked) in
/-- The ticket a step gives out. -/
def enqueuedBy (s : State) (i : Act × (ℕ → ℤ)) : List ℕ :=
  match i.1 with
  | .acquire request aborted =>
    match (acquire policy hooked request aborted i.2 s).1 with
    | .ok ticket => [ticket]
    | .error _ => []
  | _ => []

variable (policy hooked) in
/-- The tickets of the requests a run enqueues, the first one first. -/
def enqueued : State → List (Act × (ℕ → ℤ)) → List ℕ
  | _, [] => []
  | s, i :: l => enqueuedBy policy hooked s i ++ enqueued (step policy hooked s i) l

theorem drainFrom_nextTicket {clock : ℕ → ℤ} {queue : List PendingRequest} {n : ℕ}
    (hqueue : s.queue = queue) (hidle : s.checking = none) {k : ℕ} (hs : s.nextTicket = k) :
    (drainFrom policy hooked clock queue n s).nextTicket = k :=
  drainFrom_keeps (P := fun s => s.nextTicket = k) (fun _ _ _ _ _ _ h => h)
    (fun _ _ _ _ _ _ h => h) (fun _ _ h => h) hqueue hidle hs

theorem drain_nextTicket (clock : ℕ → ℤ) (s : State) :
    (drain policy hooked clock s).nextTicket = s.nextTicket :=
  drain_keeps (P := fun s' => s'.nextTicket = s.nextTicket)
    (fun hqueue hidle h => drainFrom_nextTicket hqueue hidle h) rfl

theorem enqueuedBy_acquire (s : State) (request : AdmissionRequest) (aborted : Bool)
    (clock : ℕ → ℤ) :
    (enqueuedBy policy hooked s (.acquire request aborted, clock) = [] ∧
      (acquire policy hooked request aborted clock s).2.nextTicket = s.nextTicket) ∨
    (enqueuedBy policy hooked s (.acquire request aborted, clock) = [s.nextTicket] ∧
      (acquire policy hooked request aborted clock s).2.nextTicket = s.nextTicket + 1) := by
  unfold enqueuedBy
  dsimp only
  cases hcall : acquire policy hooked request aborted clock s with
  | mk result s' =>
    cases result with
    | error e =>
      rw [acquire_error hcall]
      exact Or.inl ⟨rfl, rfl⟩
    | ok ticket =>
      obtain ⟨-, hticket, hs'⟩ := acquire_ok hcall
      rw [hticket, hs']
      exact Or.inr ⟨rfl, drain_nextTicket clock _⟩

/-- A step gives out the next ticket, or none. -/
theorem enqueuedBy_cases (s : State) (i : Act × (ℕ → ℤ)) :
    (enqueuedBy policy hooked s i = [] ∧ (step policy hooked s i).nextTicket = s.nextTicket) ∨
    (enqueuedBy policy hooked s i = [s.nextTicket] ∧
      (step policy hooked s i).nextTicket = s.nextTicket + 1) := by
  obtain ⟨act, clock⟩ := i
  cases act with
  | acquire request aborted => exact enqueuedBy_acquire s request aborted clock
  | acquireExisting request =>
    refine Or.inl ⟨rfl, ?_⟩
    show (acquireExisting request s).2.nextTicket = _
    rcases acquireExisting_cases request s with h | ⟨-, h⟩
    · rw [h]
    · rw [h]
      rfl
  | release permit =>
    refine Or.inl ⟨rfl, ?_⟩
    show (release policy hooked permit clock s).nextTicket = _
    rcases release_cases policy hooked permit clock s with h | ⟨id, -, h⟩
    · rw [h]
    · rw [h, drain_nextTicket]
  | abort ticket =>
    refine Or.inl ⟨rfl, ?_⟩
    show (abort policy hooked ticket clock s).nextTicket = _
    rcases abort_cases policy hooked ticket clock s with h | ⟨q, -, -, h⟩
    · rw [h]
    · rw [h, drain_nextTicket]
  | answer answer =>
    refine Or.inl ⟨rfl, ?_⟩
    exact resumeDrain_keeps (P := fun s' => s'.nextTicket = s.nextTicket)
      (fun hqueue hidle h => drainFrom_nextTicket hqueue hidle h) rfl rfl
      (fun _ _ _ _ _ _ _ => rfl) (fun _ _ _ _ => rfl) (fun _ _ _ _ _ _ => rfl)
  | wake =>
    refine Or.inl ⟨rfl, ?_⟩
    show (wake policy hooked clock s).nextTicket = _
    unfold wake
    split_ifs
    · exact drain_nextTicket clock _
    · rfl

/-- The requests of a run get consecutive tickets. -/
theorem enqueued_eq_range' (s : State) (l : List (Act × (ℕ → ℤ))) :
    ∃ n, enqueued policy hooked s l = List.range' s.nextTicket n ∧
      (Runs.run (step policy hooked) s l).nextTicket = s.nextTicket + n := by
  induction l generalizing s with
  | nil => exact ⟨0, rfl, rfl⟩
  | cons i l ih =>
    obtain ⟨n, hlist, hnext⟩ := ih (step policy hooked s i)
    rw [enqueued, hlist, run_cons, hnext]
    rcases @enqueuedBy_cases policy hooked s i with ⟨hnone, hsame⟩ | ⟨hone, hsucc⟩
    · rw [hnone, hsame]
      exact ⟨n, rfl, rfl⟩
    · rw [hone, hsucc]
      refine ⟨n + 1, rfl, ?_⟩
      omega

/-! ## What stays -/

/-- What is settled stays settled, and a released permit stays released. -/
structure Later (s s' : State) : Prop where
  log : s.log <:+ s'.log
  released : ∀ (p : ℕ) (id : String),
    s.permits[p]? = some (id, true) → s'.permits[p]? = some (id, true)

theorem Later.refl (s : State) : Later s s := ⟨List.suffix_refl _, fun _ _ h => h⟩

theorem Later.trans {s₁ s₂ s₃ : State} (h : Later s₁ s₂) (h' : Later s₂ s₃) : Later s₁ s₃ :=
  ⟨h.log.trans h'.log, fun p id hp => h'.released p id (h.released p id hp)⟩

theorem Later.activate (hs : Later s s') {request : AdmissionRequest} {queue : List PendingRequest}
    (event : Event) :
    Later s (activate request { s' with queue := queue, log := event :: s'.log }) := by
  refine ⟨hs.log.trans (List.suffix_cons _ _), ?_⟩
  intro p id hp
  have hp' := hs.released p id hp
  exact (List.getElem?_append_left (List.getElem?_eq_some_iff.1 hp').1).trans hp'

theorem Later.cons (hs : Later s s') {s'' : State} (hpermits : s''.permits = s'.permits)
    {event : Event} (hlog : s''.log = event :: s'.log) : Later s s'' := by
  refine ⟨hlog ▸ hs.log.trans (List.suffix_cons _ _), ?_⟩
  rw [hpermits]
  exact hs.released

theorem Later.drainFrom {s₀ : State} {clock : ℕ → ℤ} {queue : List PendingRequest} {n : ℕ}
    (hqueue : s.queue = queue) (hidle : s.checking = none) (hs : Later s₀ s) :
    Later s₀ (drainFrom policy hooked clock queue n s) := by
  refine drainFrom_keeps (P := Later s₀) ?_ ?_ ?_ hqueue hidle hs
  · intro s pending rest _ _ _ hs
    exact hs.activate _
  · intro s pending rest _ _ _ hs
    exact hs.cons rfl rfl
  · intro s timer hs
    exact ⟨hs.log, hs.released⟩

theorem Later.drain {s₀ : State} {clock : ℕ → ℤ} (hs : Later s₀ s) :
    Later s₀ (drain policy hooked clock s) := drain_keeps Later.drainFrom hs

theorem later_release (permit : ℕ) (clock : ℕ → ℤ) (s : State) :
    Later s (release policy hooked permit clock s) := by
  rcases release_cases policy hooked permit clock s with h | ⟨id, hlive, h⟩
  · rw [h]
    exact Later.refl s
  · rw [h]
    refine Later.drain ⟨List.suffix_refl _, ?_⟩
    intro p id' hp
    have hne : permit ≠ p := by
      rintro rfl
      have hflag : (id, false) = (id', true) := Option.some.inj (hlive.symm.trans hp)
      cases hflag
    show (s.permits.set permit (id, true))[p]? = _
    rw [List.getElem?_set_ne hne]
    exact hp

theorem later_step (s : State) (i : Act × (ℕ → ℤ)) : Later s (step policy hooked s i) := by
  obtain ⟨act, clock⟩ := i
  cases act with
  | acquire request aborted =>
    show Later s (acquire policy hooked request aborted clock s).2
    rcases acquire_cases policy hooked request aborted clock s with h | ⟨-, -, h⟩
    · rw [h]
      exact Later.refl s
    · rw [h]
      exact Later.drain ⟨List.suffix_refl _, fun _ _ h => h⟩
  | acquireExisting request =>
    show Later s (acquireExisting request s).2
    rcases acquireExisting_cases request s with h | ⟨-, h⟩
    · rw [h]
      exact Later.refl s
    · rw [h]
      exact (Later.refl s).activate _
  | release permit => exact later_release permit clock s
  | abort ticket =>
    show Later s (abort policy hooked ticket clock s)
    rcases abort_cases policy hooked ticket clock s with h | ⟨q, -, -, h⟩
    · rw [h]
      exact Later.refl s
    · rw [h]
      exact Later.drain ((Later.refl s).cons rfl rfl)
  | answer answer =>
    refine resumeDrain_keeps (P := Later s) Later.drainFrom (Later.refl s)
      ⟨List.suffix_refl _, fun _ _ h => h⟩ ?_ ?_ ?_
    · intro pending rest decision _ _ _ _
      have hidle : Later s { s with checking := none } := ⟨List.suffix_refl _, fun _ _ h => h⟩
      exact hidle.activate _
    · intro pending rest error _
      exact (Later.refl s).cons rfl rfl
    · intro pending rest reason readyAt timer _
      exact ⟨List.suffix_refl _, fun _ _ h => h⟩
  | wake =>
    show Later s (wake policy hooked clock s)
    unfold wake
    split_ifs
    · exact Later.drain ⟨List.suffix_refl _, fun _ _ h => h⟩
    · exact Later.refl s

theorem later_run (s : State) (l : List (Act × (ℕ → ℤ))) :
    Later s (Runs.run (step policy hooked) s l) :=
  run_related (I := fun _ => True) _ Later.refl Later.trans (fun _ _ _ => trivial)
    (fun s i _ => later_step s i) trivial l

/-! ## Release functions -/

/-- Once called, a release function has cleared its flag. -/
theorem released_of_release {permit : ℕ} {clock : ℕ → ℤ} (h : permit < s.permits.length) :
    ∃ id, (release policy hooked permit clock s).permits[permit]? = some (id, true) := by
  obtain ⟨⟨id, flag⟩, hpermit⟩ : ∃ entry, s.permits[permit]? = some entry :=
    ⟨_, List.getElem?_eq_getElem h⟩
  cases flag with
  | true => exact ⟨id, (later_release permit clock s).released permit id hpermit⟩
  | false =>
    refine ⟨id, ?_⟩
    rw [release_live hpermit]
    refine (Later.drain (Later.refl _)).released permit id ?_
    exact List.getElem?_set_self h

theorem release_of_released {permit : ℕ} {id : String}
    (h : s.permits[permit]? = some (id, true)) (clock : ℕ → ℤ) :
    release policy hooked permit clock s = s := by
  unfold release
  rw [h]

/-- A permit is out, and its request is active. -/
structure Held (s : State) (permit : ℕ) (r : AdmissionRequest) : Prop where
  live : s.Live permit r.id
  active : r ∈ s.active

theorem Held.admitHead (hs : Accounts s) {q : ℕ} {r : AdmissionRequest} (h : Held s q r)
    {pending : PendingRequest} {rest : List PendingRequest} (hqueue : s.queue = pending :: rest) :
    Held (admitHead pending rest s) q r := by
  refine ⟨live_append.2 (Or.inl h.live), mem_setActive_of h.active ?_⟩
  exact hs.apart pending (hqueue ▸ List.mem_cons_self) r h.active

/-- `drain` takes no permit back. -/
theorem Held.drain (hs : Orderly policy s) {q : ℕ} {r : AdmissionRequest} (h : Held s q r)
    (clock : ℕ → ℤ) : Held (drain policy hooked clock s) q r := by
  refine (drain_keeps (P := fun s => Orderly policy s ∧ Held s q r) ?_ ⟨hs, h⟩).2
  intro clock queue n s hqueue hidle hs
  refine drainFrom_keeps (P := fun s => Orderly policy s ∧ Held s q r) ?_ ?_ ?_ hqueue hidle hs
  · rintro s pending rest hqueue - - ⟨hs, h⟩
    exact ⟨hs.admitHead hqueue, h.admitHead hs.accounts hqueue⟩
  · rintro s pending rest - - - ⟨hs, h⟩
    exact ⟨hs.same (hs.accounts.same rfl rfl rfl rfl rfl fun _ => rfl) rfl rfl rfl,
      h.live, h.active⟩
  · rintro s timer ⟨hs, h⟩
    exact ⟨hs.same (hs.accounts.same rfl rfl rfl rfl rfl fun _ => rfl) rfl rfl rfl,
      h.live, h.active⟩

/-- A release function takes no other permit back. -/
theorem Held.release (hs : Orderly policy s) {p q : ℕ} {r : AdmissionRequest} (h : Held s q r)
    (hne : q ≠ p) (clock : ℕ → ℤ) : Held (release policy hooked p clock s) q r := by
  rcases release_cases policy hooked p clock s with hsame | ⟨id, hlive, hdrained⟩
  · rw [hsame]
    exact h
  · rw [hdrained]
    have hother : r.id ≠ id := by
      intro hid
      exact hne (hs.accounts.one q p r.id h.live (hid ▸ hlive))
    refine Held.drain (hs.released hlive) ⟨?_, ?_⟩ clock
    · exact (List.getElem?_set_ne (Ne.symm hne)).trans h.live
    · exact List.mem_filter.2 ⟨h.active, decide_eq_true hother⟩

/-! ## The contract -/

/-- An admission that waits and has a signal. -/
def State.Abortable (s : State) (ticket : ℕ) : Prop :=
  ∃ q ∈ s.queue, q.ticket = ticket ∧ q.request.abortable = true

theorem abort_logged {ticket : ℕ} (h : s.Abortable ticket) (clock : ℕ → ℤ) :
    ∃ error, .rejected ticket error ∈ (abort policy hooked ticket clock s).log := by
  obtain ⟨q, hq, hticket, habortable⟩ := h
  have hwaits : (s.queue.any fun p => p.ticket = ticket && p.request.abortable) = true :=
    List.any_eq_true.2 ⟨q, hq, by simp [hticket, habortable]⟩
  unfold abort
  rw [if_pos hwaits]
  refine ⟨.cancelled (s.queue.filter fun p => p.ticket ≠ ticket).length, ?_⟩
  exact (Later.drain (Later.refl _)).log.subset List.mem_cons_self

variable (policy hooked) in
/-- What the scheduler owes its callers in the state a run from the start reaches. -/
structure Served (l : List (Act × (ℕ → ℤ))) (s : State) : Prop where
  /-- The requests admitted are among the requests enqueued, in the same order. -/
  fifo : (admissions s.log).reverse.Sublist (enqueued policy hooked {} l)
  distinct : (enqueued policy hooked {} l).Nodup
  once : (settled s.log).Nodup
  rejected : ∀ t error, .rejected t error ∈ s.log → t ∉ admissions s.log
  aborted : ∀ l₁ t clock l₂, l = l₁ ++ (.abort t, clock) :: l₂ →
    (Runs.run (step policy hooked) {} l₁).Abortable t → t ∉ admissions s.log
  ids : (s.queue.map (·.request.id) ++ s.active.map (·.id)).Nodup
  short : s.queue.length ≤ max policy.maxQueued 1
  /-- An active request has one permit, and that is what holds its slot. -/
  holder : ∀ r ∈ s.active, ∃! p, Held s p r
  /-- A release function that was called before does nothing. -/
  stale : ∀ l₁ p clock l₂ clock', l = l₁ ++ (.release p, clock) :: l₂ →
    p < (Runs.run (step policy hooked) {} l₁).permits.length →
    release policy hooked p clock' s = s
  /-- A release function frees no slot but its own. -/
  others : ∀ p q r clock, Held s q r → q ≠ p → Held (release policy hooked p clock s) q r

theorem Orderly.not_admitted (hs : Orderly policy s) {t : ℕ} {error : SchedulerError}
    (h : .rejected t error ∈ s.log) : t ∉ admissions s.log := by
  intro hadmitted
  obtain ⟨request, before, hevent⟩ := mem_admissions.1 hadmitted
  have hapart := List.pairwise_filterMap.1 hs.once
  have hsymm : Std.Symm fun e e' : Event =>
      ∀ t, e.settledTicket = some t → ∀ u, e'.settledTicket = some u → t ≠ u :=
    ⟨fun _ _ hne t ht u hu => (hne u hu t ht).symm⟩
  exact hapart.forall h hevent (by simp) t rfl t rfl rfl

/-- The scheduler is first in, first out and settles each request once, and a release function frees
the slot of its own permit, once; each request is aborted by itself. -/
theorem served (policy : ConcurrencyPolicy) (hooked : Bool) (l : List (Act × (ℕ → ℤ))) :
    Served policy hooked l (run (step policy hooked) {} l) := by
  have hs : Orderly policy (run (step policy hooked) {} l) := Orderly.run l
  obtain ⟨n, henqueued, hnext⟩ := @enqueued_eq_range' policy hooked {} l
  constructor
  · -- both lists ascend, and what was admitted has a ticket that was given out
    rw [henqueued]
    have hascending : (admissions (run (step policy hooked) {} l).log).reverse.Pairwise (· < ·) :=
      List.pairwise_reverse.2 hs.fifo
    refine List.sublist_of_subperm_of_pairwise ?_ hascending List.pairwise_lt_range'
    have hnodup : (admissions (run (step policy hooked) {} l).log).reverse.Nodup :=
      hascending.imp fun h => h.ne
    refine List.subperm_of_subset hnodup ?_
    intro t ht
    have hsettled := admissions_subset_settled _ (List.mem_reverse.1 ht)
    have hlt : t < n := by
      by_contra hle
      refine settlement_eq_none.1 (hs.accounts.past t ?_) hsettled
      rw [hnext]
      simpa using hle
    simpa using hlt
  · rw [henqueued]
    exact List.nodup_range'
  · exact hs.once
  · intro t error h
    exact hs.not_admitted h
  · rintro l₁ t clock l₂ rfl hwaits
    obtain ⟨error, herror⟩ := @abort_logged policy hooked _ t hwaits clock
    rw [run_append, run_cons] at hs ⊢
    exact hs.not_admitted ((later_run _ l₂).log.subset herror)
  · rw [List.nodup_append]
    refine ⟨hs.accounts.waiting, hs.accounts.ids, ?_⟩
    intro id hid id' hid'
    obtain ⟨q, hq, rfl⟩ := List.mem_map.1 hid
    obtain ⟨r, hr, rfl⟩ := List.mem_map.1 hid'
    exact (hs.accounts.apart q hq r hr).symm
  · exact hs.short
  · intro r hr
    obtain ⟨p, hp⟩ := hs.accounts.live r hr
    exact ⟨p, ⟨hp, hr⟩, fun q hq => hs.accounts.one q p r.id hq.live hp⟩
  · rintro l₁ p clock l₂ clock' rfl hp
    rw [run_append, run_cons]
    obtain ⟨id, hid⟩ := @released_of_release policy hooked _ p clock hp
    exact release_of_released ((later_run _ l₂).released p id hid) clock'
  · intro p q r clock h hne
    exact h.release hs hne clock

end AgentOrchestrator.Scheduler
