import AgentOrchestrator.Library.Keyed
import AgentOrchestrator.Library.Runs
import Mathlib.Algebra.Order.Ring.Rat

/-!
# `ConcurrencyScheduler`

The scheduler admits requests in order, under limits on the whole, on a host, a project, an agent
and a workspace.  `drain` checks the limits for the head of the queue, awaits the pressure hooks if
there are any, and admits.  Between two awaits a call runs to its end, so one step of the machine
is a call, the end of a pressure check, or a timer; `checking` is the request whose check `drain`
awaits, and the scheduler is draining exactly when there is one.  A pending request is known by its
ticket, a release function by the number of its permit.
-/

namespace AgentOrchestrator.Scheduler

/-! ## Policy and requests -/

inductive Overload where
  | queue | reject
  deriving DecidableEq

/-- The policy, with its defaults. -/
structure ConcurrencyPolicy where
  global : ℕ := 8
  perHost : ℕ := 4
  perProject : ℕ := 4
  perAgent : ℕ := 2
  perWorkspace : ℕ := 1
  maxQueued : ℕ := 100
  pressureHookTimeoutMs : ℕ := 30000
  overload : Overload := .queue
  deriving DecidableEq

/-- The checks of the constructor on natural numbers. -/
def checkPolicy (policy : ConcurrencyPolicy) : Except String ConcurrencyPolicy :=
  if policy.pressureHookTimeoutMs = 0 then
    .error "pressureHookTimeoutMs must be greater than zero"
  else if policy.global = 0 then .error "global must be greater than zero"
  else if policy.perHost = 0 then .error "perHost must be greater than zero"
  else if policy.perProject = 0 then .error "perProject must be greater than zero"
  else if policy.perAgent = 0 then .error "perAgent must be greater than zero"
  else if policy.perWorkspace = 0 then .error "perWorkspace must be greater than zero"
  else .ok policy

example : checkPolicy {} = .ok {} := by decide

structure ConcurrencyScope where
  hostId : String
  projectId : String
  agentId : String
  workspaceId : String
  deriving DecidableEq

/-- A request; `abortable` when it carries a signal. -/
structure AdmissionRequest extends ConcurrencyScope where
  id : String
  abortable : Bool := false
  deriving DecidableEq

inductive SchedulerError where
  /-- `CONCURRENCY_LIMIT`, which is retryable. -/
  | overloaded (queueDepth : ℕ) (limits : List String)
  /-- `CANCELLED` -/
  | cancelled (queueDepth : ℕ)
  | failure (message : String)
  deriving DecidableEq

def validateRequest (request : AdmissionRequest) : Except SchedulerError Unit :=
  if request.hostId.length = 0 then .error (.failure "hostId must not be empty")
  else if request.projectId.length = 0 then .error (.failure "projectId must not be empty")
  else if request.agentId.length = 0 then .error (.failure "agentId must not be empty")
  else if request.workspaceId.length = 0 then .error (.failure "workspaceId must not be empty")
  else if request.id.length = 0 then .error (.failure "id must not be empty")
  else .ok ()

/-! ## Limits -/

/-- A limit: its name, its bound and the active requests it counts. -/
structure Limit where
  name : String
  bound : ℕ
  counts : AdmissionRequest → Bool

/-- The five limits a request is under. -/
def limits (policy : ConcurrencyPolicy) (request : AdmissionRequest) : List Limit :=
  [⟨"global", policy.global, fun _ => true⟩,
    ⟨"host", policy.perHost, fun r => r.hostId = request.hostId⟩,
    ⟨"project", policy.perProject, fun r => r.projectId = request.projectId⟩,
    ⟨"agent", policy.perAgent, fun r => r.agentId = request.agentId⟩,
    ⟨"workspace", policy.perWorkspace, fun r => r.workspaceId = request.workspaceId⟩]

/-- The limit has no room. -/
def Limit.full (active : List AdmissionRequest) (limit : Limit) : Bool :=
  limit.bound ≤ active.countP limit.counts

/-- `blockedBy`: the limits without room for the request. -/
def blockedBy (policy : ConcurrencyPolicy) (active : List AdmissionRequest)
    (request : AdmissionRequest) : List String :=
  ((limits policy request).filter (·.full active)).map (·.name)

theorem blockedBy_eq_nil {policy : ConcurrencyPolicy} {active : List AdmissionRequest}
    {request : AdmissionRequest} :
    blockedBy policy active request = [] ↔
      ∀ limit ∈ limits policy request, limit.full active = false := by
  simp [blockedBy, List.filter_eq_nil_iff]

theorem Limit.full_eq_false {limit : Limit} {active : List AdmissionRequest} :
    limit.full active = false ↔ active.countP limit.counts < limit.bound := by
  simp [Limit.full]

/-- Fewer active requests block no more. -/
theorem blockedBy_eq_nil_of_sublist {policy : ConcurrencyPolicy}
    {active active' : List AdmissionRequest} {request : AdmissionRequest}
    (hsub : active'.Sublist active) (h : blockedBy policy active request = []) :
    blockedBy policy active' request = [] := by
  rw [blockedBy_eq_nil] at h ⊢
  intro limit hlimit
  have hroom := Limit.full_eq_false.1 (h limit hlimit)
  exact Limit.full_eq_false.2 ((hsub.countP_le).trans_lt hroom)

/-! ## Time -/

/-- A number of milliseconds, as JavaScript computes with it. -/
inductive Millis where
  | finite (ms : ℚ)
  | posInf
  | negInf
  | nan
  deriving DecidableEq

/-- `Math.max(1, ms)` -/
def Millis.atLeastOne : Millis → Millis
  | .finite ms => .finite (max 1 ms)
  | .posInf => .posInf
  | .negInf => .finite 1
  | .nan => .nan

/-- `now + ms` -/
def Millis.after (now : ℤ) : Millis → Millis
  | .finite ms => .finite (now + ms)
  | ms => ms

/-- `ms - now` -/
def Millis.since (now : ℤ) : Millis → Millis
  | .finite ms => .finite (ms - now)
  | ms => ms

/-- `ms > 0` -/
def Millis.positive : Millis → Bool
  | .finite ms => decide (0 < ms)
  | .posInf => true
  | .negInf => false
  | .nan => false

/-- The delay `scheduleDrain` sets. -/
def Millis.boundedDelay : Millis → ℚ
  | .finite ms => min (max 1 ms) 2147483647
  | _ => 1000

/-! ## The state -/

/-- A request in the queue. -/
structure PendingRequest where
  ticket : ℕ
  request : AdmissionRequest
  pressureReadyAt : Millis := .finite 0
  pressureReason : Option String := none
  deriving DecidableEq

structure PressureDecision where
  ready : Bool
  retryAfterMs : Option Millis := none
  reason : Option String := none
  deriving DecidableEq

/-- How a pressure check ends: a decision, a timeout included; its request was aborted; a hook
threw. -/
inductive PressureAnswer where
  | decided (decision : PressureDecision)
  | interrupted
  | failed
  deriving DecidableEq

/-- What the scheduler did, for the record. -/
inductive Event where
  /-- `drain` started to await the pressure check of a request. -/
  | checked (ticket : ℕ)
  /-- `drain` admitted a request while `before` was active. -/
  | admitted (ticket : ℕ) (request : AdmissionRequest) (before : List AdmissionRequest)
  /-- `acquireExisting` counted a request. -/
  | existing (id : String)
  | rejected (ticket : ℕ) (error : SchedulerError)
  deriving DecidableEq

/-- The scheduler.  `permits` has the id and the `released` flag of every release function, `log`
the newest event first. -/
structure State where
  queue : List PendingRequest := []
  active : List AdmissionRequest := []
  wakeTimer : Option ℚ := none
  checking : Option ℕ := none
  permits : List (String × Bool) := []
  nextTicket : ℕ := 0
  log : List Event := []
  deriving DecidableEq

/-- `active.set(request.id, request)` -/
def setActive (request : AdmissionRequest) (active : List AdmissionRequest) :
    List AdmissionRequest :=
  if active.any (·.id = request.id) then Keyed.put (·.id) request active else active ++ [request]

/-- `activate`; the release function is the last permit. -/
def activate (request : AdmissionRequest) (s : State) : State :=
  { s with active := setActive request s.active, permits := s.permits ++ [(request.id, false)] }

def scheduleDrain (delay : Millis) (s : State) : State :=
  if s.wakeTimer.isSome then s else { s with wakeTimer := some delay.boundedDelay }

/-- The head of the queue is shifted off and admitted. -/
def admitHead (pending : PendingRequest) (rest : List PendingRequest) (s : State) : State :=
  activate pending.request
    { s with queue := rest, log := .admitted pending.ticket pending.request s.active :: s.log }

variable (policy : ConcurrencyPolicy) (hooked : Bool)

/-! ## Draining -/

/-- The loop of `drain` from its head, until it returns or awaits; `clock` gives the readings of
the clock in order.  Without hooks the check is ready at once and the loop goes on. -/
def drainFrom (clock : ℕ → ℤ) : List PendingRequest → ℕ → State → State
  | [], _, s => s
  | pending :: rest, n, s =>
    if blockedBy policy s.active pending.request ≠ [] then s
    else if (pending.pressureReadyAt.since (clock n)).positive then
      scheduleDrain (pending.pressureReadyAt.since (clock n)) s
    else if hooked then
      { s with checking := some pending.ticket, log := .checked pending.ticket :: s.log }
    else drainFrom clock rest (n + 1) (admitHead pending rest s)

/-- `drain`, which returns at once when it is already draining. -/
def drain (clock : ℕ → ℤ) (s : State) : State :=
  if s.checking.isSome then s else drainFrom policy hooked clock s.queue 0 s

variable {policy hooked}

/-- What each turn of the loop keeps, the whole loop keeps: a turn admits a head that nothing
blocks, starts the check of such a head, or sets the wake timer. -/
theorem drainFrom_keeps {P : State → Prop}
    (hadmitted : ∀ s pending rest, s.queue = pending :: rest → s.checking = none →
      blockedBy policy s.active pending.request = [] → P s → P (admitHead pending rest s))
    (hcheck : ∀ s pending rest, s.queue = pending :: rest → s.checking = none →
      blockedBy policy s.active pending.request = [] → P s →
      P { s with checking := some pending.ticket, log := .checked pending.ticket :: s.log })
    (htimer : ∀ s timer, P s → P { s with wakeTimer := timer })
    {clock : ℕ → ℤ} {queue : List PendingRequest} {n : ℕ} {s : State}
    (hqueue : s.queue = queue) (hidle : s.checking = none) (hs : P s) :
    P (drainFrom policy hooked clock queue n s) := by
  induction queue generalizing n s with
  | nil => exact hs
  | cons pending rest ih =>
    rw [drainFrom]
    split_ifs with hblocked hwait hhook
    · exact hs
    · unfold scheduleDrain
      split_ifs
      · exact hs
      · exact htimer s _ hs
    · exact hcheck s pending rest hqueue hidle (not_not.1 hblocked) hs
    · exact ih rfl hidle (hadmitted s pending rest hqueue hidle (not_not.1 hblocked) hs)

/-- A call of `drain` keeps what the loop keeps. -/
theorem drain_keeps {P : State → Prop}
    (hloop : ∀ {clock queue n s}, s.queue = queue → s.checking = none → P s →
      P (drainFrom policy hooked clock queue n s))
    {clock : ℕ → ℤ} {s : State} (hs : P s) : P (drain policy hooked clock s) := by
  unfold drain
  split_ifs with hchecking
  · exact hs
  · exact hloop rfl (Option.not_isSome_iff_eq_none.1 hchecking) hs

variable (policy hooked)

/-- The decision `drain` acts on, `none` for a check that was interrupted. -/
def PressureAnswer.decision : PressureAnswer → Option PressureDecision
  | .decided decision => some decision
  | .interrupted => none
  | .failed => some ⟨false, some (.finite 1000), some "pressure_hook_error"⟩

/-- The rest of `drain` after the check of its head: a head that is not ready is rejected or
retried. -/
def refuse (decision : PressureDecision) (clock : ℕ → ℤ) (pending : PendingRequest)
    (rest : List PendingRequest) (s : State) : State :=
  let retryAfterMs := (decision.retryAfterMs.getD (.finite 1000)).atLeastOne
  let reason := decision.reason.getD "resource_pressure"
  if policy.overload = .reject ∨ policy.maxQueued = 0 then
    drainFrom policy hooked clock rest 0
      { s with queue := rest
               log := .rejected pending.ticket (.overloaded rest.length [reason]) :: s.log }
  else
    scheduleDrain retryAfterMs
      { s with queue := { pending with pressureReason := some reason
                                       pressureReadyAt := retryAfterMs.after (clock 0) } :: rest }

/-- The pressure check that `drain` awaits ends. -/
def resumeDrain (answer : PressureAnswer) (clock : ℕ → ℤ) (s : State) : State :=
  match s.checking with
  | none => s
  | some ticket =>
    let s := { s with checking := none }
    match s.queue with
    | [] => s
    | pending :: rest =>
      if pending.ticket ≠ ticket then drainFrom policy hooked clock s.queue 0 s
      else
        match answer.decision with
        | none => drainFrom policy hooked clock s.queue 0 s
        | some decision =>
          if decision.ready then drainFrom policy hooked clock rest 0 (admitHead pending rest s)
          else refuse policy hooked decision clock pending rest s

variable {policy hooked}

theorem decided_of_ready {answer : PressureAnswer} {decision : PressureDecision}
    (h : answer.decision = some decision) (hready : decision.ready = true) :
    answer = .decided decision := by
  cases answer with
  | decided d => rw [Option.some.inj h]
  | interrupted => cases h
  | failed =>
    cases h
    cases hready

theorem resumeDrain_ready {decision : PressureDecision} {clock : ℕ → ℤ} {s : State}
    {pending : PendingRequest} {rest : List PendingRequest} (hqueue : s.queue = pending :: rest)
    (hcheck : s.checking = some pending.ticket) (hready : decision.ready = true) :
    resumeDrain policy hooked (.decided decision) clock s =
      drainFrom policy hooked clock rest 0 (admitHead pending rest { s with checking := none }) := by
  simp [resumeDrain, hcheck, hqueue, PressureAnswer.decision, hready]

/-- The end of a check keeps what the loop keeps, if what it does to the head of the queue does:
the head is left for the loop, admitted, rejected or told to wait. -/
theorem resumeDrain_keeps {P : State → Prop} {answer : PressureAnswer} {clock : ℕ → ℤ} {s : State}
    (hloop : ∀ {clock queue n s}, s.queue = queue → s.checking = none → P s →
      P (drainFrom policy hooked clock queue n s))
    (hs : P s) (hleave : P { s with checking := none })
    (hadmitted : ∀ pending rest decision, s.queue = pending :: rest →
      s.checking = some pending.ticket → answer = .decided decision → decision.ready = true →
      P (admitHead pending rest { s with checking := none }))
    (hreject : ∀ pending rest error, s.queue = pending :: rest →
      P { s with checking := none, queue := rest, log := .rejected pending.ticket error :: s.log })
    (hretry : ∀ pending rest reason readyAt timer, s.queue = pending :: rest →
      P { s with checking := none, wakeTimer := timer
                 queue := { pending with pressureReason := reason
                                         pressureReadyAt := readyAt } :: rest }) :
    P (resumeDrain policy hooked answer clock s) := by
  unfold resumeDrain
  cases hcheck : s.checking with
  | none => exact hs
  | some ticket =>
    dsimp only
    cases hqueue : s.queue with
    | nil =>
      rw [hqueue] at hleave
      exact hleave
    | cons pending rest =>
      rw [hqueue] at hleave
      dsimp only
      split_ifs with hother
      · exact hloop rfl rfl hleave
      · cases hdecision : answer.decision with
        | none => exact hloop rfl rfl hleave
        | some decision =>
          dsimp only
          split_ifs with hready
          · have hdecided := decided_of_ready hdecision hready
            have hticket : s.checking = some pending.ticket := by
              rw [hcheck, not_not.1 hother]
            exact hloop rfl rfl (hadmitted pending rest decision hqueue hticket hdecided hready)
          · unfold refuse
            dsimp only
            split_ifs
            · exact hloop rfl rfl (hreject pending rest _ hqueue)
            · unfold scheduleDrain
              split_ifs
              · exact hretry pending rest _ _ s.wakeTimer hqueue
              · exact hretry pending rest _ _ _ hqueue

variable (policy hooked)

/-! ## Calls -/

/-- The id is active or queued. -/
def knownId (id : String) (s : State) : Bool :=
  s.active.any (·.id = id) || s.queue.any (·.request.id = id)

theorem setActive_of_unknown {request : AdmissionRequest} {s : State}
    (h : knownId request.id s = false) : setActive request s.active = s.active ++ [request] := by
  have hactive : s.active.any (·.id = request.id) = false := (Bool.or_eq_false_iff.1 h).1
  rw [setActive, if_neg (by simp [hactive])]

def alreadyKnown (id : String) : SchedulerError :=
  .failure ("Admission ID " ++ id ++ " is already active or queued")

/-- `acquire`: the ticket of the request, or the error it is rejected with. -/
def acquire (request : AdmissionRequest) (aborted : Bool) (clock : ℕ → ℤ) (s : State) :
    Except SchedulerError ℕ × State :=
  match validateRequest request with
  | .error e => (.error e, s)
  | .ok () =>
    let blocked := blockedBy policy s.active request
    if aborted then (.error (.cancelled s.queue.length), s)
    else if knownId request.id s then (.error (alreadyKnown request.id), s)
    else if policy.overload = .reject ∧ (s.queue.length > 0 ∨ blocked.length > 0) then
      (.error (.overloaded s.queue.length blocked), s)
    else if s.queue.length ≥ policy.maxQueued ∧ (s.queue.length > 0 ∨ blocked.length > 0) then
      (.error (.overloaded s.queue.length blocked), s)
    else
      (.ok s.nextTicket, drain policy hooked clock
        { s with queue := s.queue ++ [{ ticket := s.nextTicket, request := request }]
                 nextTicket := s.nextTicket + 1 })

theorem acquire_cases (request : AdmissionRequest) (aborted : Bool) (clock : ℕ → ℤ) (s : State) :
    (acquire policy hooked request aborted clock s).2 = s ∨
      knownId request.id s = false ∧ (s.queue = [] ∨ s.queue.length < policy.maxQueued) ∧
        (acquire policy hooked request aborted clock s).2 = drain policy hooked clock
          { s with queue := s.queue ++ [{ ticket := s.nextTicket, request := request }]
                   nextTicket := s.nextTicket + 1 } := by
  unfold acquire
  cases validateRequest request with
  | error e => exact .inl rfl
  | ok _ =>
    dsimp only
    split_ifs with haborted hknown hreject hqueued
    · exact .inl rfl
    · exact .inl rfl
    · exact .inl rfl
    · exact .inl rfl
    · refine .inr ⟨Bool.eq_false_iff.2 hknown, ?_, rfl⟩
      by_contra hfull
      obtain ⟨hne, hlen⟩ := not_or.1 hfull
      exact hqueued ⟨not_lt.1 hlen, .inl (List.length_pos_iff.2 hne)⟩

variable {policy hooked} in
theorem acquire_error {request : AdmissionRequest} {aborted : Bool} {clock : ℕ → ℤ}
    {s s' : State} {e : SchedulerError}
    (h : acquire policy hooked request aborted clock s = (.error e, s')) : s' = s := by
  unfold acquire at h
  split at h
  · exact (Prod.mk.inj h).2.symm
  · dsimp only at h
    split_ifs at h
    · exact (Prod.mk.inj h).2.symm
    · exact (Prod.mk.inj h).2.symm
    · exact (Prod.mk.inj h).2.symm
    · exact (Prod.mk.inj h).2.symm
    · cases (Prod.mk.inj h).1

variable {policy hooked} in
theorem acquire_ok {request : AdmissionRequest} {aborted : Bool} {clock : ℕ → ℤ} {s s' : State}
    {ticket : ℕ} (h : acquire policy hooked request aborted clock s = (.ok ticket, s')) :
    knownId request.id s = false ∧ ticket = s.nextTicket ∧ s' = drain policy hooked clock
      { s with queue := s.queue ++ [{ ticket := s.nextTicket, request := request }]
               nextTicket := s.nextTicket + 1 } := by
  unfold acquire at h
  split at h
  · cases (Prod.mk.inj h).1
  · dsimp only at h
    split_ifs at h with haborted hknown hreject hfull
    · cases (Prod.mk.inj h).1
    · cases (Prod.mk.inj h).1
    · cases (Prod.mk.inj h).1
    · cases (Prod.mk.inj h).1
    · obtain ⟨hticket, hstate⟩ := Prod.mk.inj h
      exact ⟨Bool.eq_false_iff.2 hknown, (Except.ok.inj hticket).symm, hstate.symm⟩

/-- `acquireExisting`: the permit, or the error it throws. -/
def acquireExisting (request : AdmissionRequest) (s : State) : Except SchedulerError ℕ × State :=
  match validateRequest request with
  | .error e => (.error e, s)
  | .ok () =>
    if knownId request.id s then (.error (alreadyKnown request.id), s)
    else
      (.ok s.permits.length,
        activate { request with abortable := false }
          { s with log := .existing request.id :: s.log })

theorem acquireExisting_cases (request : AdmissionRequest) (s : State) :
    (acquireExisting request s).2 = s ∨
      knownId request.id s = false ∧
        (acquireExisting request s).2 = activate { request with abortable := false }
          { s with log := .existing request.id :: s.log } := by
  unfold acquireExisting
  cases validateRequest request with
  | error e => exact .inl rfl
  | ok _ =>
    dsimp only
    split_ifs with hknown
    · exact .inl rfl
    · exact .inr ⟨Bool.eq_false_iff.2 hknown, rfl⟩

theorem acquireExisting_ok {request : AdmissionRequest} {s s' : State} {permit : ℕ}
    (h : acquireExisting request s = (.ok permit, s')) :
    knownId request.id s = false ∧ permit = s.permits.length ∧
      s' = activate { request with abortable := false }
        { s with log := .existing request.id :: s.log } := by
  unfold acquireExisting at h
  split at h
  · cases (Prod.mk.inj h).1
  · split_ifs at h with hknown
    · cases (Prod.mk.inj h).1
    · obtain ⟨hpermit, hstate⟩ := Prod.mk.inj h
      exact ⟨Bool.eq_false_iff.2 hknown, (Except.ok.inj hpermit).symm, hstate.symm⟩

/-- A call of the release function of a permit. -/
def release (permit : ℕ) (clock : ℕ → ℤ) (s : State) : State :=
  match s.permits[permit]? with
  | some (id, false) =>
    drain policy hooked clock
      { s with permits := s.permits.set permit (id, true)
               active := s.active.filter fun r => r.id ≠ id }
  | _ => s

theorem release_cases (permit : ℕ) (clock : ℕ → ℤ) (s : State) :
    release policy hooked permit clock s = s ∨
      ∃ id, s.permits[permit]? = some (id, false) ∧
        release policy hooked permit clock s = drain policy hooked clock
          { s with permits := s.permits.set permit (id, true)
                   active := s.active.filter fun r => r.id ≠ id } := by
  unfold release
  split
  · rename_i id hpermit
    exact .inr ⟨id, hpermit, rfl⟩
  · exact .inl rfl

/-- The listener of a pending request is called; requests that left the queue have none. -/
def abort (ticket : ℕ) (clock : ℕ → ℤ) (s : State) : State :=
  if s.queue.any fun p => p.ticket = ticket && p.request.abortable then
    let queue := s.queue.filter fun p => p.ticket ≠ ticket
    drain policy hooked clock
      { s with queue := queue, wakeTimer := none
               log := .rejected ticket (.cancelled queue.length) :: s.log }
  else s

/-- The wake timer fires. -/
def wake (clock : ℕ → ℤ) (s : State) : State :=
  if s.wakeTimer.isSome then drain policy hooked clock { s with wakeTimer := none } else s

/-! ## The machine -/

inductive Act where
  | acquire (request : AdmissionRequest) (aborted : Bool)
  | acquireExisting (request : AdmissionRequest)
  | release (permit : ℕ)
  /-- The listener of one request is called. -/
  | abort (ticket : ℕ)
  | answer (answer : PressureAnswer)
  | wake
  deriving DecidableEq

/-- One call, answer or timer, with the readings of the clock during it. -/
def step (s : State) (i : Act × (ℕ → ℤ)) : State :=
  match i.1 with
  | .acquire request aborted => (Scheduler.acquire policy hooked request aborted i.2 s).2
  | .acquireExisting request => (Scheduler.acquireExisting request s).2
  | .release permit => Scheduler.release policy hooked permit i.2 s
  | .abort ticket => Scheduler.abort policy hooked ticket i.2 s
  | .answer answer => resumeDrain policy hooked answer i.2 s
  | .wake => Scheduler.wake policy hooked i.2 s

end AgentOrchestrator.Scheduler
