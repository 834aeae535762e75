import AgentOrchestrator.Adapter.EarlyRelease
import Mathlib.Algebra.Order.Ring.Cast

/-!
# The adapter between calls

When every call of the adapter has completed, nothing is queued at the scheduler and nothing is
checked (`idleScheduler_of_completed`).  What an idle scheduler does with one request is decided by
the request, the limits, the clock and the hooks (`accepted_iff`, `granted_iff`).
-/

namespace AgentOrchestrator.Limited

open Scheduler Runs

variable {policy : ConcurrencyPolicy} {hooked : Bool} {s s' : State}

/-! ## An idle scheduler -/

/-- Nothing is queued, and nothing is checked. -/
structure IdleScheduler (s : Scheduler.State) : Prop where
  queue : s.queue = []
  checking : s.checking = none

section Idle

variable {sched : Scheduler.State} {request : AdmissionRequest} {clock clock' : ℕ → ℤ}
  {answer : PressureAnswer}

/-- The request at the end of an empty queue. -/
def onlyRequest (request : AdmissionRequest) (sched : Scheduler.State) : Scheduler.State :=
  { sched with queue := [{ ticket := sched.nextTicket, request := request }]
               nextTicket := sched.nextTicket + 1 }

theorem active_iff_known (hidle : IdleScheduler sched) (id : String) :
    knownId id sched = true ↔ Active sched id := by
  rw [knownId, hidle.queue]
  simp [Active]

theorem acquire_invalid (h : validateRequest request ≠ .ok ()) :
    ∃ error, acquire policy hooked request false clock sched = (.error error, sched) := by
  unfold acquire
  cases hvalid : validateRequest request with
  | error e => exact ⟨e, rfl⟩
  | ok u => exact absurd hvalid h

theorem acquire_known (h : knownId request.id sched = true) :
    ∃ error, acquire policy hooked request false clock sched = (.error error, sched) := by
  unfold acquire
  cases validateRequest request with
  | error e => exact ⟨e, rfl⟩
  | ok u => exact ⟨alreadyKnown request.id, by simp [h]⟩

/-- A request that nothing blocks is not refused by an idle scheduler. -/
theorem acquire_idle (hidle : IdleScheduler sched) (hvalid : validateRequest request = .ok ())
    (hnew : knownId request.id sched = false)
    (hfree : blockedBy policy sched.active request = []) :
    acquire policy hooked request false clock sched =
      (.ok sched.nextTicket, drain policy hooked clock (onlyRequest request sched)) := by
  unfold acquire onlyRequest
  rw [hvalid]
  simp [hnew, hfree, hidle.queue]

/-- A request that is blocked is refused, or it waits. -/
theorem acquire_blocked (hidle : IdleScheduler sched)
    (hblocked : blockedBy policy sched.active request ≠ []) {ticket : ℕ} {after : Scheduler.State}
    (h : acquire policy hooked request false clock sched = (.ok ticket, after)) :
    ticket = sched.nextTicket ∧ after.checking = none ∧ after.log = sched.log := by
  obtain ⟨-, hticket, hafter⟩ := acquire_ok h
  have hdrain : after = onlyRequest request sched := by
    rw [hafter, hidle.queue, drain, if_neg (by simp [hidle.checking])]
    show drainFrom policy hooked clock [_] 0 _ = _
    rw [drainFrom, if_pos hblocked]
    rfl
  rw [hdrain]
  exact ⟨hticket, hidle.checking, rfl⟩

/-- The scheduler refuses what it cannot grant instead of letting it wait. -/
def Refusing (policy : ConcurrencyPolicy) : Prop := policy.overload = .reject ∨ policy.maxQueued = 0

/-- An idle scheduler takes a request exactly when it is well formed, its id is not active, and it
may wait or does not have to. -/
theorem accepted_iff (hidle : IdleScheduler sched) :
    (∃ ticket, (acquire policy hooked request false clock sched).1 = .ok ticket) ↔
      validateRequest request = .ok () ∧ ¬ Active sched request.id ∧
        (Refusing policy → blockedBy policy sched.active request = []) := by
  rw [← active_iff_known hidle]
  unfold acquire Refusing
  cases hvalid : validateRequest request with
  | error e => simp
  | ok u =>
    dsimp only
    rw [hidle.queue]
    by_cases hknown : knownId request.id sched = true
    · simp [hknown]
    · by_cases hfree : blockedBy policy sched.active request = []
      · simp [hknown, hfree]
      · have hlength : 0 < (blockedBy policy sched.active request).length :=
          List.length_pos_iff.2 hfree
        by_cases hreject : policy.overload = .reject
        · simp [hknown, hfree, hreject, hlength]
        · by_cases hnone : policy.maxQueued = 0
          · simp [hknown, hfree, hreject, hnone, hlength]
          · simp [hknown, hreject, hnone]

/-- The loop at the only request, which nothing blocks. -/
theorem drain_onlyRequest (hidle : IdleScheduler sched)
    (hfree : blockedBy policy sched.active request = []) :
    drain policy hooked clock (onlyRequest request sched) =
      if clock 0 < 0 then scheduleDrain (.finite (0 - clock 0)) (onlyRequest request sched)
      else if hooked then
        { onlyRequest request sched with
          checking := some sched.nextTicket
          log := .checked sched.nextTicket :: sched.log }
      else admitHead { ticket := sched.nextTicket, request := request } []
        (onlyRequest request sched) := by
  have hpositive : (Millis.since (clock 0) (.finite 0)).positive = true ↔ clock 0 < 0 := by
    simp only [Millis.since, Millis.positive, zero_sub, decide_eq_true_eq, Left.neg_pos_iff]
    exact Int.cast_lt_zero
  rw [drain, if_neg (by simp [onlyRequest, hidle.checking])]
  show drainFrom policy hooked clock [_] 0 _ = _
  have hfree : ¬ blockedBy policy (onlyRequest request sched).active request ≠ [] := not_not.2 hfree
  rw [drainFrom]
  dsimp only
  rw [if_neg hfree]
  by_cases hclock : clock 0 < 0
  · rw [if_pos (hpositive.2 hclock), if_pos hclock]
    rfl
  · rw [if_neg (fun h => hclock (hpositive.1 h)), if_neg hclock]
    cases hooked with
    | true => rfl
    | false => rfl

/-- The scheduler grants a request on the spot: the request is well formed, its id is not active,
no limit blocks it, the clock is not before the first of its readings, and the hooks are ready. -/
structure Grants (policy : ConcurrencyPolicy) (hooked : Bool) (request : AdmissionRequest)
    (answer : PressureAnswer) (clock : ℕ → ℤ) (sched : Scheduler.State) : Prop where
  valid : validateRequest request = .ok ()
  inactive : ¬ Active sched request.id
  unblocked : blockedBy policy sched.active request = []
  clock : 0 ≤ clock 0
  ready : hooked = true → ∃ decision, answer = .decided decision ∧ decision.ready = true

theorem resumeDrain_idle (h : sched.checking = none) :
    resumeDrain policy hooked answer clock sched = sched := by
  unfold resumeDrain
  rw [h]

theorem scheduleDrain_log (delay : Millis) (sched : Scheduler.State) :
    (scheduleDrain delay sched).log = sched.log := by
  unfold scheduleDrain
  split_ifs <;> rfl

theorem scheduleDrain_checking (delay : Millis) (sched : Scheduler.State) :
    (scheduleDrain delay sched).checking = sched.checking := by
  unfold scheduleDrain
  split_ifs <;> rfl

/-- A loop with hooks admits nothing by itself. -/
theorem settlement_drainFrom_hooked {queue : List PendingRequest} {n : ℕ} {t : ℕ} :
    settlement t (drainFrom policy true clock queue n sched).log = settlement t sched.log := by
  cases queue with
  | nil => rfl
  | cons pending rest =>
    rw [drainFrom]
    split_ifs with hblocked hwait hhook
    · rfl
    · rw [scheduleDrain_log]
    · rfl
    · exact absurd rfl hhook

/-- The check of the only request grants it exactly when it ends with `ready`. -/
theorem settlement_resume (hfresh : settlement sched.nextTicket sched.log = none)
    (checked : Scheduler.State)
    (hchecked : checked = { onlyRequest request sched with
      checking := some sched.nextTicket
      log := .checked sched.nextTicket :: sched.log }) :
    (∃ permit, settlement sched.nextTicket (resumeDrain policy true answer clock checked).log =
      some (.ok permit)) ↔ ∃ decision, answer = .decided decision ∧ decision.ready = true := by
  have hqueue : checked.queue = [{ ticket := sched.nextTicket, request := request }] := by
    rw [hchecked]
    rfl
  have hchecking : checked.checking = some sched.nextTicket := by rw [hchecked]
  have hlog : settlement sched.nextTicket checked.log = none := by
    rw [hchecked]
    exact hfresh
  constructor
  · rintro ⟨permit, hpermit⟩
    unfold resumeDrain at hpermit
    rw [hchecking] at hpermit
    dsimp only at hpermit
    rw [hqueue] at hpermit
    dsimp only at hpermit
    rw [if_neg (fun h => h rfl)] at hpermit
    cases hdecision : answer.decision with
    | none =>
      rw [hdecision] at hpermit
      dsimp only at hpermit
      rw [settlement_drainFrom_hooked] at hpermit
      exact absurd (hlog.symm.trans hpermit) (by simp)
    | some decision =>
      rw [hdecision] at hpermit
      dsimp only at hpermit
      by_cases hready : decision.ready = true
      · exact ⟨decision, decided_of_ready hdecision hready, hready⟩
      · rw [if_neg hready] at hpermit
        unfold refuse at hpermit
        dsimp only at hpermit
        split_ifs at hpermit
        · rw [settlement_drainFrom_hooked, settlement, if_pos rfl] at hpermit
          cases Option.some.inj hpermit
        · rw [scheduleDrain_log] at hpermit
          exact absurd (hlog.symm.trans hpermit) (by simp)
  · rintro ⟨decision, rfl, hready⟩
    rw [resumeDrain_ready hqueue hchecking hready]
    refine ⟨checked.log.countP Event.grants, ?_⟩
    show settlement sched.nextTicket (.admitted sched.nextTicket request checked.active ::
      checked.log) = _
    rw [settlement, if_pos rfl]

/-- **When an idle scheduler grants a request.** -/
theorem granted_iff (hidle : IdleScheduler sched)
    (hfresh : settlement sched.nextTicket sched.log = none) :
    (∃ ticket permit, (acquire policy hooked request false clock sched).1 = .ok ticket ∧
      settlement ticket (resumeDrain policy hooked answer clock'
        (acquire policy hooked request false clock sched).2).log = some (.ok permit)) ↔
      Grants policy hooked request answer clock sched := by
  by_cases hvalid : validateRequest request = .ok ()
  swap
  · obtain ⟨error, herror⟩ := @acquire_invalid policy hooked sched request clock hvalid
    rw [herror]
    refine iff_of_false ?_ (fun h => hvalid h.valid)
    rintro ⟨ticket, permit, h, -⟩
    cases h
  by_cases hknown : knownId request.id sched = true
  · obtain ⟨error, herror⟩ := @acquire_known policy hooked sched request clock hknown
    rw [herror]
    refine iff_of_false ?_ (fun h => h.inactive ((active_iff_known hidle _).1 hknown))
    rintro ⟨ticket, permit, h, -⟩
    cases h
  have hinactive : ¬ Active sched request.id := fun h => hknown ((active_iff_known hidle _).2 h)
  by_cases hfree : blockedBy policy sched.active request = []
  swap
  · refine iff_of_false ?_ (fun h => hfree h.unblocked)
    rintro ⟨ticket, permit, hticket, hpermit⟩
    have hcall : acquire policy hooked request false clock sched =
        (.ok ticket, (acquire policy hooked request false clock sched).2) := by rw [← hticket]
    obtain ⟨rfl, hchecking, hlog⟩ := acquire_blocked hidle hfree hcall
    rw [resumeDrain_idle hchecking, hlog, hfresh] at hpermit
    cases hpermit
  rw [acquire_idle hidle hvalid (Bool.eq_false_iff.2 hknown) hfree, drain_onlyRequest hidle hfree]
  by_cases hclock : clock 0 < 0
  · rw [if_pos hclock]
    refine iff_of_false ?_ (fun h => absurd h.clock (not_le.2 hclock))
    rintro ⟨ticket, permit, hticket, hpermit⟩
    cases hticket
    rw [resumeDrain_idle (by rw [scheduleDrain_checking]; exact hidle.checking),
      scheduleDrain_log] at hpermit
    exact absurd (hfresh.symm.trans hpermit) (by simp)
  rw [if_neg hclock]
  cases hooked with
  | false =>
    refine iff_of_true ⟨sched.nextTicket, sched.log.countP Event.grants, rfl, ?_⟩
      ⟨hvalid, hinactive, hfree, not_lt.1 hclock, by simp⟩
    rw [if_neg (by simp), resumeDrain_idle (by exact hidle.checking)]
    show settlement sched.nextTicket (.admitted sched.nextTicket request sched.active ::
      sched.log) = _
    rw [settlement, if_pos rfl]
  | true =>
    have hresume := @settlement_resume policy sched request clock' answer hfresh _ rfl
    rw [if_pos rfl]
    constructor
    · rintro ⟨ticket, permit, hticket, hpermit⟩
      cases hticket
      exact ⟨hvalid, hinactive, hfree, not_lt.1 hclock, fun _ => hresume.1 ⟨permit, hpermit⟩⟩
    · intro h
      obtain ⟨permit, hpermit⟩ := hresume.2 (h.ready rfl)
      exact ⟨sched.nextTicket, permit, rfl, hpermit⟩

end Idle

/-! ## Calls that have completed -/

/-- The scheduler checks the head of its queue. -/
def Heads (sched : Scheduler.State) : Prop := sched.checking.isSome = true → sched.queue ≠ []

theorem heads_of_idle {sched : Scheduler.State} (h : sched.checking = none) : Heads sched := by
  intro hchecking
  rw [h] at hchecking
  cases hchecking

theorem heads_drainFrom {sched : Scheduler.State} {clock : ℕ → ℤ} {queue : List PendingRequest}
    {n : ℕ} (hqueue : sched.queue = queue) (hidle : sched.checking = none) (h : Heads sched) :
    Heads (drainFrom policy hooked clock queue n sched) := by
  refine drainFrom_keeps (P := Heads) ?_ ?_ ?_ hqueue hidle h
  · intro sched pending rest _ hidle _ _
    exact heads_of_idle hidle
  · intro sched pending rest hqueue _ _ _ _
    show sched.queue ≠ []
    rw [hqueue]
    exact List.cons_ne_nil _ _
  · intro sched timer h
    exact h

theorem heads_drain {sched : Scheduler.State} (clock : ℕ → ℤ) (h : Heads sched) :
    Heads (drain policy hooked clock sched) := drain_keeps (P := Heads) heads_drainFrom h

theorem heads_acquire {sched : Scheduler.State} (request : AdmissionRequest) (aborted : Bool)
    (clock : ℕ → ℤ) (h : Heads sched) :
    Heads (acquire policy hooked request aborted clock sched).2 := by
  rcases acquire_cases policy hooked request aborted clock sched with hsame | ⟨-, -, hdrain⟩
  · rw [hsame]
    exact h
  · rw [hdrain]
    refine heads_drain clock ?_
    intro _
    show sched.queue ++ _ ≠ []
    simp

theorem heads_acquireExisting {sched : Scheduler.State} (request : AdmissionRequest)
    (h : Heads sched) : Heads (acquireExisting request sched).2 := by
  rcases acquireExisting_cases request sched with hsame | ⟨-, hactive⟩
  · rw [hsame]
    exact h
  · rw [hactive]
    exact h

theorem heads_release {sched : Scheduler.State} (permit : ℕ) (clock : ℕ → ℤ) (h : Heads sched) :
    Heads (release policy hooked permit clock sched) := by
  rcases release_cases policy hooked permit clock sched with hsame | ⟨id, -, hdrain⟩
  · rw [hsame]
    exact h
  · rw [hdrain]
    exact heads_drain clock h

theorem heads_resumeDrain {sched : Scheduler.State} (answer : PressureAnswer) (clock : ℕ → ℤ)
    (h : Heads sched) : Heads (resumeDrain policy hooked answer clock sched) :=
  resumeDrain_keeps (P := Heads) heads_drainFrom h (heads_of_idle rfl)
    (fun _ _ _ _ _ _ _ => heads_of_idle rfl) (fun _ _ _ _ => heads_of_idle rfl)
    (fun _ _ _ _ _ _ => heads_of_idle rfl)

/-! ### What a step keeps of the scheduler -/

theorem keeps_callRelease? {P : Scheduler.State → Prop}
    (hrelease : ∀ permit clock sched, P sched → P (release policy hooked permit clock sched))
    (permit : Option ℕ) (clock : ℕ → ℤ) (h : P s.scheduler) :
    P (callRelease? policy hooked permit clock s).scheduler := by
  cases permit with
  | none => exact h
  | some permit => exact hrelease permit clock _ h

theorem keeps_releaseRun {P : Scheduler.State → Prop}
    (hrelease : ∀ permit clock sched, P sched → P (release policy hooked permit clock sched))
    (runId : String) (clock : ℕ → ℤ) (h : P s.scheduler) :
    P (releaseRun policy hooked runId clock s).scheduler := by
  unfold releaseRun
  cases s.releases runId with
  | none => exact h
  | some permit => exact hrelease permit.release clock _ h

theorem keeps_lookedUp {P : Scheduler.State → Prop}
    (hrelease : ∀ permit clock sched, P sched → P (release policy hooked permit clock sched))
    (c : ℕ) (key : String) (u : Option ℕ) (rr : Option String) (rp : Option HeldPermit)
    (rec : Option ℕ) (answer : LookupAnswer) (clock : ℕ → ℕ → ℤ) (h : P s.scheduler) :
    P (lookedUp policy hooked c key u rr rp rec answer clock s).scheduler := by
  cases answer with
  | failed => cases rec <;> exact h
  | absent =>
    have hboth : P (callRelease? policy hooked rec (clock 1)
        (callRelease? policy hooked u (clock 0) s)).scheduler :=
      keeps_callRelease? hrelease rec (clock 1) (keeps_callRelease? hrelease u (clock 0) h)
    cases rr with
    | none => exact hboth
    | some r => exact keeps_releaseRun hrelease r (clock 2) hboth
  | found r =>
    unfold lookedUp
    cases u with
    | some p =>
      dsimp only [foundLaunch]
      cases s.releases r with
      | some existing =>
        dsimp only
        split_ifs
        · exact h
        · exact hrelease p (clock 0) _ h
      | none => exact h
    | none =>
      dsimp only
      cases s.releases r with
      | some existing => exact keeps_callRelease? hrelease rec (clock 0) h
      | none =>
        dsimp only
        split_ifs
        · exact h
        · unfold foundRun
          cases rec with
          | none => exact h
          | some p =>
            dsimp only
            split_ifs
            · exact hrelease p (clock 0) _ h
            · exact h

/-- What the operations of the scheduler keep, every step of the adapter keeps. -/
theorem keeps_step {P : Scheduler.State → Prop}
    (hacquire : ∀ request clock sched, P sched →
      P (acquire policy hooked request false clock sched).2)
    (hexisting : ∀ request sched, P sched → P (acquireExisting request sched).2)
    (hrelease : ∀ permit clock sched, P sched → P (release policy hooked permit clock sched))
    (hresume : ∀ answer clock sched, P sched → P (resumeDrain policy hooked answer clock sched))
    (hwake : ∀ clock sched, P sched → P (Scheduler.wake policy hooked clock sched))
    (i : Act × (ℕ → ℕ → ℤ)) (h : P s.scheduler) : P (step policy hooked s i).scheduler := by
  obtain ⟨act, clock⟩ := i
  cases act with
  | launch c key scope =>
    dsimp only [step]
    split
    · unfold launch
      cases scope with
      | none => exact h
      | some scope =>
        dsimp only
        have hkept := hacquire ⟨scope, key, false⟩ (clock 0) s.scheduler h
        split
        · rename_i hcall
          rw [hcall] at hkept
          exact hkept
        · rename_i hcall
          rw [hcall] at hkept
          exact hkept
    · exact h
  | findByIdempotencyKey c key scope =>
    dsimp only [step]
    split
    · unfold findByIdempotencyKey
      split_ifs
      · exact h
      dsimp only
      split_ifs
      · cases scope with
        | none => exact h
        | some scope =>
          dsimp only
          have hkept := hexisting ⟨scope, key, false⟩ s.scheduler h
          split
          · exact h
          · rename_i hcall
            rw [hcall] at hkept
            exact hkept
      · exact h
    · exact h
  | acquired c =>
    dsimp only [step]
    split
    · unfold acquired
      split <;> exact h
    · exact h
  | launched c answer =>
    dsimp only [step]
    split
    · unfold launched
      split
      · exact h
      · split
        · split_ifs
          · exact h
          · exact hrelease _ (clock 0) _ h
        · exact h
    · exact h
  | lookedUp c answer =>
    dsimp only [step]
    split
    · exact keeps_lookedUp hrelease _ _ _ _ _ _ answer clock h
    · exact h
  | inspected c answer =>
    dsimp only [step]
    split
    · unfold inspected
      cases answer with
      | none => exact h
      | some state =>
        dsimp only
        split_ifs
        · exact h
        · exact keeps_releaseRun hrelease _ (clock 0) h
        · exact h
    · exact h
  | finished c =>
    dsimp only [step]
    split
    · rename_i recovering _
      cases recovering <;> exact h
    · exact h
  | forget key =>
    dsimp only [step]
    split_ifs <;> exact h
  | status runId answer =>
    dsimp only [step, status]
    split
    · exact h
    · split_ifs
      · exact h
      · refine keeps_releaseRun hrelease runId (clock 0) ?_
        unfold markTerminalDuringRecovery
        split_ifs <;> exact h
      · exact h
  | result runId answer =>
    dsimp only [step, result]
    split_ifs
    · refine keeps_releaseRun hrelease runId (clock 0) ?_
      unfold markTerminalDuringRecovery
      split_ifs <;> exact h
    · exact h
  | cancel runId => exact h
  | pressure answer => exact hresume answer (clock 0) _ h
  | wake => exact hwake (clock 0) _ h

theorem heads_run (l : List (Act × (ℕ → ℕ → ℤ))) :
    Heads (run (step policy hooked) {} l).scheduler := by
  refine run_invariant (step policy hooked) (P := fun s => Heads s.scheduler) ?_ ?_ l
  · intro s i h
    refine keeps_step (fun request clock _ => heads_acquire request false clock)
      (fun request _ => heads_acquireExisting request)
      (fun permit clock _ => heads_release permit clock)
      (fun answer clock _ => heads_resumeDrain answer clock) ?_ i h
    intro clock sched h
    unfold Scheduler.wake
    split_ifs
    · exact heads_drain clock h
    · exact h
  · exact heads_of_idle rfl

/-- When no call is pending, neither is a request. -/
theorem idleScheduler_of_completed {l : List (Act × (ℕ → ℕ → ℤ))}
    (hcompleted : ∀ c, (run (step policy hooked) {} l).calls c = none) :
    IdleScheduler (run (step policy hooked) {} l).scheduler := by
  have hqueue : (run (step policy hooked) {} l).scheduler.queue = [] := by
    refine List.eq_nil_iff_forall_not_mem.2 ?_
    intro q hq
    obtain ⟨c, hc⟩ := (sound_run l).wired.queued q hq
    rw [hcompleted c] at hc
    cases hc
  refine ⟨hqueue, ?_⟩
  by_contra hchecking
  exact heads_run l (Option.isSome_iff_ne_none.2 hchecking) hqueue

end AgentOrchestrator.Limited
