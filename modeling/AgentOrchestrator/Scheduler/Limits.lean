import AgentOrchestrator.Scheduler.Model

/-!
# Limits at admission

`drain` looks at the limits before it awaits the pressure check of its head, and admits the head
after it.  While it awaits, nothing but `acquireExisting` counts a request, and that call does not
look at the limits.  So an admission finds a limit full exactly when a permit that
`acquireExisting` gave out during the check stands in a full scope of the head.
-/

namespace AgentOrchestrator.Scheduler

open Runs

variable (policy : ConcurrencyPolicy) (hooked : Bool)

/-- An admission that found room under every limit; other events are not admissions. -/
def Event.WithinLimits : Event → Prop
  | .admitted _ request before => blockedBy policy before request = []
  | _ => True

instance : DecidablePred (Event.WithinLimits policy)
  | .admitted _ request before => inferInstanceAs (Decidable (blockedBy policy before request = []))
  | .checked _ => inferInstanceAs (Decidable True)
  | .existing _ => inferInstanceAs (Decidable True)
  | .rejected _ _ => inferInstanceAs (Decidable True)

/-- Every admission so far found room under every limit. -/
def LimitsHold (s : State) : Prop := ∀ event ∈ s.log, event.WithinLimits policy

instance : DecidablePred (LimitsHold policy) :=
  fun s => inferInstanceAs (Decidable (∀ event ∈ s.log, event.WithinLimits policy))

/-- The ids `acquireExisting` counted since the last check began. -/
def recovered : List Event → List String
  | [] => []
  | .checked _ :: _ => []
  | .existing id :: log => id :: recovered log
  | _ :: log => recovered log

/-- The head of the queue is being checked, and a permit that `acquireExisting` gave out since the
check began is still active in a scope of the head that is full. -/
def Crowded (s : State) : Prop :=
  ∃ pending rest, s.queue = pending :: rest ∧ s.checking = some pending.ticket ∧
    ∃ limit ∈ limits policy pending.request, limit.full s.active = true ∧
      ∃ r ∈ s.active, r.id ∈ recovered s.log ∧ limit.counts r = true

/-- A check that ends with `ready` does not end on a crowded head. -/
def Uncrowded (s : State) (i : Act × (ℕ → ℤ)) : Prop :=
  ∀ decision, i.1 = .answer (.decided decision) → decision.ready = true → ¬ Crowded policy s

/-! ## The check stays valid for what it saw -/

/-- The active requests that no `acquireExisting` counted during the check. -/
def earlier (s : State) : List AdmissionRequest :=
  s.active.filter fun r => r.id ∉ recovered s.log

/-- Tickets are given out in order, and the request under check has room beside the active requests
the check saw. -/
structure Checked (s : State) : Prop where
  sorted : s.queue.Pairwise fun p q => p.ticket < q.ticket
  queued : ∀ p ∈ s.queue, p.ticket < s.nextTicket
  awaited : ∀ t, s.checking = some t → t < s.nextTicket
  room : ∀ p ∈ s.queue, s.checking = some p.ticket →
    blockedBy policy (earlier s) p.request = []

variable {policy hooked} {s s' : State}

theorem Checked.of_idle (hsorted : s.queue.Pairwise fun p q => p.ticket < q.ticket)
    (hqueued : ∀ p ∈ s.queue, p.ticket < s.nextTicket) (hidle : s.checking = none) :
    Checked policy s := by
  refine ⟨hsorted, hqueued, ?_, ?_⟩
  · intro t ht
    rw [hidle] at ht
    cases ht
  · intro p _ ht
    rw [hidle] at ht
    cases ht

/-- Requests may leave the queue and the active set, and the check may end. -/
theorem Checked.shrink (hs : Checked policy s) (hqueue : s'.queue.Sublist s.queue)
    (hnext : s'.nextTicket = s.nextTicket)
    (hcheck : s'.checking = none ∨
      s'.checking = s.checking ∧ (earlier s').Sublist (earlier s)) :
    Checked policy s' := by
  have hsorted := hs.sorted.sublist hqueue
  have hqueued : ∀ p ∈ s'.queue, p.ticket < s'.nextTicket := by
    intro p hp
    rw [hnext]
    exact hs.queued p (hqueue.subset hp)
  rcases hcheck with hidle | ⟨hsame, hactive⟩
  · exact .of_idle hsorted hqueued hidle
  · refine ⟨hsorted, hqueued, ?_, ?_⟩
    · intro t ht
      rw [hnext]
      exact hs.awaited t (hsame ▸ ht)
    · intro p hp ht
      exact blockedBy_eq_nil_of_sublist hactive (hs.room p (hqueue.subset hp) (hsame ▸ ht))

theorem Checked.enqueue (hs : Checked policy s) (request : AdmissionRequest) :
    Checked policy { s with queue := s.queue ++ [{ ticket := s.nextTicket, request := request }]
                            nextTicket := s.nextTicket + 1 } := by
  refine ⟨?_, ?_, ?_, ?_⟩
  · refine List.pairwise_append.2 ⟨hs.sorted, List.pairwise_singleton _ _, ?_⟩
    intro p hp q hq
    rw [List.mem_singleton.1 hq]
    exact hs.queued p hp
  · intro p hp
    rcases List.mem_append.1 hp with hp | hp
    · exact Nat.lt_succ_of_lt (hs.queued p hp)
    · rw [List.mem_singleton.1 hp]
      exact Nat.lt_succ_self _
  · intro t ht
    exact Nat.lt_succ_of_lt (hs.awaited t ht)
  · intro p hp ht
    rcases List.mem_append.1 hp with hp | hp
    · exact hs.room p hp ht
    · -- the awaited ticket was given out before
      rw [List.mem_singleton.1 hp] at ht
      exact absurd (hs.awaited _ ht) (lt_irrefl _)

/-- A check begins on a head that nothing blocks. -/
theorem Checked.check (hs : Checked policy s) {pending : PendingRequest}
    {rest : List PendingRequest} (hqueue : s.queue = pending :: rest)
    (hroom : blockedBy policy s.active pending.request = []) :
    Checked policy
      { s with checking := some pending.ticket, log := .checked pending.ticket :: s.log } := by
  refine ⟨hs.sorted, hs.queued, ?_, ?_⟩
  · rintro t ⟨⟩
    exact hs.queued pending (by simp [hqueue])
  · intro p hp ht
    have hsorted := hs.sorted
    rw [hqueue, List.pairwise_cons] at hsorted
    have hp' : p ∈ pending :: rest := hqueue ▸ hp
    rcases List.mem_cons.1 hp' with rfl | hp'
    · exact blockedBy_eq_nil_of_sublist List.filter_sublist hroom
    · have hlt := hsorted.1 p hp'
      have heq : pending.ticket = p.ticket := Option.some.inj ht
      exact absurd heq hlt.ne

theorem Checked.drainFrom {clock : ℕ → ℤ} {queue : List PendingRequest} {n : ℕ}
    (hqueue : s.queue = queue) (hidle : s.checking = none) (hs : Checked policy s) :
    Checked policy (drainFrom policy hooked clock queue n s) := by
  refine drainFrom_keeps ?_ ?_ ?_ hqueue hidle hs
  · intro s pending rest hqueue hidle _ hs
    refine hs.shrink ?_ rfl (.inl hidle)
    rw [hqueue]
    exact List.sublist_cons_self pending rest
  · intro s pending rest hqueue _ hroom hs
    exact hs.check hqueue hroom
  · intro s timer hs
    exact hs.shrink (List.Sublist.refl _) rfl (.inr ⟨rfl, List.Sublist.refl _⟩)

theorem Checked.drain {clock : ℕ → ℤ} (hs : Checked policy s) :
    Checked policy (drain policy hooked clock s) :=
  drain_keeps Checked.drainFrom hs

/-- `acquireExisting` adds nothing to what the check saw. -/
theorem earlier_activate_sublist (request : AdmissionRequest)
    (hnew : knownId request.id s = false) :
    (earlier (activate request { s with log := .existing request.id :: s.log })).Sublist
      (earlier s) := by
  have hfilter : earlier (activate request { s with log := .existing request.id :: s.log }) =
      s.active.filter fun r => r.id ∉ request.id :: recovered s.log := by
    show (setActive request s.active).filter (fun r => r.id ∉ request.id :: recovered s.log) = _
    rw [setActive_of_unknown hnew]
    simp
  rw [hfilter]
  refine List.monotone_filter_right s.active ?_
  intro r hr
  simp only [List.mem_cons, not_or, decide_eq_true_eq] at hr ⊢
  exact hr.2

theorem Checked.resumeDrain {answer : PressureAnswer} {clock : ℕ → ℤ} (hs : Checked policy s) :
    Checked policy (resumeDrain policy hooked answer clock s) := by
  have hrest {pending rest} (hqueue : s.queue = pending :: rest) : rest.Sublist s.queue := by
    rw [hqueue]
    exact List.sublist_cons_self pending rest
  refine resumeDrain_keeps Checked.drainFrom hs ?_ ?_ ?_ ?_
  · exact hs.shrink (List.Sublist.refl _) rfl (.inl rfl)
  · intro pending rest decision hqueue _ _ _
    exact hs.shrink (hrest hqueue) rfl (.inl rfl)
  · intro pending rest error hqueue
    exact hs.shrink (hrest hqueue) rfl (.inl rfl)
  · intro pending rest reason readyAt timer hqueue
    have hsorted := hs.sorted
    have hqueued := hs.queued
    rw [hqueue] at hsorted hqueued
    refine .of_idle ?_ ?_ rfl
    · exact List.pairwise_cons.2 (List.pairwise_cons.1 hsorted)
    · exact List.forall_mem_cons.2 (List.forall_mem_cons.1 hqueued)

theorem Checked.step (hs : Checked policy s) (i : Act × (ℕ → ℤ)) :
    Checked policy (step policy hooked s i) := by
  obtain ⟨act, clock⟩ := i
  cases act with
  | acquire request aborted =>
    show Checked policy (acquire policy hooked request aborted clock s).2
    rcases acquire_cases policy hooked request aborted clock s with h | ⟨-, -, h⟩
    · rwa [h]
    · rw [h]
      exact (hs.enqueue request).drain
  | acquireExisting request =>
    show Checked policy (acquireExisting request s).2
    rcases acquireExisting_cases request s with h | ⟨hnew, h⟩
    · rwa [h]
    · rw [h]
      refine hs.shrink (List.Sublist.refl _) rfl (.inr ⟨rfl, ?_⟩)
      exact earlier_activate_sublist { request with abortable := false } hnew
  | release permit =>
    show Checked policy (release policy hooked permit clock s)
    rcases release_cases policy hooked permit clock s with h | ⟨id, -, h⟩
    · rwa [h]
    · rw [h]
      apply Checked.drain
      refine hs.shrink (List.Sublist.refl _) rfl (.inr ⟨rfl, ?_⟩)
      exact List.filter_sublist.filter _
  | abort ticket =>
    show Checked policy (abort policy hooked ticket clock s)
    unfold Scheduler.abort
    split_ifs
    · apply Checked.drain
      exact hs.shrink List.filter_sublist rfl (.inr ⟨rfl, List.Sublist.refl _⟩)
    · exact hs
  | answer answer => exact hs.resumeDrain
  | wake =>
    show Checked policy (wake policy hooked clock s)
    unfold Scheduler.wake
    split_ifs
    · apply Checked.drain
      exact hs.shrink (List.Sublist.refl _) rfl (.inr ⟨rfl, List.Sublist.refl _⟩)
    · exact hs

/-! ## Admissions -/

theorem limitsHold_of_log_eq (h : s'.log = s.log) : LimitsHold policy s' ↔ LimitsHold policy s := by
  rw [LimitsHold, LimitsHold, h]

theorem limitsHold_cons (event : Event) (h : s'.log = event :: s.log) :
    LimitsHold policy s' ↔ event.WithinLimits policy ∧ LimitsHold policy s := by
  rw [LimitsHold, h, List.forall_mem_cons, LimitsHold]

theorem limitsHold_admitHead {pending : PendingRequest} {rest : List PendingRequest} :
    LimitsHold policy (admitHead pending rest s) ↔
      blockedBy policy s.active pending.request = [] ∧ LimitsHold policy s :=
  limitsHold_cons (.admitted pending.ticket pending.request s.active) rfl

/-- The loop admits within the limits. -/
theorem limitsHold_drainFrom {clock : ℕ → ℤ} {queue : List PendingRequest} {n : ℕ}
    (hqueue : s.queue = queue) (hidle : s.checking = none) :
    LimitsHold policy (drainFrom policy hooked clock queue n s) ↔ LimitsHold policy s := by
  refine drainFrom_keeps (P := fun s' => LimitsHold policy s' ↔ LimitsHold policy s)
    ?_ ?_ ?_ hqueue hidle Iff.rfl
  · intro s' pending rest _ _ hroom hs
    exact limitsHold_admitHead.trans ((and_iff_right hroom).trans hs)
  · intro s' pending rest _ _ _ hs
    rw [limitsHold_cons (s := s') (.checked pending.ticket) rfl]
    exact (and_iff_right trivial).trans hs
  · intro s' timer hs
    exact (limitsHold_of_log_eq rfl).trans hs

theorem limitsHold_drain {clock : ℕ → ℤ} :
    LimitsHold policy (drain policy hooked clock s) ↔ LimitsHold policy s := by
  refine drain_keeps (P := fun s' => LimitsHold policy s' ↔ LimitsHold policy s) ?_ Iff.rfl
  intro clock queue n s' hqueue hidle hs
  exact (limitsHold_drainFrom hqueue hidle).trans hs

/-- A head under check is blocked only by what `acquireExisting` counted meanwhile. -/
theorem Checked.blockedBy_eq_nil_iff (hs : Checked policy s) {pending : PendingRequest}
    {rest : List PendingRequest} (hqueue : s.queue = pending :: rest)
    (hcheck : s.checking = some pending.ticket) :
    blockedBy policy s.active pending.request = [] ↔ ¬ Crowded policy s := by
  constructor
  · rintro hroom ⟨p, rest', hqueue', -, limit, hlimit, hfull, -⟩
    have hp : pending = p := (List.cons.inj (hqueue.symm.trans hqueue')).1
    subst hp
    have hopen := blockedBy_eq_nil.1 hroom limit hlimit
    rw [hopen] at hfull
    cases hfull
  · intro hcrowded
    rw [blockedBy_eq_nil]
    intro limit hlimit
    by_contra hfull
    rw [Bool.not_eq_false] at hfull
    -- the limit had room for what the check saw, so it counts a request that came later
    have hseen := hs.room pending (by simp [hqueue]) hcheck
    have hlt := Limit.full_eq_false.1 (blockedBy_eq_nil.1 hseen limit hlimit)
    have hge : limit.bound ≤ s.active.countP limit.counts := by
      simpa [Limit.full] using hfull
    have hlater : ∃ r ∈ s.active, limit.counts r = true ∧ r.id ∈ recovered s.log := by
      by_contra hnone
      push Not at hnone
      have hsame : (earlier s).countP limit.counts = s.active.countP limit.counts := by
        rw [earlier, List.countP_filter]
        refine List.countP_congr ?_
        intro r hr
        simp only [Bool.and_eq_true, decide_eq_true_eq, and_iff_left_iff_imp]
        exact hnone r hr
      omega
    obtain ⟨r, hr, hcounts, hid⟩ := hlater
    exact hcrowded ⟨pending, rest, hqueue, hcheck, limit, hlimit, hfull, r, hr, hid, hcounts⟩

/-- The end of a check breaks the limits exactly on a crowded head. -/
theorem Checked.limitsHold_resumeDrain (hs : Checked policy s) {answer : PressureAnswer}
    {clock : ℕ → ℤ} :
    LimitsHold policy (Scheduler.resumeDrain policy hooked answer clock s) ↔
      LimitsHold policy s ∧ Uncrowded policy s (.answer answer, clock) := by
  by_cases hadmits : ∃ pending rest decision, s.queue = pending :: rest ∧
      s.checking = some pending.ticket ∧ answer = .decided decision ∧ decision.ready = true
  · obtain ⟨pending, rest, decision, hqueue, hcheck, rfl, hready⟩ := hadmits
    have hcond : Uncrowded policy s (.answer (.decided decision), clock) ↔ ¬ Crowded policy s := by
      constructor
      · intro h
        exact h decision rfl hready
      · intro h _ _ _
        exact h
    rw [resumeDrain_ready hqueue hcheck hready, hcond,
      ← hs.blockedBy_eq_nil_iff hqueue hcheck, and_comm]
    calc LimitsHold policy (Scheduler.drainFrom policy hooked clock rest 0
          (admitHead pending rest { s with checking := none }))
        ↔ LimitsHold policy (admitHead pending rest { s with checking := none }) :=
          limitsHold_drainFrom rfl rfl
      _ ↔ blockedBy policy s.active pending.request = [] ∧ LimitsHold policy s :=
          limitsHold_admitHead
  · have hcond : Uncrowded policy s (.answer answer, clock) := by
      rintro decision hanswer hready ⟨pending, rest, hqueue, hcheck, -⟩
      exact hadmits ⟨pending, rest, decision, hqueue, hcheck, Act.answer.inj hanswer, hready⟩
    rw [and_iff_left hcond]
    refine resumeDrain_keeps (P := fun s' => LimitsHold policy s' ↔ LimitsHold policy s)
      ?_ Iff.rfl ?_ ?_ ?_ ?_
    · intro clock queue n s' hqueue hidle hs
      exact (limitsHold_drainFrom hqueue hidle).trans hs
    · exact limitsHold_of_log_eq rfl
    · intro pending rest decision hqueue hcheck hanswer hready
      exact absurd ⟨pending, rest, decision, hqueue, hcheck, hanswer, hready⟩ hadmits
    · intro pending rest error _
      rw [limitsHold_cons (s := s) (.rejected pending.ticket error) rfl]
      exact and_iff_right trivial
    · intro pending rest reason readyAt timer _
      exact limitsHold_of_log_eq rfl

/-- Only the end of a check is restricted. -/
theorem uncrowded_of_not_answer {i : Act × (ℕ → ℤ)} (h : ∀ answer, i.1 ≠ .answer answer) :
    Uncrowded policy s i := by
  intro decision hanswer
  exact absurd hanswer (h _)

/-- A step keeps the limits exactly when it does not end a check on a crowded head. -/
theorem Checked.limitsHold_step (hs : Checked policy s) (i : Act × (ℕ → ℤ)) :
    LimitsHold policy (Scheduler.step policy hooked s i) ↔
      LimitsHold policy s ∧ Uncrowded policy s i := by
  obtain ⟨act, clock⟩ := i
  by_cases hanswer : ∃ answer, act = .answer answer
  · obtain ⟨answer, rfl⟩ := hanswer
    exact hs.limitsHold_resumeDrain
  rw [and_iff_left (uncrowded_of_not_answer fun answer h => hanswer ⟨answer, h⟩)]
  cases act with
  | acquire request aborted =>
    show LimitsHold policy (acquire policy hooked request aborted clock s).2 ↔ _
    rcases acquire_cases policy hooked request aborted clock s with h | ⟨-, -, h⟩
    · rw [h]
    · rw [h, limitsHold_drain]
      exact limitsHold_of_log_eq rfl
  | acquireExisting request =>
    show LimitsHold policy (acquireExisting request s).2 ↔ _
    rcases acquireExisting_cases request s with h | ⟨-, h⟩
    · rw [h]
    · rw [h, limitsHold_cons (s := s) (.existing request.id) rfl]
      exact and_iff_right trivial
  | release permit =>
    show LimitsHold policy (release policy hooked permit clock s) ↔ _
    rcases release_cases policy hooked permit clock s with h | ⟨id, -, h⟩
    · rw [h]
    · rw [h, limitsHold_drain]
      exact limitsHold_of_log_eq rfl
  | abort ticket =>
    show LimitsHold policy (abort policy hooked ticket clock s) ↔ _
    unfold Scheduler.abort
    split_ifs
    · dsimp only
      rw [limitsHold_drain, limitsHold_cons (s := s) (.rejected ticket _) rfl]
      exact and_iff_right trivial
    · rfl
  | answer answer => exact absurd ⟨answer, rfl⟩ hanswer
  | wake =>
    show LimitsHold policy (wake policy hooked clock s) ↔ _
    unfold Scheduler.wake
    split_ifs
    · rw [limitsHold_drain]
      exact limitsHold_of_log_eq rfl
    · rfl

/-! ## Runs -/

theorem checked_init : Checked policy {} :=
  .of_idle List.Pairwise.nil (by simp) rfl

theorem Checked.limitsHold_run (hs : Checked policy s) (l : List (Act × (ℕ → ℤ))) :
    LimitsHold policy (run (Scheduler.step policy hooked) s l) ↔
      LimitsHold policy s ∧
        Admissible (Scheduler.step policy hooked) (Uncrowded policy) s l := by
  induction l generalizing s with
  | nil => exact (and_iff_left trivial).symm
  | cons i l ih =>
    rw [run_cons, ih (hs.step i), hs.limitsHold_step i, and_assoc]
    rfl

/-- **Every admission of a run finds room under every limit exactly when no pressure check of the
run ends with `ready` on a crowded head.** -/
theorem limits_hold_iff_uncrowded (policy : ConcurrencyPolicy) (hooked : Bool)
    (l : List (Act × (ℕ → ℤ))) :
    LimitsHold policy (run (step policy hooked) {} l) ↔
      Admissible (step policy hooked) (Uncrowded policy) {} l := by
  rw [checked_init.limitsHold_run l]
  refine and_iff_right ?_
  intro event hevent
  cases hevent

/-- A request for the workspace waits for its pressure check, a run that is already in the workspace
is counted, and the check ends with `ready`. -/
def recoveryDuringCheck : List (Act × (ℕ → ℤ)) :=
  [(.acquire ⟨⟨"host", "project", "agent", "workspace"⟩, "new", false⟩ false, fun _ => 1000),
    (.acquireExisting ⟨⟨"host", "project", "agent", "workspace"⟩, "found", false⟩, fun _ => 1001),
    (.answer (.decided { ready := true }), fun _ => 1002)]

/-- Under the default policy a workspace has one active request; here it gets two. -/
theorem limits_broken_by_recovery :
    ¬ LimitsHold {} (run (step {} true) {} recoveryDuringCheck) := by
  decide +kernel

end AgentOrchestrator.Scheduler
