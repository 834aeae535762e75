import AgentOrchestrator.Adapter.Outcome

/-!
# A launch of a key that has a run

The provider returns the run of a key it has accepted before, or creates one.  The adapter uses the
key as the id of its admission, and the scheduler refuses an id that is active.  So a launch of a
key whose permit is out is rejected before the provider is asked, although `launch` has a branch for
a run that its own key holds.  A launch of a key without a permit returns the run once the scheduler
has admitted it.
-/

namespace AgentOrchestrator.Limited

open Scheduler Runs

variable {policy : ConcurrencyPolicy} {hooked : Bool} {s s' : State}

/-! ## The provider -/

/-- The answers of the provider: a launch and a lookup that find a run find the one of the key. -/
def Honors (runOf : String → Option String) (s : State) (i : Act × (ℕ → ℕ → ℤ)) : Prop :=
  (∀ c key release r, i.1 = .launched c (some r) → s.calls c = some (.launching key release) →
    runOf key = some r) ∧
  ∀ c key u rr rp rec r, i.1 = .lookedUp c (.found r) →
    s.calls c = some (.lookingUp key u rr rp rec) → runOf key = some r

/-- A run is held for the key the provider has it for. -/
def Bound (runOf : String → Option String) (s : State) : Prop :=
  ∀ r held, s.releases r = some held → runOf held.idempotencyKey = some r

variable {runOf : String → Option String}

theorem Bound.of_eq (hs : Bound runOf s) (h : s'.releases = s.releases) : Bound runOf s' := by
  unfold Bound
  rw [h]
  exact hs

theorem Bound.releaseRun (hs : Bound runOf s) (runId : String) (clock : ℕ → ℤ) :
    Bound runOf (releaseRun policy hooked runId clock s) := by
  intro r held h
  rw [releases_releaseRun, erase_apply] at h
  split_ifs at h
  exact hs r held h

theorem Bound.bind (hs : Bound runOf s) {runId key : String} (hrun : runOf key = some runId)
    (permit : ℕ) : Bound runOf (bind runId key permit s) := by
  intro r held h
  rcases Keyed.update_cases h with ⟨rfl, hheld⟩ | ⟨-, h⟩
  · cases hheld
    exact hrun
  · exact hs r held h

theorem Bound.lookedUp (hs : Bound runOf s) (c : ℕ) {key : String} (u : Option ℕ)
    (rr : Option String) (rp : Option HeldPermit) (rec : Option ℕ) {answer : LookupAnswer}
    (hrun : ∀ r, answer = .found r → runOf key = some r) (clock : ℕ → ℕ → ℤ) :
    Bound runOf (lookedUp policy hooked c key u rr rp rec answer clock s) := by
  cases answer with
  | failed => cases rec <;> exact hs
  | absent =>
    have hreleased : Bound runOf (absentReleased policy hooked c key u rec clock s) :=
      hs.of_eq (releases_absentReleased c key u rec clock)
    show Bound runOf (lookupAbsent policy hooked c key u rr rec clock s)
    rw [lookupAbsent_eq]
    cases rr with
    | none => exact hreleased
    | some r => exact hreleased.releaseRun r (clock 2)
  | found r =>
    have hrun : runOf key = some r := hrun r rfl
    unfold Limited.lookedUp
    cases u with
    | some p =>
      dsimp only [foundLaunch]
      cases s.releases r with
      | some existing =>
        dsimp only
        split_ifs
        · exact hs
        · exact hs
      | none => exact hs.bind hrun p
    | none =>
      dsimp only
      cases s.releases r with
      | some existing => cases rec <;> exact hs
      | none =>
        dsimp only
        split_ifs
        · exact hs
        · unfold foundRun
          cases rec with
          | none => exact hs
          | some p =>
            dsimp only
            split_ifs
            · exact hs
            · exact hs.bind hrun p

theorem Bound.launched (hs : Bound runOf s) (c : ℕ) {key : String} (release : ℕ)
    {answer : Option String} (hrun : ∀ r, answer = some r → runOf key = some r) (clock : ℕ → ℤ) :
    Bound runOf (launched policy hooked c key release answer clock s) := by
  unfold Limited.launched
  cases answer with
  | none => exact hs
  | some r =>
    dsimp only
    cases s.releases r with
    | some existing =>
      dsimp only
      split_ifs <;> exact hs
    | none => exact hs.bind (hrun r rfl) release

theorem Bound.step (s : State) (i : Act × (ℕ → ℕ → ℤ)) (hs : Bound runOf s)
    (hi : Honors runOf s i) : Bound runOf (step policy hooked s i) := by
  obtain ⟨act, clock⟩ := i
  cases act with
  | launch c key scope =>
    dsimp only [Limited.step]
    split
    · exact hs.of_eq (releases_launch c key scope (clock 0))
    · exact hs
  | findByIdempotencyKey c key scope =>
    dsimp only [Limited.step]
    split
    · exact hs.of_eq (releases_findByIdempotencyKey c key scope)
    · exact hs
  | acquired c =>
    dsimp only [Limited.step]
    split
    · exact hs.of_eq (releases_acquired c _ _)
    · exact hs
  | launched c answer =>
    dsimp only [Limited.step]
    split
    · rename_i key release hc
      refine hs.launched c release ?_ (clock 0)
      rintro r rfl
      exact hi.1 c key release r rfl hc
    · exact hs
  | lookedUp c answer =>
    dsimp only [Limited.step]
    split
    · rename_i key u rr rp rec hc
      refine hs.lookedUp c u rr rp rec ?_ clock
      rintro r rfl
      exact hi.2 c key u rr rp rec r rfl hc
    · exact hs
  | inspected c answer =>
    dsimp only [Limited.step]
    split
    · rename_i key r recovering hc
      cases answer with
      | none => exact hs
      | some state =>
        dsimp only [inspected]
        split_ifs
        · exact hs
        · exact hs.releaseRun r (clock 0)
        · exact hs
    · exact hs
  | finished c =>
    dsimp only [Limited.step]
    split
    · exact hs.of_eq (releases_finished c _ _ _)
    · exact hs
  | forget key =>
    dsimp only [Limited.step]
    split_ifs <;> exact hs
  | status runId answer =>
    dsimp only [Limited.step, status]
    split
    · exact hs
    · split_ifs
      · exact hs
      · exact (hs.of_eq (releases_markTerminalDuringRecovery runId)).releaseRun runId (clock 0)
      · exact hs
  | result runId answer =>
    dsimp only [Limited.step, result]
    split_ifs
    · exact (hs.of_eq (releases_markTerminalDuringRecovery runId)).releaseRun runId (clock 0)
    · exact hs
  | cancel runId => exact hs
  | pressure answer => exact hs
  | wake => exact hs

theorem bound_run {l : List (Act × (ℕ → ℕ → ℤ))}
    (hl : Admissible (step policy hooked) (Honors runOf) {} l) :
    Bound runOf (run (step policy hooked) {} l) := by
  refine run_invariant_of (step policy hooked) (P := Bound runOf) Bound.step ?_ hl
  intro r held h
  cases h

/-! ## Waiting launches -/

/-- No request was rejected, and without hooks none is checked. -/
structure Quiet (hooked : Bool) (sched : Scheduler.State) : Prop where
  log : ∀ t error, .rejected t error ∉ sched.log
  checking : hooked = false → sched.checking = none

theorem Quiet.cons {sched sched' : Scheduler.State} (h : Quiet hooked sched) {event : Event}
    (hlog : sched'.log = event :: sched.log) (hevent : ∀ t error, event ≠ .rejected t error)
    (hchecking : hooked = false → sched'.checking = none) : Quiet hooked sched' := by
  refine ⟨?_, hchecking⟩
  rw [hlog]
  intro t error hmem
  rcases List.mem_cons.1 hmem with heq | hmem
  · exact hevent t error heq.symm
  · exact h.log t error hmem

theorem quiet_drainFrom {sched : Scheduler.State} {clock : ℕ → ℤ} {queue : List PendingRequest}
    {n : ℕ} (h : Quiet hooked sched) : Quiet hooked (drainFrom policy hooked clock queue n sched) := by
  induction queue generalizing n sched with
  | nil => exact h
  | cons pending rest ih =>
    rw [drainFrom]
    split_ifs with hblocked hwait hhook
    · exact h
    · refine ⟨?_, ?_⟩
      · rw [scheduleDrain_log]
        exact h.log
      · rw [scheduleDrain_checking]
        exact h.checking
    · exact h.cons rfl (by simp) (by simp [hhook])
    · exact ih (h.cons rfl (by simp) h.checking)

theorem quiet_drain {sched : Scheduler.State} (clock : ℕ → ℤ) (h : Quiet hooked sched) :
    Quiet hooked (drain policy hooked clock sched) := by
  unfold drain
  split_ifs
  · exact h
  · exact quiet_drainFrom h

/-- A check that ends rejects its head only when the policy refuses. -/
theorem quiet_resumeDrain {sched : Scheduler.State} (hpolicy : ¬ Refusing policy ∨ hooked = false)
    (answer : PressureAnswer) (clock : ℕ → ℤ) (h : Quiet hooked sched) :
    Quiet hooked (resumeDrain policy hooked answer clock sched) := by
  unfold resumeDrain
  cases hcheck : sched.checking with
  | none => exact h
  | some ticket =>
    have hhooked : hooked ≠ false := by
      intro hunhooked
      have hnone := h.checking hunhooked
      rw [hcheck] at hnone
      cases hnone
    have hpolicy : ¬ Refusing policy := hpolicy.resolve_right hhooked
    have hidle : ∀ queue timer, Quiet hooked
        { sched with checking := none, queue := queue, wakeTimer := timer } :=
      fun _ _ => ⟨h.log, fun _ => rfl⟩
    dsimp only
    cases hqueue : sched.queue with
    | nil => exact ⟨h.log, fun _ => rfl⟩
    | cons pending rest =>
      dsimp only
      split_ifs
      · exact quiet_drainFrom (hidle _ sched.wakeTimer)
      · cases answer.decision with
        | none => exact quiet_drainFrom (hidle _ sched.wakeTimer)
        | some decision =>
          dsimp only
          split_ifs
          · exact quiet_drainFrom (h.cons rfl (by simp) fun _ => rfl)
          · unfold refuse
            dsimp only
            split_ifs with hrefusing
            · exact absurd hrefusing hpolicy
            · unfold scheduleDrain
              split_ifs
              · exact hidle _ sched.wakeTimer
              · exact hidle _ _

theorem quiet_run (hpolicy : ¬ Refusing policy ∨ hooked = false)
    (l : List (Act × (ℕ → ℕ → ℤ))) : Quiet hooked (run (step policy hooked) {} l).scheduler := by
  refine run_invariant (step policy hooked) (P := fun s => Quiet hooked s.scheduler) ?_ ?_ l
  · intro s i h
    refine keeps_step ?_ ?_ ?_ (fun answer clock _ => quiet_resumeDrain hpolicy answer clock) ?_ i h
    · intro request clock sched h
      rcases acquire_cases policy hooked request false clock sched with hsame | ⟨-, -, hdrain⟩
      · rw [hsame]
        exact h
      · rw [hdrain]
        exact quiet_drain clock ⟨h.log, h.checking⟩
    · intro request sched h
      rcases acquireExisting_cases request sched with hsame | ⟨-, hactive⟩
      · rw [hsame]
        exact h
      · rw [hactive]
        exact h.cons rfl (by simp) h.checking
    · intro permit clock sched h
      rcases release_cases policy hooked permit clock sched with hsame | ⟨id, -, hdrain⟩
      · rw [hsame]
        exact h
      · rw [hdrain]
        exact quiet_drain clock ⟨h.log, h.checking⟩
    · intro clock sched h
      unfold Scheduler.wake
      split_ifs
      · exact quiet_drain clock ⟨h.log, h.checking⟩
      · exact h
  · exact ⟨fun _ _ h => absurd h List.not_mem_nil, fun _ => rfl⟩

/-- The hooks are not ready, and a refusing policy rejects the only request. -/
theorem rejected_by_hooks {sched : Scheduler.State} {request : AdmissionRequest}
    (hidle : IdleScheduler sched) (hfree : blockedBy policy sched.active request = [])
    (hpolicy : Refusing policy) :
    ∃ error, settlement sched.nextTicket (resumeDrain policy true
      (.decided ⟨false, none, none⟩) (fun _ => 0)
      (drain policy true (fun _ => 0) (onlyRequest request sched))).log = some (.error error) := by
  rw [drain_onlyRequest hidle hfree, if_neg (by simp), if_pos rfl]
  refine ⟨.overloaded 0 ["resource_pressure"], ?_⟩
  unfold resumeDrain
  dsimp only [onlyRequest, PressureAnswer.decision]
  rw [if_neg (by simp), if_neg (by simp)]
  unfold refuse
  dsimp only
  rw [if_pos (show policy.overload = .reject ∨ policy.maxQueued = 0 from hpolicy)]
  show settlement sched.nextTicket (.rejected sched.nextTicket _ :: _) = _
  rw [settlement, if_pos rfl]
  rfl

/-! ## The end of a launch -/

/-- The provider has no run for two keys, runs are held for their keys, and the scheduler is in
order. -/
structure Bounded (policy : ConcurrencyPolicy) (runOf : String → Option String) (s : State) :
    Prop where
  one : ∀ key key' r, runOf key = some r → runOf key' = some r → key = key'
  bound : Bound runOf s
  orderly : Orderly policy s.scheduler

theorem Bounded.step (hs : Bounded policy runOf s) {i : Act × (ℕ → ℕ → ℤ)} (hi : Honors runOf s i) :
    Bounded policy runOf (step policy hooked s i) :=
  ⟨hs.one, hs.bound.step s i hi, orderly_adapter hs.orderly [i]⟩

theorem honors_of_other {i : Act × (ℕ → ℕ → ℤ)} (hlaunched : ∀ c answer, i.1 ≠ .launched c answer)
    (hlookedUp : ∀ c answer, i.1 ≠ .lookedUp c answer) : Honors runOf s i :=
  ⟨fun c _ _ r h => absurd h (hlaunched c (some r)),
    fun c _ _ _ _ _ r h => absurd h (hlookedUp c (.found r))⟩

section Outcome

variable {c : ℕ} {key runId : String} {l : List (Act × (ℕ → ℕ → ℤ))}

/-- The answer of the provider ends the launch with the run of its key. -/
theorem ends_launched (hs : Bounded policy runOf s) (hrun : runOf key = some runId) {release : ℕ}
    (hc : s.calls c = some (.launching key release)) {r : String} {clock : ℕ → ℕ → ℤ}
    (hi : Honors runOf s (.launched c (some r), clock)) :
    ends policy hooked c s (.launched c (some r), clock) = some (some runId) := by
  have hr : runOf key = some r := hi.1 c key release r rfl hc
  obtain rfl : runId = r := Option.some.inj (hrun.symm.trans hr)
  unfold ends
  dsimp only
  rw [hc]
  dsimp only
  rw [if_neg (not_not.2 rfl)]
  cases hheld : s.releases runId with
  | none => rfl
  | some existing =>
    dsimp only
    rw [if_neg (not_not.2 (hs.one _ _ runId (hs.bound runId existing hheld) hrun))]

/-- A launch that awaits the provider returns the run of its key when it is answered. -/
theorem outcome_launching (hs : Bounded policy runOf s) (hrun : runOf key = some runId)
    {release : ℕ} (hc : s.calls c = some (.launching key release))
    (hl : Admissible (step policy hooked) (Honors runOf) s l)
    (hanswers : ∀ i ∈ l, i.1 ≠ .launched c none) :
    (outcome policy hooked c s l = some (some runId) ∧ Answered c l) ∨
      (outcome policy hooked c s l = none ∧ ¬ Answered c l) := by
  induction l generalizing s with
  | nil => exact Or.inr ⟨rfl, by simp [Answered]⟩
  | cons i l ih =>
    obtain ⟨hi, hl⟩ := hl
    by_cases hlaunched : ∃ answer, i.1 = .launched c answer
    · obtain ⟨act, clock⟩ := i
      obtain ⟨answer, rfl⟩ := hlaunched
      cases answer with
      | none => exact absurd rfl (hanswers _ List.mem_cons_self)
      | some r =>
        refine Or.inl ⟨?_, answered_cons.2 (Or.inl ⟨some r, rfl⟩)⟩
        rw [outcome, ends_launched hs hrun hc hi]
        rfl
    · have hother : ends policy hooked c s i = none := by
        obtain ⟨act, clock⟩ := i
        unfold ends
        rw [hc]
        cases act with
        | launched c' answer =>
          dsimp only
          rw [if_pos]
          rintro rfl
          exact hlaunched ⟨answer, rfl⟩
        | _ => simp
      rw [outcome, hother, answered_cons, or_iff_right hlaunched]
      refine ih (hs.step hi) ?_ hl fun j hj => hanswers j (List.mem_cons_of_mem i hj)
      exact calls_step_launching hc fun answer hanswer => hlaunched ⟨answer, hanswer⟩

/-- A launch that awaits the scheduler is told how its request settled. -/
theorem ends_acquired {ticket : ℕ} (hc : s.calls c = some (.acquiring key ticket))
    (clock : ℕ → ℕ → ℤ) :
    ends policy hooked c s (.acquired c, clock) =
      match settlement ticket s.scheduler.log with
      | some (.error _) => some none
      | _ => none := by
  unfold ends
  dsimp only
  rw [hc]
  cases hsettled : settlement ticket s.scheduler.log with
  | none => simp [hsettled]
  | some result => cases result <;> simp [hsettled]

theorem ends_acquiring_other {ticket : ℕ} (hc : s.calls c = some (.acquiring key ticket))
    {i : Act × (ℕ → ℕ → ℤ)} (hi : i.1 ≠ .acquired c) : ends policy hooked c s i = none := by
  obtain ⟨act, clock⟩ := i
  unfold ends
  rw [hc]
  cases act with
  | acquired c' =>
    dsimp only
    rw [if_pos]
    rintro rfl
    exact hi rfl
  | _ => simp

theorem step_acquired {ticket : ℕ} (hc : s.calls c = some (.acquiring key ticket))
    (clock : ℕ → ℕ → ℤ) :
    step policy hooked s (.acquired c, clock) = acquired c key ticket s := by
  dsimp only [step]
  rw [hc]

/-- A launch that awaits the scheduler returns the run of its key when its turn comes; else it goes
on waiting, or its request was rejected. -/
theorem outcome_acquiring (hs : Bounded policy runOf s) (hrun : runOf key = some runId)
    {ticket : ℕ} (hc : s.calls c = some (.acquiring key ticket))
    (hl : Admissible (step policy hooked) (Honors runOf) s l)
    (hanswers : ∀ i ∈ l, i.1 ≠ .launched c none) :
    (outcome policy hooked c s l = some (some runId) ∧ TurnComes policy hooked s c ticket l) ∨
      (outcome policy hooked c s l = none ∧ ¬ TurnComes policy hooked s c ticket l) ∨
      (outcome policy hooked c s l = some none ∧ ¬ TurnComes policy hooked s c ticket l ∧
        ∃ error, .rejected ticket error ∈ (run (step policy hooked) s l).scheduler.log) := by
  induction l generalizing s with
  | nil =>
    refine Or.inr (Or.inl ⟨rfl, ?_⟩)
    intro hturn
    obtain ⟨i, hi, -⟩ := hturn.answered
    cases hi
  | cons i l ih =>
    obtain ⟨hi, hl⟩ := hl
    have hrest : ∀ j ∈ l, j.1 ≠ .launched c none :=
      fun j hj => hanswers j (List.mem_cons_of_mem i hj)
    rw [turnComes_cons, outcome, run_cons]
    by_cases hacquired : i.1 = .acquired c
    · obtain ⟨act, clock⟩ := i
      obtain rfl : act = .acquired c := hacquired
      rw [ends_acquired hc]
      rw [step_acquired hc] at hl ⊢
      have hnext : Bounded policy runOf (step policy hooked s (.acquired c, clock)) := hs.step hi
      rw [step_acquired hc] at hnext
      cases hsettled : settlement ticket s.scheduler.log with
      | none =>
        have hsame : acquired c key ticket s = s := by
          unfold acquired
          rw [hsettled]
        rw [hsame] at hl ⊢
        simpa using ih hs hc hl hrest
      | some result =>
        cases result with
        | ok permit =>
          have hlaunching : (acquired c key ticket s).calls c = some (.launching key permit) := by
            unfold acquired
            rw [hsettled]
            exact Function.update_self _ _ _
          rcases outcome_launching hnext hrun hlaunching hl hrest with
            ⟨hreturned, hanswered⟩ | ⟨hpending, hunanswered⟩
          · exact Or.inl ⟨hreturned, Or.inl ⟨rfl, ⟨permit, rfl⟩, hanswered⟩⟩
          · refine Or.inr (Or.inl ⟨hpending, ?_⟩)
            rintro (⟨-, -, hanswered⟩ | hturn)
            · exact hunanswered hanswered
            · exact hunanswered hturn.answered
        | error error =>
          refine Or.inr (Or.inr ⟨rfl, ?_, error, ?_⟩)
          · rintro (⟨-, ⟨permit, hpermit⟩, -⟩ | ⟨l₁, clock', l₂, -, ⟨permit, hpermit⟩, -⟩)
            · cases hpermit
            · have hlater : settlement ticket
                  (run (step policy hooked) s ((.acquired c, clock) :: l₁)).scheduler.log ≠
                    some (.ok permit) := not_admitted_later hs.orderly hsettled _ permit
              rw [run_cons, step_acquired hc] at hlater
              exact hlater hpermit
          · have hstep : step policy hooked s (.acquired c, clock) = acquired c key ticket s :=
              step_acquired hc clock
            rw [← hstep, ← run_cons]
            exact keeps_run (P := fun sched => .rejected ticket error ∈ sched.log)
              (fun sched i h => (later_step sched i).log.subset h) (settlement_error hsettled) _
    · rw [ends_acquiring_other hc hacquired]
      simpa [hacquired] using ih (hs.step hi) (calls_step_acquiring hc hacquired) hl hrest

end Outcome

/-! ## Launching again -/

section Launch

variable {c : ℕ} {key runId : String} {scope : ConcurrencyScope} {clock : ℕ → ℕ → ℤ}

theorem ends_launch (hc : s.calls c = none) :
    ends policy hooked c s (.launch c key (some scope), clock) =
      match (acquire policy hooked ⟨scope, key, false⟩ false (clock 0) s.scheduler).1 with
      | .error _ => some none
      | .ok _ => none := by
  unfold ends
  dsimp only
  cases (acquire policy hooked ⟨scope, key, false⟩ false (clock 0) s.scheduler).1 <;> simp [hc]

theorem step_launch (hc : s.calls c = none) :
    step policy hooked s (.launch c key (some scope), clock) =
      launch policy hooked c key (some scope) (clock 0) s := by
  dsimp only [step]
  rw [hc]

/-- A request that the scheduler takes has the next ticket, and the launch awaits it. -/
theorem calls_step_launch (hc : s.calls c = none) {ticket : ℕ}
    (h : (acquire policy hooked ⟨scope, key, false⟩ false (clock 0) s.scheduler).1 = .ok ticket) :
    (step policy hooked s (.launch c key (some scope), clock)).calls c =
      some (.acquiring key s.scheduler.nextTicket) := by
  rw [step_launch hc]
  unfold launch
  cases hcall : acquire policy hooked ⟨scope, key, false⟩ false (clock 0) s.scheduler with
  | mk result sched =>
    rw [hcall] at h
    obtain rfl : result = .ok ticket := h
    obtain ⟨-, rfl, -⟩ := acquire_ok hcall
    dsimp only
    rw [hcall]
    exact Function.update_self c _ s.calls

/-- How a launch ends, with an idle scheduler at its start. -/
theorem outcome_launch (hs : Bounded policy runOf s) (hidle : IdleScheduler s.scheduler)
    (hrun : runOf key = some runId) (hc : s.calls c = none) {l : List (Act × (ℕ → ℕ → ℤ))}
    (hl : Admissible (step policy hooked) (Honors runOf) s
      ((.launch c key (some scope), clock) :: l))
    (hanswers : ∀ i ∈ l, i.1 ≠ .launched c none) :
    outcome policy hooked c s ((.launch c key (some scope), clock) :: l) = some (some runId) ↔
      (validateRequest ⟨scope, key, false⟩ = .ok () ∧ ¬ Active s.scheduler key ∧
        (Refusing policy → blockedBy policy s.scheduler.active ⟨scope, key, false⟩ = [])) ∧
      TurnComes policy hooked (step policy hooked s (.launch c key (some scope), clock)) c
        s.scheduler.nextTicket l := by
  rw [← @accepted_iff policy hooked s.scheduler ⟨scope, key, false⟩ (clock 0) hidle, outcome,
    ends_launch hc]
  cases hcall : (acquire policy hooked ⟨scope, key, false⟩ false (clock 0) s.scheduler).1 with
  | error e => simp
  | ok ticket =>
    have hacquiring := calls_step_launch hc hcall
    rcases outcome_acquiring (hs.step hl.1) hrun hacquiring hl.2 hanswers with
      ⟨hend, hturn⟩ | ⟨hend, hturn⟩ | ⟨hend, hturn, -⟩
    · exact iff_of_true hend ⟨⟨ticket, rfl⟩, hturn⟩
    · exact iff_of_false (by rw [Option.none_or, hend]; simp) fun h => hturn h.2
    · exact iff_of_false (by rw [Option.none_or, hend]; simp) fun h => hturn h.2

end Launch

/-- A call of `launch` while no other call is made: the hooks answer, the scheduler settles the
request, and the provider answers. -/
def alone (c : ℕ) (key runId : String) (scope : ConcurrencyScope) (answer : PressureAnswer)
    (clock : ℕ → ℕ → ℕ → ℤ) : List (Act × (ℕ → ℕ → ℤ)) :=
  [(.launch c key (some scope), clock 0), (.pressure answer, clock 1), (.acquired c, clock 2),
    (.launched c (some runId), clock 3)]

theorem turnComes_alone {c ticket : ℕ} {runId : String} {answer : PressureAnswer}
    {clock : ℕ → ℕ → ℕ → ℤ} :
    TurnComes policy hooked s c ticket [(.pressure answer, clock 1), (.acquired c, clock 2),
        (.launched c (some runId), clock 3)] ↔
      ∃ permit, settlement ticket (resumeDrain policy hooked answer (clock 1 0) s.scheduler).log =
        some (.ok permit) := by
  have hend : ∀ s, ¬ TurnComes policy hooked s c ticket [] := by
    intro s hturn
    obtain ⟨i, hi, -⟩ := hturn.answered
    cases hi
  rw [turnComes_cons, turnComes_cons, turnComes_cons]
  simp [hend, Answered, step]

theorem calls_step_rejected {c : ℕ} (hc : s.calls c = none) {key : String}
    {scope : ConcurrencyScope} {clock : ℕ → ℕ → ℤ} {error : SchedulerError}
    (h : (acquire policy hooked ⟨scope, key, false⟩ false (clock 0) s.scheduler).1 =
      .error error) :
    (step policy hooked s (.launch c key (some scope), clock)).calls c = none := by
  rw [step_launch hc]
  unfold launch
  cases hcall : acquire policy hooked ⟨scope, key, false⟩ false (clock 0) s.scheduler with
  | mk result sched =>
    rw [hcall] at h
    obtain rfl : result = .error error := h
    dsimp only
    rw [hcall]
    exact hc

/-- The provider is asked for the key of the launch. -/
theorem launching_alone {c : ℕ} (hc : s.calls c = none) {key key' : String}
    {scope : ConcurrencyScope} {answer : PressureAnswer} {clock : ℕ → ℕ → ℕ → ℤ} {release : ℕ}
    (h : (run (step policy hooked) s [(.launch c key (some scope), clock 0),
      (.pressure answer, clock 1), (.acquired c, clock 2)]).calls c =
        some (.launching key' release)) : key' = key := by
  rw [run_cons, run_cons, run_cons, run_nil] at h
  have hpressure := @calls_step_of_ne policy hooked
    (step policy hooked s (.launch c key (some scope), clock 0)) c (.pressure answer, clock 1)
    (by simp [Act.call])
  cases hcall : (acquire policy hooked ⟨scope, key, false⟩ false (clock 0 0) s.scheduler).1 with
  | error e =>
    rw [calls_step_rejected hc hcall] at hpressure
    dsimp only [step] at h hpressure
    rw [hpressure] at h
    dsimp only at h
    cases hpressure.symm.trans h
  | ok ticket =>
    rw [calls_step_launch hc hcall] at hpressure
    rw [step_acquired hpressure] at h
    unfold acquired at h
    split at h
    · cases hpressure.symm.trans h
    · cases (Function.update_self _ _ _).symm.trans h
    · cases (Function.update_self _ _ _).symm.trans h
      rfl

theorem honors_alone {c : ℕ} (hc : s.calls c = none) {key runId : String}
    (hrun : runOf key = some runId) (scope : ConcurrencyScope) (answer : PressureAnswer)
    (clock : ℕ → ℕ → ℕ → ℤ) :
    Admissible (step policy hooked) (Honors runOf) s (alone c key runId scope answer clock) := by
  refine ⟨honors_of_other (by simp) (by simp), honors_of_other (by simp) (by simp),
    honors_of_other (by simp) (by simp), ⟨?_, by simp⟩, trivial⟩
  intro c' key' release r hanswer hcall
  cases hanswer
  rw [launching_alone hc hcall]
  exact hrun

/-- A launch by itself returns the run exactly when the scheduler grants its request. -/
theorem outcome_alone (hs : Bounded policy runOf s) (hidle : IdleScheduler s.scheduler) {c : ℕ}
    (hc : s.calls c = none) {key runId : String} (hrun : runOf key = some runId)
    (scope : ConcurrencyScope) (answer : PressureAnswer) (clock : ℕ → ℕ → ℕ → ℤ) :
    outcome policy hooked c s (alone c key runId scope answer clock) = some (some runId) ↔
      Grants policy hooked ⟨scope, key, false⟩ answer (clock 0 0) s.scheduler := by
  have hfresh : settlement s.scheduler.nextTicket s.scheduler.log = none :=
    hs.orderly.accounts.past _ (le_refl _)
  unfold alone
  rw [outcome_launch hs hidle hrun hc (honors_alone hc hrun scope answer clock) (by simp),
    turnComes_alone, ← @accepted_iff policy hooked s.scheduler ⟨scope, key, false⟩ (clock 0 0) hidle,
    ← @granted_iff policy hooked s.scheduler ⟨scope, key, false⟩ (clock 0 0) (clock 1 0) answer
      hidle hfresh]
  rw [step_launch hc]
  unfold launch
  dsimp only
  cases hcall : acquire policy hooked ⟨scope, key, false⟩ false (clock 0 0) s.scheduler with
  | mk result sched =>
    cases result with
    | error e => simp
    | ok ticket =>
      obtain ⟨-, rfl, -⟩ := acquire_ok hcall
      simp [State.await]

/-! ### Launches that are never rejected -/

/-- A refusing policy with hooks can reject the launch. -/
theorem unhooked_of_unrejected (hidle : IdleScheduler s.scheduler) {c : ℕ} (hc : s.calls c = none)
    {key : String} {scope : ConcurrencyScope} (hpolicy : Refusing policy)
    (hvalid : validateRequest ⟨scope, key, false⟩ = .ok ()) (hinactive : ¬ Active s.scheduler key)
    (hfree : blockedBy policy s.scheduler.active ⟨scope, key, false⟩ = [])
    (h : outcome policy hooked c s [(.launch c key (some scope), fun _ _ => 0),
      (.pressure (.decided ⟨false, none, none⟩), fun _ _ => 0), (.acquired c, fun _ _ => 0)] ≠
        some none) : hooked = false := by
  cases hooked with
  | false => rfl
  | true =>
    exfalso
    have hnew : knownId key s.scheduler = false :=
      Bool.eq_false_iff.2 fun hknown => hinactive ((active_iff_known hidle key).1 hknown)
    obtain ⟨error, herror⟩ := rejected_by_hooks hidle hfree hpolicy
    have hok : (acquire policy true ⟨scope, key, false⟩ false (fun _ => 0) s.scheduler).1 =
        .ok s.scheduler.nextTicket := by rw [acquire_idle hidle hvalid hnew hfree]
    have hacquiring : (step policy true s (.launch c key (some scope), fun _ _ => 0)).calls c =
        some (.acquiring key s.scheduler.nextTicket) := calls_step_launch hc hok
    have hpressure : (step policy true (step policy true s
        (.launch c key (some scope), fun _ _ => 0))
        (.pressure (.decided ⟨false, none, none⟩), fun _ _ => 0)).calls c =
          some (.acquiring key s.scheduler.nextTicket) :=
      calls_step_acquiring hacquiring (by simp)
    refine h ?_
    rw [outcome, ends_launch hc, hok, outcome, ends_acquiring_other hacquiring (by simp), outcome,
      ends_acquired hpressure]
    have hsettled : settlement s.scheduler.nextTicket (step policy true (step policy true s
        (.launch c key (some scope), fun _ _ => 0))
        (.pressure (.decided ⟨false, none, none⟩), fun _ _ => 0)).scheduler.log =
        some (.error error) := by
      rw [← herror, step_launch hc]
      dsimp only [launch]
      rw [acquire_idle hidle hvalid hnew hfree]
      rfl
    rw [hsettled]
    rfl

/-- A launch that the scheduler takes and never rejects does not throw. -/
theorem outcome_ne_none {l l' : List (Act × (ℕ → ℕ → ℤ))} (hs : Bounded policy runOf
      (run (step policy hooked) {} l))
    {c : ℕ} (hc : (run (step policy hooked) {} l).calls c = none) {key runId : String}
    (hrun : runOf key = some runId) {scope : ConcurrencyScope} {clock : ℕ → ℕ → ℤ} {ticket : ℕ}
    (hok : (acquire policy hooked ⟨scope, key, false⟩ false (clock 0)
      (run (step policy hooked) {} l).scheduler).1 = .ok ticket)
    (hpolicy : ¬ Refusing policy ∨ hooked = false)
    (hl : Admissible (step policy hooked) (Honors runOf) (run (step policy hooked) {} l)
      ((.launch c key (some scope), clock) :: l'))
    (hanswers : ∀ i ∈ l', i.1 ≠ .launched c none) :
    outcome policy hooked c (run (step policy hooked) {} l)
      ((.launch c key (some scope), clock) :: l') ≠ some none := by
  rw [outcome, ends_launch hc, hok, Option.none_or]
  rcases outcome_acquiring (hs.step hl.1) hrun (calls_step_launch hc hok) hl.2 hanswers with
    ⟨hend, -⟩ | ⟨hend, -⟩ | ⟨-, -, error, hrejected⟩
  · rw [hend]
    simp
  · rw [hend]
    simp
  · rw [← run_cons, ← run_append] at hrejected
    exact absurd hrejected ((quiet_run hpolicy _).log _ error)

/-- **When a launch of a key that has a run returns the run**, after calls that have all completed,
with a provider that has one run for a key and no run for two.  By itself it returns the run exactly
when the request is well formed, no permit of the key is out, no limit is full and the hooks are
ready.  Whatever else is called, it returns the run exactly when the scheduler takes its request and
its turn comes, and it never throws exactly when the policy lets it wait or it need not. -/
theorem relaunches_iff (policy : ConcurrencyPolicy) (hooked : Bool)
    (runOf : String → Option String)
    (hone : ∀ key key' r, runOf key = some r → runOf key' = some r → key = key')
    (l : List (Act × (ℕ → ℕ → ℤ)))
    (hl : Admissible (step policy hooked) (Honors runOf) {} l)
    (hcompleted : ∀ c, (run (step policy hooked) {} l).calls c = none)
    (c : ℕ) (key runId : String) (hrun : runOf key = some runId) (scope : ConcurrencyScope) :
    (∀ answer clock, outcome policy hooked c (run (step policy hooked) {} l)
        (alone c key runId scope answer clock) = some (some runId) ↔
      Grants policy hooked ⟨scope, key, false⟩ answer (clock 0 0)
        (run (step policy hooked) {} l).scheduler) ∧
    (∀ clock l', Admissible (step policy hooked) (Honors runOf) (run (step policy hooked) {} l)
        ((.launch c key (some scope), clock) :: l') → (∀ i ∈ l', i.1 ≠ .launched c none) →
      (outcome policy hooked c (run (step policy hooked) {} l)
          ((.launch c key (some scope), clock) :: l') = some (some runId) ↔
        (validateRequest ⟨scope, key, false⟩ = .ok () ∧
          ¬ Active (run (step policy hooked) {} l).scheduler key ∧
          (Refusing policy → blockedBy policy (run (step policy hooked) {} l).scheduler.active
            ⟨scope, key, false⟩ = [])) ∧
        TurnComes policy hooked (step policy hooked (run (step policy hooked) {} l)
          (.launch c key (some scope), clock)) c
          (run (step policy hooked) {} l).scheduler.nextTicket l')) ∧
    ((∀ clock l', Admissible (step policy hooked) (Honors runOf) (run (step policy hooked) {} l)
        ((.launch c key (some scope), clock) :: l') → (∀ i ∈ l', i.1 ≠ .launched c none) →
      outcome policy hooked c (run (step policy hooked) {} l)
        ((.launch c key (some scope), clock) :: l') ≠ some none) ↔
      validateRequest ⟨scope, key, false⟩ = .ok () ∧
        ¬ Active (run (step policy hooked) {} l).scheduler key ∧
        (Refusing policy → hooked = false ∧
          blockedBy policy (run (step policy hooked) {} l).scheduler.active
            ⟨scope, key, false⟩ = [])) := by
  have hidle := idleScheduler_of_completed hcompleted
  have hbounded : Bounded policy runOf (run (step policy hooked) {} l) :=
    ⟨hone, bound_run hl, orderly_adapter (orderly_init policy) l⟩
  have hc := hcompleted c
  refine ⟨?_, ?_, ?_, ?_⟩
  · intro answer clock
    exact outcome_alone hbounded hidle hc hrun scope answer clock
  · intro clock l' hl' hanswers
    exact outcome_launch hbounded hidle hrun hc hl' hanswers
  · intro h
    have hother : ∀ (act : Act) (clock : ℕ → ℕ → ℤ), (∀ c answer, act ≠ .launched c answer) →
        (∀ c answer, act ≠ .lookedUp c answer) → ∀ s, Honors runOf s (act, clock) :=
      fun act clock h₁ h₂ s => honors_of_other h₁ h₂
    have hok : ∃ ticket, (acquire policy hooked ⟨scope, key, false⟩ false (fun _ => 0)
        (run (step policy hooked) {} l).scheduler).1 = .ok ticket := by
      have hstart := h (fun _ _ => 0) [] ⟨hother _ _ (by simp) (by simp) _, trivial⟩ (by simp)
      rw [outcome, ends_launch hc] at hstart
      cases hcall : (acquire policy hooked ⟨scope, key, false⟩ false (fun _ => 0)
          (run (step policy hooked) {} l).scheduler).1 with
      | error e =>
        rw [hcall] at hstart
        exact absurd rfl hstart
      | ok ticket => exact ⟨ticket, rfl⟩
    obtain ⟨hvalid, hinactive, hfree⟩ := (accepted_iff hidle).1 hok
    refine ⟨hvalid, hinactive, fun hpolicy => ⟨?_, hfree hpolicy⟩⟩
    refine unhooked_of_unrejected hidle hc hpolicy hvalid hinactive (hfree hpolicy) ?_
    exact h _ _ ⟨hother _ _ (by simp) (by simp) _, hother _ _ (by simp) (by simp) _,
      hother _ _ (by simp) (by simp) _, trivial⟩ (by simp)
  · rintro ⟨hvalid, hinactive, hpolicy⟩ clock l' hl' hanswers
    obtain ⟨ticket, hok⟩ := (@accepted_iff policy hooked _ ⟨scope, key, false⟩ (clock 0) hidle).2
      ⟨hvalid, hinactive, fun h => (hpolicy h).2⟩
    refine outcome_ne_none hbounded hc hrun hok ?_ hl' hanswers
    by_cases hrefusing : Refusing policy
    · exact Or.inr (hpolicy hrefusing).1
    · exact Or.inl hrefusing

/-! ## A run that still has its permit -/

def sampleScope : ConcurrencyScope := ⟨"host", "project", "agent", "workspace"⟩

/-- The provider has one run. -/
def sampleRunOf (key : String) : Option String := if key = "key" then some "run" else none

theorem sampleRunOf_one (key key' r : String) (h : sampleRunOf key = some r)
    (h' : sampleRunOf key' = some r) : key = key' := by
  unfold sampleRunOf at h h'
  split_ifs at h h' with hkey hkey'
  rw [hkey, hkey']

/-- The run is launched, and its end is observed or not. -/
def launchedOnce (observed : Bool) : List (Act × (ℕ → ℕ → ℤ)) :=
  [(.launch 0 "key" (some sampleScope), fun _ _ => 1000), (.acquired 0, fun _ _ => 1000),
    (.launched 0 (some "run"), fun _ _ => 1000),
    (.status "run" (some ("run", if observed then .succeeded else .running)), fun _ _ => 1000)]

theorem launchedOnce_honors (observed : Bool) :
    Admissible (step {} false) (Honors sampleRunOf) {} (launchedOnce observed) := by
  refine ⟨honors_of_other (by simp) (by simp), honors_of_other (by simp) (by simp), ⟨?_, by simp⟩,
    honors_of_other (by simp) (by simp), trivial⟩
  intro c key release r hanswer hcall
  cases hanswer
  have hlaunching : (run (step {} false) {} ((launchedOnce observed).take 2)).calls 0 =
      some (.launching "key" 0) := by
    cases observed <;> decide +kernel
  cases Option.some.inj (hlaunching.symm.trans hcall)
  rfl

theorem launchedOnce_completed (observed : Bool) (c : ℕ) :
    (run (step {} false) {} (launchedOnce observed)).calls c = none := by
  by_cases hc : c = 0
  · rw [hc]
    cases observed <;> decide +kernel
  · have hother : ∀ i ∈ launchedOnce observed, i.1.call ≠ some c := by
      simp [launchedOnce, Act.call, Ne.symm hc]
    rw [calls_run_of_ne hother]

/-- **A launch that is rejected although the provider has the run**: the run was launched under the
key and still has its permit. -/
theorem held_run_rejected :
    Admissible (step {} false) (Honors sampleRunOf) {} (launchedOnce false) ∧
      (∀ c, (run (step {} false) {} (launchedOnce false)).calls c = none) ∧
      sampleRunOf "key" = some "run" ∧
      outcome {} false 0 (run (step {} false) {} (launchedOnce false))
        (alone 0 "key" "run" sampleScope .interrupted fun _ _ _ => 1000) = some none := by
  refine ⟨launchedOnce_honors false, launchedOnce_completed false, rfl, ?_⟩
  decide +kernel

/-- The end of the run was observed, and its permit is back. -/
theorem relaunches_iff_sample :
    outcome {} false 0 (run (step {} false) {} (launchedOnce true))
      (alone 0 "key" "run" sampleScope .interrupted fun _ _ _ => 1000) = some (some "run") := by
  have hactive : (run (step {} false) {} (launchedOnce true)).scheduler.active = [] := by
    decide +kernel
  refine ((relaunches_iff {} false sampleRunOf sampleRunOf_one (launchedOnce true)
    (launchedOnce_honors true) (launchedOnce_completed true) 0 "key" "run" rfl sampleScope).1
    .interrupted _).2 ⟨by decide, ?_, ?_, by decide, by simp⟩
  · rintro ⟨r, hr, -⟩
    rw [hactive] at hr
    cases hr
  · rw [hactive]
    decide +kernel

end AgentOrchestrator.Limited
