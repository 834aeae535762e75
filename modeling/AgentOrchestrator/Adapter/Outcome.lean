import AgentOrchestrator.Adapter.Idle
import AgentOrchestrator.Scheduler.Fairness

/-!
# How a launch ends

`launch` throws when its scope cannot be resolved, when the scheduler rejects its request, at once
or later, when the provider fails, and when the run of the answer is held for another key.  Else it
returns the run of the answer (`ends`, `outcome`).  Between its request and its end a call of
`launch` awaits the scheduler and then the provider, whatever other calls do (`calls_step_of_ne`).
-/

namespace AgentOrchestrator.Limited

open Scheduler Runs

variable (policy : ConcurrencyPolicy) (hooked : Bool)

/-- How a call of `launch` ends in a step, if it does: it returns a run, or throws (`none`). -/
def ends (c : ℕ) (s : State) (i : Act × (ℕ → ℕ → ℤ)) : Option (Option String) :=
  match i.1 with
  | .launch c' key scope =>
    if c' ≠ c ∨ s.calls c ≠ none then none
    else
      match scope with
      | none => some none
      | some scope =>
        match (Scheduler.acquire policy hooked ⟨scope, key, false⟩ false (i.2 0) s.scheduler).1 with
        | .error _ => some none
        | .ok _ => none
  | .acquired c' =>
    match s.calls c with
    | some (.acquiring _ ticket) =>
      if c' ≠ c then none
      else
        match settlement ticket s.scheduler.log with
        | some (.error _) => some none
        | _ => none
    | _ => none
  | .launched c' answer =>
    match s.calls c with
    | some (.launching key _) =>
      if c' ≠ c then none
      else
        match answer with
        | none => some none
        | some runId =>
          match s.releases runId with
          | none => some (some runId)
          | some existing =>
            if existing.idempotencyKey ≠ key then some none else some (some runId)
    | _ => none
  | _ => none

/-- How a call of `launch` ends in a run, if it does. -/
def outcome (c : ℕ) : State → List (Act × (ℕ → ℕ → ℤ)) → Option (Option String)
  | _, [] => none
  | s, i :: l => (ends policy hooked c s i).or (outcome c (step policy hooked s i) l)

variable {policy hooked} {s : State}

/-! ## Calls do not touch each other -/

/-- The call an act belongs to. -/
def Act.call : Act → Option ℕ
  | .launch c .. => some c
  | .findByIdempotencyKey c .. => some c
  | .acquired c => some c
  | .launched c _ => some c
  | .lookedUp c _ => some c
  | .inspected c _ => some c
  | .finished c => some c
  | _ => none

section Frame

variable {c c' : ℕ} (hne : c' ≠ c)
include hne

theorem calls_launch_of_ne (key : String) (scope : Option ConcurrencyScope) (clock : ℕ → ℤ) :
    (launch policy hooked c key scope clock s).calls c' = s.calls c' := by
  unfold launch
  split
  · rfl
  · split
    · rfl
    · exact Function.update_of_ne hne _ _

theorem calls_findByIdempotencyKey_of_ne (key : String) (scope : Option ConcurrencyScope) :
    (findByIdempotencyKey c key scope s).calls c' = s.calls c' := by
  unfold findByIdempotencyKey
  split_ifs
  · rfl
  · dsimp only
    split_ifs
    · cases scope with
      | none => rfl
      | some scope =>
        dsimp only
        split
        · rfl
        · exact Function.update_of_ne hne _ _
    · exact Function.update_of_ne hne _ _

theorem calls_acquired_of_ne (key : String) (ticket : ℕ) :
    (acquired c key ticket s).calls c' = s.calls c' := by
  unfold acquired
  split
  · rfl
  · exact Function.update_of_ne hne _ _
  · exact Function.update_of_ne hne _ _

theorem calls_launched_of_ne (key : String) (release : ℕ) (answer : Option String)
    (clock : ℕ → ℤ) :
    (launched policy hooked c key release answer clock s).calls c' = s.calls c' := by
  unfold launched
  split
  · exact Function.update_of_ne hne _ _
  · split
    · split_ifs <;> exact Function.update_of_ne hne _ _
    · exact Function.update_of_ne hne _ _

end Frame

theorem calls_callRelease? (permit : Option ℕ) (clock : ℕ → ℤ) :
    (callRelease? policy hooked permit clock s).calls = s.calls := by
  cases permit <;> rfl

theorem calls_releaseRun (runId : String) (clock : ℕ → ℤ) :
    (releaseRun policy hooked runId clock s).calls = s.calls := by
  unfold releaseRun
  split <;> rfl

theorem calls_markTerminalDuringRecovery (runId : String) :
    (markTerminalDuringRecovery runId s).calls = s.calls := by
  unfold markTerminalDuringRecovery
  split_ifs <;> rfl

section Frame

variable {c c' : ℕ} (hne : c' ≠ c)
include hne

theorem calls_lookedUp_of_ne (key : String) (u : Option ℕ) (rr : Option String)
    (rp : Option HeldPermit) (rec : Option ℕ) (answer : LookupAnswer) (clock : ℕ → ℕ → ℤ) :
    (lookedUp policy hooked c key u rr rp rec answer clock s).calls c' = s.calls c' := by
  cases answer with
  | failed => cases rec <;> exact Function.update_of_ne hne _ _
  | absent =>
    refine (Function.update_of_ne hne _ _).trans ?_
    cases rr with
    | none => rw [calls_callRelease?, calls_callRelease?]
    | some r => rw [calls_releaseRun, calls_callRelease?, calls_callRelease?]
  | found r =>
    unfold lookedUp
    cases u with
    | some p =>
      dsimp only [foundLaunch]
      split
      · split_ifs <;> exact Function.update_of_ne hne _ _
      · exact Function.update_of_ne hne _ _
    | none =>
      dsimp only
      split
      · refine (Function.update_of_ne hne _ _).trans ?_
        rw [calls_callRelease?]
      · split_ifs
        · exact Function.update_of_ne hne _ _
        · unfold foundRun
          cases rec with
          | none => exact Function.update_of_ne hne _ _
          | some p =>
            refine (Function.update_of_ne hne _ _).trans ?_
            dsimp only
            split_ifs <;> rfl

theorem calls_inspected_of_ne (key runId : String) (recovering : Bool) (answer : Option RunState)
    (clock : ℕ → ℤ) :
    (inspected policy hooked c key runId recovering answer clock s).calls c' = s.calls c' := by
  refine (Function.update_of_ne hne _ _).trans ?_
  cases answer with
  | none => rfl
  | some state =>
    dsimp only
    split_ifs
    · rfl
    · rw [calls_releaseRun]
    · rfl

theorem calls_finished_of_ne (key runId : String) (recovering : Bool) :
    (finished c key runId recovering s).calls c' = s.calls c' := by
  refine (Function.update_of_ne hne _ _).trans ?_
  cases recovering <;> rfl

end Frame

/-- An act of another call leaves a call as it is. -/
theorem calls_step_of_ne {c : ℕ} (i : Act × (ℕ → ℕ → ℤ)) (h : i.1.call ≠ some c) :
    (step policy hooked s i).calls c = s.calls c := by
  obtain ⟨act, clock⟩ := i
  have hne : ∀ c', act.call = some c' → c ≠ c' := by
    rintro c' hc' rfl
    exact h hc'
  cases act with
  | launch c' key scope =>
    dsimp only [step]
    split
    · exact calls_launch_of_ne (hne c' rfl) key scope (clock 0)
    · rfl
  | findByIdempotencyKey c' key scope =>
    dsimp only [step]
    split
    · exact calls_findByIdempotencyKey_of_ne (hne c' rfl) key scope
    · rfl
  | acquired c' =>
    dsimp only [step]
    split
    · exact calls_acquired_of_ne (hne c' rfl) _ _
    · rfl
  | launched c' answer =>
    dsimp only [step]
    split
    · exact calls_launched_of_ne (hne c' rfl) _ _ answer (clock 0)
    · rfl
  | lookedUp c' answer =>
    dsimp only [step]
    split
    · exact calls_lookedUp_of_ne (hne c' rfl) _ _ _ _ _ answer clock
    · rfl
  | inspected c' answer =>
    dsimp only [step]
    split
    · exact calls_inspected_of_ne (hne c' rfl) _ _ _ answer (clock 0)
    · rfl
  | finished c' =>
    dsimp only [step]
    split
    · exact calls_finished_of_ne (hne c' rfl) _ _ _
    · rfl
  | forget key =>
    dsimp only [step]
    split_ifs <;> rfl
  | status runId answer =>
    dsimp only [step, status]
    split
    · rfl
    · split_ifs
      · rfl
      · rw [calls_releaseRun, calls_markTerminalDuringRecovery]
      · rfl
  | result runId answer =>
    dsimp only [step, result]
    split_ifs
    · rw [calls_releaseRun, calls_markTerminalDuringRecovery]
    · rfl
  | cancel runId => rfl
  | pressure answer => rfl
  | wake => rfl

theorem calls_run_of_ne {c : ℕ} {l : List (Act × (ℕ → ℕ → ℤ))}
    (h : ∀ i ∈ l, i.1.call ≠ some c) : (run (step policy hooked) s l).calls c = s.calls c := by
  induction l generalizing s with
  | nil => rfl
  | cons i l ih =>
    rw [run_cons, ih fun j hj => h j (List.mem_cons_of_mem i hj),
      calls_step_of_ne i (h i List.mem_cons_self)]

/-- A launch that awaits the scheduler goes on when it is told of its permit. -/
theorem calls_step_acquiring {c : ℕ} {key : String} {ticket : ℕ}
    (hc : s.calls c = some (.acquiring key ticket)) {i : Act × (ℕ → ℕ → ℤ)}
    (hi : i.1 ≠ .acquired c) : (step policy hooked s i).calls c = some (.acquiring key ticket) := by
  by_cases hcall : i.1.call = some c
  · obtain ⟨act, clock⟩ := i
    cases act with
    | acquired c' =>
      cases hcall
      exact absurd rfl hi
    | _ => cases hcall <;> (dsimp only [step]; rw [hc]; exact hc)
  · rw [calls_step_of_ne i hcall, hc]

/-- A launch that awaits the provider goes on when it is answered. -/
theorem calls_step_launching {c : ℕ} {key : String} {release : ℕ}
    (hc : s.calls c = some (.launching key release)) {i : Act × (ℕ → ℕ → ℤ)}
    (hi : ∀ answer, i.1 ≠ .launched c answer) :
    (step policy hooked s i).calls c = some (.launching key release) := by
  by_cases hcall : i.1.call = some c
  · obtain ⟨act, clock⟩ := i
    cases act with
    | launched c' answer =>
      cases hcall
      exact absurd rfl (hi answer)
    | _ => cases hcall <;> (dsimp only [step]; rw [hc]; exact hc)
  · rw [calls_step_of_ne i hcall, hc]

/-! ## The end of a waiting launch -/

theorem settlement_ok {ticket permit : ℕ} {log : List Event}
    (h : settlement ticket log = some (.ok permit)) : ticket ∈ admissions log := by
  induction log with
  | nil => cases h
  | cons event log ih =>
    cases event with
    | admitted t request before =>
      rw [settlement] at h
      split_ifs at h with heq
      · exact heq ▸ List.mem_cons_self
      · exact List.mem_cons_of_mem _ (ih h)
    | rejected t error =>
      rw [settlement] at h
      split_ifs at h with heq
      · cases h
      · exact ih h
    | checked t => exact ih h
    | existing id => exact ih h

theorem settlement_error {ticket : ℕ} {error : SchedulerError} {log : List Event}
    (h : settlement ticket log = some (.error error)) : .rejected ticket error ∈ log := by
  induction log with
  | nil => cases h
  | cons event log ih =>
    cases event with
    | admitted t request before =>
      rw [settlement] at h
      split_ifs at h with heq
      · cases h
      · exact List.mem_cons_of_mem _ (ih h)
    | rejected t e =>
      rw [settlement] at h
      split_ifs at h with heq
      · cases h
        exact heq ▸ List.mem_cons_self
      · exact List.mem_cons_of_mem _ (ih h)
    | checked t => exact List.mem_cons_of_mem _ (ih h)
    | existing id => exact List.mem_cons_of_mem _ (ih h)

/-- What every step of the scheduler keeps, every run of the adapter keeps. -/
theorem keeps_run {P : Scheduler.State → Prop}
    (hstep : ∀ sched i, P sched → P (Scheduler.step policy hooked sched i)) (h : P s.scheduler)
    (l : List (Act × (ℕ → ℕ → ℤ))) : P (run (step policy hooked) s l).scheduler := by
  refine run_invariant (step policy hooked) (P := fun s => P s.scheduler) ?_ h l
  intro s i h
  refine keeps_step ?_ ?_ ?_ ?_ ?_ i h
  · intro request clock sched h
    exact hstep sched (.acquire request false, clock) h
  · intro request sched h
    exact hstep sched (.acquireExisting request, fun _ => 0) h
  · intro permit clock sched h
    exact hstep sched (.release permit, clock) h
  · intro answer clock sched h
    exact hstep sched (.answer answer, clock) h
  · intro clock sched h
    exact hstep sched (.wake, clock) h

theorem orderly_adapter (hs : Orderly policy s.scheduler) (l : List (Act × (ℕ → ℕ → ℤ))) :
    Orderly policy (run (step policy hooked) s l).scheduler :=
  keeps_run (P := Orderly policy) Orderly.step hs l

/-- A request that was rejected is not admitted later. -/
theorem not_admitted_later (hs : Orderly policy s.scheduler) {ticket : ℕ} {error : SchedulerError}
    (h : settlement ticket s.scheduler.log = some (.error error)) (l : List (Act × (ℕ → ℕ → ℤ)))
    (permit : ℕ) :
    settlement ticket (run (step policy hooked) s l).scheduler.log ≠ some (.ok permit) := by
  intro hok
  have hrejected : .rejected ticket error ∈ (run (step policy hooked) s l).scheduler.log :=
    keeps_run (P := fun sched => .rejected ticket error ∈ sched.log)
      (fun sched i h => (later_step sched i).log.subset h) (settlement_error h) l
  exact (orderly_adapter hs l).not_admitted hrejected (settlement_ok hok)

/-- The provider answers the launch. -/
def Answered (c : ℕ) (l : List (Act × (ℕ → ℕ → ℤ))) : Prop := ∃ i ∈ l, ∃ answer, i.1 = .launched c answer

theorem answered_cons {c : ℕ} {i : Act × (ℕ → ℕ → ℤ)} {l : List (Act × (ℕ → ℕ → ℤ))} :
    Answered c (i :: l) ↔ (∃ answer, i.1 = .launched c answer) ∨ Answered c l := by
  simp [Answered]

variable (policy hooked) in
/-- The turn of a launch comes: the scheduler admits its request, the launch goes on with the
permit, and the provider answers it. -/
def TurnComes (s : State) (c ticket : ℕ) (l : List (Act × (ℕ → ℕ → ℤ))) : Prop :=
  ∃ l₁ clock l₂, l = l₁ ++ (.acquired c, clock) :: l₂ ∧
    (∃ permit, settlement ticket (run (step policy hooked) s l₁).scheduler.log =
      some (.ok permit)) ∧ Answered c l₂

theorem turnComes_cons {c ticket : ℕ} {i : Act × (ℕ → ℕ → ℤ)} {l : List (Act × (ℕ → ℕ → ℤ))} :
    TurnComes policy hooked s c ticket (i :: l) ↔
      (i.1 = .acquired c ∧ (∃ permit, settlement ticket s.scheduler.log = some (.ok permit)) ∧
        Answered c l) ∨
      TurnComes policy hooked (step policy hooked s i) c ticket l := by
  constructor
  · rintro ⟨l₁, clock, l₂, heq, hadmitted, hanswered⟩
    cases l₁ with
    | nil =>
      obtain ⟨rfl, rfl⟩ := List.cons.inj heq
      exact Or.inl ⟨rfl, hadmitted, hanswered⟩
    | cons j l₁ =>
      obtain ⟨rfl, rfl⟩ := List.cons.inj heq
      exact Or.inr ⟨l₁, clock, l₂, rfl, hadmitted, hanswered⟩
  · rintro (⟨hi, hadmitted, hanswered⟩ | ⟨l₁, clock, l₂, rfl, hadmitted, hanswered⟩)
    · obtain ⟨act, clock⟩ := i
      cases hi
      exact ⟨[], clock, l, rfl, hadmitted, hanswered⟩
    · exact ⟨i :: l₁, clock, l₂, rfl, hadmitted, hanswered⟩

theorem TurnComes.answered {c ticket : ℕ} {l : List (Act × (ℕ → ℕ → ℤ))}
    (h : TurnComes policy hooked s c ticket l) : Answered c l := by
  obtain ⟨l₁, clock, l₂, rfl, -, i, hi, hanswer⟩ := h
  exact ⟨i, List.mem_append_right _ (List.mem_cons_of_mem _ hi), hanswer⟩

end AgentOrchestrator.Limited
