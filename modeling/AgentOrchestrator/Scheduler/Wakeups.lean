import AgentOrchestrator.Scheduler.Model

/-!
# No wake-up is lost

`drain` returns at once when it is already draining, so a call that finds it waiting for a pressure
check leaves the queue to the loop that goes on after the check.  Whichever way the loop ends, it
leaves nothing behind that could go on by itself: the queue is empty, a limit blocks its head, or
the wake timer is set.
-/

namespace AgentOrchestrator.Scheduler

open Runs

variable {policy : ConcurrencyPolicy} {hooked : Bool} {s : State}

/-- When no drain is in progress, a limit blocks the head of the queue or the wake timer is set. -/
def Awake (policy : ConcurrencyPolicy) (s : State) : Prop :=
  s.checking = none → ∀ pending rest, s.queue = pending :: rest →
    blockedBy policy s.active pending.request ≠ [] ∨ s.wakeTimer.isSome = true

/-! ## Draining -/

theorem scheduleDrain_isSome (delay : Millis) (s : State) :
    (scheduleDrain delay s).wakeTimer.isSome = true := by
  unfold scheduleDrain
  split_ifs with h
  · exact h
  · rfl

theorem awake_of_timer (h : s.wakeTimer.isSome = true) : Awake policy s :=
  fun _ _ _ _ => Or.inr h

theorem awake_of_draining (h : s.checking.isSome = true) : Awake policy s := by
  intro hidle
  rw [hidle] at h
  cases h

/-- However the loop ends, it ends awake. -/
theorem drainFrom_awake {clock : ℕ → ℤ} {queue : List PendingRequest} {n : ℕ}
    (hqueue : s.queue = queue) : Awake policy (drainFrom policy hooked clock queue n s) := by
  induction queue generalizing n s with
  | nil =>
    intro _ pending rest h
    rw [drainFrom, hqueue] at h
    cases h
  | cons head queue ih =>
    rw [drainFrom]
    split_ifs with hblocked hwait hhook
    · intro _ pending rest h
      rw [hqueue] at h
      obtain rfl := (List.cons.inj h).1
      exact Or.inl hblocked
    · exact awake_of_timer (scheduleDrain_isSome _ s)
    · exact awake_of_draining rfl
    · exact ih rfl

/-- So does a call of `drain`, also one that leaves the queue to a drain in progress. -/
theorem drain_awake (clock : ℕ → ℤ) (s : State) : Awake policy (drain policy hooked clock s) := by
  unfold drain
  split_ifs with hdraining
  · exact awake_of_draining hdraining
  · exact drainFrom_awake rfl

theorem refuse_awake (decision : PressureDecision) (clock : ℕ → ℤ) (pending : PendingRequest)
    (rest : List PendingRequest) (s : State) :
    Awake policy (refuse policy hooked decision clock pending rest s) := by
  unfold refuse
  dsimp only
  split_ifs
  · exact drainFrom_awake rfl
  · exact awake_of_timer (scheduleDrain_isSome _ _)

theorem resumeDrain_awake (hs : Awake policy s) (answer : PressureAnswer) (clock : ℕ → ℤ) :
    Awake policy (resumeDrain policy hooked answer clock s) := by
  unfold resumeDrain
  cases hcheck : s.checking with
  | none => exact hs
  | some ticket =>
    dsimp only
    cases hqueue : s.queue with
    | nil =>
      intro _ pending rest h
      cases h
    | cons head rest =>
      dsimp only
      split_ifs with hother
      · exact drainFrom_awake rfl
      · cases answer.decision with
        | none => exact drainFrom_awake rfl
        | some decision =>
          dsimp only
          split_ifs
          · exact drainFrom_awake rfl
          · exact refuse_awake decision clock head rest _

/-! ## Calls -/

/-- One more active request unblocks nothing. -/
theorem acquireExisting_awake (hs : Awake policy s) (request : AdmissionRequest) :
    Awake policy (acquireExisting request s).2 := by
  rcases acquireExisting_cases request s with h | ⟨hnew, h⟩
  · rw [h]
    exact hs
  · rw [h]
    intro hidle pending rest hqueue
    refine (hs hidle pending rest hqueue).imp_left ?_
    intro hblocked hfree
    have hactive : setActive { request with abortable := false } s.active =
        s.active ++ [{ request with abortable := false }] := setActive_of_unknown hnew
    have hfree' : blockedBy policy (setActive { request with abortable := false } s.active)
        pending.request = [] := hfree
    rw [hactive] at hfree'
    exact hblocked (blockedBy_eq_nil_of_sublist (List.sublist_append_left _ _) hfree')

theorem step_awake (s : State) (i : Act × (ℕ → ℤ)) (hs : Awake policy s) :
    Awake policy (step policy hooked s i) := by
  obtain ⟨act, clock⟩ := i
  cases act with
  | acquire request aborted =>
    show Awake policy (acquire policy hooked request aborted clock s).2
    rcases acquire_cases policy hooked request aborted clock s with h | ⟨-, -, h⟩
    · rw [h]
      exact hs
    · rw [h]
      exact drain_awake clock _
  | acquireExisting request => exact acquireExisting_awake hs request
  | release permit =>
    show Awake policy (release policy hooked permit clock s)
    rcases release_cases policy hooked permit clock s with h | ⟨id, -, h⟩
    · rw [h]
      exact hs
    · rw [h]
      exact drain_awake clock _
  | abort ticket =>
    show Awake policy (abort policy hooked ticket clock s)
    unfold abort
    split_ifs
    · exact drain_awake clock _
    · exact hs
  | answer answer => exact resumeDrain_awake hs answer clock
  | wake =>
    show Awake policy (wake policy hooked clock s)
    unfold wake
    split_ifs
    · exact drain_awake clock _
    · exact hs

/-- **No wake-up is lost**: in every state a run reaches in which no drain is in progress, a limit
blocks the head of the queue, if there is one, or the wake timer is set. -/
theorem head_blocked_or_timer_set (policy : ConcurrencyPolicy) (hooked : Bool)
    (l : List (Act × (ℕ → ℤ))) : Awake policy (run (step policy hooked) {} l) := by
  refine run_invariant _ (P := Awake policy) step_awake ?_ l
  intro _ pending rest h
  cases h

end AgentOrchestrator.Scheduler
