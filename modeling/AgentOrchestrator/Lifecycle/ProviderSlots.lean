import AgentOrchestrator.Library.Runs
import Mathlib.Data.Int.Order.Basic
import Mathlib.Data.List.Nodup
import Mathlib.Data.List.Infix

/-!
# The slots of `providerCall`

`providerCall` takes a slot, starts its operation, and gives the slot back when the operation has
settled.  Every continuation after an `await` is a step of its own, as are the timer of a call and
the end of its operation.  A call that finds all slots taken waits; a released slot is signalled to
the first waiter, which takes it when it goes on.  By then another call may have taken it, and the
waiter does not look at the counter again.
-/

namespace AgentOrchestrator.Lifecycle.Slots

open Runs

def maxProviderConcurrency : ℤ := 4

/-! ## The machine -/

/-- Where a call of `providerCall` stands. -/
inductive Stage where
  /-- in `acquireProviderSlot`, among the waiters -/
  | queued
  /-- its waiter was resolved -/
  | woken
  /-- its waiter was rejected -/
  | refused
  /-- `acquireProviderSlot` took a slot and returned -/
  | slotted
  /-- awaits the race of its operation and its timeout -/
  | running
  /-- left after its timeout, with the release put off until the operation settles -/
  | detached
  | finished
  deriving DecidableEq

/-- A call, with what happened to its operation and the slots it gave back. -/
structure Call where
  stage : Stage
  aborted : Bool := false
  started : Bool := false
  settled : Bool := false
  timedOut : Bool := false
  released : ℕ := 0
  deriving DecidableEq

/-- The service; a call is known by its position. -/
structure State where
  activeProviderOperations : ℤ := 0
  providerWaiters : List ℕ := []
  calls : List Call := []
  deriving DecidableEq

/-- The loop of `releaseProviderSlot`. -/
def wakeWaiter : List ℕ → State → State
  | [], s => { s with providerWaiters := [] }
  | id :: waiters, s =>
    match s.calls[id]? with
    | none => wakeWaiter waiters s
    | some waiter =>
      if waiter.aborted then wakeWaiter waiters s
      else { s with providerWaiters := waiters
                    calls := s.calls.set id { waiter with stage := .woken } }

def releaseProviderSlot (s : State) : State :=
  wakeWaiter s.providerWaiters { s with activeProviderOperations := s.activeProviderOperations - 1 }

/-- The call gives its slot back and is over. -/
def giveBack (id : ℕ) (call : Call) (s : State) : State :=
  releaseProviderSlot
    { s with calls := s.calls.set id { call with stage := .finished
                                                 released := call.released + 1 } }

/-- A new call, until it awaits. -/
def providerCall (s : State) : State :=
  if s.activeProviderOperations ≥ maxProviderConcurrency then
    { s with providerWaiters := s.providerWaiters ++ [s.calls.length]
             calls := s.calls ++ [{ stage := .queued }] }
  else
    { s with activeProviderOperations := s.activeProviderOperations + 1
             calls := s.calls ++ [{ stage := .slotted }] }

/-- The timer of a call fires; it is cleared when the call is over.  A waiter leaves the queue, and
a call that waits for its operation times out. -/
def abort (id : ℕ) (call : Call) (s : State) : State :=
  if call.aborted ∨ call.stage = .finished then s
  else
    match call.stage with
    | .queued =>
      { s with providerWaiters := s.providerWaiters.filter fun w => w ≠ id
               calls := s.calls.set id { call with stage := .refused, aborted := true } }
    | .running =>
      { s with calls := s.calls.set id { call with aborted := true, timedOut := true } }
    | _ => { s with calls := s.calls.set id { call with aborted := true } }

/-- The operation is called, and throws or returns a promise. -/
def start (id : ℕ) (call : Call) (throws : Bool) (s : State) : State :=
  if call.stage = .slotted then
    if throws then giveBack id { call with started := true, settled := true } s
    else { s with calls := s.calls.set id { call with stage := .running, started := true } }
  else s

/-- The promise of the operation settles. -/
def settle (id : ℕ) (call : Call) (s : State) : State :=
  if call.started then { s with calls := s.calls.set id { call with settled := true } } else s

/-- The continuation of an `await` that is over. -/
def resume (id : ℕ) (call : Call) (s : State) : State :=
  match call.stage with
  | .woken =>
    if call.aborted then { s with calls := s.calls.set id { call with stage := .finished } }
    else
      { s with activeProviderOperations := s.activeProviderOperations + 1
               calls := s.calls.set id { call with stage := .slotted } }
  | .refused => { s with calls := s.calls.set id { call with stage := .finished } }
  | .running =>
    if call.timedOut then { s with calls := s.calls.set id { call with stage := .detached } }
    else if call.settled then giveBack id call s
    else s
  | .detached => if call.settled then giveBack id call s else s
  | _ => s

inductive Act where
  | call
  | abort (id : ℕ)
  | start (id : ℕ) (throws : Bool)
  | settle (id : ℕ)
  | resume (id : ℕ)
  deriving DecidableEq

/-- What a step does to the call it is about. -/
def onCall (id : ℕ) (s : State) (f : Call → State → State) : State :=
  match s.calls[id]? with
  | none => s
  | some call => f call s

def step (s : State) : Act → State
  | .call => providerCall s
  | .abort id => onCall id s (abort id)
  | .start id throws => onCall id s fun call => start id call throws
  | .settle id => onCall id s (settle id)
  | .resume id => onCall id s (resume id)

/-! ## The books of the slots -/

/-- The call has taken a slot and not given it back. -/
def Call.holds (call : Call) : Bool :=
  match call.stage with
  | .slotted | .running | .detached => true
  | _ => false

/-- The operation of the call has started and not settled. -/
def Call.inFlight (call : Call) : Bool := call.started && !call.settled

def State.inFlight (s : State) : ℕ := s.calls.countP Call.inFlight

/-- The operation of a call starts when it has a slot, and a call that started one is over when it
has settled and the slot is given back. -/
def Call.Sound (call : Call) : Prop :=
  match call.stage with
  | .running | .detached => call.started = true ∧ call.released = 0
  | .finished =>
    (call.started = false ∧ call.released = 0) ∨
      (call.started = true ∧ call.settled = true ∧ call.released = 1)
  | _ => call.started = false ∧ call.released = 0

/-- The counter counts the slots, and the waiters are the queued calls. -/
structure Consistent (s : State) : Prop where
  sound : ∀ call ∈ s.calls, call.Sound
  count : s.activeProviderOperations = s.calls.countP Call.holds
  nodup : s.providerWaiters.Nodup
  waiting : ∀ id ∈ s.providerWaiters, ∃ call, s.calls[id]? = some call ∧ call.stage = .queued

/-- One for a call that holds a slot. -/
def Call.slots (call : Call) : ℤ := if call.holds then 1 else 0

theorem countP_set {calls : List Call} {id : ℕ} {call call' : Call}
    (h : calls[id]? = some call) :
    ((calls.set id call').countP Call.holds : ℤ) =
      calls.countP Call.holds - call.slots + call'.slots := by
  obtain ⟨hlt, hcall⟩ := List.getElem?_eq_some_iff.1 h
  have hle : (if Call.holds calls[id] then 1 else 0) ≤ calls.countP Call.holds := by
    split_ifs with hholds
    · exact List.countP_pos_iff.2 ⟨_, List.getElem_mem hlt, hholds⟩
    · exact Nat.zero_le _
  rw [List.countP_set hlt]
  rw [hcall] at hle ⊢
  unfold Call.slots
  split_ifs at hle ⊢ <;> push_cast <;> omega

variable {s : State} {id : ℕ} {call call' : Call}

theorem Consistent.soundAt (hs : Consistent s) (h : s.calls[id]? = some call) : call.Sound :=
  hs.sound call (List.mem_of_getElem? h)

theorem Consistent.not_waiting (hs : Consistent s) (h : s.calls[id]? = some call)
    (hstage : call.stage ≠ .queued) : id ∉ s.providerWaiters := by
  intro hid
  obtain ⟨other, hother, hqueued⟩ := hs.waiting id hid
  rw [h] at hother
  exact hstage (Option.some.inj hother ▸ hqueued)

/-- A call that is not among the waiters any more moves on, and the counter follows. -/
theorem Consistent.set (hs : Consistent s) (h : s.calls[id]? = some call) (hsound : call'.Sound)
    {waiters : List ℕ} (hwaiters : waiters.Sublist s.providerWaiters) (hid : id ∉ waiters) :
    Consistent ⟨s.activeProviderOperations - call.slots + call'.slots, waiters,
      s.calls.set id call'⟩ := by
  refine ⟨?_, ?_, hs.nodup.sublist hwaiters, ?_⟩
  · intro other hother
    rcases List.mem_or_eq_of_mem_set hother with hother | rfl
    · exact hs.sound other hother
    · exact hsound
  · show s.activeProviderOperations - call.slots + call'.slots = _
    rw [countP_set h, hs.count]
  · intro w hw
    obtain ⟨waiter, hwaiter, hqueued⟩ := hs.waiting w (hwaiters.subset hw)
    refine ⟨waiter, ?_, hqueued⟩
    show (s.calls.set id call')[w]? = _
    have hne : id ≠ w := by
      rintro rfl
      exact hid hw
    rw [List.getElem?_set_ne hne]
    exact hwaiter

/-- The same for a call that holds as many slots as before. -/
theorem Consistent.setSame (hs : Consistent s) (h : s.calls[id]? = some call)
    (hsound : call'.Sound) (hslots : call'.slots = call.slots) (hid : id ∉ s.providerWaiters) :
    Consistent { s with calls := s.calls.set id call' } := by
  have hset := hs.set h hsound (List.Sublist.refl _) hid
  rw [hslots, Int.sub_add_cancel] at hset
  exact hset

theorem Consistent.wake {waiters : List ℕ} (hs : Consistent { s with providerWaiters := waiters }) :
    Consistent (wakeWaiter waiters s) := by
  induction waiters with
  | nil => exact hs
  | cons w waiters ih =>
    have hrest : Consistent { s with providerWaiters := waiters } :=
      ⟨hs.sound, hs.count, (List.nodup_cons.1 hs.nodup).2,
        fun id hid => hs.waiting id (List.mem_cons_of_mem w hid)⟩
    obtain ⟨waiter, hwaiter, hqueued⟩ := hs.waiting w List.mem_cons_self
    have hwaiter : s.calls[w]? = some waiter := hwaiter
    rw [wakeWaiter, hwaiter]
    dsimp only
    split_ifs with haborted
    · exact ih hrest
    · have hslots : waiter.slots = 0 := by simp [Call.slots, Call.holds, hqueued]
      have hsound := hs.soundAt hwaiter
      have hwoken : Call.Sound { waiter with stage := .woken } := by
        rw [Call.Sound, hqueued] at hsound
        exact hsound
      exact hrest.setSame hwaiter hwoken (hslots ▸ rfl) (List.nodup_cons.1 hs.nodup).1

/-- A call that holds a slot and whose operation has settled gives the slot back. -/
theorem Consistent.giveBack (hs : Consistent s) (h : s.calls[id]? = some call)
    (hholds : call.holds = true) {call' : Call} (hstarted : call'.started = true)
    (hsettled : call'.settled = true) (hreleased : call'.released = 0) :
    Consistent (giveBack id call' s) := by
  have hstage : call.stage ≠ .queued := by
    intro hqueued
    rw [Call.holds, hqueued] at hholds
    cases hholds
  have hsound : Call.Sound { call' with stage := .finished, released := call'.released + 1 } :=
    Or.inr ⟨hstarted, hsettled, by rw [hreleased]⟩
  have hset := hs.set h hsound (List.Sublist.refl _) (hs.not_waiting h hstage)
  have hslots : call.slots = 1 := by rw [Call.slots, if_pos hholds]
  have hnone : Call.slots { call' with stage := .finished, released := call'.released + 1 } = 0 :=
    rfl
  rw [hslots, hnone, Int.add_zero] at hset
  exact Consistent.wake hset

/-! ## Steps -/

theorem consistent_providerCall (hs : Consistent s) : Consistent (providerCall s) := by
  have happend : ∀ stage, (⟨stage, false, false, false, false, 0⟩ : Call).Sound →
      ∀ other ∈ s.calls ++ [⟨stage, false, false, false, false, 0⟩], other.Sound := by
    intro stage hsound other hother
    rcases List.mem_append.1 hother with hother | hother
    · exact hs.sound other hother
    · rw [List.mem_singleton.1 hother]
      exact hsound
  have hold : ∀ (call : Call), ∀ w ∈ s.providerWaiters,
      ∃ waiter, (s.calls ++ [call])[w]? = some waiter ∧ waiter.stage = .queued := by
    intro call w hw
    obtain ⟨waiter, hwaiter, hqueued⟩ := hs.waiting w hw
    have hlt : w < s.calls.length := (List.getElem?_eq_some_iff.1 hwaiter).1
    exact ⟨waiter, (List.getElem?_append_left hlt).trans hwaiter, hqueued⟩
  unfold providerCall
  split_ifs with hfull
  · refine ⟨happend .queued ⟨rfl, rfl⟩, ?_, ?_, ?_⟩
    · show s.activeProviderOperations = _
      rw [hs.count, List.countP_append]
      rfl
    · -- the position of a new call is not among the waiters yet
      refine List.nodup_append.2 ⟨hs.nodup, List.nodup_singleton _, ?_⟩
      intro w hw w' hw'
      obtain ⟨waiter, hwaiter, -⟩ := hs.waiting w hw
      have hlt : w < s.calls.length := (List.getElem?_eq_some_iff.1 hwaiter).1
      rw [List.mem_singleton.1 hw']
      exact Nat.ne_of_lt hlt
    · intro w hw
      rcases List.mem_append.1 hw with hw | hw
      · exact hold _ w hw
      · rw [List.mem_singleton.1 hw]
        exact ⟨_, List.getElem?_concat_length, rfl⟩
  · refine ⟨happend .slotted ⟨rfl, rfl⟩, ?_, hs.nodup, hold _⟩
    show s.activeProviderOperations + 1 = _
    rw [hs.count, List.countP_append]
    rfl

theorem Call.slots_eq_zero {call : Call} (h : call.holds = false) : call.slots = 0 := by
  rw [Call.slots, h]
  rfl

theorem consistent_abort (hs : Consistent s) (h : s.calls[id]? = some call) :
    Consistent (abort id call s) := by
  have hsound := hs.soundAt h
  unfold abort
  split_ifs with hover
  · exact hs
  · -- only a waiter changes its stage
    split
    · rename_i hstage
      have hslots : call.slots = 0 := Call.slots_eq_zero (by rw [Call.holds, hstage])
      have hrefused : Call.slots { call with stage := .refused, aborted := true } = 0 := rfl
      rw [Call.Sound, hstage] at hsound
      have hsound' : Call.Sound { call with stage := .refused, aborted := true } := hsound
      have hset := hs.set h hsound' (List.filter_sublist (p := fun w => decide (w ≠ id))) (by simp)
      rw [hslots, hrefused, Int.sub_zero, Int.add_zero] at hset
      exact hset
    · rename_i hstage
      exact hs.setSame h hsound rfl (hs.not_waiting h (by rw [hstage]; decide))
    · rename_i hqueued _
      exact hs.setSame h hsound rfl (hs.not_waiting h hqueued)

theorem consistent_start (hs : Consistent s) (h : s.calls[id]? = some call) (throws : Bool) :
    Consistent (start id call throws s) := by
  unfold start
  split_ifs with hstage hthrows
  · have hsound := hs.soundAt h
    rw [Call.Sound, hstage] at hsound
    exact hs.giveBack h (by rw [Call.holds, hstage]) rfl rfl hsound.2
  · have hsound := hs.soundAt h
    rw [Call.Sound, hstage] at hsound
    have hslots : call.slots = 1 := by rw [Call.slots, Call.holds, hstage]; rfl
    exact hs.setSame h ⟨rfl, hsound.2⟩ hslots.symm (hs.not_waiting h (by rw [hstage]; decide))
  · exact hs

theorem consistent_settle (hs : Consistent s) (h : s.calls[id]? = some call) :
    Consistent (settle id call s) := by
  unfold settle
  split_ifs with hstarted
  · have hsound := hs.soundAt h
    have hnot : ∀ stage, (stage = .queued ∨ stage = .woken ∨ stage = .refused ∨ stage = .slotted) →
        call.stage ≠ stage := by
      rintro stage hstage rfl
      rcases hstage with hstage | hstage | hstage | hstage
      all_goals
        rw [Call.Sound, hstage, hstarted] at hsound
        cases hsound.1
    refine hs.setSame h ?_ rfl (hs.not_waiting h (hnot _ (Or.inl rfl)))
    cases hstage : call.stage with
    | queued => exact absurd hstage (hnot _ (Or.inl rfl))
    | woken => exact absurd hstage (hnot _ (Or.inr (Or.inl rfl)))
    | refused => exact absurd hstage (hnot _ (Or.inr (Or.inr (Or.inl rfl))))
    | slotted => exact absurd hstage (hnot _ (Or.inr (Or.inr (Or.inr rfl))))
    | running =>
      rw [Call.Sound, hstage] at hsound
      exact hsound
    | detached =>
      rw [Call.Sound, hstage] at hsound
      exact hsound
    | finished =>
      rw [Call.Sound, hstage] at hsound
      exact hsound.imp_right fun ⟨hstarted, _, hreleased⟩ => ⟨hstarted, rfl, hreleased⟩
  · exact hs

theorem consistent_resume (hs : Consistent s) (h : s.calls[id]? = some call) :
    Consistent (resume id call s) := by
  have hsound := hs.soundAt h
  unfold resume
  cases hstage : call.stage with
  | queued => exact hs
  | slotted => exact hs
  | finished => exact hs
  | woken =>
    have hid := hs.not_waiting h (by rw [hstage]; decide)
    have hslots : call.slots = 0 := Call.slots_eq_zero (by rw [Call.holds, hstage])
    rw [Call.Sound, hstage] at hsound
    dsimp only
    split_ifs
    · exact hs.setSame h (Or.inl hsound) hslots.symm hid
    · have hsound' : Call.Sound { call with stage := .slotted } := hsound
      have hset := hs.set h hsound' (List.Sublist.refl _) hid
      have hone : Call.slots { call with stage := .slotted } = 1 := rfl
      rw [hslots, hone, Int.sub_zero] at hset
      exact hset
  | refused =>
    have hslots : call.slots = 0 := Call.slots_eq_zero (by rw [Call.holds, hstage])
    rw [Call.Sound, hstage] at hsound
    exact hs.setSame h (Or.inl hsound) hslots.symm (hs.not_waiting h (by rw [hstage]; decide))
  | running =>
    have hholds : call.holds = true := by rw [Call.holds, hstage]
    rw [Call.Sound, hstage] at hsound
    dsimp only
    split_ifs with htimedOut hsettled
    · have hslots : call.slots = 1 := by rw [Call.slots, if_pos hholds]
      exact hs.setSame h hsound hslots.symm (hs.not_waiting h (by rw [hstage]; decide))
    · exact hs.giveBack h hholds hsound.1 hsettled hsound.2
    · exact hs
  | detached =>
    have hholds : call.holds = true := by rw [Call.holds, hstage]
    rw [Call.Sound, hstage] at hsound
    dsimp only
    split_ifs with hsettled
    · exact hs.giveBack h hholds hsound.1 hsettled hsound.2
    · exact hs

theorem consistent_onCall (hs : Consistent s) {f : Call → State → State}
    (hf : ∀ call, s.calls[id]? = some call → Consistent (f call s)) :
    Consistent (onCall id s f) := by
  unfold onCall
  cases h : s.calls[id]? with
  | none => exact hs
  | some call => exact hf call h

theorem consistent_step (s : State) (act : Act) (hs : Consistent s) : Consistent (step s act) := by
  cases act with
  | call => exact consistent_providerCall hs
  | abort id => exact consistent_onCall hs fun _ h => consistent_abort hs h
  | start id throws => exact consistent_onCall hs fun _ h => consistent_start hs h throws
  | settle id => exact consistent_onCall hs fun _ h => consistent_settle hs h
  | resume id => exact consistent_onCall hs fun _ h => consistent_resume hs h

theorem consistent_init : Consistent {} :=
  ⟨fun _ h => absurd h List.not_mem_nil, rfl, List.nodup_nil, fun _ h => absurd h List.not_mem_nil⟩

theorem consistent_run (l : List Act) : Consistent (run step {} l) :=
  run_invariant step consistent_step consistent_init l

/-! ## The bound -/

/-- A waiter that was woken and goes on finds a free slot. -/
def Roomy (s : State) (act : Act) : Prop :=
  ∀ id call, act = .resume id → s.calls[id]? = some call → call.stage = .woken →
    call.aborted = false → s.activeProviderOperations < maxProviderConcurrency

@[simp] theorem wakeWaiter_active (waiters : List ℕ) (s : State) :
    (wakeWaiter waiters s).activeProviderOperations = s.activeProviderOperations := by
  induction waiters with
  | nil => rfl
  | cons w waiters ih =>
    rw [wakeWaiter]
    split
    · exact ih
    · split_ifs
      · exact ih
      · rfl

@[simp] theorem giveBack_active (id : ℕ) (call : Call) (s : State) :
    (giveBack id call s).activeProviderOperations = s.activeProviderOperations - 1 :=
  wakeWaiter_active _ _

/-- The continuation of a woken waiter takes a slot whatever the counter says; nothing else takes
more slots than there are. -/
theorem active_resume (h : s.activeProviderOperations ≤ maxProviderConcurrency) (id : ℕ)
    (call : Call) :
    (resume id call s).activeProviderOperations ≤ maxProviderConcurrency ↔
      (call.stage = .woken → call.aborted = false →
        s.activeProviderOperations < maxProviderConcurrency) := by
  have hless : s.activeProviderOperations - 1 ≤ maxProviderConcurrency := by omega
  unfold resume
  cases hstage : call.stage with
  | woken =>
    dsimp only
    split_ifs with haborted
    · simp [h, haborted]
    · rw [Bool.not_eq_true] at haborted
      exact ⟨fun hle _ _ => Int.lt_of_add_one_le hle,
        fun hlt => Int.add_one_le_of_lt (hlt rfl haborted)⟩
  | running =>
    dsimp only
    split_ifs <;> simp [h, hless]
  | detached =>
    dsimp only
    split_ifs <;> simp [h, hless]
  | _ => simp [h]

theorem active_step (h : s.activeProviderOperations ≤ maxProviderConcurrency) (act : Act) :
    (step s act).activeProviderOperations ≤ maxProviderConcurrency ↔ Roomy s act := by
  have hless : s.activeProviderOperations - 1 ≤ maxProviderConcurrency := by omega
  have hvacuous : (∀ id, act ≠ .resume id) → Roomy s act :=
    fun hact id _ hresume => absurd hresume (hact id)
  cases act with
  | call =>
    refine iff_of_true ?_ (hvacuous (by simp))
    show (providerCall s).activeProviderOperations ≤ _
    unfold providerCall
    split_ifs with hfull
    · exact h
    · exact Int.add_one_le_iff.2 (not_le.1 hfull)
  | abort id =>
    refine iff_of_true ?_ (hvacuous (by simp))
    show (onCall id s (abort id)).activeProviderOperations ≤ _
    unfold onCall
    split
    · exact h
    · unfold abort
      split_ifs
      · exact h
      · split <;> exact h
  | start id throws =>
    refine iff_of_true ?_ (hvacuous (by simp))
    show (onCall id s fun call => start id call throws).activeProviderOperations ≤ _
    unfold onCall
    split
    · exact h
    · dsimp only
      unfold start
      split_ifs
      · rw [giveBack_active]
        exact hless
      · exact h
      · exact h
  | settle id =>
    refine iff_of_true ?_ (hvacuous (by simp))
    show (onCall id s (settle id)).activeProviderOperations ≤ _
    unfold onCall
    split
    · exact h
    · unfold settle
      split_ifs <;> exact h
  | resume id =>
    show (onCall id s (resume id)).activeProviderOperations ≤ _ ↔ _
    unfold onCall
    cases hcall : s.calls[id]? with
    | none =>
      refine iff_of_true h ?_
      intro id' call hid hother
      cases hid
      rw [hcall] at hother
      cases hother
    | some call =>
      dsimp only
      rw [active_resume h]
      constructor
      · intro hroom id' other hid hother
        cases hid
        rw [hcall] at hother
        cases hother
        exact hroom
      · intro hroomy
        exact hroomy id call rfl hcall

/-- **The counter stays within its bound exactly when every woken waiter that goes on finds a free
slot.** -/
theorem slots_bounded_iff_roomy (l : List Act) :
    (∀ l', l' <+: l → (run step {} l').activeProviderOperations ≤ maxProviderConcurrency) ↔
      Admissible step Roomy {} l :=
  forall_prefix_iff_admissible step (I := fun _ => True)
    (P := fun s => s.activeProviderOperations ≤ maxProviderConcurrency)
    (fun _ _ _ => trivial) (fun _ act _ h => active_step h act) trivial (by decide) l

/-- An operation in flight holds a slot. -/
theorem Consistent.inFlight_le (hs : Consistent s) :
    (s.inFlight : ℤ) ≤ s.activeProviderOperations := by
  rw [hs.count]
  refine Int.ofNat_le.2 (List.countP_mono_left ?_)
  intro call hcall hflight
  have hsound := hs.sound call hcall
  obtain ⟨hstarted, hsettled⟩ := Bool.and_eq_true_iff.1 hflight
  rw [Bool.not_eq_true'] at hsettled
  rw [Call.holds]
  cases hstage : call.stage with
  | running => rfl
  | detached => rfl
  | slotted => rfl
  | finished =>
    rw [Call.Sound, hstage] at hsound
    rcases hsound with ⟨hnot, -⟩ | ⟨-, hdone, -⟩
    · rw [hstarted] at hnot
      cases hnot
    · rw [hsettled] at hdone
      cases hdone
  | _ =>
    rw [Call.Sound, hstage, hstarted] at hsound
    cases hsound.1

/-! ## Giving slots back -/

theorem wakeWaiter_getElem? {waiters : List ℕ} (hid : id ∉ waiters) :
    (wakeWaiter waiters s).calls[id]? = s.calls[id]? := by
  induction waiters with
  | nil => rfl
  | cons w waiters ih =>
    obtain ⟨hne, hid⟩ := not_or.1 (fun h => hid (List.mem_cons.2 h))
    rw [wakeWaiter]
    split
    · exact ih hid
    · split_ifs
      · exact ih hid
      · exact List.getElem?_set_ne (Ne.symm hne)

theorem giveBack_getElem? (h : s.calls[id]? = some call) (hid : id ∉ s.providerWaiters)
    (call' : Call) :
    (giveBack id call' s).calls[id]? =
      some { call' with stage := .finished, released := call'.released + 1 } := by
  have hlt : id < s.calls.length := (List.getElem?_eq_some_iff.1 h).1
  unfold giveBack releaseProviderSlot
  rw [wakeWaiter_getElem? hid]
  exact List.getElem?_set_self hlt

theorem step_resume (h : s.calls[id]? = some call) : step s (.resume id) = resume id call s := by
  show onCall id s (resume id) = _
  rw [onCall, h]

theorem resume_finished (h : s.calls[id]? = some call) (hstage : call.stage = .finished) :
    step s (.resume id) = s := by
  rw [step_resume h, resume, hstage]

/-- The continuation of a call whose operation has settled in time. -/
theorem resume_giveBack (hs : Consistent s) (h : s.calls[id]? = some call)
    (hstage : call.stage = .running ∧ call.timedOut = false ∨ call.stage = .detached)
    (hsettled : call.settled = true) :
    ∃ call', (step s (.resume id)).calls[id]? = some call' ∧ call'.stage = .finished ∧
      call'.released = call.released + 1 := by
  have hid : id ∉ s.providerWaiters := by
    refine hs.not_waiting h ?_
    rcases hstage with ⟨hstage, -⟩ | hstage <;> rw [hstage] <;> decide
  have hresume : step s (.resume id) = giveBack id call s := by
    rw [step_resume h, resume]
    rcases hstage with ⟨hstage, htimedOut⟩ | hstage
    · rw [hstage]
      simp [htimedOut, hsettled]
    · rw [hstage]
      simp [hsettled]
  rw [hresume, giveBack_getElem? h hid]
  exact ⟨_, rfl, rfl, rfl⟩

/-- What the calls owe for their slots. -/
structure SlotsKept (s : State) : Prop where
  nonneg : 0 ≤ s.activeProviderOperations
  once : ∀ call ∈ s.calls, call.released ≤ 1
  /-- A slot is given back by a call whose operation has settled. -/
  afterwards : ∀ call ∈ s.calls, 0 < call.released → call.started = true ∧ call.settled = true
  finished : ∀ call ∈ s.calls, call.started = true → call.stage = .finished → call.released = 1
  /-- When the operation has settled, the continuations of the call give its slot back, also after
  a timeout. -/
  due : ∀ id call, s.calls[id]? = some call → call.started = true → call.settled = true →
    ∃ call', (run step s [.resume id, .resume id]).calls[id]? = some call' ∧ call'.released = 1

theorem Call.Sound.released_cases (h : call.Sound) :
    call.released = 0 ∨ call.released = 1 ∧ call.started = true ∧ call.settled = true := by
  rw [Call.Sound] at h
  split at h
  · exact Or.inl h.2
  · exact Or.inl h.2
  · rcases h with ⟨-, hnone⟩ | ⟨hstarted, hsettled, hone⟩
    · exact Or.inl hnone
    · exact Or.inr ⟨hone, hstarted, hsettled⟩
  · exact Or.inl h.2

theorem Consistent.due (hs : Consistent s) (h : s.calls[id]? = some call)
    (hstarted : call.started = true) (hsettled : call.settled = true) :
    ∃ call', (run step s [.resume id, .resume id]).calls[id]? = some call' ∧
      call'.released = 1 := by
  have hsound := hs.soundAt h
  rw [run_cons, run_cons, run_nil]
  -- a first continuation that gives the slot back leaves the second one nothing to do
  have hback : (call.stage = .running ∧ call.timedOut = false ∨ call.stage = .detached) →
      call.released = 0 → ∃ call', (step (step s (.resume id)) (.resume id)).calls[id]? =
        some call' ∧ call'.released = 1 := by
    intro hstage hreleased
    obtain ⟨call', hcall', hfinished, hone⟩ := resume_giveBack hs h hstage hsettled
    rw [resume_finished hcall' hfinished]
    exact ⟨call', hcall', by rw [hone, hreleased]⟩
  cases hstage : call.stage with
  | running =>
    rw [Call.Sound, hstage] at hsound
    cases htimedOut : call.timedOut with
    | false => exact hback (Or.inl ⟨hstage, htimedOut⟩) hsound.2
    | true =>
      have hdetached : (step s (.resume id)).calls[id]? =
          some { call with stage := .detached } := by
        rw [step_resume h, resume, hstage]
        simp only [htimedOut, if_true]
        exact List.getElem?_set_self (List.getElem?_eq_some_iff.1 h).1
      obtain ⟨call', hcall', -, hone⟩ :=
        resume_giveBack (consistent_step s _ hs) hdetached (Or.inr rfl) hsettled
      exact ⟨call', hcall', by rw [hone, hsound.2]⟩
  | detached =>
    rw [Call.Sound, hstage] at hsound
    exact hback (Or.inr hstage) hsound.2
  | finished =>
    rw [Call.Sound, hstage] at hsound
    rw [resume_finished h hstage, resume_finished h hstage]
    rcases hsound with ⟨hnot, -⟩ | ⟨-, -, hone⟩
    · rw [hstarted] at hnot
      cases hnot
    · exact ⟨call, h, hone⟩
  | _ =>
    rw [Call.Sound, hstage, hstarted] at hsound
    cases hsound.1

theorem Consistent.slotsKept (hs : Consistent s) : SlotsKept s := by
  refine ⟨?_, ?_, ?_, ?_, fun id call => hs.due⟩
  · rw [hs.count]
    exact Int.natCast_nonneg _
  · intro call hcall
    rcases (hs.sound call hcall).released_cases with h | ⟨h, -⟩ <;> omega
  · intro call hcall hreleased
    rcases (hs.sound call hcall).released_cases with h | ⟨-, h⟩
    · omega
    · exact h
  · intro call hcall hstarted hstage
    have hsound := hs.sound call hcall
    rw [Call.Sound, hstage] at hsound
    rcases hsound with ⟨hnot, -⟩ | ⟨-, -, hone⟩
    · rw [hstarted] at hnot
      cases hnot
    · exact hone

/-- **Every run keeps its slots, and in a run in which each woken waiter finds a free slot when it
goes on, no more operations are in flight than `MAX_PROVIDER_CONCURRENCY`.** -/
theorem provider_operations_bounded (l : List Act) :
    (∀ l', l' <+: l → SlotsKept (run step {} l')) ∧
      (Admissible step Roomy {} l →
        ∀ l', l' <+: l → ((run step {} l').inFlight : ℤ) ≤ maxProviderConcurrency) := by
  constructor
  · intro l' _
    exact (consistent_run l').slotsKept
  · intro hroomy l' hl'
    exact Int.le_trans (consistent_run l').inFlight_le ((slots_bounded_iff_roomy l).2 hroomy l' hl')

/-- Four operations run and a fifth call waits.  The first operation settles, the fifth call goes on
with its slot, and a sixth one waits. -/
def wokenWaiter : List Act :=
  [.call, .call, .call, .call, .start 0 false, .start 1 false, .start 2 false, .start 3 false, .call,
    .settle 0, .resume 0, .resume 4, .call, .start 4 false]

theorem provider_operations_bounded_sample :
    Admissible step Roomy {} wokenWaiter ∧ (run step {} wokenWaiter).inFlight = 4 ∧
      ∀ l', l' <+: wokenWaiter → ((run step {} l').inFlight : ℤ) ≤ maxProviderConcurrency := by
  have hroomy : Admissible step Roomy {} wokenWaiter := by
    refine (slots_bounded_iff_roomy wokenWaiter).1 fun l' hl' => ?_
    have hslots : ∀ l' ∈ wokenWaiter.inits,
        (run step {} l').activeProviderOperations ≤ maxProviderConcurrency := by decide
    exact hslots l' ((List.mem_inits l' wokenWaiter).2 hl')
  exact ⟨hroomy, by decide, (provider_operations_bounded wokenWaiter).2 hroomy⟩

/-- Four operations run and a fifth call waits.  The first operation settles and wakes it, a sixth
call takes the free slot, and then the fifth goes on. -/
def overtakenWaiter : List Act :=
  [.call, .call, .call, .call, .start 0 false, .start 1 false, .start 2 false, .start 3 false, .call,
    .settle 0, .resume 0, .call, .resume 4, .start 5 false, .start 4 false]

/-- **Five operations in flight.** -/
theorem overtaken_waiter_overshoots :
    ¬ ((run step {} overtakenWaiter).inFlight : ℤ) ≤ maxProviderConcurrency := by
  decide

end AgentOrchestrator.Lifecycle.Slots
