import AgentOrchestrator.Library.Runs
import Mathlib.Data.List.Basic

/-!
# The dispatch loop

The launch service dispatches in passes: a pass reads the pending assignments and dispatches one after
another.  `launch` arms a timer that starts a pass, the server calls `dispatchPending` itself; a call
that finds a pass in progress starts none.  Here an assignment is its identity, and how its dispatch
ends is an input.

1. `Covered`: an assignment that a timer, or the pass in progress, will get to; `covered_step`.
2. `dispatched_iff`: a launch that comes while a pass has read the assignments without it stays
   pending when the loop comes to rest, and no other one does.
3. `covered_run`: in the passes of `launch`, failures do not lose an assignment either.
-/

namespace AgentOrchestrator.Launch.Loop

open Runs

/-! ## The machine -/

/-- A pass: what is left of the assignments it has read, `none` while it reads them; whether a dispatch
has failed; and whether a timer callback waits for its end. -/
structure Pass where
  rest : Option (List ℕ) := none
  failed : Bool := false
  retry : Bool := false
  deriving DecidableEq

/-- The assignments that are pending in the store, and the fields of the service. -/
structure State where
  pending : List ℕ := []
  settled : List ℕ := []
  dispatchTimer : Option ℕ := none
  dispatching : Option Pass := none
  stopped : Bool := false
  deriving DecidableEq

inductive Act where
  /-- `accept` or `acceptBatch`: the store holds the assignment -/
  | accept (id : ℕ)
  /-- `launch` goes on: `scheduleDispatch(0)` -/
  | launch
  /-- a caller of `dispatchPending` -/
  | dispatchPending
  /-- the callback of the timer -/
  | tick
  /-- `pendingAssignments` returns, or rejects -/
  | read (ok : Bool)
  /-- the next dispatch of the pass returns, or rejects -/
  | dispatch (ok : Bool)
  /-- the pass is over -/
  | finish
  /-- `stop` or `close` -/
  | stop
  deriving DecidableEq

variable (retryDelayMs : ℕ)

def scheduleDispatch (delayMs : ℕ) (s : State) : State :=
  if s.stopped ∨ s.dispatchTimer.isSome ∨ s.dispatching.isSome then s
  else { s with dispatchTimer := some delayMs }

def dispatchPending (s : State) : State :=
  if s.dispatching.isSome then s else { s with dispatching := some {} }

/-- The callback waits for the pass it finds or starts. -/
def tick (s : State) : State :=
  let s := dispatchPending { s with dispatchTimer := none }
  { s with dispatching := s.dispatching.map fun p => { p with retry := true } }

def step (s : State) : Act → State
  | .accept id =>
    if id ∈ s.pending ∨ id ∈ s.settled then s else { s with pending := s.pending ++ [id] }
  | .launch => scheduleDispatch 0 s
  | .dispatchPending => dispatchPending s
  | .tick => if s.dispatchTimer.isSome then tick s else s
  | .read ok =>
    match s.dispatching with
    | some { rest := none, failed, retry } =>
      { s with dispatching := some (if ok then ⟨some s.pending, failed, retry⟩
          else ⟨some [], true, retry⟩) }
    | _ => s
  | .dispatch ok =>
    match s.dispatching with
    | some { rest := some (id :: rest), failed, retry } =>
      if ok then { s with
        pending := s.pending.filter (· ≠ id)
        settled := if id ∈ s.pending then s.settled ++ [id] else s.settled
        dispatching := some ⟨some rest, failed, retry⟩ }
      else { s with dispatching := some ⟨some rest, true, retry⟩ }
    | _ => s
  | .finish =>
    match s.dispatching with
    | some { rest := some [], failed, retry } =>
      if failed ∧ retry then scheduleDispatch retryDelayMs { s with dispatching := none }
      else { s with dispatching := none }
    | _ => s
  | .stop => { s with stopped := true, dispatchTimer := none }

/-- The steps the service makes by itself. -/
def Act.isOwn : Act → Bool
  | .tick | .read _ | .dispatch _ | .finish => true
  | _ => false

/-- The steps the service makes by itself while the store and the provider work. -/
def Act.isSmooth : Act → Bool
  | .tick | .read true | .dispatch true | .finish => true
  | _ => false

/-- The service has nothing left to do. -/
def AtRest (s : State) : Prop := s.dispatchTimer = none ∧ s.dispatching = none

instance (s : State) : Decidable (AtRest s) := inferInstanceAs (Decidable (_ ∧ _))

/-! ## What is sure to be dispatched -/

/-- The pass will get to the assignment, or be followed by one that does. -/
def Pass.Covers (p : Pass) (id : ℕ) : Prop :=
  p.rest = none ∨ (∃ rest, p.rest = some rest ∧ id ∈ rest) ∨ (p.failed = true ∧ p.retry = true)

/-- The assignment is sure to be dispatched when no dispatch fails. -/
def Covered (s : State) (id : ℕ) : Prop :=
  match s.dispatching with
  | none => s.dispatchTimer.isSome = true
  | some p => p.Covers id

/-- The service runs in one of two ways: `launch` arms the timer, or the caller dispatches. -/
def Act.fits (byTimer : Bool) : Act → Bool
  | .launch => byTimer
  | .dispatchPending => !byTimer
  | _ => true

/-- The timer is not armed while a pass is in progress; with the timer, each pass has a callback that
waits for it. -/
structure Tidy (byTimer : Bool) (s : State) : Prop where
  one : s.dispatching = none ∨ s.dispatchTimer = none
  waited : byTimer = true → ∀ p, s.dispatching = some p → p.retry = true
  unarmed : byTimer = false → s.dispatchTimer = none ∧ ∀ p, s.dispatching = some p → p.retry = false

variable {retryDelayMs}

theorem scheduleDispatch_dispatching (delayMs : ℕ) (s : State) :
    (scheduleDispatch delayMs s).dispatching = s.dispatching ∧
      (scheduleDispatch delayMs s).pending = s.pending ∧
      (scheduleDispatch delayMs s).stopped = s.stopped := by
  unfold scheduleDispatch
  split_ifs <;> exact ⟨rfl, rfl, rfl⟩

/-- The timer is armed unless there is a reason not to. -/
theorem scheduleDispatch_timer (delayMs : ℕ) {s : State} (h : s.stopped = false)
    (hidle : s.dispatching = none) : (scheduleDispatch delayMs s).dispatchTimer.isSome = true := by
  unfold scheduleDispatch
  split_ifs with hwhy
  · rcases hwhy with hstopped | htimer | hpass
    · rw [h] at hstopped; cases hstopped
    · exact htimer
    · rw [hidle] at hpass; cases hpass
  · rfl

theorem scheduleDispatch_none (delayMs : ℕ) {s : State}
    (h : s.dispatching = none ∨ s.dispatchTimer = none) :
    (scheduleDispatch delayMs s).dispatching = none ∨
      (scheduleDispatch delayMs s).dispatchTimer = none := by
  unfold scheduleDispatch
  split_ifs with hwhy
  · exact h
  · left
    cases hpass : s.dispatching with
    | none => rfl
    | some p => exact absurd (Or.inr (Or.inr (by rw [hpass]; rfl))) hwhy

section Tidy

variable {byTimer : Bool} {s : State}

/-- A pass that goes on. -/
theorem Tidy.pass (h : Tidy byTimer s) {p q : Pass} (hp : s.dispatching = some p)
    (hretry : q.retry = p.retry) {pending settled : List ℕ} :
    Tidy byTimer { s with pending, settled, dispatching := some q } := by
  have htimer : s.dispatchTimer = none := by
    rcases h.one with hnone | hnone
    · rw [hp] at hnone; cases hnone
    · exact hnone
  refine ⟨Or.inr htimer, ?_, ?_⟩
  · intro hb q' hq'
    obtain rfl := Option.some.inj hq'
    rw [hretry]
    exact h.waited hb p hp
  · intro hb
    refine ⟨htimer, ?_⟩
    intro q' hq'
    obtain rfl := Option.some.inj hq'
    rw [hretry]
    exact (h.unarmed hb).2 p hp

theorem Tidy.finished (h : Tidy byTimer s) : Tidy byTimer { s with dispatching := none } :=
  ⟨Or.inl rfl, fun _ _ hp => by (cases hp), fun hb => ⟨(h.unarmed hb).1, fun _ hp => by (cases hp)⟩⟩

/-- The timer may be armed where it is used. -/
theorem Tidy.schedule (h : Tidy byTimer s) (delayMs : ℕ) (hb : byTimer = true) :
    Tidy byTimer (scheduleDispatch delayMs s) := by
  refine ⟨scheduleDispatch_none delayMs h.one, ?_, ?_⟩
  · intro _ p hp
    rw [(scheduleDispatch_dispatching delayMs s).1] at hp
    exact h.waited hb p hp
  · intro hb'
    rw [hb] at hb'
    cases hb'

theorem tidy_start (s : State) {p : Pass} (htimer : byTimer = p.retry) :
    Tidy byTimer { s with dispatchTimer := none, dispatching := some p } := by
  refine ⟨Or.inr rfl, ?_, ?_⟩
  · intro hb q hq
    obtain rfl := Option.some.inj hq
    rw [← htimer, hb]
  · intro hb
    refine ⟨rfl, ?_⟩
    intro q hq
    obtain rfl := Option.some.inj hq
    rw [← htimer, hb]

theorem tidy_step (h : Tidy byTimer s) {a : Act} (ha : a.fits byTimer = true) :
    Tidy byTimer (step retryDelayMs s a) := by
  cases a with
  | accept id =>
    simp only [step]
    split_ifs
    · exact h
    · exact ⟨h.one, h.waited, h.unarmed⟩
  | launch => exact h.schedule 0 ha
  | dispatchPending =>
    simp only [step, dispatchPending]
    split_ifs
    · exact h
    · have hb : byTimer = false := by simpa [Act.fits] using ha
      have hstart := tidy_start s (p := {}) hb
      rwa [← (h.unarmed hb).1] at hstart
  | tick =>
    simp only [step]
    split_ifs with harmed
    · have hpass : s.dispatching = none := by
        rcases h.one with hnone | hnone
        · exact hnone
        · rw [hnone] at harmed; cases harmed
      have hb : byTimer = true := by
        cases hb : byTimer with
        | true => rfl
        | false => rw [(h.unarmed hb).1] at harmed; cases harmed
      have htick : tick s = { s with dispatchTimer := none, dispatching := some { retry := true } } := by
        unfold tick dispatchPending
        simp [hpass]
      rw [htick]
      exact tidy_start s hb
    · exact h
  | read ok =>
    simp only [step]
    split
    · rename_i hp
      split_ifs <;> (refine h.pass hp (q := _) ?_; rfl)
    · exact h
  | dispatch ok =>
    simp only [step]
    split
    · rename_i hp
      split_ifs <;> (refine h.pass hp (q := _) ?_; rfl)
    · exact h
  | finish =>
    simp only [step]
    split
    · rename_i failed retry hp
      split_ifs with hagain
      · refine h.finished.schedule retryDelayMs ?_
        cases hb : byTimer with
        | true => rfl
        | false =>
          have hretry := (h.unarmed hb).2 _ hp
          rw [show retry = false from hretry] at hagain
          exact absurd hagain.2 (by simp)
      · exact h.finished
    · exact h
  | stop => exact ⟨Or.inr rfl, h.waited, fun hb => ⟨rfl, (h.unarmed hb).2⟩⟩

end Tidy

/-! ## What is covered gets its turn -/

section Covered

variable {byTimer : Bool} {s : State} {id : ℕ}

theorem covered_idle (h : s.dispatching = none) : Covered s id ↔ s.dispatchTimer.isSome = true := by
  unfold Covered
  rw [h]

theorem covered_pass {p : Pass} (h : s.dispatching = some p) : Covered s id ↔ p.Covers id := by
  unfold Covered
  rw [h]

theorem covered_congr {s' : State} (hpass : s'.dispatching = s.dispatching)
    (htimer : s'.dispatchTimer = s.dispatchTimer) : Covered s' id ↔ Covered s id := by
  unfold Covered
  rw [hpass, htimer]

/-- A call of the service covers what is pending unless a pass has read the store. -/
theorem covered_tick (h : Tidy byTimer s) (htimer : s.dispatchTimer.isSome = true) :
    Covered (tick s) id := by
  have hpass : s.dispatching = none := by
    rcases h.one with hnone | hnone
    · exact hnone
    · rw [hnone] at htimer; cases htimer
  have htick : (tick s).dispatching = some { retry := true } := by
    unfold tick dispatchPending
    simp [hpass]
  exact (covered_pass htick).2 (Or.inl rfl)

/-- **What is covered stays covered until it is dispatched.**  Failures are made up for where a timer
callback waits for the pass. -/
theorem covered_step (h : Tidy byTimer s) (hcovered : Covered s id) (hgoing : s.stopped = false)
    {a : Act} (ha : a.fits byTimer = true) (hstop : a ≠ .stop)
    (hsmooth : a.isOwn = true → a.isSmooth = true ∨ byTimer = true)
    (hid : id ∈ (step retryDelayMs s a).pending) : Covered (step retryDelayMs s a) id := by
  cases a with
  | accept other =>
    simp only [step]
    split_ifs
    · exact hcovered
    · exact (covered_congr rfl rfl).2 hcovered
  | launch =>
    cases hpass : s.dispatching with
    | none =>
      refine (covered_idle ?_).2 (scheduleDispatch_timer 0 hgoing hpass)
      exact (scheduleDispatch_dispatching 0 s).1.trans hpass
    | some p =>
      have hsame : scheduleDispatch 0 s = s := if_pos (Or.inr (Or.inr (by rw [hpass]; rfl)))
      rw [show step retryDelayMs s .launch = scheduleDispatch 0 s from rfl, hsame]
      exact hcovered
  | dispatchPending =>
    simp only [step, dispatchPending]
    split_ifs
    · exact hcovered
    · exact Or.inl rfl
  | tick =>
    simp only [step]
    split_ifs with harmed
    · exact covered_tick h harmed
    · exact hcovered
  | read ok =>
    simp only [step] at hid ⊢
    split at hid
    · rename_i failed retry hp
      cases ok with
      | true => exact Or.inr (Or.inl ⟨s.pending, rfl, hid⟩)
      | false =>
        have hb : byTimer = true := (hsmooth rfl).resolve_left (by simp [Act.isSmooth])
        have hretry : retry = true := h.waited hb _ hp
        exact Or.inr (Or.inr ⟨rfl, hretry⟩)
    · exact hcovered
  | dispatch ok =>
    simp only [step] at hid ⊢
    split at hid
    · rename_i head rest failed retry hp
      cases ok with
      | true =>
        rw [covered_pass hp] at hcovered
        rcases hcovered with hnone | ⟨rest', hrest, hmem⟩ | hagain
        · cases hnone
        · obtain rfl := Option.some.inj hrest
          refine Or.inr (Or.inl ⟨rest, rfl, ?_⟩)
          rcases List.mem_cons.1 hmem with rfl | hmem
          · simp at hid
          · exact hmem
        · exact Or.inr (Or.inr hagain)
      | false =>
        have hb : byTimer = true := (hsmooth rfl).resolve_left (by simp [Act.isSmooth])
        have hretry : retry = true := h.waited hb _ hp
        exact Or.inr (Or.inr ⟨rfl, hretry⟩)
    · exact hcovered
  | finish =>
    simp only [step] at hid ⊢
    split at hid
    · rename_i failed retry hp
      rw [covered_pass hp] at hcovered
      rcases hcovered with hnone | ⟨rest, hrest, hmem⟩ | hagain
      · cases hnone
      · obtain rfl := Option.some.inj hrest
        cases hmem
      · rw [if_pos hagain]
        refine (covered_idle (scheduleDispatch_dispatching _ _).1).2 ?_
        exact scheduleDispatch_timer retryDelayMs hgoing rfl
    · exact hcovered
  | stop => exact absurd rfl hstop

/-- What is not covered stays pending as long as nothing fails and nobody calls. -/
theorem uncovered_step (h : Tidy byTimer s) (hcovered : ¬ Covered s id) (hid : id ∈ s.pending)
    {a : Act} (ha : a.isSmooth = true) :
    ¬ Covered (step retryDelayMs s a) id ∧ id ∈ (step retryDelayMs s a).pending := by
  cases a with
  | tick =>
    simp only [step]
    split_ifs with harmed
    · refine absurd ?_ hcovered
      have hpass : s.dispatching = none := by
        rcases h.one with hnone | hnone
        · exact hnone
        · rw [hnone] at harmed; cases harmed
      exact (covered_idle hpass).2 harmed
    · exact ⟨hcovered, hid⟩
  | read ok =>
    simp only [step]
    split
    · rename_i hp
      exact absurd ((covered_pass hp).2 (Or.inl rfl)) hcovered
    · exact ⟨hcovered, hid⟩
  | dispatch ok =>
    simp only [step]
    split
    · rename_i head rest failed retry hp
      cases ok with
      | false => cases ha
      | true =>
        rw [covered_pass hp] at hcovered
        simp only [Pass.Covers, not_or, not_exists, not_and] at hcovered
        obtain ⟨-, hrest, hagain⟩ := hcovered
        have hnot := hrest (head :: rest) rfl
        rw [List.mem_cons, not_or] at hnot
        refine ⟨?_, ?_⟩
        · rintro (hnone | ⟨rest', hrest', hmem⟩ | ⟨hfailed, hretry⟩)
          · cases hnone
          · obtain rfl := Option.some.inj hrest'
            exact hnot.2 hmem
          · exact hagain hfailed hretry
        · exact List.mem_filter.2 ⟨hid, by simpa using hnot.1⟩
    · exact ⟨hcovered, hid⟩
  | finish =>
    simp only [step]
    split
    · rename_i failed retry hp
      rw [covered_pass hp] at hcovered
      have hagain : ¬ (failed = true ∧ retry = true) := fun hn => hcovered (Or.inr (Or.inr hn))
      rw [if_neg hagain]
      refine ⟨?_, hid⟩
      have htimer : s.dispatchTimer = none := by
        rcases h.one with hnone | hnone
        · rw [hp] at hnone; cases hnone
        · exact hnone
      intro hnow
      rw [covered_idle rfl] at hnow
      rw [show s.dispatchTimer = none from htimer] at hnow
      cases hnow
    · exact ⟨hcovered, hid⟩
  | _ => cases ha

end Covered

/-! ## Where an assignment ends up -/

variable (retryDelayMs) in
/-- What a step does to the store. -/
theorem step_store (s : State) (a : Act) :
    ((step retryDelayMs s a).pending = s.pending ∧ (step retryDelayMs s a).settled = s.settled) ∨
    (∃ id, id ∉ s.pending ∧ id ∉ s.settled ∧ (step retryDelayMs s a).pending = s.pending ++ [id] ∧
      (step retryDelayMs s a).settled = s.settled) ∨
    ∃ id, (step retryDelayMs s a).pending = s.pending.filter (· ≠ id) ∧
      (step retryDelayMs s a).settled = if id ∈ s.pending then s.settled ++ [id] else s.settled := by
  cases a with
  | accept id =>
    simp only [step]
    split_ifs with hknown
    · exact Or.inl ⟨rfl, rfl⟩
    · exact Or.inr (Or.inl ⟨id, (not_or.1 hknown).1, (not_or.1 hknown).2, rfl, rfl⟩)
  | dispatch ok =>
    simp only [step]
    split
    · rename_i head rest failed retry hp
      cases ok with
      | true => exact Or.inr (Or.inr ⟨head, rfl, rfl⟩)
      | false => exact Or.inl ⟨rfl, rfl⟩
    · exact Or.inl ⟨rfl, rfl⟩
  | launch =>
    unfold step scheduleDispatch
    dsimp only
    split_ifs <;> exact Or.inl ⟨rfl, rfl⟩
  | dispatchPending =>
    unfold step dispatchPending
    dsimp only
    split_ifs <;> exact Or.inl ⟨rfl, rfl⟩
  | tick =>
    unfold step tick dispatchPending
    dsimp only
    split_ifs <;> exact Or.inl ⟨rfl, rfl⟩
  | read ok =>
    simp only [step]
    split <;> exact Or.inl ⟨rfl, rfl⟩
  | finish =>
    unfold step scheduleDispatch
    dsimp only
    split
    · split_ifs <;> exact Or.inl ⟨rfl, rfl⟩
    · exact Or.inl ⟨rfl, rfl⟩
  | stop => exact Or.inl ⟨rfl, rfl⟩

theorem step_stopped (s : State) {a : Act} (ha : a ≠ .stop) :
    (step retryDelayMs s a).stopped = s.stopped := by
  cases a with
  | accept id => simp only [step]; split_ifs <;> rfl
  | launch => exact (scheduleDispatch_dispatching 0 s).2.2
  | dispatchPending => simp only [step, dispatchPending]; split_ifs <;> rfl
  | tick => unfold step tick dispatchPending; dsimp only; split_ifs <;> rfl
  | read ok => simp only [step]; split <;> rfl
  | dispatch ok => simp only [step]; split <;> (try split_ifs) <;> rfl
  | finish =>
    simp only [step]
    split
    · split_ifs
      · exact (scheduleDispatch_dispatching _ _).2.2
      · rfl
    · rfl
  | stop => exact absurd rfl ha

/-- An assignment leaves the pending ones by being settled, and stays settled. -/
theorem known_step (s : State) (a : Act) {id : ℕ} (h : id ∈ s.pending ∨ id ∈ s.settled) :
    id ∈ (step retryDelayMs s a).pending ∨ id ∈ (step retryDelayMs s a).settled := by
  rcases step_store retryDelayMs s a with ⟨hp, hs⟩ | ⟨new, -, -, hp, hs⟩ |
    ⟨old, hp, hs⟩
  · rw [hp, hs]
    exact h
  · rw [hp, hs]
    exact h.imp (List.mem_append_left _) (fun h => h)
  · rw [hp, hs]
    rcases h with h | h
    · by_cases hid : id = old
      · subst hid
        rw [if_pos h]
        exact Or.inr (List.mem_append_right _ (List.mem_singleton_self _))
      · exact Or.inl (List.mem_filter.2 ⟨h, by simpa using hid⟩)
    · right
      split_ifs
      · exact List.mem_append_left _ h
      · exact h

theorem not_covered_atRest {s : State} (h : AtRest s) (id : ℕ) : ¬ Covered s id := by
  rw [covered_idle h.2, h.1]
  simp

/-- The steps that keep what is covered: with the timer all but `stop`, without it the smooth ones. -/
def Keeps (byTimer : Bool) (a : Act) : Prop :=
  a.fits byTimer = true ∧ a ≠ .stop ∧ (a.isOwn = true → a.isSmooth = true ∨ byTimer = true)

/-- What a run keeps of an assignment that was covered. -/
structure Safe (byTimer : Bool) (id : ℕ) (s : State) : Prop where
  tidy : Tidy byTimer s
  going : s.stopped = false
  known : id ∈ s.pending ∨ id ∈ s.settled
  covered : id ∈ s.pending → Covered s id

theorem safe_step {byTimer : Bool} {id : ℕ} (s : State) (a : Act) (h : Safe byTimer id s)
    (ha : Keeps byTimer a) : Safe byTimer id (step retryDelayMs s a) := by
  obtain ⟨hfits, hstop, hsmooth⟩ := ha
  refine ⟨tidy_step h.tidy hfits, (step_stopped s hstop).trans h.going, known_step s a h.known, ?_⟩
  intro hid
  by_cases hpending : id ∈ s.pending
  · exact covered_step h.tidy (h.covered hpending) h.going hfits hstop hsmooth hid
  · -- what is settled is not accepted again
    exfalso
    have hsettled := h.known.resolve_left hpending
    rcases step_store retryDelayMs s a with ⟨hp, -⟩ | ⟨new, -, hnew, hp, -⟩ | ⟨old, hp, -⟩
    · exact hpending (hp ▸ hid)
    · rw [hp, List.mem_append, List.mem_singleton] at hid
      rcases hid with hid | rfl
      · exact hpending hid
      · exact hnew hsettled
    · rw [hp] at hid
      exact hpending (List.mem_filter.1 hid).1

variable (retryDelayMs) in
theorem safe_run {byTimer : Bool} {id : ℕ} {s : State} (h : Safe byTimer id s) {acts : List Act}
    (hacts : ∀ a ∈ acts, Keeps byTimer a) : Safe byTimer id (run (step retryDelayMs) s acts) :=
  run_invariant_of _ safe_step h (admissible_of_forall _ hacts s)

theorem tidy_init (byTimer : Bool) : Tidy byTimer {} :=
  ⟨Or.inl rfl, fun _ _ hp => by (cases hp), fun _ => ⟨rfl, fun _ hp => by (cases hp)⟩⟩

variable (retryDelayMs) in
theorem tidy_run {byTimer : Bool} {acts : List Act} (hacts : ∀ a ∈ acts, a.fits byTimer = true) :
    Tidy byTimer (run (step retryDelayMs) {} acts) := by
  have hstep : ∀ s a, Tidy byTimer s → a.fits byTimer = true → Tidy byTimer (step retryDelayMs s a) :=
    fun _ _ h ha => tidy_step h ha
  exact run_invariant_of _ hstep (tidy_init byTimer) (admissible_of_forall _ hacts _)

/-- How the service is woken up. -/
def wake (byTimer : Bool) : Act := if byTimer then .launch else .dispatchPending

theorem wake_fits (byTimer : Bool) : (wake byTimer).fits byTimer = true := by
  cases byTimer <;> rfl

theorem wake_pending (byTimer : Bool) (s : State) :
    (step retryDelayMs s (wake byTimer)).pending = s.pending := by
  cases byTimer with
  | true => exact (scheduleDispatch_dispatching 0 s).2.1
  | false =>
    show (dispatchPending s).pending = s.pending
    unfold dispatchPending
    split_ifs <;> rfl

variable (retryDelayMs) in
/-- A wake-up covers every pending assignment, or it finds a pass that covers it or does not. -/
theorem covered_wake {byTimer : Bool} {s : State} (hgoing : s.stopped = false) (id : ℕ) :
    Covered (step retryDelayMs s (wake byTimer)) id ↔ ∀ p, s.dispatching = some p → p.Covers id := by
  cases hpass : s.dispatching with
  | some p =>
    have hsame : step retryDelayMs s (wake byTimer) = s := by
      cases byTimer with
      | true => exact if_pos (Or.inr (Or.inr (by rw [hpass]; rfl)))
      | false => exact if_pos (by rw [hpass]; rfl)
    rw [hsame, covered_pass hpass]
    simp
  | none =>
    refine iff_of_true ?_ (by simp)
    cases byTimer with
    | true =>
      refine (covered_idle ?_).2 (scheduleDispatch_timer 0 hgoing hpass)
      exact (scheduleDispatch_dispatching 0 s).1.trans hpass
    | false =>
      have hstart : step retryDelayMs s (wake false) = { s with dispatching := some {} } :=
        if_neg (by rw [hpass]; simp)
      rw [hstart]
      exact Or.inl rfl

theorem keeps_of_isSmooth {a : Act} (h : a.isSmooth = true) (byTimer : Bool) : Keeps byTimer a := by
  cases a with
  | read ok => exact ⟨rfl, by simp, fun _ => Or.inl h⟩
  | dispatch ok => exact ⟨rfl, by simp, fun _ => Or.inl h⟩
  | tick => exact ⟨rfl, by simp, fun _ => Or.inl h⟩
  | finish => exact ⟨rfl, by simp, fun _ => Or.inl h⟩
  | _ => cases h

/-- What is not covered stays pending through a smooth run. -/
theorem uncovered_run {byTimer : Bool} {id : ℕ} {s : State} (htidy : Tidy byTimer s)
    (hcovered : ¬ Covered s id) (hpending : id ∈ s.pending) {acts : List Act}
    (hacts : ∀ a ∈ acts, a.isSmooth = true) : id ∈ (run (step retryDelayMs) s acts).pending := by
  have hstep : ∀ s a, (Tidy byTimer s ∧ ¬ Covered s id ∧ id ∈ s.pending) → a.isSmooth = true →
      (Tidy byTimer (step retryDelayMs s a) ∧ ¬ Covered (step retryDelayMs s a) id ∧
        id ∈ (step retryDelayMs s a).pending) := by
    rintro s a ⟨h, hc, hp⟩ ha
    exact ⟨tidy_step h (keeps_of_isSmooth ha byTimer).1, uncovered_step h hc hp ha⟩
  exact (run_invariant_of _ hstep ⟨htidy, hcovered, hpending⟩ (admissible_of_forall _ hacts s)).2.2

/-- **A launch is lost exactly when it comes too late for the pass in progress.**  The service has
stored an assignment and is woken up, by `launch` or by `dispatchPending`; then nothing fails, nobody
calls, and it comes to rest.  The assignment has been dispatched unless, at the wake-up, a pass was in
progress that had read the store without it and was not going to be repeated. -/
theorem dispatched_iff (byTimer : Bool) (acts acts' : List Act) (id : ℕ)
    (hacts : ∀ a ∈ acts, a.fits byTimer = true)
    (hpending : id ∈ (run (step retryDelayMs) {} acts).pending)
    (hgoing : (run (step retryDelayMs) {} acts).stopped = false)
    (hsmooth : ∀ a ∈ acts', a.isSmooth = true)
    (hrest : AtRest (run (step retryDelayMs) {} (acts ++ wake byTimer :: acts'))) :
    id ∉ (run (step retryDelayMs) {} (acts ++ wake byTimer :: acts')).pending ↔
      ∀ p, (run (step retryDelayMs) {} acts).dispatching = some p → p.Covers id := by
  have htidy := tidy_run retryDelayMs hacts
  rw [run_append, run_cons] at hrest ⊢
  generalize run (step retryDelayMs) {} acts = s at hpending hgoing hrest htidy
  have hwoken : Tidy byTimer (step retryDelayMs s (wake byTimer)) :=
    tidy_step htidy (wake_fits byTimer)
  have hstill : id ∈ (step retryDelayMs s (wake byTimer)).pending := wake_pending byTimer s ▸ hpending
  rw [← covered_wake retryDelayMs hgoing id]
  constructor
  · intro hgone
    by_contra hcovered
    exact hgone (uncovered_run hwoken hcovered hstill hsmooth)
  · intro hcovered hid
    have hstop : wake byTimer ≠ .stop := by cases byTimer <;> simp [wake]
    have hsafe : Safe byTimer id (step retryDelayMs s (wake byTimer)) :=
      ⟨hwoken, (step_stopped s hstop).trans hgoing, Or.inl hstill, fun _ => hcovered⟩
    have hend := safe_run retryDelayMs hsafe
      fun a ha => keeps_of_isSmooth (hsmooth a ha) byTimer
    exact not_covered_atRest hrest id (hend.covered hid)

/-- A launch that is accepted while the pass of the one before it is in progress. -/
def sampleLate : List Act :=
  [.accept 0, .launch, .tick, .read true, .accept 1]

theorem dispatched_iff_sample :
    1 ∉ (run (step 1000) {} (sampleLate ++ wake true :: [.dispatch true, .finish])).pending ↔
      ∀ p, (run (step 1000) {} sampleLate).dispatching = some p → p.Covers 1 :=
  dispatched_iff true sampleLate [.dispatch true, .finish] 1 (by decide) (by decide) rfl (by decide)
    (by decide)

/-- The second launch is not dispatched. -/
example : (run (step 1000) {} (sampleLate ++ wake true :: [.dispatch true, .finish])).pending = [1] := by
  decide

/-- **With the timer, failures lose nothing.**  Once an assignment is covered, every run of the
service in which `launch` arms the timer, whatever fails and whatever else is launched, has settled it
by the time it comes to rest, unless it is stopped. -/
theorem settled_of_covered (acts acts' : List Act) (id : ℕ)
    (hacts : ∀ a ∈ acts, a.fits true = true)
    (hpending : id ∈ (run (step retryDelayMs) {} acts).pending)
    (hgoing : (run (step retryDelayMs) {} acts).stopped = false)
    (hcovered : Covered (run (step retryDelayMs) {} acts) id)
    (hacts' : ∀ a ∈ acts', a.fits true = true ∧ a ≠ .stop)
    (hrest : AtRest (run (step retryDelayMs) {} (acts ++ acts'))) :
    id ∈ (run (step retryDelayMs) {} (acts ++ acts')).settled := by
  have htidy := tidy_run retryDelayMs hacts
  rw [run_append] at hrest ⊢
  have hsafe : Safe true id (run (step retryDelayMs) {} acts) :=
    ⟨htidy, hgoing, Or.inl hpending, fun _ => hcovered⟩
  have hend := safe_run retryDelayMs hsafe
    fun a ha => ⟨(hacts' a ha).1, (hacts' a ha).2, fun _ => Or.inr rfl⟩
  refine hend.known.resolve_left ?_
  intro hid
  exact not_covered_atRest hrest id (hend.covered hid)

theorem settled_of_covered_sample :
    0 ∈ (run (step 1000) {} ([.accept 0, .launch] ++ [.tick, .read false, .finish, .tick, .read true,
      .dispatch false, .finish, .tick, .read true, .dispatch true, .finish])).settled :=
  settled_of_covered [.accept 0, .launch] _ 0 (by decide) (by decide) rfl rfl (by decide) (by decide)

end AgentOrchestrator.Launch.Loop
