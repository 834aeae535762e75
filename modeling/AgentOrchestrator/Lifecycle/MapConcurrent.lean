import AgentOrchestrator.Library.Runs
import Mathlib.Data.List.Nodup
import Mathlib.Data.List.Range

/-!
# Fan-out over the items of a call

`mapConcurrent` starts some loops that share an index: a loop takes the next item, waits for its
operation and takes another one.  `Promise.all` over the loops settles the call.  For every order in
which the operations settle: the items are started in order, each once, and no more of them at a time
than the limit; the results stand at the positions of their items; the first failure settles the call
but stops only its own loop, so the other loops still start what is left.
-/

namespace AgentOrchestrator.Lifecycle

open Runs

/-! ## The loops -/

inductive Loop where
  | running (index : ℕ)
  | ended
  | failed
  deriving DecidableEq

def Loop.index? : Loop → Option ℕ
  | .running index => some index
  | _ => none

/-- A call of `mapConcurrent`, with the items whose operation was called (`started`) and the answers
in the order in which they came. -/
structure FanOut (R E : Type) where
  next : ℕ := 0
  loops : List Loop := []
  results : List (Option R)
  outcome : Option (Except E (List (Option R))) := none
  started : List ℕ := []
  answers : List (ℕ × Except E R) := []

namespace FanOut

variable {R E : Type}

/-- The head of `while (next < items.length)`: the loop takes the next item or ends. -/
def enter (count k : ℕ) (p : FanOut R E) : FanOut R E :=
  if p.next < count then
    { p with
      next := p.next + 1
      loops := p.loops.set k (.running p.next)
      started := p.started ++ [p.next] }
  else { p with loops := p.loops.set k .ended }

/-- One more loop is started. -/
def spawn (count : ℕ) (p : FanOut R E) : FanOut R E :=
  ({ p with loops := p.loops ++ [Loop.ended] }).enter count p.loops.length

/-- `Promise.all` resolves when every loop has ended. -/
def close (p : FanOut R E) : FanOut R E :=
  match p.outcome with
  | some _ => p
  | none => if p.loops.all (· = .ended) then { p with outcome := some (.ok p.results) } else p

/-- The call up to its first `await`. -/
def start (limit count : ℕ) : FanOut R E :=
  ((spawn count)^[min limit count] { results := List.replicate count none }).close

/-- The operation of loop `k` settles.  `Promise.all` rejects with the first failure. -/
def step (count : ℕ) (p : FanOut R E) (act : ℕ × Except E R) : FanOut R E :=
  match p.loops[act.1]? with
  | some (.running i) =>
    match act.2 with
    | .ok r =>
      (({ p with
          loops := p.loops.set act.1 .ended
          results := p.results.set i (some r)
          answers := p.answers ++ [(i, Except.ok r)] }).enter count act.1).close
    | .error e =>
      { p with
        loops := p.loops.set act.1 .failed
        outcome := p.outcome.or (some (.error e))
        answers := p.answers ++ [(i, Except.error e)] }
  | _ => p

/-- The items whose operation has not settled. -/
def running (p : FanOut R E) : List ℕ := p.loops.filterMap Loop.index?

def isError : Except E R → Bool
  | .error _ => true
  | .ok _ => false

/-- The failures so far. -/
def failures (p : FanOut R E) : ℕ := p.answers.countP fun a => isError a.2

def firstFailure (answers : List (ℕ × Except E R)) : Option E :=
  answers.findSome? fun a =>
    match a.2 with
    | .error e => some e
    | .ok _ => none

/-! ## The invariant -/

/-- What holds of a call with so many loops; the loop at the gap is between two items. -/
structure Held (count size : ℕ) (gap : Option ℕ) (p : FanOut R E) : Prop where
  size : p.loops.length = size
  next : p.next ≤ count
  started : p.started = List.range p.next
  distinct : ∀ k k' i : ℕ, p.loops[k]? = some (Loop.running i) →
    p.loops[k']? = some (Loop.running i) → k = k'
  taken : ∀ i, i < p.next ↔ (∃ k : ℕ, p.loops[k]? = some (Loop.running i)) ∨ ∃ a, (i, a) ∈ p.answers
  unanswered : ∀ (k i : ℕ) (a : Except E R), p.loops[k]? = some (Loop.running i) → (i, a) ∉ p.answers
  once : (p.answers.map Prod.fst).Nodup
  slots : p.results.length = count
  filled : ∀ (i : ℕ) (r : R), p.results[i]? = some (some r) ↔ (i, Except.ok r) ∈ p.answers
  busy : p.next < count → ∀ k : ℕ, gap ≠ some k → p.loops[k]? ≠ some Loop.ended
  failed : p.loops.countP (· = .failed) = p.failures

theorem firstFailure_append (answers answers' : List (ℕ × Except E R)) :
    firstFailure (answers ++ answers') = (firstFailure answers).or (firstFailure answers') :=
  List.findSome?_append

theorem getElem?_set_cases {l : List Loop} {k j : ℕ} {x y : Loop}
    (h : (l.set k x)[j]? = some y) : (j = k ∧ x = y) ∨ (j ≠ k ∧ l[j]? = some y) := by
  by_cases hk : k = j
  · subst hk
    left
    rw [List.getElem?_set_self'] at h
    obtain ⟨z, -, e⟩ := Option.map_eq_some_iff.1 h
    exact ⟨rfl, e⟩
  · rw [List.getElem?_set_ne hk] at h
    exact Or.inr ⟨fun e => hk e.symm, h⟩

/-- The loop in the gap takes the next item or ends. -/
theorem Held.enter {count size k : ℕ} {p : FanOut R E} (h : Held count size (some k) p)
    (hk : p.loops[k]? = some Loop.ended) : Held count size none (p.enter count k) := by
  have hlt : k < p.loops.length := (List.getElem?_eq_some_iff.1 hk).1
  have hget : p.loops[k] = .ended := (List.getElem?_eq_some_iff.1 hk).2
  unfold FanOut.enter
  by_cases hmore : p.next < count
  · rw [if_pos hmore]
    -- The item is new: no loop runs it and it has no answer.
    have hfresh : ∀ j, p.loops[j]? ≠ some (Loop.running p.next) := fun j hj =>
      lt_irrefl _ ((h.taken p.next).2 (Or.inl ⟨j, hj⟩))
    have hunanswered : ∀ a, (p.next, a) ∉ p.answers := fun a ha =>
      lt_irrefl _ ((h.taken p.next).2 (Or.inr ⟨a, ha⟩))
    have hself : (p.loops.set k (.running p.next))[k]? = some (Loop.running p.next) := by
      rw [List.getElem?_set_self hlt]
    refine ⟨by rw [List.length_set, h.size], hmore, ?_, ?_, ?_, ?_, h.once, h.slots, h.filled, ?_, ?_⟩
    · rw [h.started, List.range_succ]
    · intro j j' i hj hj'
      rcases getElem?_set_cases hj with ⟨rfl, e⟩ | ⟨-, hold⟩
      · rcases getElem?_set_cases hj' with ⟨rfl, -⟩ | ⟨-, hold'⟩
        · rfl
        · exact absurd (Loop.running.inj e ▸ hold') (hfresh j')
      · rcases getElem?_set_cases hj' with ⟨-, e⟩ | ⟨-, hold'⟩
        · exact absurd (Loop.running.inj e ▸ hold) (hfresh j)
        · exact h.distinct j j' i hold hold'
    · intro i
      rw [Nat.lt_succ_iff, Nat.le_iff_lt_or_eq, h.taken i]
      constructor
      · rintro ((⟨j, hj⟩ | ha) | rfl)
        · have hne : k ≠ j := by
            rintro rfl
            rw [hk] at hj
            cases hj
          exact Or.inl ⟨j, by rw [List.getElem?_set_ne hne, hj]⟩
        · exact Or.inr ha
        · exact Or.inl ⟨k, hself⟩
      · rintro (⟨j, hj⟩ | ha)
        · rcases getElem?_set_cases hj with ⟨-, e⟩ | ⟨-, hj⟩
          · exact Or.inr (Loop.running.inj e).symm
          · exact Or.inl (Or.inl ⟨j, hj⟩)
        · exact Or.inl (Or.inr ha)
    · intro j i a hj
      rcases getElem?_set_cases hj with ⟨-, e⟩ | ⟨-, hj⟩
      · obtain rfl := Loop.running.inj e
        exact hunanswered a
      · exact h.unanswered j i a hj
    · intro hmore' j _ hj
      rcases getElem?_set_cases hj with ⟨-, e⟩ | ⟨hne, hj⟩
      · cases e
      · exact h.busy hmore j (fun e => hne (Option.some.inj e).symm) hj
    · show (p.loops.set k (.running p.next)).countP _ = _
      rw [List.countP_set hlt, hget]
      exact h.failed
  · rw [if_neg hmore]
    have hsame : p.loops.set k .ended = p.loops := by
      rw [← hget, List.set_getElem_self]
    rw [hsame]
    exact ⟨h.size, h.next, h.started, h.distinct, h.taken, h.unanswered, h.once, h.slots, h.filled,
      fun hlt => absurd hlt hmore, h.failed⟩

theorem Held.spawn {count size : ℕ} {p : FanOut R E} (h : Held count size none p) :
    Held count (size + 1) none (p.spawn count) := by
  have hold : ∀ {j i : ℕ}, (p.loops ++ [Loop.ended])[j]? = some (Loop.running i) →
      p.loops[j]? = some (Loop.running i) := by
    intro j i hj
    rw [List.getElem?_append] at hj
    split_ifs at hj with hlt
    · exact hj
    · cases hd : j - p.loops.length with
      | zero => rw [hd] at hj; cases hj
      | succ n => rw [hd] at hj; cases hj
  have hnew : ∀ {j : ℕ} {x : Loop}, p.loops[j]? = some x → (p.loops ++ [Loop.ended])[j]? = some x := by
    intro j x hj
    rw [List.getElem?_append_left (List.getElem?_eq_some_iff.1 hj).1, hj]
  refine Held.enter ?_ (by simp)
  refine ⟨by simp [h.size], h.next, h.started, fun j j' i hj hj' => ?_, fun i => ?_,
    fun j i a hj => ?_, h.once, h.slots, h.filled, fun hmore j hgap hj => ?_, ?_⟩
  · exact h.distinct j j' i (hold hj) (hold hj')
  · rw [h.taken i]
    exact or_congr ⟨fun ⟨j, hj⟩ => ⟨j, hnew hj⟩, fun ⟨j, hj⟩ => ⟨j, hold hj⟩⟩ Iff.rfl
  · exact h.unanswered j i a (hold hj)
  · have hne : j ≠ p.loops.length := fun e => hgap (congrArg some e.symm)
    have hlt : j < p.loops.length := by
      have := (List.getElem?_eq_some_iff.1 hj).1
      rw [List.length_append, List.length_singleton] at this
      omega
    rw [List.getElem?_append_left hlt] at hj
    exact h.busy hmore j (fun e => nomatch e) hj
  · show (p.loops ++ [Loop.ended]).countP _ = _
    rw [List.countP_append, h.failed]
    rfl

/-- Settling the call changes nothing else. -/
theorem close_eq (p : FanOut R E) : ∃ outcome, p.close = { p with outcome := outcome } := by
  unfold close
  cases p.outcome with
  | some _ => exact ⟨_, rfl⟩
  | none =>
    dsimp only
    split_ifs
    · exact ⟨_, rfl⟩
    · exact ⟨_, rfl⟩

theorem Held.close {count size : ℕ} {gap : Option ℕ} {p : FanOut R E}
    (h : Held count size gap p) : Held count size gap p.close := by
  obtain ⟨outcome, e⟩ := close_eq p
  rw [e]
  exact ⟨h.size, h.next, h.started, h.distinct, h.taken, h.unanswered, h.once, h.slots, h.filled,
    h.busy, h.failed⟩

theorem held_start (limit count : ℕ) :
    Held count (min limit count) none (start limit count : FanOut R E) := by
  refine Held.close ?_
  generalize min limit count = size
  induction size with
  | zero =>
    refine ⟨rfl, Nat.zero_le _, rfl, fun _ _ _ h => (nomatch h), fun i => ?_,
      fun _ _ _ h => (nomatch h), List.nodup_nil, List.length_replicate, fun i r => ?_,
      fun _ _ _ h => (nomatch h), rfl⟩
    · exact iff_of_false (Nat.not_lt_zero i) (by rintro (⟨k, h⟩ | ⟨a, h⟩) <;> cases h)
    · refine iff_of_false (fun h => ?_) (fun h => nomatch h)
      have hmem := List.mem_of_getElem? (show (List.replicate count none)[i]? = some (some r) from h)
      cases List.eq_of_mem_replicate hmem
  | succ size ih =>
    rw [Function.iterate_succ_apply']
    exact ih.spawn

/-- The answer for an item that runs: its loop is between two items when it was a success, and gone
when it was a failure. -/
theorem Held.answer {count size k i : ℕ} {p : FanOut R E} (h : Held count size none p)
    (hk : p.loops[k]? = some (Loop.running i)) (a : Except E R) (outcome) :
    Held count size (if isError a then none else some k)
      { p with
        loops := p.loops.set k (if isError a then .failed else .ended)
        results := match a with
          | .ok r => p.results.set i (some r)
          | .error _ => p.results
        outcome := outcome
        answers := p.answers ++ [(i, a)] } := by
  have hlt : k < p.loops.length := (List.getElem?_eq_some_iff.1 hk).1
  have hget : p.loops[k] = .running i := (List.getElem?_eq_some_iff.1 hk).2
  have hnew : ∀ {j j' : ℕ}, (p.loops.set k (if isError a then Loop.failed else .ended))[j]? =
      some (Loop.running j') → j ≠ k ∧ p.loops[j]? = some (Loop.running j') := by
    intro j j' hj
    rcases getElem?_set_cases hj with ⟨-, e⟩ | h
    · split_ifs at e
    · exact h
  have hi : i < p.next := (h.taken i).2 (Or.inl ⟨k, hk⟩)
  have hunanswered : ∀ a, (i, a) ∉ p.answers := fun a => h.unanswered k i a hk
  refine ⟨by rw [List.length_set, h.size], h.next, h.started, ?_, ?_, ?_, ?_, ?_, ?_, ?_, ?_⟩
  · intro j j' i' hj hj'
    exact h.distinct j j' i' (hnew hj).2 (hnew hj').2
  · intro i'
    rw [h.taken i']
    constructor
    · rintro (⟨j, hj⟩ | ⟨b, hb⟩)
      · by_cases hjk : j = k
        · obtain rfl : i' = i := by
            rw [hjk, hk] at hj
            exact (Loop.running.inj (Option.some.inj hj)).symm
          exact Or.inr ⟨a, List.mem_append_right _ List.mem_cons_self⟩
        · exact Or.inl ⟨j, by rw [List.getElem?_set_ne fun e => hjk e.symm, hj]⟩
      · exact Or.inr ⟨b, List.mem_append_left _ hb⟩
    · rintro (⟨j, hj⟩ | ⟨b, hb⟩)
      · exact Or.inl ⟨j, (hnew hj).2⟩
      · rcases List.mem_append.1 hb with hb | hb
        · exact Or.inr ⟨b, hb⟩
        · obtain ⟨rfl, -⟩ := Prod.mk.inj (List.mem_singleton.1 hb)
          exact Or.inl ⟨k, hk⟩
  · intro j i' b hj hb
    obtain ⟨hne, hold⟩ := hnew hj
    rcases List.mem_append.1 hb with hb | hb
    · exact h.unanswered j i' b hold hb
    · obtain ⟨rfl, -⟩ := Prod.mk.inj (List.mem_singleton.1 hb)
      exact hne (h.distinct j k i' hold hk)
  · rw [List.map_append]
    refine List.Nodup.append h.once (List.nodup_singleton _) ?_
    intro x hx hx'
    obtain rfl := List.mem_singleton.1 hx'
    obtain ⟨⟨i', b⟩, hb, rfl⟩ := List.mem_map.1 hx
    exact hunanswered b hb
  · cases a with
    | ok r => rw [List.length_set, h.slots]
    | error e => exact h.slots
  · intro i' r'
    rw [List.mem_append, List.mem_singleton]
    cases a with
    | ok r =>
      by_cases he : i = i'
      · subst he
        have hslot : i < p.results.length := by
          rw [h.slots]
          exact lt_of_lt_of_le hi h.next
        dsimp only
        rw [List.getElem?_set_self hslot]
        constructor
        · intro e
          obtain rfl := Option.some.inj (Option.some.inj e)
          exact Or.inr rfl
        · rintro (hb | e)
          · exact absurd hb (hunanswered _)
          · rw [Except.ok.inj (Prod.mk.inj e).2]
      · dsimp only
        rw [List.getElem?_set_ne he, h.filled]
        refine ⟨Or.inl, ?_⟩
        rintro (hb | e)
        · exact hb
        · exact absurd (Prod.mk.inj e).1.symm he
    | error e =>
      rw [h.filled]
      refine ⟨Or.inl, ?_⟩
      rintro (hb | e)
      · exact hb
      · cases (Prod.mk.inj e).2
  · intro hmore j hgap hj
    rcases getElem?_set_cases hj with ⟨rfl, e⟩ | ⟨-, hold⟩
    · cases ha : isError a with
      | true => rw [ha] at e; cases e
      | false => rw [ha] at hgap; exact hgap rfl
    · exact h.busy hmore j (fun e => nomatch e) hold
  · show (p.loops.set k _).countP _ = (p.answers ++ [(i, a)]).countP _
    rw [List.countP_set hlt, hget, List.countP_append, h.failed]
    cases a <;> rfl

theorem held_step {count size : ℕ} {p : FanOut R E} (act : ℕ × Except E R)
    (h : Held count size none p) : Held count size none (p.step count act) := by
  obtain ⟨k, a⟩ := act
  unfold step
  dsimp only
  split
  · next i hk =>
    cases a with
    | ok r =>
      have hmid := h.answer hk (.ok r) p.outcome
      refine (hmid.enter ?_).close
      exact List.getElem?_set_self (List.getElem?_eq_some_iff.1 hk).1
    | error e => exact h.answer hk (.error e) _
  · exact h

/-! ## How the call settles -/

/-- The outcome agrees with the answers and with the loops. -/
def Settled (p : FanOut R E) : Prop :=
  match p.outcome with
  | none => firstFailure p.answers = none ∧ ∃ l ∈ p.loops, l ≠ .ended
  | some (.ok results) =>
    firstFailure p.answers = none ∧ results = p.results ∧ ∀ l ∈ p.loops, l = .ended
  | some (.error e) => firstFailure p.answers = some e

theorem settled_close {p : FanOut R E} (hopen : p.outcome = none)
    (hfirst : firstFailure p.answers = none) : Settled p.close := by
  unfold close
  rw [hopen]
  dsimp only
  by_cases hall : p.loops.all (· = .ended) = true
  · rw [if_pos hall]
    exact ⟨hfirst, rfl, fun l hl => of_decide_eq_true (List.all_eq_true.1 hall l hl)⟩
  · rw [if_neg hall]
    unfold Settled
    rw [hopen]
    refine ⟨hfirst, ?_⟩
    by_contra hnone
    push Not at hnone
    exact hall (List.all_eq_true.2 fun l hl => decide_eq_true (hnone l hl))

theorem enter_outcome (count k : ℕ) (p : FanOut R E) :
    (p.enter count k).outcome = p.outcome ∧ (p.enter count k).answers = p.answers := by
  unfold enter
  split_ifs
  · exact ⟨rfl, rfl⟩
  · exact ⟨rfl, rfl⟩

theorem settled_start (limit count : ℕ) : Settled (start limit count : FanOut R E) := by
  have hspawn : ∀ size, ((spawn count)^[size]
      ({ results := List.replicate count none } : FanOut R E)).outcome = none ∧
      ((spawn count)^[size] ({ results := List.replicate count none } : FanOut R E)).answers =
        [] := by
    intro size
    induction size with
    | zero => exact ⟨rfl, rfl⟩
    | succ size ih =>
      rw [Function.iterate_succ_apply']
      unfold spawn
      rw [(enter_outcome _ _ _).1, (enter_outcome _ _ _).2]
      exact ih
  refine settled_close (hspawn _).1 ?_
  rw [(hspawn _).2]
  rfl

/-- A call that has rejected stays rejected. -/
theorem settled_of_error {p : FanOut R E} {e : E} (h : p.outcome = some (.error e))
    (hfirst : firstFailure p.answers = some e) : Settled p.close := by
  unfold close
  rw [h]
  unfold Settled
  rw [h]
  exact hfirst

theorem settled_step {count : ℕ} {p : FanOut R E} (act : ℕ × Except E R) (h : Settled p) :
    Settled (p.step count act) := by
  obtain ⟨k, a⟩ := act
  unfold step
  dsimp only
  split
  · next i hk =>
    have hmem := List.mem_of_getElem? hk
    cases houtcome : p.outcome with
    | none =>
      unfold Settled at h
      rw [houtcome] at h
      cases a with
      | ok r =>
        refine settled_close (enter_outcome _ _ _).1 ?_
        rw [(enter_outcome _ _ _).2]
        show firstFailure (p.answers ++ [(i, Except.ok r)]) = none
        rw [firstFailure_append, h.1]
        rfl
      | error e =>
        show firstFailure (p.answers ++ [(i, Except.error e)]) = some e
        rw [firstFailure_append, h.1]
        rfl
    | some outcome =>
      unfold Settled at h
      rw [houtcome] at h
      cases outcome with
      | ok results => cases h.2.2 _ hmem
      | error e =>
        have hkept : ∀ b : Except E R, firstFailure (p.answers ++ [(i, b)]) = some e := by
          intro b
          rw [firstFailure_append, show firstFailure p.answers = some e from h]
          rfl
        cases a with
        | ok r =>
          refine settled_of_error (enter_outcome _ _ _).1 ?_
          rw [(enter_outcome _ _ _).2]
          exact hkept _
        | error e' => exact hkept _
  · exact h

/-! ## Runs -/

theorem mem_running {p : FanOut R E} {i : ℕ} :
    i ∈ p.running ↔ ∃ k : ℕ, p.loops[k]? = some (Loop.running i) := by
  unfold running
  rw [List.mem_filterMap]
  constructor
  · rintro ⟨l, hl, hi⟩
    obtain ⟨k, hk⟩ := List.mem_iff_getElem?.1 hl
    cases l with
    | running j =>
      obtain rfl := Option.some.inj hi
      exact ⟨k, hk⟩
    | _ => cases hi
  · rintro ⟨k, hk⟩
    exact ⟨_, List.mem_of_getElem? hk, rfl⟩

theorem Held.nodup_running {count size : ℕ} {gap : Option ℕ} {p : FanOut R E}
    (h : Held count size gap p) : p.running.Nodup := by
  unfold running
  rw [List.Nodup, List.pairwise_filterMap, List.pairwise_iff_getElem]
  intro k k' hk hk' hlt i hi i' hi' e
  subst e
  have hloop : ∀ {l : Loop}, l.index? = some i → l = .running i := by
    intro l hl
    cases l with
    | running j => rw [Option.some.inj hl]
    | _ => cases hl
  have := h.distinct k k' i (by rw [List.getElem?_eq_getElem hk, hloop hi])
    (by rw [List.getElem?_eq_getElem hk', hloop hi'])
  omega

/-- Every loop runs an item, has failed or has ended. -/
theorem count_loops (loops : List Loop) :
    (loops.filterMap Loop.index?).length + loops.countP (· = .failed) +
      loops.countP (· = .ended) = loops.length := by
  induction loops with
  | nil => rfl
  | cons l loops ih =>
    cases l with
    | running i =>
      rw [List.filterMap_cons_some (show (Loop.running i).index? = some i from rfl),
        List.countP_cons_of_neg (by simp), List.countP_cons_of_neg (by simp), List.length_cons,
        List.length_cons]
      omega
    | ended =>
      rw [List.filterMap_cons_none rfl, List.countP_cons_of_neg (by decide),
        List.countP_cons_of_pos (by decide), List.length_cons]
      omega
    | failed =>
      rw [List.filterMap_cons_none rfl, List.countP_cons_of_pos (by decide),
        List.countP_cons_of_neg (by decide), List.length_cons]
      omega

theorem firstFailure_eq_none {answers : List (ℕ × Except E R)} :
    firstFailure answers = none ↔ ∀ i e, (i, Except.error e) ∉ answers := by
  unfold firstFailure
  rw [List.findSome?_eq_none_iff]
  constructor
  · intro h i e hmem
    cases h _ hmem
  · rintro h ⟨i, a⟩ hmem
    cases a with
    | ok r => rfl
    | error e => exact absurd hmem (h i e)

theorem failures_eq_zero {p : FanOut R E} : p.failures = 0 ↔ firstFailure p.answers = none := by
  unfold failures
  rw [List.countP_eq_zero, firstFailure_eq_none]
  constructor
  · intro h i e hmem
    exact h _ hmem rfl
  · rintro h ⟨i, a⟩ hmem he
    cases a with
    | ok r => cases he
    | error e => exact h i e hmem

end FanOut

open FanOut

variable {R E : Type}

/-- **What `mapConcurrent` does**, in whatever order the operations settle.  The items are started in
order; each started item is running or has its one answer; running items and failures together are at
most as many as the limit, and exactly as many as there are loops while an item is left.  The call
rejects with the first failure, and it resolves with the answer of every item at its position.  It is
open as long as an item is running and none has failed. -/
theorem mapConcurrent_run {limit : ℕ} (hlimit : 0 < limit) (count : ℕ)
    (acts : List (ℕ × Except E R)) :
    let p : FanOut R E := run (step count) (start limit count) acts
    p.started = List.range p.next ∧ p.next ≤ count ∧
    (p.running ++ p.answers.map Prod.fst).Perm p.started ∧
    p.running.length + p.failures ≤ min limit count ∧
    (p.next < count → p.running.length + p.failures = min limit count) ∧
    (∀ e, p.outcome = some (.error e) ↔ firstFailure p.answers = some e) ∧
    (∀ results, p.outcome = some (.ok results) → results.length = count ∧
      ∀ i < count, ∃ r, results[i]? = some (some r) ∧ (i, Except.ok r) ∈ p.answers) ∧
    (p.outcome = none ↔ p.running ≠ [] ∧ p.failures = 0) := by
  intro p
  obtain ⟨h, hs⟩ : Held count (min limit count) none p ∧ Settled p :=
    run_invariant (step count) (P := fun p => Held count (min limit count) none p ∧ Settled p)
      (fun _ act hp => ⟨held_step act hp.1, settled_step act hp.2⟩)
      ⟨held_start limit count, settled_start limit count⟩ acts
  have hcount := count_loops p.loops
  rw [h.size, h.failed] at hcount
  change p.running.length + p.failures + _ = _ at hcount
  refine ⟨h.started, h.next, ?_, by omega, fun hmore => ?_, ?_, ?_, ?_⟩
  · have hnodup : (p.running ++ p.answers.map Prod.fst).Nodup := by
      refine h.nodup_running.append h.once ?_
      intro i hi ha
      obtain ⟨k, hk⟩ := mem_running.1 hi
      obtain ⟨⟨i', a⟩, hmem, rfl⟩ := List.mem_map.1 ha
      exact h.unanswered k i' a hk hmem
    refine (List.perm_ext_iff_of_nodup hnodup (h.started ▸ List.nodup_range)).2 fun i => ?_
    rw [h.started, List.mem_range, h.taken i, List.mem_append, mem_running, List.mem_map]
    refine or_congr Iff.rfl ⟨?_, ?_⟩
    · rintro ⟨⟨i', a⟩, ha, rfl⟩
      exact ⟨a, ha⟩
    · rintro ⟨a, ha⟩
      exact ⟨(i, a), ha, rfl⟩
  · -- No loop ends while an item is left.
    have hended : p.loops.countP (· = .ended) = 0 := by
      refine List.countP_eq_zero.2 fun l hl he => ?_
      obtain ⟨k, hk⟩ := List.mem_iff_getElem?.1 hl
      rw [of_decide_eq_true he] at hk
      exact h.busy hmore k (fun e => nomatch e) hk
    omega
  · intro e
    unfold Settled at hs
    split at hs <;> rename_i houtcome <;> rw [houtcome]
    · rw [hs.1]
      simp
    · rw [hs.1]
      simp
    · rw [hs]
      simp
  · intro results hresults
    unfold Settled at hs
    rw [hresults] at hs
    obtain ⟨hfirst, rfl, hended⟩ := hs
    refine ⟨h.slots, fun i hi => ?_⟩
    have hall : p.next = count := by
      by_contra hne
      have hmore : p.next < count := lt_of_le_of_ne h.next hne
      have hzero : 0 < p.loops.length := by
        rw [h.size]
        omega
      exact h.busy hmore 0 (fun e => nomatch e)
        (by rw [List.getElem?_eq_getElem hzero, hended _ (List.getElem_mem hzero)])
    rcases (h.taken i).1 (hall ▸ hi) with ⟨k, hk⟩ | ⟨a, ha⟩
    · cases hended _ (List.mem_of_getElem? hk)
    · cases a with
      | ok r => exact ⟨r, (h.filled i r).2 ha, ha⟩
      | error e => exact absurd ha (firstFailure_eq_none.1 hfirst i e)
  · unfold Settled at hs
    split at hs <;> rename_i houtcome <;> rw [houtcome]
    · -- A loop that has not ended runs an item, since none has failed.
      have hzero := failures_eq_zero.2 hs.1
      refine iff_of_true rfl ⟨?_, hzero⟩
      obtain ⟨l, hl, hne⟩ := hs.2
      have hnone : p.loops.countP (· = .failed) = 0 := h.failed.trans hzero
      cases l with
      | running i => exact List.ne_nil_of_mem (List.mem_filterMap.2 ⟨_, hl, rfl⟩)
      | ended => exact absurd rfl hne
      | failed => exact absurd (decide_eq_true rfl) (List.countP_eq_zero.1 hnone _ hl)
    · refine iff_of_false (fun e => nomatch e) fun hrunning => hrunning.1 ?_
      refine List.eq_nil_iff_forall_not_mem.2 fun i hi => ?_
      obtain ⟨k, hk⟩ := mem_running.1 hi
      cases hs.2.2 _ (List.mem_of_getElem? hk)
    · refine iff_of_false (fun e => nomatch e) fun hrunning => ?_
      rw [failures_eq_zero.1 hrunning.2] at hs
      cases hs

/-- Three items, two at a time: the answers come out of order, and the results are in order. -/
theorem mapConcurrent_run_sample :
    let p : FanOut String String :=
      run (step 3) (start 2 3) [(1, .ok "b"), (1, .ok "c"), (0, .ok "a")]
    p.outcome = some (.ok [some "a", some "b", some "c"]) ∧ p.started = [0, 1, 2] := by
  intro p
  have h := mapConcurrent_run (show 0 < 2 by decide) 3
    [(1, Except.ok "b"), (1, .ok "c"), (0, (.ok "a" : Except String String))]
  refine ⟨rfl, ?_⟩
  rw [h.1]
  rfl

end AgentOrchestrator.Lifecycle
