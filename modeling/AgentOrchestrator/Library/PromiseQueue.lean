import AgentOrchestrator.Library.Runs
import Mathlib.Algebra.GroupWithZero.Nat
import Mathlib.Data.List.Basic
import Mathlib.Data.Nat.Find
import Mathlib.Logic.Function.Basic

/-!
# Queues made of promises

Sections of one key are kept apart by chaining promises.  A caller looks up the last promise of its
key, puts one of its own in its place, and awaits the one it found; when its section is over it
resolves its own.  Every continuation after an `await` is a step, so any other caller may come
between two of them.

1. `Queued` says how the promises of a key are linked, and every step keeps it (`queued_run`).
2. A caller that is past its wait is the first of its key that is not finished
   (`finished_of_started`), and the table names the last caller of a key (`Queued.tail`).
3. When nothing can go on any more, the callers that still wait are those behind a caller whose
   release was rejected (`waits_iff`); every step that is not a call uses up `work`.
-/

namespace PromiseQueue

open Runs

variable {κ : Type*}

/-! ## The machine -/

/-- Where a caller stands. -/
inductive Phase where
  /-- awaits the promise it found -/
  | waiting
  /-- takes the lock of the resource -/
  | entered
  /-- runs its section -/
  | holding
  /-- awaits the release of the lock -/
  | releasing
  /-- the release was rejected, and its own promise is never resolved -/
  | abandoned
  /-- its own promise is resolved -/
  | finished
  deriving DecidableEq

/-- A caller, with the caller whose promise it found. -/
structure Caller (κ : Type*) where
  key : κ
  previous : Option ℕ
  phase : Phase := .waiting
  deriving DecidableEq

/-- A caller is known by its position; `tails` is the table of the last promises. -/
structure State (κ : Type*) where
  callers : List (Caller κ) := []
  tails : κ → Option ℕ := fun _ => none

/-- How a queue is programmed. -/
structure Policy where
  /-- the promise of a caller resolves only after the one it found -/
  chained : Bool
  /-- a rejected release is caught -/
  catches : Bool
  /-- the last caller takes its promise out of the table -/
  forgets : Bool

/-- The promise of a caller is resolved; `depth` bounds the chain that is followed. -/
def resolved (policy : Policy) (callers : List (Caller κ)) : ℕ → Option ℕ → Bool
  | _, none => true
  | 0, some _ => false
  | depth + 1, some i =>
    match callers[i]? with
    | none => false
    | some c =>
      c.phase = .finished ∧ (policy.chained = false ∨ resolved policy callers depth c.previous)

def setPhase (i : ℕ) (c : Caller κ) (phase : Phase) (s : State κ) : State κ :=
  { s with callers := s.callers.set i { c with phase } }

/-- The caller resolves its promise. -/
def finish [DecidableEq κ] (policy : Policy) (i : ℕ) (c : Caller κ) (s : State κ) : State κ where
  callers := s.callers.set i { c with phase := .finished }
  tails := if policy.forgets ∧ s.tails c.key = some i then Function.update s.tails c.key none
    else s.tails

/-- A caller enters the queue of its key. -/
def enqueue [DecidableEq κ] (key : κ) (s : State κ) : State κ where
  callers := s.callers ++ [{ key, previous := s.tails key }]
  tails := Function.update s.tails key (some s.callers.length)

inductive Act (κ : Type*) where
  | call (key : κ)
  | resume (i : ℕ)
  | locked (i : ℕ) (ok : Bool)
  | operated (i : ℕ)
  | released (i : ℕ) (ok : Bool)
  deriving DecidableEq

def Act.isCall : Act κ → Bool
  | .call _ => true
  | _ => false

/-- What a step does to the caller it is about. -/
def onCaller (i : ℕ) (s : State κ) (f : Caller κ → State κ) : State κ :=
  match s.callers[i]? with
  | none => s
  | some c => f c

def step [DecidableEq κ] (policy : Policy) (s : State κ) : Act κ → State κ
  | .call key => enqueue key s
  | .resume i => onCaller i s fun c =>
    if c.phase = .waiting ∧ resolved policy s.callers s.callers.length c.previous then
      setPhase i c .entered s
    else s
  | .locked i ok => onCaller i s fun c =>
    if c.phase = .entered then if ok then setPhase i c .holding s else finish policy i c s else s
  | .operated i => onCaller i s fun c =>
    if c.phase = .holding then setPhase i c .releasing s else s
  | .released i ok => onCaller i s fun c =>
    if c.phase = .releasing then
      if ok ∨ policy.catches then finish policy i c s else setPhase i c .abandoned s
    else s

/-! ## What a step does -/

/-- The phases a caller goes through without resolving its promise. -/
inductive Phase.Next : Phase → Phase → Prop
  | enter : Phase.Next .waiting .entered
  | hold : Phase.Next .entered .holding
  | operate : Phase.Next .holding .releasing
  | abandon : Phase.Next .releasing .abandoned

/-- A step that is not a call. -/
inductive Moves [DecidableEq κ] (policy : Policy) (s : State κ) : State κ → Prop
  | phase {i : ℕ} {c : Caller κ} {p : Phase} (hc : s.callers[i]? = some c) (hnext : c.phase.Next p)
      (hwait : c.phase = .waiting → resolved policy s.callers s.callers.length c.previous)
      (habandon : p = .abandoned → policy.catches = false) :
      Moves policy s (setPhase i c p s)
  | finish {i : ℕ} {c : Caller κ} (hc : s.callers[i]? = some c)
      (hphase : c.phase = .entered ∨ c.phase = .releasing) :
      Moves policy s (finish policy i c s)

theorem onCaller_some {i : ℕ} {s : State κ} {c : Caller κ} (h : s.callers[i]? = some c)
    (f : Caller κ → State κ) : onCaller i s f = f c := by
  unfold onCaller; rw [h]

theorem step_moves [DecidableEq κ] (policy : Policy) (s : State κ) {a : Act κ} (ha : a.isCall = false) :
    step policy s a = s ∨ Moves policy s (step policy s a) := by
  have hnone : ∀ {i : ℕ} {f : Caller κ → State κ}, s.callers[i]? = none → onCaller i s f = s := by
    intro i f h; unfold onCaller; rw [h]
  cases a with
  | call key => cases ha
  | resume i =>
    cases hc : s.callers[i]? with
    | none => exact Or.inl (hnone hc)
    | some c =>
      simp only [step, onCaller_some hc]
      split_ifs with h
      · exact Or.inr (.phase hc (h.1 ▸ .enter) (fun _ => h.2) (by simp))
      · exact Or.inl rfl
  | locked i ok =>
    cases hc : s.callers[i]? with
    | none => exact Or.inl (hnone hc)
    | some c =>
      simp only [step, onCaller_some hc]
      split_ifs with h hok
      · exact Or.inr (.phase hc (h ▸ .hold) (by simp [h]) (by simp))
      · exact Or.inr (.finish hc (Or.inl h))
      · exact Or.inl rfl
  | operated i =>
    cases hc : s.callers[i]? with
    | none => exact Or.inl (hnone hc)
    | some c =>
      simp only [step, onCaller_some hc]
      split_ifs with h
      · exact Or.inr (.phase hc (h ▸ .operate) (by simp [h]) (by simp))
      · exact Or.inl rfl
  | released i ok =>
    cases hc : s.callers[i]? with
    | none => exact Or.inl (hnone hc)
    | some c =>
      simp only [step, onCaller_some hc]
      split_ifs with h hok
      · exact Or.inr (.finish hc (Or.inr h))
      · refine Or.inr (.phase hc (h ▸ .abandon) (by simp [h]) ?_)
        intro _
        simpa using (not_or.1 hok).2
      · exact Or.inl rfl

/-- The phases of a caller before and after a step that is about it. -/
inductive Act.Changes : Act κ → ℕ → Phase → Phase → Prop
  | resume (i : ℕ) : Changes (.resume i) i .waiting .entered
  | locked (i : ℕ) : Changes (.locked i true) i .entered .holding
  | refused (i : ℕ) : Changes (.locked i false) i .entered .finished
  | operated (i : ℕ) : Changes (.operated i) i .holding .releasing
  | released (i : ℕ) (ok : Bool) : Changes (.released i ok) i .releasing .finished
  | abandoned (i : ℕ) (ok : Bool) : Changes (.released i ok) i .releasing .abandoned

section Changes

variable {i j : ℕ} {p q : Phase}

theorem changes_resume (h : (Act.resume i : Act κ).Changes j p q) :
    j = i ∧ p = .waiting ∧ q = .entered := by
  cases h; exact ⟨rfl, rfl, rfl⟩

theorem changes_locked {ok : Bool} (h : (Act.locked i ok : Act κ).Changes j p q) :
    j = i ∧ p = .entered ∧ q = if ok then .holding else .finished := by
  cases h <;> exact ⟨rfl, rfl, rfl⟩

theorem changes_operated (h : (Act.operated i : Act κ).Changes j p q) :
    j = i ∧ p = .holding ∧ q = .releasing := by
  cases h; exact ⟨rfl, rfl, rfl⟩

theorem changes_released {ok : Bool} (h : (Act.released i ok : Act κ).Changes j p q) :
    j = i ∧ p = .releasing ∧ (q = .finished ∨ q = .abandoned) := by
  cases h
  · exact ⟨rfl, rfl, Or.inl rfl⟩
  · exact ⟨rfl, rfl, Or.inr rfl⟩

end Changes

/-- A step that is not a call changes the phase of one caller, if it changes anything. -/
theorem step_changes [DecidableEq κ] (policy : Policy) (s : State κ) {a : Act κ}
    (ha : a.isCall = false) :
    step policy s a = s ∨ ∃ i c p, s.callers[i]? = some c ∧ a.Changes i c.phase p ∧
      (step policy s a).callers = s.callers.set i { c with phase := p } := by
  have hon : ∀ {i : ℕ} {f : Caller κ → State κ},
      (∀ c, s.callers[i]? = some c → f c = s ∨ ∃ p, a.Changes i c.phase p ∧
        (f c).callers = s.callers.set i { c with phase := p }) →
      onCaller i s f = s ∨ ∃ j c p, s.callers[j]? = some c ∧ a.Changes j c.phase p ∧
        (onCaller i s f).callers = s.callers.set j { c with phase := p } := by
    intro i f hf
    cases hc : s.callers[i]? with
    | none =>
      left
      unfold onCaller
      rw [hc]
    | some c =>
      rw [onCaller_some hc]
      rcases hf c hc with e | ⟨p, hp, e⟩
      · exact Or.inl e
      · exact Or.inr ⟨i, c, p, hc, hp, e⟩
  cases a with
  | call key => cases ha
  | resume i =>
    simp only [step]
    apply hon
    intro c _
    split_ifs with h
    · exact Or.inr ⟨.entered, h.1 ▸ .resume i, rfl⟩
    · exact Or.inl rfl
  | locked i ok =>
    simp only [step]
    apply hon
    intro c _
    split_ifs with h hok
    · subst hok
      exact Or.inr ⟨.holding, h ▸ .locked i, rfl⟩
    · rw [Bool.eq_false_iff.2 hok]
      exact Or.inr ⟨.finished, h ▸ .refused i, rfl⟩
    · exact Or.inl rfl
  | operated i =>
    simp only [step]
    apply hon
    intro c _
    split_ifs with h
    · exact Or.inr ⟨.releasing, h ▸ .operated i, rfl⟩
    · exact Or.inl rfl
  | released i ok =>
    simp only [step]
    apply hon
    intro c _
    split_ifs with h hok
    · exact Or.inr ⟨.finished, h ▸ .released i ok, rfl⟩
    · exact Or.inr ⟨.abandoned, h ▸ .abandoned i ok, rfl⟩
    · exact Or.inl rfl

/-! ## How the promises are linked -/

/-- Every caller of the key before `i` is finished. -/
def FinishedBefore (callers : List (Caller κ)) (key : κ) (i : ℕ) : Prop :=
  ∀ (j : ℕ) (c : Caller κ), j < i → callers[j]? = some c → c.key = key → c.phase = .finished

/-- `j` is the last caller of the key before `i`. -/
def LastBefore (callers : List (Caller κ)) (key : κ) (i j : ℕ) : Prop :=
  j < i ∧ (∃ c : Caller κ, callers[j]? = some c ∧ c.key = key) ∧
    ∀ (k : ℕ) (c : Caller κ), j < k → k < i → callers[k]? = some c → c.key ≠ key

/-- What a caller at position `i` finds in the table. -/
def Found (callers : List (Caller κ)) (key : κ) (i : ℕ) : Option ℕ → Prop
  | none => FinishedBefore callers key i
  | some j => LastBefore callers key i j

/-- The promises of a key, in the order of the calls. -/
structure Queued (s : State κ) : Prop where
  link : ∀ (i : ℕ) (c : Caller κ), s.callers[i]? = some c → Found s.callers c.key i c.previous
  tail : ∀ key, Found s.callers key s.callers.length (s.tails key)
  /-- who is past the wait has only finished callers before it -/
  started : ∀ (i : ℕ) (c : Caller κ), s.callers[i]? = some c → c.phase ≠ .waiting →
    FinishedBefore s.callers c.key i

theorem finished_of_resolved {policy : Policy} {callers : List (Caller κ)} {depth i : ℕ}
    (h : resolved policy callers depth (some i)) :
    ∃ c, callers[i]? = some c ∧ c.phase = .finished := by
  cases depth with
  | zero => cases h
  | succ depth =>
    unfold resolved at h
    cases hc : callers[i]? with
    | none => rw [hc] at h; cases h
    | some c =>
      rw [hc] at h
      simp only [decide_eq_true_eq] at h
      exact ⟨c, rfl, h.1⟩

/-- A caller whose wait is over has only finished callers of its key before it. -/
theorem Queued.finishedBefore {policy : Policy} {s : State κ} (h : Queued s) {i : ℕ} {c : Caller κ}
    (hc : s.callers[i]? = some c) {depth : ℕ} (hres : resolved policy s.callers depth c.previous) :
    FinishedBefore s.callers c.key i := by
  have hlink := h.link i c hc
  cases hp : c.previous with
  | none => rw [hp] at hlink; exact hlink
  | some j =>
    rw [hp] at hlink hres
    obtain ⟨hji, ⟨d, hd, hkey⟩, hbetween⟩ := hlink
    obtain ⟨d', hd', hfin⟩ := finished_of_resolved hres
    obtain rfl : d = d' := Option.some.inj (hd.symm.trans hd')
    intro k e hk he hek
    rcases Nat.lt_trichotomy k j with hkj | rfl | hjk
    · exact h.started j d hd (by simp [hfin]) k e hkj he (hek.trans hkey.symm)
    · obtain rfl : d = e := Option.some.inj (hd.symm.trans he)
      exact hfin
    · exact absurd hek (hbetween k e hjk hk he)

section Change

variable {callers : List (Caller κ)} {i : ℕ} {c : Caller κ} (hc : callers[i]? = some c) (p : Phase)

include hc in
/-- A caller after a change of one phase, and before it. -/
theorem getElem?_set_phase {j : ℕ} {d : Caller κ}
    (hd : (callers.set i { c with phase := p })[j]? = some d) :
    ∃ e, callers[j]? = some e ∧ d.key = e.key ∧ d.previous = e.previous ∧
      (j = i ∧ e = c ∧ d.phase = p ∨ j ≠ i ∧ d = e) := by
  by_cases hij : j = i
  · subst hij
    have hlt : j < callers.length := (List.getElem?_eq_some_iff.1 hc).1
    rw [List.getElem?_set_self hlt] at hd
    obtain rfl := Option.some.inj hd
    exact ⟨c, hc, rfl, rfl, Or.inl ⟨rfl, rfl, rfl⟩⟩
  · rw [List.getElem?_set_ne (Ne.symm hij)] at hd
    exact ⟨d, hd, rfl, rfl, Or.inr ⟨hij, rfl⟩⟩

include hc in
theorem exists_getElem?_set_phase {j : ℕ} {e : Caller κ} (he : callers[j]? = some e) :
    ∃ d, (callers.set i { c with phase := p })[j]? = some d ∧ d.key = e.key := by
  by_cases hij : j = i
  · subst hij
    have hlt : j < callers.length := (List.getElem?_eq_some_iff.1 hc).1
    obtain rfl : c = e := Option.some.inj (hc.symm.trans he)
    exact ⟨_, List.getElem?_set_self hlt, rfl⟩
  · exact ⟨e, by rw [List.getElem?_set_ne (Ne.symm hij)]; exact he, rfl⟩

include hc in
/-- A caller that was not finished cannot spoil what stands before another one. -/
theorem FinishedBefore.set_phase (hopen : c.phase ≠ .finished) {key : κ} {n : ℕ}
    (h : FinishedBefore callers key n) :
    FinishedBefore (callers.set i { c with phase := p }) key n := by
  intro j d hj hd hkey
  obtain ⟨e, he, hk, -, ⟨-, rfl, -⟩ | ⟨-, rfl⟩⟩ := getElem?_set_phase hc p hd
  · exact absurd (h j e hj he (hk.symm.trans hkey)) hopen
  · exact h j d hj he hkey

include hc in
theorem Found.set_phase (hopen : c.phase ≠ .finished) {key : κ} {n : ℕ} {o : Option ℕ}
    (h : Found callers key n o) : Found (callers.set i { c with phase := p }) key n o := by
  cases o with
  | none => exact FinishedBefore.set_phase hc p hopen h
  | some j =>
    obtain ⟨hj, ⟨d, hd, hkey⟩, hbetween⟩ := h
    obtain ⟨e, he, hek⟩ := exists_getElem?_set_phase hc p hd
    refine ⟨hj, ⟨e, he, hek.trans hkey⟩, ?_⟩
    intro k f hjk hkn hf
    obtain ⟨g, hg, hfg, -⟩ := getElem?_set_phase hc p hf
    rw [hfg]
    exact hbetween k g hjk hkn hg

end Change

/-! ## Every step keeps the links -/

/-- The change of a phase keeps the links when the caller leaves its wait in time. -/
theorem Queued.set_phase {s : State κ} (h : Queued s) {i : ℕ} {c : Caller κ}
    (hc : s.callers[i]? = some c) (hopen : c.phase ≠ .finished) (p : Phase)
    (hbefore : FinishedBefore s.callers c.key i) : Queued (setPhase i c p s) := by
  refine ⟨?_, ?_, ?_⟩
  · intro j d hd
    obtain ⟨e, he, hk, hp, -⟩ := getElem?_set_phase hc p hd
    rw [hk, hp]
    exact (h.link j e he).set_phase hc p hopen
  · intro key
    have htail := (h.tail key).set_phase hc p hopen
    simpa only [setPhase, List.length_set] using htail
  · intro j d hd hphase
    obtain ⟨e, he, hk, -, ⟨rfl, rfl, -⟩ | ⟨-, rfl⟩⟩ := getElem?_set_phase hc p hd
    · rw [hk]
      exact hbefore.set_phase hc p hopen
    · exact (h.started j d he hphase).set_phase hc p hopen

theorem FinishedBefore.append {callers : List (Caller κ)} {key : κ} {n : ℕ} (c : Caller κ)
    (hn : n ≤ callers.length) (h : FinishedBefore callers key n) :
    FinishedBefore (callers ++ [c]) key n := by
  intro j d hj hd
  rw [List.getElem?_append_left (by omega)] at hd
  exact h j d hj hd

theorem Found.append {callers : List (Caller κ)} {key : κ} {n : ℕ} {o : Option ℕ} (c : Caller κ)
    (hn : n ≤ callers.length) (h : Found callers key n o) : Found (callers ++ [c]) key n o := by
  cases o with
  | none => exact FinishedBefore.append c hn h
  | some j =>
    obtain ⟨hj, ⟨d, hd, hkey⟩, hbetween⟩ := h
    refine ⟨hj, ⟨d, ?_, hkey⟩, ?_⟩
    · rw [List.getElem?_append_left (by omega)]; exact hd
    · intro k e hjk hkn he
      rw [List.getElem?_append_left (by omega)] at he
      exact hbetween k e hjk hkn he

/-- One more caller, of another key. -/
theorem Found.push {callers : List (Caller κ)} {key : κ} {o : Option ℕ} {c : Caller κ}
    (hne : c.key ≠ key) (h : Found callers key callers.length o) :
    Found (callers ++ [c]) key (callers ++ [c]).length o := by
  have hlast : ∀ {k : ℕ} {d : Caller κ}, (callers ++ [c])[k]? = some d → ¬ k < callers.length →
      d.key ≠ key := by
    intro k d hd hk
    have hlt := (List.getElem?_eq_some_iff.1 hd).1
    rw [List.length_append, List.length_singleton] at hlt
    obtain rfl : k = callers.length := by omega
    simp only [List.getElem?_append_right (Nat.le_refl _), Nat.sub_self, List.getElem?_cons_zero,
      Option.some.injEq] at hd
    exact hd ▸ hne
  have hold := h.append c (Nat.le_refl _)
  cases o with
  | none =>
    intro j d _ hd hkey
    by_cases hj : j < callers.length
    · exact hold j d hj hd hkey
    · exact absurd hkey (hlast hd hj)
  | some j =>
    obtain ⟨hj, hcaller, hbetween⟩ := hold
    refine ⟨by rw [List.length_append]; omega, hcaller, ?_⟩
    intro k d hjk _ hd
    by_cases hk : k < callers.length
    · exact hbetween k d hjk hk hd
    · exact hlast hd hk

section Steps

variable [DecidableEq κ]

theorem Queued.enqueue {s : State κ} (h : Queued s) (key : κ) : Queued (enqueue key s) := by
  have hnew : ∀ {i : ℕ} {c : Caller κ}, (PromiseQueue.enqueue key s).callers[i]? = some c →
      i < s.callers.length ∧ s.callers[i]? = some c ∨
        i = s.callers.length ∧ c = { key, previous := s.tails key } := by
    intro i c hc
    by_cases hi : i < s.callers.length
    · left
      refine ⟨hi, ?_⟩
      simpa only [PromiseQueue.enqueue, List.getElem?_append_left hi] using hc
    · right
      have hlt := (List.getElem?_eq_some_iff.1 hc).1
      simp only [PromiseQueue.enqueue, List.length_append, List.length_singleton] at hlt
      obtain rfl : i = s.callers.length := by omega
      refine ⟨rfl, ?_⟩
      simpa [PromiseQueue.enqueue] using hc.symm
  refine ⟨?_, ?_, ?_⟩
  · intro i c hc
    rcases hnew hc with ⟨hi, hold⟩ | ⟨rfl, rfl⟩
    · exact (h.link i c hold).append _ (Nat.le_of_lt hi)
    · exact (h.tail key).append _ (Nat.le_refl _)
  · intro other
    by_cases ho : other = key
    · subst ho
      simp only [PromiseQueue.enqueue, Function.update_self]
      refine ⟨by simp, ⟨{ key := other, previous := s.tails other }, by simp, rfl⟩, ?_⟩
      intro k c hk hlt
      rw [List.length_append, List.length_singleton] at hlt
      omega
    · simp only [PromiseQueue.enqueue, Function.update_of_ne ho]
      exact (h.tail other).push (Ne.symm ho)
  · intro i c hc hphase
    rcases hnew hc with ⟨hi, hold⟩ | ⟨-, rfl⟩
    · exact (h.started i c hold hphase).append _ (Nat.le_of_lt hi)
    · exact absurd rfl hphase

theorem Queued.finish {policy : Policy} {s : State κ} (h : Queued s) {i : ℕ} {c : Caller κ}
    (hc : s.callers[i]? = some c) (hopen : c.phase ≠ .finished)
    (hbefore : FinishedBefore s.callers c.key i) : Queued (finish policy i c s) := by
  have hset := h.set_phase hc hopen .finished hbefore
  refine ⟨hset.link, ?_, hset.started⟩
  intro key
  have htail := hset.tail key
  simp only [PromiseQueue.finish]
  split_ifs with hforget
  · by_cases hkey : key = c.key
    · subst hkey
      -- the caller that leaves is the last one, and those before it are finished
      rw [Function.update_self]
      simp only [setPhase, hforget.2] at htail
      obtain ⟨-, -, hbetween⟩ := htail
      intro j d hj hd hd'
      rcases Nat.lt_trichotomy j i with hji | rfl | hij
      · exact (hbefore.set_phase hc .finished hopen) j d hji hd hd'
      · obtain ⟨e, -, -, -, ⟨-, -, hp⟩ | ⟨hne, -⟩⟩ := getElem?_set_phase hc .finished hd
        · exact hp
        · exact absurd rfl hne
      · exact absurd hd' (hbetween j d hij hj hd)
    · rw [Function.update_of_ne hkey]
      exact htail
  · exact htail

theorem Phase.Next.ne_finished {p q : Phase} (h : p.Next q) : p ≠ .finished := by
  cases h <;> decide

theorem Queued.moves {policy : Policy} {s s' : State κ} (h : Queued s) (hm : Moves policy s s') :
    Queued s' := by
  cases hm with
  | @phase i c p hc hnext hwait _ =>
    refine h.set_phase hc hnext.ne_finished p ?_
    by_cases hphase : c.phase = .waiting
    · exact h.finishedBefore hc (hwait hphase)
    · exact h.started i c hc hphase
  | @finish i c hc hphase =>
    have hstarted : c.phase ≠ .waiting := by rcases hphase with e | e <;> rw [e] <;> decide
    have hopen : c.phase ≠ .finished := by rcases hphase with e | e <;> rw [e] <;> decide
    exact h.finish hc hopen (h.started i c hc hstarted)

theorem queued_step (policy : Policy) (s : State κ) (a : Act κ) (h : Queued s) :
    Queued (step policy s a) := by
  cases ha : a.isCall with
  | true =>
    cases a with
    | call key => exact h.enqueue key
    | _ => cases ha
  | false =>
    rcases step_moves policy s ha with e | hm
    · rw [e]; exact h
    · exact h.moves hm

end Steps

theorem queued_init : Queued ({} : State κ) := by
  refine ⟨?_, ?_, ?_⟩
  · intro i c h; cases h
  · intro key j c hj; cases hj
  · intro i c h; cases h

theorem queued_run [DecidableEq κ] (policy : Policy) (acts : List (Act κ)) :
    Queued (run (step policy) {} acts) :=
  run_invariant _ (queued_step policy) queued_init acts

/-! ## Who waits forever -/

/-- A chain of promises that are all resolved is seen to be so at any depth that covers it. -/
theorem Queued.resolved {s : State κ} (h : Queued s) (policy : Policy) {i : ℕ} {key : κ}
    {o : Option ℕ} (hfound : Found s.callers key i o) (hfin : FinishedBefore s.callers key i) :
    ∀ {depth : ℕ}, i ≤ depth → resolved policy s.callers depth o := by
  induction i using Nat.strongRecOn generalizing o with
  | ind i ih =>
    intro depth hdepth
    cases o with
    | none => unfold PromiseQueue.resolved; rfl
    | some j =>
      obtain ⟨hj, ⟨c, hc, hkey⟩, -⟩ := hfound
      have hphase : c.phase = .finished := hfin j c hj hc hkey
      have hnext : PromiseQueue.resolved policy s.callers (depth - 1) c.previous := by
        refine ih j hj ?_ ?_ (by omega)
        · exact hkey ▸ h.link j c hc
        · intro k d hk hd hdkey
          exact hfin k d (by omega) hd hdkey
      obtain ⟨depth, rfl⟩ : ∃ d, depth = d + 1 := ⟨depth - 1, by omega⟩
      unfold PromiseQueue.resolved
      rw [hc]
      simp only [hphase, decide_eq_true_eq, true_and]
      exact Or.inr hnext

/-- Nothing but a new call would change the state. -/
def Quiet [DecidableEq κ] (policy : Policy) (s : State κ) : Prop :=
  ∀ a : Act κ, a.isCall = false → step policy s a = s

theorem setPhase_ne {s : State κ} {i : ℕ} {c : Caller κ} (hc : s.callers[i]? = some c) {p : Phase}
    (hp : c.phase ≠ p) : setPhase i c p s ≠ s := by
  intro e
  have hlt := (List.getElem?_eq_some_iff.1 hc).1
  have hi : (setPhase i c p s).callers[i]? = some { c with phase := p } :=
    List.getElem?_set_self hlt
  rw [e, hc, Option.some.injEq] at hi
  exact hp (congrArg Caller.phase hi)

theorem finish_ne [DecidableEq κ] {policy : Policy} {s : State κ} {i : ℕ} {c : Caller κ}
    (hc : s.callers[i]? = some c) (hp : c.phase ≠ .finished) : finish policy i c s ≠ s := by
  intro e
  have hlt := (List.getElem?_eq_some_iff.1 hc).1
  have hi : (finish policy i c s).callers[i]? = some { c with phase := .finished } :=
    List.getElem?_set_self hlt
  rw [e, hc, Option.some.injEq] at hi
  exact hp (congrArg Caller.phase hi)

/-- In a quiet state a caller waits, has finished or was abandoned. -/
theorem Quiet.phase [DecidableEq κ] {policy : Policy} {s : State κ} (h : Quiet policy s) {i : ℕ}
    {c : Caller κ} (hc : s.callers[i]? = some c) :
    c.phase = .waiting ∨ c.phase = .abandoned ∨ c.phase = .finished := by
  cases hphase : c.phase with
  | waiting => exact Or.inl rfl
  | abandoned => exact Or.inr (Or.inl rfl)
  | finished => exact Or.inr (Or.inr rfl)
  | entered =>
    have hstep := h (.locked i true) rfl
    simp only [step, onCaller_some hc, hphase, if_true] at hstep
    exact absurd hstep (setPhase_ne hc (by simp [hphase]))
  | holding =>
    have hstep := h (.operated i) rfl
    simp only [step, onCaller_some hc, hphase, if_true] at hstep
    exact absurd hstep (setPhase_ne hc (by simp [hphase]))
  | releasing =>
    have hstep := h (.released i true) rfl
    simp only [step, onCaller_some hc, hphase, if_true, true_or] at hstep
    exact absurd hstep (finish_ne hc (by simp [hphase]))

/-- No caller of the key can go on. -/
structure Still [DecidableEq κ] (policy : Policy) (s : State κ) (key : κ) : Prop where
  phase : ∀ (i : ℕ) (c : Caller κ), s.callers[i]? = some c → c.key = key →
    c.phase = .waiting ∨ c.phase = .abandoned ∨ c.phase = .finished
  resume : ∀ (i : ℕ) (c : Caller κ), s.callers[i]? = some c → c.key = key →
    step policy s (.resume i) = s

theorem Quiet.still [DecidableEq κ] {policy : Policy} {s : State κ} (h : Quiet policy s) (key : κ) :
    Still policy s key :=
  ⟨fun _ _ hc _ => h.phase hc, fun i _ _ _ => h (.resume i) rfl⟩

/-- A caller that still waits does not have the promise it awaits. -/
theorem Still.not_resolved [DecidableEq κ] {policy : Policy} {s : State κ} {key : κ}
    (h : Still policy s key) {i : ℕ} {c : Caller κ} (hc : s.callers[i]? = some c)
    (hkey : c.key = key) (hwait : c.phase = .waiting) :
    ¬ resolved policy s.callers s.callers.length c.previous := by
  intro hres
  have hstep := h.resume i c hc hkey
  simp only [step, onCaller_some hc, hwait, hres, and_self, if_true] at hstep
  exact setPhase_ne hc (by simp [hwait]) hstep

/-- When no caller of a key can go on, those that wait are those behind an abandoned one. -/
theorem waits_iff [DecidableEq κ] {policy : Policy} {s : State κ} (h : Queued s) {key : κ}
    (hstill : Still policy s key) {i : ℕ} {c : Caller κ} (hc : s.callers[i]? = some c)
    (hkey : c.key = key) :
    c.phase = .waiting ↔ ∃ j d, j < i ∧ s.callers[j]? = some d ∧ d.key = key ∧
      d.phase = .abandoned := by
  subst hkey
  constructor
  · intro hwait
    have hlt := (List.getElem?_eq_some_iff.1 hc).1
    have hopen : ¬ FinishedBefore s.callers c.key i := fun hfin =>
      hstill.not_resolved hc rfl hwait (h.resolved policy (h.link i c hc) hfin (Nat.le_of_lt hlt))
    -- of the callers before it that are not finished, the first one does not wait
    have hex : ∃ j, ∃ d, j < i ∧ s.callers[j]? = some d ∧ d.key = c.key ∧ d.phase ≠ .finished := by
      unfold FinishedBefore at hopen
      push Not at hopen
      obtain ⟨j, d, hj, hd, hkey, hphase⟩ := hopen
      exact ⟨j, d, hj, hd, hkey, hphase⟩
    classical
    obtain ⟨d, hj, hd, hkey, hphase⟩ := Nat.find_spec hex
    have hbefore : FinishedBefore s.callers d.key (Nat.find hex) := by
      intro k e hk he hek
      by_contra hne
      exact Nat.find_min hex hk ⟨e, by omega, he, hek.trans hkey, hne⟩
    refine ⟨Nat.find hex, d, hj, hd, hkey, ?_⟩
    rcases hstill.phase _ d hd hkey with hw | ha | hf
    · have hres := h.resolved policy (h.link _ d hd) hbefore
        (Nat.le_of_lt (List.getElem?_eq_some_iff.1 hd).1)
      exact absurd hres (hstill.not_resolved hd hkey hw)
    · exact ha
    · exact absurd hf hphase
  · rintro ⟨j, d, hj, hd, hkey, hphase⟩
    by_contra hne
    have hfin := h.started i c hc hne j d hj hd hkey
    rw [hphase] at hfin
    cases hfin

/-! ## The line of a key -/

/-- The callers of a key that are not finished, in the order of their calls. -/
def line [DecidableEq κ] (s : State κ) (key : κ) : List ℕ :=
  (List.range s.callers.length).filter fun i =>
    (s.callers[i]?).any fun c => c.key = key ∧ c.phase ≠ .finished

section Line

variable [DecidableEq κ]

theorem mem_line {s : State κ} {key : κ} {i : ℕ} :
    i ∈ line s key ↔ ∃ c, s.callers[i]? = some c ∧ c.key = key ∧ c.phase ≠ .finished := by
  unfold line
  rw [List.mem_filter, List.mem_range, Option.any_eq_true]
  constructor
  · rintro ⟨-, c, hc, h⟩
    exact ⟨c, hc, by simpa using h⟩
  · rintro ⟨c, hc, h⟩
    exact ⟨(List.getElem?_eq_some_iff.1 hc).1, c, hc, by simpa using h⟩

theorem line_sorted (s : State κ) (key : κ) : (line s key).Pairwise (· < ·) :=
  List.pairwise_lt_range.filter _

/-- A line is known by its members. -/
theorem line_eq {s : State κ} {key : κ} {l : List ℕ} (hl : l.Pairwise (· < ·))
    (h : ∀ i, i ∈ line s key ↔ i ∈ l) : line s key = l := by
  refine List.Perm.eq_of_pairwise ?_ (line_sorted s key) hl ?_
  · intro i j _ _ hij hji
    exact absurd hij (Nat.lt_asymm hji)
  · refine (List.perm_ext_iff_of_nodup ?_ ?_).2 h
    · exact (line_sorted s key).imp Nat.ne_of_lt
    · exact hl.imp Nat.ne_of_lt

/-- Who is past its wait and not finished is the first of its line. -/
theorem Queued.head {s : State κ} (h : Queued s) {i : ℕ} {c : Caller κ}
    (hc : s.callers[i]? = some c) (hstarted : c.phase ≠ .waiting) (hopen : c.phase ≠ .finished) :
    ∃ l, line s c.key = i :: l := by
  have hmem : i ∈ line s c.key := mem_line.2 ⟨c, hc, rfl, hopen⟩
  have hsorted := line_sorted s c.key
  cases hl : line s c.key with
  | nil => rw [hl] at hmem; cases hmem
  | cons j l =>
    rw [hl] at hmem hsorted
    rcases List.mem_cons.1 hmem with rfl | hil
    · exact ⟨l, rfl⟩
    · have hji := List.rel_of_pairwise_cons hsorted hil
      obtain ⟨d, hd, hkey, hdopen⟩ := mem_line.1 (hl ▸ List.mem_cons_self : j ∈ line s c.key)
      exact absurd (h.started i c hc hstarted j d hji hd hkey) hdopen

theorem line_enqueue (s : State κ) (key other : κ) :
    line (enqueue key s) other =
      if other = key then line s other ++ [s.callers.length] else line s other := by
  have hold : ∀ {i : ℕ} {c : Caller κ}, i < s.callers.length →
      ((enqueue key s).callers[i]? = some c ↔ s.callers[i]? = some c) := by
    intro i c hi
    simp only [enqueue, List.getElem?_append_left hi]
  have hlt : ∀ {i : ℕ}, i ∈ line s other → i < s.callers.length := by
    intro i hi
    obtain ⟨c, hc, -⟩ := mem_line.1 hi
    exact (List.getElem?_eq_some_iff.1 hc).1
  have hmem : ∀ {i : ℕ}, i < s.callers.length →
      (i ∈ line (enqueue key s) other ↔ i ∈ line s other) := by
    intro i hi
    simp only [mem_line, hold hi]
  have hnew : s.callers.length ∈ line (enqueue key s) other ↔ other = key := by
    rw [mem_line]
    simp only [enqueue, List.getElem?_concat_length, Option.some.injEq, exists_eq_left']
    constructor
    · rintro ⟨e, -⟩
      exact e.symm
    · intro e
      exact ⟨e.symm, by simp⟩
  have hbound : ∀ {i : ℕ}, i ∈ line (enqueue key s) other → i < s.callers.length ∨
      i = s.callers.length := by
    intro i hi
    obtain ⟨c, hc, -⟩ := mem_line.1 hi
    have hi := (List.getElem?_eq_some_iff.1 hc).1
    simp only [enqueue, List.length_append, List.length_singleton] at hi
    omega
  split_ifs with hkey
  · refine line_eq ?_ ?_
    · refine List.pairwise_append.2 ⟨line_sorted s other, List.pairwise_singleton _ _, ?_⟩
      intro i hi j hj
      rw [List.mem_singleton.1 hj]
      exact hlt hi
    · intro i
      rw [List.mem_append, List.mem_singleton]
      constructor
      · intro hi
        rcases hbound hi with h | rfl
        · exact Or.inl ((hmem h).1 hi)
        · exact Or.inr rfl
      · rintro (hi | rfl)
        · exact (hmem (hlt hi)).2 hi
        · exact hnew.2 hkey
  · refine line_eq (line_sorted s other) ?_
    intro i
    constructor
    · intro hi
      rcases hbound hi with h | rfl
      · exact (hmem h).1 hi
      · exact absurd (hnew.1 hi) hkey
    · intro hi
      exact (hmem (hlt hi)).2 hi

/-- The line after a caller that was not finished changed its phase. -/
theorem mem_line_set {s s' : State κ} {i : ℕ} {c : Caller κ} {p : Phase}
    (hc : s.callers[i]? = some c) (hopen : c.phase ≠ .finished)
    (hs' : s'.callers = s.callers.set i { c with phase := p }) {key : κ} {j : ℕ} :
    j ∈ line s' key ↔ j ∈ line s key ∧ (j = i → p ≠ .finished) := by
  have hlt := (List.getElem?_eq_some_iff.1 hc).1
  by_cases hj : j = i
  · subst hj
    simp only [mem_line, hs', List.getElem?_set_self hlt, hc, Option.some.injEq, exists_eq_left',
      true_imp_iff]
    tauto
  · simp only [mem_line, hs', List.getElem?_set_ne (Ne.symm hj), hj, false_imp_iff, and_true]

/-- **The line of a key is a queue.**  A call joins at its end, whoever leaves stands at its head, and
nothing else changes it. -/
theorem line_step (policy : Policy) {s : State κ} (h : Queued s) (a : Act κ) (key : κ) :
    line (step policy s a) key = line s key ∨
      (a = .call key ∧ line (step policy s a) key = line s key ++ [s.callers.length]) ∨
      ∃ i, line s key = i :: line (step policy s a) key := by
  cases ha : a.isCall with
  | true =>
    cases a with
    | call other =>
      have hcall := line_enqueue s other key
      split_ifs at hcall with hkey
      · exact Or.inr (Or.inl ⟨by rw [hkey], hcall⟩)
      · exact Or.inl hcall
    | _ => cases ha
  | false =>
    rcases step_changes policy s ha with e | ⟨i, c, p, hc, hp, hs'⟩
    · rw [e]
      exact Or.inl rfl
    have hopen : c.phase ≠ .finished := by
      intro e
      rw [e] at hp
      cases hp
    by_cases hleave : p = .finished ∧ c.key = key
    · obtain ⟨rfl, rfl⟩ := hleave
      right; right
      have hstarted : c.phase ≠ .waiting := by
        intro e
        rw [e] at hp
        cases hp
      obtain ⟨l, hl⟩ := h.head hc hstarted hopen
      refine ⟨i, ?_⟩
      rw [hl, List.cons.injEq]
      refine ⟨rfl, (line_eq ?_ ?_).symm⟩
      · exact (List.pairwise_cons.1 (hl ▸ line_sorted s c.key)).2
      · intro j
        rw [mem_line_set hc hopen hs', hl, List.mem_cons]
        constructor
        · rintro ⟨rfl | hj, hne⟩
          · exact absurd rfl (hne rfl)
          · exact hj
        · intro hj
          refine ⟨Or.inr hj, ?_⟩
          rintro rfl
          have hsorted := line_sorted s c.key
          rw [hl] at hsorted
          exact absurd (List.rel_of_pairwise_cons hsorted hj) (Nat.lt_irrefl _)
    · left
      refine line_eq (line_sorted s key) ?_
      intro j
      rw [mem_line_set hc hopen hs']
      refine and_iff_left_of_imp ?_
      rintro hj rfl rfl
      obtain ⟨d, hd, hkey, -⟩ := mem_line.1 hj
      obtain rfl := Option.some.inj (hc.symm.trans hd)
      exact hleave ⟨rfl, hkey⟩

end Line

/-! ## Work -/

/-- The steps a caller still has to make. -/
def Phase.work : Phase → ℕ
  | .waiting => 4
  | .entered => 3
  | .holding => 2
  | .releasing => 1
  | .abandoned | .finished => 0

def work (s : State κ) : ℕ := (s.callers.map fun c => c.phase.work).sum

theorem Phase.Next.work_lt {p q : Phase} (h : p.Next q) : q.work < p.work := by
  cases h <;> decide

theorem sum_set_lt {l : List (Caller κ)} {i : ℕ} {c d : Caller κ} (hc : l[i]? = some c)
    (h : d.phase.work < c.phase.work) :
    ((l.set i d).map fun c => c.phase.work).sum < (l.map fun c => c.phase.work).sum := by
  induction l generalizing i with
  | nil => cases hc
  | cons b l ih =>
    cases i with
    | zero =>
      obtain rfl : b = c := Option.some.inj hc
      simp only [List.set_cons_zero, List.map_cons, List.sum_cons]
      omega
    | succ i =>
      have hl := ih (i := i) hc
      simp only [List.set_cons_succ, List.map_cons, List.sum_cons]
      omega

/-- Without new calls there are at most `work` steps. -/
theorem work_lt [DecidableEq κ] {policy : Policy} {s : State κ} {a : Act κ} (ha : a.isCall = false)
    (h : step policy s a ≠ s) : work (step policy s a) < work s := by
  rcases step_moves policy s ha with e | hm
  · exact absurd e h
  · generalize step policy s a = s' at hm
    cases hm with
    | phase hc hnext _ _ => exact sum_set_lt hc hnext.work_lt
    | finish hc hphase =>
      refine sum_set_lt hc ?_
      show 0 < _
      rcases hphase with e | e <;> rw [e] <;> decide

/-- A step that is not a call and changes something. -/
def Progress [DecidableEq κ] (policy : Policy) (s : State κ) (a : Act κ) : Prop :=
  a.isCall = false ∧ step policy s a ≠ s

theorem progress_le [DecidableEq κ] (policy : Policy) {s : State κ} {acts : List (Act κ)}
    (h : Admissible (step policy) (Progress policy) s acts) : acts.length ≤ work s := by
  induction acts generalizing s with
  | nil => exact Nat.zero_le _
  | cons a acts ih =>
    have hlt := work_lt h.1.1 h.1.2
    have hle := ih h.2
    rw [List.length_cons]
    omega

/-- Where a rejected release is caught nobody is abandoned. -/
theorem not_abandoned [DecidableEq κ] {policy : Policy} (hcatches : policy.catches = true)
    (acts : List (Act κ)) :
    ∀ c ∈ (run (step policy) {} acts).callers, c.phase ≠ .abandoned := by
  refine run_invariant (P := fun s : State κ => ∀ c ∈ s.callers, c.phase ≠ .abandoned)
    (step policy) ?_ (by simp) acts
  intro s a hs
  cases ha : a.isCall with
  | true =>
    cases a with
    | call key =>
      intro c hc
      rcases List.mem_append.1 hc with hc | hc
      · exact hs c hc
      · rw [List.mem_singleton.1 hc]
        simp
    | _ => cases ha
  | false =>
    rcases step_moves policy s ha with e | hm
    · rw [e]; exact hs
    · generalize step policy s a = s' at hm
      cases hm with
      | @phase i c p hc hnext hwait habandon =>
        intro d hd
        rcases List.mem_or_eq_of_mem_set hd with hd | rfl
        · exact hs d hd
        · intro hp
          rw [habandon hp] at hcatches
          cases hcatches
      | finish hc hphase =>
        intro d hd
        rcases List.mem_or_eq_of_mem_set hd with hd | rfl
        · exact hs d hd
        · simp

end PromiseQueue
