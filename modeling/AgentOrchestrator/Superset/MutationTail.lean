import AgentOrchestrator.Library.PromiseQueue

/-!
# The queue of the live adapter

`exclusive` keeps the last promise of an adapter in `mutationTail`.  A launch that awaits it waits for
one promise only, not for those before it; a release that is rejected is caught; and the field is
never cleared.  `Model` has the launches of a process in a list instead: `mutationTail_queue` says
that the promises are such a list, and `exclusive_serves` that nobody waits in it forever.
-/

namespace AgentOrchestrator.Superset

open Runs PromiseQueue

/-- `exclusive`, for the adapters of several processes. -/
def exclusive : Policy := { chained := false, catches := true, forgets := false }

/-- The launches of an adapter that are not over, in the order of their calls. -/
abbrev waitingLaunches (s : PromiseQueue.State ℕ) (process : ℕ) : List ℕ := line s process

/-- **The promises are a queue.**  A launch that runs is the first of its adapter; a call joins at the
end, and only the first one leaves. -/
theorem mutationTail_queue (acts : List (PromiseQueue.Act ℕ)) (process : ℕ) :
    let s := run (PromiseQueue.step exclusive) {} acts
    (∀ (i : ℕ) (c : Caller ℕ), s.callers[i]? = some c → c.key = process → c.phase ≠ .waiting →
      c.phase ≠ .finished → (waitingLaunches s process).head? = some i) ∧
    ∀ a, let s' := PromiseQueue.step exclusive s a
      waitingLaunches s' process = waitingLaunches s process ∨
      (a = .call process ∧
        waitingLaunches s' process = waitingLaunches s process ++ [s.callers.length]) ∨
      ∃ i, waitingLaunches s process = i :: waitingLaunches s' process := by
  intro s
  have hs : Queued s := queued_run exclusive acts
  refine ⟨?_, fun a => line_step exclusive hs a process⟩
  rintro i c hc rfl hstarted hopen
  obtain ⟨l, hl⟩ := hs.head hc hstarted hopen
  unfold waitingLaunches
  rw [hl]
  rfl

/-- When no launch can go on, none is left. -/
theorem waitingLaunches_quiet {acts : List (PromiseQueue.Act ℕ)}
    (hquiet : Quiet exclusive (run (PromiseQueue.step exclusive) {} acts)) (process : ℕ) :
    waitingLaunches (run (PromiseQueue.step exclusive) {} acts) process = [] := by
  have hs : Queued (run (PromiseQueue.step exclusive) {} acts) := queued_run exclusive acts
  have hcaught := not_abandoned (show exclusive.catches = true from rfl) acts
  generalize run (PromiseQueue.step exclusive) {} acts = s at hquiet hs hcaught
  rw [List.eq_nil_iff_forall_not_mem]
  intro i hi
  obtain ⟨c, hc, rfl, hopen⟩ := mem_line.1 hi
  rcases hquiet.phase hc with hwait | habandoned | hfinished
  · obtain ⟨j, d, -, hd, -, hd'⟩ := (waits_iff hs (hquiet.still c.key) hc rfl).1 hwait
    exact hcaught d (List.mem_iff_getElem?.2 ⟨j, hd⟩) hd'
  · exact hcaught c (List.mem_iff_getElem?.2 ⟨i, hc⟩) habandoned
  · exact hopen hfinished

/-- **Every launch is served.**  Whatever the releases answer, without new calls a state has only so
many steps to go, and after them no launch waits. -/
theorem exclusive_serves (acts acts' : List (PromiseQueue.Act ℕ))
    (hprogress : Admissible (PromiseQueue.step exclusive) (Progress exclusive)
      (run (PromiseQueue.step exclusive) {} acts) acts') :
    acts'.length ≤ work (run (PromiseQueue.step exclusive) {} acts) ∧
      (Quiet exclusive (run (PromiseQueue.step exclusive) {} (acts ++ acts')) →
        ∀ process, waitingLaunches (run (PromiseQueue.step exclusive) {} (acts ++ acts')) process = []) :=
  ⟨progress_le exclusive hprogress, fun hquiet process => waitingLaunches_quiet hquiet process⟩

/-- Two launches of one adapter; the release of the first one is rejected. -/
theorem exclusive_serves_sample :
    1 ≤ work (run (PromiseQueue.step exclusive) {}
      ([.call 0, .call 0, .resume 0, .locked 0 true, .operated 0, .released 0 false] :
        List (PromiseQueue.Act ℕ))) :=
  (exclusive_serves _ [.resume 1]
    ⟨⟨rfl, fun e => absurd (congrArg State.callers e) (by decide)⟩, trivial⟩).1

end AgentOrchestrator.Superset
