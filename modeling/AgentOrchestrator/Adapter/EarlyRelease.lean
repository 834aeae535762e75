import AgentOrchestrator.Adapter.Ownership

/-!
# How long a run keeps its permit

Every key of the three maps is active in the scheduler, in every run.  The permit of a run stays
out until the end of the run or the absence of its key is observed, but for one case: when a
lookup ends with absence, `recover` releases the run it had read before it awaited, and does not
look whether the run has meanwhile been entered for another key.
-/

namespace AgentOrchestrator.Limited

open Scheduler Runs

variable {policy : ConcurrencyPolicy} {hooked : Bool} {s s' : State}

/-! ## Recorded keys -/

/-- A request with the id is active. -/
def Active (s : Scheduler.State) (id : String) : Prop := ∃ r ∈ s.active, r.id = id

/-- Every key recorded in the maps is active. -/
structure KeysActive (s : State) : Prop where
  releases : ∀ r h, s.releases r = some h → Active s.scheduler h.idempotencyKey
  unresolvedLaunches : ∀ k p, s.unresolvedLaunches k = some p → Active s.scheduler k
  unresolvedRecoveries : ∀ k p, s.unresolvedRecoveries k = some p → Active s.scheduler k

theorem Owned.keysActive (hs : Owned s) : KeysActive s := by
  have hactive : ∀ x h, s.held x = some h → Active s.scheduler h.idempotencyKey :=
    fun x h hx => hs.accounts.active h.release h.idempotencyKey (hs.live x h hx)
  refine ⟨fun r h hr => hactive (.run r) h hr, ?_, ?_⟩
  · intro k p hp
    exact hactive (.launch k) ⟨k, p⟩ (by simp [State.held, hp])
  · intro k p hp
    exact hactive (.recovery k) ⟨k, p⟩ (by simp [State.held, hp])

/-! ## What removes a run -/

/-- The step observes the end of the run, or the absence of the key. -/
inductive Observes (s : State) (i : Act × (ℕ → ℕ → ℤ)) (runId key : String) : Prop where
  | status (status : RunStatus) (hi : i.1 = .status runId (some (runId, status)))
      (hterminal : status.isTerminal = true)
  | inspected (c : ℕ) (k : String) (recovering : Bool) (status : RunStatus)
      (hi : i.1 = .inspected c (some (runId, status)))
      (hc : s.calls c = some (.inspecting k runId recovering))
      (hterminal : status.isTerminal = true)
  | result (hi : i.1 = .result runId true)
  | absent (c : ℕ) (u : Option ℕ) (rr : Option String) (rp : Option HeldPermit) (rec : Option ℕ)
      (hi : i.1 = .lookedUp c .absent) (hc : s.calls c = some (.lookingUp key u rr rp rec))

/-- A lookup ends with absence, and the run it had read is held for another key. -/
def Early (s : State) (i : Act × (ℕ → ℕ → ℤ)) : Prop :=
  ∃ c key u r rp rec e, i.1 = .lookedUp c .absent ∧
    s.calls c = some (.lookingUp key u (some r) rp rec) ∧ s.releases r = some e ∧
    e.idempotencyKey ≠ key

theorem releases_releaseRun (runId : String) (clock : ℕ → ℤ) :
    (releaseRun policy hooked runId clock s).releases = erase s.releases runId := by
  unfold releaseRun
  cases hrun : s.releases runId with
  | none =>
    funext r
    rw [erase_apply]
    split_ifs with hr
    · rw [hr, hrun]
    · rfl
  | some permit => rfl

theorem releases_absentReleased (c : ℕ) (key : String) (u rec : Option ℕ) (clock : ℕ → ℕ → ℤ) :
    (absentReleased policy hooked c key u rec clock s).releases = s.releases := by
  cases u <;> cases rec <;> rfl

variable {runId : String} {e : HeldPermit}

theorem kept_releaseRun (he : s.releases runId = some e) {r : String} (hne : runId ≠ r)
    (clock : ℕ → ℤ) : (releaseRun policy hooked r clock s).releases runId = some e := by
  rw [releases_releaseRun, erase_apply, if_neg hne, he]

theorem kept_lookedUp (he : s.releases runId = some e) {c : ℕ} {key : String} {u : Option ℕ}
    {rr : Option String} {rp : Option HeldPermit} {rec : Option ℕ} {answer : LookupAnswer}
    (habsent : answer = .absent → rr ≠ some runId) (clock : ℕ → ℕ → ℤ) :
    (lookedUp policy hooked c key u rr rp rec answer clock s).releases runId = some e := by
  cases answer with
  | failed => cases rec <;> exact he
  | absent =>
    show (lookupAbsent policy hooked c key u rr rec clock s).releases runId = some e
    rw [lookupAbsent_eq]
    cases rr with
    | none =>
      dsimp only
      rw [releases_absentReleased, he]
    | some r =>
      refine kept_releaseRun (by rw [releases_absentReleased, he]) ?_ (clock 2)
      rintro rfl
      exact habsent rfl rfl
  | found r =>
    unfold lookedUp
    cases u with
    | some p =>
      dsimp only [foundLaunch]
      cases hr : s.releases r with
      | some existing =>
        dsimp only
        split_ifs
        · exact he
        · exact he
      | none => exact held_bind (x := .run runId) hr he
    | none =>
      dsimp only
      cases hr : s.releases r with
      | some existing => cases rec <;> exact he
      | none =>
        dsimp only
        split_ifs
        · exact he
        · unfold foundRun
          cases rec with
          | none => exact he
          | some p =>
            dsimp only
            split_ifs
            · exact he
            · exact held_bind (x := .run runId) hr he

theorem kept_launched (he : s.releases runId = some e) {c : ℕ} {key : String} {release : ℕ}
    (answer : Option String) (clock : ℕ → ℤ) :
    (launched policy hooked c key release answer clock s).releases runId = some e := by
  unfold launched
  cases answer with
  | none => exact he
  | some r =>
    dsimp only
    cases hr : s.releases r with
    | some existing =>
      dsimp only
      split_ifs
      · exact he
      · exact he
    | none => exact held_bind (x := .run runId) hr he

theorem releases_launch (c : ℕ) (key : String) (scope : Option ConcurrencyScope)
    (clock : ℕ → ℤ) : (launch policy hooked c key scope clock s).releases = s.releases := by
  unfold launch
  cases scope with
  | none => rfl
  | some scope =>
    dsimp only
    split <;> rfl

theorem releases_findByIdempotencyKey (c : ℕ) (key : String) (scope : Option ConcurrencyScope) :
    (findByIdempotencyKey c key scope s).releases = s.releases := by
  unfold findByIdempotencyKey
  split_ifs
  · rfl
  dsimp only
  split_ifs
  · cases scope with
    | none => rfl
    | some scope =>
      dsimp only
      split <;> rfl
  · rfl

theorem releases_acquired (c : ℕ) (key : String) (ticket : ℕ) :
    (acquired c key ticket s).releases = s.releases := by
  unfold acquired
  split <;> rfl

theorem releases_finished (c : ℕ) (key r : String) (recovering : Bool) :
    (finished c key r recovering s).releases = s.releases := by
  cases recovering <;> rfl

theorem releases_markTerminalDuringRecovery (r : String) :
    (markTerminalDuringRecovery r s).releases = s.releases := by
  unfold markTerminalDuringRecovery
  split_ifs <;> rfl

/-- A run stays in the map unless its end or the absence of its key is observed. -/
theorem kept_step (he : s.releases runId = some e) {i : Act × (ℕ → ℕ → ℤ)}
    (hi : ¬ Observes s i runId e.idempotencyKey) (hearly : ¬ Early s i) :
    (step policy hooked s i).releases runId = some e := by
  obtain ⟨act, clock⟩ := i
  cases act with
  | launch c key scope =>
    dsimp only [step]
    split
    · rw [releases_launch, he]
    · exact he
  | findByIdempotencyKey c key scope =>
    dsimp only [step]
    split
    · rw [releases_findByIdempotencyKey, he]
    · exact he
  | acquired c =>
    dsimp only [step]
    split
    · rw [releases_acquired, he]
    · exact he
  | launched c answer =>
    dsimp only [step]
    split
    · exact kept_launched he answer (clock 0)
    · exact he
  | lookedUp c answer =>
    dsimp only [step]
    split
    · rename_i key u rr rp rec hc
      refine kept_lookedUp he ?_ clock
      rintro rfl rfl
      by_cases hkey : e.idempotencyKey = key
      · subst hkey
        exact hi (.absent c u (some runId) rp rec rfl hc)
      · exact hearly ⟨c, key, u, runId, rp, rec, e, rfl, hc, he, hkey⟩
    · exact he
  | inspected c answer =>
    dsimp only [step]
    split
    · rename_i key r recovering hc
      cases answer with
      | none => exact he
      | some state =>
        obtain ⟨r', status⟩ := state
        dsimp only [inspected]
        split_ifs with hr hterminal
        · exact he
        · refine kept_releaseRun he ?_ (clock 0)
          rintro rfl
          obtain rfl := not_not.1 hr
          exact hi (.inspected c key recovering status rfl hc hterminal)
        · exact he
    · exact he
  | finished c =>
    dsimp only [step]
    split
    · rw [releases_finished, he]
    · exact he
  | forget key =>
    dsimp only [step]
    split_ifs <;> exact he
  | status r answer =>
    cases answer with
    | none => exact he
    | some state =>
      obtain ⟨r', st⟩ := state
      dsimp only [step, status]
      split_ifs with hr hterminal
      · exact he
      · refine kept_releaseRun (by rw [releases_markTerminalDuringRecovery, he]) ?_ (clock 0)
        rintro rfl
        obtain rfl := not_not.1 hr
        exact hi (.status st rfl hterminal)
      · exact he
  | result r answer =>
    cases answer with
    | false => exact he
    | true =>
      dsimp only [step, result]
      rw [if_pos rfl]
      refine kept_releaseRun (by rw [releases_markTerminalDuringRecovery, he]) ?_ (clock 0)
      rintro rfl
      exact hi (.result rfl)
  | cancel r => exact he
  | pressure answer => exact he
  | wake => exact he

/-! ## An early release -/

/-- A permit that was given back stays so. -/
theorem released_drain {scheduler : Scheduler.State} {permit : ℕ} {id : String} {clock : ℕ → ℤ}
    (h : scheduler.permits[permit]? = some (id, true)) :
    (drain policy hooked clock scheduler).permits[permit]? = some (id, true) := by
  refine drain_keeps (P := fun scheduler => scheduler.permits[permit]? = some (id, true)) ?_ h
  intro clock queue n scheduler hqueue hidle h
  refine drainFrom_keeps (P := fun scheduler => scheduler.permits[permit]? = some (id, true))
    ?_ ?_ ?_ hqueue hidle h
  · intro scheduler pending rest _ _ _ h
    show (scheduler.permits ++ [_])[permit]? = _
    rw [List.getElem?_append_left (List.getElem?_eq_some_iff.1 h).1, h]
  · intro scheduler pending rest _ _ _ h
    exact h
  · intro scheduler timer h
    exact h

theorem dead_releaseRun (hs : Sound s) (he : s.releases runId = some e) (clock : ℕ → ℤ) :
    ¬ (releaseRun policy hooked runId clock s).scheduler.Live e.release e.idempotencyKey := by
  have hlive : s.scheduler.Live e.release e.idempotencyKey := hs.owned.live (.run runId) e he
  have hscheduler : (releaseRun policy hooked runId clock s).scheduler =
      Scheduler.release policy hooked e.release clock s.scheduler := by
    unfold releaseRun
    rw [he]
    rfl
  have hdead : (s.scheduler.permits.set e.release (e.idempotencyKey, true))[e.release]? =
      some (e.idempotencyKey, true) :=
    List.getElem?_set_self (List.getElem?_eq_some_iff.1 hlive).1
  rw [hscheduler, release_live hlive]
  unfold Scheduler.State.Live
  rw [released_drain hdead]
  simp

variable (policy hooked) in
/-- The run that is released early was held, and nothing about it was observed. -/
theorem dead_of_early (hs : Sound s) {i : Act × (ℕ → ℕ → ℤ)} (hi : Early s i) :
    ∃ runId e, s.releases runId = some e ∧ ¬ Observes s i runId e.idempotencyKey ∧
      ¬ (step policy hooked s i).scheduler.Live e.release e.idempotencyKey := by
  obtain ⟨act, clock⟩ := i
  obtain ⟨c, key, u, r, rp, rec, e, rfl, hc, he, hkey⟩ := hi
  refine ⟨r, e, he, ?_, ?_⟩
  · intro hobserved
    cases hobserved with
    | status status hi => cases hi
    | inspected c k recovering status hi => cases hi
    | result hi => cases hi
    | absent c' u' rr' rp' rec' hi hc' =>
      cases hi
      cases hc.symm.trans hc'
      exact hkey rfl
  · have hstep : step policy hooked s (.lookedUp c .absent, clock) =
        releaseRun policy hooked r (clock 2)
          (absentReleased policy hooked c key u rec clock s) := by
      have habsent : step policy hooked s (.lookedUp c .absent, clock) =
          lookupAbsent policy hooked c key u (some r) rec clock s := by
        dsimp only [step]
        rw [hc]
        rfl
      rw [habsent, lookupAbsent_eq]
    rw [hstep]
    exact dead_releaseRun (hs.absentReleased hc clock) (by rw [releases_absentReleased, he]) (clock 2)

/-! ## Every run -/

/-- Once a run is entered, its permit is out until the end of the run or the absence of its key is
observed. -/
def StaysOut (policy : ConcurrencyPolicy) (hooked : Bool) (l : List (Act × (ℕ → ℕ → ℤ))) : Prop :=
  ∀ l₁ l₂, l₁ ++ l₂ <+: l → ∀ runId e, (run (step policy hooked) {} l₁).releases runId = some e →
    Admissible (step policy hooked) (fun s i => ¬ Observes s i runId e.idempotencyKey)
      (run (step policy hooked) {} l₁) l₂ →
    (run (step policy hooked) {} (l₁ ++ l₂)).scheduler.Live e.release e.idempotencyKey

/-- A run stays in the map along a run of the adapter. -/
theorem kept_run (he : s.releases runId = some e) {l : List (Act × (ℕ → ℕ → ℤ))}
    (hl : Admissible (step policy hooked) (fun s i => ¬ Early s i) s l)
    (hobserved : Admissible (step policy hooked)
      (fun s i => ¬ Observes s i runId e.idempotencyKey) s l) :
    (run (step policy hooked) s l).releases runId = some e := by
  induction l generalizing s with
  | nil => exact he
  | cons i l ih => exact ih (kept_step he hobserved.1 hl.1) hl.2 hobserved.2

theorem staysOut_of_admissible {l : List (Act × (ℕ → ℕ → ℤ))}
    (hl : Admissible (step policy hooked) (fun s i => ¬ Early s i) {} l) :
    StaysOut policy hooked l := by
  rintro l₁ l₂ ⟨l₃, rfl⟩ runId e he hobserved
  obtain ⟨hl, -⟩ := (admissible_append _).1 hl
  obtain ⟨-, hl⟩ := (admissible_append _).1 hl
  have hkept := kept_run he hl hobserved
  rw [← run_append] at hkept
  exact (sound_run (l₁ ++ l₂)).owned.live (.run runId) e hkept

theorem admissible_of_staysOut {l : List (Act × (ℕ → ℕ → ℤ))} (h : StaysOut policy hooked l) :
    Admissible (step policy hooked) (fun s i => ¬ Early s i) {} l := by
  refine admissible_of_forall_prefix _ ?_
  intro l' i hprefix hi
  obtain ⟨runId, e, he, hobserved, hdead⟩ := dead_of_early policy hooked (sound_run l') hi
  apply hdead
  have hlive := h l' [i] hprefix runId e he ⟨hobserved, trivial⟩
  rw [run_append] at hlive
  exact hlive

/-- **A permit is released early exactly by a lookup that ends with absence when the run it had
read is held for another key**; every key recorded in the maps is active. -/
theorem staysOut_iff (policy : ConcurrencyPolicy) (hooked : Bool)
    (l : List (Act × (ℕ → ℕ → ℤ))) :
    ((∀ l', l' <+: l → KeysActive (run (step policy hooked) {} l')) ∧ StaysOut policy hooked l) ↔
      Admissible (step policy hooked) (fun s i => ¬ Early s i) {} l := by
  constructor
  · rintro ⟨-, h⟩
    exact admissible_of_staysOut h
  · intro hl
    exact ⟨fun l' _ => (sound_run l').owned.keysActive, staysOut_of_admissible hl⟩

/-- The run of a key ends while the key is looked up, the provider uses its id for another key, and
the lookup answers absence. -/
def reusedRunId : List (Act × (ℕ → ℕ → ℤ)) :=
  [(.launch 0 "key-a" (some ⟨"host", "project", "agent", "workspace-a"⟩), fun _ _ => 1000),
    (.acquired 0, fun _ _ => 1000),
    (.launched 0 (some "run"), fun _ _ => 1000),
    (.findByIdempotencyKey 1 "key-a" (some ⟨"host", "project", "agent", "workspace-a"⟩),
      fun _ _ => 1000),
    (.status "run" (some ("run", .succeeded)), fun _ _ => 1000),
    (.launch 2 "key-b" (some ⟨"host", "project", "agent", "workspace-b"⟩), fun _ _ => 1000),
    (.acquired 2, fun _ _ => 1000),
    (.launched 2 (some "run"), fun _ _ => 1000),
    (.lookedUp 1 .absent, fun _ _ => 1000)]

/-- The permit of the second key is released although nothing about its run was observed. -/
theorem permit_released_early : ¬ StaysOut {} false reusedRunId := by
  intro h
  have hearly : Early (run (step {} false) {} (reusedRunId.take 8))
      (.lookedUp 1 .absent, fun _ _ => 1000) :=
    ⟨1, "key-a", none, "run", some ⟨"key-a", 0⟩, none, ⟨"key-b", 1⟩, rfl, by decide +kernel,
      by decide +kernel, by decide⟩
  have hadmissible := admissible_of_staysOut h
  exact ((admissible_append _ (l := reusedRunId.take 8)).1 hadmissible).2.1 hearly

end AgentOrchestrator.Limited
