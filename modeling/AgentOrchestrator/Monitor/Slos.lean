import AgentOrchestrator.Monitor.Incidents
import Mathlib.Algebra.Order.Field.Rat
import Mathlib.Tactic.Linarith

/-!
# The objectives of the services

`run_check` records a round of probes and evaluates the objective of every service on the checks it
kept.  `update_state` has dropped the old ones by then.  The kept checks give the same evaluations as
the whole history, because a check is kept for eight times the longest window.  The rounded
availability of a number of samples is a parameter: it is computed in floating point.
-/

namespace AgentOrchestrator.Monitor

/-! ## Evaluation -/

/-- A configured service with its objective. -/
structure SloService extends Service where
  targetPercent : ℚ

structure Evaluation where
  windowDays : ℤ
  targetPercent : ℚ
  sampleCount : ℕ
  successfulSamples : ℕ
  availabilityPercent : Option ℚ
  met : Bool
  deriving DecidableEq

/-- One run of `run_check`: the configuration, the results of the probes and the time. -/
structure Round where
  services : List SloService
  results : List Result
  now : ℤ

/-- The call of `update_state` in the run. -/
def Round.call (round : Round) : Call where
  services := round.services.map (·.toService)
  results := round.results
  now := round.now

structure Report where
  operational : Bool
  services : List (Result × Evaluation)
  openIncidents : List Incident
  deriving DecidableEq

section

variable (parseTime : String → Option ℤ) (rounded : ℕ → ℕ → ℚ)

/-- The checks of a service from the cutoff on, unless a time of one of its checks does not parse. -/
def samplesOf (name : String) (cutoff : ℤ) : List Check → Option (List Check)
  | [] => some []
  | check :: checks =>
    if check.name = name then
      match parseTime check.checkedAt, samplesOf name cutoff checks with
      | some time, some samples => some (if cutoff ≤ time then check :: samples else samples)
      | _, _ => none
    else samplesOf name cutoff checks

def dayLength : ℤ := 86400000000

/-- The start of the window of a service. -/
def cutoffOf (service : SloService) (now : ℤ) : ℤ := now - service.windowDays * dayLength

/-- The evaluation of some samples. -/
def evaluationOf (service : SloService) (samples : List Check) : Evaluation :=
  let successful := samples.countP (·.ok)
  let availability := if samples = [] then none else some (rounded successful samples.length)
  { windowDays := service.windowDays
    targetPercent := service.targetPercent
    sampleCount := samples.length
    successfulSamples := successful
    availabilityPercent := availability
    met := availability.any (service.targetPercent ≤ ·) }

/-- The evaluation of one service; a window that starts before the first date is an error. -/
def evaluateSlo (checks : List Check) (now : ℤ) (service : SloService) : Option Evaluation :=
  if 0 ≤ cutoffOf service now then
    (samplesOf parseTime service.name (cutoffOf service now) checks).map
      (evaluationOf rounded service)
  else none

/-- `evaluate_slos`, or `none` when it raises; the names of the services are distinct. -/
def evaluateSlos (services : List SloService) (checks : List Check) (now : ℤ) :
    Option (List (String × Evaluation)) :=
  services.mapM fun service =>
    (evaluateSlo parseTime rounded checks now service).map fun evaluation =>
      (service.name, evaluation)

/-- `slos[result["name"]]` for every result; a name without an evaluation is an error. -/
def withSlos (slos : List (String × Evaluation)) (results : List Result) :
    Option (List (Result × Evaluation)) :=
  results.mapM fun result => (slos.lookup result.name).map fun evaluation => (result, evaluation)

/-- The status file of a run with the given evaluations. -/
def reportOf (round : Round) (incidents : List Incident) (slos : List (String × Evaluation)) :
    Option Report :=
  (withSlos slos round.results).map fun services =>
    { operational := services.all fun (result, evaluation) => result.ok && evaluation.met
      services := services
      openIncidents := incidents.filter (·.status = .opened) }

/-- `run_check`, or `none` when it raises; then nothing is written. -/
def runCheck (state : State) (round : Round) : Option (State × Report) :=
  (updateState parseTime state round.call).bind fun next =>
    (evaluateSlos parseTime rounded round.services next.checks round.now).bind fun slos =>
      (reportOf round next.incidents slos).map fun report => (next, report)

/-- The state on file after a run. -/
def checkStep (state : State) (round : Round) : State :=
  ((runCheck parseTime rounded state round).map Prod.fst).getD state

def checkRun (state : State) (rounds : List Round) : State :=
  rounds.foldl (checkStep parseTime rounded) state

/-- The results of the runs that were written. -/
def written : State → List Round → List Result
  | _, [] => []
  | state, round :: rounds =>
    (if (runCheck parseTime rounded state round).isSome then round.results else []) ++
      written (checkStep parseTime rounded state round) rounds

end

/-! ## Dropped checks are not missed -/

section

variable {parseTime : String → Option ℤ} {rounded : ℕ → ℕ → ℚ}

theorem samplesOf_cons (name : String) (cutoff : ℤ) (check : Check) (checks : List Check) :
    samplesOf parseTime name cutoff (check :: checks) =
      if check.name = name then
        match parseTime check.checkedAt, samplesOf parseTime name cutoff checks with
        | some time, some samples => some (if cutoff ≤ time then check :: samples else samples)
        | _, _ => none
      else samplesOf parseTime name cutoff checks := rfl

theorem samplesOf_append (name : String) (cutoff : ℤ) (checks checks' : List Check) :
    samplesOf parseTime name cutoff (checks ++ checks') =
      (samplesOf parseTime name cutoff checks).bind fun samples =>
        (samplesOf parseTime name cutoff checks').map (samples ++ ·) := by
  induction checks with
  | nil => simp [samplesOf]
  | cons check checks ih =>
    rw [List.cons_append, samplesOf_cons, samplesOf_cons, ih]
    by_cases hname : check.name = name
    · rw [if_pos hname, if_pos hname]
      cases parseTime check.checkedAt with
      | none => rfl
      | some time =>
        cases samplesOf parseTime name cutoff checks with
        | none => rfl
        | some samples =>
          cases samplesOf parseTime name cutoff checks' with
          | none => rfl
          | some samples' =>
            show some _ = some _
            split_ifs <;> rfl
    · rw [if_neg hname, if_neg hname]

/-- A check that was dropped is older than every window that starts later. -/
theorem samplesOf_kept {after cutoff : ℤ} (hcutoff : after ≤ cutoff) (name : String)
    {checks kept : List Check} (h : keptChecks parseTime after checks = some kept) :
    samplesOf parseTime name cutoff kept = samplesOf parseTime name cutoff checks := by
  induction checks generalizing kept with
  | nil =>
    obtain rfl := Option.some.inj h
    rfl
  | cons check checks ih =>
    unfold keptChecks at h
    cases htime : parseTime check.checkedAt with
    | none => rw [htime] at h; cases h
    | some time =>
      cases hrest : keptChecks parseTime after checks with
      | none => rw [htime, hrest] at h; cases h
      | some rest =>
        rw [htime, hrest] at h
        obtain rfl := Option.some.inj h
        have hsame := ih hrest
        by_cases hkeep : after ≤ time
        · rw [if_pos hkeep]
          rw [samplesOf_cons, samplesOf_cons, hsame]
        · -- The check is dropped, and it is no sample either.
          rw [if_neg hkeep, hsame, samplesOf_cons, htime]
          by_cases hname : check.name = name
          · rw [if_pos hname]
            cases samplesOf parseTime name cutoff checks with
            | none => rfl
            | some samples =>
              show _ = some (if cutoff ≤ time then check :: samples else samples)
              rw [if_neg (by omega)]
          · rw [if_neg hname]

/-- The two lists of checks have the same samples in every window that starts at the bound or
later. -/
def SameSamples (parseTime : String → Option ℤ) (bound : ℤ) (checks checks' : List Check) : Prop :=
  ∀ name cutoff, bound ≤ cutoff →
    samplesOf parseTime name cutoff checks = samplesOf parseTime name cutoff checks'

/-- What `update_state` keeps has the samples of what it had and of the new checks. -/
theorem SameSamples.update {bound : ℤ} {state next : State} {call : Call} {past : List Check}
    (h : SameSamples parseTime bound state.checks past)
    (hnext : updateState parseTime state call = some next)
    (hafter : ∀ after ∈ keepAfter call, after ≤ bound) :
    SameSamples parseTime bound next.checks (past ++ newChecks call.results) := by
  obtain ⟨after, hkeep, hnext⟩ := Option.bind_eq_some_iff.1 hnext
  obtain ⟨kept, hkept, rfl⟩ := Option.map_eq_some_iff.1 hnext
  intro name cutoff hcutoff
  have hle : after ≤ cutoff := (hafter after hkeep).trans hcutoff
  show samplesOf parseTime name cutoff (kept ++ newChecks call.results) = _
  rw [samplesOf_append, samplesOf_append, samplesOf_kept hle name hkept, h name cutoff hcutoff]

theorem newChecks_append (results results' : List Result) :
    newChecks (results ++ results') = newChecks results ++ newChecks results' := List.map_append

/-- **The checks on file have the samples of all that were written**, in every window that starts
after everything that was dropped. -/
theorem sameSamples_run {bound : ℤ} (rounds : List Round) {state : State} {past : List Result}
    (h : SameSamples parseTime bound state.checks (newChecks past))
    (hbound : ∀ round ∈ rounds, ∀ after ∈ keepAfter round.call, after ≤ bound) :
    SameSamples parseTime bound (checkRun parseTime rounded state rounds).checks
      (newChecks (past ++ written parseTime rounded state rounds)) := by
  induction rounds generalizing state past with
  | nil =>
    rw [show written parseTime rounded state [] = [] from rfl, List.append_nil]
    exact h
  | cons round rounds ih =>
    have hrest := fun r hr => hbound r (List.mem_cons_of_mem round hr)
    show SameSamples parseTime bound
      (checkRun parseTime rounded (checkStep parseTime rounded state round) rounds).checks _
    unfold written
    cases hcheck : runCheck parseTime rounded state round with
    | none =>
      have hsame : checkStep parseTime rounded state round = state := by
        unfold checkStep
        rw [hcheck]
        rfl
      rw [hsame]
      exact ih h hrest
    | some p =>
      obtain ⟨next, report⟩ := p
      have hnext : checkStep parseTime rounded state round = next := by
        unfold checkStep
        rw [hcheck]
        rfl
      have hupdate : updateState parseTime state round.call = some next := by
        obtain ⟨next', hupdate, hrest⟩ := Option.bind_eq_some_iff.1 hcheck
        obtain ⟨slos, -, hrest⟩ := Option.bind_eq_some_iff.1 hrest
        obtain ⟨report', -, hpair⟩ := Option.map_eq_some_iff.1 hrest
        rw [hupdate, (Prod.mk.inj hpair).1]
      have hstep := h.update hupdate (hbound round List.mem_cons_self)
      rw [hnext]
      rw [← newChecks_append] at hstep
      have := ih hstep hrest
      rwa [List.append_assoc] at this

/-! ## Windows -/

/-- No window of this run begins before a time up to which one of the runs drops checks, or would
have if it had not raised. -/
def Reaches (rounds : List Round) (round : Round) : Prop :=
  ∀ earlier ∈ rounds, ∀ after ∈ keepAfter earlier.call, ∀ service ∈ round.services,
    after ≤ cutoffOf service round.now

/-- The checks are kept for longer than the window of any service of the configuration. -/
theorem keepAfter_le {round : Round} {after : ℤ} (h : after ∈ keepAfter round.call)
    {service : SloService} (hs : service ∈ round.services) :
    after ≤ cutoffOf service round.now := by
  obtain ⟨days, hdays, h⟩ := Option.bind_eq_some_iff.1 h
  obtain ⟨longest, hlongest, rfl⟩ := Option.map_eq_some_iff.1 hdays
  have hwindow : service.windowDays ≤ longest := by
    refine (List.max?_eq_some_iff.1 hlongest).2 _ ?_
    refine List.mem_map.2 ⟨service.toService, List.mem_map.2 ⟨service, hs, rfl⟩, rfl⟩
  dsimp only at h
  split_ifs at h
  obtain rfl := Option.some.inj h
  unfold cutoffOf dayLength
  show round.now - _ ≤ _
  omega

/-- With one configuration and a clock that does not go back, no run drops what a later one needs. -/
theorem reaches_of_sorted {services : List SloService} {rounds : List Round} {round : Round}
    (hservices : ∀ r ∈ round :: rounds, r.services = services)
    (hclock : ∀ r ∈ rounds, r.now ≤ round.now) : Reaches rounds round := by
  intro earlier hearlier after hafter service hservice
  have hs : service ∈ earlier.services := by
    rw [hservices earlier (List.mem_cons_of_mem _ hearlier),
      ← hservices round List.mem_cons_self]
    exact hservice
  have hle := keepAfter_le hafter hs
  have hnow := hclock earlier hearlier
  unfold cutoffOf at hle ⊢
  omega

theorem evaluateSlos_congr {services : List SloService} {checks checks' : List Check} {now : ℤ}
    (h : ∀ service ∈ services, samplesOf parseTime service.name (cutoffOf service now) checks =
      samplesOf parseTime service.name (cutoffOf service now) checks') :
    evaluateSlos parseTime rounded services checks now =
      evaluateSlos parseTime rounded services checks' now := by
  unfold evaluateSlos
  induction services with
  | nil => rfl
  | cons service services ih =>
    rw [List.mapM_cons, List.mapM_cons, ih fun s hs => h s (List.mem_cons_of_mem _ hs)]
    have hone : evaluateSlo parseTime rounded checks now service =
        evaluateSlo parseTime rounded checks' now service := by
      unfold evaluateSlo
      rw [h service List.mem_cons_self]
    rw [hone]

/-- **Dropping old checks changes no report.**  After any runs that drop checks only up to times
before the windows of this run, the run writes the report that the whole history gives. -/
theorem report_of_history {rounds : List Round} {round : Round} (hreach : Reaches rounds round) :
    let state := checkRun parseTime rounded emptyState rounds
    runCheck parseTime rounded state round =
      (updateState parseTime state round.call).bind fun next =>
        (evaluateSlos parseTime rounded round.services
          (newChecks (written parseTime rounded emptyState rounds ++ round.results))
          round.now).bind fun slos =>
            (reportOf round next.incidents slos).map fun report => (next, report) := by
  intro state
  unfold runCheck
  cases hupdate : updateState parseTime state round.call with
  | none => rfl
  | some next =>
    show (evaluateSlos parseTime rounded round.services next.checks round.now).bind _ =
      (evaluateSlos parseTime rounded round.services _ round.now).bind _
    rw [evaluateSlos_congr fun service hservice => ?_]
    have hstart : SameSamples parseTime (cutoffOf service round.now) emptyState.checks
        (newChecks []) := fun _ _ _ => rfl
    have hpast := @sameSamples_run parseTime rounded _ rounds _ _ hstart
      fun earlier hearlier after hafter => hreach earlier hearlier after hafter service hservice
    have hall := hpast.update hupdate fun after hafter => keepAfter_le hafter hservice
    rw [List.nil_append, ← newChecks_append] at hall
    exact hall service.name _ le_rfl

end

/-! ## A check that was dropped -/

def sampleTime (text : String) : Option ℤ :=
  if text = "day 1000" then some (1000 * dayLength)
  else if text = "day 1400" then some (1400 * dayLength)
  else none

/-- One probe of the only service. -/
def sampleRound (day : ℤ) (text : String) (ok : Bool) : Round where
  services := [{ name := "site", windowDays := 30, targetPercent := 99 }]
  results := [{ name := "site", checkedAt := text, ok := ok }]
  now := day * dayLength

/-- The failure of day 1000 is neither on file on day 1400 nor in a window of thirty days. -/
theorem report_of_history_sample :
    (runCheck sampleTime (fun ok all => ok / all * 100)
      (checkRun sampleTime (fun ok all => ok / all * 100) emptyState
        [sampleRound 1000 "day 1000" false])
      (sampleRound 1400 "day 1400" true)).map
        (fun (state, report) => (report.operational, state.checks.length)) = some (true, 1) := by
  have hreach : Reaches [sampleRound 1000 "day 1000" false] (sampleRound 1400 "day 1400" true) := by
    refine @reaches_of_sorted (sampleRound 1400 "day 1400" true).services _ _ ?_ ?_
    · intro r hr
      rcases List.mem_cons.1 hr with rfl | hr
      · rfl
      · obtain rfl := List.mem_singleton.1 hr
        rfl
    · intro r hr
      obtain rfl := List.mem_singleton.1 hr
      decide
  have h := @report_of_history sampleTime (fun ok all => ok / all * 100) _ _ hreach
  dsimp only at h
  rw [h]
  decide +kernel

end AgentOrchestrator.Monitor
