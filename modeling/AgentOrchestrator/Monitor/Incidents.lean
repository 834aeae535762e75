import AgentOrchestrator.Library.MaximalRuns
import AgentOrchestrator.Monitor.State
import Mathlib.Data.List.Forall2

/-!
# Incidents and the check history

The incidents of a service are the maximal runs of failures in the history of its results, one for
each run and in their order; the open incident is the run that has not ended.  `Recorded` relates
the list of incidents to the whole history, `Recorded.record` is the step for one result, and a
round or a sequence of rounds is a list of such steps.
-/

namespace AgentOrchestrator.Monitor

open MaximalRuns

/-! ## Changing the last open incident -/

section ModifyFirst

variable {α : Type} {p : α → Bool} {f : α → α}

theorem modifyFirst_none {l : List α} (h : ∀ a ∈ l, p a = false) : modifyFirst p f l = none := by
  induction l with
  | nil => rfl
  | cons a l ih =>
    rw [modifyFirst, if_neg (by simp [h a List.mem_cons_self]),
      ih fun b hb => h b (List.mem_cons_of_mem a hb)]
    rfl

/-- A change that keeps a test commutes with the selection by the test, when only selected
elements are changed. -/
theorem modifyFirst_filter {q : α → Bool} (hpq : ∀ a, p a = true → q a = true)
    (hf : ∀ a, q (f a) = q a) (l : List α) :
    modifyFirst p f (l.filter q) = (modifyFirst p f l).map (List.filter q) := by
  induction l with
  | nil => rfl
  | cons a l ih =>
    by_cases hq : q a = true
    · rw [List.filter_cons_of_pos hq, modifyFirst, modifyFirst, ih]
      by_cases hp : p a = true
      · simp [hp, hf, hq]
      · rw [if_neg hp, if_neg hp]
        cases modifyFirst p f l <;> simp [hq]
    · have hp : ¬ p a = true := fun hp => hq (hpq a hp)
      rw [List.filter_cons_of_neg hq, modifyFirst, ih, if_neg hp]
      cases modifyFirst p f l <;> simp [hq]

/-- A change that only touches elements outside a selection leaves the selection alone. -/
theorem filter_modifyFirst {q : α → Bool} (hpq : ∀ a, p a = true → q a = false)
    (hf : ∀ a, q (f a) = q a) {l l' : List α} (h : modifyFirst p f l = some l') :
    l'.filter q = l.filter q := by
  induction l generalizing l' with
  | nil => cases h
  | cons a l ih =>
    rw [modifyFirst] at h
    split_ifs at h with hp
    · cases h
      rw [List.filter_cons_of_neg (by simp [hf, hpq a hp]),
        List.filter_cons_of_neg (by simp [hpq a hp])]
    · obtain ⟨rest, hrest, rfl⟩ := Option.map_eq_some_iff.1 h
      by_cases hq : q a = true
      · rw [List.filter_cons_of_pos hq, List.filter_cons_of_pos hq, ih hrest]
      · rw [List.filter_cons_of_neg hq, List.filter_cons_of_neg hq, ih hrest]

end ModifyFirst

/-- The incidents of a service. -/
def incidentsOf (service : String) (incidents : List Incident) : List Incident :=
  incidents.filter (·.name = service)

theorem mem_incidentsOf {service : String} {incidents : List Incident} {i : Incident} :
    i ∈ incidentsOf service incidents ↔ i ∈ incidents ∧ i.name = service := by
  simp [incidentsOf]

/-- A result changes the incidents of its service only. -/
theorem recordResult_other {service : String} {result : Result} (h : result.name ≠ service)
    (incidents : List Incident) :
    incidentsOf service (recordResult incidents result) = incidentsOf service incidents := by
  have hother : ∀ i, Incident.isOpen result.name i = true → decide (i.name = service) = false := by
    intro i hi
    simp only [Incident.isOpen, Bool.and_eq_true, decide_eq_true_eq] at hi
    simp [hi.1, h]
  have hchange : ∀ (f : Incident → Incident) (new : List Incident), (∀ i, (f i).name = i.name) →
      incidentsOf service new = incidentsOf service incidents →
      incidentsOf service (((modifyFirst (Incident.isOpen result.name) f incidents.reverse).map
        List.reverse).getD new) = incidentsOf service incidents := by
    intro f new hf hnew
    cases hm : modifyFirst (Incident.isOpen result.name) f incidents.reverse with
    | none => exact hnew
    | some l =>
      have hl := filter_modifyFirst (q := fun i => decide (i.name = service)) hother
        (by simp [hf]) hm
      unfold incidentsOf
      rw [Option.map_some, Option.getD_some, List.filter_reverse, hl, List.filter_reverse,
        List.reverse_reverse]
  unfold recordResult
  dsimp only
  split_ifs
  · exact hchange _ _ (fun _ => rfl) rfl
  · refine hchange _ _ (fun _ => rfl) ?_
    simp [incidentsOf, openIncident, h]

/-- The incidents of the service of a result change as if there were no others. -/
theorem recordResult_own {service : String} {result : Result} (h : result.name = service)
    (incidents : List Incident) :
    incidentsOf service (recordResult incidents result) =
      recordResult (incidentsOf service incidents) result := by
  subst h
  have hown : ∀ i, Incident.isOpen result.name i = true →
      decide (i.name = result.name) = true := by
    intro i hi
    simp only [Incident.isOpen, Bool.and_eq_true] at hi
    exact hi.1
  have hchange : ∀ f : Incident → Incident, (∀ i, (f i).name = i.name) →
      (modifyFirst (Incident.isOpen result.name) f (incidentsOf result.name incidents).reverse) =
        (modifyFirst (Incident.isOpen result.name) f incidents.reverse).map
          (incidentsOf result.name) := by
    intro f hf
    unfold incidentsOf
    rw [← List.filter_reverse, modifyFirst_filter hown (by simp [hf])]
  unfold recordResult
  dsimp only
  rw [hchange (Incident.resolve result) fun _ => rfl, hchange (Incident.fail result) fun _ => rfl]
  split_ifs
  · cases modifyFirst (Incident.isOpen result.name) (Incident.resolve result) incidents.reverse <;>
      simp [incidentsOf, List.filter_reverse]
  · cases modifyFirst (Incident.isOpen result.name) (Incident.fail result) incidents.reverse <;>
      simp [incidentsOf, List.filter_reverse, openIncident]

/-! ## One incident and its run -/

/-- The incident tells of exactly these failures. -/
structure Covers (failures : List Result) (incident : Incident) : Prop where
  startedAt : failures.head?.map (·.checkedAt) = some incident.startedAt
  lastFailureAt : failures.getLast?.map (·.checkedAt) = some incident.lastFailureAt
  failureCount : incident.failureCount = failures.length
  errors : failures.getLast?.map (·.errors) = some incident.errors

theorem covers_openIncident (result : Result) : Covers [result] (openIncident result) :=
  ⟨rfl, rfl, rfl, rfl⟩

theorem Covers.fail {failures : List Result} {incident : Incident} (h : Covers failures incident)
    (result : Result) : Covers (failures ++ [result]) (incident.fail result) where
  startedAt := by
    have hne : failures ≠ [] := by
      rintro rfl
      cases h.startedAt
    rw [List.head?_append_of_ne_nil _ hne]
    exact h.startedAt
  lastFailureAt := by rw [List.getLast?_concat]; rfl
  failureCount := by
    rw [List.length_append, ← h.failureCount]
    rfl
  errors := by rw [List.getLast?_concat]; rfl

theorem Covers.resolve {failures : List Result} {incident : Incident} (h : Covers failures incident)
    (result : Result) : Covers failures (incident.resolve result) :=
  ⟨h.startedAt, h.lastFailureAt, h.failureCount, h.errors⟩

/-! ## The incidents of a service -/

/-- The incidents of a service tell of the runs of failures in its history: resolved ones of the
runs that have ended, and an open one of the run that goes on. -/
inductive Recorded (history : List Result) : List Incident → Prop where
  | quiet {incidents : List Incident} (hresolved : ∀ i ∈ incidents, i.status = .resolved)
      (hruns : List.Forall₂ Covers (closed (·.ok) history) incidents)
      (hcurrent : current (·.ok) history = []) : Recorded history incidents
  | failing {resolved : List Incident} {i : Incident}
      (hresolved : ∀ i ∈ resolved, i.status = .resolved)
      (hruns : List.Forall₂ Covers (closed (·.ok) history) resolved) (hopen : i.status = .opened)
      (hcurrent : Covers (current (·.ok) history) i) : Recorded history (resolved ++ [i])

theorem recorded_nil : Recorded [] [] := .quiet (by simp) (by simp) (by simp)

theorem isOpen_resolved {service : String} {i : Incident} (h : i.status = .resolved) :
    i.isOpen service = false := by
  simp [Incident.isOpen, h]

/-- **One result**: a failure opens an incident or counts up the open one, a success resolves it. -/
theorem Recorded.record {history : List Result} {incidents : List Incident}
    (h : Recorded history incidents) {result : Result}
    (hname : ∀ i ∈ incidents, i.name = result.name) :
    Recorded (history ++ [result]) (recordResult incidents result) := by
  have hnone : ∀ {l : List Incident} (f : Incident → Incident), (∀ i ∈ l, i.status = .resolved) →
      modifyFirst (Incident.isOpen result.name) f l.reverse = none := fun f hl =>
    modifyFirst_none fun i hi => isOpen_resolved (hl i (List.mem_reverse.1 hi))
  have hfirst : ∀ {l : List Incident} {i : Incident} (f : Incident → Incident),
      i.status = .opened → i.name = result.name →
      modifyFirst (Incident.isOpen result.name) f (l ++ [i]).reverse = some (f i :: l.reverse) := by
    intro l i f hi hn
    rw [List.reverse_append, List.reverse_singleton, List.singleton_append, modifyFirst,
      if_pos (by simp [Incident.isOpen, hi, hn])]
  unfold recordResult
  dsimp only
  cases h with
  | quiet hresolved hruns hcurrent =>
    by_cases hok : result.ok = true
    · rw [if_pos hok, hnone _ hresolved]
      refine .quiet hresolved ?_ (current_snoc_pos hok history)
      rwa [closed_snoc_pos hok, runs_of_current_nil hcurrent]
    · have hfail : result.ok = false := by simpa using hok
      rw [if_neg hok, hnone _ hresolved]
      refine .failing hresolved ?_ rfl ?_
      · rwa [closed_snoc_neg hfail]
      · rw [current_snoc_neg hfail, hcurrent]
        exact covers_openIncident result
  | @failing resolved i hresolved hruns hopen hcurrent =>
    have hn : i.name = result.name := hname i (by simp)
    by_cases hok : result.ok = true
    · rw [if_pos hok, hfirst _ hopen hn]
      show Recorded _ (i.resolve result :: resolved.reverse).reverse
      rw [List.reverse_cons, List.reverse_reverse]
      have hne : current (·.ok) history ≠ [] := by
        intro hnil
        rw [hnil] at hcurrent
        cases hcurrent.startedAt
      refine .quiet ?_ ?_ (current_snoc_pos hok history)
      · intro j hj
        rcases List.mem_append.1 hj with hj | hj
        · exact hresolved j hj
        · rw [List.mem_singleton.1 hj]
          rfl
      · rw [closed_snoc_pos hok, runs_of_current_ne_nil hne]
        exact List.rel_append hruns (.cons (hcurrent.resolve result) .nil)
    · have hfail : result.ok = false := by simpa using hok
      rw [if_neg hok, hfirst _ hopen hn]
      show Recorded _ (i.fail result :: resolved.reverse).reverse
      rw [List.reverse_cons, List.reverse_reverse]
      refine .failing hresolved ?_ hopen ?_
      · rwa [closed_snoc_neg hfail]
      · rw [current_snoc_neg hfail]
        exact hcurrent.fail result

/-- The results of a service. -/
def resultsOf (service : String) (results : List Result) : List Result :=
  results.filter (·.name = service)

/-- The results of a round, one after another. -/
theorem Recorded.round {service : String} {history : List Result} (results : List Result) :
    ∀ {incidents : List Incident}, Recorded history (incidentsOf service incidents) →
      Recorded (history ++ resultsOf service results)
        (incidentsOf service (results.foldl recordResult incidents)) := by
  induction results generalizing history with
  | nil =>
    intro incidents h
    simpa [resultsOf] using h
  | cons result results ih =>
    intro incidents h
    rw [List.foldl_cons]
    by_cases hname : result.name = service
    · have hnames : ∀ i ∈ incidentsOf service incidents, i.name = result.name :=
        fun i hi => (mem_incidentsOf.1 hi).2.trans hname.symm
      have hown := h.record hnames
      rw [← recordResult_own hname] at hown
      have hround := ih hown
      rwa [List.append_assoc, List.singleton_append, resultsOf,
        ← List.filter_cons_of_pos (by simpa using hname)] at hround
    · rw [← recordResult_other hname] at h
      have hround := ih h
      rwa [resultsOf, ← List.filter_cons_of_neg (a := result) (by simpa using hname)] at hround

/-! ## Sequences of rounds -/

section Run

variable (parseTime : String → Option ℤ)

/-- A call that raises leaves the state as it is. -/
def step (state : State) (call : Call) : State := (updateState parseTime state call).getD state

/-- The state after a sequence of calls. -/
def run (state : State) (calls : List Call) : State := calls.foldl (step parseTime) state

/-- The results of the calls of a sequence that did not raise. -/
def history : State → List Call → List Result
  | _, [] => []
  | state, call :: calls =>
    (if (updateState parseTime state call).isSome then call.results else []) ++
      history (step parseTime state call) calls

theorem updateState_incidents {state next : State} {call : Call}
    (h : updateState parseTime state call = some next) :
    next.incidents = call.results.foldl recordResult state.incidents := by
  obtain ⟨after, -, h⟩ := Option.bind_eq_some_iff.1 h
  obtain ⟨kept, -, rfl⟩ := Option.map_eq_some_iff.1 h
  rfl

theorem recorded_run {service : String} (calls : List Call) : ∀ {past : List Result} {state : State},
    Recorded past (incidentsOf service state.incidents) →
    Recorded (past ++ resultsOf service (history parseTime state calls))
      (incidentsOf service (run parseTime state calls).incidents) := by
  induction calls with
  | nil =>
    intro past state h
    simpa [history, resultsOf, run] using h
  | cons call calls ih =>
    intro past state h
    rw [history]
    cases hstep : updateState parseTime state call with
    | none =>
      have hsame : step parseTime state call = state := by simp [step, hstep]
      rw [run, List.foldl_cons, hsame]
      exact ih h
    | some next =>
      have hnext : step parseTime state call = next := by simp [step, hstep]
      have hround := h.round call.results
      rw [← updateState_incidents parseTime hstep, ← hnext] at hround
      have hrest := ih hround
      rw [List.append_assoc] at hrest
      simpa [resultsOf, run] using hrest

/-! ## What the incidents say -/

/-- The incidents of a service mirror its history. -/
structure Mirrors (history : List Result) (incidents : List Incident) : Prop where
  /-- No two incidents are open. -/
  oneOpen : (incidents.filter (·.status = .opened)).length ≤ 1
  /-- One is open exactly when the latest result failed. -/
  openIff : (∃ i ∈ incidents, i.status = .opened) ↔ ∃ r ∈ history.getLast?, r.ok = false
  /-- The open one tells of the failures the history ends with. -/
  openCovers : ∀ i ∈ incidents, i.status = .opened → Covers (history.rtakeWhile (!·.ok)) i
  /-- There is one for each maximal run of failures. -/
  runs : List.Forall₂ Covers (runs (·.ok) history) incidents

theorem Recorded.mirrors {history : List Result} {incidents : List Incident}
    (h : Recorded history incidents) : Mirrors history incidents := by
  have hnil : ∀ {l : List Incident}, (∀ i ∈ l, i.status = .resolved) →
      l.filter (·.status = .opened) = [] := by
    intro l hl
    refine List.filter_eq_nil_iff.2 fun i hi => ?_
    simp [hl i hi]
  cases h with
  | quiet hresolved hruns hcurrent =>
    have hclosed : ∀ i ∈ incidents, i.status ≠ .opened := fun i hi => by simp [hresolved i hi]
    refine ⟨by simp [hnil hresolved], ?_, fun i hi ho => absurd ho (hclosed i hi), ?_⟩
    · refine iff_of_false (fun ⟨i, hi, ho⟩ => hclosed i hi ho) ?_
      rw [← current_ne_nil_iff]
      exact fun hne => hne hcurrent
    · rwa [runs_of_current_nil hcurrent]
  | @failing resolved i hresolved hruns hopen hcurrent =>
    have hne : current (·.ok) history ≠ [] := by
      intro hempty
      rw [hempty] at hcurrent
      cases hcurrent.startedAt
    refine ⟨?_, ?_, ?_, ?_⟩
    · simp [hnil hresolved, hopen]
    · exact iff_of_true ⟨i, by simp, hopen⟩ (current_ne_nil_iff.1 hne)
    · intro j hj ho
      rcases List.mem_append.1 hj with hj | hj
      · simp [hresolved j hj] at ho
      · rw [List.mem_singleton.1 hj]
        exact hcurrent
    · rw [runs_of_current_ne_nil hne]
      exact List.rel_append hruns (.cons hcurrent .nil)

/-- **The incidents of every service mirror the history of its results**, after every sequence of
calls from the empty state. -/
theorem incidents_mirror_history (calls : List Call) (service : String) :
    Mirrors (resultsOf service (history parseTime emptyState calls))
      (incidentsOf service (run parseTime emptyState calls).incidents) := by
  have h : Recorded ([] ++ resultsOf service (history parseTime emptyState calls))
      (incidentsOf service (run parseTime emptyState calls).incidents) :=
    recorded_run parseTime calls recorded_nil
  rw [List.nil_append] at h
  exact h.mirrors

end Run

end AgentOrchestrator.Monitor
