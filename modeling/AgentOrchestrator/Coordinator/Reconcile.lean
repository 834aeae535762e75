import AgentOrchestrator.Coordinator.Binding

/-!
# Completeness of `reconcile`

`reconcile` goes through the intents that the store instance has in memory, which are those of its
last load.  A `reconcile` that returns has bound every intent with a run in an authorized workspace
when the instance had all the open intents of the file in memory (`Covered`); a fresh instance has
none, and its `reconcile` does nothing.
-/

namespace AgentOrchestrator.Coordinator

open Store

variable {env : Env}

/-- The launch may have reached the provider and has no run on file. -/
def Open (intent : LaunchIntent) : Prop :=
  intent.status = .dispatching ∨ intent.status = .unknownOutcome

instance (intent : LaunchIntent) : Decidable (Open intent) :=
  inferInstanceAs (Decidable (_ ∨ _))

/-- The store instance has every open intent of the file in memory, with its workspace and not as
bound. -/
def Covered (sys : System) (store : ℕ) : Prop :=
  ∀ i ∈ intents sys.disk, Open i → ∃ j ∈ sys.memory store, j.idempotencyKey = i.idempotencyKey ∧
    j.workspaceId = i.workspaceId ∧ j.status ≠ .bound

instance (sys : System) (store : ℕ) : Decidable (Covered sys store) :=
  inferInstanceAs (Decidable (∀ i ∈ intents sys.disk, Open i → ∃ j ∈ sys.memory store, _ ∧ _))

/-- The key is bound to the run on file. -/
def BoundOn (disk : Disk) (key runId : String) : Prop :=
  ∃ i ∈ intents disk, i.idempotencyKey = key ∧ i.status = .bound ∧ i.runId = some runId

instance (disk : Disk) (key runId : String) : Decidable (BoundOn disk key runId) :=
  inferInstanceAs (Decidable (∃ i ∈ intents disk, _ ∧ _))

/-- The lookup of the key by the call finds the run, and the workspace is authorized for it. -/
def answers (call : ℕ) (key workspaceId runId : String) (sys : System) : Act → Bool
  | .resume c input =>
    match c == call, sys.frames call, input with
    | true, some ⟨_, .reconcile (.lookingUp intent _ _)⟩, .lookup answer =>
      intent.idempotencyKey ≠ key || answer = .ok (some runId)
    | true, some ⟨_, .reconcile (.authorizing intent _ _ _)⟩, .authorizer answer =>
      intent.workspaceId ≠ some workspaceId || answer.toOption.isSome
    | _, _, _ => true
  | _ => true

/-! ## A `reconcile` on its way -/

/-- The intent is one of the key, in the workspace, that is not bound. -/
structure Sought (key workspaceId : String) (j : LaunchIntent) : Prop where
  key : j.idempotencyKey = key
  workspaceId : j.workspaceId = some workspaceId
  unbound : j.status ≠ .bound

/-- The `reconcile` has not come past a sought intent, or has thrown. -/
def ReconcilePc.Ahead (key workspaceId runId : String) : ReconcilePc → Prop
  | .lookingUp intent todo _ =>
    Sought key workspaceId intent ∨ ∃ j ∈ todo, Sought key workspaceId j
  | .authorizing intent r todo _ | .binding intent r todo _ =>
    (Sought key workspaceId intent ∧ r = runId) ∨ ∃ j ∈ todo, Sought key workspaceId j
  | .auditing _ _ todo _ => ∃ j ∈ todo, Sought key workspaceId j
  | .returned _ => False
  | .threw => True

theorem ahead_advance {key workspaceId runId : String} : ∀ {todo reconciled : List LaunchIntent},
    (∃ j ∈ todo, Sought key workspaceId j) →
      (advance todo reconciled).Ahead key workspaceId runId
  | [], _, h => by
    obtain ⟨j, hj, -⟩ := h
    cases hj
  | intent :: todo, reconciled, h => by
    obtain ⟨j, hj, hsought⟩ := h
    unfold advance
    split_ifs with hbound
    · rcases List.mem_cons.1 hj with rfl | hj
      · exact absurd hbound hsought.unbound
      · exact ahead_advance ⟨j, hj, hsought⟩
    · rcases List.mem_cons.1 hj with rfl | hj
      · exact Or.inl hsought
      · exact Or.inr ⟨j, hj, hsought⟩

section Resume

variable {key workspaceId runId : String} {disk : Disk} {memory : List LaunchIntent} {input : Input}

/-- A run that was bound is on file. -/
theorem boundOn_of_bind {intent value : LaunchIntent} {reason uuid : String} {now : Timestamp}
    {io : WriteOutcome}
    (h : (bind env intent runId reason uuid now io disk memory).result = .ok value) :
    BoundOn (bind env intent runId reason uuid now io disk memory).disk intent.idempotencyKey
      runId := by
  obtain ⟨hkey, hstatus, hrun, hmem⟩ := update_ok h
  exact ⟨value, hmem, hkey, hstatus, hrun runId rfl⟩

theorem ahead_resume {pc : ReconcilePc} (h : pc.Ahead key workspaceId runId)
    (hlookup : ∀ intent todo reconciled answer, pc = .lookingUp intent todo reconciled →
      input = .lookup answer → intent.idempotencyKey = key → answer = .ok (some runId))
    (hauthorize : ∀ intent r todo reconciled answer, pc = .authorizing intent r todo reconciled →
      input = .authorizer answer → intent.workspaceId = some workspaceId →
      answer.toOption.isSome = true) :
    BoundOn (pc.resume env disk memory input).disk key runId ∨
      (pc.resume env disk memory input).pc.Ahead key workspaceId runId := by
  cases pc <;> cases input <;> try exact Or.inr h
  case lookingUp.lookup intent todo reconciled answer =>
    refine Or.inr ?_
    simp only [ReconcilePc.resume]
    rcases h with hsought | htodo
    · rw [hlookup intent todo reconciled answer rfl rfl hsought.key]
      dsimp only
      rw [if_neg (by rw [hsought.workspaceId]; exact Option.some_ne_none _)]
      exact Or.inl ⟨hsought, rfl⟩
    · split
      · trivial
      · exact ahead_advance htodo
      · split_ifs
        · exact htodo
        · exact Or.inr htodo
  case authorizing.authorizer intent r todo reconciled answer =>
    refine Or.inr ?_
    simp only [ReconcilePc.resume]
    cases answer with
    | ok grant => exact h
    | error refusal =>
      rcases h with ⟨hsought, -⟩ | htodo
      · cases hauthorize intent r todo reconciled _ rfl rfl hsought.workspaceId
      · exact htodo
  case auditing.store intent reason todo reconciled now uuid io failure =>
    refine Or.inr ?_
    simp only [ReconcilePc.resume, Stored.then]
    split
    · exact ahead_advance h
    · trivial
  case binding.store intent r todo reconciled now uuid io failure =>
    simp only [ReconcilePc.resume, Stored.then]
    rcases h with ⟨hsought, rfl⟩ | htodo
    · split
      · rename_i value hresult
        rw [← hsought.key]
        exact Or.inl (boundOn_of_bind hresult)
      · exact Or.inr trivial
    · refine Or.inr ?_
      split
      · exact ahead_advance htodo
      · trivial

end Resume

/-! ## Runs -/

theorem BoundOn.moved {disk disk' : Disk} {key runId : String} (h : BoundOn disk key runId)
    (hmoved : Moved (intents disk) (intents disk')) : BoundOn disk' key runId := by
  obtain ⟨i, hi, hkey, hbound, hrun⟩ := h
  obtain ⟨j, hj, hij⟩ := hmoved i hi
  obtain ⟨hjbound, hjrun⟩ := hij.bound hbound
  exact ⟨j, hj, hij.key.trans hkey, hjbound, hjrun.trans hrun⟩

/-- The `reconcile` of the call has not come past a sought intent. -/
def OnTheWay (call : ℕ) (key workspaceId runId : String) (sys : System) : Prop :=
  ∃ store pc, sys.frames call = some ⟨store, .reconcile pc⟩ ∧ pc.Ahead key workspaceId runId

theorem ahead_end {key workspaceId runId : String} {pc : ReconcilePc}
    (h : pc.Ahead key workspaceId runId) :
    ∃ pc', Activity.end (.reconcile pc) = .reconcile pc' ∧ pc'.Ahead key workspaceId runId := by
  cases pc with
  | returned => cases h
  | _ => exact ⟨.threw, rfl, trivial⟩

/-- A step leaves the key bound, or the `reconcile` on its way. -/
theorem onTheWay_step {sys : System} {act : Act} {call : ℕ} {key workspaceId runId : String}
    (h : OnTheWay call key workspaceId runId sys)
    (hact : answers call key workspaceId runId sys act = true) :
    BoundOn (step env sys act).disk key runId ∨
      OnTheWay call key workspaceId runId (step env sys act) := by
  obtain ⟨store, pc, hframe, hahead⟩ := h
  -- A step that leaves the frame of the call as it is.
  have hkept : ∀ {sys' : System}, sys'.frames call = sys.frames call →
      OnTheWay call key workspaceId runId sys' := by
    intro sys' hsame
    exact ⟨store, pc, hsame.trans hframe, hahead⟩
  have hother : ∀ {c : ℕ} {frame : Frame}, c ≠ call →
      Function.update sys.frames c (some frame) call = sys.frames call :=
    fun hne => Function.update_of_ne hne.symm _ _
  have hfree : ∀ {c : ℕ}, sys.frames c = none → c ≠ call := by
    rintro c hnone rfl
    cases hnone.symm.trans hframe
  cases act with
  | service s c io =>
    unfold step
    dsimp only
    split_ifs <;> exact Or.inr (hkept rfl)
  | launch c s request =>
    unfold step
    dsimp only
    split_ifs with hnone
    · exact Or.inr (hkept (hother (hfree hnone)))
    · exact Or.inr (hkept rfl)
  | reconcile c s =>
    unfold step
    dsimp only
    split_ifs with hnone
    · exact Or.inr (hkept (hother (hfree hnone)))
    · exact Or.inr (hkept rfl)
  | resume c input =>
    by_cases hc : c = call
    · subst hc
      have hresume : BoundOn (pc.resume env sys.disk (sys.memory store) input).disk key runId ∨
          (pc.resume env sys.disk (sys.memory store) input).pc.Ahead key workspaceId runId := by
        refine ahead_resume hahead ?_ ?_
        · rintro intent todo reconciled answer rfl rfl hkey
          unfold answers at hact
          simpa [hframe, hkey] using hact
        · rintro intent r todo reconciled answer rfl rfl hworkspace
          unfold answers at hact
          simpa [hframe, hworkspace] using hact
      unfold step
      dsimp only
      rw [hframe]
      dsimp only
      refine hresume.imp (fun hbound => hbound) fun hahead' => ?_
      exact ⟨store, _, Function.update_self .., hahead'⟩
    · refine Or.inr (hkept ?_)
      unfold step
      dsimp only
      split
      · rfl
      · exact hother hc
      · exact hother hc
  | accept k r =>
    unfold step
    dsimp only
    split_ifs <;> exact Or.inr (hkept rfl)
  | cut c =>
    refine Or.inr ?_
    unfold step
    dsimp only
    split
    · exact hkept rfl
    · rename_i frame hcut
      by_cases hc : c = call
      · subst hc
        obtain rfl := Option.some.inj (hcut.symm.trans hframe)
        obtain ⟨pc', hend, hahead'⟩ := ahead_end hahead
        exact ⟨store, pc', (Function.update_self ..).trans (by rw [hend]), hahead'⟩
      · exact hkept (hother hc)
  | crash s =>
    refine Or.inr ?_
    by_cases hs : store = s
    · obtain ⟨pc', hend, hahead'⟩ := ahead_end hahead
      refine ⟨store, pc', ?_, hahead'⟩
      show (sys.frames call).map _ = _
      rw [hframe, Option.map_some, if_pos hs]
      show some (Frame.mk store _) = _
      rw [hend]
    · refine hkept ?_
      show (sys.frames call).map _ = _
      rw [hframe, Option.map_some, if_neg hs]

/-- **A `reconcile` that returns is complete** when its store instance had the open intents of the
file in memory: whatever the other calls do in between, an open intent whose key has a run and whose
workspace is authorized is bound to that run on file. -/
theorem reconcile_complete (env : Env) (sys : System) (call store : ℕ)
    (hfree : sys.frames call = none) (hcovered : Covered sys store) (later : List Act)
    (reconciled : List LaunchIntent)
    (hreturned : (Runs.run (step env) sys (.reconcile call store :: later)).frames call =
      some ⟨store, .reconcile (.returned reconciled)⟩)
    (i : LaunchIntent) (hi : i ∈ intents sys.disk) (hopen : Open i) (workspaceId runId : String)
    (hworkspace : i.workspaceId = some workspaceId)
    (hanswers : Runs.Admissible (step env)
      (fun sys act => answers call i.idempotencyKey workspaceId runId sys act = true) sys
      (.reconcile call store :: later)) :
    BoundOn (Runs.run (step env) sys (.reconcile call store :: later)).disk i.idempotencyKey
      runId := by
  have hstart : OnTheWay call i.idempotencyKey workspaceId runId
      (step env sys (.reconcile call store)) := by
    obtain ⟨j, hj, hkey, hsame, hunbound⟩ := hcovered i hi hopen
    have hsought : Sought i.idempotencyKey workspaceId j :=
      ⟨hkey, hsame.trans hworkspace, hunbound⟩
    refine ⟨store, advance (sys.memory store) [], ?_, ahead_advance ⟨j, hj, hsought⟩⟩
    unfold step
    dsimp only
    rw [if_pos hfree]
    exact Function.update_self ..
  have hend := Runs.run_invariant_of (step env)
    (P := fun sys => BoundOn sys.disk i.idempotencyKey runId ∨
      OnTheWay call i.idempotencyKey workspaceId runId sys) ?_ (Or.inr hstart) hanswers.2
  · rcases hend with hbound | ⟨store', pc, hframe, hahead⟩
    · exact hbound
    · -- A `reconcile` that has returned is past every intent.
      rw [Runs.run_cons, hframe] at hreturned
      cases hreturned
      cases hahead
  · rintro sys act (hbound | hway) hact
    · obtain ⟨c, hc⟩ := @step_disk env sys act
      refine Or.inl ?_
      rw [hc]
      exact hbound.moved (moved_afterCall _ _)
    · exact onTheWay_step hway hact

/-- The process dies after the provider has accepted the sample launch. -/
def sampleLost : System := Runs.run (step plainEnv) {} (sampleAccepted ++ [.crash 0])

/-- The new process loads the file. -/
def sampleLoaded : System :=
  step plainEnv sampleLost (.service 0 (.reconcile (fun _ _ => false) "2026-01-03") .written)

/-- What the `reconcile` of the new process waits for. -/
def sampleAnswers : List Act :=
  [.resume 1 (.lookup (.ok (some "run-1"))), .resume 1 (.authorizer (.ok sampleGrant)),
    .resume 1 (stored "u4")]

/-- What a finished `reconcile` returned. -/
def Activity.returned : Activity → Option (List LaunchIntent)
  | .reconcile (.returned reconciled) => some reconciled
  | _ => none

theorem eq_of_returned {activity : Activity} {reconciled : List LaunchIntent}
    (h : activity.returned = some reconciled) : activity = .reconcile (.returned reconciled) := by
  unfold Activity.returned at h
  split at h
  · obtain rfl := Option.some.inj h
    rfl
  · cases h

theorem reconcile_complete_sample :
    ∃ i ∈ intents sampleLoaded.disk, Open i ∧ Covered sampleLoaded 0 ∧
      BoundOn (Runs.run (step plainEnv) sampleLoaded (.reconcile 1 0 :: sampleAnswers)).disk
        i.idempotencyKey "run-1" := by
  have hcovered : Covered sampleLoaded 0 := by decide +kernel
  have hopen : ∃ i ∈ intents sampleLoaded.disk, Open i ∧ i.workspaceId = some "w1" ∧
      Runs.Admissible (step plainEnv)
        (fun sys act => answers 1 i.idempotencyKey "w1" "run-1" sys act = true) sampleLoaded
        (.reconcile 1 0 :: sampleAnswers) := by decide +kernel
  have hreturned : ((Runs.run (step plainEnv) sampleLoaded (.reconcile 1 0 :: sampleAnswers)).frames
      1).any (fun f => decide (f.store = 0) && f.activity.returned.isSome) = true := by
    decide +kernel
  obtain ⟨i, hi, hiopen, hworkspace, hanswers⟩ := hopen
  obtain ⟨⟨store, activity⟩, hframe, hdone⟩ := (Option.any_eq_true _ _).1 hreturned
  obtain ⟨hstore, hfinished⟩ := Bool.and_eq_true_iff.1 hdone
  obtain rfl : store = 0 := of_decide_eq_true hstore
  obtain ⟨reconciled, hreconciled⟩ := Option.isSome_iff_exists.1 hfinished
  obtain rfl : activity = .reconcile (.returned reconciled) := eq_of_returned hreconciled
  exact ⟨i, hi, hiopen, hcovered, reconcile_complete plainEnv sampleLoaded 1 0 rfl hcovered
    sampleAnswers reconciled hframe i hi hiopen "w1" "run-1" hworkspace hanswers⟩

/-- The `reconcile` of a process that has not loaded the file returns at once, and the accepted
launch is not bound. -/
theorem fresh_instance_binds_nothing :
    sampleLost.frames 1 = none ∧
    (step plainEnv sampleLost (.reconcile 1 0)).frames 1 = some ⟨0, .reconcile (.returned [])⟩ ∧
    ∃ i ∈ intents sampleLost.disk, Open i ∧ i.workspaceId = some "w1" ∧
      sampleLost.runs i.idempotencyKey = some "run-1" ∧
      Runs.Admissible (step plainEnv)
        (fun sys act => answers 1 i.idempotencyKey "w1" "run-1" sys act = true) sampleLost
        [.reconcile 1 0] ∧
      ¬ BoundOn (step plainEnv sampleLost (.reconcile 1 0)).disk i.idempotencyKey "run-1" := by
  decide +kernel

end AgentOrchestrator.Coordinator
