import AgentOrchestrator.Load.Verifier
import Mathlib.Data.List.TakeDrop

/-!
# The stages of a run

The loop over the chunks of a stage keeps an account of the workspaces it has offered: each of them
has been accepted or has failed, in order.  A run goes on only while no launch has failed and every
sample is within the ceilings, and what ends it is among its evidence.
-/

namespace AgentOrchestrator.Load

variable {plus : ℚ → ℚ → ℚ} {text : ℚ → String} {options : Options} {env : Environment}

/-! ## A chunk -/

theorem length_outcomes (env : Environment) (stage : ℕ) (chunk : List Planned) :
    (chunk.filterMap (acceptedSession env stage)).length +
      (chunk.filterMap (failure env)).length = chunk.length := by
  induction chunk with
  | nil => rfl
  | cons planned chunk ih =>
    cases houtcome : env.outcome planned.2 with
    | launched sessionId kind latencyMs =>
      simp only [List.filterMap_cons, acceptedSession, failure, houtcome, List.length_cons] at ih ⊢
      omega
    | failed error early =>
      simp only [List.filterMap_cons, acceptedSession, failure, houtcome, List.length_cons] at ih ⊢
      omega

theorem peak_le (env : Environment) (active : ℕ) (chunk : List Planned) :
    peak env active chunk ≤ active + chunk.length := by
  induction chunk generalizing active with
  | nil => simp [peak]
  | cons planned chunk ih =>
    rw [peak, List.length_cons]
    have hactive := ih active
    have hnext := ih (active + 1)
    split <;> omega

/-! ## Sound runs -/

/-- What has been measured is among the evidence, and it accounts for the end of the run. -/
structure Sound (plus : ℚ → ℚ → ℚ) (text : ℚ → String) (options : Options) (env : Environment)
    (run : Run) : Prop where
  taken : ∀ sample ∈ run.samples, ∃ i, sample = env.resources i
  clear : run.aborted = none → run.failures = [] ∧
    ∀ sample ∈ run.samples, ceilingViolation plus text options sample = none
  supported : ∀ reason, run.aborted = some reason →
    reason = "launch failure" ∧ run.failures ≠ [] ∨
      ∃ sample ∈ run.samples, ceilingViolation plus text options sample = some reason
  inFlight : run.maxObservedInFlight ≤ options.maxInFlight

theorem Sound.sampleBefore {run : Run} (h : Sound plus text options env run)
    (hopen : run.aborted = none) :
    Sound plus text options env (sampleBefore plus text options env run) where
  taken := by
    intro sample hsample
    rcases List.mem_append.mp hsample with hold | hnew
    · exact h.taken sample hold
    · exact ⟨_, List.mem_singleton.mp hnew⟩
  clear := by
    intro hnone
    obtain ⟨hfailures, hwithin⟩ := h.clear hopen
    refine ⟨hfailures, fun sample hsample => ?_⟩
    rcases List.mem_append.mp hsample with hold | hnew
    · exact hwithin sample hold
    · rw [List.mem_singleton.mp hnew]
      exact hnone
  supported := by
    intro reason hreason
    exact .inr ⟨_, List.mem_append_right _ (List.mem_singleton_self _), hreason⟩
  inFlight := h.inFlight

/-- The account of a stage: the workspaces offered so far, and what became of them. -/
structure StageSound (plus : ℚ → ℚ → ℚ) (text : ℚ → String) (options : Options)
    (env : Environment) (stage : ℕ) (stageIds : List Planned) (start : Run) (s : StageRun) :
    Prop where
  sound : Sound plus text options env s.run
  offered : s.offered ≤ stageIds.length
  accepted : s.run.accepted =
    start.accepted ++ (stageIds.take s.offered).filterMap (acceptedSession env stage)
  failures : s.run.failures =
    start.failures ++ (stageIds.take s.offered).filterMap (failure env)
  admitted : s.admitted = ((stageIds.take s.offered).filterMap (acceptedSession env stage)).length
  failed : s.failed = ((stageIds.take s.offered).filterMap (failure env)).length
  sampled : s.run.samples.length ≤ start.samples.length + 2 * stageIds.length
  ahead : s.run.aborted = none →
    s.run.samples.length ≤ start.samples.length + 2 * s.offered
  begun : s.offered = 0 ∧ s.run.aborted = none ∨ s.run.samples ≠ []

section Steps

variable {stage : ℕ} {stageIds : List Planned} {start : Run} {s : StageRun}

theorem StageSound.init (hstart : Sound plus text options env start)
    (hopen : start.aborted = none) :
    StageSound plus text options env stage stageIds start { run := start } where
  sound := hstart
  offered := Nat.zero_le _
  accepted := by simp
  failures := by simp
  admitted := by simp
  failed := by simp
  sampled := Nat.le_add_right _ _
  ahead := fun _ => Nat.le_add_right _ _
  begun := .inl ⟨rfl, hopen⟩

/-- The sample before a chunk is above a ceiling. -/
theorem StageSound.stop (h : StageSound plus text options env stage stageIds start s)
    (hleft : s.offered < stageIds.length) (hopen : s.run.aborted = none)
    (hover : (Load.sampleBefore plus text options env s.run).aborted ≠ none) :
    StageSound plus text options env stage stageIds start
      { s with run := Load.sampleBefore plus text options env s.run } where
  sound := h.sound.sampleBefore hopen
  offered := h.offered
  accepted := h.accepted
  failures := h.failures
  admitted := h.admitted
  failed := h.failed
  sampled := by
    have hahead := h.ahead hopen
    simp only [Load.sampleBefore, List.length_append, List.length_singleton]
    omega
  ahead := fun hnone => absurd hnone hover
  begun := .inr (by simp [Load.sampleBefore])

theorem take_add_of_chunk {α : Type*} (l : List α) (offered size : ℕ) :
    l.take (offered + ((l.drop offered).take size).length) =
      l.take offered ++ (l.drop offered).take size := by
  rw [List.take_add, List.length_take]
  congr 1
  rw [← List.take_take, List.take_length]

/-- A chunk of launches between two samples. -/
theorem StageSound.chunk (h : StageSound plus text options env stage stageIds start s)
    (hleft : s.offered < stageIds.length) (hopen : s.run.aborted = none)
    (hwithin : (Load.sampleBefore plus text options env s.run).aborted = none)
    (hpositive : 0 < options.maxInFlight) :
    StageSound plus text options env stage stageIds start
      (runChunk plus text options env stage
        ((stageIds.drop s.offered).take options.maxInFlight)
        { s with run := Load.sampleBefore plus text options env s.run }) := by
  have hbefore := h.sound.sampleBefore hopen
  have htake := take_add_of_chunk stageIds s.offered options.maxInFlight
  have hlength : 0 < ((stageIds.drop s.offered).take options.maxInFlight).length ∧
      ((stageIds.drop s.offered).take options.maxInFlight).length ≤ options.maxInFlight ∧
      s.offered + ((stageIds.drop s.offered).take options.maxInFlight).length ≤
        stageIds.length := by
    rw [List.length_take, List.length_drop]
    omega
  have hpeak := peak_le env 0 ((stageIds.drop s.offered).take options.maxInFlight)
  generalize (stageIds.drop s.offered).take options.maxInFlight = chunk at *
  have hahead := h.ahead hopen
  obtain ⟨hnofailures, hold⟩ := hbefore.clear hwithin
  have hfailed : s.failed = 0 := by
    have hnil : s.run.failures = [] := hnofailures
    rw [h.failures, List.append_eq_nil_iff] at hnil
    rw [h.failed, hnil.2, List.length_nil]
  refine ⟨⟨?_, ?_, ?_, ?_⟩, hlength.2.2, ?_, ?_, ?_, ?_, ?_, ?_, ?_⟩
  · -- the samples are those of the environment
    intro sample hsample
    rcases List.mem_append.mp hsample with hold | hnew
    · exact hbefore.taken sample hold
    · exact ⟨_, List.mem_singleton.mp hnew⟩
  · intro hnone
    simp only [runChunk, Option.orElse_eq_orElse, Option.orElse_eq_or, Option.or_eq_none_iff]
      at hnone
    obtain ⟨hlaunch, hafter⟩ := hnone
    have hchunk : (chunk.filterMap (failure env)).length = 0 := by
      by_contra hsome
      rw [if_pos (by omega)] at hlaunch
      cases hlaunch
    refine ⟨List.append_eq_nil_iff.mpr ⟨hnofailures, List.length_eq_zero_iff.mp hchunk⟩, ?_⟩
    intro sample hsample
    rcases List.mem_append.mp hsample with hbefore | hnew
    · exact hold sample hbefore
    · rw [List.mem_singleton.mp hnew]
      exact hafter
  · intro reason hreason
    by_cases hchunk : (chunk.filterMap (failure env)).length = 0
    · -- no launch has failed, so it is the sample after the chunk
      simp only [runChunk, hfailed, hchunk, hwithin] at hreason
      exact .inr ⟨_, List.mem_append_right _ (List.mem_singleton_self _), hreason⟩
    · left
      simp only [runChunk, hfailed] at hreason
      rw [if_pos (by omega)] at hreason
      refine ⟨(Option.some.inj hreason).symm, fun hnil => hchunk ?_⟩
      rw [(List.append_eq_nil_iff.mp hnil).2, List.length_nil]
  · simp only [runChunk]
    exact max_le hbefore.inFlight (by omega)
  · simp only [runChunk, htake, List.filterMap_append, ← List.append_assoc]
    rw [← h.accepted]
    rfl
  · simp only [runChunk, htake, List.filterMap_append, ← List.append_assoc]
    rw [← h.failures]
    rfl
  · simp only [runChunk, htake, List.filterMap_append, List.length_append, h.admitted]
  · simp only [runChunk, htake, List.filterMap_append, List.length_append, h.failed]
  · simp only [runChunk, Load.sampleBefore, List.length_append, List.length_singleton]
    omega
  · intro _
    simp only [runChunk, Load.sampleBefore, List.length_append, List.length_singleton]
    omega
  · exact .inr (by simp [runChunk])

/-- **The loop over the chunks** offers every workspace of the stage unless it is ended. -/
theorem stageLoop_sound (hpositive : 0 < options.maxInFlight) (fuel : ℕ)
    (h : StageSound plus text options env stage stageIds start s)
    (hfuel : stageIds.length - s.offered ≤ fuel) :
    StageSound plus text options env stage stageIds start
        (stageLoop plus text options env stage stageIds fuel s) ∧
      ((stageLoop plus text options env stage stageIds fuel s).run.aborted = none →
        (stageLoop plus text options env stage stageIds fuel s).offered = stageIds.length) := by
  induction fuel generalizing s with
  | zero =>
    have hle := h.offered
    exact ⟨h, fun _ => by simp only [stageLoop]; omega⟩
  | succ fuel ih =>
    rw [stageLoop]
    split
    next hgoing =>
      obtain ⟨hleft, hopen⟩ := hgoing
      dsimp only
      split
      next hover => exact ⟨h.stop hleft hopen hover, fun hnone => absurd hnone hover⟩
      next hwithin =>
        refine ih (h.chunk hleft hopen (not_not.mp hwithin) hpositive) ?_
        simp only [runChunk, List.length_take, List.length_drop]
        omega
    next hended =>
      refine ⟨h, fun hnone => ?_⟩
      have hle := h.offered
      by_contra hne
      exact hended ⟨by omega, hnone⟩

end Steps

/-! ## The account of the stages -/

/-- The sessions accepted in the stages, from the workspaces that each has offered. -/
def acceptedOf (env : Environment) (ids : List Planned) :
    ℕ → ℕ → List StageEvidence → List AcceptedSession
  | _, _, [] => []
  | stage, offset, evidence :: stages =>
    ((ids.drop offset).take evidence.offered).filterMap (acceptedSession env stage) ++
      acceptedOf env ids (stage + 1) (offset + evidence.planned) stages

/-- The evidence of the stages of the given sizes.  After an incomplete stage none offers work. -/
def Staged (env : Environment) (ids : List Planned) :
    ℕ → ℕ → Prop → List ℕ → List StageEvidence → Prop
  | _, _, _, [], stages => stages = []
  | _, _, _, _ :: _, [] => False
  | stage, offset, incomplete, size :: sizes, evidence :: stages =>
    evidence.stage = stage + 1 ∧ evidence.planned = size ∧
    evidence.offered + evidence.withheld = size ∧
    evidence.admitted =
      (((ids.drop offset).take evidence.offered).filterMap (acceptedSession env stage)).length ∧
    evidence.failed =
      (((ids.drop offset).take evidence.offered).filterMap (failure env)).length ∧
    (incomplete → evidence.offered = 0) ∧
    Staged env ids (stage + 1) (offset + size)
      (incomplete ∨ evidence.offered < evidence.planned ∨ 0 < evidence.failed) sizes stages

theorem withheldStages_cons (stage size : ℕ) (sizes : List ℕ) :
    withheldStages stage (size :: sizes) =
      { stage := stage + 1, planned := size, offered := 0, admitted := 0, failed := 0
        withheld := size } :: withheldStages (stage + 1) sizes := rfl

theorem staged_withheld (env : Environment) (ids : List Planned) (stage offset : ℕ)
    (incomplete : Prop) (sizes : List ℕ) :
    Staged env ids stage offset incomplete sizes (withheldStages stage sizes) := by
  induction sizes generalizing stage offset incomplete with
  | nil => rfl
  | cons size sizes ih =>
    rw [withheldStages_cons]
    refine ⟨rfl, rfl, ?_, ?_, ?_, fun _ => rfl, ih (stage + 1) (offset + size) _⟩
    · exact Nat.zero_add size
    · simp
    · simp

theorem acceptedOf_withheld (env : Environment) (ids : List Planned) (stage offset : ℕ)
    (sizes : List ℕ) : acceptedOf env ids stage offset (withheldStages stage sizes) = [] := by
  induction sizes generalizing stage offset with
  | nil => rfl
  | cons size sizes ih =>
    rw [withheldStages_cons, acceptedOf, ih]
    simp

theorem sum_withheld (stage : ℕ) (sizes : List ℕ) :
    ((withheldStages stage sizes).map (·.failed)).sum = 0 := by
  induction sizes generalizing stage with
  | nil => rfl
  | cons size sizes ih => rw [withheldStages_cons, List.map_cons, List.sum_cons, ih]

/-- What the loop over the stages makes of a run. -/
structure StagesSound (plus : ℚ → ℚ → ℚ) (text : ℚ → String) (options : Options)
    (env : Environment) (stage offset : ℕ) (sizes : List ℕ) (start : Run)
    (result : Run × List StageEvidence) : Prop where
  sound : Sound plus text options env result.1
  staged : Staged env options.workspaceIds.zipIdx stage offset False sizes result.2
  accepted : result.1.accepted =
    start.accepted ++ acceptedOf env options.workspaceIds.zipIdx stage offset result.2
  failures : result.1.failures.length =
    start.failures.length + (result.2.map (·.failed)).sum
  sampled : result.1.samples.length ≤ start.samples.length + 2 * sizes.sum
  begun : start.samples ≠ [] ∨ sizes ≠ [] → result.1.samples ≠ []
  complete : result.1.aborted = none → (result.2.map (·.withheld)).sum = 0


/-- The evidence of the stages from the one on that a loop over its chunks has made. -/
theorem StageSound.staged {stage offset size : ℕ} {sizes : List ℕ} {start : Run} {s : StageRun}
    {stages : List StageEvidence} {ids : List Planned}
    (h : StageSound plus text options env stage ((ids.drop offset).take size) start s)
    (hsize : s.offered ≤ size)
    (hrest : Staged env ids (stage + 1) (offset + size)
      (False ∨ s.offered < size ∨ 0 < s.failed) sizes stages) :
    Staged env ids stage offset False (size :: sizes)
      ({ stage := stage + 1, planned := size, offered := s.offered, admitted := s.admitted
         failed := s.failed, withheld := size - s.offered } :: stages) := by
  have htake : ((ids.drop offset).take size).take s.offered = (ids.drop offset).take s.offered := by
    rw [List.take_take, min_eq_left hsize]
  refine ⟨rfl, rfl, Nat.add_sub_of_le hsize, ?_, ?_, False.elim, hrest⟩
  · rw [← htake]
    exact h.admitted
  · rw [← htake]
    exact h.failed

/-- **The loop over the stages** accounts for all it has offered. -/
theorem runStages_sound (hpositive : 0 < options.maxInFlight) (stage offset : ℕ)
    (sizes : List ℕ) (hsizes : ∀ size ∈ sizes, 0 < size)
    (hids : offset + sizes.sum ≤ options.workspaceIds.length) {start : Run}
    (hstart : Sound plus text options env start) (hopen : start.aborted = none) :
    StagesSound plus text options env stage offset sizes start
      (runStages plus text options env stage offset sizes start) := by
  induction sizes generalizing stage offset start with
  | nil =>
    exact ⟨hstart, rfl, by simp [runStages, acceptedOf], by simp [runStages], by simp [runStages],
      fun hsome => hsome.resolve_right (by simp), by simp [runStages]⟩
  | cons size sizes ih =>
    rw [List.sum_cons] at hids
    have hsize : 0 < size := hsizes size List.mem_cons_self
    have hlength : ((options.workspaceIds.zipIdx.drop offset).take size).length = size := by
      rw [List.length_take, List.length_drop, List.length_zipIdx]
      omega
    have hinit : StageSound plus text options env stage
        ((options.workspaceIds.zipIdx.drop offset).take size) start { run := start } :=
      StageSound.init hstart hopen
    obtain ⟨hs, hall⟩ := stageLoop_sound hpositive size hinit (by rw [hlength]; omega)
    rw [runStages]
    dsimp only
    generalize stageLoop plus text options env stage
      ((options.workspaceIds.zipIdx.drop offset).take size) size { run := start } = s at hs hall ⊢
    have hoffered : s.offered ≤ size := hlength ▸ hs.offered
    have htake : ((options.workspaceIds.zipIdx.drop offset).take size).take s.offered =
        (options.workspaceIds.zipIdx.drop offset).take s.offered := by
      rw [List.take_take, min_eq_left hoffered]
    have haccepted := hs.accepted
    have hfailures := congrArg List.length hs.failures
    have hsampled := hs.sampled
    rw [htake] at haccepted
    rw [List.length_append, ← hs.failed] at hfailures
    rw [hlength] at hsampled hall
    have hbegun : s.run.samples ≠ [] := by
      rcases hs.begun with ⟨hnone, hended⟩ | hbegun
      · have hcomplete := hall hended
        omega
      · exact hbegun
    split
    next hended =>
      refine ⟨hs.sound, hs.staged hoffered (staged_withheld env _ _ _ _ sizes), ?_, ?_, ?_,
        fun _ => hbegun, fun hnone => absurd hnone hended⟩
      · rw [acceptedOf, acceptedOf_withheld, List.append_nil]
        exact haccepted
      · rw [List.map_cons, List.sum_cons, sum_withheld]
        exact hfailures
      · simp only [List.sum_cons]
        omega
    next hgoing =>
      have hnone : s.run.aborted = none := not_not.mp hgoing
      have hcomplete := hall hnone
      have hfailed : s.failed = 0 := by
        have hclear := (hs.sound.clear hnone).1
        rw [hclear, List.length_nil] at hfailures
        omega
      have hrest := ih (stage + 1) (offset + size) (fun size' hmem => hsizes size'
        (List.mem_cons_of_mem _ hmem)) (by omega) hs.sound hnone
      have hnever : (False ∨ s.offered < size ∨ 0 < s.failed) = False := by
        rw [hcomplete, hfailed]
        simp
      refine ⟨hrest.sound, hs.staged hoffered (by rw [hnever]; exact hrest.staged), ?_, ?_, ?_,
        fun _ => hrest.begun (.inl hbegun), fun hend => ?_⟩
      · rw [hrest.accepted, haccepted, List.append_assoc]
        rfl
      · rw [hrest.failures, hfailures, List.map_cons, List.sum_cons]
        exact Nat.add_assoc _ _ _
      · have hlater := hrest.sampled
        rw [List.sum_cons]
        dsimp only
        omega
      · rw [List.map_cons, List.sum_cons, hrest.complete hend, hcomplete]
        simp

end AgentOrchestrator.Load
