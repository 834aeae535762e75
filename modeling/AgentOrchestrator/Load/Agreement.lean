import AgentOrchestrator.Load.Stages
import Mathlib.Data.List.Pairwise
import Mathlib.Data.List.Nodup

/-!
# The load runner and its verifier

The stages account for every workspace they offer, each accepted session is that of one workspace,
and what ended a run is among its evidence: a report of the runner passes every check of the
schema but one.  A run that ended with all of its work offered is refused.
-/

namespace AgentOrchestrator.Load

variable {plus : ℚ → ℚ → ℚ} {text : ℚ → String} {options : Options} {env : Environment}

/-! ## What the launches and the samples may be -/

/-- The launches that succeed have distinct session ids and proper values. -/
structure Attributed (env : Environment) : Prop where
  distinct : ∀ i j sessionId kind kind' latencyMs latencyMs',
    env.outcome i = .launched sessionId kind latencyMs →
      env.outcome j = .launched sessionId kind' latencyMs' → i = j
  nonempty : ∀ i sessionId kind latencyMs,
    env.outcome i = .launched sessionId kind latencyMs → sessionId ≠ ""
  kind : ∀ i sessionId kind latencyMs,
    env.outcome i = .launched sessionId kind latencyMs → kind = "terminal" ∨ kind = "chat"
  latency : ∀ i sessionId kind latencyMs,
    env.outcome i = .launched sessionId kind latencyMs → 0 ≤ latencyMs

/-- A sample with non-negative values, a positive RSS and a safe count of descriptors. -/
structure Measured (sample : ResourceSample) : Prop where
  elapsedMs : 0 ≤ sample.elapsedMs
  cpuUserMs : 0 ≤ sample.cpuUserMs
  cpuSystemMs : 0 ≤ sample.cpuSystemMs
  rssBytes : 0 < sample.rssBytes
  descriptors : ∀ descriptors ∈ sample.descriptors,
    ∃ count : ℕ, descriptors = count ∧ count ≤ 9007199254740991

theorem Measured.schema {sample : ResourceSample} (h : Measured sample) :
    resourceSampleSchema sample := by
  refine ⟨h.elapsedMs, h.cpuUserMs, h.cpuSystemMs, h.rssBytes, ?_⟩
  intro descriptors hmem
  obtain ⟨count, rfl, hcount⟩ := h.descriptors descriptors hmem
  have hnonneg : (0 : ℚ) ≤ count := Nat.cast_nonneg count
  refine ⟨⟨Rat.den_natCast count, ?_⟩, hnonneg⟩
  rw [abs_of_nonneg hnonneg]
  exact_mod_cast hcount

/-! ## Sums over the stages -/

section Stages

variable {ids : List Planned} {stage offset : ℕ} {incomplete : Prop} {sizes : List ℕ}
  {stages : List StageEvidence}

/-- The stages add up: what is planned is offered or withheld, what is offered is admitted or
failed. -/
theorem Staged.sums (h : Staged env ids stage offset incomplete sizes stages)
    (hids : offset + sizes.sum ≤ ids.length) :
    (stages.map (·.planned)).sum = sizes.sum ∧
      (stages.map (·.offered)).sum + (stages.map (·.withheld)).sum = sizes.sum ∧
      (stages.map (·.admitted)).sum + (stages.map (·.failed)).sum =
        (stages.map (·.offered)).sum ∧
      (stages.map (·.admitted)).sum = (acceptedOf env ids stage offset stages).length := by
  induction sizes generalizing stage offset incomplete stages with
  | nil =>
    cases h
    simp [acceptedOf]
  | cons size sizes ih =>
    cases stages with
    | nil => exact h.elim
    | cons evidence stages =>
      obtain ⟨_, hplanned, hsize, hadmitted, hfailed, _, hrest⟩ := h
      rw [List.sum_cons] at hids
      obtain ⟨h₁, h₂, h₃, h₄⟩ := ih hrest (by omega)
      have houtcomes := length_outcomes env stage ((ids.drop offset).take evidence.offered)
      rw [← hadmitted, ← hfailed, List.length_take, List.length_drop] at houtcomes
      simp only [List.map_cons, List.sum_cons, acceptedOf, List.length_append, hplanned]
      rw [← hadmitted, ← h₄]
      omega

theorem Staged.length (h : Staged env ids stage offset incomplete sizes stages) :
    stages.length = sizes.length := by
  induction sizes generalizing stage offset incomplete stages with
  | nil => rw [show stages = [] from h, List.length_nil, List.length_nil]
  | cons size sizes ih =>
    cases stages with
    | nil => exact h.elim
    | cons evidence stages =>
      obtain ⟨_, _, _, _, _, _, hrest⟩ := h
      rw [List.length_cons, List.length_cons, ih hrest]

theorem Staged.bounds (h : Staged env ids stage offset incomplete sizes stages)
    (hids : offset + sizes.sum ≤ ids.length) (evidence : StageEvidence)
    (hmem : evidence ∈ stages) :
    stage < evidence.stage ∧ evidence.stage ≤ stage + sizes.length ∧ evidence.planned ∈ sizes ∧
      evidence.offered + evidence.withheld = evidence.planned ∧
      evidence.offered = evidence.admitted + evidence.failed := by
  induction sizes generalizing stage offset incomplete stages with
  | nil =>
    rw [show stages = [] from h] at hmem
    cases hmem
  | cons size sizes ih =>
    cases stages with
    | nil => exact h.elim
    | cons head stages =>
      obtain ⟨hstage, hplanned, hsize, hadmitted, hfailed, _, hrest⟩ := h
      rw [List.sum_cons] at hids
      rcases List.mem_cons.mp hmem with rfl | hmem
      · have houtcomes := length_outcomes env stage ((ids.drop offset).take evidence.offered)
        rw [← hadmitted, ← hfailed, List.length_take, List.length_drop] at houtcomes
        refine ⟨by omega, by rw [List.length_cons]; omega, ?_, by omega, by omega⟩
        rw [hplanned]
        exact List.mem_cons_self
      · obtain ⟨h₁, h₂, h₃, h₄⟩ := ih hrest (by omega) hmem
        exact ⟨by omega, by rw [List.length_cons]; omega, List.mem_cons_of_mem _ h₃, h₄⟩

/-! ## The accepted sessions -/

theorem acceptedSession_eq_some {planned : Planned} {session : AcceptedSession}
    (h : acceptedSession env stage planned = some session) :
    env.outcome planned.2 = .launched session.sessionId session.kind session.latencyMs ∧
      session.workspaceId = planned.1 ∧ session.stage = stage + 1 ∧
      session.task = "load-task-" ++ toString (planned.2 + 1) := by
  unfold acceptedSession at h
  split at h
  next houtcome =>
    cases h
    exact ⟨houtcome, rfl, rfl, rfl⟩
  · cases h

theorem stage_of_acceptedSession {planned : Planned} {session : AcceptedSession}
    (h : acceptedSession env stage planned = some session) : session.stage = stage + 1 :=
  (acceptedSession_eq_some h).2.2.1

theorem lt_stage_of_mem_acceptedOf {session : AcceptedSession}
    (hmem : session ∈ acceptedOf env ids stage offset stages) :
    stage < session.stage ∧ session.stage ≤ stage + stages.length := by
  induction stages generalizing stage offset with
  | nil => cases hmem
  | cons evidence stages ih =>
    rw [List.length_cons]
    rcases List.mem_append.mp hmem with hhere | hlater
    · obtain ⟨planned, _, hsession⟩ := List.mem_filterMap.mp hhere
      have hstage := stage_of_acceptedSession hsession
      omega
    · have hlater := ih hlater
      omega

/-- A session without its stage. -/
def unstaged (session : AcceptedSession) : AcceptedSession := { session with stage := 1 }

theorem unstaged_acceptedSession (env : Environment) (stage : ℕ) (planned : Planned) :
    (acceptedSession env stage planned).map unstaged = acceptedSession env 0 planned := by
  unfold acceptedSession
  split <;> rfl

/-- The accepted sessions are those of some of the workspaces, in order. -/
theorem Staged.sublist (h : Staged env ids stage offset incomplete sizes stages) :
    List.Sublist ((acceptedOf env ids stage offset stages).map unstaged)
      ((ids.drop offset).filterMap (acceptedSession env 0)) := by
  induction sizes generalizing stage offset incomplete stages with
  | nil =>
    cases h
    exact List.nil_sublist _
  | cons size sizes ih =>
    cases stages with
    | nil => exact h.elim
    | cons evidence stages =>
      obtain ⟨_, hplanned, hsize, _, _, _, hrest⟩ := h
      have hsplit : ids.drop offset = (ids.drop offset).take size ++ ids.drop (offset + size) := by
        rw [← List.drop_drop, List.take_append_drop]
      rw [acceptedOf, List.map_append, List.map_filterMap, hplanned, hsplit, List.filterMap_append]
      simp only [unstaged_acceptedSession]
      rw [← hsplit]
      refine List.Sublist.append ?_ (ih hrest)
      exact (List.take_sublist_take_left (by omega)).filterMap _

/-- What is accepted in a stage is the block of sessions that the stage adds. -/
theorem Staged.consistent (accepted : List AcceptedSession)
    (h : Staged env ids stage offset incomplete sizes stages)
    (hids : offset + sizes.sum ≤ ids.length) (hexpected : sizes = stageSizes.drop stage)
    (before : List AcceptedSession) (hbefore : ∀ session ∈ before, session.stage ≤ stage)
    (haccepted : accepted = before ++ acceptedOf env ids stage offset stages)
    (priorStageIncomplete : Bool) (hprior : priorStageIncomplete = true → incomplete) :
    stagesConsistent accepted stage priorStageIncomplete stages = true := by
  induction sizes generalizing stage offset incomplete stages before priorStageIncomplete with
  | nil =>
    cases h
    rfl
  | cons size sizes ih =>
    cases stages with
    | nil => exact h.elim
    | cons evidence stages =>
      obtain ⟨hstage, hplanned, hsize, hadmitted, hfailed, hnone, hrest⟩ := h
      rw [List.sum_cons] at hids
      have houtcomes := length_outcomes env stage ((ids.drop offset).take evidence.offered)
      rw [← hadmitted, ← hfailed, List.length_take, List.length_drop] at houtcomes
      have hsizes : stageSizes[stage]? = some size := by
        rw [← List.head?_drop, ← hexpected, List.head?_cons]
      have hrestSizes : sizes = stageSizes.drop (stage + 1) := by
        rw [← List.tail_drop, ← hexpected, List.tail_cons]
      rw [acceptedOf] at haccepted
      have hcount : acceptedIn accepted evidence.stage = evidence.admitted := by
        rw [acceptedIn, haccepted, hstage, hadmitted, List.filter_append, List.filter_append,
          List.filter_eq_nil_iff.mpr, List.filter_eq_self.mpr, List.filter_eq_nil_iff.mpr,
          List.nil_append, List.append_nil]
        · intro session hlater
          have hlt := (lt_stage_of_mem_acceptedOf hlater).1
          simp only [decide_eq_true_eq]
          omega
        · intro session hhere
          obtain ⟨planned, _, hsession⟩ := List.mem_filterMap.mp hhere
          exact decide_eq_true (stage_of_acceptedSession hsession)
        · intro session hearlier
          have hle := hbefore session hearlier
          simp only [decide_eq_true_eq]
          omega
      rw [stagesConsistent, Bool.and_eq_true]
      constructor
      · rw [← hplanned] at hsizes
        simp only [Bool.and_eq_true, Bool.or_eq_true, decide_eq_true_eq, Bool.not_eq_true']
        refine ⟨⟨⟨⟨⟨hstage, hsizes⟩, by omega⟩, by omega⟩, hcount.symm⟩, ?_⟩
        cases hvalue : priorStageIncomplete with
        | false => exact .inl rfl
        | true => exact .inr (hnone (hprior hvalue))
      · refine ih hrest (by omega) hrestSizes _ ?_ (by rw [haccepted, hplanned, List.append_assoc]) _ ?_
        · intro session hsession
          rcases List.mem_append.mp hsession with hold | hhere
          · exact (hbefore session hold).trans (Nat.le_succ stage)
          · obtain ⟨planned, _, hplanned⟩ := List.mem_filterMap.mp hhere
            exact (stage_of_acceptedSession hplanned).le
        · intro hincomplete
          simp only [Bool.or_eq_true, decide_eq_true_eq] at hincomplete
          rcases hincomplete with (hprior' | hless) | hsome
          · exact .inl (hprior hprior')
          · exact .inr (.inl hless)
          · exact .inr (.inr hsome)

end Stages

/-! ## Attribution -/

/-- Two sessions with different workspaces, tasks and session ids. -/
def Distinct (left right : AcceptedSession) : Prop :=
  left.workspaceId ≠ right.workspaceId ∧ left.task ≠ right.task ∧ left.sessionId ≠ right.sessionId

theorem numbered_injective {label : String} {i j : ℕ}
    (h : label ++ toString (i + 1) = label ++ toString (j + 1)) : i = j := by
  have hrepr : Nat.toDigits 10 (i + 1) = Nat.toDigits 10 (j + 1) := by
    rw [← Nat.toList_repr, ← Nat.toList_repr]
    exact congrArg String.toList ((String.append_right_inj _).mp h)
  have hvalue := congrArg (fun digits => Nat.ofDigitChars 10 digits 0) hrepr
  simp only [Nat.ofDigitChars_ten_toDigits] at hvalue
  omega

theorem zipIdx_pairwise {l : List String} (hnodup : l.Nodup) :
    l.zipIdx.Pairwise fun p q => p.1 ≠ q.1 ∧ p.2 ≠ q.2 := by
  refine List.Pairwise.and ?_ ?_
  · rw [← List.pairwise_map (f := Prod.fst) (R := (· ≠ ·)), List.zipIdx_map_fst]
    exact hnodup
  · rw [← List.pairwise_map (f := Prod.snd) (R := (· ≠ ·)), List.zipIdx_map_snd]
    exact List.nodup_range'

theorem sessions_distinct {l : List String} (hnodup : l.Nodup) (henv : Attributed env) :
    (l.zipIdx.filterMap (acceptedSession env 0)).Pairwise Distinct := by
  refine List.pairwise_filterMap.mpr ((zipIdx_pairwise hnodup).imp ?_)
  intro p q hne left hleft right hright
  obtain ⟨hp, hpworkspace, _, hptask⟩ := acceptedSession_eq_some hleft
  obtain ⟨hq, hqworkspace, _, hqtask⟩ := acceptedSession_eq_some hright
  refine ⟨?_, ?_, ?_⟩
  · rw [hpworkspace, hqworkspace]
    exact hne.1
  · rw [hptask, hqtask]
    exact fun htask => hne.2 (numbered_injective htask)
  · intro hsession
    rw [← hsession] at hq
    exact hne.2 (henv.distinct _ _ _ _ _ _ _ hp hq)

theorem uniqueAttribution_of_pairwise {accepted : List AcceptedSession}
    (h : accepted.Pairwise Distinct) : uniqueAttribution accepted = true := by
  have hworkspaces : (accepted.map (·.workspaceId)).Nodup :=
    List.pairwise_map.mpr (h.imp fun hdistinct => hdistinct.1)
  have htasks : (accepted.map (·.task)).Nodup :=
    List.pairwise_map.mpr (h.imp fun hdistinct => hdistinct.2.1)
  have hsessions : (accepted.map (·.sessionId)).Nodup :=
    List.pairwise_map.mpr (h.imp fun hdistinct => hdistinct.2.2)
  simp only [uniqueAttribution, hworkspaces.dedup, htasks.dedup, hsessions.dedup, List.length_map,
    decide_true, Bool.and_self]

/-! ## Latencies and ceilings -/

theorem percentile_nonneg {values : List ℚ} (h : ∀ value ∈ values, 0 ≤ value) (fraction : ℚ) :
    0 ≤ percentile values fraction := by
  unfold percentile
  split
  · exact le_rfl
  · dsimp only
    have hsorted : ∀ (i : ℕ) (value : ℚ),
        (values.mergeSort fun left right => left ≤ right)[i]? = some value → 0 ≤ value := by
      intro i value hvalue
      exact h value (List.mem_mergeSort.mp (List.mem_of_getElem? hvalue))
    generalize hchosen : (_ <|> _ : Option ℚ) = chosen
    cases chosen with
    | none => exact le_rfl
    | some value =>
      simp only [Option.orElse_eq_orElse, Option.orElse_eq_or, Option.or_eq_some_iff] at hchosen
      rcases hchosen with hindex | ⟨_, hfirst⟩
      · split at hindex
        · cases hindex
        · exact hsorted _ value hindex
      · exact hsorted 0 value hfirst

theorem maxOf_nonneg (values : List ℚ) : 0 ≤ maxOf values := by
  suffices h : ∀ start : ℚ, 0 ≤ start → 0 ≤ values.foldl max start from h 0 le_rfl
  induction values with
  | nil => exact fun start hstart => hstart
  | cons value values ih => exact fun start hstart => ih _ (le_max_of_le_left hstart)

/-- The runner reports the first of the ceilings that the verifier finds exceeded. -/
theorem ceilingViolation_eq_head (sample : ResourceSample) :
    ceilingViolation plus text options sample =
      (violations plus text options.maxRssBytes options.maxCpuMs options.maxDescriptors
        sample).head? := by
  unfold ceilingViolation violations
  by_cases hrss : sample.rssBytes > options.maxRssBytes
  · rw [if_pos hrss, if_pos hrss]
    rfl
  · rw [if_neg hrss, if_neg hrss]
    by_cases hcpu : plus sample.cpuUserMs sample.cpuSystemMs > options.maxCpuMs
    · rw [if_pos hcpu, if_pos hcpu]
      rfl
    · rw [if_neg hcpu, if_neg hcpu]
      cases sample.descriptors with
      | none => rfl
      | some descriptors =>
        by_cases hdescriptors : descriptors > options.maxDescriptors
        · simp [hdescriptors]
        · simp [hdescriptors]

theorem ceilingViolation_ne_empty {sample : ResourceSample} {reason : String}
    (h : ceilingViolation plus text options sample = some reason) : reason ≠ "" := by
  rw [ceilingViolation_eq_head] at h
  have hmem := List.mem_of_head? h
  unfold violations at hmem
  rw [List.mem_append, List.mem_append] at hmem
  rcases hmem with (hrss | hcpu) | hdescriptors
  · split at hrss
    · rw [List.mem_singleton.mp hrss]
      simp
    · cases hrss
  · split at hcpu
    · rw [List.mem_singleton.mp hcpu]
      simp
    · cases hcpu
  · split at hdescriptors
    · cases hdescriptors
    · split at hdescriptors
      · rw [List.mem_singleton.mp hdescriptors]
        simp
      · cases hdescriptors

/-! ## Evident runs -/

/-- The account that a report gives of a run: its stages explain the sessions and the failures. -/
structure Evident (options : Options) (env : Environment) (run : Run)
    (stages : List StageEvidence) : Prop where
  valid : options.workspaceIds.length = sessionCount ∧ options.workspaceIds.Nodup ∧
    1 ≤ options.maxInFlight ∧ options.maxInFlight ≤ 30
  staged : Staged env options.workspaceIds.zipIdx 0 0 False stageSizes stages
  accepted : run.accepted = acceptedOf env options.workspaceIds.zipIdx 0 0 stages
  failures : run.failures.length = (stages.map (·.failed)).sum
  taken : ∀ sample ∈ run.samples, ∃ i, sample = env.resources i
  sampled : 1 ≤ run.samples.length ∧ run.samples.length ≤ 60
  reason : run.aborted ≠ some ""
  inFlight : run.maxObservedInFlight ≤ options.maxInFlight

section Evidence

variable {run : Run} {stages : List StageEvidence}

theorem Evident.ids_length (h : Evident options env run stages) :
    0 + stageSizes.sum ≤ options.workspaceIds.zipIdx.length := by
  rw [List.length_zipIdx, h.valid.1]
  decide

/-- The counts of a report. -/
theorem Evident.counts (h : Evident options env run stages) :
    (stages.map (·.planned)).sum = 30 ∧
      (stages.map (·.offered)).sum + (stages.map (·.withheld)).sum = 30 ∧
      run.accepted.length + run.failures.length = (stages.map (·.offered)).sum ∧
      (stages.map (·.admitted)).sum = run.accepted.length := by
  obtain ⟨h₁, h₂, h₃, h₄⟩ := h.staged.sums h.ids_length
  rw [h.failures, h.accepted, ← h₄]
  exact ⟨h₁, h₂, h₃, rfl⟩

/-- An accepted session is that of a workspace of the run. -/
theorem Evident.of_accepted (h : Evident options env run stages) {session : AcceptedSession}
    (hmem : session ∈ run.accepted) :
    ∃ planned ∈ options.workspaceIds.zipIdx,
      env.outcome planned.2 = .launched session.sessionId session.kind session.latencyMs ∧
      session.workspaceId = planned.1 ∧
      session.task = "load-task-" ++ toString (planned.2 + 1) := by
  rw [h.accepted] at hmem
  have hunstaged := h.staged.sublist.subset (List.mem_map_of_mem (f := unstaged) hmem)
  obtain ⟨planned, hplanned, hsession⟩ := List.mem_filterMap.mp hunstaged
  obtain ⟨houtcome, hworkspace, _, htask⟩ := acceptedSession_eq_some hsession
  exact ⟨planned, List.mem_of_mem_drop hplanned, houtcome, hworkspace, htask⟩

theorem Evident.unique (h : Evident options env run stages) (henv : Attributed env) :
    uniqueAttribution run.accepted = true := by
  have hall := sessions_distinct h.valid.2.1 henv
  have hpairwise := hall.sublist h.staged.sublist
  rw [← h.accepted] at hpairwise
  exact uniqueAttribution_of_pairwise ((List.pairwise_map.mp hpairwise).imp fun hdistinct => hdistinct)

/-- A report of an evident run is of the shape of the schema. -/
theorem Evident.shape (h : Evident options env run stages) (henv : Attributed env)
    (hmeasured : ∀ i, Measured (env.resources i))
    (hceilings : 0 < options.maxRssBytes ∧ 0 < options.maxCpuMs ∧ 0 < options.maxDescriptors)
    (hids : ∀ workspaceId ∈ options.workspaceIds, workspaceId ≠ "") :
    Load.shape (report options run stages) := by
  obtain ⟨hplanned, hoffered, hadmitted, hsum⟩ := h.counts
  have hsizes : ∀ size ∈ stageSizes, 0 < size ∧ size ≤ 15 := by decide
  have hlatency : ∀ latency ∈ run.accepted.map (·.latencyMs), 0 ≤ latency := by
    intro latency hmem
    obtain ⟨session, hsession, rfl⟩ := List.mem_map.mp hmem
    obtain ⟨planned, _, houtcome, _⟩ := h.of_accepted hsession
    exact henv.latency _ _ _ _ houtcome
  constructor
  case schema => rfl
  case mode =>
    simp only [report]
    cases options.execute
    · exact .inl rfl
    · exact .inr rfl
  case configuration =>
    exact ⟨rfl, rfl, rfl, h.valid.2.2, hceilings.1, hceilings.2.1, hceilings.2.2⟩
  case admission =>
    have hflight := h.inFlight
    have hmax := h.valid.2.2.2
    refine ⟨rfl, ?_, ?_, ?_, ?_, hflight.trans hmax, ?_, h.staged.length⟩
    · show (stages.map (·.offered)).sum ≤ 30
      omega
    · show run.accepted.length ≤ 30
      omega
    · show run.failures.length ≤ 30
      omega
    · show (stages.map (·.withheld)).sum ≤ 30
      omega
    · intro evidence hmem
      obtain ⟨hlow, hhigh, hsize, hsplit, houtcome⟩ := h.staged.bounds h.ids_length evidence hmem
      have hbound := hsizes _ hsize
      exact ⟨⟨hlow, hhigh⟩, hbound.1, by omega⟩
  case launch =>
    refine ⟨?_, ?_, ⟨?_, ?_⟩, percentile_nonneg hlatency _, percentile_nonneg hlatency _,
      maxOf_nonneg _⟩
    · show (stages.map (·.offered)).sum ≤ 30
      omega
    · show run.accepted.length ≤ 30
      omega
    · intro session hsession
      obtain ⟨planned, hplanned, houtcome, hworkspace, htask⟩ := h.of_accepted hsession
      have hmem : session ∈ run.accepted := hsession
      rw [h.accepted] at hmem
      have hstage := lt_stage_of_mem_acceptedOf hmem
      rw [h.staged.length] at hstage
      refine ⟨?_, by rw [htask]; simp, hstage, henv.nonempty _ _ _ _ houtcome,
        henv.kind _ _ _ _ houtcome, henv.latency _ _ _ _ houtcome⟩
      rw [hworkspace]
      exact hids _ (List.fst_mem_of_mem_zipIdx hplanned)
    · show run.accepted.length ≤ 30
      omega
  case samples =>
    refine ⟨fun sample hmem => ?_, h.sampled⟩
    obtain ⟨i, rfl⟩ := h.taken sample hmem
    exact (hmeasured i).schema
  case abort => exact h.reason
  case validation =>
    show (if options.execute then none else some _) ≠ some ""
    cases options.execute
    · simp
    · simp
  case capabilities => exact ⟨rfl, rfl, rfl, rfl⟩

/-- The admission arithmetic of an evident run is consistent. -/
theorem Evident.admissionConsistent (h : Evident options env run stages) :
    Load.admissionConsistent (report options run stages) = true := by
  obtain ⟨hplanned, hoffered, hadmitted, hsum⟩ := h.counts
  have hstages : stagesConsistent run.accepted 0 false stages = true :=
    h.staged.consistent run.accepted h.ids_length rfl [] (by simp) h.accepted false (by simp)
  have hfailures := h.failures
  have hflight := h.inFlight
  simp only [Load.admissionConsistent, Bool.and_eq_true, decide_eq_true_eq]
  simp only [report, sessionCount]
  refine ⟨⟨⟨⟨⟨⟨⟨⟨⟨⟨⟨?_, ?_⟩, ?_⟩, ?_⟩, ?_⟩, ?_⟩, ?_⟩, ?_⟩, ?_⟩, ?_⟩, hstages⟩, hflight⟩ <;>
    first
    | trivial
    | omega

theorem Evident.countsConsistent (h : Evident options env run stages) :
    Load.countsConsistent (report options run stages).launch = true := by
  obtain ⟨_, _, hadmitted, _⟩ := h.counts
  simp only [Load.countsConsistent, Bool.and_eq_true, decide_eq_true_eq]
  exact ⟨hadmitted.symm, rfl⟩

/-- **The verifier finds an issue** only with how an evident run ended. -/
theorem Evident.issues_eq_nil_iff (h : Evident options env run stages) (henv : Attributed env) :
    issues plus text (report options run stages) = [] ↔
      abortIssues plus text (report options run stages) = [] ∧
        modeIssues (report options run stages) = [] := by
  have hunique : uniqueAttribution (report options run stages).launch.acceptedSessions = true :=
    h.unique henv
  have hlatency : latencyConsistent (report options run stages).launch = true := by
    simp [latencyConsistent, report]
  have habort : (report options run stages).abort.aborted =
      decide ((report options run stages).abort.reason ≠ none) := by
    rw [Bool.eq_iff_iff, decide_eq_true_eq]
    exact Option.isSome_iff_ne_none
  simp only [issues, List.append_eq_nil_iff, issue_eq_nil, hunique, hlatency,
    h.admissionConsistent, h.countsConsistent, decide_eq_true habort, true_and]

/-! ## How a run ended -/

/-- What ended a sound run is supported by its evidence. -/
theorem Sound.abortIssues_eq_nil (hsound : Sound plus text options env run) :
    abortIssues plus text (report options run stages) = [] := by
  have hviolations : resourceViolations plus text (report options run stages) =
      run.samples.flatMap (violations plus text options.maxRssBytes options.maxCpuMs
        options.maxDescriptors) := rfl
  cases hended : run.aborted with
  | none =>
    have haborted : (report options run stages).abort.aborted = false := by simp [report, hended]
    have hwithin : run.samples.flatMap (violations plus text options.maxRssBytes options.maxCpuMs
        options.maxDescriptors) = [] := by
      refine List.flatMap_eq_nil_iff.mpr fun sample hsample => ?_
      have hnone := (hsound.clear hended).2 sample hsample
      rw [ceilingViolation_eq_head] at hnone
      exact List.head?_eq_none_iff.mp hnone
    rw [abortIssues, haborted, hviolations, hwithin]
    rfl
  | some reason =>
    have haborted : (report options run stages).abort.aborted = true := by simp [report, hended]
    have hreason : (report options run stages).abort.reason = some reason := hended
    rw [abortIssues, if_pos haborted, issue_eq_nil, hreason, hviolations]
    simp only [Bool.or_eq_true, Bool.and_eq_true, decide_eq_true_eq]
    rcases hsound.supported reason hended with ⟨rfl, hfailures⟩ | ⟨sample, hsample, hviolation⟩
    · exact .inl ⟨rfl, List.length_pos_iff.mpr hfailures⟩
    · right
      rw [ceilingViolation_eq_head] at hviolation
      exact List.mem_flatMap.mpr ⟨sample, hsample, List.mem_of_head? hviolation⟩

/-- A run that withholds nothing and loses nothing accepts 5, 10 and 15 in its stages. -/
theorem Evident.acceptedIn_stages (h : Evident options env run stages)
    (hwithheld : (stages.map (·.withheld)).sum = 0) (hfailures : run.failures = []) :
    acceptedIn run.accepted 1 = 5 ∧ acceptedIn run.accepted 2 = 10 ∧
      acceptedIn run.accepted 3 = 15 := by
  have hconsistent : stagesConsistent run.accepted 0 false stages = true :=
    h.staged.consistent run.accepted h.ids_length rfl [] (by simp) h.accepted false (by simp)
  have hfailed := h.failures
  obtain ⟨first, second, third, rfl⟩ := List.length_eq_three.mp h.staged.length
  obtain ⟨hfirst, hfive, _, _, _, _, hsecond, hten, _, _, _, _, hthird, hfifteen, _⟩ := h.staged
  simp only [stagesConsistent, Bool.and_eq_true, decide_eq_true_eq, hfirst, hsecond, hthird]
    at hconsistent
  simp only [List.map_cons, List.map_nil, List.sum_cons, List.sum_nil, hfailures,
    List.length_nil] at hwithheld hfailed
  obtain ⟨⟨⟨⟨⟨⟨_, _⟩, hplanned₁⟩, hoffered₁⟩, haccepted₁⟩, _⟩,
    ⟨⟨⟨⟨⟨_, _⟩, hplanned₂⟩, hoffered₂⟩, haccepted₂⟩, _⟩,
    ⟨⟨⟨⟨⟨_, _⟩, hplanned₃⟩, hoffered₃⟩, haccepted₃⟩, _⟩, _⟩ := hconsistent
  refine ⟨?_, ?_, ?_⟩
  · rw [← haccepted₁]
    omega
  · rw [← haccepted₂]
    omega
  · rw [← haccepted₃]
    omega

/-- **Executed runs.**  The verifier takes a run that was not ended, and one that withheld work. -/
theorem Evident.modeIssues_execute (h : Evident options env run stages)
    (hsound : Sound plus text options env run) (hexecute : options.execute = true)
    (hcomplete : run.aborted = none → (stages.map (·.withheld)).sum = 0) :
    modeIssues (report options run stages) = [] ↔
      (report options run stages).abort.aborted = false ∨
        0 < (report options run stages).admission.withheld := by
  obtain ⟨_, hoffered, hadmitted, _⟩ := h.counts
  have hmode : (report options run stages).mode ≠ "dry-run" := by simp [report, hexecute]
  have hblocked : (report options run stages).validation.blocked = false := by
    simp [report, hexecute]
  have hreason : (report options run stages).validation.reason = none := by
    simp [report, hexecute]
  rw [modeIssues, if_neg hmode]
  cases hended : run.aborted with
  | none =>
    have haborted : (report options run stages).abort.aborted = false := by simp [report, hended]
    have hfailures := (hsound.clear hended).1
    have hwithheld := hcomplete hended
    have hstages := h.acceptedIn_stages hwithheld hfailures
    rw [hfailures, List.length_nil] at hadmitted
    have hall : (stages.map (·.offered)).sum = 30 := by omega
    have hlaunched : run.accepted.length = 30 := by omega
    have hpassed : (report options run stages).validation.passed = true := by
      simp [report, hexecute, hended, hfailures, hwithheld, hlaunched, sessionCount]
    have hcompleted : completed (report options run stages) = true := by
      simp only [completed, hpassed, hblocked, hreason]
      simp only [report]
      simp [hall, hlaunched, hfailures, hwithheld, hstages]
    simp [haborted, hcompleted]
  | some reason =>
    have haborted : (report options run stages).abort.aborted = true := by simp [report, hended]
    have hpassed : (report options run stages).validation.passed = false := by
      simp [report, hexecute, hended]
    have hsplit : (report options run stages).launch.attempted +
        (report options run stages).admission.withheld = 30 := hoffered
    rw [if_neg (by simp [haborted]), issue_eq_nil, haborted, hpassed, hblocked, hreason]
    simp only [Bool.and_eq_true, decide_eq_true_eq]
    constructor
    · rintro ⟨⟨_, hwithheld⟩, _⟩
      exact .inr (Nat.pos_of_ne_zero hwithheld)
    · rintro (hfalse | hwithheld)
      · cases hfalse
      · exact ⟨⟨by simp, hwithheld.ne'⟩, by omega⟩

/-- **Dry runs** launch nothing and declare what blocks them. -/
theorem Evident.modeIssues_dryRun (h : Evident options env run stages)
    (hdry : options.execute = false) (hnone : (stages.map (·.offered)).sum = 0) :
    modeIssues (report options run stages) = [] := by
  obtain ⟨_, _, hadmitted, _⟩ := h.counts
  have hmode : (report options run stages).mode = "dry-run" := by simp [report, hdry]
  have haccepted : run.accepted.length = 0 := by omega
  have hfailures : run.failures.length = 0 := by omega
  rw [modeIssues, if_pos hmode, issue_eq_nil]
  simp only [report, hdry]
  simp [hnone, haccepted, hfailures]

end Evidence

/-! ## The reports of the runner -/

/-- The runner checks its options, and reports a run in stages or one sample. -/
theorem runRealLoad_cases {result : Report}
    (hrun : runRealLoad plus text options env = .ok result) :
    (options.workspaceIds.length = sessionCount ∧ options.workspaceIds.Nodup ∧
      1 ≤ options.maxInFlight ∧ options.maxInFlight ≤ 30) ∧
    (options.execute = true ∧
        result = report options (runStages plus text options env 0 0 stageSizes {}).1
          (runStages plus text options env 0 0 stageSizes {}).2 ∨
      options.execute = false ∧
        result = report options { samples := [env.resources 0] } (withheldStages 0 stageSizes)) := by
  unfold runRealLoad at hrun
  split at hrun
  · cases hrun
  next hworkspaces =>
    split at hrun
    · cases hrun
    next hflight =>
      rw [not_or, not_not, not_not] at hworkspaces
      have hnodup : options.workspaceIds.Nodup := by
        have hsame := (List.dedup_sublist options.workspaceIds).eq_of_length
          (hworkspaces.2.trans hworkspaces.1.symm)
        exact List.dedup_eq_self.mp hsame
      rw [not_or] at hflight
      have hflight' : 1 ≤ options.maxInFlight ∧ options.maxInFlight ≤ 30 :=
        ⟨Nat.pos_of_ne_zero hflight.1, not_lt.mp hflight.2⟩
      refine ⟨⟨hworkspaces.1, hnodup, hflight'⟩, ?_⟩
      split at hrun
      next hexecute =>
        split at hrun
        · cases hrun
        · exact .inl ⟨hexecute, (Except.ok.inj hrun).symm⟩
      next hdry => exact .inr ⟨Bool.eq_false_iff.mpr hdry, (Except.ok.inj hrun).symm⟩

theorem Sound.init : Sound plus text options env {} where
  taken := by simp
  clear := by simp
  supported := by simp
  inFlight := Nat.zero_le _

section Runs

variable (plus text env)

variable (hvalid : options.workspaceIds.length = sessionCount ∧ options.workspaceIds.Nodup ∧
  1 ≤ options.maxInFlight ∧ options.maxInFlight ≤ 30)

include hvalid

theorem stagesSound_execute : StagesSound plus text options env 0 0 stageSizes {}
    (runStages plus text options env 0 0 stageSizes {}) := by
  refine runStages_sound hvalid.2.2.1 0 0 stageSizes (by decide) ?_ Sound.init rfl
  rw [hvalid.1]
  decide

theorem evident_execute :
    Evident options env (runStages plus text options env 0 0 stageSizes {}).1
      (runStages plus text options env 0 0 stageSizes {}).2 := by
  have h := stagesSound_execute plus text env hvalid
  refine ⟨hvalid, h.staged, h.accepted, ?_, h.sound.taken, ⟨?_, ?_⟩, ?_, h.sound.inFlight⟩
  · rw [h.failures]
    exact Nat.zero_add _
  · exact List.length_pos_iff.mpr (h.begun (.inr (by decide)))
  · exact h.sampled
  · intro hempty
    rcases h.sound.supported "" hempty with ⟨hlaunch, _⟩ | ⟨sample, _, hviolation⟩
    · simp at hlaunch
    · exact ceilingViolation_ne_empty hviolation rfl

theorem evident_dryRun : Evident options env { samples := [env.resources 0] }
    (withheldStages 0 stageSizes) where
  valid := hvalid
  staged := staged_withheld env _ 0 0 False stageSizes
  accepted := (acceptedOf_withheld env _ 0 0 stageSizes).symm
  failures := (sum_withheld 0 stageSizes).symm
  taken := by
    intro sample hsample
    exact ⟨0, List.mem_singleton.mp hsample⟩
  sampled := by simp
  reason := by simp
  inFlight := Nat.zero_le _

end Runs

/-- A dry run within the ceilings is sound. -/
theorem Sound.dryRun (hwithin : ceilingViolation plus text options (env.resources 0) = none) :
    Sound plus text options env { samples := [env.resources 0] } where
  taken := by
    intro sample hsample
    exact ⟨0, List.mem_singleton.mp hsample⟩
  clear := by
    intro _
    refine ⟨rfl, fun sample hsample => ?_⟩
    rw [List.mem_singleton.mp hsample]
    exact hwithin
  supported := by simp
  inFlight := Nat.zero_le _

/-- **The runner and its verifier agree** on every report but those of runs that were ended with
nothing withheld. -/
theorem realSchema_iff {result : Report} (hrun : runRealLoad plus text options env = .ok result)
    (hceilings : 0 < options.maxRssBytes ∧ 0 < options.maxCpuMs ∧ 0 < options.maxDescriptors)
    (hids : ∀ workspaceId ∈ options.workspaceIds, workspaceId ≠ "") (henv : Attributed env)
    (hmeasured : ∀ i, Measured (env.resources i))
    (hdry : options.execute = false →
      ceilingViolation plus text options (env.resources 0) = none) :
    realSchema plus text result ↔
      result.abort.aborted = false ∨ 0 < result.admission.withheld := by
  obtain ⟨hvalid, ⟨hexecute, rfl⟩ | ⟨hnotExecute, rfl⟩⟩ := runRealLoad_cases hrun
  · have hsound := stagesSound_execute plus text env hvalid
    have hevident := evident_execute plus text env hvalid
    rw [realSchema, hevident.issues_eq_nil_iff henv,
      hevident.modeIssues_execute hsound.sound hexecute hsound.complete]
    constructor
    · exact fun h => h.2.2
    · exact fun h => ⟨hevident.shape henv hmeasured hceilings hids,
        hsound.sound.abortIssues_eq_nil, h⟩
  · have hevident := evident_dryRun env hvalid
    have hissues := (hevident.issues_eq_nil_iff henv).mpr
      ⟨(Sound.dryRun (hdry hnotExecute)).abortIssues_eq_nil,
        hevident.modeIssues_dryRun hnotExecute (by decide)⟩
    have hshape := hevident.shape henv hmeasured hceilings hids
    exact ⟨fun _ => .inl rfl, fun _ => ⟨hshape, hissues⟩⟩

/-! ## Samples -/

theorem runRealLoad_execute (hvalid : options.workspaceIds.length = sessionCount ∧
      options.workspaceIds.Nodup ∧ 1 ≤ options.maxInFlight ∧ options.maxInFlight ≤ 30)
    (hexecute : options.execute = true) (hlocal : env.localWorkspaces = none) :
    runRealLoad plus text options env =
      .ok (report options (runStages plus text options env 0 0 stageSizes {}).1
        (runStages plus text options env 0 0 stageSizes {}).2) := by
  obtain ⟨hlength, hnodup, hlow, hhigh⟩ := hvalid
  have hunresolved : (unresolved options env).length = 0 := by simp [unresolved, hlocal]
  have hflight : ¬(options.maxInFlight = 0 ∨ options.maxInFlight > sessionCount) :=
    not_or.mpr ⟨Nat.ne_of_gt hlow, not_lt.mpr hhigh⟩
  rw [runRealLoad, hnodup.dedup, hlength, if_neg (by simp), if_neg hflight, if_pos hexecute,
    hunresolved]
  rfl

/-- Thirty workspaces in chunks of at most fifteen. -/
def sampleOptions : Options where
  execute := true
  workspaceIds := (List.range 30).map fun position => "workspace-" ++ toString (position + 1)
  agent := "claude"
  launchTimeoutMs := 30000
  maxRssBytes := 1000
  maxCpuMs := 1000
  maxDescriptors := 100

/-- Every launch succeeds but that at a position. -/
def sampleEnvironment (failing : Option ℕ) : Environment where
  resources _ := { elapsedMs := 0, cpuUserMs := 1, cpuSystemMs := 1, rssBytes := 100
                   descriptors := some 10 }
  outcome position :=
    if failing = some position then .failed "launch failed" false
    else .launched ("session-" ++ toString (position + 1)) "terminal" 20

def sampleText (_ : ℚ) : String := "0"

theorem sampleOptions_valid : sampleOptions.workspaceIds.length = sessionCount ∧
    sampleOptions.workspaceIds.Nodup ∧ 1 ≤ sampleOptions.maxInFlight ∧
    sampleOptions.maxInFlight ≤ 30 := by
  refine ⟨by simp [sampleOptions, sessionCount], ?_, by decide, by decide⟩
  exact List.nodup_range.map fun i j h => numbered_injective h

theorem sampleEnvironment_attributed (failing : Option ℕ) :
    Attributed (sampleEnvironment failing) := by
  have hlaunched : ∀ i sessionId kind latencyMs,
      (sampleEnvironment failing).outcome i = .launched sessionId kind latencyMs →
        sessionId = "session-" ++ toString (i + 1) ∧ kind = "terminal" ∧ latencyMs = 20 := by
    intro i sessionId kind latencyMs h
    simp only [sampleEnvironment] at h
    split at h
    · cases h
    · cases h
      exact ⟨rfl, rfl, rfl⟩
  refine ⟨?_, ?_, ?_, ?_⟩
  · intro i j sessionId kind kind' latencyMs latencyMs' hi hj
    exact numbered_injective ((hlaunched _ _ _ _ hi).1.symm.trans (hlaunched _ _ _ _ hj).1)
  · intro i sessionId kind latencyMs h
    rw [(hlaunched _ _ _ _ h).1]
    simp
  · intro i sessionId kind latencyMs h
    exact .inl (hlaunched _ _ _ _ h).2.1
  · intro i sessionId kind latencyMs h
    rw [(hlaunched _ _ _ _ h).2.2]
    norm_num

theorem sampleEnvironment_measured (failing : Option ℕ) (i : ℕ) :
    Measured ((sampleEnvironment failing).resources i) := by
  refine ⟨by norm_num [sampleEnvironment], by norm_num [sampleEnvironment],
    by norm_num [sampleEnvironment], by norm_num [sampleEnvironment], ?_⟩
  intro descriptors hmem
  cases hmem
  exact ⟨10, by norm_num, by norm_num⟩

theorem sampleOptions_ids (workspaceId : String) (hmem : workspaceId ∈ sampleOptions.workspaceIds) :
    workspaceId ≠ "" := by
  obtain ⟨position, _, rfl⟩ := List.mem_map.mp hmem
  simp

/-- A run in which the last launch fails has nothing left to withhold, and is refused. -/
theorem last_failure_refused :
    runRealLoad (· + ·) sampleText sampleOptions (sampleEnvironment (some 29)) =
        .ok (report sampleOptions
          (runStages (· + ·) sampleText sampleOptions (sampleEnvironment (some 29)) 0 0 stageSizes
            {}).1
          (runStages (· + ·) sampleText sampleOptions (sampleEnvironment (some 29)) 0 0 stageSizes
            {}).2) ∧
      (0 < sampleOptions.maxRssBytes ∧ 0 < sampleOptions.maxCpuMs ∧
        0 < sampleOptions.maxDescriptors) ∧
      (∀ workspaceId ∈ sampleOptions.workspaceIds, workspaceId ≠ "") ∧
      Attributed (sampleEnvironment (some 29)) ∧
      (∀ i, Measured ((sampleEnvironment (some 29)).resources i)) ∧
      ¬ realSchema (· + ·) sampleText (report sampleOptions
          (runStages (· + ·) sampleText sampleOptions (sampleEnvironment (some 29)) 0 0 stageSizes
            {}).1
          (runStages (· + ·) sampleText sampleOptions (sampleEnvironment (some 29)) 0 0 stageSizes
            {}).2) := by
  have hvalid := sampleOptions_valid
  have henv := sampleEnvironment_attributed (some 29)
  have hsound := stagesSound_execute (· + ·) sampleText (sampleEnvironment (some 29)) hvalid
  have hevident := evident_execute (· + ·) sampleText (sampleEnvironment (some 29)) hvalid
  refine ⟨runRealLoad_execute hvalid rfl rfl, by norm_num [sampleOptions], sampleOptions_ids, henv,
    sampleEnvironment_measured (some 29), fun haccepted => ?_⟩
  have hmode := ((hevident.issues_eq_nil_iff henv).mp haccepted.2).2
  rcases (hevident.modeIssues_execute hsound.sound rfl hsound.complete).mp hmode with hgoing | hheld
  · revert hgoing
    decide +kernel
  · revert hheld
    decide +kernel

/-- A run in which every launch succeeds is accepted. -/
theorem realSchema_iff_sample :
    realSchema (· + ·) sampleText (report sampleOptions
      (runStages (· + ·) sampleText sampleOptions (sampleEnvironment none) 0 0 stageSizes {}).1
      (runStages (· + ·) sampleText sampleOptions (sampleEnvironment none) 0 0 stageSizes {}).2) := by
  refine (realSchema_iff (runRealLoad_execute sampleOptions_valid rfl rfl) ?_ sampleOptions_ids
    (sampleEnvironment_attributed none) (sampleEnvironment_measured none) ?_).mpr (.inl ?_)
  · norm_num [sampleOptions]
  · exact fun hdry => by cases hdry
  · decide +kernel

end AgentOrchestrator.Load
