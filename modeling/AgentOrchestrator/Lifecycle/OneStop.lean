import AgentOrchestrator.Lifecycle.Claims
import AgentOrchestrator.Lifecycle.StopIntent

/-!
# One stop call at a time

The claims of the store are meant to keep the stop calls of a run apart.  A release does not say
whose claim it drops, so one that comes late, a retry of a release that took effect although it was
reported as failed, drops the claim of the next claimant and lets a second stop call start
(`two_stops_in_flight`).  Where no release meets a claim in use, the stop calls of every run stay
apart (`one_stop_in_flight`).
-/

namespace AgentOrchestrator.Lifecycle

open Store

variable {env : Env}

/-! ## Stop calls -/

/-- The stop whose claim the task uses, until the outcome of its call is on file. -/
def Pc.held : Pc → Option Stop
  | .queued x | .stopping x | .rejected x | .acknowledged x => some x
  | _ => none

/-- The stop whose claim the task uses or is about to release. -/
def Pc.owed : Pc → Option Stop
  | .releasing x => some x
  | pc => pc.held

/-- The stop whose `adapter.cancel` the task waits for. -/
def Pc.inFlight : Pc → Option Stop
  | .stopping x => some x
  | _ => none

/-- The stop of a background call that has not settled. -/
def Background.inFlight (b : Background) : Option Stop := if b.settled then none else some b.stop

/-- The claims in use, on the left those of tasks and on the right those of background calls. -/
def System.held (sys : System) : ℕ ⊕ ℕ → Option Stop
  | .inl t => (sys.tasks t).bind Pc.held
  | .inr t => (sys.background t).bind Background.inFlight

/-- The calls of `adapter.cancel` in flight. -/
def System.inFlight (sys : System) : ℕ ⊕ ℕ → Option Stop
  | .inl t => (sys.tasks t).bind Pc.inFlight
  | .inr t => (sys.background t).bind Background.inFlight

/-- A claim on the session is in use. -/
def System.Busy (sys : System) (sessionId : String) : Prop :=
  ∃ p x, sys.held p = some x ∧ x.sessionId = sessionId

/-- A claim is released only while none on its session is in use, and claims are recovered only
while none at all is in use. -/
def Orderly (sys : System) : Act → Prop
  | .resume t (.store ..) => ∀ x, sys.tasks t = some (.releasing x) → ¬ sys.Busy x.sessionId
  | .release t _ => ∀ x, sys.background t = some ⟨x, true⟩ → ¬ sys.Busy x.sessionId
  | .recoverLifecycleDeliveryClaims _ => ∀ sessionId, ¬ sys.Busy sessionId
  | _ => True

theorem stop_of_owed {pc : Pc} {x : Stop} (h : pc.owed = some x) : pc.stop = some x := by
  cases pc <;> cases h <;> rfl

theorem owed_of_held {pc : Pc} {x : Stop} (h : pc.held = some x) : pc.owed = some x := by
  cases pc <;> cases h <;> rfl

theorem held_of_inFlight {sys : System} {p : ℕ ⊕ ℕ} {x : Stop} (h : sys.inFlight p = some x) :
    sys.held p = some x := by
  cases p with
  | inl t =>
    obtain ⟨pc, hpc, hx⟩ := Option.bind_eq_some_iff.1 h
    refine Option.bind_eq_some_iff.2 ⟨pc, hpc, ?_⟩
    cases pc <;> cases hx
    rfl
  | inr t => exact h

theorem inFlight_background {b : Background} {x : Stop} (h : b.inFlight = some x) :
    b = ⟨x, false⟩ := by
  obtain ⟨stop, settled⟩ := b
  cases settled with
  | false => obtain rfl := Option.some.inj h; rfl
  | true => cases h

/-- A claim in use is on the bound run of its session. -/
theorem bound_of_held {sys : System} (h : Steady env sys) {p : ℕ ⊕ ℕ} {x : Stop}
    (hp : sys.held p = some x) : BoundTo (contents sys.disk) x.sessionId x.runId := by
  cases p with
  | inl t =>
    obtain ⟨pc, hpc, hx⟩ := Option.bind_eq_some_iff.1 hp
    exact h.tasks t pc x hpc (stop_of_owed (owed_of_held hx))
  | inr t =>
    obtain ⟨b, hb, hx⟩ := Option.bind_eq_some_iff.1 hp
    obtain rfl := inFlight_background hx
    exact h.background t _ hb

/-! ## Where claims in use come from -/

/-- A task makes a claim. -/
def Claims (env : Env) (disk : Disk) (pc : Pc) (input : Input) (x : Stop) : Prop :=
  ∃ now io w claim, pc = .claiming x ∧ input = .store now io ∧
    (update env x.sessionId x.caller.claim io disk).2 = .ok (w, claim) ∧ claim.claimed = true

/-- Of the calls to the store only the claim leaves a claim in use. -/
theorem held_after_call {pc pc' : Pc} {input : Input} {disk : Disk} {i : Call × WriteOutcome}
    {x : Stop} (hi : pc.storeCall input = some i) (h : (pc.resume env disk input).pc = some pc')
    (hx : pc'.held = some x) : Claims env disk pc input x := by
  cases pc with
  | requesting id reason detail =>
    cases input with
    | store now io =>
      simp only [Pc.resume] at h
      split at h
      · cases h
      · split_ifs at h
        obtain ⟨runId, -, rfl⟩ := Option.map_eq_some_iff.1 h
        cases hx
    | _ => cases hi
  | claiming y =>
    cases input with
    | store now io =>
      simp only [Pc.resume] at h
      split at h
      · cases h
      · rename_i w claim hr
        split_ifs at h with hclaimed
        · obtain rfl := Option.some.inj h
          obtain rfl := Option.some.inj hx
          exact ⟨now, io, w, claim, rfl, rfl, hr, hclaimed⟩
        · obtain rfl := Option.some.inj h
          cases hx
    | _ => cases hi
  | rejected y =>
    cases input with
    | store now io =>
      simp only [Pc.resume] at h
      split at h
      · obtain rfl := Option.some.inj h
        cases hx
      · split_ifs at h
        obtain rfl := Option.some.inj h
        cases hx
    | _ => cases hi
  | acknowledged y =>
    cases input with
    | store now io =>
      simp only [Pc.resume] at h
      split at h <;> obtain rfl := Option.some.inj h <;> cases hx
    | _ => cases hi
  | releasing y =>
    cases input with
    | store now io =>
      simp only [Pc.resume] at h
      split at h
      · cases h
      · obtain rfl := afterFailure_eq h
        cases hx
    | _ => cases hi
  | settling y observed claim keep =>
    cases input with
    | store now io => cases h
    | _ => cases hi
  | _ => cases input <;> cases hi

/-- Without a call to the store, a claim in use was in use. -/
theorem held_of_no_call {pc pc' : Pc} {input : Input} {disk : Disk} {x : Stop}
    (hi : pc.storeCall input = none) (h : (pc.resume env disk input).pc = some pc')
    (hx : pc'.held = some x) : pc.held = some x := by
  have hcontinues := resume_continues h
  clear h
  cases hcontinues with
  | waiting => exact hx
  | claimed => cases hi
  | granted => exact hx
  | acknowledged => exact hx
  | unsupported => exact hx
  | _ => cases hx

/-- The step that takes a claim in use to a claim in use: the claim stays where it is, or its call
times out and goes on in the background.  The task makes no call to the store. -/
structure Carries (env : Env) (sys : System) (act : Act) (p₀ p : ℕ ⊕ ℕ) : Prop where
  place : p = p₀ ∨ ∃ t, p₀ = .inl t ∧ p = .inr t ∧ (step env sys act).held (.inl t) = none
  call : ∀ t input pc, act = .resume t input → sys.tasks t = some pc → p₀ = .inl t →
    pc.storeCall input = none

/-- Two claims in use come from different ones. -/
theorem Carries.injective {sys : System} {act : Act} {p₀ p q : ℕ ⊕ ℕ} {x y : Stop}
    (hp : Carries env sys act p₀ p) (hq : Carries env sys act p₀ q)
    (hx : (step env sys act).held p = some x) (hy : (step env sys act).held q = some y) : p = q := by
  rcases hp.place with rfl | ⟨t, ht, rfl, hnone⟩ <;> rcases hq.place with rfl | ⟨t', ht', rfl, hnone'⟩
  · rfl
  · subst ht'
    cases hnone'.symm.trans hx
  · subst ht
    cases hnone.symm.trans hy
  · obtain rfl := Sum.inl.inj (ht.symm.trans ht')
    rfl

/-- A claim in use was in use before the step, or was made by it. -/
theorem held_origin {sys : System} {act : Act} {p : ℕ ⊕ ℕ} {x : Stop}
    (h : (step env sys act).held p = some x) :
    (∃ p₀, sys.held p₀ = some x ∧ Carries env sys act p₀ p) ∨
      ∃ t input pc, p = .inl t ∧ act = .resume t input ∧ sys.tasks t = some pc ∧
        Claims env sys.disk pc input x := by
  cases p with
  | inl t =>
    obtain ⟨pc, hpc, hx⟩ := Option.bind_eq_some_iff.1 h
    rcases task_origin hpc with ⟨hold, hact⟩ | ⟨supported, sessionId, reason, detail, rfl⟩ |
        ⟨k, sw, w, supported, -, -, hopen⟩ | ⟨input, pc₀, rfl, hpc₀, hnext⟩
    · refine Or.inl ⟨.inl t, Option.bind_eq_some_iff.2 ⟨pc, hold, hx⟩, Or.inl rfl, ?_⟩
      rintro t' input pc' rfl - e
      obtain rfl := Sum.inl.inj e
      exact absurd rfl (hact input)
    · cases hx
    · obtain ⟨-, -, rfl | rfl⟩ := stop_opening hopen (stop_of_owed (owed_of_held hx)) <;> cases hx
    · cases hi : pc₀.storeCall input with
      | none =>
        have hheld := held_of_no_call hi hnext hx
        refine Or.inl ⟨.inl t, Option.bind_eq_some_iff.2 ⟨pc₀, hpc₀, hheld⟩, Or.inl rfl, ?_⟩
        rintro t' input' pc' e hpc' -
        obtain ⟨rfl, rfl⟩ := Act.resume.inj e
        obtain rfl := Option.some.inj (hpc₀.symm.trans hpc')
        exact hi
      | some i => exact Or.inr ⟨t, input, pc₀, rfl, rfl, hpc₀, held_after_call hi hnext hx⟩
  | inr t =>
    obtain ⟨b, hb, hx⟩ := Option.bind_eq_some_iff.1 h
    rcases background_origin hb with ⟨b₀, hb₀, -, hsame⟩ | ⟨input, pc, y, rfl, hpc, hy, rfl⟩
    · obtain rfl := inFlight_background hx
      obtain rfl := hsame rfl
      refine Or.inl ⟨.inr t, Option.bind_eq_some_iff.2 ⟨_, hb₀, hx⟩, Or.inl rfl, ?_⟩
      intro t' input pc _ _ e
      cases e
    · obtain rfl := Option.some.inj hx
      obtain ⟨rfl, hnext⟩ := resume_background hy
      refine Or.inl ⟨.inl t, Option.bind_eq_some_iff.2 ⟨_, hpc, rfl⟩,
        Or.inr ⟨t, rfl, rfl, ?_⟩, ?_⟩
      · -- The task looks at the run or is over.
        rw [step_resume hpc]
        show (Function.update sys.tasks t _ t).bind Pc.held = none
        rw [Function.update_self, hnext]
        unfold Stop.afterFailure
        split <;> rfl
      · rintro t' input' pc' e hpc' -
        obtain ⟨rfl, rfl⟩ := Act.resume.inj e
        obtain rfl := Option.some.inj (hpc.symm.trans hpc')
        cases input <;> rfl

/-! ## The invariant -/

/-- The session is over. -/
def Ended (s : DurableState) (sessionId : String) : Prop :=
  ∃ w, s.worker? sessionId = some w ∧ w.status.isTerminal = true

theorem Ended.system {sys : System} (h : Steady env sys) {sessionId : String}
    (he : Ended (contents sys.disk) sessionId) (act : Act) :
    Ended (contents (Lifecycle.step env sys act).disk) sessionId := by
  rcases @step_disk env sys act with hd | ⟨i, -, hd⟩
  · rw [hd]
    exact he
  · obtain ⟨w, hw, hterm⟩ := he
    obtain ⟨w', hw', hrewrites⟩ := step_version h.valid i hw
    refine ⟨w', by rw [hd]; exact hw', ?_⟩
    rw [(hrewrites.later.outcome hterm).status]
    exact hterm

/-- **The invariant behind exclusion.** -/
structure Exclusive (sys : System) : Prop where
  marked : ∀ w ∈ (contents sys.disk).workers, Marked w
  owed : ∀ t pc x, sys.tasks t = some pc → pc.owed = some x → x.caller.delivers = false →
    Ended (contents sys.disk) x.sessionId
  background : ∀ t b, sys.background t = some b → b.stop.caller.delivers = false →
    Ended (contents sys.disk) b.stop.sessionId
  reserved : ∀ p x, sys.held p = some x →
    ∃ w, (contents sys.disk).worker? x.sessionId = some w ∧ Reserved w
  unique : ∀ p q x y, sys.held p = some x → sys.held q = some y → x.sessionId = y.sessionId → p = q

/-- A claim is made on a worker that is not reserved, and reserves it. -/
theorem Claims.spec {sys : System} (h : Exclusive sys) {t : ℕ} {pc : Pc} {input : Input} {x : Stop}
    (ht : sys.tasks t = some pc) (hclaims : Claims env sys.disk pc input x) :
    (∃ w, (contents sys.disk).worker? x.sessionId = some w ∧ ¬ Reserved w) ∧
    ∃ w', (contents (step env sys (.resume t input)).disk).worker? x.sessionId = some w' ∧
      Reserved w' ∧ (x.caller.delivers = false → w'.status.isTerminal = true) := by
  obtain ⟨now, io, w', claim, rfl, rfl, hr, hclaimed⟩ := hclaims
  obtain ⟨w, hw, happly, hfile⟩ := update_ok hr
  have hmarked := h.marked w (Keyed.mem_of_lookup hw)
  rw [step_resume ht]
  unfold Caller.claim at happly
  cases hdelivers : x.caller.delivers with
  | true =>
    rw [hdelivers, if_pos rfl] at happly
    obtain ⟨rfl, rfl⟩ := Prod.mk.inj (Except.ok.inj happly)
    obtain ⟨hpending, hreserved⟩ := (claimCancellationDelivery_spec hmarked).2 hclaimed
    refine ⟨⟨w, hw, fun hres => ?_⟩, _, hfile, hreserved, nofun⟩
    cases hres.pending.symm.trans hpending
  | false =>
    rw [hdelivers, if_neg Bool.false_ne_true] at happly
    obtain ⟨rfl, rfl⟩ := Prod.mk.inj (Except.ok.inj happly)
    obtain ⟨hpending, hreserved⟩ := (claimProviderStop_spec hmarked).2 hclaimed
    refine ⟨⟨w, hw, fun hres => ?_⟩, _, hfile, hreserved, fun _ => ?_⟩
    · cases hres.stopPending.symm.trans hpending
    · have hlater := WorkerUpdate.later happly
      rw [(hlater.outcome (hmarked.stopPending hpending)).status]
      exact hmarked.stopPending hpending

theorem terminalStatusFor_known (observed : TerminalRunStatus) :
    terminalStatusFor observed ≠ .unknownOutcome := by
  cases observed <;> exact nofun

/-- A release keeps the flags in line with the status of its session. -/
theorem marking_release {s : DurableState} {x : Stop}
    (h : x.caller.delivers = false → Ended s x.sessionId) (hs : (s.workers.map (·.id)).Nodup) :
    Marking s (.updateWorker x.sessionId x.caller.release) := by
  unfold Caller.release
  cases hdelivers : x.caller.delivers with
  | true => exact trivial
  | false =>
    intro w hw hid
    obtain ⟨v, hv, hterm⟩ := h hdelivers
    obtain rfl : w = v := Keyed.eq_of_key hs hw (Keyed.mem_of_lookup hv)
      (hid.trans (Keyed.key_of_lookup hv).symm)
    exact hterm

theorem marking_stop (s : DurableState) (workerId : String) (caller : Caller) :
    Marking s (.updateWorker workerId caller.claim) ∧
      Marking s (.updateWorker workerId caller.reject) ∧
      Marking s (.updateWorker workerId caller.deliver) := by
  cases caller <;> exact ⟨trivial, trivial, trivial⟩

theorem Issues.marking {sys : System} (hs : Steady env sys) (h : Exclusive sys) {act : Act}
    {i : Call × WriteOutcome} (hi : Issues env sys act i) : Marking (contents sys.disk) i.1 := by
  cases hi with
  | @other c io hother hfresh hc =>
    cases c with
    | updateWorker id u =>
      cases u with
      | setWorkerDeadline deadline => trivial
      | _ => cases hother
    | recordWorkerResult id succeeded result completedAt => cases hother
    | _ => trivial
  | @dispatched d input f i hf hi =>
    generalize f.pc = pc at hi
    cases pc <;> cases input <;> cases hi <;> trivial
  | expired => trivial
  | @resumed t input pc c io ht hi hasks =>
    cases hasks with
    | requested => trivial
    | @claimed x => exact (marking_stop _ _ x.caller).1
    | @rejected x => exact (marking_stop _ _ x.caller).2.1
    | @delivered x => exact (marking_stop _ _ x.caller).2.2
    | @released x => exact marking_release (h.owed t _ x ht rfl) hs.valid.uniqueWorkers
    | settled => exact terminalStatusFor_known _
  | released ht => exact marking_release (h.background _ _ ht) hs.valid.uniqueWorkers
  | recovered => trivial

/-- An orderly step leaves a session reserved, unless it is made under the claim on it. -/
theorem Issues.sparing {sys : System} (hs : Steady env sys) (h : Exclusive sys) {act : Act}
    (hact : Orderly sys act) {p₀ p : ℕ ⊕ ℕ} {x : Stop} (hp : sys.held p₀ = some x)
    (hcarries : Carries env sys act p₀ p) {i : Call × WriteOutcome} (hi : Issues env sys act i) :
    Sparing (contents sys.disk) x.sessionId i.1 := by
  -- The call of a task that uses a claim is on another session.
  have hown : ∀ t input pc y i, act = .resume t input → sys.tasks t = some pc →
      pc.held = some y → pc.storeCall input = some i → y.sessionId ≠ x.sessionId := by
    intro t input pc y i hresume ht hy hcall hsession
    have hplace := h.unique (.inl t) p₀ y x (Option.bind_eq_some_iff.2 ⟨pc, ht, hy⟩) hp hsession
    cases (hcarries.call t input pc hresume ht hplace.symm).symm.trans hcall
  cases hi with
  | @other c io hother hfresh hc =>
    cases c with
    | updateWorker id u =>
      cases u with
      | setWorkerDeadline deadline => exact fun _ => trivial
      | _ => cases hother
    | recordWorkerResult id succeeded result completedAt => cases hother
    | recordLaunchEvent id target event audit uuid => cases hother
    | recoverLifecycleDeliveryClaims => cases hother
    | _ => trivial
  | @dispatched d input f i hf hi =>
    have hbound : ∀ {id : String} {target : LaunchTarget}, ∀ a,
        (contents sys.disk).assignment? id = some a → launchAllowed a.status target = true →
          a.sessionId ≠ x.sessionId := by
      intro id target a ha hallowed hsession
      obtain ⟨w, hw, hrun⟩ := bound_of_held hs hp
      have hnone := unbound_of_allowed hs ha hallowed (Keyed.mem_of_lookup hw)
        ((Keyed.key_of_lookup hw).trans hsession.symm)
      cases hnone.symm.trans hrun
    generalize f.pc = pc at hi
    cases pc <;> cases input <;> cases hi <;> first | trivial | exact hbound
  | expired => exact fun _ => trivial
  | @resumed t input pc c io ht hi hasks =>
    cases hasks with
    | requested => exact fun _ => trivial
    | @claimed y =>
      intro _
      cases y.caller <;> trivial
    | @rejected y => exact fun e => absurd e (hown t input _ y _ rfl ht rfl hi)
    | @delivered y => exact fun e => absurd e (hown t input _ y _ rfl ht rfl hi)
    | @released y =>
      intro e
      cases input with
      | store now io' => exact absurd ⟨p₀, x, hp, e.symm⟩ (hact y ht)
      | _ => cases hi
    | settled => exact fun _ => terminalStatusFor_known _
  | released ht => exact fun e => absurd ⟨p₀, x, hp, e.symm⟩ (hact _ ht)
  | recovered => exact absurd ⟨p₀, x, hp, rfl⟩ (hact x.sessionId)

/-! ## Steps -/

theorem marked_step {sys : System} (hs : Steady env sys) (h : Exclusive sys) (act : Act) {w' : Worker}
    (hw' : w' ∈ (contents (step env sys act).disk).workers) : Marked w' := by
  rcases @step_disk env sys act with hd | ⟨i, hi, hd⟩
  · rw [hd] at hw'
    exact h.marked w' hw'
  rw [hd] at hw'
  rcases step_origin hw' with ⟨w, hw, hrewrites⟩ | hadded
  · exact (h.marked w hw).rewritten (hi.marking hs h) hw hrewrites
  · exact (hi.fresh hadded).marked

theorem owed_step {sys : System} (hs : Steady env sys) (h : Exclusive sys) (act : Act) {t : ℕ}
    {pc : Pc} {x : Stop} (ht : (step env sys act).tasks t = some pc) (hx : pc.owed = some x)
    (hdelivers : x.caller.delivers = false) :
    Ended (contents (step env sys act).disk) x.sessionId := by
  rcases task_origin ht with ⟨hold, -⟩ | ⟨supported, sessionId, reason, detail, rfl⟩ |
      ⟨k, sw, w, supported, -, -, hopen⟩ | ⟨input, pc₀, rfl, hpc₀, hnext⟩
  · exact (h.owed t pc x hold hx hdelivers).system hs act
  · cases hx
  · obtain ⟨-, -, rfl | rfl⟩ := stop_opening hopen (stop_of_owed hx) <;> cases hx
  -- A task owes the release of a claim that it owed before or has just made.
  have hold : pc₀.owed = some x → Ended (contents (step env sys (.resume t input)).disk) x.sessionId :=
    fun howed => (h.owed t pc₀ x hpc₀ howed hdelivers).system hs _
  have hcontinues := resume_continues hnext
  cases hcontinues with
  | waiting => exact hold hx
  | @claimed y now io w claim hr hclaimed =>
    obtain rfl := Option.some.inj hx
    have hclaims : Claims env sys.disk (.claiming y) (.store now io) y :=
      ⟨now, io, w, claim, rfl, rfl, hr, hclaimed⟩
    obtain ⟨-, w', hw', -, hterm⟩ := hclaims.spec h hpc₀
    exact ⟨w', hw', hterm hdelivers⟩
  | granted => exact hold hx
  | acknowledged => exact hold hx
  | unsupported => exact hold hx
  | failed hpc => rcases hpc with rfl | rfl | rfl | rfl <;> exact hold hx
  | _ => cases hx

theorem background_step {sys : System} (hs : Steady env sys) (h : Exclusive sys) (act : Act) {t : ℕ}
    {b : Background} (hb : (step env sys act).background t = some b)
    (hdelivers : b.stop.caller.delivers = false) :
    Ended (contents (step env sys act).disk) b.stop.sessionId := by
  rcases background_origin hb with ⟨b₀, hb₀, hstop, -⟩ | ⟨input, pc, x, rfl, hpc, hx, rfl⟩
  · rw [hstop] at hdelivers ⊢
    exact (h.background t b₀ hb₀ hdelivers).system hs act
  · obtain ⟨rfl, -⟩ := resume_background hx
    exact (h.owed t _ x hpc rfl hdelivers).system hs _

theorem reserved_step {sys : System} (hs : Steady env sys) (h : Exclusive sys) {act : Act}
    (hact : Orderly sys act) {p : ℕ ⊕ ℕ} {x : Stop} (hp : (step env sys act).held p = some x) :
    ∃ w, (contents (step env sys act).disk).worker? x.sessionId = some w ∧ Reserved w := by
  rcases held_origin hp with ⟨p₀, hp₀, hcarries⟩ | ⟨t, input, pc, -, rfl, hpc, hclaims⟩
  · obtain ⟨w, hw, hreserved⟩ := h.reserved p₀ x hp₀
    rcases @step_disk env sys act with hd | ⟨i, hi, hd⟩
    · rw [hd]
      exact ⟨w, hw, hreserved⟩
    · obtain ⟨w', hw', hrewrites⟩ := step_version hs.valid i hw
      have hsparing := hi.sparing hs h hact hp₀ hcarries
      rw [← Keyed.key_of_lookup hw] at hsparing
      rw [hd]
      exact ⟨w', hw', hreserved.rewritten hsparing hrewrites⟩
  · obtain ⟨-, w', hw', hreserved, -⟩ := hclaims.spec h hpc
    exact ⟨w', hw', hreserved⟩

/-- No claim is made on a session while a claim on it is in use. -/
theorem Claims.not_held {sys : System} (h : Exclusive sys) {t : ℕ} {pc : Pc} {input : Input}
    {x y : Stop} (ht : sys.tasks t = some pc) (hclaims : Claims env sys.disk pc input x)
    {p : ℕ ⊕ ℕ} (hp : sys.held p = some y) : y.sessionId ≠ x.sessionId := by
  intro hsession
  obtain ⟨⟨w, hw, hfree⟩, -⟩ := hclaims.spec h ht
  obtain ⟨v, hv, hreserved⟩ := h.reserved p y hp
  rw [hsession] at hv
  obtain rfl := Option.some.inj (hw.symm.trans hv)
  exact hfree hreserved

theorem unique_step {sys : System} (h : Exclusive sys) {act : Act} {p q : ℕ ⊕ ℕ} {x y : Stop}
    (hp : (step env sys act).held p = some x) (hq : (step env sys act).held q = some y)
    (hsession : x.sessionId = y.sessionId) : p = q := by
  rcases held_origin hp with ⟨p₀, hp₀, hcarries⟩ | ⟨t, input, pc, rfl, rfl, hpc, hclaims⟩ <;>
    rcases held_origin hq with ⟨q₀, hq₀, hcarries'⟩ | ⟨t', input', pc', rfl, e, hpc', hclaims'⟩
  · obtain rfl := h.unique p₀ q₀ x y hp₀ hq₀ hsession
    exact hcarries.injective hcarries' hp hq
  · exact absurd hsession (hclaims'.not_held h hpc' hp₀)
  · exact absurd hsession.symm (hclaims.not_held h hpc hq₀)
  · rw [(Act.resume.inj e).1]

theorem exclusive_step {sys : System} (hs : Steady env sys) (h : Exclusive sys) {act : Act}
    (hact : Orderly sys act) : Exclusive (step env sys act) where
  marked _ hw := marked_step hs h act hw
  owed _ _ _ ht hx hdelivers := owed_step hs h act ht hx hdelivers
  background _ _ hb hdelivers := background_step hs h act hb hdelivers
  reserved _ _ hp := reserved_step hs h hact hp
  unique _ _ _ _ hp hq hsession := unique_step h hp hq hsession

theorem exclusive_init : Exclusive {} where
  marked _ hw := nomatch hw
  owed _ _ _ ht := nomatch ht
  background _ _ hb := nomatch hb
  reserved p _ hp := by cases p <;> cases hp
  unique p _ _ _ hp := by cases p <;> cases hp

/-! ## Runs -/

/-- The provider gave the sessions on file different runs. -/
def DistinctRuns (s : DurableState) : Prop :=
  ∀ w ∈ s.workers, ∀ v ∈ s.workers, ∀ r, w.runId = some r → v.runId = some r → w.id = v.id

/-- **At most one stop call for a run is in flight.** When every release comes while no claim on its
session is in use, every recovery while none is in use, and no two sessions share a run, then in
every state of the run two stop calls in flight for one run are the same. -/
theorem one_stop_in_flight {acts : List Act}
    (hacts : Runs.Admissible (step env) Orderly {} acts)
    (hruns : DistinctRuns (contents (Runs.run (step env) {} acts).disk)) {p q : ℕ ⊕ ℕ} {x y : Stop}
    (hp : (Runs.run (step env) {} acts).inFlight p = some x)
    (hq : (Runs.run (step env) {} acts).inFlight q = some y) (hrun : x.runId = y.runId) : p = q := by
  have hinvariant : Steady env (Runs.run (step env) {} acts) ∧
      Exclusive (Runs.run (step env) {} acts) :=
    Runs.run_invariant_of (step env) (P := fun sys => Steady env sys ∧ Exclusive sys)
      (fun sys act hsys hact => ⟨steady_step hsys.1 act, exclusive_step hsys.1 hsys.2 hact⟩)
      ⟨steady_init, exclusive_init⟩ hacts
  generalize Runs.run (step env) {} acts = sys at hruns hp hq hinvariant
  obtain ⟨hs, h⟩ := hinvariant
  obtain ⟨w, hw, hwrun⟩ := bound_of_held hs (held_of_inFlight hp)
  obtain ⟨v, hv, hvrun⟩ := bound_of_held hs (held_of_inFlight hq)
  have hsession : x.sessionId = y.sessionId := by
    rw [← Keyed.key_of_lookup hw, ← Keyed.key_of_lookup hv]
    rw [← hrun] at hvrun
    exact hruns w (Keyed.mem_of_lookup hw) v (Keyed.mem_of_lookup hv) x.runId hwrun hvrun
  exact h.unique p q x y (held_of_inFlight hp) (held_of_inFlight hq) hsession

/-- A store call that succeeds. -/
def stored : Input := .store "2026-01-02" .written

/-- The sample session is canceled, and its stop call is in flight. -/
def sampleStopping : List Act :=
  sampleLaunched ++
    [.cancelSession 0 true "s1" "user_requested" none, .resume 0 .read, .resume 0 stored,
      .resume 0 stored, .resume 0 (.slot true)]

/-- The stop call times out and goes on in the background, and a reconciliation begins. -/
def sampleTimedOut : List Act :=
  sampleStopping ++ [.resume 0 (.timeout false), .sweep 0 .reconcileCancellations "2026-01-03",
    .begin 0 1 true]

/-- The step makes no release and no recovery. -/
def Unreleased (sys : System) : Act → Bool
  | .resume t (.store ..) => match sys.tasks t with
    | some (.releasing _) => false
    | _ => true
  | .release .. | .recoverLifecycleDeliveryClaims _ => false
  | _ => true

theorem Unreleased.orderly {sys : System} {act : Act} (h : Unreleased sys act = true) :
    Orderly sys act := by
  cases act with
  | resume t input =>
    cases input with
    | store now io =>
      intro x ht
      unfold Unreleased at h
      dsimp only at h
      rw [ht] at h
      cases h
    | _ => trivial
  | release t io => cases h
  | recoverLifecycleDeliveryClaims io => cases h
  | _ => trivial

theorem one_stop_in_flight_sample : ∃ x,
    (Runs.run (step plainEnv) {} sampleTimedOut).inFlight (.inr 0) = some x ∧ x.runId = "run-1" ∧
    ∀ q y, (Runs.run (step plainEnv) {} sampleTimedOut).inFlight q = some y → y.runId = "run-1" →
      q = .inr 0 := by
  have hquiet : Runs.Admissible (step plainEnv) (fun sys act => Unreleased sys act = true) {}
      sampleTimedOut := by decide +kernel
  have hacts : Runs.Admissible (step plainEnv) Orderly {} sampleTimedOut :=
    Runs.admissible_mono (step plainEnv) (fun _ _ h => Unreleased.orderly h) hquiet
  have hworkers : ∀ w ∈ (contents (Runs.run (step plainEnv) {} sampleTimedOut).disk).workers,
      w.id = "s1" := by decide +kernel
  have hruns : DistinctRuns (contents (Runs.run (step plainEnv) {} sampleTimedOut).disk) :=
    fun w hw v hv _ _ _ => (hworkers w hw).trans (hworkers v hv).symm
  have hflight : ((Runs.run (step plainEnv) {} sampleTimedOut).inFlight (.inr 0)).map (·.runId) =
      some "run-1" := by decide +kernel
  obtain ⟨x, hx, hrun⟩ := Option.map_eq_some_iff.1 hflight
  exact ⟨x, hx, hrun, fun q y hy hyrun =>
    one_stop_in_flight hacts hruns hy hx (hyrun.trans hrun.symm)⟩

/-- The stop call settles, its release takes effect but is reported as failed, a reconciliation
claims the delivery and its stop call is in flight.  The retry of the release drops that claim, and
the next reconciliation makes a second stop call. -/
def sampleReleasedTwice : List Act :=
  sampleStopping ++
    [.resume 0 (.timeout false), .settle 0, .release 0 .failedAfterRename,
      .sweep 0 .reconcileCancellations "2026-01-03", .begin 0 1 true, .resume 1 stored,
      .resume 1 (.slot true), .release 0 .written, .sweep 1 .reconcileCancellations "2026-01-03",
      .begin 1 2 true, .resume 2 stored, .resume 2 (.slot true)]

/-- Two stop calls for one run are in flight, of different tasks, and nothing was recovered. -/
theorem two_stops_in_flight :
    (∀ io, .recoverLifecycleDeliveryClaims io ∉ sampleReleasedTwice) ∧
    ∃ x y, (Runs.run (step plainEnv) {} sampleReleasedTwice).inFlight (.inl 1) = some x ∧
      (Runs.run (step plainEnv) {} sampleReleasedTwice).inFlight (.inl 2) = some y ∧
      x.runId = y.runId := by
  have hfirst : ((Runs.run (step plainEnv) {} sampleReleasedTwice).inFlight (.inl 1)).map (·.runId) =
      some "run-1" := by decide +kernel
  have hsecond : ((Runs.run (step plainEnv) {} sampleReleasedTwice).inFlight (.inl 2)).map
      (·.runId) = some "run-1" := by decide +kernel
  refine ⟨fun io hmem => ?_, ?_⟩
  · simp [sampleReleasedTwice, sampleStopping, sampleLaunched, Launch.sampleReserved] at hmem
  · obtain ⟨x, hx, hrun⟩ := Option.map_eq_some_iff.1 hfirst
    obtain ⟨y, hy, hrun'⟩ := Option.map_eq_some_iff.1 hsecond
    exact ⟨x, y, hx, hy, hrun.trans hrun'.symm⟩

end AgentOrchestrator.Lifecycle
