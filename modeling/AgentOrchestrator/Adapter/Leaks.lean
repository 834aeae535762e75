import AgentOrchestrator.Adapter.Ownership

/-!
# Permits that nobody holds

A permit leaks when its id stays active in the scheduler and no map and no call of the adapter
holds it.  `recover` drops a permit in two ways: it removes the entry of `unresolvedLaunches`
before it finds that the run of the lookup belongs to another key, and it removes an entry that
was made while it awaited an absent run.  `covered_iff_unleaked` says that these are the only ways.
-/

namespace AgentOrchestrator.Limited

open Scheduler Runs

variable {policy : ConcurrencyPolicy} {hooked : Bool} {s s' : State}

/-! ## Covered ids -/

/-- The id is held in some place. -/
def State.Holds (s : State) (id : String) : Prop :=
  ∃ x h, s.held x = some h ∧ h.idempotencyKey = id

/-- Every id active in the scheduler is held. -/
def Covered (s : State) : Prop := ∀ r ∈ s.scheduler.active, s.Holds r.id

/-- Every other id active in the scheduler is held. -/
def CoveredBut (id : String) (s : State) : Prop :=
  ∀ r ∈ s.scheduler.active, r.id ≠ id → s.Holds r.id

theorem held_other {c : ℕ} {next : Option Call} {x : Place} {h : HeldPermit}
    (hx : s.held x = some h) (hne : x ≠ .call c) :
    ({ s with calls := Function.update s.calls c next } : State).held x = some h := by
  rw [held_calls, if_neg hne, hx]

/-- A call that is not there holds nothing. -/
theorem ne_of_uncalled {c : ℕ} (hc : s.calls c = none) {x : Place} {h : HeldPermit}
    (hx : s.held x = some h) : x ≠ .call c := by
  rintro rfl
  have hx : (s.calls c).bind _ = some h := hx
  rw [hc] at hx
  cases hx

/-- What is held stays held under its key. -/
theorem Covered.keep (hs : Covered s)
    (hactive : ∀ r ∈ s'.scheduler.active, r ∈ s.scheduler.active)
    (hheld : ∀ x h, s.held x = some h → s'.Holds h.idempotencyKey) : Covered s' := by
  intro r hr
  obtain ⟨x, h, hx, hkey⟩ := hs r (hactive r hr)
  rw [← hkey]
  exact hheld x h hx

/-! ## The scheduler -/

/-- What becomes of the head of the queue takes nothing away from the calls. -/
theorem held_settle (hs : Sound s) {pending : PendingRequest} {rest : List PendingRequest}
    (hqueue : s.scheduler.queue = pending :: rest) {scheduler : Scheduler.State}
    (hlog : ∀ t, pending.ticket ≠ t →
      settlement t scheduler.log = settlement t s.scheduler.log)
    {x : Place} {h : HeldPermit} (hx : s.held x = some h) :
    ({ s with scheduler := scheduler } : State).held x = some h := by
  cases x with
  | run runId => exact hx
  | launch key => exact hx
  | recovery key => exact hx
  | call c =>
    have hbind : (s.calls c).bind (Call.held s.scheduler.log s.unresolvedRecoveries) = some h := hx
    show (s.calls c).bind (Call.held scheduler.log s.unresolvedRecoveries) = some h
    cases hc : s.calls c with
    | none =>
      rw [hc] at hbind
      cases hbind
    | some call =>
      rw [hc, Option.bind_some] at hbind
      rw [Option.bind_some]
      cases call with
      | acquiring k t =>
        have ht : pending.ticket ≠ t := by
          rintro rfl
          rw [Call.held, (hs.owned.accounts.queued pending (by simp [hqueue])).2] at hbind
          cases hbind
        rw [Call.held, hlog t ht]
        exact hbind
      | _ => exact hbind

/-- The call at the head of the queue holds the permit it is given. -/
theorem Covered.admitHead (hc : Covered s) (hs : Sound s) {pending : PendingRequest}
    {rest : List PendingRequest} (hqueue : s.scheduler.queue = pending :: rest) :
    Covered { s with scheduler := admitHead pending rest s.scheduler } := by
  intro r hr
  rcases mem_setActive hr with hr | rfl
  · obtain ⟨x, h, hx, hkey⟩ := hc r hr
    refine ⟨x, h, held_settle hs hqueue (fun t ht => ?_) hx, hkey⟩
    show settlement t (.admitted pending.ticket pending.request s.scheduler.active ::
      s.scheduler.log) = _
    rw [settlement, if_neg ht]
  · obtain ⟨c, hcall⟩ := hs.wired.queued pending (by simp [hqueue])
    refine ⟨.call c, ⟨pending.request.id, s.scheduler.log.countP Event.grants⟩, ?_, rfl⟩
    show (s.calls c).bind (Call.held
      (.admitted pending.ticket pending.request s.scheduler.active :: s.scheduler.log)
      s.unresolvedRecoveries) = _
    rw [hcall, Option.bind_some, Call.held, settlement, if_pos rfl]

/-- A rejected request held nothing. -/
theorem Covered.rejectHead {scheduler : Scheduler.State} (hc : Covered s)
    (hs : Sound s) {pending : PendingRequest} {rest : List PendingRequest} {error : SchedulerError}
    (hqueue : s.scheduler.queue = pending :: rest)
    (hactive : scheduler.active = s.scheduler.active)
    (hlog : scheduler.log = .rejected pending.ticket error :: s.scheduler.log) :
    Covered { s with scheduler := scheduler } := by
  refine hc.keep (fun r hr => hactive ▸ hr) fun x h hx => ⟨x, h, ?_, rfl⟩
  refine held_settle hs hqueue (fun t ht => ?_) hx
  rw [hlog, settlement, if_neg ht]

/-- Timers, checks and pressure fields. -/
theorem Covered.same {scheduler : Scheduler.State} (hc : Covered s)
    (hactive : scheduler.active = s.scheduler.active)
    (hlog : ∀ t, settlement t scheduler.log = settlement t s.scheduler.log) :
    Covered { s with scheduler := scheduler } := by
  refine hc.keep (fun r hr => hactive ▸ hr) ?_
  intro x h hx
  exact ⟨x, h, by rw [held_scheduler fun _ _ t _ => hlog t, hx], rfl⟩

/-- The loop of the scheduler keeps ids covered. -/
theorem Covered.drainFrom {scheduler : Scheduler.State} {clock : ℕ → ℤ}
    {queue : List PendingRequest} {n : ℕ} (hqueue : scheduler.queue = queue)
    (hidle : scheduler.checking = none)
    (hs : Sound { s with scheduler := scheduler } ∧
      Covered { s with scheduler := scheduler }) :
    Sound { s with scheduler := drainFrom policy hooked clock queue n scheduler } ∧
      Covered
        { s with scheduler := drainFrom policy hooked clock queue n scheduler } := by
  refine drainFrom_keeps (P := fun scheduler => Sound { s with scheduler := scheduler } ∧
    Covered { s with scheduler := scheduler }) ?_ ?_ ?_ hqueue hidle hs
  · intro scheduler pending rest hqueue _ _ hs
    exact ⟨hs.1.admitHead hqueue, hs.2.admitHead hs.1 hqueue⟩
  · intro scheduler pending rest _ _ _ hs
    exact ⟨hs.1.same rfl rfl rfl rfl rfl (fun _ => rfl), hs.2.same rfl (fun _ => rfl)⟩
  · intro scheduler timer hs
    exact ⟨hs.1.same rfl rfl rfl rfl rfl (fun _ => rfl), hs.2.same rfl (fun _ => rfl)⟩

theorem Covered.drain {scheduler : Scheduler.State} {clock : ℕ → ℤ}
    (hc : Covered { s with scheduler := scheduler })
    (hs : Sound { s with scheduler := scheduler }) :
    Covered { s with scheduler := drain policy hooked clock scheduler } :=
  (drain_keeps (P := fun scheduler => Sound { s with scheduler := scheduler } ∧
    Covered { s with scheduler := scheduler }) Covered.drainFrom ⟨hs, hc⟩).2

theorem Covered.resumeDrain (hc : Covered s) (hs : Sound s)
    {answer : PressureAnswer} {clock : ℕ → ℤ} :
    Covered
      { s with scheduler := resumeDrain policy hooked answer clock s.scheduler } := by
  refine (resumeDrain_keeps (P := fun scheduler => Sound { s with scheduler := scheduler } ∧
    Covered { s with scheduler := scheduler }) Covered.drainFrom ⟨hs, hc⟩
    ?_ ?_ ?_ ?_).2
  · exact ⟨hs.same rfl rfl rfl rfl rfl (fun _ => rfl), hc.same rfl (fun _ => rfl)⟩
  · intro pending rest decision hqueue _ _ _
    have hidle : Sound { s with scheduler := { s.scheduler with checking := none } } :=
      hs.same rfl rfl rfl rfl rfl (fun _ => rfl)
    have hcovered : Covered
        { s with scheduler := { s.scheduler with checking := none } } :=
      hc.same rfl (fun _ => rfl)
    exact ⟨hidle.admitHead hqueue, hcovered.admitHead hidle hqueue⟩
  · intro pending rest error hqueue
    exact ⟨hs.rejectHead hqueue rfl rfl rfl rfl rfl, hc.rejectHead hs hqueue rfl rfl⟩
  · intro pending rest reason readyAt timer hqueue
    refine ⟨hs.same ?_ rfl rfl rfl rfl (fun _ => rfl), hc.same rfl (fun _ => rfl)⟩
    rw [hqueue]
    rfl

/-! ## Releases -/

/-- A release covers the one id that was not held. -/
theorem Covered.callRelease (hs : Sound s) {permit : ℕ} {id : String} {clock : ℕ → ℤ}
    (hlive : s.scheduler.Live permit id)
    (hfree : ∀ x h, s.held x = some h → h.idempotencyKey ≠ id) (hc : CoveredBut id s) :
    Covered (callRelease policy hooked permit clock s) := by
  unfold Limited.callRelease
  rw [release_live hlive]
  refine Covered.drain ?_ (hs.givenBack hlive hfree)
  intro r hr
  obtain ⟨hr, hid⟩ := List.mem_filter.1 hr
  obtain ⟨x, h, hx, hkey⟩ := hc r hr (of_decide_eq_true hid)
  exact ⟨x, h, (held_scheduler (fun _ _ _ _ => rfl) x).trans hx, hkey⟩

/-- A place is emptied and its permit released. -/
theorem Covered.dropRelease (hc : Covered s) (hs : Sound s) {a : Place} {h : HeldPermit}
    {clock : ℕ → ℤ} (hs' : Sound s') (ha : s.held a = some h)
    (hscheduler : s'.scheduler = s.scheduler)
    (hheld : ∀ x h', s'.held x = some h' → s.held x = some h' ∧ x ≠ a)
    (hkeep : ∀ x h', s.held x = some h' → h'.idempotencyKey ≠ h.idempotencyKey →
      s'.held x = some h') :
    Covered (Limited.callRelease policy hooked h.release clock s') := by
  refine Covered.callRelease hs' ?_ (hs.owned.emptied ha hheld) ?_
  · rw [hscheduler]
    exact hs.owned.live a h ha
  · intro r hr hid
    rw [hscheduler] at hr
    obtain ⟨x, h', hx, hkey⟩ := hc r hr
    rw [← hkey] at hid
    exact ⟨x, h', hkeep x h' hx hid, hkey⟩

theorem Covered.releaseRun (hc : Covered s) (hs : Sound s) (runId : String) {clock : ℕ → ℤ} :
    Covered (releaseRun policy hooked runId clock s) := by
  rw [releaseRun_eq]
  cases hrun : s.releases runId with
  | none => exact hc
  | some permit =>
    refine hc.dropRelease hs (hs.dropRun hrun) (a := .run runId) hrun rfl
      (fun _ _ => dropRun_kept) ?_
    intro x h hx hkey
    rw [held_dropRun, if_neg, hx]
    rintro rfl
    obtain rfl := Option.some.inj (hrun.symm.trans hx)
    exact hkey rfl

/-! ## `launch` -/

theorem Covered.launch (hcov : Covered s) (hs : Sound s) {c : ℕ} (hc : s.calls c = none)
    (key : String) (scope : Option ConcurrencyScope) (clock : ℕ → ℤ) :
    Covered (launch policy hooked c key scope clock s) := by
  unfold Limited.launch
  cases scope with
  | none => exact hcov
  | some scope =>
    dsimp only
    split
    · rename_i e scheduler hacquire
      rw [acquire_error hacquire]
      exact hcov
    · rename_i ticket scheduler hacquire
      obtain ⟨hnew, rfl, rfl⟩ := acquire_ok hacquire
      refine Covered.drain (s := s.await c (.acquiring key s.scheduler.nextTicket)) ?_
        (hs.enqueue hc hnew)
      refine hcov.keep (fun r hr => hr) ?_
      intro x h hx
      exact ⟨x, h, held_other hx (ne_of_uncalled hc hx), rfl⟩

/-- A call goes on or ends; its permit is held under the same key. -/
theorem Covered.calls (hcov : Covered s) {c : ℕ} {next : Option Call}
    (hnext : ∀ h, s.held (.call c) = some h →
      ({ s with calls := Function.update s.calls c next } : State).Holds h.idempotencyKey) :
    Covered { s with calls := Function.update s.calls c next } := by
  refine hcov.keep (fun r hr => hr) ?_
  intro x h hx
  by_cases hxc : x = .call c
  · subst hxc
    exact hnext h hx
  · exact ⟨x, h, held_other hx hxc, rfl⟩

theorem Covered.acquired (hcov : Covered s) {c : ℕ} {key : String} {ticket : ℕ}
    (hc : s.calls c = some (.acquiring key ticket)) : Covered (acquired c key ticket s) := by
  have hheld : s.held (.call c) = Call.held s.scheduler.log s.unresolvedRecoveries
      (.acquiring key ticket) := by
    show (s.calls c).bind _ = _
    rw [hc, Option.bind_some]
  unfold Limited.acquired
  cases hsettled : settlement ticket s.scheduler.log with
  | none => exact hcov
  | some outcome =>
    rw [Call.held, hsettled] at hheld
    cases outcome with
    | error e =>
      refine hcov.calls ?_
      intro h hh
      rw [hheld] at hh
      cases hh
    | ok permit =>
      refine hcov.calls ?_
      intro h hh
      obtain rfl := Option.some.inj (hheld.symm.trans hh)
      refine ⟨.call c, ⟨key, permit⟩, ?_, rfl⟩
      rw [held_calls, if_pos rfl]
      rfl

/-- A key is held in some place from now on, and the others where they were. -/
theorem Covered.handOver (hcov : Covered s) (key : String)
    (hactive : s'.scheduler.active = s.scheduler.active) (hkey : s'.Holds key)
    (hkeep : ∀ x h, s.held x = some h → h.idempotencyKey ≠ key → s'.held x = some h) :
    Covered s' := by
  refine hcov.keep (fun r hr => hactive ▸ hr) ?_
  intro x h hx
  by_cases hk : h.idempotencyKey = key
  · rw [hk]
    exact hkey
  · exact ⟨x, h, hkeep x h hx hk, rfl⟩

theorem Covered.unresolved (hcov : Covered s) {c : ℕ} {key : String} {release : ℕ}
    (hheld : s.held (.call c) = some ⟨key, release⟩) :
    Covered { s.leave c with unresolvedLaunches := insert s.unresolvedLaunches key release } := by
  refine hcov.handOver key rfl ⟨.launch key, ⟨key, release⟩, ?_, rfl⟩ ?_
  · show (insert s.unresolvedLaunches key release key).map _ = _
    rw [insert_apply, if_pos rfl]
    rfl
  · intro x h hx hkey
    cases x with
    | run r => exact hx
    | recovery k => exact hx
    | launch k =>
      have hx : (s.unresolvedLaunches k).map (HeldPermit.mk k) = some h := hx
      show (insert s.unresolvedLaunches key release k).map _ = some h
      rw [insert_apply, if_neg, hx]
      rintro rfl
      obtain ⟨p, -, rfl⟩ := Option.map_eq_some_iff.1 hx
      exact hkey rfl
    | call c' =>
      refine held_other (x := .call c') hx ?_
      rintro ⟨⟩
      exact hkey (congrArg HeldPermit.idempotencyKey (Option.some.inj (hx.symm.trans hheld)))

theorem holds_bind {runId key : String} {permit : ℕ} : (bind runId key permit s).Holds key := by
  refine ⟨.run runId, ⟨key, permit⟩, ?_, rfl⟩
  show insert s.releases runId _ runId = _
  rw [insert_apply, if_pos rfl]

theorem Covered.launched (hcov : Covered s) (hs : Sound s) {c : ℕ} {key : String} {release : ℕ}
    (hc : s.calls c = some (.launching key release)) (answer : Option String) (clock : ℕ → ℤ) :
    Covered (launched policy hooked c key release answer clock s) := by
  have hheld : s.held (.call c) = some ⟨key, release⟩ := by
    show (s.calls c).bind _ = _
    rw [hc]
    rfl
  unfold Limited.launched
  cases answer with
  | none => exact hcov.unresolved hheld
  | some runId =>
    dsimp only
    cases hrun : s.releases runId with
    | some existing =>
      dsimp only
      split_ifs with hkey
      · exact hcov.unresolved hheld
      · -- the key would be held twice
        cases hs.owned.sole (.run runId) (.call c) _ _ hrun hheld (not_not.1 hkey)
    | none =>
      show Covered (Limited.bind runId key release (s.leave c))
      refine hcov.handOver key rfl holds_bind ?_
      intro x h hx hkey
      refine held_bind (s := s.leave c) hrun (held_other hx ?_)
      rintro rfl
      exact hkey (congrArg HeldPermit.idempotencyKey (Option.some.inj (hx.symm.trans hheld)))

/-! ## `recover` -/

theorem Covered.recoveries (hcov : Covered s) {recoveries : String → Option Recovery} :
    Covered { s with recoveries := recoveries } :=
  hcov.keep (fun _ hr => hr) fun x h hx => ⟨x, h, hx, rfl⟩

theorem Covered.findByIdempotencyKey (hcov : Covered s) {c : ℕ} (hc : s.calls c = none)
    (key : String) (scope : Option ConcurrencyScope) :
    Covered (findByIdempotencyKey c key scope s) := by
  unfold Limited.findByIdempotencyKey
  split_ifs
  · exact hcov
  dsimp only
  split_ifs with hnone
  · obtain ⟨hl, hr, hp⟩ := hnone
    cases scope with
    | none => exact hcov.recoveries
    | some scope =>
      dsimp only
      split
      · exact hcov.recoveries
      · rename_i permit scheduler hexisting
        obtain ⟨hknown, rfl, rfl⟩ := acquireExisting_ok hexisting
        intro r hr'
        rcases mem_setActive hr' with hr' | rfl
        · obtain ⟨x, h, hx, hkey⟩ := hcov r hr'
          refine ⟨x, h, held_other ?_ (ne_of_uncalled hc hx), hkey⟩
          exact (held_scheduler (fun _ _ _ _ => rfl) x).trans hx
        · refine ⟨.call c, ⟨key, s.scheduler.permits.length⟩, ?_, rfl⟩
          unfold State.await
          rw [held_calls, if_pos rfl, Option.bind_some, Call.held, if_pos hr]
          rfl
  · refine hcov.keep (fun r hr => hr) ?_
    intro x h hx
    exact ⟨x, h, held_other hx (ne_of_uncalled hc hx), rfl⟩

variable {c : ℕ} {key : String} {u : Option ℕ} {rr : Option String} {rp : Option HeldPermit}
  {rec : Option ℕ}

/-- The other calls, and the entries that are not removed, hold what they held. -/
theorem AfterLookup.kept (h : AfterLookup s c key s') (hs : Sound s)
    (hc : s.calls c = some (.lookingUp key u rr rp rec)) {x : Place} {p : HeldPermit}
    (hx : s.held x = some p) (hcall : x ≠ .call c)
    (hlaunch : x = .launch key → s'.unresolvedLaunches key = s.unresolvedLaunches key)
    (hrecovery : x = .recovery key → s'.unresolvedRecoveries key = s.unresolvedRecoveries key) :
    s'.held x = some p := by
  cases x with
  | run r =>
    show s'.releases r = some p
    rw [h.releases]
    exact hx
  | launch k =>
    show (s'.unresolvedLaunches k).map (HeldPermit.mk k) = some p
    rcases h.launches k with hk | ⟨rfl, -⟩
    · rw [hk]
      exact hx
    · rw [hlaunch rfl]
      exact hx
  | recovery k =>
    show (s'.unresolvedRecoveries k).map (HeldPermit.mk k) = some p
    rcases h.recovers k with hk | ⟨rfl, -⟩
    · rw [hk]
      exact hx
    · rw [hrecovery rfl]
      exact hx
  | call c' =>
    obtain ⟨next, hcalls, -⟩ := h.calls
    have hcc : c' ≠ c := fun e => hcall (congrArg Place.call e)
    have hx : (s.calls c').bind (Call.held s.scheduler.log s.unresolvedRecoveries) = some p := hx
    show (s'.calls c').bind (Call.held s'.scheduler.log s'.unresolvedRecoveries) = some p
    rw [hcalls, h.scheduler, Function.update_of_ne hcc]
    obtain ⟨call, hcall', hheld⟩ := Option.bind_eq_some_iff.1 hx
    rw [hcall', Option.bind_some]
    cases call with
    | lookingUp k u' rr' rp' rec' =>
      -- another call of `recover` is about another key
      rcases h.recovers k with hk | ⟨rfl, -⟩
      · rw [Call.held, hk]
        exact hheld
      · exact absurd (hs.wired.recover c' c _ _ k hcall' hc rfl rfl) hcc
    | _ => exact hheld

/-- The keys that the lookup is not about are held where they were. -/
theorem AfterLookup.others (h : AfterLookup s c key s') (hs : Sound s)
    (hc : s.calls c = some (.lookingUp key u rr rp rec)) {x : Place} {p : HeldPermit}
    (hx : s.held x = some p) (hkey : p.idempotencyKey ≠ key) : s'.held x = some p := by
  refine h.kept hs hc hx ?_ ?_ ?_
  · rintro rfl
    have hx : (s.calls c).bind (Call.held s.scheduler.log s.unresolvedRecoveries) = some p := hx
    rw [hc, Option.bind_some, Call.held] at hx
    split_ifs at hx
    obtain ⟨q, -, rfl⟩ := Option.map_eq_some_iff.1 hx
    exact hkey rfl
  · rintro rfl
    obtain ⟨q, -, rfl⟩ := Option.map_eq_some_iff.1 hx
    exact absurd rfl hkey
  · rintro rfl
    obtain ⟨q, -, rfl⟩ := Option.map_eq_some_iff.1 hx
    exact absurd rfl hkey

/-- A lookup without a permit of its own removes nothing that is held. -/
theorem AfterLookup.covered (h : AfterLookup s c key s') (hs : Sound s)
    (hc : s.calls c = some (.lookingUp key u rr rp none)) (hcov : Covered s)
    (hlaunch : s'.unresolvedLaunches key = s.unresolvedLaunches key) : Covered s' := by
  refine hcov.keep (fun r hr => h.scheduler ▸ hr) ?_
  intro x p hx
  refine ⟨x, p, h.kept hs hc hx ?_ (fun _ => hlaunch) ?_, rfl⟩
  · rintro rfl
    have hx : (s.calls c).bind (Call.held s.scheduler.log s.unresolvedRecoveries) = some p := hx
    rw [hc, Option.bind_some, Call.held] at hx
    split_ifs at hx
    cases hx
  · intro _
    have hnone : s.unresolvedRecoveries key = none :=
      (hs.wired.retained c key u rr rp none hc).elim id id
    rcases h.recovers key with hk | ⟨-, hk⟩
    · exact hk
    · rw [hk, hnone]

theorem AfterLookup.coveredRelease (h : AfterLookup s c key s') (hs : Sound s)
    (hc : s.calls c = some (.lookingUp key u rr rp rec)) (hcov : Covered s) {a : Place} {p : ℕ}
    {clock : ℕ → ℤ} (ha : s.held a = some ⟨key, p⟩) (hfree : Freed s' c key a) :
    Covered (Limited.callRelease policy hooked p clock s') :=
  hcov.dropRelease hs (h.sound hs hc) ha h.scheduler (fun _ _ hx => h.unfreed hs hc hfree hx)
    fun _ _ hx hkey => h.others hs hc hx hkey

theorem AfterLookup.coveredBind (h : AfterLookup s c key s') (hs : Sound s)
    (hc : s.calls c = some (.lookingUp key u rr rp rec)) (hcov : Covered s) {p : ℕ}
    {runId : String} (hrun : s.releases runId = none) : Covered (Limited.bind runId key p s') := by
  refine hcov.handOver key (congrArg _ h.scheduler) holds_bind ?_
  intro x q hx hkey
  exact held_bind (h.releases ▸ hrun) (h.others hs hc hx hkey)

/-! ## The leaks -/

/-- The answer makes the lookup drop the permit of an unresolved launch of its key. -/
def lookupLeaks (s : State) (key : String) (unresolvedRelease : Option ℕ) : LookupAnswer → Prop
  | .found runId => unresolvedRelease.isSome ∧
      ∃ existing ∈ s.releases runId, existing.idempotencyKey ≠ key
  | .absent => unresolvedRelease = none ∧ (s.unresolvedLaunches key).isSome
  | .failed => False

/-- The step is a lookup that drops a permit. -/
def Leaks (s : State) (i : Act × (ℕ → ℕ → ℤ)) : Prop :=
  ∃ c answer key u rr rp rec, i.1 = .lookedUp c answer ∧
    s.calls c = some (.lookingUp key u rr rp rec) ∧ lookupLeaks s key u answer

theorem Covered.flags (hcov : Covered s) (recoveringRuns terminalRuns : String → Bool) :
    Covered { s with recoveringRuns := recoveringRuns, terminalRuns := terminalRuns } :=
  hcov.keep (fun _ hr => hr) fun x h hx => ⟨x, h, hx, rfl⟩

theorem Covered.absentReleased (hcov : Covered s) (hs : Sound s)
    (hc : s.calls c = some (.lookingUp key u rr rp rec))
    (hkept : ¬ lookupLeaks s key u .absent) (clock : ℕ → ℕ → ℤ) :
    Covered (absentReleased policy hooked c key u rec clock s) := by
  have hleft := AfterLookup.left hs hc (Or.inr rfl) (Or.inr rfl)
  cases u with
  | none =>
    cases rec with
    | none =>
      refine hleft.covered hs hc hcov ?_
      have hnone : s.unresolvedLaunches key = none := by
        rw [← Option.not_isSome_iff_eq_none]
        exact fun h => hkept ⟨rfl, h⟩
      rw [hnone]
      exact erase_self ..
    | some q =>
      obtain ⟨a, ha, hplace⟩ := held_recovery hs hc
      exact hleft.coveredRelease hs hc hcov ha (Freed.recovery hplace (erase_self ..))
  | some p =>
    cases rec with
    | none =>
      exact hleft.coveredRelease hs hc hcov (held_unresolved hs hc)
        (Or.inr (Or.inl ⟨rfl, erase_self ..⟩))
    | some q => exact absurd hc (unresolved_or_recovery hs)

theorem Covered.lookupAbsent (hcov : Covered s) (hs : Sound s)
    (hc : s.calls c = some (.lookingUp key u rr rp rec))
    (hkept : ¬ lookupLeaks s key u .absent) (clock : ℕ → ℕ → ℤ) :
    Covered (lookupAbsent policy hooked c key u rr rec clock s) := by
  rw [lookupAbsent_eq]
  cases rr with
  | none => exact hcov.absentReleased hs hc hkept clock
  | some runId =>
    exact (hcov.absentReleased hs hc hkept clock).releaseRun (hs.absentReleased hc clock) runId

theorem Covered.foundLaunch (hcov : Covered s) (hs : Sound s) {p : ℕ}
    (hc : s.calls c = some (.lookingUp key (some p) rr rp rec)) {runId : String}
    (hkept : ¬ lookupLeaks s key (some p) (.found runId)) (clock : ℕ → ℤ) :
    Covered (foundLaunch policy hooked c key runId p clock s) := by
  unfold Limited.foundLaunch
  dsimp only
  cases hrun : s.releases runId with
  | none =>
    have hafter := AfterLookup.inspecting hs hc runId false (Or.inr rfl) (Or.inl rfl)
    exact hafter.coveredBind hs hc hcov hrun
  | some existing =>
    dsimp only
    split_ifs with hkey
    · exact absurd ⟨rfl, existing, hrun, hkey⟩ hkept
    · -- the key would be held twice
      cases hs.owned.sole (.run runId) (.launch key) _ _ hrun (held_unresolved hs hc)
        (not_not.1 hkey)

theorem Covered.foundRun (hcov : Covered s) (hs : Sound s)
    (hc : s.calls c = some (.lookingUp key u rr rp rec)) {runId : String}
    (hrun : s.releases runId = none) (clock : ℕ → ℤ) :
    Covered (foundRun policy hooked c key runId rec clock s) := by
  unfold Limited.foundRun
  cases rec with
  | none =>
    have hleft := AfterLookup.left hs hc (Or.inl rfl) (Or.inl rfl)
    exact (hleft.covered hs hc hcov rfl).flags _ _
  | some p =>
    obtain ⟨a, ha, hplace⟩ := held_recovery hs hc
    have hafter := AfterLookup.inspecting hs hc runId true (Or.inl rfl) (Or.inr rfl)
    dsimp only
    split_ifs
    · exact (hafter.coveredRelease hs hc hcov ha (Freed.recovery hplace (erase_self ..))).flags _ _
    · exact (hafter.coveredBind hs hc hcov hrun).flags _ _

theorem Covered.lookupFailed (hcov : Covered s) (hs : Sound s) {p : ℕ}
    (hc : s.calls c = some (.lookingUp key u rr rp (some p))) :
    Covered (s.failLookup c key p) := by
  have hafter := AfterLookup.left hs hc (Or.inl rfl) (Or.inl rfl)
  refine hcov.handOver key rfl ⟨.recovery key, ⟨key, p⟩, ?_, rfl⟩ ?_
  · rw [held_failLookup hs hc, if_pos rfl]
  · intro x h hx hkey
    have hx' : (s.leaveRecover c key).held x = some h := hafter.others hs hc hx hkey
    rw [held_failLookup hs hc, if_neg, hx']
    rintro rfl
    obtain ⟨q, -, rfl⟩ := Option.map_eq_some_iff.1 hx
    exact hkey rfl

theorem Covered.lookedUp (hcov : Covered s) (hs : Sound s)
    (hc : s.calls c = some (.lookingUp key u rr rp rec)) {answer : LookupAnswer}
    (hkept : ¬ lookupLeaks s key u answer) (clock : ℕ → ℕ → ℤ) :
    Covered (lookedUp policy hooked c key u rr rp rec answer clock s) := by
  unfold Limited.lookedUp
  cases answer with
  | failed =>
    cases rec with
    | none => exact (AfterLookup.left hs hc (Or.inl rfl) (Or.inl rfl)).covered hs hc hcov rfl
    | some p => exact hcov.lookupFailed hs hc
  | absent => exact hcov.lookupAbsent hs hc hkept clock
  | found runId =>
    cases u with
    | some p => exact hcov.foundLaunch hs hc hkept (clock 0)
    | none =>
      dsimp only
      cases hrun : s.releases runId with
      | some existing =>
        have hleft := AfterLookup.left hs hc (Or.inl rfl) (Or.inr rfl)
        cases rec with
        | none => exact hleft.covered hs hc hcov rfl
        | some p =>
          obtain ⟨a, ha, hplace⟩ := held_recovery hs hc
          exact hleft.coveredRelease hs hc hcov ha (Freed.recovery hplace (erase_self ..))
      | none =>
        dsimp only
        split_ifs with hretained
        · obtain rfl := hs.wired.spare c key none rr rp rec hc hretained.1
          exact (AfterLookup.left hs hc (Or.inl rfl) (Or.inl rfl)).covered hs hc hcov rfl
        · exact hcov.foundRun hs hc hrun (clock 0)

theorem Covered.inspected (hcov : Covered s) (hs : Sound s) {runId : String} {recovering : Bool}
    (hc : s.calls c = some (.inspecting key runId recovering)) (answer : Option RunState)
    (clock : ℕ → ℤ) :
    Covered (inspected policy hooked c key runId recovering answer clock s) := by
  have hgo : ∀ {s' : State}, Covered s' → s'.calls = s.calls →
      Covered (s'.await c (.finishing key runId recovering)) := by
    intro s' hcov' hcalls
    refine hcov'.calls ?_
    intro h hh
    have hh : (s'.calls c).bind _ = some h := hh
    rw [hcalls, hc] at hh
    cases hh
  have hcalls : (Limited.releaseRun policy hooked runId clock s).calls = s.calls := by
    unfold Limited.releaseRun
    cases s.releases runId <;> rfl
  unfold Limited.inspected
  cases answer with
  | none => exact hgo hcov rfl
  | some state =>
    obtain ⟨runId', status⟩ := state
    dsimp only
    split_ifs
    · exact hgo hcov rfl
    · exact hgo (hcov.releaseRun hs runId) hcalls
    · exact hgo hcov rfl

theorem Covered.finished (hcov : Covered s) {runId : String} {recovering : Bool}
    (hc : s.calls c = some (.finishing key runId recovering)) :
    Covered (finished c key runId recovering s) := by
  have hleave : Covered (s.leave c) := by
    refine hcov.calls ?_
    intro h hh
    have hh : (s.calls c).bind _ = some h := hh
    rw [hc] at hh
    cases hh
  have hleft : Covered (s.leaveRecover c key) := hleave.recoveries
  unfold Limited.finished
  split_ifs
  · exact hleft.flags _ _
  · exact hleft

theorem Covered.markTerminalDuringRecovery (hcov : Covered s) (runId : String) :
    Covered (markTerminalDuringRecovery runId s) := by
  unfold Limited.markTerminalDuringRecovery
  split_ifs
  · exact hcov.flags _ _
  · exact hcov

/-! ## A leak lasts -/

/-- The id is active and nobody holds it. -/
def Leaked (id : String) (s : State) : Prop :=
  (∃ r ∈ s.scheduler.active, r.id = id) ∧ ¬ s.Holds id

theorem Leaked.not_covered {id : String} (h : Leaked id s) : ¬ Covered s := by
  intro hcov
  obtain ⟨⟨r, hr, rfl⟩, hunheld⟩ := h
  exact hunheld (hcov r hr)

/-- The scheduler gives no permit of an id that is active. -/
theorem Leaked.admitHead {id : String} (h : Leaked id s) (hs : Sound s) {pending : PendingRequest}
    {rest : List PendingRequest} (hqueue : s.scheduler.queue = pending :: rest) :
    Leaked id { s with scheduler := admitHead pending rest s.scheduler } := by
  obtain ⟨⟨r, hr, rfl⟩, hunheld⟩ := h
  have hne : r.id ≠ pending.request.id := hs.owned.accounts.apart pending (by simp [hqueue]) r hr
  refine ⟨⟨r, mem_setActive_of hr hne, rfl⟩, ?_⟩
  rintro ⟨x, h, hx, hkey⟩
  rcases held_admitHead hs hqueue hx with hx | ⟨rfl, -⟩
  · exact hunheld ⟨x, h, hx, hkey⟩
  · exact hne hkey.symm

theorem Leaked.same {id : String} {scheduler : Scheduler.State} (h : Leaked id s)
    (hactive : ∀ r ∈ s.scheduler.active, r.id = id → r ∈ scheduler.active)
    (hlog : ∀ t, settlement t scheduler.log = settlement t s.scheduler.log) :
    Leaked id { s with scheduler := scheduler } := by
  obtain ⟨⟨r, hr, hid⟩, hunheld⟩ := h
  refine ⟨⟨r, hactive r hr hid, hid⟩, ?_⟩
  rintro ⟨x, h, hx, hkey⟩
  rw [held_scheduler fun _ _ t _ => hlog t] at hx
  exact hunheld ⟨x, h, hx, hkey⟩

theorem Leaked.drain {id : String} {scheduler : Scheduler.State} {clock : ℕ → ℤ}
    (h : Leaked id { s with scheduler := scheduler }) (hs : Sound { s with scheduler := scheduler }) :
    Leaked id { s with scheduler := drain policy hooked clock scheduler } := by
  refine (drain_keeps (P := fun scheduler => Sound { s with scheduler := scheduler } ∧
    Leaked id { s with scheduler := scheduler }) ?_ ⟨hs, h⟩).2
  intro clock queue n scheduler hqueue hidle hs
  refine drainFrom_keeps (P := fun scheduler => Sound { s with scheduler := scheduler } ∧
    Leaked id { s with scheduler := scheduler }) ?_ ?_ ?_ hqueue hidle hs
  · intro scheduler pending rest hqueue _ _ hs
    exact ⟨hs.1.admitHead hqueue, hs.2.admitHead hs.1 hqueue⟩
  · intro scheduler pending rest _ _ _ hs
    exact ⟨hs.1.same rfl rfl rfl rfl rfl (fun _ => rfl), hs.2.same (fun _ hr _ => hr) fun _ => rfl⟩
  · intro scheduler timer hs
    exact ⟨hs.1.same rfl rfl rfl rfl rfl (fun _ => rfl), hs.2.same (fun _ hr _ => hr) fun _ => rfl⟩

/-- The release of a run of another key does not mend a leak. -/
theorem Leaked.releaseRun {id : String} (h : Leaked id s) (hs : Sound s) (runId : String)
    {clock : ℕ → ℤ} : Leaked id (releaseRun policy hooked runId clock s) := by
  rw [releaseRun_eq]
  cases hrun : s.releases runId with
  | none => exact h
  | some permit =>
    have hlive := hs.owned.live (.run runId) permit hrun
    have hne : permit.idempotencyKey ≠ id := fun e => h.2 ⟨.run runId, permit, hrun, e⟩
    have hfree : ∀ x p, (s.dropRun runId permit).held x = some p →
        p.idempotencyKey ≠ permit.idempotencyKey :=
      hs.owned.emptied (a := .run runId) hrun fun _ _ => dropRun_kept
    have hdropped : Leaked id (s.dropRun runId permit) := by
      refine ⟨h.1, ?_⟩
      rintro ⟨x, p, hx, hkey⟩
      exact h.2 ⟨x, p, (dropRun_kept hx).1, hkey⟩
    have hlive' : (s.dropRun runId permit).scheduler.Live permit.release permit.idempotencyKey :=
      hlive
    dsimp only
    unfold Limited.callRelease
    rw [release_live hlive']
    refine Leaked.drain ?_ ((hs.dropRun hrun).givenBack hlive' hfree)
    refine hdropped.same ?_ (fun _ => rfl)
    intro r hr hid
    exact List.mem_filter.2 ⟨hr, decide_eq_true (hid ▸ hne.symm)⟩

/-- The places of the key that are empty after the lookup were its only ones. -/
theorem AfterLookup.leaked (h : AfterLookup s c key s') (hs : Sound s)
    (hc : s.calls c = some (.lookingUp key u rr rp rec)) {a : Place} {p : ℕ}
    (ha : s.held a = some ⟨key, p⟩) (hfree : Freed s' c key a) : Leaked key s' := by
  refine ⟨?_, ?_⟩
  · rw [h.scheduler]
    exact hs.owned.accounts.active p key (hs.owned.live a _ ha)
  · rintro ⟨x, q, hx, hkey⟩
    obtain ⟨hx, hne⟩ := h.unfreed hs hc hfree hx
    exact hne (hs.owned.sole x a q _ hx ha hkey)

theorem leaked_of_absent (hs : Sound s) (hc : s.calls c = some (.lookingUp key u rr rp rec))
    (hleak : lookupLeaks s key u .absent) (clock : ℕ → ℕ → ℤ) :
    Leaked key (lookupAbsent policy hooked c key u rr rec clock s) := by
  obtain ⟨rfl, hlaunch⟩ := hleak
  obtain ⟨p, hp⟩ := Option.isSome_iff_exists.1 hlaunch
  have hheld : s.held (.launch key) = some ⟨key, p⟩ := by
    show (s.unresolvedLaunches key).map _ = _
    rw [hp]
    rfl
  have hrec : rec = none := by
    by_contra hsome
    obtain ⟨q, rfl⟩ := Option.ne_none_iff_exists'.1 hsome
    obtain ⟨a, ha, hplace⟩ := held_recovery hs hc
    obtain rfl := hs.owned.sole (.launch key) a _ _ hheld ha rfl
    rcases hplace with h | h
    · cases h
    · cases h
  subst hrec
  have hleft := AfterLookup.left hs hc (Or.inr rfl) (Or.inr rfl)
  have hleaked := hleft.leaked hs hc hheld (Or.inr (Or.inl ⟨rfl, erase_self ..⟩))
  rw [lookupAbsent_eq]
  cases rr with
  | none => exact hleaked
  | some runId => exact Leaked.releaseRun hleaked (hleft.sound hs hc) runId

theorem leaked_of_found (hs : Sound s) (hc : s.calls c = some (.lookingUp key u rr rp rec))
    {runId : String} (hleak : lookupLeaks s key u (.found runId)) (clock : ℕ → ℕ → ℤ) :
    Leaked key (lookedUp policy hooked c key u rr rp rec (.found runId) clock s) := by
  obtain ⟨hsome, existing, hrun, hkey⟩ := hleak
  obtain ⟨p, rfl⟩ := Option.isSome_iff_exists.1 hsome
  dsimp only [Limited.lookedUp, Limited.foundLaunch]
  rw [show s.releases runId = some existing from hrun]
  dsimp only
  rw [if_pos hkey]
  have hleft := AfterLookup.left hs hc (Or.inr rfl) (Or.inl rfl)
  exact hleft.leaked hs hc (held_unresolved hs hc) (Or.inr (Or.inl ⟨rfl, erase_self ..⟩))

/-! ## Every run -/

theorem not_covered_of_leaks (hs : Sound s) {i : Act × (ℕ → ℕ → ℤ)} (hi : Leaks s i) :
    ¬ Covered (step policy hooked s i) := by
  obtain ⟨act, clock⟩ := i
  obtain ⟨c, answer, key, u, rr, rp, rec, rfl, hc, hleak⟩ := hi
  dsimp only [Limited.step]
  rw [hc]
  cases answer with
  | failed => exact absurd hleak not_false
  | absent => exact (leaked_of_absent hs hc hleak clock).not_covered
  | found runId => exact (leaked_of_found hs hc hleak clock).not_covered

theorem Covered.step (hcov : Covered s) (hs : Sound s) {i : Act × (ℕ → ℕ → ℤ)}
    (hi : ¬ Leaks s i) : Covered (step policy hooked s i) := by
  obtain ⟨act, clock⟩ := i
  cases act with
  | launch c key scope =>
    dsimp only [Limited.step]
    split
    · rename_i hc
      exact hcov.launch hs hc key scope (clock 0)
    · exact hcov
  | findByIdempotencyKey c key scope =>
    dsimp only [Limited.step]
    split
    · rename_i hc
      exact hcov.findByIdempotencyKey hc key scope
    · exact hcov
  | acquired c =>
    dsimp only [Limited.step]
    split
    · rename_i key ticket hc
      exact hcov.acquired hc
    · exact hcov
  | launched c answer =>
    dsimp only [Limited.step]
    split
    · rename_i key release hc
      exact hcov.launched hs hc answer (clock 0)
    · exact hcov
  | lookedUp c answer =>
    dsimp only [Limited.step]
    split
    · rename_i key u rr rp rec hc
      refine hcov.lookedUp hs hc ?_ clock
      intro hleak
      exact hi ⟨c, answer, key, u, rr, rp, rec, rfl, hc, hleak⟩
    · exact hcov
  | inspected c answer =>
    dsimp only [Limited.step]
    split
    · rename_i key runId recovering hc
      exact hcov.inspected hs hc answer (clock 0)
    · exact hcov
  | finished c =>
    dsimp only [Limited.step]
    split
    · rename_i key runId recovering hc
      exact hcov.finished hc
    · exact hcov
  | forget key =>
    dsimp only [Limited.step]
    split_ifs
    · exact hcov.recoveries
    · exact hcov
  | status runId answer =>
    dsimp only [Limited.step, Limited.status]
    split
    · exact hcov
    · split_ifs
      · exact hcov
      · exact (hcov.markTerminalDuringRecovery runId).releaseRun
          (hs.markTerminalDuringRecovery runId) runId
      · exact hcov
  | result runId answer =>
    dsimp only [Limited.step, Limited.result]
    split_ifs
    · exact (hcov.markTerminalDuringRecovery runId).releaseRun
        (hs.markTerminalDuringRecovery runId) runId
    · exact hcov
  | cancel runId => exact hcov
  | pressure answer => exact hcov.resumeDrain hs
  | wake =>
    have hwoken : Sound { s with scheduler := { s.scheduler with wakeTimer := none } } :=
      hs.same rfl rfl rfl rfl rfl (fun _ => rfl)
    have hcovered : Covered { s with scheduler := { s.scheduler with wakeTimer := none } } :=
      hcov.same rfl (fun _ => rfl)
    dsimp only [Limited.step, Scheduler.wake]
    split_ifs
    · exact hcovered.drain hwoken
    · exact hcov

theorem covered_init : Covered {} := by
  intro r hr
  cases hr

/-- **Permits leak exactly by the two kinds of lookups**: every state of a run has its active ids
held if and only if no step of it is a lookup that drops a permit. -/
theorem covered_iff_unleaked (policy : ConcurrencyPolicy) (hooked : Bool)
    (l : List (Act × (ℕ → ℕ → ℤ))) :
    (∀ l', l' <+: l → Covered (run (step policy hooked) {} l')) ↔
      Admissible (step policy hooked) (fun s i => ¬ Leaks s i) {} l := by
  refine forall_prefix_iff_admissible (I := Sound) (P := Covered) _ (fun s i hs => hs.step i) ?_
    sound_init covered_init l
  intro s i hs hcov
  constructor
  · intro h hi
    exact not_covered_of_leaks hs hi h
  · intro hi
    exact hcov.step hs hi

/-- A run is held for one key, the launch of another key fails, and its lookup answers the run. -/
def lookupOfAnotherRun : List (Act × (ℕ → ℕ → ℤ)) :=
  [(.launch 0 "key-a" (some ⟨"host", "project", "agent", "workspace-a"⟩), fun _ _ => 1000),
    (.acquired 0, fun _ _ => 1000),
    (.launched 0 (some "run"), fun _ _ => 1000),
    (.launch 1 "key-b" (some ⟨"host", "project", "agent", "workspace-b"⟩), fun _ _ => 1000),
    (.acquired 1, fun _ _ => 1000),
    (.launched 1 none, fun _ _ => 1000),
    (.findByIdempotencyKey 2 "key-b" (some ⟨"host", "project", "agent", "workspace-b"⟩),
      fun _ _ => 1000),
    (.lookedUp 2 (.found "run"), fun _ _ => 1000)]

/-- The permit of the second key is out and no map and no call has it. -/
theorem permit_leaks : ¬ Covered (run (step {} false) {} lookupOfAnotherRun) := by
  refine not_covered_of_leaks (s := run (step {} false) {} (lookupOfAnotherRun.take 7))
    (i := (.lookedUp 2 (.found "run"), fun _ _ => 1000)) (sound_run _) ?_
  refine ⟨2, .found "run", "key-b", some 1, none, none, none, rfl, by decide +kernel, rfl,
    ⟨"key-a", 0⟩, by decide +kernel, by decide⟩

end AgentOrchestrator.Limited
