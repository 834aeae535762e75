import AgentOrchestrator.Adapter.Limited

/-!
# Who holds a permit

A permit is held in one of four kinds of places.  `Owned` is the invariant of the adapter: what is
held is out at the scheduler, and no key is held twice.  `Wired` says how calls, maps and the
queue of the scheduler fit together.  Both hold in every run, whatever the provider answers
(`sound_run`); whether every permit that is out is held is another matter.
-/

namespace AgentOrchestrator.Limited

open Scheduler Runs

variable {policy : ConcurrencyPolicy} {hooked : Bool} {s s' : State}

/-! ## Places -/

/-- Where a permit may be held: for a run, for an unresolved launch or recovery, by a call. -/
inductive Place where
  | run (runId : String)
  | launch (key : String)
  | recovery (key : String)
  | call (c : ℕ)
  deriving DecidableEq

/-- The permit a call holds.  A release function that `recover` took from `unresolvedRecoveries`
is still held there. -/
def Call.held (log : List Event) (unresolvedRecoveries : String → Option ℕ) :
    Call → Option HeldPermit
  | .acquiring key ticket =>
    match settlement ticket log with
    | some (.ok permit) => some ⟨key, permit⟩
    | _ => none
  | .launching key release => some ⟨key, release⟩
  | .lookingUp key _ _ _ recoveryRelease =>
    if unresolvedRecoveries key = none then recoveryRelease.map (⟨key, ·⟩) else none
  | .inspecting .. => none
  | .finishing .. => none

def State.held (s : State) : Place → Option HeldPermit
  | .run runId => s.releases runId
  | .launch key => (s.unresolvedLaunches key).map (⟨key, ·⟩)
  | .recovery key => (s.unresolvedRecoveries key).map (⟨key, ·⟩)
  | .call c => (s.calls c).bind (Call.held s.scheduler.log s.unresolvedRecoveries)

/-- The key a call of `recover` is about. -/
def Call.recovers : Call → Option String
  | .lookingUp key .. => some key
  | .inspecting key .. => some key
  | .finishing key .. => some key
  | .acquiring .. => none
  | .launching .. => none

/-! ## The invariant -/

/-- What is held is out, and no key is held twice. -/
structure Owned (s : State) : Prop where
  accounts : Accounts s.scheduler
  live : ∀ x h, s.held x = some h → s.scheduler.Live h.release h.idempotencyKey
  sole : ∀ x y h h', s.held x = some h → s.held y = some h' →
    h.idempotencyKey = h'.idempotencyKey → x = y

/-- How calls, maps and the queue of the scheduler fit together. -/
structure Wired (s : State) : Prop where
  queued : ∀ q ∈ s.scheduler.queue, ∃ c, s.calls c = some (.acquiring q.request.id q.ticket)
  tickets : ∀ c c' k k' t, s.calls c = some (.acquiring k t) → s.calls c' = some (.acquiring k' t) →
    c = c'
  issued : ∀ c k t, s.calls c = some (.acquiring k t) → t < s.scheduler.nextTicket
  runsOf : ∀ r h, s.releases r = some h → s.runIdsByIdempotencyKey h.idempotencyKey = some r
  runOf : ∀ k r, s.runIdsByIdempotencyKey k = some r → ∃ p, s.releases r = some ⟨k, p⟩
  pending : ∀ c call k, s.calls c = some call → call.recovers = some k →
    s.recoveries k = some .pending
  recover : ∀ c c' call call' k, s.calls c = some call → s.calls c' = some call' →
    call.recovers = some k → call'.recovers = some k → c = c'
  unresolved : ∀ c k u rr rp rec, s.calls c = some (.lookingUp k u rr rp rec) →
    ∀ p, u = some p → s.unresolvedLaunches k = some p
  retained : ∀ c k u rr rp rec, s.calls c = some (.lookingUp k u rr rp rec) →
    s.unresolvedRecoveries k = none ∨ s.unresolvedRecoveries k = rec
  spare : ∀ c k u rr rp rec, s.calls c = some (.lookingUp k u rr rp rec) → rp ≠ none → rec = none

/-! ## The scheduler under the adapter -/

/-- The scheduler may change what the adapter does not see. -/
theorem held_scheduler {scheduler : Scheduler.State}
    (h : ∀ c k t, s.calls c = some (.acquiring k t) →
      settlement t scheduler.log = settlement t s.scheduler.log) (x : Place) :
    ({ s with scheduler := scheduler } : State).held x = s.held x := by
  cases x with
  | run runId => rfl
  | launch key => rfl
  | recovery key => rfl
  | call c =>
    show (s.calls c).bind _ = (s.calls c).bind _
    cases hc : s.calls c with
    | none => rfl
    | some call =>
      cases call with
      | acquiring k t => simp only [Option.bind_some, Call.held, h c k t hc]
      | _ => rfl

/-- The invariant of the adapter. -/
structure Sound (s : State) : Prop where
  owned : Owned s
  wired : Wired s

theorem Owned.of_scheduler {scheduler : Scheduler.State} (hs : Owned s)
    (haccounts : Accounts scheduler) (hpermits : scheduler.permits = s.scheduler.permits)
    (hheld : ∀ x h, ({ s with scheduler := scheduler } : State).held x = some h →
      s.held x = some h) : Owned { s with scheduler := scheduler } := by
  refine ⟨haccounts, ?_, ?_⟩
  · intro x h hx
    have hlive := hs.live x h (hheld x h hx)
    unfold Scheduler.State.Live at hlive ⊢
    rwa [hpermits]
  · intro x y h h' hx hy
    exact hs.sole x y h h' (hheld x h hx) (hheld y h' hy)

theorem Wired.of_scheduler {scheduler : Scheduler.State} (hs : Wired s)
    (hqueue : ∀ q ∈ scheduler.queue, ∃ p ∈ s.scheduler.queue, p.entry = q.entry)
    (hnext : s.scheduler.nextTicket ≤ scheduler.nextTicket) :
    Wired { s with scheduler := scheduler } := by
  refine ⟨?_, hs.tickets, ?_, hs.runsOf, hs.runOf, hs.pending, hs.recover, hs.unresolved,
    hs.retained, hs.spare⟩
  · intro q hq
    obtain ⟨p, hp, hentry⟩ := hqueue q hq
    obtain ⟨hticket, hrequest⟩ := Prod.mk.inj hentry
    rw [← hticket, ← hrequest]
    exact hs.queued p hp
  · intro c k t hc
    exact lt_of_lt_of_le (hs.issued c k t hc) hnext

/-- Timers, checks and pressure fields. -/
theorem Sound.same {scheduler : Scheduler.State} (hs : Sound s)
    (hqueue : scheduler.queue.map PendingRequest.entry =
      s.scheduler.queue.map PendingRequest.entry)
    (hactive : scheduler.active = s.scheduler.active)
    (hpermits : scheduler.permits = s.scheduler.permits)
    (hnext : scheduler.nextTicket = s.scheduler.nextTicket)
    (hcount : scheduler.log.countP Event.grants = s.scheduler.log.countP Event.grants)
    (hlog : ∀ t, settlement t scheduler.log = settlement t s.scheduler.log) :
    Sound { s with scheduler := scheduler } := by
  refine ⟨hs.owned.of_scheduler
    (hs.owned.accounts.same hqueue hactive hpermits hnext hcount hlog) hpermits ?_,
    hs.wired.of_scheduler ?_ hnext.ge⟩
  · intro x h hx
    rwa [held_scheduler fun _ _ t _ => hlog t] at hx
  · intro q hq
    exact List.mem_map.1 (hqueue ▸ List.mem_map_of_mem hq)

/-- The call whose ticket is at the head of the queue gets the new permit. -/
theorem held_admitHead (hs : Sound s) {pending : PendingRequest} {rest : List PendingRequest}
    (hqueue : s.scheduler.queue = pending :: rest) {x : Place} {h : HeldPermit}
    (hx : ({ s with scheduler := admitHead pending rest s.scheduler } : State).held x = some h) :
    s.held x = some h ∨ h = ⟨pending.request.id, s.scheduler.permits.length⟩ ∧
      ∃ c, x = .call c ∧ s.calls c = some (.acquiring pending.request.id pending.ticket) := by
  obtain ⟨c₀, hc₀⟩ := hs.wired.queued pending (by simp [hqueue])
  cases x with
  | run runId => exact Or.inl hx
  | launch key => exact Or.inl hx
  | recovery key => exact Or.inl hx
  | call c =>
    have hbind : (s.calls c).bind (Call.held
        (.admitted pending.ticket pending.request s.scheduler.active :: s.scheduler.log)
        s.unresolvedRecoveries) = some h := hx
    show (s.calls c).bind _ = some h ∨ _
    cases hc : s.calls c with
    | none =>
      rw [hc] at hbind
      cases hbind
    | some call =>
      rw [hc, Option.bind_some] at hbind
      cases call with
      | acquiring k t =>
        by_cases ht : pending.ticket = t
        · subst ht
          obtain rfl := hs.wired.tickets c c₀ k _ _ hc hc₀
          obtain rfl : pending.request.id = k :=
            (Call.acquiring.inj (Option.some.inj (hc₀.symm.trans hc))).1
          right
          rw [Call.held, settlement, if_pos rfl] at hbind
          rw [hs.owned.accounts.count]
          exact ⟨(Option.some.inj hbind).symm, c, rfl, hc₀⟩
        · left
          rw [Call.held, settlement, if_neg ht] at hbind
          exact hbind
      | _ => exact Or.inl hbind

theorem Sound.admitHead (hs : Sound s) {pending : PendingRequest} {rest : List PendingRequest}
    (hqueue : s.scheduler.queue = pending :: rest) :
    Sound { s with scheduler := admitHead pending rest s.scheduler } := by
  have hlive : ∀ {n id}, s.scheduler.Live n id →
      (Scheduler.admitHead pending rest s.scheduler).Live n id := by
    intro n id h
    exact live_append.2 (Or.inl h)
  -- the id of a queued request is held nowhere
  have hunheld : ∀ {y h}, s.held y = some h → pending.request.id ≠ h.idempotencyKey := by
    intro y h hy hid
    obtain ⟨r, hr, hrid⟩ := hs.owned.accounts.active _ _ (hs.owned.live y h hy)
    exact hs.owned.accounts.apart pending (by simp [hqueue]) r hr (hrid.trans hid.symm)
  refine ⟨⟨hs.owned.accounts.admitHead hqueue, ?_, ?_⟩, hs.wired.of_scheduler ?_ (le_refl _)⟩
  · intro x h hx
    rcases held_admitHead hs hqueue hx with hx | ⟨rfl, -⟩
    · exact hlive (hs.owned.live x h hx)
    · exact live_append.2 (Or.inr ⟨rfl, rfl⟩)
  · intro x y h h' hx hy hkey
    rcases held_admitHead hs hqueue hx with hx | ⟨rfl, c, rfl, hc⟩ <;>
      rcases held_admitHead hs hqueue hy with hy | ⟨rfl, c', rfl, hc'⟩
    · exact hs.owned.sole x y h h' hx hy hkey
    · exact absurd hkey.symm (hunheld hx)
    · exact absurd hkey (hunheld hy)
    · rw [hs.wired.tickets c c' _ _ _ hc hc']
  · intro q hq
    exact ⟨q, by rw [hqueue]; exact List.mem_cons_of_mem _ hq, rfl⟩

theorem Sound.rejectHead {scheduler : Scheduler.State} (hs : Sound s) {pending : PendingRequest}
    {rest : List PendingRequest} {error : SchedulerError}
    (hqueue : s.scheduler.queue = pending :: rest)
    (hqueue' : scheduler.queue = rest) (hactive : scheduler.active = s.scheduler.active)
    (hpermits : scheduler.permits = s.scheduler.permits)
    (hnext : scheduler.nextTicket = s.scheduler.nextTicket)
    (hlog : scheduler.log = .rejected pending.ticket error :: s.scheduler.log) :
    Sound { s with scheduler := scheduler } := by
  refine ⟨hs.owned.of_scheduler
    (hs.owned.accounts.rejectHead hqueue hqueue' hactive hpermits hnext hlog) hpermits ?_,
    hs.wired.of_scheduler ?_ hnext.ge⟩
  · intro x h hx
    cases x with
    | run runId => exact hx
    | launch key => exact hx
    | recovery key => exact hx
    | call c =>
      have hbind : (s.calls c).bind (Call.held scheduler.log s.unresolvedRecoveries) = some h := hx
      show (s.calls c).bind _ = some h
      cases hc : s.calls c with
      | none =>
        rw [hc] at hbind
        cases hbind
      | some call =>
        rw [hc, Option.bind_some, hlog] at hbind
        cases call with
        | acquiring k t =>
          by_cases ht : pending.ticket = t
          · rw [Call.held, settlement, if_pos ht] at hbind
            cases hbind
          · rw [Call.held, settlement, if_neg ht] at hbind
            exact hbind
        | _ => exact hbind
  · intro q hq
    exact ⟨q, by rw [hqueue, ← hqueue']; exact List.mem_cons_of_mem _ hq, rfl⟩

/-- The loop of the scheduler keeps the invariant. -/
theorem Sound.drainFrom {scheduler : Scheduler.State} {clock : ℕ → ℤ}
    {queue : List PendingRequest} {n : ℕ} (hqueue : scheduler.queue = queue)
    (hidle : scheduler.checking = none) (hs : Sound { s with scheduler := scheduler }) :
    Sound { s with scheduler := drainFrom policy hooked clock queue n scheduler } := by
  refine drainFrom_keeps (P := fun scheduler => Sound { s with scheduler := scheduler })
    ?_ ?_ ?_ hqueue hidle hs
  · intro scheduler pending rest hqueue _ _ hs
    exact hs.admitHead hqueue
  · intro scheduler pending rest _ _ _ hs
    exact hs.same rfl rfl rfl rfl rfl (fun _ => rfl)
  · intro scheduler timer hs
    exact hs.same rfl rfl rfl rfl rfl (fun _ => rfl)

theorem Sound.drain {scheduler : Scheduler.State} {clock : ℕ → ℤ}
    (hs : Sound { s with scheduler := scheduler }) :
    Sound { s with scheduler := drain policy hooked clock scheduler } :=
  drain_keeps (P := fun scheduler => Sound { s with scheduler := scheduler }) Sound.drainFrom hs

theorem Sound.resumeDrain (hs : Sound s) {answer : PressureAnswer} {clock : ℕ → ℤ} :
    Sound { s with scheduler := resumeDrain policy hooked answer clock s.scheduler } := by
  refine resumeDrain_keeps (P := fun scheduler => Sound { s with scheduler := scheduler })
    Sound.drainFrom hs ?_ ?_ ?_ ?_
  · exact hs.same rfl rfl rfl rfl rfl (fun _ => rfl)
  · intro pending rest decision hqueue _ _ _
    have hidle : Sound { s with scheduler := { s.scheduler with checking := none } } :=
      hs.same rfl rfl rfl rfl rfl (fun _ => rfl)
    exact hidle.admitHead hqueue
  · intro pending rest error hqueue
    exact hs.rejectHead hqueue rfl rfl rfl rfl rfl
  · intro pending rest reason readyAt timer hqueue
    refine hs.same ?_ rfl rfl rfl rfl (fun _ => rfl)
    rw [hqueue]
    rfl

/-! ## Releases -/

/-- A permit whose key is held nowhere is given back. -/
theorem Sound.givenBack (hs : Sound s) {permit : ℕ} {id : String}
    (hlive : s.scheduler.Live permit id)
    (hfree : ∀ x h, s.held x = some h → h.idempotencyKey ≠ id) :
    Sound { s with scheduler := { s.scheduler with
      permits := s.scheduler.permits.set permit (id, true)
      active := s.scheduler.active.filter fun r => r.id ≠ id } } := by
  have hheld := @held_scheduler s
    { s.scheduler with permits := s.scheduler.permits.set permit (id, true)
                       active := s.scheduler.active.filter fun r => r.id ≠ id } fun _ _ _ _ => rfl
  refine ⟨⟨hs.owned.accounts.release hlive, ?_, ?_⟩, hs.wired.of_scheduler ?_ (le_refl _)⟩
  · intro x h hx
    rw [hheld] at hx
    have hheld := hs.owned.live x h hx
    have hne : h.release ≠ permit := by
      intro e
      rw [e] at hheld
      have hid : (id, false) = (h.idempotencyKey, false) :=
        Option.some.inj (hlive.symm.trans hheld)
      exact hfree x h hx (congrArg Prod.fst hid).symm
    unfold Scheduler.State.Live at hheld ⊢
    rwa [List.getElem?_set_ne hne.symm]
  · intro x y h h' hx hy
    rw [hheld] at hx hy
    exact hs.owned.sole x y h h' hx hy
  · intro q hq
    exact ⟨q, hq, rfl⟩

/-- A release function may be called when its key is held nowhere. -/
theorem Sound.callRelease (hs : Sound s) {permit : ℕ} {clock : ℕ → ℤ}
    (hfree : ∀ id, s.scheduler.Live permit id → ∀ x h, s.held x = some h →
      h.idempotencyKey ≠ id) : Sound (callRelease policy hooked permit clock s) := by
  unfold Limited.callRelease
  rcases release_cases policy hooked permit clock s.scheduler with h | ⟨id, hlive, h⟩
  · rw [h]
    exact hs
  · rw [h]
    exact (hs.givenBack hlive (hfree id hlive)).drain

/-! ## Moves -/

/-- What is held in the new state was held in the same place, or moved from `a` to `b`. -/
theorem Owned.transfer (hs : Owned s) (hscheduler : s'.scheduler = s.scheduler) (a b : Place)
    (hheld : ∀ x h, s'.held x = some h →
      s.held x = some h ∧ x ≠ a ∨ x = b ∧ s.held a = some h) : Owned s' := by
  refine ⟨hscheduler ▸ hs.accounts, ?_, ?_⟩
  · intro x h hx
    rw [hscheduler]
    rcases hheld x h hx with ⟨hx, -⟩ | ⟨-, ha⟩
    · exact hs.live x h hx
    · exact hs.live a h ha
  · intro x y h h' hx hy hkey
    rcases hheld x h hx with ⟨hx, hxa⟩ | ⟨rfl, hx⟩ <;>
      rcases hheld y h' hy with ⟨hy, hya⟩ | ⟨rfl, hy⟩
    · exact hs.sole x y h h' hx hy hkey
    · exact absurd (hs.sole x a h h' hx hy hkey) hxa
    · exact absurd (hs.sole a y h h' hx hy hkey).symm hya
    · rfl

/-- Places may be emptied. -/
theorem Owned.shrink (hs : Owned s) (hscheduler : s'.scheduler = s.scheduler)
    (hheld : ∀ x h, s'.held x = some h → s.held x = some h) : Owned s' := by
  refine ⟨hscheduler ▸ hs.accounts, ?_, ?_⟩
  · intro x h hx
    rw [hscheduler]
    exact hs.live x h (hheld x h hx)
  · intro x y h h' hx hy
    exact hs.sole x y h h' (hheld x h hx) (hheld y h' hy)

/-- The key of a place that is emptied is held nowhere. -/
theorem Owned.emptied (howned : Owned s) {a : Place} {h : HeldPermit} (ha : s.held a = some h)
    (hheld : ∀ x h', s'.held x = some h' → s.held x = some h' ∧ x ≠ a) :
    ∀ x h', s'.held x = some h' → h'.idempotencyKey ≠ h.idempotencyKey := by
  intro x h' hx hkey
  obtain ⟨hx, hxa⟩ := hheld x h' hx
  exact hxa (howned.sole x a h' h hx ha hkey)

/-- A place is emptied and its permit released. -/
theorem Sound.dropRelease (hs : Sound s') {a : Place} {h : HeldPermit} {clock : ℕ → ℤ}
    (howned : Owned s) (ha : s.held a = some h) (hscheduler : s'.scheduler = s.scheduler)
    (hheld : ∀ x h', s'.held x = some h' → s.held x = some h' ∧ x ≠ a) :
    Sound (Limited.callRelease policy hooked h.release clock s') := by
  refine hs.callRelease ?_
  intro id hid
  rw [hscheduler] at hid
  obtain rfl : h.idempotencyKey = id :=
    congrArg Prod.fst (Option.some.inj ((howned.live a h ha).symm.trans hid))
  exact howned.emptied ha hheld

theorem insert_apply {α : Type} (map : String → Option α) (key : String) (value : α) (k : String) :
    insert map key value k = if k = key then some value else map k :=
  Function.update_apply ..

theorem erase_apply {α : Type} (map : String → Option α) (key k : String) :
    erase map key k = if k = key then none else map k :=
  Function.update_apply ..

/-- No `recover` of the key awaits its lookup. -/
def NoLookup (s : State) (key : String) : Prop :=
  ∀ c u rr rp rec, s.calls c ≠ some (.lookingUp key u rr rp rec)

/-- A call goes on to a place where it holds no ticket and no variable of `recover`, or ends. -/
theorem Wired.calls (hs : Wired s) {c : ℕ} {call : Call} {next : Option Call}
    (hc : s.calls c = some call)
    (hticket : ∀ q ∈ s.scheduler.queue, call ≠ .acquiring q.request.id q.ticket)
    (hacquiring : ∀ k t, next ≠ some (.acquiring k t))
    (hlookup : ∀ k u rr rp rec, next ≠ some (.lookingUp k u rr rp rec))
    (hrecovers : ∀ call' k, next = some call' → call'.recovers = some k →
      call.recovers = some k) : Wired { s with calls := Function.update s.calls c next } := by
  refine ⟨?_, ?_, ?_, hs.runsOf, hs.runOf, ?_, ?_, ?_, ?_, ?_⟩
  · intro q hq
    obtain ⟨c', hc'⟩ := hs.queued q hq
    refine ⟨c', ?_⟩
    show Function.update s.calls c next c' = _
    rw [Function.update_of_ne, hc']
    rintro rfl
    exact hticket q hq (Option.some.inj (hc.symm.trans hc'))
  · intro c₁ c₂ k k' t h₁ h₂
    rcases Keyed.update_cases h₁ with ⟨-, h₁⟩ | ⟨-, h₁⟩
    · exact absurd h₁ (hacquiring k t)
    rcases Keyed.update_cases h₂ with ⟨-, h₂⟩ | ⟨-, h₂⟩
    · exact absurd h₂ (hacquiring k' t)
    exact hs.tickets c₁ c₂ k k' t h₁ h₂
  · intro c₁ k t h₁
    rcases Keyed.update_cases h₁ with ⟨-, h₁⟩ | ⟨-, h₁⟩
    · exact absurd h₁ (hacquiring k t)
    exact hs.issued c₁ k t h₁
  · intro c₁ call₁ k h₁ hk
    rcases Keyed.update_cases h₁ with ⟨-, h₁⟩ | ⟨-, h₁⟩
    · exact hs.pending c call k hc (hrecovers call₁ k h₁ hk)
    · exact hs.pending c₁ call₁ k h₁ hk
  · intro c₁ c₂ call₁ call₂ k h₁ h₂ hk₁ hk₂
    rcases Keyed.update_cases h₁ with ⟨rfl, hn₁⟩ | ⟨-, hn₁⟩ <;>
      rcases Keyed.update_cases h₂ with ⟨rfl, hn₂⟩ | ⟨-, hn₂⟩
    · rfl
    · exact hs.recover c₁ c₂ call call₂ k hc hn₂ (hrecovers call₁ k hn₁ hk₁) hk₂
    · exact hs.recover c₁ c₂ call₁ call k hn₁ hc hk₁ (hrecovers call₂ k hn₂ hk₂)
    · exact hs.recover c₁ c₂ call₁ call₂ k hn₁ hn₂ hk₁ hk₂
  · intro c₁ k u rr rp rec h₁
    rcases Keyed.update_cases h₁ with ⟨-, h₁⟩ | ⟨-, h₁⟩
    · exact absurd h₁ (hlookup k u rr rp rec)
    exact hs.unresolved c₁ k u rr rp rec h₁
  · intro c₁ k u rr rp rec h₁
    rcases Keyed.update_cases h₁ with ⟨-, h₁⟩ | ⟨-, h₁⟩
    · exact absurd h₁ (hlookup k u rr rp rec)
    exact hs.retained c₁ k u rr rp rec h₁
  · intro c₁ k u rr rp rec h₁
    rcases Keyed.update_cases h₁ with ⟨-, h₁⟩ | ⟨-, h₁⟩
    · exact absurd h₁ (hlookup k u rr rp rec)
    exact hs.spare c₁ k u rr rp rec h₁

/-- `recover` ends. -/
theorem Wired.leaveRecover (hs : Wired s) {c : ℕ} {call : Call} {key : String}
    (hc : s.calls c = some call) (hkey : call.recovers = some key) :
    Wired (s.leaveRecover c key) := by
  have hleft : Wired (s.leave c) := by
    refine hs.calls hc ?_ nofun nofun nofun
    rintro q - rfl
    cases hkey
  refine { hleft with pending := ?_ }
  intro c' call' k hc' hk
  show insert s.recoveries key .settled k = _
  rw [insert_apply, if_neg]
  · exact hleft.pending c' call' k hc' hk
  -- another call of `recover` for the key would be the call that ends
  rintro rfl
  have hne : c' ≠ c := by
    rintro rfl
    have hnone : (s.leave c').calls c' = none := Function.update_self ..
    cases hnone.symm.trans hc'
  have hold : s.calls c' = some call' := by
    have h : (s.leave c).calls c' = s.calls c' := Function.update_of_ne hne ..
    rw [← h]
    exact hc'
  exact hne (hs.recover c' c call' call k hold hc hk hkey)

/-- The maps may change where no lookup has read them. -/
theorem Wired.maps (hs : Wired s) (hscheduler : s'.scheduler = s.scheduler)
    (hcalls : s'.calls = s.calls) (hrecoveries : s'.recoveries = s.recoveries)
    (hruns : ∀ r h, s'.releases r = some h → s'.runIdsByIdempotencyKey h.idempotencyKey = some r)
    (hrun : ∀ k r, s'.runIdsByIdempotencyKey k = some r → ∃ p, s'.releases r = some ⟨k, p⟩)
    (hlaunches : ∀ k, s'.unresolvedLaunches k = s.unresolvedLaunches k ∨ NoLookup s k ∨
      s.unresolvedLaunches k = none)
    (hrecovers : ∀ k, s'.unresolvedRecoveries k = s.unresolvedRecoveries k ∨ NoLookup s k) :
    Wired s' := by
  refine ⟨?_, ?_, ?_, hruns, hrun, ?_, ?_, ?_, ?_, ?_⟩
  · rw [hscheduler, hcalls]
    exact hs.queued
  · rw [hcalls]
    exact hs.tickets
  · rw [hscheduler, hcalls]
    exact hs.issued
  · rw [hcalls, hrecoveries]
    exact hs.pending
  · rw [hcalls]
    exact hs.recover
  · rw [hcalls]
    intro c k u rr rp rec hc p hu
    have hold := hs.unresolved c k u rr rp rec hc p hu
    rcases hlaunches k with h | h | h
    · rw [h, hold]
    · exact absurd hc (h c u rr rp rec)
    · rw [hold] at h
      cases h
  · rw [hcalls]
    intro c k u rr rp rec hc
    rcases hrecovers k with h | h
    · rw [h]
      exact hs.retained c k u rr rp rec hc
    · exact absurd hc (h c u rr rp rec)
  · rw [hcalls]
    exact hs.spare

theorem held_calls (c : ℕ) (next : Option Call) (x : Place) :
    ({ s with calls := Function.update s.calls c next } : State).held x =
      if x = .call c then next.bind (Call.held s.scheduler.log s.unresolvedRecoveries)
      else s.held x := by
  cases x with
  | call c' =>
    by_cases h : c' = c
    · subst h
      simp [State.held]
    · simp [State.held, h]
  | _ => rfl

/-- What a call holds does not depend on the maps, but for the recovery it took its permit from. -/
theorem held_maps {s s' : State} (hscheduler : s'.scheduler = s.scheduler) (hcalls : s'.calls = s.calls)
    (hrecovers : ∀ k, s'.unresolvedRecoveries k = s.unresolvedRecoveries k ∨ NoLookup s k)
    (c : ℕ) : s'.held (.call c) = s.held (.call c) := by
  show (s'.calls c).bind _ = (s.calls c).bind _
  rw [hcalls, hscheduler]
  cases hc : s.calls c with
  | none => rfl
  | some call =>
    cases call with
    | lookingUp k u rr rp rec =>
      rcases hrecovers k with h | h
      · simp only [Option.bind_some, Call.held, h]
      · exact absurd hc (h c u rr rp rec)
    | _ => rfl

/-! ## Runs -/

/-- A run that is not held is given a permit that is held in another place of its key. -/
theorem Wired.bind (hs : Wired s) {runId key : String} {permit : ℕ}
    (hrun : s.releases runId = none) (hkey : ∀ r h, s.releases r = some h →
      h.idempotencyKey ≠ key) : Wired (bind runId key permit s) := by
  refine hs.maps rfl rfl rfl ?_ ?_ (fun _ => Or.inl rfl) (fun _ => Or.inl rfl)
  · intro r h hr
    have hr : insert s.releases runId ⟨key, permit⟩ r = some h := hr
    show insert s.runIdsByIdempotencyKey key runId h.idempotencyKey = some r
    rw [insert_apply] at hr ⊢
    split_ifs at hr with hrr
    · obtain rfl := Option.some.inj hr
      rw [if_pos rfl, hrr]
    · rw [if_neg (hkey r h hr)]
      exact hs.runsOf r h hr
  · intro k r hk
    have hk : insert s.runIdsByIdempotencyKey key runId k = some r := hk
    show ∃ p, insert s.releases runId ⟨key, permit⟩ r = _
    rw [insert_apply] at hk
    split_ifs at hk with hkk
    · obtain rfl := Option.some.inj hk
      exact ⟨permit, by rw [insert_apply, if_pos rfl, hkk]⟩
    · obtain ⟨p, hp⟩ := hs.runOf k r hk
      refine ⟨p, ?_⟩
      rw [insert_apply, if_neg, hp]
      rintro rfl
      rw [hrun] at hp
      cases hp

/-- The adapter without a run that it held. -/
def State.dropRun (s : State) (runId : String) (permit : HeldPermit) : State :=
  { s with runIdsByIdempotencyKey := erase s.runIdsByIdempotencyKey permit.idempotencyKey
           releases := erase s.releases runId }

theorem held_dropRun {runId : String} {permit : HeldPermit} {x : Place} :
    (s.dropRun runId permit).held x = if x = .run runId then none else s.held x := by
  cases x with
  | run r =>
    show erase s.releases runId r = _
    rw [erase_apply]
    by_cases hr : r = runId
    · rw [if_pos hr, if_pos (congrArg Place.run hr)]
    · rw [if_neg hr, if_neg fun e => hr (Place.run.inj e)]
      rfl
  | _ => rfl

theorem Sound.dropRun (hs : Sound s) {runId : String} {permit : HeldPermit}
    (hrun : s.releases runId = some permit) : Sound (s.dropRun runId permit) := by
  refine ⟨hs.owned.shrink rfl ?_, hs.wired.maps rfl rfl rfl ?_ ?_ (fun _ => Or.inl rfl)
    (fun _ => Or.inl rfl)⟩
  · intro x h hx
    rw [held_dropRun] at hx
    split_ifs at hx
    exact hx
  · intro r h hr
    have hr : erase s.releases runId r = some h := hr
    show erase s.runIdsByIdempotencyKey _ _ = some r
    rw [erase_apply] at hr ⊢
    split_ifs at hr with hrr
    rw [if_neg, hs.wired.runsOf r h hr]
    intro hkey
    have := hs.owned.sole (.run r) (.run runId) h permit hr hrun hkey
    exact hrr (Place.run.inj this)
  · intro k r hk
    have hk : erase s.runIdsByIdempotencyKey permit.idempotencyKey k = some r := hk
    show ∃ p, erase s.releases runId r = _
    rw [erase_apply] at hk
    split_ifs at hk with hkk
    obtain ⟨p, hp⟩ := hs.wired.runOf k r hk
    refine ⟨p, ?_⟩
    rw [erase_apply, if_neg, hp]
    rintro rfl
    rw [hrun] at hp
    exact hkk (congrArg HeldPermit.idempotencyKey (Option.some.inj hp)).symm

/-- The entry of a run may go before its permit is released. -/
theorem releaseRun_eq {runId : String} {clock : ℕ → ℤ} :
    Limited.releaseRun policy hooked runId clock s =
      match s.releases runId with
      | none => s
      | some permit => Limited.callRelease policy hooked permit.release clock
          (s.dropRun runId permit) := by
  unfold Limited.releaseRun
  cases s.releases runId <;> rfl

theorem dropRun_kept {runId : String} {permit : HeldPermit} {x : Place} {h : HeldPermit}
    (hx : (s.dropRun runId permit).held x = some h) : s.held x = some h ∧ x ≠ .run runId := by
  rw [held_dropRun] at hx
  split_ifs at hx with hne
  exact ⟨hx, hne⟩

/-- A run that was not held takes nothing away. -/
theorem held_bind {runId key : String} {permit : ℕ} (hrun : s.releases runId = none) {x : Place}
    {h : HeldPermit} (hx : s.held x = some h) : (bind runId key permit s).held x = some h := by
  cases x with
  | run r =>
    show insert s.releases runId _ r = some h
    rw [insert_apply, if_neg]
    · exact hx
    · rintro rfl
      have hx : s.releases r = some h := hx
      rw [hrun] at hx
      cases hx
  | _ => exact hx

/-- The permit of a run is given back. -/
theorem Sound.releaseRun (hs : Sound s) (runId : String) {clock : ℕ → ℤ} :
    Sound (releaseRun policy hooked runId clock s) := by
  rw [releaseRun_eq]
  cases hrun : s.releases runId with
  | none => exact hs
  | some permit =>
    exact (hs.dropRun hrun).dropRelease hs.owned (a := .run runId) hrun rfl fun _ _ => dropRun_kept

/-! ## `launch` -/

/-- A call that has just joined the queue holds nothing. -/
theorem held_await_acquiring (hs : Sound s) {c : ℕ} {key : String} {scheduler : Scheduler.State}
    (hlog : scheduler.log = s.scheduler.log) {x : Place} {h : HeldPermit}
    (hx : ({ s.await c (.acquiring key s.scheduler.nextTicket) with
      scheduler := scheduler } : State).held x = some h) : s.held x = some h := by
  rw [held_scheduler (s := s.await c (.acquiring key s.scheduler.nextTicket))
    fun _ _ _ _ => by rw [hlog]; rfl] at hx
  unfold State.await at hx
  rw [held_calls] at hx
  split_ifs at hx
  · rw [Option.bind_some, Call.held, hs.owned.accounts.past _ (le_refl _)] at hx
    cases hx
  · exact hx

/-- A new call of `launch` is in the queue. -/
theorem Wired.enqueue (hs : Wired s) {c : ℕ} (hc : s.calls c = none) (key : String)
    {scheduler : Scheduler.State} {request : AdmissionRequest} (hkey : request.id = key)
    (hqueue : scheduler.queue =
      s.scheduler.queue ++ [{ ticket := s.scheduler.nextTicket, request := request }])
    (hnext : scheduler.nextTicket = s.scheduler.nextTicket + 1) :
    Wired { s.await c (.acquiring key s.scheduler.nextTicket) with scheduler := scheduler } := by
  refine ⟨?_, ?_, ?_, hs.runsOf, hs.runOf, ?_, ?_, ?_, ?_, ?_⟩
  · intro q hq
    rw [hqueue] at hq
    rcases Keyed.mem_append_singleton.1 hq with hq | rfl
    · obtain ⟨c', hc'⟩ := hs.queued q hq
      refine ⟨c', ?_⟩
      show Function.update s.calls c _ c' = _
      rw [Function.update_of_ne, hc']
      rintro rfl
      cases hc.symm.trans hc'
    · exact ⟨c, by rw [hkey]; exact Function.update_self ..⟩
  · intro c₁ c₂ k k' t h₁ h₂
    rcases Keyed.update_cases h₁ with ⟨rfl, hn₁⟩ | ⟨-, hn₁⟩ <;>
      rcases Keyed.update_cases h₂ with ⟨rfl, hn₂⟩ | ⟨-, hn₂⟩
    · rfl
    · cases hn₁
      exact absurd (hs.issued c₂ k' _ hn₂) (lt_irrefl _)
    · cases hn₂
      exact absurd (hs.issued c₁ k _ hn₁) (lt_irrefl _)
    · exact hs.tickets c₁ c₂ k k' t hn₁ hn₂
  · intro c₁ k t h₁
    rw [hnext]
    rcases Keyed.update_cases h₁ with ⟨-, hn₁⟩ | ⟨-, hn₁⟩
    · cases hn₁
      exact Nat.lt_succ_self _
    · exact Nat.lt_succ_of_lt (hs.issued c₁ k t hn₁)
  · intro c₁ call k h₁ hk
    rcases Keyed.update_cases h₁ with ⟨-, hn₁⟩ | ⟨-, hn₁⟩
    · cases hn₁
      cases hk
    · exact hs.pending c₁ call k hn₁ hk
  · intro c₁ c₂ call₁ call₂ k h₁ h₂ hk₁ hk₂
    rcases Keyed.update_cases h₁ with ⟨-, hn₁⟩ | ⟨-, hn₁⟩
    · cases hn₁
      cases hk₁
    rcases Keyed.update_cases h₂ with ⟨-, hn₂⟩ | ⟨-, hn₂⟩
    · cases hn₂
      cases hk₂
    exact hs.recover c₁ c₂ call₁ call₂ k hn₁ hn₂ hk₁ hk₂
  · intro c₁ k u rr rp rec h₁
    rcases Keyed.update_cases h₁ with ⟨-, hn₁⟩ | ⟨-, hn₁⟩
    · cases hn₁
    · exact hs.unresolved c₁ k u rr rp rec hn₁
  · intro c₁ k u rr rp rec h₁
    rcases Keyed.update_cases h₁ with ⟨-, hn₁⟩ | ⟨-, hn₁⟩
    · cases hn₁
    · exact hs.retained c₁ k u rr rp rec hn₁
  · intro c₁ k u rr rp rec h₁
    rcases Keyed.update_cases h₁ with ⟨-, hn₁⟩ | ⟨-, hn₁⟩
    · cases hn₁
    · exact hs.spare c₁ k u rr rp rec hn₁

/-- A new call of `launch` is in the queue and the scheduler has not drained yet. -/
theorem Sound.enqueue (hs : Sound s) {c : ℕ} (hc : s.calls c = none)
    {request : AdmissionRequest} (hnew : knownId request.id s.scheduler = false) :
    Sound { s.await c (.acquiring request.id s.scheduler.nextTicket) with
      scheduler := { s.scheduler with
        queue := s.scheduler.queue ++ [{ ticket := s.scheduler.nextTicket, request := request }]
        nextTicket := s.scheduler.nextTicket + 1 } } := by
  refine ⟨⟨hs.owned.accounts.enqueue hnew, ?_, ?_⟩, hs.wired.enqueue hc request.id rfl rfl rfl⟩
  · intro x h hx
    exact hs.owned.live x h (held_await_acquiring hs rfl hx)
  · intro x y h h' hx hy
    exact hs.owned.sole x y h h' (held_await_acquiring hs rfl hx) (held_await_acquiring hs rfl hy)

theorem Sound.launch (hs : Sound s) {c : ℕ} (hc : s.calls c = none) (key : String)
    (scope : Option ConcurrencyScope) (clock : ℕ → ℤ) :
    Sound (launch policy hooked c key scope clock s) := by
  unfold Limited.launch
  cases scope with
  | none => exact hs
  | some scope =>
    dsimp only
    split
    · rename_i e scheduler hacquire
      rw [acquire_error hacquire]
      exact hs
    · rename_i ticket scheduler hacquire
      obtain ⟨hnew, rfl, rfl⟩ := acquire_ok hacquire
      -- the call is there before the scheduler drains
      exact (hs.enqueue hc hnew).drain

/-- A call goes on or ends, and holds at most what it held. -/
theorem Owned.calls (hs : Owned s) {c : ℕ} {next : Option Call}
    (hnext : ∀ h, next.bind (Call.held s.scheduler.log s.unresolvedRecoveries) = some h →
      s.held (.call c) = some h) :
    Owned { s with calls := Function.update s.calls c next } := by
  refine hs.shrink rfl ?_
  intro x h hx
  rw [held_calls] at hx
  split_ifs at hx with hxc
  · rw [hxc]
    exact hnext h hx
  · exact hx

theorem Sound.acquired (hs : Sound s) {c : ℕ} {key : String} {ticket : ℕ}
    (hc : s.calls c = some (.acquiring key ticket)) : Sound (acquired c key ticket s) := by
  have hheld : s.held (.call c) = Call.held s.scheduler.log s.unresolvedRecoveries
      (.acquiring key ticket) := by
    show (s.calls c).bind _ = _
    rw [hc, Option.bind_some]
  have hqueue : settlement ticket s.scheduler.log ≠ none → ∀ q ∈ s.scheduler.queue,
      Call.acquiring key ticket ≠ .acquiring q.request.id q.ticket := by
    intro hsettled q hq heq
    obtain ⟨-, rfl⟩ := Call.acquiring.inj heq
    exact hsettled (hs.owned.accounts.queued q hq).2
  unfold Limited.acquired
  cases hsettled : settlement ticket s.scheduler.log with
  | none => exact hs
  | some outcome =>
    rw [hsettled] at hqueue
    have hticket := hqueue nofun
    cases outcome with
    | error e => exact ⟨hs.owned.calls nofun, hs.wired.calls hc hticket nofun nofun nofun⟩
    | ok permit =>
      refine ⟨hs.owned.calls ?_, hs.wired.calls hc hticket nofun nofun ?_⟩
      · intro h hh
        rw [hheld, Call.held, hsettled]
        exact hh
      · intro call' k hcall hk
        cases hcall
        cases hk

/-- The permit of a launch whose outcome is unknown is kept under its key. -/
theorem Sound.unresolved (hs : Sound s) {c : ℕ} {key : String} {release : ℕ}
    (hc : s.calls c = some (.launching key release)) :
    Sound { s.leave c with unresolvedLaunches := insert s.unresolvedLaunches key release } := by
  have hheld : s.held (.call c) = some ⟨key, release⟩ := by
    show (s.calls c).bind _ = _
    rw [hc]
    rfl
  have hleft : Wired (s.leave c) := hs.wired.calls hc nofun nofun nofun nofun
  refine ⟨hs.owned.transfer rfl (.call c) (.launch key) ?_, hleft.maps rfl rfl rfl hleft.runsOf
    hleft.runOf ?_ (fun _ => Or.inl rfl)⟩
  · intro x h hx
    cases x with
    | run r => exact Or.inl ⟨hx, nofun⟩
    | recovery k => exact Or.inl ⟨hx, nofun⟩
    | launch k =>
      have hx : (insert s.unresolvedLaunches key release k).map _ = some h := hx
      rw [insert_apply] at hx
      split_ifs at hx with hk
      · rw [Option.map_some] at hx
        rw [hk] at hx ⊢
        exact Or.inr ⟨rfl, hheld.trans hx⟩
      · exact Or.inl ⟨hx, nofun⟩
    | call c' =>
      have hx : (s.leave c).held (.call c') = some h := hx
      unfold State.leave at hx
      rw [held_calls] at hx
      split_ifs at hx with hcc
      · cases hx
      · exact Or.inl ⟨hx, hcc⟩
  · intro k
    show insert s.unresolvedLaunches key release k = _ ∨ _
    rw [insert_apply]
    split_ifs with hk
    · right; right
      subst hk
      by_contra hsome
      obtain ⟨p, hp⟩ := Option.ne_none_iff_exists'.1 hsome
      have hlaunch : s.held (.launch k) = some ⟨k, p⟩ := by
        show (s.unresolvedLaunches k).map _ = _
        rw [show s.unresolvedLaunches k = some p from hp]
        rfl
      cases hs.owned.sole (.launch k) (.call c) _ _ hlaunch hheld rfl
    · exact Or.inl rfl

/-- The permit of a place is held for a run from now on. -/
theorem Owned.bindFrom (hs : Owned s') {a : Place} {runId key : String} {permit : ℕ}
    (ha : s'.held a = some ⟨key, permit⟩) (hscheduler : s.scheduler = s'.scheduler)
    (hheld : ∀ x h, s.held x = some h → s'.held x = some h ∧ x ≠ a) :
    Owned (bind runId key permit s) := by
  refine hs.transfer hscheduler a (.run runId) ?_
  intro x h hx
  cases x with
  | run r =>
    have hx : insert s.releases runId ⟨key, permit⟩ r = some h := hx
    rw [insert_apply] at hx
    split_ifs at hx with hr
    · exact Or.inr ⟨by rw [hr], ha.trans hx⟩
    · exact Or.inl (hheld (.run r) h hx)
  | launch k => exact Or.inl (hheld (.launch k) h hx)
  | recovery k => exact Or.inl (hheld (.recovery k) h hx)
  | call c => exact Or.inl (hheld (.call c) h hx)

theorem Sound.launched (hs : Sound s) {c : ℕ} {key : String} {release : ℕ}
    (hc : s.calls c = some (.launching key release)) (answer : Option String) (clock : ℕ → ℤ) :
    Sound (launched policy hooked c key release answer clock s) := by
  have hheld : s.held (.call c) = some ⟨key, release⟩ := by
    show (s.calls c).bind _ = _
    rw [hc]
    rfl
  unfold Limited.launched
  cases answer with
  | none => exact hs.unresolved hc
  | some runId =>
    dsimp only
    cases hrun : s.releases runId with
    | some existing =>
      dsimp only
      split_ifs with hkey
      · exact hs.unresolved hc
      · -- the key would be held twice
        cases hs.owned.sole (.run runId) (.call c) _ _ hrun hheld (not_not.1 hkey)
    | none =>
      have hleft : Wired (s.leave c) := hs.wired.calls hc nofun nofun nofun nofun
      refine ⟨hs.owned.bindFrom (s := s.leave c) hheld rfl ?_, hleft.bind hrun ?_⟩
      · intro x h hx
        unfold State.leave at hx
        rw [held_calls] at hx
        split_ifs at hx with hxc
        · cases hx
        · exact ⟨hx, hxc⟩
      · intro r h hr hkey
        cases hs.owned.sole (.run r) (.call c) _ _ hr hheld hkey

/-! ## `recover` -/

/-- A new call of `recover`, with the variables it has read. -/
theorem Wired.lookingUp (hs : Wired s) {c : ℕ} (hc : s.calls c = none) {key : String}
    (hfree : s.recoveries key = none) {rr : Option String} {rp : Option HeldPermit}
    {rec : Option ℕ}
    (hrec : s.unresolvedRecoveries key = none ∨ s.unresolvedRecoveries key = rec)
    (hspare : rp ≠ none → rec = none) :
    Wired ({ s with recoveries := insert s.recoveries key .pending }.await c
      (.lookingUp key (s.unresolvedLaunches key) rr rp rec)) := by
  -- no other call recovers the key
  have hnone : ∀ {c' call' k}, s.calls c' = some call' → call'.recovers = some k → k ≠ key := by
    rintro c' call' k hc' hk rfl
    cases hfree.symm.trans (hs.pending c' call' k hc' hk)
  refine ⟨?_, ?_, ?_, hs.runsOf, hs.runOf, ?_, ?_, ?_, ?_, ?_⟩
  · intro q hq
    obtain ⟨c', hc'⟩ := hs.queued q hq
    refine ⟨c', ?_⟩
    show Function.update s.calls c _ c' = _
    rw [Function.update_of_ne, hc']
    rintro rfl
    cases hc.symm.trans hc'
  · intro c₁ c₂ k k' t h₁ h₂
    rcases Keyed.update_cases h₁ with ⟨-, hn₁⟩ | ⟨-, hn₁⟩
    · cases hn₁
    rcases Keyed.update_cases h₂ with ⟨-, hn₂⟩ | ⟨-, hn₂⟩
    · cases hn₂
    exact hs.tickets c₁ c₂ k k' t hn₁ hn₂
  · intro c₁ k t h₁
    rcases Keyed.update_cases h₁ with ⟨-, hn₁⟩ | ⟨-, hn₁⟩
    · cases hn₁
    exact hs.issued c₁ k t hn₁
  · intro c₁ call₁ k h₁ hk
    show insert s.recoveries key .pending k = _
    rw [insert_apply]
    rcases Keyed.update_cases h₁ with ⟨-, hn₁⟩ | ⟨-, hn₁⟩
    · cases hn₁
      rw [if_pos (Option.some.inj hk).symm]
    · rw [if_neg (hnone hn₁ hk)]
      exact hs.pending c₁ call₁ k hn₁ hk
  · intro c₁ c₂ call₁ call₂ k h₁ h₂ hk₁ hk₂
    rcases Keyed.update_cases h₁ with ⟨rfl, hn₁⟩ | ⟨-, hn₁⟩ <;>
      rcases Keyed.update_cases h₂ with ⟨rfl, hn₂⟩ | ⟨-, hn₂⟩
    · rfl
    · cases hn₁
      exact absurd (Option.some.inj hk₁).symm (hnone hn₂ hk₂)
    · cases hn₂
      exact absurd (Option.some.inj hk₂).symm (hnone hn₁ hk₁)
    · exact hs.recover c₁ c₂ call₁ call₂ k hn₁ hn₂ hk₁ hk₂
  · intro c₁ k u rr' rp' rec' h₁ p hu
    rcases Keyed.update_cases h₁ with ⟨-, hn₁⟩ | ⟨-, hn₁⟩
    · cases hn₁
      exact hu
    · exact hs.unresolved c₁ k u rr' rp' rec' hn₁ p hu
  · intro c₁ k u rr' rp' rec' h₁
    rcases Keyed.update_cases h₁ with ⟨-, hn₁⟩ | ⟨-, hn₁⟩
    · cases hn₁
      exact hrec
    · exact hs.retained c₁ k u rr' rp' rec' hn₁
  · intro c₁ k u rr' rp' rec' h₁
    rcases Keyed.update_cases h₁ with ⟨-, hn₁⟩ | ⟨-, hn₁⟩
    · cases hn₁
      exact hspare
    · exact hs.spare c₁ k u rr' rp' rec' hn₁

/-- An entry of `recoveries` may be settled or forgotten when no call is about its key. -/
theorem Sound.recoveries (hs : Sound s) {recoveries : String → Option Recovery}
    (h : ∀ k, s.recoveries k = some .pending → recoveries k = some .pending) :
    Sound { s with recoveries := recoveries } :=
  ⟨⟨hs.owned.accounts, hs.owned.live, hs.owned.sole⟩,
    { hs.wired with pending := fun c call k hc hk => h k (hs.wired.pending c call k hc hk) }⟩

/-- `recover` has reserved a permit. -/
theorem Owned.grantCall (hs : Owned s) {c : ℕ} {request : AdmissionRequest}
    {scheduler : Scheduler.State}
    (hscheduler : scheduler = activate request
      { s.scheduler with log := .existing request.id :: s.scheduler.log })
    (hnew : knownId request.id s.scheduler = false)
    (hnone : s.unresolvedRecoveries request.id = none) {u : Option ℕ} {rr : Option String}
    {rp : Option HeldPermit} {recoveries : String → Option Recovery} :
    Owned (({ s with scheduler := scheduler, recoveries := recoveries } : State).await c
      (.lookingUp request.id u rr rp (some s.scheduler.permits.length))) := by
  have hlog : ∀ t, settlement t scheduler.log = settlement t s.scheduler.log := by
    intro t
    rw [hscheduler]
    rfl
  have hlive : ∀ {n id}, scheduler.Live n id ↔
      s.scheduler.Live n id ∨ (n = s.scheduler.permits.length ∧ id = request.id) := by
    intro n id
    rw [hscheduler]
    exact live_append
  have hcases : ∀ {x h}, (({ s with scheduler := scheduler, recoveries := recoveries } :
      State).await c (.lookingUp request.id u rr rp (some s.scheduler.permits.length))).held x =
        some h →
      x = .call c ∧ h = ⟨request.id, s.scheduler.permits.length⟩ ∨ s.held x = some h := by
    intro x h hx
    unfold State.await at hx
    rw [held_calls] at hx
    split_ifs at hx with hxc
    · rw [Option.bind_some, Call.held, if_pos hnone] at hx
      exact Or.inl ⟨hxc, (Option.some.inj hx).symm⟩
    · right
      rw [← held_scheduler fun _ _ t _ => hlog t]
      exact hx
  -- the id was not active, so it was held nowhere
  have hunheld : ∀ {y h}, s.held y = some h → request.id ≠ h.idempotencyKey := by
    intro y h hy hid
    obtain ⟨r, hr, hrid⟩ := hs.accounts.active _ _ (hs.live y h hy)
    have hnot : s.scheduler.active.any (·.id = request.id) = false :=
      (Bool.or_eq_false_iff.1 hnew).1
    have hany : s.scheduler.active.any (·.id = request.id) = true :=
      List.any_eq_true.2 ⟨r, hr, decide_eq_true (hrid.trans hid.symm)⟩
    rw [hnot] at hany
    cases hany
  refine ⟨hscheduler ▸ hs.accounts.existing hnew, ?_, ?_⟩
  · intro x h hx
    rcases hcases hx with ⟨-, rfl⟩ | hx
    · exact hlive.2 (Or.inr ⟨rfl, rfl⟩)
    · exact hlive.2 (Or.inl (hs.live x h hx))
  · intro x y h h' hx hy hkey
    rcases hcases hx with ⟨rfl, rfl⟩ | hx <;> rcases hcases hy with ⟨rfl, rfl⟩ | hy
    · rfl
    · exact absurd hkey (hunheld hy)
    · exact absurd hkey.symm (hunheld hx)
    · exact hs.sole x y h h' hx hy hkey

theorem Sound.findByIdempotencyKey (hs : Sound s) {c : ℕ} (hc : s.calls c = none) (key : String)
    (scope : Option ConcurrencyScope) : Sound (findByIdempotencyKey c key scope s) := by
  unfold Limited.findByIdempotencyKey
  split_ifs with hjoin
  · exact hs
  have hfree : s.recoveries key = none := Option.not_isSome_iff_eq_none.1 hjoin
  have hsettle : Sound { s with recoveries := insert s.recoveries key .settled } := by
    refine hs.recoveries ?_
    intro k hk
    rw [insert_apply, if_neg, hk]
    rintro rfl
    cases hfree.symm.trans hk
  dsimp only
  split_ifs with hnone
  · obtain ⟨hl, hr, hp⟩ := hnone
    cases scope with
    | none => exact hsettle
    | some scope =>
      dsimp only
      split
      · exact hsettle
      · rename_i permit scheduler hexisting
        obtain ⟨hknown, rfl, rfl⟩ := acquireExisting_ok hexisting
        refine ⟨@Owned.grantCall s hs.owned c ⟨scope, key, false⟩ _ rfl hknown hr _ _ _ _, ?_⟩
        have hwired := @Wired.of_scheduler s
          (activate ⟨scope, key, false⟩
            { s.scheduler with log := .existing key :: s.scheduler.log }) hs.wired
          (fun q hq => ⟨q, hq, rfl⟩) (le_refl _)
        exact hwired.lookingUp hc hfree (Or.inl hr) (absurd hp)
  · refine ⟨?_, hs.wired.lookingUp hc hfree (Or.inr rfl) ?_⟩
    swap
    · intro hheld
      by_contra hrecovery
      obtain ⟨h, hh⟩ := Option.ne_none_iff_exists'.1 hheld
      obtain ⟨p, hp⟩ := Option.ne_none_iff_exists'.1 hrecovery
      obtain ⟨r, hr, hrelease⟩ := Option.bind_eq_some_iff.1 hh
      obtain ⟨q, hq⟩ := hs.wired.runOf key r hr
      -- the key would be held for a run and for a recovery
      have hplace : s.held (.recovery key) = some ⟨key, p⟩ := by
        show (s.unresolvedRecoveries key).map _ = _
        rw [hp]
        rfl
      cases hs.owned.sole (.run r) (.recovery key) _ _ hq hplace rfl
    have hpending : Owned { s with recoveries := insert s.recoveries key .pending } :=
      ⟨hs.owned.accounts, hs.owned.live, hs.owned.sole⟩
    refine hpending.calls ?_
    intro h hh
    rw [Option.bind_some, Call.held] at hh
    split_ifs at hh with hr
    have hr' : s.unresolvedRecoveries key = none := hr
    rw [hr'] at hh
    cases hh

/-- The flags of a recovery hold nothing. -/
theorem Sound.flags (hs : Sound s) (recoveringRuns terminalRuns : String → Bool) :
    Sound { s with recoveringRuns := recoveringRuns, terminalRuns := terminalRuns } :=
  ⟨⟨hs.owned.accounts, hs.owned.live, hs.owned.sole⟩, { hs.wired with }⟩

/-- The state `s'` after the lookup of `recover`, up to what is done with permits: the call `c` is
at its end or at `inspectRecoveredRun`, and entries of its key may be gone. -/
structure AfterLookup (s : State) (c : ℕ) (key : String) (s' : State) : Prop where
  scheduler : s'.scheduler = s.scheduler
  releases : s'.releases = s.releases
  runIds : s'.runIdsByIdempotencyKey = s.runIdsByIdempotencyKey
  launches : ∀ k, s'.unresolvedLaunches k = s.unresolvedLaunches k ∨
    k = key ∧ s'.unresolvedLaunches k = none
  recovers : ∀ k, s'.unresolvedRecoveries k = s.unresolvedRecoveries k ∨
    k = key ∧ s'.unresolvedRecoveries k = none
  calls : ∃ next : Option Call, s'.calls = Function.update s.calls c next ∧
    ∀ log recovers, next.bind (Call.held log recovers) = none
  wired : Wired s'

variable {c : ℕ} {key : String} {u : Option ℕ} {rr : Option String} {rp : Option HeldPermit}
  {rec : Option ℕ}

theorem AfterLookup.held (h : AfterLookup s c key s') (hs : Sound s)
    (hc : s.calls c = some (.lookingUp key u rr rp rec)) {x : Place} {p : HeldPermit}
    (hx : s'.held x = some p) :
    s.held x = some p ∧ x ≠ .call c ∧ (s'.unresolvedLaunches key = none → x ≠ .launch key) ∧
      (s'.unresolvedRecoveries key = none → x ≠ .recovery key) := by
  cases x with
  | run r =>
    have hx : s'.releases r = some p := hx
    rw [h.releases] at hx
    exact ⟨hx, nofun, nofun, nofun⟩
  | launch k =>
    have hx : (s'.unresolvedLaunches k).map (HeldPermit.mk k) = some p := hx
    refine ⟨?_, nofun, ?_, nofun⟩
    · rcases h.launches k with hk | ⟨-, hk⟩
      · rw [hk] at hx
        exact hx
      · rw [hk] at hx
        cases hx
    · rintro hnone ⟨⟩
      rw [hnone] at hx
      cases hx
  | recovery k =>
    have hx : (s'.unresolvedRecoveries k).map (HeldPermit.mk k) = some p := hx
    refine ⟨?_, nofun, nofun, ?_⟩
    · rcases h.recovers k with hk | ⟨-, hk⟩
      · rw [hk] at hx
        exact hx
      · rw [hk] at hx
        cases hx
    · rintro hnone ⟨⟩
      rw [hnone] at hx
      cases hx
  | call c' =>
    obtain ⟨next, hcalls, hnext⟩ := h.calls
    have hx : (s'.calls c').bind (Call.held s'.scheduler.log s'.unresolvedRecoveries) = some p := hx
    rw [hcalls, h.scheduler, Function.update_apply] at hx
    split_ifs at hx with hcc
    · rw [hnext] at hx
      cases hx
    refine ⟨?_, fun e => hcc (Place.call.inj e), nofun, nofun⟩
    show (s.calls c').bind _ = some p
    cases hc' : s.calls c' with
    | none =>
      rw [hc'] at hx
      cases hx
    | some call =>
      rw [hc', Option.bind_some] at hx
      cases call with
      | lookingUp k u' rr' rp' rec' =>
        -- another call of `recover` is about another key
        have hk : k ≠ key := by
          rintro rfl
          exact hcc (hs.wired.recover c' c _ _ k hc' hc rfl rfl)
        rcases h.recovers k with hsame | ⟨hkey, -⟩
        · rw [Call.held, hsame] at hx
          exact hx
        · exact absurd hkey hk
      | _ => exact hx

theorem AfterLookup.sound (h : AfterLookup s c key s') (hs : Sound s)
    (hc : s.calls c = some (.lookingUp key u rr rp rec)) : Sound s' :=
  ⟨hs.owned.shrink h.scheduler fun _ _ hx => (h.held hs hc hx).1, h.wired⟩

/-- The call is the only lookup of its key. -/
theorem noLookup_after (hs : Sound s) (hc : s.calls c = some (.lookingUp key u rr rp rec))
    (next : Option Call) (hnext : ∀ k u rr rp rec, next ≠ some (.lookingUp k u rr rp rec))
    (hcalls : s'.calls = Function.update s.calls c next) : NoLookup s' key := by
  intro c' u' rr' rp' rec' hc'
  rw [hcalls, Function.update_apply] at hc'
  split_ifs at hc' with hcc
  · exact hnext key u' rr' rp' rec' hc'
  · exact hcc (hs.wired.recover c' c _ _ key hc' hc rfl rfl)

/-- Entries of a key no lookup is about may be removed. -/
theorem AfterLookup.erased (hs : Wired s') {launches recovers : String → Option ℕ}
    (hnone : NoLookup s' key)
    (hlaunches : launches = s'.unresolvedLaunches ∨ launches = erase s'.unresolvedLaunches key)
    (hrecovers : recovers = s'.unresolvedRecoveries ∨
      recovers = erase s'.unresolvedRecoveries key) :
    (∀ k, launches k = s'.unresolvedLaunches k ∨ k = key ∧ launches k = none) ∧
      (∀ k, recovers k = s'.unresolvedRecoveries k ∨ k = key ∧ recovers k = none) ∧
      Wired { s' with unresolvedLaunches := launches, unresolvedRecoveries := recovers } := by
  have herased : ∀ {map map' : String → Option ℕ}, map' = map ∨ map' = erase map key →
      ∀ k, map' k = map k ∨ k = key ∧ map' k = none := by
    rintro map map' (rfl | rfl) k
    · exact Or.inl rfl
    · rw [erase_apply]
      split_ifs with hk
      · exact Or.inr ⟨hk, rfl⟩
      · exact Or.inl rfl
  refine ⟨herased hlaunches, herased hrecovers, ?_⟩
  refine hs.maps rfl rfl rfl hs.runsOf hs.runOf ?_ ?_
  · intro k
    rcases herased hlaunches k with hk | ⟨rfl, -⟩
    · exact Or.inl hk
    · exact Or.inr (Or.inl hnone)
  · intro k
    rcases herased hrecovers k with hk | ⟨rfl, -⟩
    · exact Or.inl hk
    · exact Or.inr hnone

/-- `recover` ends after its lookup, and entries of its key are removed. -/
theorem AfterLookup.left (hs : Sound s) (hc : s.calls c = some (.lookingUp key u rr rp rec))
    {launches recovers : String → Option ℕ}
    (hlaunches : launches = s.unresolvedLaunches ∨ launches = erase s.unresolvedLaunches key)
    (hrecovers : recovers = s.unresolvedRecoveries ∨ recovers = erase s.unresolvedRecoveries key) :
    AfterLookup s c key { s.leaveRecover c key with
      unresolvedLaunches := launches, unresolvedRecoveries := recovers } := by
  have hwired : Wired (s.leaveRecover c key) := hs.wired.leaveRecover hc rfl
  have hnone : NoLookup (s.leaveRecover c key) key := noLookup_after hs hc none nofun rfl
  obtain ⟨hl, hr, hmaps⟩ := AfterLookup.erased hwired hnone hlaunches hrecovers
  exact ⟨rfl, rfl, rfl, hl, hr, ⟨none, rfl, fun _ _ => rfl⟩, hmaps⟩

/-- `recover` goes on to `inspectRecoveredRun`, and entries of its key are removed. -/
theorem AfterLookup.inspecting (hs : Sound s)
    (hc : s.calls c = some (.lookingUp key u rr rp rec)) (runId : String) (recovering : Bool)
    {launches recovers : String → Option ℕ}
    (hlaunches : launches = s.unresolvedLaunches ∨ launches = erase s.unresolvedLaunches key)
    (hrecovers : recovers = s.unresolvedRecoveries ∨ recovers = erase s.unresolvedRecoveries key) :
    AfterLookup s c key { s.await c (.inspecting key runId recovering) with
      unresolvedLaunches := launches, unresolvedRecoveries := recovers } := by
  have hwired : Wired (s.await c (.inspecting key runId recovering)) := by
    refine hs.wired.calls hc nofun nofun nofun ?_
    intro call' k hcall hk
    cases hcall
    exact hk
  have hnone : NoLookup (s.await c (.inspecting key runId recovering)) key :=
    noLookup_after hs hc (some (.inspecting key runId recovering)) nofun rfl
  obtain ⟨hl, hr, hmaps⟩ := AfterLookup.erased hwired hnone hlaunches hrecovers
  exact ⟨rfl, rfl, rfl, hl, hr, ⟨_, rfl, fun _ _ => rfl⟩, hmaps⟩

/-- The places of the key that are empty after the lookup. -/
def Freed (s' : State) (c : ℕ) (key : String) (a : Place) : Prop :=
  a = .call c ∨ a = .launch key ∧ s'.unresolvedLaunches key = none ∨
    a = .recovery key ∧ s'.unresolvedRecoveries key = none

theorem Freed.recovery {a : Place} (ha : a = .call c ∨ a = .recovery key)
    (hnone : s'.unresolvedRecoveries key = none) : Freed s' c key a := by
  rcases ha with ha | ha
  · exact Or.inl ha
  · exact Or.inr (Or.inr ⟨ha, hnone⟩)

theorem erase_self {α : Type} (map : String → Option α) (key : String) : erase map key key = none :=
  Function.update_self ..

theorem AfterLookup.unfreed (h : AfterLookup s c key s') (hs : Sound s)
    (hc : s.calls c = some (.lookingUp key u rr rp rec)) {a : Place} (ha : Freed s' c key a)
    {x : Place} {p : HeldPermit} (hx : s'.held x = some p) : s.held x = some p ∧ x ≠ a := by
  obtain ⟨hx, hcall, hlaunch, hrecovery⟩ := h.held hs hc hx
  refine ⟨hx, ?_⟩
  rcases ha with rfl | ⟨rfl, ha⟩ | ⟨rfl, ha⟩
  · exact hcall
  · exact hlaunch ha
  · exact hrecovery ha

/-- The permit of an unresolved launch is still held for it. -/
theorem held_unresolved (hs : Sound s) {p : ℕ}
    (hc : s.calls c = some (.lookingUp key (some p) rr rp rec)) :
    s.held (.launch key) = some ⟨key, p⟩ := by
  show (s.unresolvedLaunches key).map _ = _
  rw [hs.wired.unresolved c key _ rr rp rec hc p rfl]
  rfl

/-- The permit of a recovery is held by the call or still for the recovery it was taken from. -/
theorem held_recovery (hs : Sound s) {p : ℕ}
    (hc : s.calls c = some (.lookingUp key u rr rp (some p))) :
    ∃ a, s.held a = some ⟨key, p⟩ ∧ (a = .call c ∨ a = .recovery key) := by
  by_cases hnone : s.unresolvedRecoveries key = none
  · refine ⟨.call c, ?_, Or.inl rfl⟩
    show (s.calls c).bind _ = _
    rw [hc, Option.bind_some, Call.held, if_pos hnone]
    rfl
  · refine ⟨.recovery key, ?_, Or.inr rfl⟩
    show (s.unresolvedRecoveries key).map _ = _
    rw [(hs.wired.retained c key u rr rp (some p) hc).resolve_left hnone]
    rfl

/-- A lookup does not hold a permit of an unresolved launch and one of a recovery. -/
theorem unresolved_or_recovery (hs : Sound s) {p q : ℕ} :
    s.calls c ≠ some (.lookingUp key (some p) rr rp (some q)) := by
  intro hc
  have hlaunch := held_unresolved hs hc
  obtain ⟨a, ha, hplace⟩ := held_recovery hs hc
  obtain rfl := hs.owned.sole (.launch key) a _ _ hlaunch ha rfl
  rcases hplace with h | h
  · cases h
  · cases h

theorem AfterLookup.release (h : AfterLookup s c key s') (hs : Sound s)
    (hc : s.calls c = some (.lookingUp key u rr rp rec)) {a : Place} {p : ℕ} {clock : ℕ → ℤ}
    (ha : s.held a = some ⟨key, p⟩) (hfree : Freed s' c key a) :
    Sound (Limited.callRelease policy hooked p clock s') :=
  (h.sound hs hc).dropRelease hs.owned ha h.scheduler fun _ _ hx => h.unfreed hs hc hfree hx

theorem AfterLookup.bind (h : AfterLookup s c key s') (hs : Sound s)
    (hc : s.calls c = some (.lookingUp key u rr rp rec)) {a : Place} {p : ℕ} {runId : String}
    (ha : s.held a = some ⟨key, p⟩) (hfree : Freed s' c key a) (hrun : s.releases runId = none) :
    Sound (bind runId key p s') := by
  refine ⟨hs.owned.bindFrom ha h.scheduler fun _ _ hx => h.unfreed hs hc hfree hx,
    h.wired.bind ?_ ?_⟩
  · rw [h.releases, hrun]
  · intro r q hr hkey
    rw [h.releases] at hr
    obtain rfl := hs.owned.sole (.run r) a _ _ hr ha hkey
    rcases hfree with hfree | ⟨hfree, -⟩ | ⟨hfree, -⟩
    · cases hfree
    · cases hfree
    · cases hfree

/-- `recover` ends without a run, and the release functions it holds have been called. -/
def absentReleased (policy : ConcurrencyPolicy) (hooked : Bool) (c : ℕ) (key : String)
    (u rec : Option ℕ) (clock : ℕ → ℕ → ℤ) (s : State) : State :=
  callRelease? policy hooked rec (clock 1) (callRelease? policy hooked u (clock 0)
    { s.leaveRecover c key with
      unresolvedLaunches := erase s.unresolvedLaunches key
      unresolvedRecoveries := erase s.unresolvedRecoveries key })

/-- The releases of `lookupAbsent` do not see the entries it removes. -/
theorem lookupAbsent_eq (clock : ℕ → ℕ → ℤ) :
    lookupAbsent policy hooked c key u rr rec clock s =
      match rr with
      | none => absentReleased policy hooked c key u rec clock s
      | some runId => Limited.releaseRun policy hooked runId (clock 2)
          (absentReleased policy hooked c key u rec clock s) := by
  cases rr with
  | none => cases u <;> cases rec <;> rfl
  | some runId =>
    cases hrun : s.releases runId <;> cases u <;> cases rec <;>
      simp [lookupAbsent, absentReleased, Limited.releaseRun, callRelease?, Limited.callRelease,
        State.leaveRecover, State.leave, hrun]

theorem Sound.absentReleased (hs : Sound s) (hc : s.calls c = some (.lookingUp key u rr rp rec))
    (clock : ℕ → ℕ → ℤ) : Sound (absentReleased policy hooked c key u rec clock s) := by
  have hleft := AfterLookup.left hs hc (Or.inr rfl) (Or.inr rfl)
  cases u with
  | none =>
    cases rec with
    | none => exact hleft.sound hs hc
    | some q =>
      obtain ⟨a, ha, hplace⟩ := held_recovery hs hc
      exact hleft.release hs hc ha (Freed.recovery hplace (erase_self ..))
  | some p =>
    cases rec with
    | none =>
      exact hleft.release hs hc (held_unresolved hs hc) (Or.inr (Or.inl ⟨rfl, erase_self ..⟩))
    | some q => exact absurd hc (unresolved_or_recovery hs)

theorem Sound.lookupAbsent (hs : Sound s) (hc : s.calls c = some (.lookingUp key u rr rp rec))
    (clock : ℕ → ℕ → ℤ) : Sound (lookupAbsent policy hooked c key u rr rec clock s) := by
  rw [lookupAbsent_eq]
  cases rr with
  | none => exact hs.absentReleased hc clock
  | some runId => exact (hs.absentReleased hc clock).releaseRun runId

theorem Sound.foundLaunch (hs : Sound s) {p : ℕ}
    (hc : s.calls c = some (.lookingUp key (some p) rr rp rec)) (runId : String) (clock : ℕ → ℤ) :
    Sound (foundLaunch policy hooked c key runId p clock s) := by
  have hheld := held_unresolved hs hc
  unfold Limited.foundLaunch
  dsimp only
  cases hrun : s.releases runId with
  | none =>
    have hafter := AfterLookup.inspecting hs hc runId false (Or.inr rfl) (Or.inl rfl)
    exact hafter.bind hs hc hheld (Or.inr (Or.inl ⟨rfl, erase_self ..⟩)) hrun
  | some existing =>
    dsimp only
    split_ifs with hkey
    · exact (AfterLookup.left hs hc (Or.inr rfl) (Or.inl rfl)).sound hs hc
    · -- the key would be held twice
      cases hs.owned.sole (.run runId) (.launch key) _ _ hrun hheld (not_not.1 hkey)

theorem Sound.foundRun (hs : Sound s) (hc : s.calls c = some (.lookingUp key u rr rp rec))
    {runId : String} (hrun : s.releases runId = none) (clock : ℕ → ℤ) :
    Sound (foundRun policy hooked c key runId rec clock s) := by
  unfold Limited.foundRun
  cases rec with
  | none =>
    have hleft := AfterLookup.left hs hc (Or.inl rfl) (Or.inl rfl)
    exact (hleft.sound hs hc).flags _ _
  | some p =>
    obtain ⟨a, ha, hplace⟩ := held_recovery hs hc
    have hafter := AfterLookup.inspecting hs hc runId true (Or.inl rfl) (Or.inr rfl)
    dsimp only
    split_ifs
    · exact (hafter.release hs hc ha (Freed.recovery hplace (erase_self ..))).flags _ _
    · exact (hafter.bind hs hc ha (Freed.recovery hplace (erase_self ..)) hrun).flags _ _

/-- The lookup has failed, and the permit of the recovery is kept under its key. -/
def State.failLookup (s : State) (c : ℕ) (key : String) (permit : ℕ) : State :=
  { s.leaveRecover c key with unresolvedRecoveries := insert s.unresolvedRecoveries key permit }

/-- An entry of a key that no lookup is about may be set. -/
theorem insert_or_noLookup (hs : Sound s) {p : ℕ}
    (hc : s.calls c = some (.lookingUp key u rr rp rec)) (k : String) :
    (s.failLookup c key p).unresolvedRecoveries k =
        (s.leaveRecover c key).unresolvedRecoveries k ∨ NoLookup (s.leaveRecover c key) k := by
  by_cases hk : k = key
  · subst hk
    exact Or.inr (noLookup_after hs hc none nofun rfl)
  · exact Or.inl (Function.update_of_ne hk ..)

/-- A failed lookup holds its permit under the key. -/
theorem held_failLookup (hs : Sound s) {p : ℕ}
    (hc : s.calls c = some (.lookingUp key u rr rp rec)) (x : Place) :
    (s.failLookup c key p).held x =
      if x = .recovery key then some ⟨key, p⟩ else (s.leaveRecover c key).held x := by
  cases x with
  | recovery k =>
    show (insert s.unresolvedRecoveries key p k).map (HeldPermit.mk k) = _
    rw [insert_apply]
    by_cases hk : k = key
    · rw [if_pos hk, if_pos (congrArg Place.recovery hk), hk]
      rfl
    · rw [if_neg hk, if_neg fun e => hk (Place.recovery.inj e)]
      rfl
  | call c' =>
    rw [if_neg nofun]
    refine held_maps ?_ ?_ (insert_or_noLookup hs hc) c'
    · rfl
    · rfl
  | _ => rfl

theorem Sound.lookupFailed (hs : Sound s) {p : ℕ}
    (hc : s.calls c = some (.lookingUp key u rr rp (some p))) : Sound (s.failLookup c key p) := by
  obtain ⟨a, ha, hplace⟩ := held_recovery hs hc
  have hafter := AfterLookup.left hs hc (Or.inl rfl) (Or.inl rfl)
  refine ⟨hs.owned.transfer rfl a (.recovery key) ?_,
    hafter.wired.maps rfl rfl rfl hafter.wired.runsOf hafter.wired.runOf (fun _ => Or.inl rfl)
      (insert_or_noLookup hs hc)⟩
  intro x h hx
  rw [held_failLookup hs hc] at hx
  split_ifs at hx with hxk
  · exact Or.inr ⟨hxk, ha.trans hx⟩
  · obtain ⟨hx, hcall, -⟩ := hafter.held hs hc hx
    refine Or.inl ⟨hx, ?_⟩
    rcases hplace with rfl | rfl
    · exact hcall
    · exact hxk

theorem Sound.lookedUp (hs : Sound s) (hc : s.calls c = some (.lookingUp key u rr rp rec))
    (answer : LookupAnswer) (clock : ℕ → ℕ → ℤ) :
    Sound (lookedUp policy hooked c key u rr rp rec answer clock s) := by
  unfold Limited.lookedUp
  cases answer with
  | failed =>
    cases rec with
    | none => exact (AfterLookup.left hs hc (Or.inl rfl) (Or.inl rfl)).sound hs hc
    | some p => exact hs.lookupFailed hc
  | absent => exact hs.lookupAbsent hc clock
  | found runId =>
    cases u with
    | some p => exact hs.foundLaunch hc runId (clock 0)
    | none =>
      dsimp only
      cases hrun : s.releases runId with
      | some existing =>
        have hleft := AfterLookup.left hs hc (Or.inl rfl) (Or.inr rfl)
        cases rec with
        | none => exact hleft.sound hs hc
        | some p =>
          obtain ⟨a, ha, hplace⟩ := held_recovery hs hc
          exact hleft.release hs hc ha (Freed.recovery hplace (erase_self ..))
      | none =>
        dsimp only
        split_ifs
        · exact (AfterLookup.left hs hc (Or.inl rfl) (Or.inl rfl)).sound hs hc
        · exact hs.foundRun hc hrun (clock 0)

theorem Sound.inspected (hs : Sound s) {runId : String} {recovering : Bool}
    (hc : s.calls c = some (.inspecting key runId recovering)) (answer : Option RunState)
    (clock : ℕ → ℤ) :
    Sound (inspected policy hooked c key runId recovering answer clock s) := by
  have hgo : ∀ {s' : State}, Sound s' → s'.calls = s.calls →
      Sound (s'.await c (.finishing key runId recovering)) := by
    intro s' hs' hcalls
    have hc' : s'.calls c = some (.inspecting key runId recovering) := by rw [hcalls, hc]
    refine ⟨hs'.owned.calls nofun, hs'.wired.calls hc' nofun nofun nofun ?_⟩
    intro call' k hcall hk
    cases hcall
    exact hk
  have hcalls : (Limited.releaseRun policy hooked runId clock s).calls = s.calls := by
    unfold Limited.releaseRun
    cases s.releases runId <;> rfl
  unfold Limited.inspected
  cases answer with
  | none => exact hgo hs rfl
  | some state =>
    obtain ⟨runId', status⟩ := state
    dsimp only
    split_ifs
    · exact hgo hs rfl
    · exact hgo (hs.releaseRun runId) hcalls
    · exact hgo hs rfl

theorem Sound.finished (hs : Sound s) {runId : String} {recovering : Bool}
    (hc : s.calls c = some (.finishing key runId recovering)) :
    Sound (finished c key runId recovering s) := by
  have hleave : Owned (s.leave c) := hs.owned.calls nofun
  have hleft : Sound (s.leaveRecover c key) :=
    ⟨⟨hleave.accounts, hleave.live, hleave.sole⟩, hs.wired.leaveRecover hc rfl⟩
  unfold Limited.finished
  split_ifs
  · exact hleft.flags _ _
  · exact hleft

/-! ## Every run -/

theorem Sound.markTerminalDuringRecovery (hs : Sound s) (runId : String) :
    Sound (markTerminalDuringRecovery runId s) := by
  unfold Limited.markTerminalDuringRecovery
  split_ifs
  · exact hs.flags _ _
  · exact hs

theorem Sound.status (hs : Sound s) (runId : String) (answer : Option RunState) (clock : ℕ → ℤ) :
    Sound (status policy hooked runId answer clock s) := by
  unfold Limited.status
  cases answer with
  | none => exact hs
  | some state =>
    obtain ⟨runId', status⟩ := state
    dsimp only
    split_ifs
    · exact hs
    · exact (hs.markTerminalDuringRecovery runId).releaseRun runId
    · exact hs

theorem Sound.result (hs : Sound s) (runId : String) (answer : Bool) (clock : ℕ → ℤ) :
    Sound (result policy hooked runId answer clock s) := by
  unfold Limited.result
  split_ifs
  · exact (hs.markTerminalDuringRecovery runId).releaseRun runId
  · exact hs

theorem Sound.step (hs : Sound s) (i : Act × (ℕ → ℕ → ℤ)) : Sound (step policy hooked s i) := by
  obtain ⟨act, clock⟩ := i
  cases act with
  | launch c key scope =>
    dsimp only [Limited.step]
    split
    · rename_i hc
      exact hs.launch hc key scope (clock 0)
    · exact hs
  | findByIdempotencyKey c key scope =>
    dsimp only [Limited.step]
    split
    · rename_i hc
      exact hs.findByIdempotencyKey hc key scope
    · exact hs
  | acquired c =>
    dsimp only [Limited.step]
    split
    · rename_i key ticket hc
      exact hs.acquired hc
    · exact hs
  | launched c answer =>
    dsimp only [Limited.step]
    split
    · rename_i key release hc
      exact hs.launched hc answer (clock 0)
    · exact hs
  | lookedUp c answer =>
    dsimp only [Limited.step]
    split
    · rename_i key u rr rp rec hc
      exact hs.lookedUp hc answer clock
    · exact hs
  | inspected c answer =>
    dsimp only [Limited.step]
    split
    · rename_i key runId recovering hc
      exact hs.inspected hc answer (clock 0)
    · exact hs
  | finished c =>
    dsimp only [Limited.step]
    split
    · rename_i key runId recovering hc
      exact hs.finished hc
    · exact hs
  | forget key =>
    dsimp only [Limited.step]
    split_ifs with hsettled
    · refine hs.recoveries ?_
      intro k hk
      rw [erase_apply, if_neg, hk]
      rintro rfl
      cases hsettled.symm.trans hk
    · exact hs
  | status runId answer => exact hs.status runId answer (clock 0)
  | result runId answer => exact hs.result runId answer (clock 0)
  | cancel runId => exact hs
  | pressure answer => exact hs.resumeDrain
  | wake =>
    have hwoken : Sound { s with scheduler := { s.scheduler with wakeTimer := none } } :=
      hs.same rfl rfl rfl rfl rfl (fun _ => rfl)
    dsimp only [Limited.step, Scheduler.wake]
    split_ifs
    · exact hwoken.drain
    · exact hs

theorem sound_init : Sound {} := by
  refine ⟨⟨accounts_init, ?_, ?_⟩, ?_⟩
  · intro x h hx
    cases x <;> cases hx
  · intro x y h h' hx
    cases x <;> cases hx
  · constructor
    · intro q hq
      cases hq
    · intro c c' k k' t hc
      cases hc
    · intro c k t hc
      cases hc
    · intro r h hr
      cases hr
    · intro k r hk
      cases hk
    · intro c call k hc
      cases hc
    · intro c c' call call' k hc
      cases hc
    · intro c k u rr rp rec hc
      cases hc
    · intro c k u rr rp rec hc
      cases hc
    · intro c k u rr rp rec hc
      cases hc

/-- **The invariant holds in every run**, whatever the provider answers. -/
theorem sound_run (l : List (Act × (ℕ → ℕ → ℤ))) : Sound (run (step policy hooked) {} l) :=
  run_invariant _ (fun _ i hs => hs.step i) sound_init l

end AgentOrchestrator.Limited
