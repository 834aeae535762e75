import AgentOrchestrator.Scheduler.Model

/-!
# Permits

What a call of `acquire` gets is read off the log: `settlement` is how its promise settled, and the
permit of an admission is the number of permits given out before it.  `Accounts` ties the permits
to the active requests: an id is active exactly when one permit of it is out and not released.
-/

namespace AgentOrchestrator.Scheduler

variable {policy : ConcurrencyPolicy} {hooked : Bool} {s s' : State}

/-! ## Promises of `acquire` -/

/-- The event gave out a permit. -/
def Event.grants : Event → Bool
  | .admitted .. => true
  | .existing _ => true
  | .checked _ => false
  | .rejected .. => false

/-- How the promise of a ticket settled: its permit, or the error it was rejected with. -/
def settlement (ticket : ℕ) : List Event → Option (Except SchedulerError ℕ)
  | [] => none
  | .admitted t _ _ :: log =>
    if t = ticket then some (.ok (log.countP Event.grants)) else settlement ticket log
  | .rejected t e :: log => if t = ticket then some (.error e) else settlement ticket log
  | .checked _ :: log => settlement ticket log
  | .existing _ :: log => settlement ticket log

/-- The permit is out and stands for the id. -/
def State.Live (s : State) (permit : ℕ) (id : String) : Prop := s.permits[permit]? = some (id, false)

theorem release_live {permit : ℕ} {id : String} {clock : ℕ → ℤ} (h : s.Live permit id) :
    release policy hooked permit clock s = drain policy hooked clock
      { s with permits := s.permits.set permit (id, true)
               active := s.active.filter fun r => r.id ≠ id } := by
  unfold release
  rw [show s.permits[permit]? = some (id, false) from h]

/-! ## Accounts -/

/-- The invariant of the scheduler's books. -/
structure Accounts (s : State) : Prop where
  sorted : s.queue.Pairwise fun p q => p.ticket < q.ticket
  queued : ∀ q ∈ s.queue, q.ticket < s.nextTicket ∧ settlement q.ticket s.log = none
  past : ∀ t, s.nextTicket ≤ t → settlement t s.log = none
  count : s.permits.length = s.log.countP Event.grants
  waiting : (s.queue.map (·.request.id)).Nodup
  apart : ∀ q ∈ s.queue, ∀ r ∈ s.active, r.id ≠ q.request.id
  ids : (s.active.map (·.id)).Nodup
  live : ∀ r ∈ s.active, ∃ permit, s.Live permit r.id
  active : ∀ permit id, s.Live permit id → ∃ r ∈ s.active, r.id = id
  one : ∀ m n id, s.Live m id → s.Live n id → m = n

theorem accounts_init : Accounts {} := by
  refine ⟨List.Pairwise.nil, ?_, fun _ _ => rfl, rfl, List.nodup_nil, ?_, List.nodup_nil, ?_, ?_, ?_⟩
  · simp
  · simp
  · simp
  · intro permit id h
    simp [State.Live] at h
  · intro m n id h
    simp [State.Live] at h

theorem mem_setActive {r request : AdmissionRequest} {active : List AdmissionRequest}
    (h : r ∈ setActive request active) : r ∈ active ∨ r = request := by
  unfold setActive at h
  split_ifs at h
  · rcases Keyed.mem_put h with rfl | ⟨h, -⟩
    · exact Or.inr rfl
    · exact Or.inl h
  · exact Keyed.mem_append_singleton.1 h

theorem mem_setActive_of {r request : AdmissionRequest} {active : List AdmissionRequest}
    (h : r ∈ active) (hne : r.id ≠ request.id) : r ∈ setActive request active := by
  unfold setActive
  split_ifs
  · exact Keyed.mem_put_of_ne h hne
  · exact List.mem_append_left _ h

/-- A permit added at the end is live, and so are the ones before it. -/
theorem live_append {permits : List (String × Bool)} {id id' : String} {n : ℕ} :
    (permits ++ [(id, false)])[n]? = some (id', false) ↔
      permits[n]? = some (id', false) ∨ (n = permits.length ∧ id' = id) := by
  rcases lt_trichotomy n permits.length with h | rfl | h
  · rw [List.getElem?_append_left h]
    constructor
    · exact Or.inl
    · rintro (h' | ⟨rfl, -⟩)
      · exact h'
      · exact absurd h (lt_irrefl _)
  · simp [eq_comm]
  · rw [List.getElem?_eq_none (by simp; omega), List.getElem?_eq_none (by omega)]
    simp
    omega

/-- A new permit for an id that was neither active nor queued. -/
theorem Accounts.grant (hs : Accounts s) (event : Event) {request : AdmissionRequest}
    {queue : List PendingRequest} (hqueue : queue.Sublist s.queue)
    (hgrants : event.grants = true)
    (hnew : ∀ r ∈ s.active, r.id ≠ request.id) (hapart : ∀ q ∈ queue, q.request.id ≠ request.id)
    (hqueued : ∀ q ∈ queue, settlement q.ticket (event :: s.log) = none)
    (hpast : ∀ t, s.nextTicket ≤ t → settlement t (event :: s.log) = none)
    (hs'q : s'.queue = queue) (hs'a : s'.active = s.active ++ [request])
    (hs'p : s'.permits = s.permits ++ [(request.id, false)]) (hs'l : s'.log = event :: s.log)
    (hs'n : s'.nextTicket = s.nextTicket) : Accounts s' := by
  have hlive : ∀ n id, s'.Live n id ↔ s.Live n id ∨ (n = s.permits.length ∧ id = request.id) := by
    intro n id
    unfold State.Live
    rw [hs'p, live_append]
  have hunused : ∀ n, ¬ s.Live n request.id := by
    intro n hn
    obtain ⟨r, hr, hid⟩ := hs.active n request.id hn
    exact hnew r hr hid
  constructor
  · rw [hs'q]
    exact hs.sorted.sublist hqueue
  · intro q hq
    rw [hs'q] at hq
    rw [hs'n, hs'l]
    exact ⟨(hs.queued q (hqueue.subset hq)).1, hqueued q hq⟩
  · rw [hs'n, hs'l]
    exact hpast
  · rw [hs'p, hs'l, List.length_append, hs.count]
    simp [hgrants]
  · rw [hs'q]
    exact hs.waiting.sublist (hqueue.map _)
  · rw [hs'q, hs'a]
    intro q hq r hr
    rcases Keyed.mem_append_singleton.1 hr with hr | rfl
    · exact hs.apart q (hqueue.subset hq) r hr
    · exact (hapart q hq).symm
  · rw [hs'a]
    exact Keyed.nodup_append_singleton hs.ids hnew
  · rw [hs'a]
    intro r hr
    rcases Keyed.mem_append_singleton.1 hr with hr | rfl
    · obtain ⟨n, hn⟩ := hs.live r hr
      exact ⟨n, (hlive n r.id).2 (Or.inl hn)⟩
    · exact ⟨_, (hlive _ _).2 (Or.inr ⟨rfl, rfl⟩)⟩
  · rw [hs'a]
    intro n id h
    rcases (hlive n id).1 h with h | ⟨-, rfl⟩
    · obtain ⟨r, hr, hid⟩ := hs.active n id h
      exact ⟨r, Keyed.mem_append_singleton.2 (Or.inl hr), hid⟩
    · exact ⟨request, Keyed.mem_append_singleton.2 (Or.inr rfl), rfl⟩
  · intro m n id hm hn
    rcases (hlive m id).1 hm with hm | ⟨rfl, hid⟩ <;>
      rcases (hlive n id).1 hn with hn | ⟨rfl, hid'⟩
    · exact hs.one m n id hm hn
    · exact absurd (hid' ▸ hm) (hunused m)
    · exact absurd (hid ▸ hn) (hunused n)
    · rfl

/-- The head of the queue is admitted. -/
theorem Accounts.admitHead (hs : Accounts s) {pending : PendingRequest}
    {rest : List PendingRequest} (hqueue : s.queue = pending :: rest) :
    Accounts (admitHead pending rest s) := by
  have hsorted := hs.sorted
  have hwaiting := hs.waiting
  rw [hqueue, List.pairwise_cons] at hsorted
  rw [hqueue, List.map_cons, List.nodup_cons] at hwaiting
  have hhead := hs.queued pending (by simp [hqueue])
  have hnew : ∀ r ∈ s.active, r.id ≠ pending.request.id := hs.apart pending (by simp [hqueue])
  have hrest : rest.Sublist s.queue := by
    rw [hqueue]
    exact List.sublist_cons_self pending rest
  refine hs.grant (.admitted pending.ticket pending.request s.active) hrest rfl hnew
    ?_ ?_ ?_ rfl ?_ rfl rfl rfl
  · intro q hq h
    exact hwaiting.1 (h ▸ List.mem_map_of_mem hq)
  · intro q hq
    rw [settlement, if_neg (hsorted.1 q hq).ne]
    exact (hs.queued q (hrest.subset hq)).2
  · intro t ht
    rw [settlement, if_neg (by omega)]
    exact hs.past t ht
  · show setActive pending.request s.active = _
    rw [setActive, if_neg (by simpa using hnew)]

/-- `acquireExisting` counts a request. -/
theorem Accounts.existing (hs : Accounts s) {request : AdmissionRequest}
    (hnew : knownId request.id s = false) :
    Accounts (activate request { s with log := .existing request.id :: s.log }) := by
  have hactive : ∀ r ∈ s.active, r.id ≠ request.id := by
    simpa using (Bool.or_eq_false_iff.1 hnew).1
  have hqueued : ∀ q ∈ s.queue, q.request.id ≠ request.id := by
    simpa using (Bool.or_eq_false_iff.1 hnew).2
  refine hs.grant (.existing request.id) (List.Sublist.refl _) rfl hactive hqueued
    (fun q hq => (hs.queued q hq).2) hs.past rfl ?_ rfl rfl rfl
  exact setActive_of_unknown hnew

/-- A new request is queued. -/
theorem Accounts.enqueue (hs : Accounts s) {request : AdmissionRequest}
    (hnew : knownId request.id s = false) :
    Accounts { s with queue := s.queue ++ [{ ticket := s.nextTicket, request := request }]
                      nextTicket := s.nextTicket + 1 } := by
  have hactive : ∀ r ∈ s.active, r.id ≠ request.id := by
    simpa using (Bool.or_eq_false_iff.1 hnew).1
  have hqueued : ∀ q ∈ s.queue, q.request.id ≠ request.id := by
    simpa using (Bool.or_eq_false_iff.1 hnew).2
  refine ⟨?_, ?_, ?_, hs.count, ?_, ?_, hs.ids, hs.live, hs.active, hs.one⟩
  · refine List.pairwise_append.2 ⟨hs.sorted, List.pairwise_singleton _ _, ?_⟩
    intro p hp q hq
    rw [List.mem_singleton.1 hq]
    exact (hs.queued p hp).1
  · intro q hq
    rcases Keyed.mem_append_singleton.1 hq with hq | rfl
    · exact ⟨Nat.lt_succ_of_lt (hs.queued q hq).1, (hs.queued q hq).2⟩
    · exact ⟨Nat.lt_succ_self _, hs.past _ (le_refl _)⟩
  · intro t ht
    exact hs.past t (Nat.le_of_succ_le ht)
  · exact Keyed.nodup_append_singleton hs.waiting hqueued
  · intro q hq r hr
    rcases Keyed.mem_append_singleton.1 hq with hq | rfl
    · exact hs.apart q hq r hr
    · exact hactive r hr

/-- A permit is released, and its id leaves the active requests. -/
theorem Accounts.release (hs : Accounts s) {permit : ℕ} {id : String}
    (hlive : s.Live permit id) :
    Accounts { s with permits := s.permits.set permit (id, true)
                      active := s.active.filter fun r => r.id ≠ id } := by
  have hlt : permit < s.permits.length := (List.getElem?_eq_some_iff.1 hlive).1
  -- the permits of the other ids stay
  have hlive' : ∀ n id', (s.permits.set permit (id, true))[n]? = some (id', false) ↔
      s.Live n id' ∧ n ≠ permit := by
    intro n id'
    by_cases hn : n = permit
    · subst hn
      simp [List.getElem?_set_self hlt]
    · rw [List.getElem?_set_ne (Ne.symm hn)]
      exact (and_iff_left hn).symm
  have hsub : (s.active.filter fun r => decide (r.id ≠ id)).Sublist s.active := List.filter_sublist
  refine ⟨hs.sorted, hs.queued, hs.past, ?_, hs.waiting, ?_, hs.ids.sublist (hsub.map _),
    ?_, ?_, ?_⟩
  · rw [List.length_set]
    exact hs.count
  · intro q hq r hr
    exact hs.apart q hq r (hsub.subset hr)
  · intro r hr
    obtain ⟨hr, hid⟩ := List.mem_filter.1 hr
    obtain ⟨n, hn⟩ := hs.live r hr
    refine ⟨n, (hlive' n r.id).2 ⟨hn, ?_⟩⟩
    rintro rfl
    have hsame : (id, false) = (r.id, false) := Option.some.inj (hlive.symm.trans hn)
    simp only [ne_eq, decide_eq_true_eq] at hid
    exact hid (congrArg Prod.fst hsame).symm
  · intro n id' h
    obtain ⟨hold, hn⟩ := (hlive' n id').1 h
    obtain ⟨r, hr, hid⟩ := hs.active n id' hold
    refine ⟨r, List.mem_filter.2 ⟨hr, ?_⟩, hid⟩
    simp only [ne_eq, decide_eq_true_eq]
    rintro rfl
    rw [hid] at hlive
    exact hn (hs.one n permit id' hold hlive)
  · intro m n id' hm hn
    exact hs.one m n id' ((hlive' m id').1 hm).1 ((hlive' n id').1 hn).1

/-- What a change of the pressure fields leaves of a pending request. -/
def PendingRequest.entry (q : PendingRequest) : ℕ × AdmissionRequest := (q.ticket, q.request)

/-- A change that takes requests off the queue and leaves permits and active requests alone. -/
theorem Accounts.leave (hs : Accounts s)
    (hqueue : (s'.queue.map PendingRequest.entry).Sublist (s.queue.map PendingRequest.entry))
    (hs'a : s'.active = s.active) (hs'p : s'.permits = s.permits)
    (hs'n : s'.nextTicket = s.nextTicket)
    (hcount : s'.log.countP Event.grants = s.log.countP Event.grants)
    (hqueued : ∀ q ∈ s'.queue, settlement q.ticket s'.log = none)
    (hpast : ∀ t, s.nextTicket ≤ t → settlement t s'.log = none) : Accounts s' := by
  have hlive : s'.Live = s.Live := by
    funext n id
    unfold State.Live
    rw [hs'p]
  have horigin : ∀ q ∈ s'.queue, ∃ p ∈ s.queue, p.ticket = q.ticket ∧ p.request = q.request := by
    intro q hq
    obtain ⟨p, hp, hentry⟩ := List.mem_map.1 (hqueue.subset (List.mem_map_of_mem hq))
    exact ⟨p, hp, congrArg Prod.fst hentry, congrArg Prod.snd hentry⟩
  refine ⟨?_, ?_, ?_, ?_, ?_, ?_, ?_, ?_, ?_, ?_⟩
  · have hsorted : (s.queue.map PendingRequest.entry).Pairwise fun p q => p.1 < q.1 :=
      List.pairwise_map.2 hs.sorted
    have hsorted' := hsorted.sublist hqueue
    rwa [List.pairwise_map] at hsorted'
  · intro q hq
    obtain ⟨p, hp, hticket, -⟩ := horigin q hq
    rw [hs'n, ← hticket]
    exact ⟨(hs.queued p hp).1, hticket ▸ hqueued q hq⟩
  · rw [hs'n]
    exact hpast
  · rw [hs'p, hcount]
    exact hs.count
  · have hwaiting : ((s.queue.map PendingRequest.entry).map fun e => e.2.id).Nodup := by
      rw [List.map_map]
      exact hs.waiting
    have := hwaiting.sublist (hqueue.map fun e => e.2.id)
    rwa [List.map_map] at this
  · rw [hs'a]
    intro q hq
    obtain ⟨p, hp, -, hrequest⟩ := horigin q hq
    rw [← hrequest]
    exact hs.apart p hp
  · rw [hs'a]
    exact hs.ids
  · rw [hs'a, hlive]
    exact hs.live
  · rw [hs'a, hlive]
    exact hs.active
  · rw [hlive]
    exact hs.one

/-- The head of the queue is rejected. -/
theorem Accounts.rejectHead (hs : Accounts s) {pending : PendingRequest}
    {rest : List PendingRequest} {error : SchedulerError} (hqueue : s.queue = pending :: rest)
    (hs'q : s'.queue = rest) (hs'a : s'.active = s.active) (hs'p : s'.permits = s.permits)
    (hs'n : s'.nextTicket = s.nextTicket)
    (hs'l : s'.log = .rejected pending.ticket error :: s.log) : Accounts s' := by
  have hsorted := hs.sorted
  rw [hqueue, List.pairwise_cons] at hsorted
  have hhead := hs.queued pending (by simp [hqueue])
  refine hs.leave ?_ hs'a hs'p hs'n ?_ ?_ ?_
  · rw [hs'q, hqueue]
    exact List.sublist_cons_self _ _
  · rw [hs'l]
    rfl
  · rw [hs'q, hs'l]
    intro q hq
    rw [settlement, if_neg (hsorted.1 q hq).ne]
    exact (hs.queued q (by simp [hqueue, hq])).2
  · rw [hs'l]
    intro t ht
    rw [settlement, if_neg (by omega)]
    exact hs.past t ht

/-- Timers, checks and pressure fields do not touch the books. -/
theorem Accounts.same (hs : Accounts s)
    (hqueue : s'.queue.map PendingRequest.entry = s.queue.map PendingRequest.entry)
    (hs'a : s'.active = s.active) (hs'p : s'.permits = s.permits)
    (hs'n : s'.nextTicket = s.nextTicket)
    (hcount : s'.log.countP Event.grants = s.log.countP Event.grants)
    (hlog : ∀ t, settlement t s'.log = settlement t s.log) : Accounts s' := by
  refine hs.leave (by rw [hqueue]) hs'a hs'p hs'n hcount ?_ ?_
  · intro q hq
    have hmem : q.entry ∈ s.queue.map PendingRequest.entry := hqueue ▸ List.mem_map_of_mem hq
    obtain ⟨p, hp, hentry⟩ := List.mem_map.1 hmem
    have hticket : p.ticket = q.ticket := congrArg Prod.fst hentry
    rw [hlog, ← hticket]
    exact (hs.queued p hp).2
  · intro t ht
    rw [hlog]
    exact hs.past t ht

end AgentOrchestrator.Scheduler
