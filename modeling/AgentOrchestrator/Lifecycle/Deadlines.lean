import AgentOrchestrator.Library.IsoTime
import AgentOrchestrator.Lifecycle.Steps
import Mathlib.Data.List.Induction

/-!
# The sweeps of `enforceDeadlines`

A sweep reads the overdue sessions and then expires them one by one, while any party makes any calls
to the store: deadlines move, sessions are canceled, settled and captured, other sweeps run.  Each
expiry reads the session again, and the sweep keeps those it has claimed.  The calls to the provider
that follow only make calls to the store, so they are among those of the other parties; when they
are over the sweep returns what it has claimed.
-/

namespace AgentOrchestrator.Lifecycle.Deadlines

open Store IsoTime

variable (env : Env)

/-! ## The system -/

structure ExpiredWorker where
  sessionId : String
  deadlineAt : Option Timestamp
  status : WorkerStatus
  deriving DecidableEq

/-- A call of `enforceDeadlines` under way: the sessions still to expire, and those it claimed. -/
structure Enforcement where
  now : DateTime
  overdue : List Worker
  claimedWorkers : List ExpiredWorker := []

/-- What a call of `enforceDeadlines` at the time returned. -/
structure Report where
  now : DateTime
  outcomes : List ExpiredWorker

structure System where
  disk : Disk := none
  sweeps : ℕ → Option Enforcement := fun _ => none
  reports : List Report := []

inductive Act where
  /-- Any party makes a call to the store. -/
  | call (c : Call) (io : WriteOutcome)
  /-- The sweep `k` reads the overdue sessions. -/
  | start (k : ℕ) (now : DateTime)
  /-- The sweep expires its next session. -/
  | expire (k : ℕ) (io : WriteOutcome)
  /-- The sweep returns. -/
  | finish (k : ℕ)
  /-- The process of the sweep dies. -/
  | crash (k : ℕ)

/-- The sweep after an expiry; an error ends it. -/
def Enforcement.expired (now : DateTime) (worker : Worker) (overdue : List Worker)
    (claimedWorkers : List ExpiredWorker) :
    Except StoreError (Worker × CancellationClaim) → Option Enforcement
  | .error _ => none
  | .ok (settled, claim) => some
      { now := now, overdue := overdue
        claimedWorkers := claimedWorkers ++
          if claim.claimed ∧ settled.status.isTerminal then
            [(⟨worker.id, settled.deadlineAt, settled.status⟩ : ExpiredWorker)]
          else [] }

def System.setSweep (sys : System) (k : ℕ) (x : Option Enforcement) : System :=
  { sys with sweeps := Function.update sys.sweeps k x }

def step (sys : System) : Act → System
  | .call c io => { sys with disk := Store.step env sys.disk (c, io) }
  | .start k now =>
    match sys.sweeps k, load env sys.disk with
    | none, .ok s => sys.setSweep k (some ⟨now, overdueWorkers env now.toISOString s, []⟩)
    | _, _ => sys
  | .expire k io =>
    match sys.sweeps k with
    | some ⟨now, worker :: overdue, claimedWorkers⟩ =>
      let r := update env worker.id (.expireWorker none now.toISOString) io sys.disk
      { sys with disk := r.1 }.setSweep k
        (Enforcement.expired now worker overdue claimedWorkers r.2)
    | _ => sys
  | .finish k =>
    match sys.sweeps k with
    | some ⟨now, [], claimedWorkers⟩ =>
      { sys with reports := sys.reports ++ [(⟨now, claimedWorkers⟩ : Report)] }.setSweep k none
    | _ => sys
  | .crash k => sys.setSweep k none

variable {env}

/-! ## One expiry -/

/-- The session is failed for its deadline. -/
def Expired (s : DurableState) (sessionId : String) : Prop :=
  ∃ w, s.worker? sessionId = some w ∧ w.status = .failed ∧ w.stopReason = some "deadline_exceeded"

/-- The recorded deadline is at or before the time: as the texts compare, and as times do. -/
def Due (now : DateTime) (deadline : Timestamp) : Prop :=
  ¬ now.toISOString < deadline ∧
    ∀ t : DateTime, t.FourDigit → deadline = t.toISOString → ¬ now < t

theorem due_of_overdue {now : DateTime} {w : Worker} (h : overdue now.toISOString w = true) :
    ∃ deadline, w.deadlineAt = some deadline ∧ Due now deadline := by
  unfold overdue at h
  cases hdeadline : w.deadlineAt with
  | none =>
    rw [hdeadline] at h
    cases h
  | some deadline =>
    rw [hdeadline] at h
    have hnot : ¬ now.toISOString < deadline := by simpa using h
    refine ⟨deadline, rfl, hnot, ?_⟩
    rintro t ht rfl
    exact DateTime.not_lt_of_toISOString ht hnot

/-- An expiry that is claimed ends an overdue session. -/
theorem expireWorker_claimed {s : DurableState} {now : Timestamp} {w w' : Worker}
    {claim : CancellationClaim}
    (h : (WorkerUpdate.expireWorker none now).apply s w = .ok (w', claim))
    (hclaimed : claim.claimed = true) :
    w.status.isTerminal = false ∧ overdue now w = true ∧ w'.status = .failed ∧
      w'.stopReason = some "deadline_exceeded" := by
  obtain ⟨rfl, rfl⟩ := Prod.mk.inj (Except.ok.inj h)
  unfold expireWorker at hclaimed ⊢
  dsimp only at hclaimed ⊢
  split_ifs at hclaimed ⊢ with hkept hrun
  all_goals
    rw [not_or, Bool.not_eq_true, Bool.not_eq_false] at hkept
    exact ⟨hkept.1, hkept.2, rfl, rfl⟩

/-- A session that has expired stays so. -/
theorem Expired.step {disk : Disk} (hv : Valid env disk) {sessionId : String}
    (h : Expired (contents disk) sessionId) (i : Call × WriteOutcome) :
    Expired (contents (Store.step env disk i)) sessionId := by
  obtain ⟨w, hw, hstatus, hreason⟩ := h
  obtain ⟨w', hw', hrewrites⟩ := step_version hv i hw
  have hsame := hrewrites.later.outcome (by rw [hstatus]; rfl)
  exact ⟨w', hw', hsame.status.trans hstatus, hsame.stopReason.trans hreason⟩

/-! ## Runs -/

/-- The expiry of the sweep `k` ends the session: it is not over, its recorded deadline is due at the
time of the sweep, and after it the session has expired. -/
structure Commits (env : Env) (sys : System) (k : ℕ) (io : WriteOutcome) (now : DateTime)
    (sessionId : String) : Prop where
  sweep : ∃ x, sys.sweeps k = some x ∧ x.now = now ∧ x.overdue.head?.map (·.id) = some sessionId
  due : ∃ w deadline, (contents sys.disk).worker? sessionId = some w ∧
    w.status.isTerminal = false ∧ w.deadlineAt = some deadline ∧ Due now deadline
  expired : Expired (contents (step env sys (.expire k io)).disk) sessionId

/-- In the run a sweep at the time has expired the session while it was due. -/
def Happened (env : Env) (acts : List Act) (now : DateTime) (sessionId : String) : Prop :=
  ∃ before k io after, acts = before ++ .expire k io :: after ∧
    Commits env (Runs.run (step env) {} before) k io now sessionId

theorem Happened.append {acts : List Act} {now : DateTime} {sessionId : String}
    (h : Happened env acts now sessionId) (act : Act) :
    Happened env (acts ++ [act]) now sessionId := by
  obtain ⟨before, k, io, after, rfl, hcommits⟩ := h
  exact ⟨before, k, io, after ++ [act], by simp, hcommits⟩

/-- The sessions that have been returned. -/
def System.returned (sys : System) : List String :=
  (sys.reports.flatMap (·.outcomes)).map (·.sessionId)

def Enforcement.claimed (x : Enforcement) : List String := x.claimedWorkers.map (·.sessionId)

/-- **The invariant of the sweeps**: what a sweep has claimed or returned has expired, because it
was due, and is claimed nowhere else. -/
structure Once (env : Env) (acts : List Act) (sys : System) : Prop where
  valid : Valid env sys.disk
  returned : sys.returned.Nodup
  reported : ∀ report ∈ sys.reports, ∀ e ∈ report.outcomes,
    Happened env acts report.now e.sessionId ∧ Expired (contents sys.disk) e.sessionId
  claimed : ∀ k x, sys.sweeps k = some x → ∀ id ∈ x.claimed,
    Happened env acts x.now id ∧ Expired (contents sys.disk) id
  nodup : ∀ k x, sys.sweeps k = some x → x.claimed.Nodup
  apart : ∀ k x, sys.sweeps k = some x → ∀ id ∈ x.claimed, id ∉ sys.returned
  separate : ∀ k x l y, sys.sweeps k = some x → sys.sweeps l = some y → k ≠ l →
    ∀ id ∈ x.claimed, id ∉ y.claimed

theorem once_init : Once env [] {} where
  valid := valid_none env
  returned := List.nodup_nil
  reported _ h := nomatch h
  claimed _ _ h := nomatch h
  nodup _ _ h := nomatch h
  apart _ _ h := nomatch h
  separate _ _ _ _ h := nomatch h

/-- Another act leaves the sweeps and reports alone. -/
theorem Once.disk {acts : List Act} {sys : System} (h : Once env acts sys) (act : Act)
    (i : Call × WriteOutcome) :
    Once env (acts ++ [act]) { sys with disk := Store.step env sys.disk i } where
  valid := valid_step env sys.disk i h.valid
  returned := h.returned
  reported report hreport e he :=
    ⟨(h.reported report hreport e he).1.append act, (h.reported report hreport e he).2.step h.valid i⟩
  claimed k x hk id hid :=
    ⟨(h.claimed k x hk id hid).1.append act, (h.claimed k x hk id hid).2.step h.valid i⟩
  nodup := h.nodup
  apart := h.apart
  separate := h.separate

theorem Once.idle {acts : List Act} {sys : System} (h : Once env acts sys) (act : Act) :
    Once env (acts ++ [act]) sys where
  valid := h.valid
  returned := h.returned
  reported report hreport e he :=
    ⟨(h.reported report hreport e he).1.append act, (h.reported report hreport e he).2⟩
  claimed k x hk id hid :=
    ⟨(h.claimed k x hk id hid).1.append act, (h.claimed k x hk id hid).2⟩
  nodup := h.nodup
  apart := h.apart
  separate := h.separate

theorem System.sweeps_setSweep {sys : System} {k l : ℕ} {o : Option Enforcement} {x : Enforcement}
    (h : (sys.setSweep k o).sweeps l = some x) :
    (l = k ∧ o = some x) ∨ (l ≠ k ∧ sys.sweeps l = some x) := by
  change Function.update sys.sweeps k o l = some x at h
  by_cases hlk : l = k
  · subst hlk
    rw [Function.update_self] at h
    exact Or.inl ⟨rfl, h⟩
  · rw [Function.update_of_ne hlk] at h
    exact Or.inr ⟨hlk, h⟩

/-- A sweep is replaced by one that has claimed nothing new, or only what no other party has. -/
theorem Once.setSweep {acts : List Act} {sys : System} (h : Once env acts sys) {k : ℕ}
    {o : Option Enforcement}
    (hclaimed : ∀ x ∈ o, ∀ id ∈ x.claimed,
      Happened env acts x.now id ∧ Expired (contents sys.disk) id)
    (hnodup : ∀ x ∈ o, x.claimed.Nodup)
    (hapart : ∀ x ∈ o, ∀ id ∈ x.claimed, id ∉ sys.returned)
    (hseparate : ∀ x ∈ o, ∀ id ∈ x.claimed, ∀ l y, l ≠ k → sys.sweeps l = some y →
      id ∉ y.claimed) : Once env acts (sys.setSweep k o) := by
  refine ⟨h.valid, h.returned, h.reported, ?_, ?_, ?_, ?_⟩
  · intro l x hl
    rcases System.sweeps_setSweep hl with ⟨-, hx⟩ | ⟨-, hx⟩
    · exact hclaimed x hx
    · exact h.claimed l x hx
  · intro l x hl
    rcases System.sweeps_setSweep hl with ⟨-, hx⟩ | ⟨-, hx⟩
    · exact hnodup x hx
    · exact h.nodup l x hx
  · intro l x hl
    rcases System.sweeps_setSweep hl with ⟨-, hx⟩ | ⟨-, hx⟩
    · exact hapart x hx
    · exact h.apart l x hx
  · intro l x m y hl hm hne id hid hid'
    rcases System.sweeps_setSweep hl with ⟨rfl, hx⟩ | ⟨hlk, hx⟩
    · rcases System.sweeps_setSweep hm with ⟨rfl, -⟩ | ⟨hmk, hy⟩
      · exact hne rfl
      · exact hseparate x hx id hid m y hmk hy hid'
    · rcases System.sweeps_setSweep hm with ⟨rfl, hy⟩ | ⟨-, hy⟩
      · exact hseparate y hy id hid' l x hlk hx hid
      · exact h.separate l x m y hx hy hne id hid hid'

/-- A sweep ends without a report. -/
theorem Once.drop {acts : List Act} {sys : System} (h : Once env acts sys) (k : ℕ) :
    Once env acts (sys.setSweep k none) := by
  refine h.setSweep ?_ ?_ ?_ ?_ <;> simp

theorem once_start {acts : List Act} {sys : System} (h : Once env acts sys) (k : ℕ)
    (now : DateTime) : Once env (acts ++ [.start k now]) (step env sys (.start k now)) := by
  have hidle := h.idle (.start k now)
  unfold step
  dsimp only
  split
  · refine hidle.setSweep ?_ ?_ ?_ ?_ <;> simp [Enforcement.claimed]
  · exact hidle

theorem once_finish {acts : List Act} {sys : System} (h : Once env acts sys) (k : ℕ) :
    Once env (acts ++ [.finish k]) (step env sys (.finish k)) := by
  have hidle := h.idle (.finish k)
  unfold step
  dsimp only
  split
  · rename_i now claimedWorkers hk
    have hreturned : (({ sys with reports := sys.reports ++ [(⟨now, claimedWorkers⟩ : Report)] } :
        System).setSweep k none).returned =
          sys.returned ++ claimedWorkers.map (·.sessionId) := by
      simp [System.returned, System.setSweep]
    have hdrop := hidle.drop k
    refine ⟨h.valid, ?_, ?_, hdrop.claimed, hdrop.nodup, ?_, hdrop.separate⟩
    · rw [hreturned]
      refine List.nodup_append.2 ⟨h.returned, h.nodup k _ hk, ?_⟩
      rintro a ha b hb rfl
      exact h.apart k _ hk a hb ha
    · intro report hreport e he
      rcases List.mem_append.1 hreport with hreport | hreport
      · exact hidle.reported report hreport e he
      · obtain rfl := List.mem_singleton.1 hreport
        exact hidle.claimed k _ hk e.sessionId (List.mem_map_of_mem he)
    · intro l x hl id hid
      rcases System.sweeps_setSweep hl with ⟨-, hx⟩ | ⟨hlk, hx⟩
      · cases hx
      · rw [hreturned, List.mem_append, not_or]
        exact ⟨h.apart l x hx id hid, h.separate l x k _ hx hk hlk id hid⟩
  · exact hidle

/-- An expiry adds at most the session it has claimed. -/
theorem Enforcement.claimed_expired {now : DateTime} {worker : Worker} {overdue : List Worker}
    {claimedWorkers : List ExpiredWorker} {x : Enforcement}
    {r : Except StoreError (Worker × CancellationClaim)}
    (hx : Enforcement.expired now worker overdue claimedWorkers r = some x) :
    x.now = now ∧ (x.claimed = claimedWorkers.map (·.sessionId) ∨
      ∃ settled claim, r = .ok (settled, claim) ∧ claim.claimed = true ∧
        x.claimed = claimedWorkers.map (·.sessionId) ++ [worker.id]) := by
  cases r with
  | error e => cases hx
  | ok r =>
    obtain ⟨settled, claim⟩ := r
    obtain rfl := (Option.some.inj hx).symm
    refine ⟨rfl, ?_⟩
    unfold Enforcement.claimed
    by_cases hclaimed : claim.claimed = true ∧ settled.status.isTerminal = true
    · refine Or.inr ⟨settled, claim, rfl, hclaimed.1, ?_⟩
      rw [if_pos hclaimed, List.map_append]
      rfl
    · refine Or.inl ?_
      rw [if_neg hclaimed, List.append_nil]

/-- A claimed expiry: the session was due, and it has expired. -/
theorem claimed_update {sys : System} {k : ℕ} {now : DateTime} {worker : Worker}
    {overdue : List Worker} {claimedWorkers : List ExpiredWorker} {io : WriteOutcome}
    {settled : Worker} {claim : CancellationClaim}
    (hk : sys.sweeps k = some ⟨now, worker :: overdue, claimedWorkers⟩)
    (hr : (update env worker.id (.expireWorker none now.toISOString) io sys.disk).2 =
      .ok (settled, claim)) (hclaimed : claim.claimed = true) :
    Commits env sys k io now worker.id ∧
      Expired (contents (update env worker.id (.expireWorker none now.toISOString) io sys.disk).1)
        worker.id ∧ ¬ Expired (contents sys.disk) worker.id := by
  obtain ⟨w, hw, happly, hw'⟩ := update_ok hr
  obtain ⟨hopen, hoverdue, hstatus, hreason⟩ := expireWorker_claimed happly hclaimed
  obtain ⟨deadline, hdeadline, hdue⟩ := due_of_overdue hoverdue
  have hexpired : Expired (contents
      (update env worker.id (.expireWorker none now.toISOString) io sys.disk).1) worker.id :=
    ⟨settled, hw', hstatus, hreason⟩
  refine ⟨⟨⟨_, hk, rfl, rfl⟩, ⟨w, deadline, hw, hopen, hdeadline, hdue⟩, ?_⟩, hexpired, ?_⟩
  · unfold step
    dsimp only
    rw [hk]
    exact hexpired
  rintro ⟨v, hv, hfailed, -⟩
  obtain rfl := Option.some.inj (hw.symm.trans hv)
  rw [hfailed] at hopen
  cases hopen

/-- A new claim is on a session that was open, so nobody has claimed it before. -/
theorem once_expire {acts : List Act} (h : Once env acts (Runs.run (step env) {} acts)) (k : ℕ)
    (io : WriteOutcome) :
    Once env (acts ++ [.expire k io])
      (step env (Runs.run (step env) {} acts) (.expire k io)) := by
  have hhappened : ∀ now id, Commits env (Runs.run (step env) {} acts) k io now id →
      Happened env (acts ++ [.expire k io]) now id :=
    fun now id hcommits => ⟨acts, k, io, [], rfl, hcommits⟩
  generalize Runs.run (step env) {} acts = sys at h hhappened
  unfold step
  dsimp only
  split
  · rename_i now worker overdue claimedWorkers hk
    have hdisk := h.disk (.expire k io)
      (.updateWorker worker.id (.expireWorker none now.toISOString), io)
    rw [← update_disk] at hdisk
    have hold := hdisk.claimed k _ hk
    refine hdisk.setSweep ?_ ?_ ?_ ?_
    · intro x hx id hid
      obtain ⟨hnow, hsame | ⟨settled, claim, hr, hclaimed, hmore⟩⟩ := Enforcement.claimed_expired hx
      · rw [hsame] at hid
        rw [hnow]
        exact hold id hid
      · rw [hmore] at hid
        rw [hnow]
        rcases List.mem_append.1 hid with hid | hid
        · exact hold id hid
        · obtain rfl := List.mem_singleton.1 hid
          obtain ⟨hcommits, hexpired, -⟩ := claimed_update hk hr hclaimed
          exact ⟨hhappened now worker.id hcommits, hexpired⟩
    · intro x hx
      obtain ⟨-, hsame | ⟨settled, claim, hr, hclaimed, hmore⟩⟩ := Enforcement.claimed_expired hx
      · rw [hsame]
        exact h.nodup k _ hk
      · rw [hmore]
        refine List.nodup_append.2 ⟨h.nodup k _ hk, List.nodup_singleton _, ?_⟩
        rintro a ha b hb rfl
        obtain rfl := List.mem_singleton.1 hb
        exact (claimed_update hk hr hclaimed).2.2 (h.claimed k _ hk _ ha).2
    · intro x hx id hid hreturned
      obtain ⟨-, hsame | ⟨settled, claim, hr, hclaimed, hmore⟩⟩ := Enforcement.claimed_expired hx
      · rw [hsame] at hid
        exact h.apart k _ hk id hid hreturned
      · rw [hmore] at hid
        rcases List.mem_append.1 hid with hid | hid
        · exact h.apart k _ hk id hid hreturned
        · obtain rfl := List.mem_singleton.1 hid
          obtain ⟨e, he, hsession⟩ := List.mem_map.1 hreturned
          obtain ⟨report, hreport, he⟩ := List.mem_flatMap.1 he
          have hexpired := (h.reported report hreport e he).2
          rw [hsession] at hexpired
          exact (claimed_update hk hr hclaimed).2.2 hexpired
    · intro x hx id hid l y hlk hy hid'
      obtain ⟨-, hsame | ⟨settled, claim, hr, hclaimed, hmore⟩⟩ := Enforcement.claimed_expired hx
      · rw [hsame] at hid
        exact h.separate k _ l y hk hy hlk.symm id hid hid'
      · rw [hmore] at hid
        rcases List.mem_append.1 hid with hid | hid
        · exact h.separate k _ l y hk hy hlk.symm id hid hid'
        · obtain rfl := List.mem_singleton.1 hid
          exact (claimed_update hk hr hclaimed).2.2 (h.claimed l y hy _ hid').2
  · exact h.idle (.expire k io)

theorem once_run (acts : List Act) : Once env acts (Runs.run (step env) {} acts) := by
  induction acts using List.reverseRecOn with
  | nil => exact once_init
  | append_singleton acts act ih =>
    rw [Runs.run_append, Runs.run_cons, Runs.run_nil]
    cases act with
    | call c io => exact ih.disk _ (c, io)
    | start k now => exact once_start ih k now
    | expire k io => exact once_expire ih k io
    | finish k => exact once_finish ih k
    | crash k => exact (ih.idle (.crash k)).drop k

/-- **Each expiry is claimed once, and only when it is due.**  In every run no session is returned
twice, a returned one was open and past its recorded deadline when a sweep at the time of the report
committed its expiry, and it is failed for its deadline ever after. -/
theorem deadlines_enforced_once (env : Env) (acts : List Act) :
    (Runs.run (step env) {} acts).returned.Nodup ∧
    ∀ report ∈ (Runs.run (step env) {} acts).reports, ∀ e ∈ report.outcomes,
      Happened env acts report.now e.sessionId ∧
        Expired (contents (Runs.run (step env) {} acts).disk) e.sessionId :=
  ⟨(once_run acts).returned, (once_run acts).reported⟩

end AgentOrchestrator.Lifecycle.Deadlines
