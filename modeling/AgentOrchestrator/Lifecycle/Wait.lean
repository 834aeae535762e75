import AgentOrchestrator.Launch.Paging
import AgentOrchestrator.Store.Progress
import Mathlib.Data.Rat.Floor
import Mathlib.Tactic.Linarith

/-!
# Waiting for batches

`waitForBatches` polls the summaries of some batches until each is satisfied or the time is over.  A
poll reads the batches one after another, and before each of the reads others may call the store,
their launches as the launch service builds them.  Progress is then never taken back, so what an
answer says of a batch was so at its read and stays so, and a poll that starts when every batch is
satisfied is the last one.  The number of polls is bounded by the timeout over the interval, as long
as a sleep lasts as long as it was asked to.
-/

namespace AgentOrchestrator.Lifecycle

open Store

def maxLifecycleWaitMs : ℚ := 30000

/-- The rule by which a batch is satisfied. -/
inductive Until where
  | anyTerminal
  | allTerminal
  deriving DecidableEq

structure WaitOptions where
  timeoutMs : ℚ := maxLifecycleWaitMs
  rule : Until := .allTerminal
  pollIntervalMs : ℚ := 25

inductive WaitResult where
  | item (batchId : String) (timedOut complete : Bool) (settled total : ℕ)
      (counts : WorkerStatus → ℕ)
  | notFound (batchId message : String)

inductive WaitError where
  | range (message : String)
  | store (e : StoreError)

def WaitResult.batchId : WaitResult → String
  | .item batchId .. => batchId
  | .notFound batchId _ => batchId

/-- `"error" in item || !item.timedOut` -/
def WaitResult.ends : WaitResult → Bool
  | .item _ timedOut .. => !timedOut
  | .notFound .. => true

/-- `until === "all_terminal" ? complete : settled > 0` -/
def Until.satisfied (rule : Until) (x : BatchSummary) : Bool :=
  match rule with
  | .allTerminal => x.complete
  | .anyTerminal => 0 < x.settled

def Until.item (rule : Until) (batchId : String) (x : BatchSummary) : WaitResult :=
  .item batchId (!rule.satisfied x) x.complete x.settled x.total x.counts

/-- Calls of others. -/
abbrev Calls := List (Call × WriteOutcome)

section

variable (env : Env) (o : WaitOptions)

/-- What a poll reads of one batch. -/
def readBatch (rule : Until) (batchId : String) (disk : Disk) : Except StoreError WaitResult :=
  match batchStatus env batchId none (1 : ℕ) none disk with
  | .ok status => .ok (rule.item batchId status.summary)
  | .error (.batchQuery .notFound message) => .ok (.notFound batchId message)
  | .error e => .error e

/-- One poll.  The store serves the reads in the order of the batches; `between k` is called before
read `k`.  The first read that throws decides the poll. -/
def poll (rule : Until) : List String → (ℕ → Calls) → Disk → Disk × Except StoreError (List WaitResult)
  | [], _, disk => (disk, .ok [])
  | batchId :: batchIds, between, disk =>
    let disk := Runs.run (Store.step env) disk (between 0)
    match readBatch env rule batchId disk with
    | .error e => (disk, .error e)
    | .ok item =>
      let (disk, items) := poll rule batchIds (fun k => between (k + 1)) disk
      (disk, items.map (item :: ·))

/-- `Math.max(1, options.pollIntervalMs ?? DEFAULT_POLL_INTERVAL_MS)` -/
def WaitOptions.interval : ℚ := max 1 o.pollIntervalMs

/-- How long the loop sleeps when this much time is over. -/
def WaitOptions.sleepFor (elapsed : ℚ) : ℚ := max 1 (min o.interval (o.timeoutMs - elapsed))

/-- The loop from poll `n` on.  The clock was read at the start (`clock 0`) and is read after every
poll (`clock (n + 1)` after poll `n`); `between n` are the calls of others during the sleep before
poll `n` and during the poll. -/
def waitLoop (batchIds : List String) (clock : ℕ → ℚ) (between : ℕ → ℕ → Calls) :
    ℕ → ℕ → Disk → Option (Disk × Except WaitError (List WaitResult))
  | 0, _, _ => none
  | fuel + 1, n, disk =>
    match poll env o.rule batchIds (between n) disk with
    | (disk, .error e) => some (disk, .error (.store e))
    | (disk, .ok items) =>
      if items.all WaitResult.ends ∨ o.timeoutMs ≤ clock (n + 1) - clock 0 then
        some (disk, .ok items)
      else waitLoop batchIds clock between fuel (n + 1) disk

def waitForBatches (batchIds : List String) (clock : ℕ → ℚ) (between : ℕ → ℕ → Calls) (fuel : ℕ)
    (disk : Disk) : Option (Disk × Except WaitError (List WaitResult)) :=
  if o.timeoutMs.den ≠ 1 ∨ o.timeoutMs < 0 ∨ o.timeoutMs > maxLifecycleWaitMs then
    some (disk, .error (.range "timeoutMs must be an integer between 0 and 30000"))
  else waitLoop env o batchIds clock between fuel 0 disk

/-- A sleep lasts as long as it was asked to. -/
structure Sleeps (clock : ℕ → ℚ) : Prop where
  start : clock 0 ≤ clock 1
  sleep : ∀ n, clock (n + 1) + o.sleepFor (clock (n + 1) - clock 0) ≤ clock (n + 2)

end

/-! ## Time -/

section

variable {o : WaitOptions} {clock : ℕ → ℚ}

theorem one_le_interval (o : WaitOptions) : 1 ≤ o.interval := le_max_left _ _

theorem interval_le_sleepFor {elapsed : ℚ} (h : elapsed + o.interval ≤ o.timeoutMs) :
    o.interval ≤ o.sleepFor elapsed := by
  refine le_trans ?_ (le_max_right _ _)
  exact le_min le_rfl (by linarith)

theorem rest_le_sleepFor {elapsed : ℚ} (h : o.timeoutMs ≤ elapsed + o.interval) :
    o.timeoutMs - elapsed ≤ o.sleepFor elapsed := by
  refine le_trans ?_ (le_max_right _ _)
  exact le_min (by linarith) le_rfl

/-- After poll `n` at least `n` intervals are over, or all of the time. -/
theorem Sleeps.elapsed (h : Sleeps o clock) (n : ℕ) :
    min (n * o.interval) o.timeoutMs ≤ clock (n + 1) - clock 0 := by
  induction n with
  | zero =>
    refine (min_le_left _ _).trans ?_
    have := h.start
    rw [Nat.cast_zero, zero_mul]
    linarith
  | succ n ih =>
    have hsleep := h.sleep n
    have hpos := one_le_interval o
    push_cast
    rcases le_total (clock (n + 1) - clock 0 + o.interval) o.timeoutMs with hearly | hlate
    · have hstep := interval_le_sleepFor hearly
      rcases min_le_iff.1 ih with hn | hover
      · refine (min_le_left _ _).trans ?_
        linarith
      · linarith
    · have hstep := rest_le_sleepFor hlate
      refine (min_le_right _ _).trans ?_
      linarith

end

/-! ## Polls -/

section

variable {env : Env} {rule : Until}

/-- A file the store can load, as every reachable file is. -/
structure Readable (env : Env) (disk : Disk) : Prop where
  valid : Valid env disk
  loads : Loads env disk

theorem Readable.run {disk : Disk} (h : Readable env disk) (calls : Calls) :
    Readable env (Runs.run (Store.step env) disk calls) :=
  ⟨valid_run env h.valid calls, loads_run h.loads calls⟩

theorem readBatch_onFile {disk : Disk} (h : Readable env disk) {batchId : String}
    (hb : hasBatch (contents disk) batchId) :
    readBatch env rule batchId disk =
      .ok (rule.item batchId (batchSummary env (contents disk) batchId)) := by
  obtain ⟨status, hstatus, hsummary⟩ :=
    batchStatus_summary h.valid h.loads hb (show 1 ≤ 1 ∧ 1 ≤ 250 by decide)
  unfold readBatch
  rw [hstatus, ← hsummary]

theorem readBatch_unknown {disk : Disk} (h : Readable env disk) {batchId : String}
    (hb : ¬ hasBatch (contents disk) batchId) :
    readBatch env rule batchId disk =
      .ok (.notFound batchId ("Unknown batch ID: " ++ batchId)) := by
  unfold readBatch
  rw [batchStatus_unknown h.loads hb]

variable (rule) in
/-- A file that loads answers every read, with a result for the batch that was asked for. -/
theorem readBatch_ok {disk : Disk} (h : Readable env disk) (batchId : String) :
    ∃ item, readBatch env rule batchId disk = .ok item ∧ item.batchId = batchId := by
  by_cases hb : hasBatch (contents disk) batchId
  · exact ⟨_, readBatch_onFile h hb, rfl⟩
  · exact ⟨_, readBatch_unknown h hb, rfl⟩

/-- All calls of others during a poll of so many batches. -/
def pollCalls (between : ℕ → Calls) (count : ℕ) : Calls := (List.range count).flatMap between

theorem pollCalls_succ (between : ℕ → Calls) (count : ℕ) :
    pollCalls between (count + 1) = between 0 ++ pollCalls (fun k => between (k + 1)) count := by
  unfold pollCalls
  rw [List.range_succ_eq_map, List.flatMap_cons, List.flatMap_map]

/-- The item is what a read of its batch returned after some of the calls. -/
def ReadDuring (env : Env) (rule : Until) (disk : Disk) (calls : Calls) (item : WaitResult) : Prop :=
  ∃ before after, calls = before ++ after ∧
    readBatch env rule item.batchId (Runs.run (Store.step env) disk before) = .ok item

theorem ReadDuring.shift {disk : Disk} {first calls : Calls} {item : WaitResult}
    (h : ReadDuring env rule (Runs.run (Store.step env) disk first) calls item) :
    ReadDuring env rule disk (first ++ calls) item := by
  obtain ⟨before, after, rfl, hread⟩ := h
  refine ⟨first ++ before, after, (List.append_assoc _ _ _).symm, ?_⟩
  rw [Runs.run_append]
  exact hread

variable (rule) in
/-- **What a poll is.**  It performs the calls of others and returns an item for each batch, in
order, read at some moment between the calls. -/
theorem poll_spec {disk : Disk} (h : Readable env disk) (batchIds : List String)
    (between : ℕ → Calls) :
    ∃ items, poll env rule batchIds between disk =
        (Runs.run (Store.step env) disk (pollCalls between batchIds.length), .ok items) ∧
      items.map (·.batchId) = batchIds ∧
      ∀ item ∈ items,
        ReadDuring env rule disk (pollCalls between batchIds.length) item := by
  induction batchIds generalizing disk between with
  | nil => exact ⟨[], rfl, rfl, fun _ h => nomatch h⟩
  | cons batchId batchIds ih =>
    have hfirst := h.run (between 0)
    obtain ⟨item, hread, hid⟩ := readBatch_ok rule hfirst batchId
    obtain ⟨items, hpoll, hids, hitems⟩ := ih hfirst fun k => between (k + 1)
    refine ⟨item :: items, ?_, ?_, ?_⟩
    · unfold poll
      dsimp only
      rw [hread]
      dsimp only
      rw [hpoll, List.length_cons, pollCalls_succ, Runs.run_append]
      rfl
    · rw [List.map_cons, hid, hids]
    · intro x hx
      rw [List.length_cons, pollCalls_succ]
      rcases List.mem_cons.1 hx with rfl | hx
      · refine ⟨between 0, _, rfl, ?_⟩
        rw [hid]
        exact hread
      · exact (hitems x hx).shift

/-- What an item says of its batch holds in the file: nothing it reports was taken back, and a batch
it reports as satisfied is satisfied. -/
def WaitResult.Stands (env : Env) (rule : Until) (disk : Disk) : WaitResult → Prop
  | .item batchId timedOut complete settled total counts =>
    hasBatch (contents disk) batchId ∧
      ({ total := total, settled := settled, complete := complete,
         partiallyComplete := 0 < settled ∧ settled < total, counts := counts } :
        BatchSummary).Later (batchSummary env (contents disk) batchId) ∧
      (timedOut = false → rule.satisfied (batchSummary env (contents disk) batchId) = true)
  | .notFound .. => True

def WaitResult.found : WaitResult → Bool
  | .item .. => true
  | .notFound .. => false

theorem Until.satisfied_later {x x' : BatchSummary} (h : x.Later x')
    (hx : rule.satisfied x = true) : rule.satisfied x' = true := by
  cases rule with
  | allTerminal => exact (h.complete hx).1
  | anyTerminal => exact decide_eq_true (lt_of_lt_of_le (of_decide_eq_true hx) h.settled)

/-- An item stands in the file it was read from. -/
theorem stands_of_read {disk : Disk} (h : Readable env disk) {item : WaitResult}
    (hread : readBatch env rule item.batchId disk = .ok item) : item.Stands env rule disk := by
  by_cases hb : hasBatch (contents disk) item.batchId
  · rw [readBatch_onFile h hb] at hread
    generalize item.batchId = batchId at hread hb
    obtain rfl := Except.ok.inj hread
    refine ⟨hb, BatchSummary.Later.refl _, fun hin => ?_⟩
    simpa using hin
  · rw [readBatch_unknown h hb] at hread
    generalize item.batchId = batchId at hread
    obtain rfl := Except.ok.inj hread
    trivial

/-- An item that stands stands after every run. -/
theorem WaitResult.Stands.run {disk : Disk} {item : WaitResult} (h : item.Stands env rule disk)
    {calls : Calls} (hcalls : ∀ i ∈ calls, Placed env i.1) :
    item.Stands env rule (Runs.run (Store.step env) disk calls) := by
  cases item with
  | notFound batchId message => trivial
  | item batchId timedOut complete settled total counts =>
    obtain ⟨hb, hlater, hsatisfied⟩ := h
    obtain ⟨hb', hprogress⟩ := progress_run hb hcalls
    exact ⟨hb', hlater.trans hprogress, fun ht => Until.satisfied_later hprogress (hsatisfied ht)⟩

/-- What was read during a poll stands after it. -/
theorem ReadDuring.stands {disk : Disk} (h : Readable env disk) {calls : Calls}
    (hcalls : ∀ i ∈ calls, Placed env i.1) {item : WaitResult}
    (hread : ReadDuring env rule disk calls item) :
    item.Stands env rule (Runs.run (Store.step env) disk calls) := by
  obtain ⟨before, after, rfl, hread⟩ := hread
  rw [Runs.run_append]
  refine (stands_of_read (h.run before) hread).run fun i hi => ?_
  exact hcalls i (List.mem_append_right _ hi)

/-- A batch on file is found, and it ends the wait when it is satisfied. -/
theorem ReadDuring.of_onFile {disk : Disk} (h : Readable env disk) {calls : Calls}
    (hcalls : ∀ i ∈ calls, Placed env i.1) {item : WaitResult}
    (hread : ReadDuring env rule disk calls item) (hb : hasBatch (contents disk) item.batchId) :
    item.found = true ∧
      (rule.satisfied (batchSummary env (contents disk) item.batchId) = true →
        item.ends = true) := by
  obtain ⟨before, after, rfl, hread⟩ := hread
  obtain ⟨hb', hprogress⟩ :=
    progress_run hb fun i (hi : i ∈ before) => hcalls i (List.mem_append_left _ hi)
  rw [readBatch_onFile (h.run before) hb'] at hread
  generalize item.batchId = batchId at hread hb hb' hprogress
  obtain rfl := Except.ok.inj hread
  refine ⟨rfl, fun hs => ?_⟩
  unfold Until.item WaitResult.ends
  rw [Until.satisfied_later hprogress hs]
  rfl

end

/-! ## The wait -/

section

variable {env : Env} {o : WaitOptions} {batchIds : List String} {clock : ℕ → ℚ}
  {between : ℕ → ℕ → Calls}

/-- The calls of others during so many polls, from poll `n` on. -/
def roundCalls (between : ℕ → ℕ → Calls) (count n rounds : ℕ) : Calls :=
  (List.range rounds).flatMap fun j => pollCalls (between (n + j)) count

theorem roundCalls_succ (between : ℕ → ℕ → Calls) (count n rounds : ℕ) :
    roundCalls between count n (rounds + 1) =
      pollCalls (between n) count ++ roundCalls between count (n + 1) rounds := by
  unfold roundCalls
  rw [List.range_succ_eq_map, List.flatMap_cons, List.flatMap_map, Nat.add_zero]
  refine congrArg _ (List.flatMap_congr fun j _ => ?_)
  rw [Nat.succ_eq_add_one, Nat.add_assoc, Nat.add_comm 1 j]

theorem roundCalls_last (between : ℕ → ℕ → Calls) (count n rounds : ℕ) :
    roundCalls between count n (rounds + 1) =
      roundCalls between count n rounds ++ pollCalls (between (n + rounds)) count := by
  unfold roundCalls
  rw [List.range_succ, List.flatMap_append, List.flatMap_singleton]

/-- Poll `k` of those from poll `n` on returned the items. -/
def PolledItems (env : Env) (o : WaitOptions) (batchIds : List String) (between : ℕ → ℕ → Calls)
    (n : ℕ) (disk : Disk) (k : ℕ) (items : List WaitResult) : Prop :=
  poll env o.rule batchIds (between (n + k))
      (Runs.run (Store.step env) disk (roundCalls between batchIds.length n k)) =
    (Runs.run (Store.step env) disk (roundCalls between batchIds.length n (k + 1)), .ok items)

theorem PolledItems.first {n : ℕ} {disk : Disk} {items : List WaitResult}
    (h : poll env o.rule batchIds (between n) disk =
      (Runs.run (Store.step env) disk (pollCalls (between n) batchIds.length), .ok items)) :
    PolledItems env o batchIds between n disk 0 items := by
  unfold PolledItems
  rw [roundCalls_succ, show roundCalls between batchIds.length (n + 1) 0 = [] from rfl,
    List.append_nil]
  exact h

theorem PolledItems.next {n k : ℕ} {disk : Disk} {items : List WaitResult}
    (h : PolledItems env o batchIds between (n + 1)
      (Runs.run (Store.step env) disk (pollCalls (between n) batchIds.length)) k items) :
    PolledItems env o batchIds between n disk (k + 1) items := by
  unfold PolledItems at h ⊢
  rw [roundCalls_succ, roundCalls_succ between batchIds.length n (k + 1), Runs.run_append,
    Runs.run_append, show n + (k + 1) = n + 1 + k by omega]
  exact h

/-- The items of a poll are those of its batches, each read during the poll. -/
theorem PolledItems.reads {n k : ℕ} {disk : Disk} (h : Readable env disk) {items : List WaitResult}
    (hp : PolledItems env o batchIds between n disk k items) :
    items.map (·.batchId) = batchIds ∧ ∀ item ∈ items, ReadDuring env o.rule
      (Runs.run (Store.step env) disk (roundCalls between batchIds.length n k))
      (pollCalls (between (n + k)) batchIds.length) item := by
  obtain ⟨items', hpoll, hids, hread⟩ := poll_spec o.rule
    (h.run (roundCalls between batchIds.length n k)) batchIds (between (n + k))
  unfold PolledItems at hp
  have hsame : Except.ok items' = Except.ok items := (Prod.mk.inj (hpoll.symm.trans hp)).2
  obtain rfl := Except.ok.inj hsame
  exact ⟨hids, hread⟩

/-- The loop ends with a poll whose items all end or after which the time is over. -/
theorem waitLoop_last {n : ℕ} {disk : Disk} {items : List WaitResult}
    (h : poll env o.rule batchIds (between n) disk =
      (Runs.run (Store.step env) disk (pollCalls (between n) batchIds.length), .ok items))
    (hend : items.all WaitResult.ends = true ∨ o.timeoutMs ≤ clock (n + 1) - clock 0) :
    waitLoop env o batchIds clock between 1 n disk =
      some (Runs.run (Store.step env) disk (roundCalls between batchIds.length n 1),
        .ok items) := by
  unfold waitLoop
  rw [h]
  dsimp only
  rw [if_pos hend, roundCalls_succ, show roundCalls between batchIds.length (n + 1) 0 = [] from rfl,
    List.append_nil]

/-- **What the loop does.**  With the time over after poll `n + m`, it returns what one of the polls
up to that one returned: the first whose items all end or after which the time is over. -/
theorem waitLoop_spec (m : ℕ) {n : ℕ} {disk : Disk} (h : Readable env disk)
    (hover : o.timeoutMs ≤ clock (n + m + 1) - clock 0) :
    ∃ k ≤ m, ∃ items,
      waitLoop env o batchIds clock between (k + 1) n disk =
        some (Runs.run (Store.step env) disk (roundCalls between batchIds.length n (k + 1)),
          .ok items) ∧
      PolledItems env o batchIds between n disk k items ∧
      (items.all WaitResult.ends = true ∨ o.timeoutMs ≤ clock (n + k + 1) - clock 0) ∧
      ∀ j < k, ∃ others, PolledItems env o batchIds between n disk j others ∧
        others.all WaitResult.ends = false := by
  induction m generalizing n disk with
  | zero =>
    obtain ⟨items, hpoll, -, -⟩ := poll_spec o.rule h batchIds (between n)
    have hend : items.all WaitResult.ends = true ∨ o.timeoutMs ≤ clock (n + 1) - clock 0 :=
      Or.inr hover
    exact ⟨0, le_rfl, items, waitLoop_last hpoll hend, .first hpoll, hend,
      fun j hj => absurd hj (Nat.not_lt_zero j)⟩
  | succ m ih =>
    obtain ⟨items, hpoll, -, -⟩ := poll_spec o.rule h batchIds (between n)
    by_cases hend : items.all WaitResult.ends = true ∨ o.timeoutMs ≤ clock (n + 1) - clock 0
    · exact ⟨0, Nat.zero_le _, items, waitLoop_last hpoll hend, .first hpoll, hend,
        fun j hj => absurd hj (Nat.not_lt_zero j)⟩
    · -- The loop sleeps, and the rest of it starts from the file after this poll.
      have hover' : o.timeoutMs ≤ clock (n + 1 + m + 1) - clock 0 := by
        rw [show n + 1 + m + 1 = n + (m + 1) + 1 by omega]
        exact hover
      obtain ⟨k, hk, last, hloop, hlast, hreturn, hearlier⟩ :=
        @ih (n + 1) _ (h.run (pollCalls (between n) batchIds.length)) hover'
      refine ⟨k + 1, by omega, last, ?_, hlast.next, ?_, ?_⟩
      · unfold waitLoop
        rw [hpoll]
        dsimp only
        rw [if_neg hend, hloop, roundCalls_succ between batchIds.length n (k + 1), Runs.run_append]
      · rw [show n + (k + 1) + 1 = n + 1 + k + 1 by omega]
        exact hreturn
      · intro j hj
        cases j with
        | zero =>
          refine ⟨items, .first hpoll, ?_⟩
          rw [not_or, Bool.not_eq_true] at hend
          exact hend.1
        | succ j =>
          obtain ⟨others, hothers, hopen⟩ := hearlier j (by omega)
          exact ⟨others, hothers.next, hopen⟩

end

/-- **A wait tells the truth, misses nothing and ends.**  From every reachable file, with calls of
others before every read, their launches as the launch service builds them: `waitForBatches` returns
after at most one poll for each interval of its timeout and one more, with an item for each batch in
order.  What an item reports holds at its return and after every later run; a batch on file at the
start is never reported missing; it returns before the timeout only if every batch is satisfied or
missing, and at the first poll that starts with every batch on file and satisfied at the latest. -/
theorem wait_returns {env : Launch.AcceptEnv} {disk : Disk} (hdisk : Reachable env.toEnv disk)
    {o : WaitOptions}
    (ht : o.timeoutMs.den = 1 ∧ 0 ≤ o.timeoutMs ∧ o.timeoutMs ≤ maxLifecycleWaitMs)
    {clock : ℕ → ℚ} (hclock : Sleeps o clock) {between : ℕ → ℕ → Calls}
    (hbetween : ∀ n k, ∀ i ∈ between n k, Launch.Accepts env i.1) (batchIds : List String) :
    ∃ k items,
      let before := fun j => Runs.run (Store.step env.toEnv) disk
        (roundCalls between batchIds.length 0 j)
      k ≤ ⌈o.timeoutMs / o.interval⌉₊ ∧
      waitForBatches env.toEnv o batchIds clock between (k + 1) disk =
        some (before (k + 1), .ok items) ∧
      items.map (·.batchId) = batchIds ∧
      (∀ item ∈ items, ∀ later : Calls, (∀ i ∈ later, Launch.Accepts env i.1) →
        item.Stands env.toEnv o.rule
          (Runs.run (Store.step env.toEnv) (before (k + 1)) later)) ∧
      (∀ item ∈ items, hasBatch (contents disk) item.batchId → item.found = true) ∧
      (items.all WaitResult.ends = true ∨ o.timeoutMs ≤ clock (k + 1) - clock 0) ∧
      ∀ j, (∀ batchId ∈ batchIds, hasBatch (contents (before j)) batchId ∧
          o.rule.satisfied (batchSummary env.toEnv (contents (before j)) batchId) = true) →
        k ≤ j := by
  have hreadable : Readable env.toEnv disk := by
    obtain ⟨calls, rfl⟩ := hdisk
    exact ⟨valid_run _ (valid_none _) calls, @loads_run env.toEnv none rfl calls⟩
  have hplaced : ∀ n k, ∀ i ∈ between n k, Placed env.toEnv i.1 :=
    fun n k i hi => (hbetween n k i hi).placed
  have hover : o.timeoutMs ≤ clock (0 + ⌈o.timeoutMs / o.interval⌉₊ + 1) - clock 0 := by
    have hpos := one_le_interval o
    have hceil : o.timeoutMs ≤ ⌈o.timeoutMs / o.interval⌉₊ * o.interval :=
      (div_le_iff₀ (by linarith)).1 (Nat.le_ceil _)
    rw [Nat.zero_add]
    have := hclock.elapsed ⌈o.timeoutMs / o.interval⌉₊
    rwa [min_eq_right hceil] at this
  obtain ⟨k, hk, items, hloop, hlast, hreturn, hearlier⟩ :=
    @waitLoop_spec env.toEnv o batchIds clock between _ 0 disk hreadable hover
  have hround : ∀ j, ∀ i ∈ pollCalls (between (0 + j)) batchIds.length, Placed env.toEnv i.1 := by
    intro j i hi
    obtain ⟨l, -, hi⟩ := List.mem_flatMap.1 hi
    exact hplaced _ l i hi
  have hrounds : ∀ j, ∀ i ∈ roundCalls between batchIds.length 0 j, Placed env.toEnv i.1 := by
    intro j i hi
    obtain ⟨l, -, hi⟩ := List.mem_flatMap.1 hi
    exact hround l i hi
  obtain ⟨hids, hread⟩ := hlast.reads hreadable
  refine ⟨k, items, hk, ?_, hids, ?_, ?_, ?_, ?_⟩
  · unfold waitForBatches
    rw [if_neg, hloop]
    rintro (hden | hneg | hbig)
    · exact hden ht.1
    · exact absurd ht.2.1 (not_le.2 hneg)
    · exact absurd ht.2.2 (not_le.2 hbig)
  · intro item hitem later hlater
    refine WaitResult.Stands.run ?_ fun i hi => (hlater i hi).placed
    dsimp only
    rw [roundCalls_last, Runs.run_append]
    exact (hread item hitem).stands (hreadable.run _) (hround k)
  · intro item hitem hb
    have hb' := (progress_run hb (hrounds k)).1
    exact ((hread item hitem).of_onFile (hreadable.run _) (hround k) hb').1
  · rw [Nat.zero_add] at hreturn
    exact hreturn
  · intro j hj
    by_contra hlt
    obtain ⟨others, hothers, hopen⟩ := hearlier j (not_le.1 hlt)
    obtain ⟨hids', hread'⟩ := hothers.reads hreadable
    have hall : others.all WaitResult.ends = true := by
      refine List.all_eq_true.2 fun item hitem => ?_
      have hmem : item.batchId ∈ batchIds := hids' ▸ List.mem_map_of_mem hitem
      obtain ⟨hb, hs⟩ := hj _ hmem
      exact ((hread' item hitem).of_onFile (hreadable.run _) (hround j) hb).2 hs
    rw [hall] at hopen
    cases hopen

/-- A wait of a tenth of a second for a batch that nobody works on and one that does not exist. -/
theorem wait_returns_sample :
    ∃ k items, k ≤ 4 ∧
      waitForBatches Launch.pagingEnv.toEnv { timeoutMs := 100 } ["b1", "b9"] (fun n => 30 * n)
        (fun _ _ => [keyedBatch "c2" "k2" secondIds]) (k + 1)
        (Runs.run (Store.step Launch.pagingEnv.toEnv) none [Launch.threeSessions]) =
      some (Runs.run (Store.step Launch.pagingEnv.toEnv)
        (Runs.run (Store.step Launch.pagingEnv.toEnv) none [Launch.threeSessions])
        (roundCalls (fun _ _ => [keyedBatch "c2" "k2" secondIds]) 2 0 (k + 1)),
        .ok items) ∧
      items.map (·.batchId) = ["b1", "b9"] := by
  have hbetween : ∀ n k : ℕ,
      ∀ i ∈ (fun _ _ : ℕ => [keyedBatch "c2" "k2" secondIds]) n k,
        Launch.Accepts Launch.pagingEnv i.1 := by
    intro n k i hi
    obtain rfl := List.mem_singleton.1 hi
    trivial
  have hclock : Sleeps { timeoutMs := 100 } fun n => 30 * n := by
    constructor
    · norm_num
    · intro n
      have hsleep : WaitOptions.sleepFor { timeoutMs := 100 }
          (30 * ((n + 1 : ℕ) : ℚ) - 30 * ((0 : ℕ) : ℚ)) ≤ 30 := by
        unfold WaitOptions.sleepFor WaitOptions.interval
        exact max_le (by norm_num) ((min_le_left _ _).trans (by norm_num))
      push_cast at hsleep ⊢
      linarith
  obtain ⟨k, items, hk, hwait, hids, -⟩ := wait_returns ⟨_, rfl⟩
    (o := { timeoutMs := 100 }) (by unfold maxLifecycleWaitMs; norm_num) hclock hbetween ["b1", "b9"]
  refine ⟨k, items, hk.trans ?_, hwait, hids⟩
  refine Nat.ceil_le.2 ?_
  unfold WaitOptions.interval
  norm_num

end AgentOrchestrator.Lifecycle
