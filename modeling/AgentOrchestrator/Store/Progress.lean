import AgentOrchestrator.Store.Pages
import Mathlib.Algebra.BigOperators.Group.List.Basic
import Mathlib.Algebra.GroupWithZero.Nat

/-!
# The progress of a batch

`batchStatus` counts the members of a batch by their status.  The members of a batch on file are
fixed and a settled session stays settled with its status, so no call takes progress back: the total
is constant, the counts of the three terminal statuses only grow, and a complete batch stays complete
with the same counts.
-/

namespace AgentOrchestrator.Store

variable (env : Env)

/-! ## Summaries -/

/-- A session in the answer of `batchStatus`. -/
structure SessionStatus where
  sessionId : String
  batchId : String
  status : WorkerStatus
  attribution : WorkerAttribution
  startedAt : Timestamp
  completedAt : Option Timestamp

def sessionStatus (w : Worker) : SessionStatus where
  sessionId := w.id
  batchId := w.batchId
  status := w.status
  attribution := w.attribution
  startedAt := w.startedAt
  completedAt := w.completedAt

structure BatchSummary where
  total : ℕ
  settled : ℕ
  complete : Bool
  partiallyComplete : Bool
  counts : WorkerStatus → ℕ

structure BatchStatus where
  batch : Batch
  sessions : List SessionStatus
  unknownIds : List String
  nextCursor : Option String
  summary : BatchSummary

/-- The keys of `counts`. -/
def countedStatuses : List WorkerStatus :=
  [.requested, .running, .canceling, .succeeded, .failed, .canceled, .unknownOutcome]

/-- `counts[worker.status] += 1` -/
def countWorker (counts : WorkerStatus → ℕ) (w : Worker) : WorkerStatus → ℕ :=
  Function.update counts w.status (counts w.status + 1)

/-- The summary of some workers, counted one after another. -/
def summaryOf (workers : List Worker) : BatchSummary :=
  let counts := workers.foldl countWorker fun _ => 0
  let settled := counts .succeeded + counts .failed + counts .canceled
  let total := (countedStatuses.map counts).sum
  { total := total
    settled := settled
    complete := settled = total
    partiallyComplete := 0 < settled ∧ settled < total
    counts := counts }

/-- The summary of a batch. -/
def batchSummary (s : DurableState) (batchId : String) : BatchSummary :=
  summaryOf (workersForBatch env s batchId)

/-- The page of a query with the summary of its batch. -/
def statusOf (s : DurableState) (batchId : String) (page : BatchPage) : BatchStatus where
  batch := page.batch
  sessions := page.sessions.map sessionStatus
  unknownIds := page.unknownIds
  nextCursor := page.nextCursor
  summary := batchSummary env s batchId

def batchStatus (batchId : String) (ids : Option (List String)) (limit : ℚ)
    (cursor : Option String) (disk : Disk) : Except StoreError BatchStatus :=
  (load env disk).bind fun s =>
    (queryBatch env batchId ids limit cursor s).map (statusOf env s batchId)

variable {env}

/-! ## Counting -/

theorem foldl_countWorker (workers : List Worker) (counts : WorkerStatus → ℕ)
    (status : WorkerStatus) :
    workers.foldl countWorker counts status =
      counts status + workers.countP fun w => w.status = status := by
  induction workers generalizing counts with
  | nil => rfl
  | cons w workers ih =>
    rw [List.foldl_cons, ih, List.countP_cons]
    unfold countWorker
    by_cases h : w.status = status
    · subst h
      simp
      omega
    · rw [Function.update_of_ne fun e => h e.symm, if_neg (by simpa using h), Nat.add_zero]

/-- Every status has one counter, so the counters of a list add up to its length. -/
theorem sum_counts (workers : List Worker) :
    (countedStatuses.map fun status => workers.countP fun w => w.status = status).sum =
      workers.length := by
  induction workers with
  | nil => rfl
  | cons w workers ih =>
    have hone : (countedStatuses.map fun status => if w.status = status then 1 else 0).sum = 1 := by
      cases w.status <;> rfl
    simp only [List.countP_cons, decide_eq_true_eq, List.length_cons]
    rw [List.sum_map_add, ih, hone]

theorem counts_summaryOf (workers : List Worker) (status : WorkerStatus) :
    (summaryOf workers).counts status = workers.countP fun w => w.status = status := by
  show workers.foldl countWorker (fun _ => 0) status = _
  rw [foldl_countWorker, Nat.zero_add]

theorem total_summaryOf (workers : List Worker) : (summaryOf workers).total = workers.length := by
  rw [← sum_counts workers]
  show (countedStatuses.map (summaryOf workers).counts).sum = _
  rw [funext (counts_summaryOf workers)]

theorem settled_summaryOf (workers : List Worker) :
    (summaryOf workers).settled = workers.countP fun w => w.status.isTerminal := by
  show (summaryOf workers).counts .succeeded + (summaryOf workers).counts .failed +
    (summaryOf workers).counts .canceled = _
  rw [counts_summaryOf, counts_summaryOf, counts_summaryOf]
  induction workers with
  | nil => rfl
  | cons w workers ih =>
    simp only [List.countP_cons]
    rw [← ih]
    cases w.status <;> simp [WorkerStatus.isTerminal] <;> omega

theorem complete_summaryOf (workers : List Worker) :
    (summaryOf workers).complete = true ↔ ∀ w ∈ workers, w.status.isTerminal = true := by
  rw [← List.countP_eq_length, ← settled_summaryOf, ← total_summaryOf]
  exact decide_eq_true_iff

/-! ## Progress is kept -/

/-- The later versions of some workers, in the same order. -/
def LaterAll (workers workers' : List Worker) : Prop := List.Forall₂ Worker.Later workers workers'

theorem LaterAll.countP {p : Worker → Bool} (hp : ∀ w w' : Worker, w.Later w' → p w → p w')
    {workers workers' : List Worker} (h : LaterAll workers workers') :
    workers.countP p ≤ workers'.countP p := by
  induction h with
  | nil => exact le_rfl
  | @cons w w' _ _ hw _ ih =>
    rw [List.countP_cons, List.countP_cons]
    have := hp w w' hw
    split_ifs <;> grind

/-- What a later summary of the same sessions keeps of an earlier one. -/
structure BatchSummary.Later (x x' : BatchSummary) : Prop where
  total : x'.total = x.total
  settled : x.settled ≤ x'.settled
  counts : ∀ status : WorkerStatus, status.isTerminal = true → x.counts status ≤ x'.counts status
  complete : x.complete = true → x'.complete = true ∧ x'.counts = x.counts

theorem LaterAll.statuses {workers workers' : List Worker} (h : LaterAll workers workers')
    (ht : ∀ w ∈ workers, w.status.isTerminal = true) :
    workers'.map (·.status) = workers.map (·.status) := by
  induction h with
  | nil => rfl
  | cons hw _ ih =>
    rw [List.map_cons, List.map_cons, ih fun w hw => ht w (List.mem_cons_of_mem _ hw)]
    rw [(hw.outcome (ht _ List.mem_cons_self)).status]

theorem LaterAll.summary {workers workers' : List Worker} (h : LaterAll workers workers') :
    (summaryOf workers).Later (summaryOf workers') where
  total := by rw [total_summaryOf, total_summaryOf, h.length_eq]
  settled := by
    rw [settled_summaryOf, settled_summaryOf]
    refine h.countP fun w w' hw ht => ?_
    rw [(hw.outcome ht).status]
    exact ht
  counts status hstatus := by
    rw [counts_summaryOf, counts_summaryOf]
    refine h.countP fun w w' hw ht => ?_
    have e : w.status = status := of_decide_eq_true ht
    rw [(hw.outcome (by rw [e]; exact hstatus)).status]
    exact ht
  complete hc := by
    have ht := (complete_summaryOf workers).1 hc
    have hs := h.statuses ht
    constructor
    · refine (complete_summaryOf workers').2 fun w' hw' => ?_
      have hmem : w'.status ∈ workers'.map (·.status) := List.mem_map_of_mem hw'
      rw [hs] at hmem
      obtain ⟨w, hw, e⟩ := List.mem_map.1 hmem
      rw [← e]
      exact ht w hw
    · funext status
      rw [counts_summaryOf, counts_summaryOf]
      have hcount : ∀ l : List Worker, l.countP (fun w => decide (w.status = status)) =
          (l.map (·.status)).countP fun x => decide (x = status) := by
        intro l
        rw [List.countP_map]
        rfl
      rw [hcount, hcount, hs]

theorem BatchSummary.Later.refl (x : BatchSummary) : x.Later x :=
  ⟨rfl, le_rfl, fun _ _ => le_rfl, fun h => ⟨h, rfl⟩⟩

theorem BatchSummary.Later.trans {x y z : BatchSummary} (h : x.Later y) (h' : y.Later z) :
    x.Later z where
  total := h'.total.trans h.total
  settled := h.settled.trans h'.settled
  counts status ht := (h.counts status ht).trans (h'.counts status ht)
  complete hc := by
    obtain ⟨hy, ey⟩ := h.complete hc
    obtain ⟨hz, ez⟩ := h'.complete hy
    exact ⟨hz, ez.trans ey⟩

/-! ## Steps and runs -/

theorem summaryOf_perm {workers workers' : List Worker} (h : workers.Perm workers') :
    summaryOf workers = summaryOf workers' := by
  have hcounts : (summaryOf workers).counts = (summaryOf workers').counts := by
    funext status
    rw [counts_summaryOf, counts_summaryOf, h.countP_eq]
  exact congrArg (fun counts : WorkerStatus → ℕ =>
    ({ total := (countedStatuses.map counts).sum
       settled := counts .succeeded + counts .failed + counts .canceled
       complete := counts .succeeded + counts .failed + counts .canceled =
        (countedStatuses.map counts).sum
       partiallyComplete := 0 < counts .succeeded + counts .failed + counts .canceled ∧
        counts .succeeded + counts .failed + counts .canceled < (countedStatuses.map counts).sum
       counts := counts } : BatchSummary)) hcounts

theorem batchSummary_eq (s : DurableState) (batchId : String) :
    batchSummary env s batchId = summaryOf (membersOf s batchId) :=
  summaryOf_perm (List.mergeSort_perm _ _)

/-- A call replaces the members of a batch on file by later versions of them. -/
theorem membersOf_step {disk : Disk} {i : Call × WriteOutcome} (hc : Placed env i.1)
    {batchId : String} (hb : hasBatch (contents disk) batchId) :
    LaterAll (membersOf (contents disk) batchId) (membersOf (contents (step env disk i)) batchId) := by
  rcases step_cases env disk i.1 i.2 with e | ⟨next, hs, hn, hnext, e⟩
  · rw [show step env disk i = disk from e]
    exact List.forall₂_same.2 fun w _ => .refl w
  · rw [show step env disk i = some next from e]
    obtain ⟨f, hf, hrewrites⟩ := Call.rewritten hs.toUniqueIdentities hn
    have hadded : (i.1.added env).filter (fun w => decide (w.batchId = batchId)) = [] := by
      refine List.filter_eq_nil_iff.2 fun w hw hbatch => ?_
      refine Call.opens_new hn hnext (hc.batch w hw) ?_
      rw [of_decide_eq_true hbatch]
      exact hb
    have hmembers : membersOf next batchId = (membersOf (contents disk) batchId).map f := by
      unfold membersOf
      rw [hf, List.filter_append, hadded, List.append_nil, List.filter_map]
      refine congrArg _ (List.filter_congr fun w hw => ?_)
      show decide ((f w).batchId = batchId) = decide (w.batchId = batchId)
      rw [show (f w).batchId = w.batchId from congrArg Place.batchId (hrewrites w hw).place]
    rw [show contents (some next) = next from rfl, hmembers]
    refine List.forall₂_map_right_iff.2 (List.forall₂_same.2 fun w hw => ?_)
    exact (hrewrites w (List.mem_filter.1 hw).1).later

theorem batchSummary_step {disk : Disk} {i : Call × WriteOutcome} (hc : Placed env i.1)
    {batchId : String} (hb : hasBatch (contents disk) batchId) :
    (batchSummary env (contents disk) batchId).Later
      (batchSummary env (contents (step env disk i)) batchId) := by
  rw [batchSummary_eq, batchSummary_eq]
  exact (membersOf_step hc hb).summary

/-- A batch on file can be asked for its status, and a batch that is not on file is unknown. -/
theorem batchStatus_summary {disk : Disk} (hv : Valid env disk) (hl : Loads env disk)
    {batchId : String} (hb : hasBatch (contents disk) batchId) {limit : ℕ}
    (hlimit : 1 ≤ limit ∧ limit ≤ 250) :
    ∃ status, batchStatus env batchId none limit none disk = .ok status ∧
      status.summary = batchSummary env (contents disk) batchId := by
  obtain ⟨page, hpage, -⟩ := getBatch_page hv hl hb hlimit ⟨Nat.zero_le _, Or.inl ⟨rfl, rfl⟩⟩
  refine ⟨statusOf env (contents disk) batchId page, ?_, rfl⟩
  unfold getBatch at hpage
  unfold batchStatus
  rw [show load env disk = .ok (contents disk) from hl] at hpage ⊢
  dsimp only [Except.bind] at hpage ⊢
  rw [hpage]
  rfl

theorem batchStatus_unknown {disk : Disk} (hl : Loads env disk) {batchId : String}
    (hb : ¬ hasBatch (contents disk) batchId) (ids : Option (List String)) (limit : ℚ)
    (cursor : Option String) :
    batchStatus env batchId ids limit cursor disk =
      .error (.batchQuery .notFound ("Unknown batch ID: " ++ batchId)) := by
  have hnone : Keyed.lookup (·.id) batchId (contents disk).batches = none := by
    refine Keyed.lookup_eq_none.2 fun b hmem e => hb ⟨b, hmem, e⟩
  unfold batchStatus
  rw [show load env disk = .ok (contents disk) from hl]
  unfold queryBatch
  dsimp only [Except.bind]
  rw [hnone]
  rfl

/-- **Progress is never taken back.**  From any file with the batch on it, after every run of calls:
the total is the same, no terminal status lost a session, and a complete batch is complete with the
same counts. -/
theorem progress_run {disk : Disk} {batchId : String} (hb : hasBatch (contents disk) batchId)
    {calls : List (Call × WriteOutcome)} (hcalls : ∀ i ∈ calls, Placed env i.1) :
    hasBatch (contents (Runs.run (step env) disk calls)) batchId ∧
      (batchSummary env (contents disk) batchId).Later
        (batchSummary env (contents (Runs.run (step env) disk calls)) batchId) := by
  have hstep : ∀ (d : Disk) (i : Call × WriteOutcome),
      (hasBatch (contents d) batchId ∧ (batchSummary env (contents disk) batchId).Later
        (batchSummary env (contents d) batchId)) → Placed env i.1 →
      hasBatch (contents (step env d i)) batchId ∧ (batchSummary env (contents disk) batchId).Later
        (batchSummary env (contents (step env d i)) batchId) := by
    rintro d i ⟨hd, hl⟩ hi
    exact ⟨hasBatch_step hd i, hl.trans (batchSummary_step hi hd)⟩
  exact Runs.run_invariant_of _ hstep ⟨hb, .refl _⟩
    (Runs.admissible_of_forall (step env) hcalls disk)

end AgentOrchestrator.Store
