import AgentOrchestrator.Store.Cursors
import AgentOrchestrator.Store.Membership

/-!
# The pages of a batch

`getBatch` reads the file anew and returns one page of the members of a batch.  A page that is not
the last one comes with a cursor for the next.  Following the cursors from the first page returns
every member once, in order, whatever is called between two pages: the offsets in the cursors stay
meaningful because the members of a batch are fixed.
-/

namespace AgentOrchestrator.Store

/-! ## Queries -/

structure BatchPage where
  batch : Batch
  sessions : List Worker
  unknownIds : List String
  nextCursor : Option String

variable (env : Env)

/-- `workerIdsByBatchId`, rebuilt when the file is loaded. -/
def memberIds (s : DurableState) (batchId : String) : List String :=
  (workersForBatch env s batchId).map (·.id)

/-- `ids.filter((id, index) => ids.indexOf(id) !== index)` -/
def duplicateIds (ids : List String) : List String :=
  (ids.zipIdx.filter fun (id, index) => ids.idxOf id ≠ index).map Prod.fst

/-- The sessions with the given identities, and the identities the batch does not have. -/
def sessionsWithIds (s : DurableState) (batchId : String) (ids : List String) :
    List Worker × List String :=
  let known := fun id => (s.worker? id).filter (·.batchId = batchId)
  (ids.filterMap known, ids.filter fun id => (known id).isNone)

/-- The offset of the page a cursor asks for. -/
def cursorOffset (batchId : String) : Option String → Except StoreError ℕ
  | none => .ok 0
  | some cursor => decodeCursor cursor batchId

def queryBatch (batchId : String) (ids : Option (List String)) (limit : ℚ) (cursor : Option String)
    (s : DurableState) : Except StoreError BatchPage :=
  match Keyed.lookup (·.id) batchId s.batches with
  | none => .error (.batchQuery .notFound ("Unknown batch ID: " ++ batchId))
  | some batch =>
    if limit.den ≠ 1 ∨ limit < 1 ∨ limit > 250 then
      .error (.batchQuery .invalidCursor "Limit must be between 1 and 250")
    else
      match ids, cursor with
      | some _, some _ => .error (.batchQuery .invalidCursor "IDs and cursor cannot be combined")
      | some ids, none =>
        let duplicates := duplicateIds ids
        if duplicates.length > 0 then
          .error (.batchQuery .duplicateIds
            ("Duplicate session IDs: " ++ String.intercalate ", " duplicates.eraseDups))
        else
          let (sessions, unknownIds) := sessionsWithIds s batchId ids
          .ok { batch := batch, sessions := sessions, unknownIds := unknownIds, nextCursor := none }
      | none, cursor => do
        let ids := memberIds env s batchId
        let offset ← cursorOffset batchId cursor
        let pageIds := (ids.drop offset).take limit.num.toNat
        return {
          batch := batch
          sessions := pageIds.filterMap s.worker?
          unknownIds := []
          nextCursor :=
            if offset + pageIds.length < ids.length then
              some (encodeCursor batchId (offset + pageIds.length))
            else none }

/-- A query of the public interface, on the file as it is. -/
def getBatch (batchId : String) (ids : Option (List String)) (limit : ℚ) (cursor : Option String)
    (disk : Disk) : Except StoreError BatchPage :=
  (load env disk).bind (queryBatch env batchId ids limit cursor)

/-- Follow the cursors from page `n` on; `between n` are the calls of others after that page. -/
def follow (batchId : String) (limit : ℚ) (between : ℕ → List (Call × WriteOutcome)) :
    ℕ → ℕ → Option String → Disk → Option (List BatchPage)
  | 0, _, _, _ => none
  | fuel + 1, n, cursor, disk =>
    match getBatch env batchId none limit cursor disk with
    | .error _ => none
    | .ok page =>
      match page.nextCursor with
      | none => some [page]
      | some cursor =>
        (follow batchId limit between fuel (n + 1) (some cursor)
          (Runs.run (step env) disk (between n))).map (page :: ·)

/-! ## The order of the members -/

variable {env}

/-- `memberCompare` on places. -/
def placeCompare (env : Env) (left right : Place) : Ordering :=
  (compare (left.position.getD maxSafeInteger) (right.position.getD maxSafeInteger)).then <|
    (env.localeCompare left.startedAt right.startedAt).then (env.localeCompare left.id right.id)

/-- The places of the members of a batch, in order. -/
def sortedPlaces (env : Env) (s : DurableState) (batchId : String) : List Place :=
  (memberPlaces s batchId).mergeSort fun left right => placeCompare env left right ≠ .gt

theorem map_place_workersForBatch (s : DurableState) (batchId : String) :
    (workersForBatch env s batchId).map Worker.place = sortedPlaces env s batchId :=
  List.map_mergeSort fun _ _ _ _ => rfl

theorem mem_workersForBatch {s : DurableState} {batchId : String} {w : Worker} :
    w ∈ workersForBatch env s batchId ↔ w ∈ s.workers ∧ w.batchId = batchId := by
  unfold workersForBatch
  rw [List.mem_mergeSort, List.mem_filter, decide_eq_true_iff]

theorem length_sortedPlaces (s : DurableState) (batchId : String) :
    (sortedPlaces env s batchId).length = (memberPlaces s batchId).length := List.length_mergeSort _

/-- A comparison of keys is as consistent as the comparison it uses. -/
theorem transCmp_key {α β : Type} (key : α → β) (cmp : β → β → Ordering) [Std.TransCmp cmp] :
    Std.TransCmp fun a b => cmp (key a) (key b) where
  eq_swap := Std.OrientedCmp.eq_swap
  isLE_trans := Std.TransCmp.isLE_trans

theorem transCmp_placeCompare [Std.TransCmp env.localeCompare] :
    Std.TransCmp (placeCompare env) := by
  have hposition := transCmp_key (fun p : Place => p.position.getD maxSafeInteger) compare
  have hstarted := transCmp_key Place.startedAt env.localeCompare
  have hid := transCmp_key Place.id env.localeCompare
  exact inferInstanceAs (Std.TransCmp (compareLex
    (fun left right : Place =>
      compare (left.position.getD maxSafeInteger) (right.position.getD maxSafeInteger))
    (compareLex (fun left right => env.localeCompare left.startedAt right.startedAt)
      fun left right => env.localeCompare left.id right.id)))

theorem pairwise_sortedPlaces [Std.TransCmp env.localeCompare] (s : DurableState)
    (batchId : String) :
    (sortedPlaces env s batchId).Pairwise fun left right => placeCompare env left right ≠ .gt := by
  have hcmp : Std.TransCmp (placeCompare env) := transCmp_placeCompare
  have hle : ∀ o : Ordering, o.isLE = true ↔ o ≠ .gt := by decide
  have hsorted := @List.pairwise_mergeSort _
    (fun left right => decide (placeCompare env left right ≠ .gt)) ?_ ?_ (memberPlaces s batchId)
  · exact hsorted.imp of_decide_eq_true
  · intro a b c hab hbc
    rw [decide_eq_true_iff, ← hle] at hab hbc ⊢
    exact Std.TransCmp.isLE_trans hab hbc
  · intro a b
    rw [Bool.or_eq_true, decide_eq_true_iff, decide_eq_true_iff]
    by_contra! h
    have hswap := @Std.OrientedCmp.eq_swap _ (placeCompare env) _ a b
    rw [h.1, h.2] at hswap
    cases hswap

/-! ## One page -/

/-- The identities of workers on file lead back to the workers. -/
theorem filterMap_worker? {s : DurableState} (hs : (s.workers.map (·.id)).Nodup) {l : List Worker}
    (hl : ∀ w ∈ l, w ∈ s.workers) : (l.map (·.id)).filterMap s.worker? = l := by
  induction l with
  | nil => rfl
  | cons w l ih =>
    have hw : s.worker? w.id = some w := Keyed.lookup_of_mem hs (hl w List.mem_cons_self)
    rw [List.map_cons, List.filterMap_cons_some hw, ih fun v hv => hl v (List.mem_cons_of_mem w hv)]

/-- The cursor of a page leads to its first member. -/
def LeadsTo (batchId : String) (cursor : Option String) (offset : ℕ) : Prop :=
  offset ≤ maxSafeInteger ∧
    (cursor = none ∧ offset = 0 ∨ cursor = some (encodeCursor batchId offset))

/-- What a page holds. -/
theorem getBatch_page {disk : Disk} (hv : Valid env disk) (hl : Loads env disk) {batchId : String}
    (hb : hasBatch (contents disk) batchId) {limit : ℕ} (hlimit : 1 ≤ limit ∧ limit ≤ 250)
    {cursor : Option String} {offset : ℕ} (hcursor : LeadsTo batchId cursor offset) :
    ∃ page, getBatch env batchId none limit cursor disk = .ok page ∧
      page.sessions = ((workersForBatch env (contents disk) batchId).drop offset).take limit ∧
      page.nextCursor =
        if offset + limit < (workersForBatch env (contents disk) batchId).length then
          some (encodeCursor batchId (offset + limit))
        else none := by
  obtain ⟨b, hbmem, rfl⟩ := hb
  have hfound : Keyed.lookup (·.id) b.id (contents disk).batches = some b :=
    Keyed.lookup_of_mem hv.uniqueBatches hbmem
  have hlow : ¬ ((limit : ℚ).den ≠ 1 ∨ (limit : ℚ) < 1 ∨ (limit : ℚ) > 250) := by
    rintro (h | h | h)
    · exact h (Rat.den_natCast limit)
    · have hone : limit < 1 := by exact_mod_cast h
      omega
    · have hmany : limit > 250 := by exact_mod_cast h
      omega
  have hoffset : cursorOffset b.id cursor = .ok offset := by
    rcases hcursor with ⟨hsafe, ⟨rfl, rfl⟩ | rfl⟩
    · rfl
    · show decodeCursor (encodeCursor b.id offset) b.id = _
      rw [decodeCursor_encodeCursor hsafe, if_pos rfl]
  have hcount : (limit : ℚ).num.toNat = limit := by rw [Rat.num_natCast, Int.toNat_natCast]
  unfold getBatch
  rw [show load env disk = .ok (contents disk) from hl]
  unfold queryBatch
  dsimp only [Except.bind]
  rw [hfound]
  dsimp only
  rw [if_neg hlow, hoffset, hcount]
  refine ⟨_, rfl, ?_, ?_⟩
  · unfold memberIds
    dsimp only
    rw [← List.map_drop, ← List.map_take]
    refine filterMap_worker? hv.uniqueWorkers fun w hw => ?_
    exact (mem_workersForBatch.1 (List.mem_of_mem_drop (List.mem_of_mem_take hw))).1
  · dsimp only
    have hlength : (memberIds env (contents disk) b.id).length =
      (workersForBatch env (contents disk) b.id).length := List.length_map _
    rw [List.length_take, List.length_drop, hlength]
    by_cases hmore : offset + limit < (workersForBatch env (contents disk) b.id).length
    · have hfull : min limit ((workersForBatch env (contents disk) b.id).length - offset) = limit := by
        omega
      rw [hfull]
    · rw [if_neg hmore, if_neg]
      omega

/-! ## All pages -/

/-- The batch is on file with the given members, and every page of it can be asked for. -/
structure Paged (env : Env) (batchId : String) (places : List Place) (disk : Disk) : Prop where
  valid : Valid env disk
  loads : Loads env disk
  onFile : hasBatch (contents disk) batchId
  places : sortedPlaces env (contents disk) batchId = places

theorem Paged.run {batchId : String} {places : List Place} {disk : Disk}
    (h : Paged env batchId places disk) {calls : List (Call × WriteOutcome)}
    (hcalls : ∀ i ∈ calls, Placed env i.1) :
    Paged env batchId places (Runs.run (step env) disk calls) := by
  obtain ⟨hb, hplaces⟩ := memberPlaces_run hcalls h.onFile
  refine ⟨valid_run env h.valid calls, loads_run h.loads calls, hb, ?_⟩
  rw [← h.places]
  unfold sortedPlaces
  rw [hplaces]

/-- **Following the cursors ends**, with the members from the first page's offset on. -/
theorem follow_places {batchId : String} {places : List Place}
    (hfew : places.length ≤ maxSafeInteger) {limit : ℕ} (hlimit : 1 ≤ limit ∧ limit ≤ 250)
    {between : ℕ → List (Call × WriteOutcome)}
    (hbetween : ∀ n, ∀ i ∈ between n, Placed env i.1) {fuel n offset : ℕ} {cursor : Option String}
    {disk : Disk} (h : Paged env batchId places disk) (hcursor : LeadsTo batchId cursor offset)
    (hfuel : places.length < fuel + offset) (hpositive : 0 < fuel) :
    ∃ pages, follow env batchId limit between fuel n cursor disk = some pages ∧
      (pages.flatMap (·.sessions)).map Worker.place = places.drop offset := by
  induction fuel generalizing n offset cursor disk with
  | zero => omega
  | succ fuel ih =>
    obtain ⟨page, hpage, hsessions, hnext⟩ := getBatch_page h.valid h.loads h.onFile hlimit hcursor
    have hplaces := (map_place_workersForBatch _ _).trans h.places
    have hlength : (workersForBatch env (contents disk) batchId).length = places.length := by
      rw [← hplaces, List.length_map]
    have hshown : page.sessions.map Worker.place = (places.drop offset).take limit := by
      rw [hsessions, List.map_take, List.map_drop, hplaces]
    unfold follow
    rw [hpage]
    dsimp only
    rw [hnext, hlength]
    by_cases hmore : offset + limit < places.length
    · obtain ⟨pages, hpages, hrest⟩ := ih (h.run (hbetween n)) (n := n + 1)
        (show LeadsTo batchId (some (encodeCursor batchId (offset + limit))) (offset + limit) from
          ⟨by omega, Or.inr rfl⟩) (by omega) (by omega)
      rw [if_pos hmore]
      dsimp only
      rw [hpages]
      refine ⟨page :: pages, rfl, ?_⟩
      rw [List.flatMap_cons, List.map_append, hshown, hrest, ← List.drop_drop]
      exact List.take_append_drop limit (places.drop offset)
    · rw [if_neg hmore]
      refine ⟨[page], rfl, ?_⟩
      rw [List.flatMap_cons, List.flatMap_nil, List.append_nil, hshown]
      refine List.take_of_length_le ?_
      rw [List.length_drop]
      omega

end AgentOrchestrator.Store
