import AgentOrchestrator.Launch.BatchReplay
import AgentOrchestrator.Store.Pages

/-!
# Complete enumerations

The launch service places the workers it builds in the batch it builds, so the members of a batch
are fixed from the moment it is on file.  Following the cursors of a batch therefore enumerates its
sessions, whatever else the services ask the store to do between two pages.  The store itself takes
a worker for any batch, and then a session may be shown twice.
-/

namespace AgentOrchestrator.Launch

open Store

variable {env : AcceptEnv}

/-! ## Where accepted workers belong -/

theorem checkBatch_count {request : AsynchronousBatchLaunchRequest} {u : Unit}
    (h : checkBatch env request = .ok u) : request.assignments.length ≤ 100 := by
  unfold checkBatch at h
  by_cases hcount : request.assignments.length = 0 ∨ request.assignments.length > 100
  · rw [if_pos hcount] at h
    cases h
  · omega

theorem acceptBatch_count {request : AsynchronousBatchLaunchRequest} {answers : ℕ → Authorization}
    {acceptedAt : Timestamp} {inputs : List LaunchInput} {batch : Batch}
    (h : acceptBatch env request answers acceptedAt = .ok (inputs, batch)) :
    inputs.length ≤ 100 := by
  obtain ⟨launches, hbuilt⟩ := acceptBatch_ok h
  obtain ⟨_, hcheck, -⟩ := bind_eq_ok h
  have hlength := hbuilt.sanitized.length_eq
  rw [hbuilt.inputs_eq, List.length_map, List.length_zipIdx, ← hlength]
  exact checkBatch_count (mapError_eq_ok hcheck)

/-- The launch service places workers in the batch it opens. -/
theorem Accepts.placed {c : Call} (h : Accepts env c) : Placed env.toEnv c := by
  cases c with
  | acceptLaunch input batch uuid =>
    obtain ⟨request, answer, acceptedAt, h⟩ := h
    obtain ⟨launch, -, -, rfl, rfl⟩ := accept_ok h
    refine ⟨?_, Nat.le_of_ble_eq_true rfl⟩
    intro w hw
    obtain rfl := List.mem_singleton.1 hw
    rfl
  | acceptLaunchBatch inputs batch uuids =>
    obtain ⟨request, answers, acceptedAt, h⟩ := h
    have hcount := acceptBatch_count h
    obtain ⟨launches, hbuilt⟩ := acceptBatch_ok h
    constructor
    · intro w hw
      dsimp only [Call.added, Call.offered] at hw
      rw [List.map_map] at hw
      obtain ⟨input, hinput, rfl⟩ := List.mem_map.1 hw
      rw [hbuilt.inputs_eq] at hinput
      obtain ⟨launch, -, rfl⟩ := List.mem_map.1 hinput
      rfl
    · unfold Call.offered
      rw [List.length_map]
      omega
  | createBatch name clientId assignments key now uuid =>
    refine ⟨?_, Nat.zero_le _⟩
    intro w hw
    rw [batchId_added hw]
    rfl
  | _ => exact ⟨fun _ hw => (nomatch hw), Nat.zero_le _⟩

/-! ## Enumerations -/

/-- The workers of a batch are those at its places. -/
theorem exists_member_iff {s : DurableState} {batchId id : String} :
    (∃ w ∈ s.workers, w.batchId = batchId ∧ w.id = id) ↔
      id ∈ (memberPlaces s batchId).map Place.id := by
  unfold memberPlaces membersOf
  rw [List.map_map, List.mem_map]
  constructor
  · rintro ⟨w, hw, hbatch, rfl⟩
    exact ⟨w, List.mem_filter.2 ⟨hw, decide_eq_true hbatch⟩, rfl⟩
  · rintro ⟨w, hw, rfl⟩
    obtain ⟨hw, hbatch⟩ := List.mem_filter.1 hw
    exact ⟨w, hw, of_decide_eq_true hbatch, rfl⟩

theorem nodup_memberPlaces {s : DurableState} (hs : (s.workers.map (·.id)).Nodup)
    (batchId : String) : ((memberPlaces s batchId).map Place.id).Nodup := by
  unfold memberPlaces membersOf
  rw [List.map_map]
  exact hs.sublist (List.filter_sublist.map _)

/-- **Following the cursors enumerates a batch.** After every run and for every limit, with any
calls between two pages whose launches are built by the launch service, the pages end and their
sessions are those of the batch, each once and in order; a cursor is read back for its own batch
only. -/
theorem follow_enumerates [Std.TransCmp env.localeCompare] {calls : List (Call × WriteOutcome)}
    (hcalls : ∀ i ∈ calls, Accepts env i.1) {disk : Disk}
    (hdisk : disk = Runs.run (Store.step env.toEnv) none calls) {batchId : String}
    (hbatch : hasBatch (contents disk) batchId) {limit : ℕ} (hlimit : 1 ≤ limit ∧ limit ≤ 250)
    {between : ℕ → List (Call × WriteOutcome)}
    (hbetween : ∀ n, ∀ i ∈ between n, Accepts env i.1) :
    (∃ fuel pages, follow env.toEnv batchId limit between fuel 0 none disk = some pages ∧
      ((pages.flatMap (·.sessions)).map (·.id)).Nodup ∧
      (pages.flatMap (·.sessions)).Pairwise
        (fun left right => memberCompare env.toEnv left right ≠ .gt) ∧
      ∀ later : List (Call × WriteOutcome), (∀ i ∈ later, Accepts env i.1) → ∀ id,
        id ∈ (pages.flatMap (·.sessions)).map (·.id) ↔
          ∃ w ∈ (contents (Runs.run (Store.step env.toEnv) disk later)).workers,
            w.batchId = batchId ∧ w.id = id) ∧
    (∀ offset ≤ maxSafeInteger,
      decodeCursor (encodeCursor batchId offset) batchId = .ok offset) ∧
    ∀ offset other, other ≠ batchId →
      decodeCursor (encodeCursor other offset) batchId = .error invalidCursor := by
  have hplaced : ∀ i ∈ calls, Placed env.toEnv i.1 := fun i hi => (hcalls i hi).placed
  have hpaged : Paged env.toEnv batchId (sortedPlaces env.toEnv (contents disk) batchId) disk := by
    subst hdisk
    exact ⟨valid_run _ (valid_none _) calls, @loads_run env.toEnv none rfl calls, hbatch, rfl⟩
  have hhoused : Housed (contents disk) := by
    subst hdisk
    exact housed_run housed_empty hplaced
  have hfew : (sortedPlaces env.toEnv (contents disk) batchId).length ≤ 250 := by
    rw [length_sortedPlaces]
    exact hhoused.few batchId
  refine ⟨?_, ?_, ?_⟩
  · obtain ⟨pages, hpages, hplaces⟩ : ∃ pages,
        follow env.toEnv batchId limit between 251 0 none disk = some pages ∧
          (pages.flatMap (·.sessions)).map Worker.place =
            (sortedPlaces env.toEnv (contents disk) batchId).drop 0 :=
      follow_places (hfew.trans (by decide)) hlimit (fun n i hi => (hbetween n i hi).placed) hpaged
        ⟨Nat.zero_le _, Or.inl ⟨rfl, rfl⟩⟩ (by omega) (by omega)
    rw [List.drop_zero] at hplaces
    have hids : (pages.flatMap (·.sessions)).map (·.id) =
        (sortedPlaces env.toEnv (contents disk) batchId).map Place.id := by
      rw [← hplaces, List.map_map]
      rfl
    have hperm := (List.mergeSort_perm (memberPlaces (contents disk) batchId)
      (fun left right => placeCompare env.toEnv left right ≠ .gt)).map Place.id
    refine ⟨251, pages, hpages, ?_, ?_, ?_⟩
    · rw [hids]
      exact hperm.nodup_iff.2 (nodup_memberPlaces hpaged.valid.uniqueWorkers batchId)
    · have hsorted := @pairwise_sortedPlaces env.toEnv _ (contents disk) batchId
      rw [← hplaces] at hsorted
      exact List.pairwise_map.1 hsorted
    · intro later hlater id
      have hfixed := (memberPlaces_run (fun i hi => (hlater i hi).placed) hbatch).2
      rw [hids, exists_member_iff, hfixed]
      exact hperm.mem_iff
  · intro offset hoffset
    rw [decodeCursor_encodeCursor hoffset, if_pos rfl]
  · intro offset other hother
    exact decodeCursor_foreign offset hother

/-! ## A batch of three sessions -/

/-- The sample environment with texts compared by their characters. -/
def pagingEnv : AcceptEnv := { sampleEnv with localeCompare := compare }

def pagingIds (n : ℕ) : String := if n = 0 then "s1" else if n = 1 then "b1" else s!"w{n - 1}"

def threeSessions : Call × WriteOutcome :=
  written (.createBatch "n" "c1" [sampleAttribution, sampleAttribution, sampleAttribution] none
    "2026-01-01T00:00:00.000Z" pagingIds)

/-- Two pages, with another batch created between them, show the three sessions. -/
theorem follow_enumerates_sample : ∃ fuel pages,
    follow pagingEnv.toEnv "b1" (2 : ℕ) (fun _ => [keyedBatch "c2" "k2" secondIds]) fuel 0 none
      (Runs.run (Store.step pagingEnv.toEnv) none [threeSessions]) = some pages ∧
      ∀ id, id ∈ (pages.flatMap (·.sessions)).map (·.id) ↔ id = "w1" ∨ id = "w2" ∨ id = "w3" := by
  have hworkers : (contents (Runs.run (Store.step pagingEnv.toEnv) none
      [threeSessions])).workers.map (fun w => (w.batchId, w.id)) =
        [("b1", "w1"), ("b1", "w2"), ("b1", "w3")] := by
    decide +kernel
  have hbatch : hasBatch (contents (Runs.run (Store.step pagingEnv.toEnv) none [threeSessions]))
      "b1" := by
    decide +kernel
  have hcmp : Std.TransCmp pagingEnv.localeCompare := inferInstanceAs (Std.TransCmp compare)
  have hcalls : ∀ i ∈ [threeSessions], Accepts pagingEnv i.1 := by
    intro i hi
    obtain rfl := List.mem_singleton.1 hi
    trivial
  have hbetween : ∀ n : ℕ, ∀ i ∈ (fun _ => [keyedBatch "c2" "k2" secondIds]) n,
      Accepts pagingEnv i.1 := by
    intro n i hi
    obtain rfl := List.mem_singleton.1 hi
    trivial
  obtain ⟨⟨fuel, pages, hpages, -, -, hmembers⟩, -⟩ :=
    follow_enumerates hcalls rfl hbatch (show 1 ≤ 2 ∧ 2 ≤ 250 by decide) hbetween
  refine ⟨fuel, pages, hpages, fun id => ?_⟩
  have hpair : (∃ w ∈ (contents (Runs.run (Store.step pagingEnv.toEnv) none
      [threeSessions])).workers, w.batchId = "b1" ∧ w.id = id) ↔
        ("b1", id) ∈ [("b1", "w1"), ("b1", "w2"), ("b1", "w3")] := by
    rw [← hworkers, List.mem_map]
    simp only [Prod.mk.injEq]
  rw [hmembers [] (fun i hi => nomatch hi) id]
  exact hpair.trans (by simp)

/-! ## A launch into a batch on file -/

/-- Members in order are the sorted ones. -/
theorem sortedPlaces_eq {env : Env} [Std.TransCmp env.localeCompare] {s : DurableState}
    {batchId : String} {places : List Place} (hperm : places.Perm (memberPlaces s batchId))
    (hsorted : places.Pairwise fun left right => placeCompare env left right ≠ .gt)
    (hstrict : ∀ left ∈ places, ∀ right ∈ places, placeCompare env left right ≠ .gt →
      placeCompare env right left ≠ .gt → left = right) :
    sortedPlaces env s batchId = places := by
  have hmembers : (sortedPlaces env s batchId).Perm places :=
    (List.mergeSort_perm _ _).trans hperm.symm
  refine hmembers.eq_of_pairwise ?_ (pairwise_sortedPlaces s batchId) hsorted
  intro left right hleft hright hle hge
  exact hstrict left (hmembers.subset hleft) right hright hle hge

/-- Two pages, of the members before and after the calls between them. -/
theorem follow_two {env : Env} {batchId : String} {limit : ℕ} (hlimit : 1 ≤ limit ∧ limit ≤ 250)
    {between : ℕ → List (Call × WriteOutcome)} {disk : Disk} {places places' : List Place}
    (h : Paged env batchId places disk)
    (h' : Paged env batchId places' (Runs.run (Store.step env) disk (between 0)))
    (hmore : limit < places.length) (hlast : places'.length ≤ limit + limit) {fuel : ℕ}
    {pages : List BatchPage}
    (hpages : follow env batchId limit between fuel 0 none disk = some pages) :
    (pages.flatMap (·.sessions)).map Worker.place = places.take limit ++ places'.drop limit := by
  have hsafe : limit ≤ maxSafeInteger := hlimit.2.trans (by decide)
  obtain ⟨first, hfirst, hsessions, hnext⟩ := getBatch_page h.valid h.loads h.onFile hlimit
    (⟨Nat.zero_le _, Or.inl ⟨rfl, rfl⟩⟩ : LeadsTo batchId none 0)
  obtain ⟨second, hsecond, hsessions', hnext'⟩ := getBatch_page h'.valid h'.loads h'.onFile hlimit
    (⟨hsafe, Or.inr rfl⟩ : LeadsTo batchId (some (encodeCursor batchId limit)) limit)
  have hplaces := (map_place_workersForBatch _ _).trans h.places
  have hplaces' := (map_place_workersForBatch _ _).trans h'.places
  have hlength : (workersForBatch env (contents disk) batchId).length = places.length := by
    rw [← hplaces, List.length_map]
  have hlength' : (workersForBatch env (contents (Runs.run (Store.step env) disk (between 0)))
      batchId).length = places'.length := by
    rw [← hplaces', List.length_map]
  rw [hlength, Nat.zero_add, if_pos hmore] at hnext
  rw [hlength', if_neg (by omega)] at hnext'
  have hboth : pages = [first, second] := by
    cases fuel with
    | zero => cases hpages
    | succ fuel =>
      rw [follow, hfirst] at hpages
      dsimp only at hpages
      rw [hnext] at hpages
      cases fuel with
      | zero => cases hpages
      | succ fuel =>
        dsimp only at hpages
        rw [follow, hsecond] at hpages
        dsimp only at hpages
        rw [hnext'] at hpages
        exact (Option.some.inj hpages).symm
  rw [hboth, List.flatMap_cons, List.flatMap_cons, List.flatMap_nil, List.append_nil,
    List.map_append, hsessions, hsessions', List.map_take, List.map_take, List.map_drop,
    List.map_drop, hplaces, hplaces', List.drop_zero]
  have hrest : (places'.drop limit).length ≤ limit := by
    rw [List.length_drop]
    omega
  rw [List.take_of_length_le hrest]

/-- A launch that places its worker first in a batch that is on file. -/
def intruding : Call × WriteOutcome :=
  written (.acceptLaunch
    { assignment := { sampleAssignment with
        id := "a9", batchId := "b9", sessionId := "s9", acceptedAt := "2026-01-01T00:00:00.000Z",
        updatedAt := "2026-01-01T00:00:00.000Z" }
      session := { id := "s9", clientId := "c1", createdAt := "2026-01-01T00:00:00.000Z",
                   lastSeenAt := "2026-01-01T00:00:00.000Z" }
      worker := { id := "w0", batchId := "b1", sessionId := "s9", status := .requested,
                  attribution := sampleAttribution, startedAt := "2025-01-01T00:00:00.000Z",
                  position := some 0 }
      event := { id := "e9", assignmentId := "a9", type := .launchAccepted,
                 occurredAt := "2026-01-01T00:00:00.000Z" }
      securityAudit := { sampleInput.securityAudit with assignmentId := some "a9" } }
    { sampleBatch with id := "b9", sessionId := "s9", createdAt := "2026-01-01T00:00:00.000Z",
                       updatedAt := "2026-01-01T00:00:00.000Z" } "u9")

def threePlaces : List Place :=
  [⟨"w1", "b1", some 0, "2026-01-01T00:00:00.000Z"⟩, ⟨"w2", "b1", some 1, "2026-01-01T00:00:00.000Z"⟩,
    ⟨"w3", "b1", some 2, "2026-01-01T00:00:00.000Z"⟩]

/-- **An enumeration that shows a session twice**: a launch placed first in the batch between two
pages moves the others up. -/
theorem intruding_launch_repeats : ¬ ∃ fuel pages,
    follow pagingEnv.toEnv "b1" (2 : ℕ) (fun _ => [intruding]) fuel 0 none
      (Runs.run (Store.step pagingEnv.toEnv) none [threeSessions]) = some pages ∧
      ((pages.flatMap (·.sessions)).map (·.id)).Nodup := by
  rintro ⟨fuel, pages, hpages, hnodup⟩
  have hcmp : Std.TransCmp pagingEnv.localeCompare := inferInstanceAs (Std.TransCmp compare)
  have hpaged : ∀ (calls : List (Call × WriteOutcome)) (places : List Place),
      hasBatch (contents (Runs.run (Store.step pagingEnv.toEnv) none calls)) "b1" →
      places.Perm (memberPlaces (contents (Runs.run (Store.step pagingEnv.toEnv) none calls)) "b1") →
      places.Pairwise (fun left right => placeCompare pagingEnv.toEnv left right ≠ .gt) →
      (∀ left ∈ places, ∀ right ∈ places, placeCompare pagingEnv.toEnv left right ≠ .gt →
        placeCompare pagingEnv.toEnv right left ≠ .gt → left = right) →
      Paged pagingEnv.toEnv "b1" places (Runs.run (Store.step pagingEnv.toEnv) none calls) :=
    fun calls places hbatch hperm hsorted hstrict =>
      ⟨valid_run _ (valid_none _) calls, @loads_run pagingEnv.toEnv none rfl calls, hbatch,
        sortedPlaces_eq hperm hsorted hstrict⟩
  have hfirst := hpaged [threeSessions] threePlaces (by decide +kernel) (by decide +kernel)
    (by decide +kernel) (by decide +kernel)
  have hsecond := hpaged [threeSessions, intruding]
    (⟨"w0", "b1", some 0, "2025-01-01T00:00:00.000Z"⟩ :: threePlaces) (by decide +kernel)
    (by decide +kernel) (by decide +kernel) (by decide +kernel)
  have hplaces := follow_two (by decide) hfirst hsecond (by decide) (by decide) hpages
  have hids := congrArg (List.map Place.id) hplaces
  rw [List.map_map] at hids
  rw [show (pages.flatMap (·.sessions)).map (·.id) = _ from hids] at hnodup
  revert hnodup
  decide

end AgentOrchestrator.Launch
