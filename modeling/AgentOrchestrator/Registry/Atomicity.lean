import AgentOrchestrator.Registry.Store
import Mathlib.Data.List.Nodup

/-!
# Atomicity of `add`

A line that is appended as a whole adds its record to what is read.  A line that is appended in
part makes the registry unreadable, and one that is appended as a whole by a call that fails
afterwards adds a record no call has returned.  So the registry stays what the calls have returned
exactly in the runs in which no append fails after its first write.
-/

namespace AgentOrchestrator.Registry

open Runs

variable {rt : Runtime}

/-! ## Appending a line -/

/-- The lines of a text that are not empty. -/
def linesOf (contents : List Char) : List (List Char) :=
  (contents.splitOn '\n').filter (· ≠ [])

theorem linesOf_append {contents text : List Char}
    (hcontents : contents = [] ∨ contents.getLast? = some '\n') (htext : '\n' ∉ text)
    (hsome : text ≠ []) :
    linesOf (contents ++ (text ++ ['\n'])) = linesOf contents ++ [text] := by
  have hline : (text ++ ['\n']).splitOn '\n' = [text, []] := by
    rw [List.splitOn_eq_splitOnP, List.splitOnP_append_cons_of_forall_mem]
    · rfl
    · intro c hc
      rw [beq_eq_false_iff_ne]
      rintro rfl
      exact htext hc
    · rfl
  rcases hcontents with rfl | hnewline
  · rw [List.nil_append]
    unfold linesOf
    rw [hline]
    simp [hsome]
  · obtain ⟨init, rfl⟩ := List.getLast?_eq_some_iff.mp hnewline
    have hsplit : ∀ more : List Char, (init ++ '\n' :: more).splitOn '\n' =
        init.splitOn '\n' ++ more.splitOn '\n' := by
      intro more
      rw [List.splitOn_eq_splitOnP, List.splitOn_eq_splitOnP, List.splitOn_eq_splitOnP]
      exact List.splitOnP_append_cons init more rfl
    unfold linesOf
    rw [List.append_assoc, List.singleton_append, hsplit, hsplit, hline, List.filter_append,
      List.filter_append]
    simp [hsome]

theorem parseLines_append {index : ℕ} {lines : List (List Char)} {line : List Char}
    {records : List (ExperimentRecord rt.formats)} {record : ExperimentRecord rt.formats}
    (h : parseLines rt index lines = .ok records)
    (hline : (Json.parse line).bind (parseRecord rt) = some record) :
    parseLines rt index (lines ++ [line]) = .ok (records ++ [record]) := by
  induction lines generalizing index records with
  | nil =>
    obtain rfl := Except.ok.inj h
    simp [parseLines, hline, Except.map]
  | cons first lines ih =>
    rw [List.cons_append]
    unfold parseLines at h ⊢
    split at h
    next => cases h
    next found hfound =>
      cases hrest : parseLines rt (index + 1) lines with
      | error failure =>
        rw [hrest] at h
        cases h
      | ok rest =>
        rw [hrest] at h
        obtain rfl := Except.ok.inj h
        rw [ih hrest]
        rfl

theorem checkIds_iff {ids : List (Option Json)} {records : List (ExperimentRecord rt.formats)} :
    checkIds rt ids records = .ok () ↔
      (records.map (·.experimentId)).Nodup ∧ ∀ record ∈ records, record.experimentId ∉ ids := by
  induction records generalizing ids with
  | nil => simp [checkIds]
  | cons record records ih =>
    unfold checkIds
    split
    next hmem =>
      constructor
      · intro h
        cases h
      · intro h
        exact absurd hmem (h.2 record List.mem_cons_self)
    next hnew =>
      rw [ih, List.map_cons, List.nodup_cons]
      simp only [List.mem_cons, not_or, List.mem_map, not_exists, not_and]
      constructor
      · rintro ⟨hnodup, hall⟩
        refine ⟨⟨fun other hother => (hall other hother).1, hnodup⟩, ?_⟩
        rintro other (rfl | hother)
        · exact hnew
        · exact (hall other hother).2
      · rintro ⟨⟨hfresh, hnodup⟩, hall⟩
        exact ⟨hnodup, fun other hother => ⟨hfresh other hother, hall other (.inr hother)⟩⟩

theorem decode_eq_nil {bytes : List ℕ} (h : Utf8.decode bytes = []) : bytes = [] := by
  by_contra hsome
  obtain ⟨init, b, rfl⟩ := (List.eq_nil_or_concat' bytes).resolve_left hsome
  exact Utf8.decode_concat_ne_nil init b h

/-- What a registry that can be read looks like. -/
theorem readUnlocked_ok {bytes : List ℕ} {records : List (ExperimentRecord rt.formats)} :
    readUnlocked rt (some bytes) = .ok records ↔
      (bytes = [] ∨ (Utf8.decode bytes).getLast? = some '\n') ∧
      parseLines rt 0 (linesOf (Utf8.decode bytes)) = .ok records ∧
      (records.map (·.experimentId)).Nodup := by
  unfold readUnlocked
  dsimp only
  split
  next htruncated =>
    constructor
    · intro h
      cases h
    · rintro ⟨rfl | hnewline, _⟩
      · exact absurd htruncated.1 (Nat.lt_irrefl 0)
      · exact absurd hnewline htruncated.2
  next hcomplete =>
    have hend : bytes = [] ∨ (Utf8.decode bytes).getLast? = some '\n' := by
      by_cases hnewline : (Utf8.decode bytes).getLast? = some '\n'
      · exact .inr hnewline
      · left
        refine decode_eq_nil (List.length_eq_zero_iff.mp (Nat.eq_zero_of_not_pos fun hpos => ?_))
        exact hcomplete ⟨hpos, hnewline⟩
    constructor
    · intro h
      obtain ⟨parsed, hparsed, hrest⟩ := bind_eq_ok h
      obtain ⟨_, hids, hrecords⟩ := bind_eq_ok hrest
      obtain rfl := Except.ok.inj hrecords
      exact ⟨hend, hparsed, (checkIds_iff.mp hids).1⟩
    · rintro ⟨_, hparsed, hnodup⟩
      have hids : checkIds rt [] records = .ok () := checkIds_iff.mpr ⟨hnodup, by simp⟩
      show (parseLines rt 0 (linesOf (Utf8.decode bytes)) >>= fun records =>
        checkIds rt [] records >>= fun _ => pure records) = _
      rw [hparsed]
      show (checkIds rt [] records >>= fun _ => pure records) = _
      rw [hids]
      rfl

theorem parseRecord_valid (record : ExperimentRecord rt.formats) :
    parseRecord rt record.json = some record := by
  unfold parseRecord
  split
  next h =>
    rw [record.valid] at h
    cases h
  next json h =>
    rw [record.valid] at h
    obtain rfl := Option.some.inj h
    rfl

/-- **A whole line adds its record.** -/
theorem readUnlocked_append {file : Option (List ℕ)} {records : List (ExperimentRecord rt.formats)}
    {record : ExperimentRecord rt.formats} (h : readUnlocked rt file = .ok records)
    (hreadable : Json.Readable rt.text record.json)
    (hfresh : record.experimentId ∉ records.map (·.experimentId)) :
    readUnlocked rt (some (file.getD [] ++ serialized rt record)) = .ok (records ++ [record]) := by
  have hparse : (Json.parse (Json.print rt.text record.json)).bind (parseRecord rt) =
      some record := by
    rw [Json.parse_print hreadable, Option.bind_some, parseRecord_valid]
  have hsome : Json.print rt.text record.json ≠ [] := by
    have hpos := @Json.print_length_pos rt.text record.json
    exact List.length_pos_iff.mp hpos
  have hline : Utf8.decode (serialized rt record) = Json.print rt.text record.json ++ ['\n'] :=
    Utf8.decode_encode _
  have hfile : readUnlocked rt (some (file.getD [])) = .ok records := by
    cases file with
    | none =>
      obtain rfl := Except.ok.inj h
      rfl
    | some bytes => exact h
  generalize file.getD [] = base at hfile ⊢
  obtain ⟨hend, hparsed, hnodup⟩ := readUnlocked_ok.mp hfile
  have hdecode : Utf8.decode (base ++ serialized rt record) =
      Utf8.decode base ++ (Json.print rt.text record.json ++ ['\n']) := by
    rw [Utf8.decode_append hend, hline]
  have hcontents : Utf8.decode base = [] ∨ (Utf8.decode base).getLast? = some '\n' := by
    rcases hend with rfl | hnewline
    · exact .inl rfl
    · exact .inr hnewline
  refine readUnlocked_ok.mpr ⟨.inr ?_, ?_, ?_⟩
  · rw [hdecode, ← List.append_assoc, List.getLast?_concat]
  · rw [hdecode, linesOf_append hcontents (Json.newline_notMem_print record.json) hsome]
    exact parseLines_append hparsed hparse
  · rw [List.map_append, List.map_singleton, List.nodup_append]
    refine ⟨hnodup, List.nodup_singleton _, ?_⟩
    intro id hid other hother
    rw [List.mem_singleton.mp hother]
    rintro rfl
    exact hfresh hid

theorem mem_assign {name : String} {value : Json} {fields : List (String × Json)}
    {field : String × Json} (h : field ∈ Json.assign name value fields) :
    field = (name, value) ∨ field ∈ fields := by
  induction fields with
  | nil => exact .inl (List.mem_singleton.mp h)
  | cons first fields ih =>
    obtain ⟨key, old⟩ := first
    rw [Json.assign] at h
    split at h
    next hkey =>
      rcases List.mem_cons.mp h with hnew | hold
      · exact .inl (hnew.trans (by rw [hkey]))
      · exact .inr (List.mem_cons_of_mem _ hold)
    next =>
      rcases List.mem_cons.mp h with hfirst | hlater
      · exact .inr (hfirst ▸ List.mem_cons_self)
      · exact (ih hlater).imp_right (List.mem_cons_of_mem _)

theorem map_fst_assign (name : String) (value : Json) (fields : List (String × Json)) :
    (Json.assign name value fields).map Prod.fst =
      if name ∈ fields.map Prod.fst then fields.map Prod.fst
      else fields.map Prod.fst ++ [name] := by
  induction fields with
  | nil => rfl
  | cons first fields ih =>
    obtain ⟨key, old⟩ := first
    rw [Json.assign]
    by_cases hkey : key = name
    · simp [hkey]
    · rw [if_neg hkey, List.map_cons, ih, List.map_cons]
      by_cases hmem : name ∈ fields.map Prod.fst
      · rw [if_pos hmem, if_pos (List.mem_cons_of_mem _ hmem)]
      · rw [if_neg hmem, if_neg, List.cons_append]
        rw [List.mem_cons, not_or]
        exact ⟨fun h => hkey h.symm, hmem⟩

theorem readable_assign {format : Json.NumberFormat} {name : String} {value : Json}
    {fields : List (String × Json)} (hfields : Json.Readable format (.obj fields))
    (hvalue : Json.Readable format value) :
    Json.Readable format (.obj (Json.assign name value fields)) := by
  rw [Json.Readable, Json.readableFields_iff] at hfields ⊢
  constructor
  · intro field hfield
    rcases mem_assign hfield with rfl | hold
    · exact hvalue
    · exact hfields.1 field hold
  · rw [map_fst_assign]
    split
    next => exact hfields.2
    next hnew =>
      rw [List.nodup_append]
      refine ⟨hfields.2, List.nodup_singleton _, ?_⟩
      intro key hkey other hother
      rw [List.mem_singleton.mp hother]
      rintro rfl
      exact hnew hkey

theorem readable_given {format : Json.NumberFormat} {name text : String}
    {fields : List (String × Json)} (hfields : Json.Readable format (.obj fields)) :
    Json.Readable format (given name fields text) := by
  unfold given
  split
  next => trivial
  next field hfield =>
    split
    next => trivial
    next =>
      rw [Json.Readable, Json.readableFields_iff] at hfields
      exact hfields.1 field (Keyed.mem_of_lookup hfield)

theorem readable_completed (input : Input rt) : Json.Readable rt.text (completed input) := by
  refine readable_assign (readable_assign (readable_assign input.readable ?_) ?_) ?_
  · exact @Json.NumberFormat.reads_natural rt.text 1 (by decide)
  · exact readable_given input.readable
  · exact readable_given input.readable

theorem readable_parseRecord {value : Json} {record : ExperimentRecord rt.formats}
    (h : parseRecord rt value = some record) (hvalue : Json.Readable rt.text value) :
    Json.Readable rt.text record.json := by
  unfold parseRecord at h
  split at h
  next => cases h
  next json hjson =>
    obtain rfl := Option.some.inj h
    exact (lawful_experimentRecordSchema rt.formats).readable rt.text value json hvalue hjson

/-- A record that `add` appends is a value of the language, new, and of the lineage of its
checkpoint. -/
theorem checkAdd_ok {records : List (ExperimentRecord rt.formats)} {catalog : Option (List ℕ)}
    {input : Input rt} {record : ExperimentRecord rt.formats}
    (h : checkAdd rt records catalog input = .ok record) :
    Json.Readable rt.text record.json ∧ record.experimentId ∉ records.map (·.experimentId) ∧
      ∀ existing ∈ records, existing.checkpointSha = record.checkpointSha →
        existing.lineage = record.lineage := by
  unfold checkAdd at h
  obtain ⟨parsed, hparsed, hrest⟩ := bind_eq_ok h
  obtain ⟨baselines, _, hrest⟩ := bind_eq_ok hrest
  obtain ⟨_, _, hrest⟩ := bind_eq_ok hrest
  split at hrest
  next => cases hrest
  next =>
    split at hrest
    next => cases hrest
    next hfresh =>
      split at hrest
      next => cases hrest
      next hlineage =>
        split at hrest
        next => cases hrest
        next =>
          obtain rfl := Except.ok.inj hrest
          refine ⟨?_, hfresh, ?_⟩
          · split at hparsed
            next => cases hparsed
            next record' hrecord =>
              obtain rfl := Except.ok.inj hparsed
              exact readable_parseRecord hrecord (readable_completed input)
          · intro existing hmem hsha
            by_contra hother
            have hnone := List.find?_eq_none.mp hlineage existing hmem
            simp [sameCheckpoint, hsha, hother] at hnone

/-! ## The runs -/

/-- Ids are unique, and a checkpoint belongs to one lineage. -/
structure Consistent (records : List (ExperimentRecord rt.formats)) : Prop where
  unique : (records.map (·.experimentId)).Nodup
  lineage : ∀ left ∈ records, ∀ right ∈ records, left.checkpointSha = right.checkpointSha →
    left.lineage = right.lineage

/-- The record of an `add` that has returned. -/
def Outcome.record : Outcome rt → Option (ExperimentRecord rt.formats)
  | .added record => some record
  | _ => none

/-- The records of the calls that have returned one, in order. -/
def State.added (s : State rt) : List (ExperimentRecord rt.formats) :=
  s.outcomes.filterMap Outcome.record

/-- The registry holds the records it held at first and those that `add` has returned, and it is
consistent.  A call that holds the lock is not over yet. -/
structure Kept (records : List (ExperimentRecord rt.formats)) (s : State rt) : Prop where
  consistent : Consistent (records ++ s.added)
  readable : s.active = none → readUnlocked rt s.file = .ok (records ++ s.added)

/-- No append fails after its first write. -/
def Whole (s : State rt) : Step rt → Prop
  | .fail => ∀ call record line rest,
      s.active = some (call, .appending record line rest) → rest = line
  | _ => True

/-- What a call that is appending has done. -/
structure Appending (records : List (ExperimentRecord rt.formats)) (file : Option (List ℕ))
    (record : ExperimentRecord rt.formats) (line rest : List ℕ) : Prop where
  whole : line = serialized rt record
  partly : ∃ base written, readUnlocked rt base = .ok records ∧ written ++ rest = line ∧
    file.getD [] = base.getD [] ++ written
  readable : Json.Readable rt.text record.json
  fresh : record.experimentId ∉ records.map (·.experimentId)
  lineage : ∀ existing ∈ records, existing.checkpointSha = record.checkpointSha →
    existing.lineage = record.lineage

/-- No call is appending. -/
def NotAppending (s : State rt) : Prop :=
  ∀ call record line rest, s.active ≠ some (call, .appending record line rest)

/-- **The invariant**: the file can be read, or a call is appending to what could be read. -/
structure Inv (records : List (ExperimentRecord rt.formats)) (s : State rt) : Prop where
  consistent : Consistent (records ++ s.added)
  readable : NotAppending s → readUnlocked rt s.file = .ok (records ++ s.added)
  appending : ∀ call record line rest, s.active = some (call, .appending record line rest) →
    Appending (records ++ s.added) s.file record line rest

theorem Inv.kept {records : List (ExperimentRecord rt.formats)} {s : State rt}
    (h : Inv records s) : Kept records s :=
  ⟨h.consistent, fun hidle => h.readable fun _ _ _ _ hactive => by rw [hidle] at hactive; cases hactive⟩

theorem Consistent.nil : Consistent ([] : List (ExperimentRecord rt.formats)) where
  unique := List.nodup_nil
  lineage := by simp

theorem Consistent.append {records : List (ExperimentRecord rt.formats)}
    {record : ExperimentRecord rt.formats} (h : Consistent records)
    (hfresh : record.experimentId ∉ records.map (·.experimentId))
    (hlineage : ∀ existing ∈ records, existing.checkpointSha = record.checkpointSha →
      existing.lineage = record.lineage) : Consistent (records ++ [record]) where
  unique := by
    rw [List.map_append, List.map_singleton, List.nodup_append]
    refine ⟨h.unique, List.nodup_singleton _, ?_⟩
    intro id hid other hother
    rw [List.mem_singleton.mp hother]
    rintro rfl
    exact hfresh hid
  lineage := by
    intro left hleft right hright hsha
    rcases List.mem_append.mp hleft with hleft | hleft <;>
      rcases List.mem_append.mp hright with hright | hright
    · exact h.lineage left hleft right hright hsha
    · rw [List.mem_singleton.mp hright] at hsha ⊢
      exact hlineage left hleft hsha
    · rw [List.mem_singleton.mp hleft] at hsha ⊢
      exact (hlineage right hright hsha.symm).symm
    · rw [List.mem_singleton.mp hleft, List.mem_singleton.mp hright]

theorem readUnlocked_touch (file : Option (List ℕ)) :
    readUnlocked rt (some (file.getD [])) = readUnlocked rt file := by
  cases file with
  | none => rfl
  | some bytes => rfl

section Steps

variable {records : List (ExperimentRecord rt.formats)} {s : State rt}

theorem not_appending {call : Call rt} {phase : Phase rt} (hactive : s.active = some (call, phase))
    (hphase : ∀ record line rest, phase ≠ .appending record line rest) : NotAppending s := by
  intro call' record line rest happending
  rw [hactive] at happending
  cases happending
  exact hphase record line rest rfl

/-- Nothing is appended and nothing has been returned by an `add`. -/
theorem Inv.of_same (h : Inv records s) {s' : State rt} (hbefore : NotAppending s)
    (hafter : NotAppending s')
    (hfile : readUnlocked rt s'.file = readUnlocked rt s.file) (hadded : s'.added = s.added) :
    Inv records s' where
  consistent := by rw [hadded]; exact h.consistent
  readable := fun _ => by rw [hfile, hadded]; exact h.readable hbefore
  appending := fun call record line rest hactive => absurd hactive (hafter call record line rest)

theorem added_leave (s : State rt) (outcome : Outcome rt) :
    (s.leave outcome).added = s.added ++ outcome.record.toList := by
  show (s.outcomes ++ [outcome]).filterMap Outcome.record = _
  rw [List.filterMap_append, State.added]
  cases outcome <;> rfl

theorem added_rejected (s : State rt) (failure : Failure) :
    (s.leave (.rejected failure)).added = s.added := by
  rw [added_leave]
  exact List.append_nil _

/-- A call that appends nothing is over. -/
theorem Inv.leave (h : Inv records s) (hbefore : NotAppending s) {outcome : Outcome rt}
    (houtcome : outcome.record = none) : Inv records (s.leave outcome) := by
  refine h.of_same hbefore (fun _ _ _ _ hnone => by cases hnone) rfl ?_
  rw [added_leave, houtcome]
  exact List.append_nil _

/-- The reading of a call. -/
theorem Inv.readStep (h : Inv records s) {call : Call rt} (hactive : s.active = some (call, .locked))
    (catalog : Option (List ℕ)) : Inv records (readStep s catalog call) := by
  have hbefore : NotAppending s := not_appending hactive (by simp)
  have hread := h.readable hbefore
  cases call with
  | add input =>
    unfold Registry.readStep
    rw [hread]
    dsimp only [Except.bind]
    split
    next failure hfailure => exact h.leave hbefore rfl
    next record hrecord =>
      obtain ⟨hreadable, hfresh, hlineage⟩ := checkAdd_ok hrecord
      refine ⟨h.consistent, fun hidle => absurd rfl (hidle _ _ _ _), ?_⟩
      rintro _ _ _ _ ⟨⟩
      exact ⟨rfl, ⟨s.file, [], hread, rfl, (List.append_nil _).symm⟩, hreadable, hfresh, hlineage⟩
  | query query =>
    unfold Registry.readStep
    rw [hread]
    dsimp only [Except.bind]
    split
    next failure hfailure => exact h.leave hbefore rfl
    next => exact h.of_same hbefore (fun _ _ _ _ hnone => by cases hnone) rfl rfl

/-- A write of some bytes of the line. -/
theorem Inv.write (h : Inv records s) {call : Call rt} {record : ExperimentRecord rt.formats}
    {line rest : List ℕ} (hactive : s.active = some (call, .appending record line rest))
    (count : ℕ) :
    Inv records { s.enter call (.appending record line (rest.drop count)) with
      file := some (s.file.getD [] ++ rest.take count) } := by
  obtain ⟨hwhole, ⟨base, written, hbase, hsplit, hfile⟩, hreadable, hfresh, hlineage⟩ :=
    h.appending _ _ _ _ hactive
  refine ⟨h.consistent, fun hidle => absurd rfl (hidle _ _ _ _), ?_⟩
  rintro _ _ _ _ ⟨⟩
  refine ⟨hwhole, ⟨base, written ++ rest.take count, hbase, ?_, ?_⟩, hreadable, hfresh, hlineage⟩
  · rw [List.append_assoc, List.take_append_drop, hsplit]
  · show s.file.getD [] ++ rest.take count = _
    rw [hfile, List.append_assoc]

/-- An `add` returns after the whole line. -/
theorem Inv.added (h : Inv records s) {call : Call rt} {record : ExperimentRecord rt.formats}
    {line : List ℕ} (hactive : s.active = some (call, .appending record line [])) :
    Inv records (s.leave (.added record)) := by
  obtain ⟨hwhole, ⟨base, written, hbase, hsplit, hfile⟩, hreadable, hfresh, hlineage⟩ :=
    h.appending _ _ _ _ hactive
  have hadded : (s.leave (.added record)).added = s.added ++ [record] := added_leave s _
  rw [List.append_nil] at hsplit
  refine ⟨?_, fun _ => ?_, fun _ _ _ _ hnone => by cases hnone⟩
  · rw [hadded, ← List.append_assoc]
    exact h.consistent.append hfresh hlineage
  · rw [hadded, ← List.append_assoc, ← readUnlocked_touch]
    show readUnlocked rt (some (s.file.getD [])) = _
    rw [hfile, hsplit, hwhole]
    exact readUnlocked_append hbase hreadable hfresh

/-- A call that has written nothing fails. -/
theorem Inv.unwritten (h : Inv records s) {call : Call rt} {record : ExperimentRecord rt.formats}
    {line : List ℕ} (hactive : s.active = some (call, .appending record line line)) :
    Inv records (s.leave (.rejected .system)) := by
  obtain ⟨hwhole, ⟨base, written, hbase, hsplit, hfile⟩, hreadable, hfresh, hlineage⟩ :=
    h.appending _ _ _ _ hactive
  obtain rfl : written = [] := List.append_left_eq_self.mp hsplit
  refine ⟨?_, fun _ => ?_, fun _ _ _ _ hnone => by cases hnone⟩
  · rw [added_rejected]
    exact h.consistent
  · rw [added_rejected, ← readUnlocked_touch]
    show readUnlocked rt (some (s.file.getD [])) = _
    rw [hfile, List.append_nil, readUnlocked_touch]
    exact hbase

/-- A call of another process does not touch the lock or what can be read. -/
theorem Inv.of_other (h : Inv records s) {s' : State rt} (hactive : s'.active = s.active)
    (hfile : s'.file = s.file ∨ s'.file = some (s.file.getD [])) (hadded : s'.added = s.added) :
    Inv records s' := by
  have hbytes : s'.file.getD [] = s.file.getD [] := by
    rcases hfile with hfile | hfile <;> rw [hfile]
    rfl
  have hread : readUnlocked rt s'.file = readUnlocked rt s.file := by
    rw [← readUnlocked_touch, hbytes, readUnlocked_touch]
  refine ⟨?_, ?_, ?_⟩
  · rw [hadded]
    exact h.consistent
  · intro hidle
    rw [hadded, hread]
    refine h.readable fun call record line rest happending => ?_
    rw [← hactive] at happending
    exact hidle call record line rest happending
  · intro call record line rest happending
    rw [hactive] at happending
    obtain ⟨hwhole, ⟨base, written, hbase, hsplit, hpartly⟩, hreadable, hfresh, hlineage⟩ :=
      h.appending call record line rest happending
    rw [hadded]
    exact ⟨hwhole, ⟨base, written, hbase, hsplit, hbytes.trans hpartly⟩, hreadable, hfresh,
      hlineage⟩

/-- **A step** in which no append fails after its first write keeps the invariant. -/
theorem Inv.step (h : Inv records s) {i : Step rt} (hwhole : Whole s i) :
    Inv records (Registry.step s i) := by
  unfold Registry.step
  split
  next => exact h.of_other rfl (.inr rfl) rfl
  next =>
    refine h.of_other rfl (.inl rfl) ?_
    exact added_rejected s .system
  next call hidle =>
    have hbefore : NotAppending s := by
      intro call' record line rest happending
      rw [hidle] at happending
      cases happending
    exact h.of_same hbefore (fun _ _ _ _ hlocked => by cases hlocked) (readUnlocked_touch s.file) rfl
  next catalog call hactive => exact h.readStep hactive catalog
  next count call record line rest hactive =>
    split
    next => exact h.write hactive count
    next => exact h
  next entry hactive =>
    obtain ⟨call, phase⟩ := entry
    cases phase with
    | appending record line rest =>
      obtain rfl := hwhole call record line rest hactive
      exact h.unwritten hactive
    | locked => exact h.leave (not_appending hactive (by simp)) rfl
    | answering found => exact h.leave (not_appending hactive (by simp)) rfl
  next call record line hactive => exact h.added hactive
  next call found hactive => exact h.leave (not_appending hactive (by simp)) rfl
  next => exact h

end Steps

def sampleRuntime : Runtime where
  formats := { url := some, url_url := fun _ _ _ => rfl, datetime := fun _ => true }
  text := Json.fractions
  localeCompare := compare
  baselineCatalogPath := "minicpm5/baseline-fingerprints.json"

def sampleDigits : String := String.ofList (List.replicate 64 'a')

def sampleHash : Json := .str sampleDigits

def sampleObject : Json := .obj [("os", .str "linux")]

def sampleInput : Input sampleRuntime where
  fields :=
    [("parentBaselineFingerprint", sampleHash), ("lineage", .str "disklm"),
      ("hypothesis", .str "Page alignment reduces reads"), ("config", .obj []),
      ("checkpointSha", sampleHash), ("env", sampleObject), ("hardware", sampleObject),
      ("codeRevision", sampleHash), ("tokenizerHash", sampleHash),
      ("chatTemplateHash", sampleHash), ("corpusHash", sampleHash), ("metrics", .obj []),
      ("artifactLinks", .arr []), ("status", .str "succeeded"), ("ownerAgent", .str "claude")]
  readable := by
    simp [Json.Readable, Json.readableFields_iff, Json.readableItems_iff, sampleHash, sampleObject]
  createId := "00000000-0000-4000-8000-000000000001"
  now := "2026-07-26T00:00:00Z"

end AgentOrchestrator.Registry
