import AgentOrchestrator.Registry.Reconstruct
import Mathlib.Data.List.Pairwise

/-!
# When a diff reconstructs both sides

A member that is missing on one side is read from the prototype when its key is one of those that
every object inherits.  The change then holds a function or the prototype in place of nothing, or
there is none.  Every other comparison is reconstructed from either side.
-/

namespace AgentOrchestrator.Registry

/-! ## Stray keys -/

/-- Somewhere in two objects a key that objects inherit is an own key on one side only. -/
inductive Stray : Json → Json → Prop where
  | left {a b : List (String × Json)} {key : String} {item : Json}
      (hkey : key ∈ Calls.prototypeNames) (ha : a.lookup key = some item) (hb : b.lookup key = none) :
      Stray (.obj a) (.obj b)
  | right {a b : List (String × Json)} {key : String} {item : Json}
      (hkey : key ∈ Calls.prototypeNames) (ha : a.lookup key = none) (hb : b.lookup key = some item) :
      Stray (.obj a) (.obj b)
  | deeper {a b : List (String × Json)} {key : String} {x y : Json} (ha : a.lookup key = some x)
      (hb : b.lookup key = some y) (h : Stray x y) : Stray (.obj a) (.obj b)

theorem Stray.ne {x y : Json} (h : Stray x y) : x ≠ y := by
  induction h with
  | left hkey ha hb =>
    rintro ⟨⟩
    rw [hb] at ha
    cases ha
  | right hkey ha hb =>
    rintro ⟨⟩
    rw [ha] at hb
    cases hb
  | deeper ha hb h ih =>
    rintro ⟨⟩
    rw [ha] at hb
    exact ih (Option.some.inj hb)

theorem Stray.symm {x y : Json} (h : Stray x y) : Stray y x := by
  induction h with
  | left hkey ha hb => exact .right hkey hb ha
  | right hkey ha hb => exact .left hkey hb ha
  | deeper ha hb _ ih => exact .deeper hb ha ih

section Exact

variable {number : Json.NumberFormat}

theorem inherited_eq_none {key : String} (h : key ∉ Calls.prototypeNames) : inherited key = none := by
  unfold inherited
  have hne : key ≠ "__proto__" := by
    rintro rfl
    exact h (by decide)
  rw [if_neg hne, if_neg h]

theorem mem_ownKeys {fields : List (String × Json)} {key : String} :
    key ∈ ownKeys (some (.json (.obj fields))) ↔ ∃ item, fields.lookup key = some item := by
  constructor
  · exact lookup_of_mem_keys
  · rintro ⟨item, hitem⟩
    by_contra hnone
    rw [List.lookup_eq_none_iff.2] at hitem
    · cases hitem
    · intro field hfield
      rw [bne_iff_ne]
      rintro rfl
      exact hnone (List.mem_map_of_mem hfield)

/-- Without stray keys a member is an own one or missing. -/
theorem member_eq {a b : List (String × Json)} {key : String}
    (hkey : key ∈ keys (some (.json (.obj a))) (some (.json (.obj b))))
    (h : ¬ Stray (.obj a) (.obj b)) :
    member (some (.json (.obj a))) key = (a.lookup key).map .json := by
  cases ha : a.lookup key with
  | some item => exact member_of_lookup ha
  | none =>
    rw [member_of_lookup_none ha]
    refine inherited_eq_none ?_
    intro hname
    rcases mem_keys.1 hkey with hmem | hmem
    · obtain ⟨item, hitem⟩ := mem_ownKeys.1 hmem
      rw [ha] at hitem
      cases hitem
    · obtain ⟨item, hitem⟩ := mem_ownKeys.1 hmem
      exact h (.right hname ha hitem)

/-! ## The two directions -/

/-- The reported changes with their sides exchanged. -/
def Change.swap (change : Change) : Change := ⟨change.path, change.experiment, change.baseline⟩

theorem keys_comm (baseline experiment : Option Value) :
    keys experiment baseline = keys baseline experiment := by
  have hperm : (keys experiment baseline).Perm (keys baseline experiment) := by
    refine (List.perm_insertionSort _ _).trans ?_
    refine List.Perm.trans ?_ (List.perm_insertionSort _ _).symm
    exact List.Perm.dedup List.perm_append_comm
  have htotal : Std.Total fun a b : String => Utf16.toUnits a ≤ Utf16.toUnits b :=
    ⟨fun _ _ => le_total _ _⟩
  have htrans : IsTrans String fun a b => Utf16.toUnits a ≤ Utf16.toUnits b :=
    ⟨fun _ _ _ => le_trans⟩
  refine hperm.eq_of_pairwise ?_ (List.pairwise_insertionSort _ _) (List.pairwise_insertionSort _ _)
  intro a b _ _ hab hba
  rw [← Utf16.ofUnits_toUnits a, ← Utf16.ofUnits_toUnits b, le_antisymm hab hba]

theorem diffValues_swap (baseline experiment : Option Value) :
    diffValues number "" experiment baseline =
      (diffValues number "" baseline experiment).map Change.swap := by
  induction baseline, experiment using diff_induction with
  | h baseline experiment ih =>
    by_cases htext : stringify number baseline = stringify number experiment
    · rw [diffValues_of_eq htext, diffValues_of_eq htext.symm, List.map_nil]
    · by_cases hobject : isObject baseline ∧ isObject experiment
      · rw [diffValues_objects htext hobject, diffValues_objects (Ne.symm htext) hobject.symm,
          keys_comm, List.map_flatMap]
        refine List.flatMap_congr ?_
        intro key hkey
        unfold branch
        rw [ih key hkey, List.map_map, List.map_map]
        rfl
      · rw [diffValues_leaf htext hobject,
          diffValues_leaf (Ne.symm htext) fun h => hobject h.symm]
        rfl

theorem apply_swap (changes : List Change) (document : Option Json) :
    apply Change.baseline changes document =
      apply Change.experiment (changes.map Change.swap) document := by
  unfold apply
  rw [List.foldlM_map]
  rfl

theorem experiment_under (start : String) (change : Change) :
    (change.under start).experiment = change.experiment := rfl

/-- The changes turn the first value into the second one. -/
def Forward (number : Json.NumberFormat) (x y : Json) : Prop :=
  ∃ r, apply Change.experiment (diffValues number "" (some (.json x)) (some (.json y))) (some x) =
    some (some r) ∧ Same r y

/-- Without stray keys the changes turn one side, or the lack of one, into the other. -/
theorem apply_diffValues (baseline experiment : Option Value) : ∀ {x y : Option Json},
    baseline = x.map .json → experiment = y.map .json →
    (∀ v w, x = some v → y = some w → ¬ Stray v w) →
      ∃ r, apply Change.experiment (diffValues number "" baseline experiment) x = some r ∧
        Option.Rel Same r y := by
  induction baseline, experiment using diff_induction with
  | h baseline experiment ih =>
    intro x y hx hy hstray
    by_cases htext : stringify number baseline = stringify number experiment
    · rw [diffValues_of_eq htext]
      have hxy : x = y := by
        subst hx hy
        cases x <;> cases y
        · rfl
        · cases htext
        · cases htext
        · rw [stringify_json.1 htext]
      exact ⟨x, rfl, hxy ▸ rel_refl x⟩
    · by_cases hobject : isObject baseline ∧ isObject experiment
      · obtain ⟨a, rfl⟩ : ∃ a, x = some (.obj a) := by
          obtain ⟨hobject, -⟩ := hobject
          rw [hx] at hobject
          rcases x with _ | (_ | _ | _ | _ | _ | a) <;> simp [isObject] at hobject ⊢
        obtain ⟨b, rfl⟩ : ∃ b, y = some (.obj b) := by
          obtain ⟨-, hobject⟩ := hobject
          rw [hy] at hobject
          rcases y with _ | (_ | _ | _ | _ | _ | b) <;> simp [isObject] at hobject ⊢
        have hnone := hstray _ _ rfl rfl
        subst hx hy
        have hkeys : ∀ key, ∃ r, key ∈ keys (some (.json (.obj a))) (some (.json (.obj b))) →
            apply Change.experiment (branch number (some (.json (.obj a))) (some (.json (.obj b))) key)
              (a.lookup key) = some r ∧ Option.Rel Same r (b.lookup key) := by
          intro key
          by_cases hkey : key ∈ keys (some (.json (.obj a))) (some (.json (.obj b)))
          · have hkey' : key ∈ keys (some (.json (.obj b))) (some (.json (.obj a))) :=
              keys_comm _ _ ▸ hkey
            obtain ⟨r, hr⟩ := ih key hkey (member_eq hkey hnone)
              (member_eq hkey' fun h => hnone h.symm) fun v w hv hw h => hnone (.deeper hv hw h)
            exact ⟨r, fun _ => hr⟩
          · exact ⟨none, fun h => absurd h hkey⟩
        choose value hvalue using hkeys
        obtain ⟨fields, hfields, hlookup⟩ := apply_keys experiment_under
          (fun key _ => pointed_diffValues _ _) (nodup_keys (some (.json (.obj a)))
            (some (.json (.obj b)))) fun key hkey => (hvalue key hkey).1
        refine ⟨some (.obj fields), ?_, .some (Same.of_rel ?_)⟩
        · have htext' : stringify number (some (.json (.obj a))) ≠
              stringify number (some (.json (.obj b))) := htext
          rw [Option.map_some, Option.map_some, diffValues_objects htext' ⟨rfl, rfl⟩]
          exact hfields
        · intro key
          rw [hlookup]
          split_ifs with hkey
          · exact (hvalue key hkey).2
          · rw [mem_keys, mem_ownKeys, mem_ownKeys, not_or, not_exists, not_exists] at hkey
            rw [Option.eq_none_iff_forall_ne_some.2 hkey.1, Option.eq_none_iff_forall_ne_some.2 hkey.2]
            exact .none
      · rw [diffValues_leaf htext hobject]
        refine ⟨y, ?_, rel_refl y⟩
        subst hy
        cases y <;> rfl

theorem forward_of_not_stray {x y : Json} (h : ¬ Stray x y) : Forward number x y := by
  have hnone : ∀ v w, some x = some v → some y = some w → ¬ Stray v w := by
    rintro v w ⟨⟩ ⟨⟩
    exact h
  obtain ⟨r, hr, hrel⟩ := @apply_diffValues number (some (.json x)) (some (.json y)) _ _ rfl rfl hnone
  cases hrel with
  | some hsame => exact ⟨_, hr, hsame⟩

/-! ## What a stray key breaks -/

/-- When the changes turn one object into another one, those at a key do so with its values. -/
theorem Forward.member {a b : List (String × Json)} (h : Forward number (.obj a) (.obj b))
    (hne : Json.obj a ≠ .obj b) {key : String}
    (hkey : key ∈ keys (some (.json (.obj a))) (some (.json (.obj b)))) :
    ∃ r, apply Change.experiment (branch number (some (.json (.obj a))) (some (.json (.obj b))) key)
      (a.lookup key) = some r ∧ Option.Rel Same r (b.lookup key) := by
  obtain ⟨r, happly, hsame⟩ := h
  have htext : stringify number (some (.json (.obj a))) ≠ stringify number (some (.json (.obj b))) :=
    fun h => hne (stringify_json.1 h)
  rw [diffValues_objects htext ⟨rfl, rfl⟩] at happly
  have hnodup := nodup_keys (some (.json (.obj a))) (some (.json (.obj b)))
  have hsome := apply_keys_some experiment_under (fun key _ => pointed_diffValues _ _) hnodup happly
  have hvalues : ∀ key, ∃ r, key ∈ keys (some (.json (.obj a))) (some (.json (.obj b))) →
      apply Change.experiment (branch number (some (.json (.obj a))) (some (.json (.obj b))) key)
        (a.lookup key) = some r := by
    intro key
    by_cases hkey : key ∈ keys (some (.json (.obj a))) (some (.json (.obj b)))
    · obtain ⟨r, hr⟩ := hsome key hkey
      exact ⟨r, fun _ => hr⟩
    · exact ⟨none, fun h => absurd h hkey⟩
  choose value hvalue using hvalues
  obtain ⟨fields, hfields, hlookup⟩ := apply_keys experiment_under
    (fun key _ => pointed_diffValues _ _) hnodup fun key hkey => hvalue key hkey
  obtain rfl : r = .obj fields := Option.some.inj (Option.some.inj (happly.symm.trans hfields))
  refine ⟨value key, hvalue key hkey, ?_⟩
  have hrel := hsame.lookup key
  rwa [hlookup, if_pos hkey] at hrel

/-- Changes below keys cannot be applied where there is nothing. -/
theorem apply_keys_none {pick : Change → Option Value} {l : List String}
    {branch : String → List Change} (hpointed : ∀ key, Pointed (branch key)) {r : Option Json}
    (h : apply pick (l.flatMap fun key => (branch key).map (Change.under ("/" ++ pointer key))) none =
      some r) : r = none := by
  generalize hchanges : (l.flatMap fun key => (branch key).map
    (Change.under ("/" ++ pointer key))) = changes at h
  cases changes with
  | nil => exact (Option.some.inj h).symm
  | cons change changes =>
    have hmem : change ∈ l.flatMap fun key => (branch key).map (Change.under ("/" ++ pointer key)) := by
      rw [hchanges]
      exact List.mem_cons_self
    obtain ⟨key, -, hmem⟩ := List.mem_flatMap.1 hmem
    obtain ⟨c, hc, rfl⟩ := List.mem_map.1 hmem
    obtain ⟨m, hm⟩ := hpointed key c hc
    have hsegments : segments (c.under ("/" ++ pointer key)).path = some (key :: m) := segments_under hm
    unfold apply at h
    rw [List.foldlM_cons, applyChange, hsegments] at h
    cases h

/-- A key that objects inherit, own on one side only: not both directions go through. -/
theorem not_both_inherited {key : String} (hkey : key ∈ Calls.prototypeNames) {x : Json}
    {r s : Option Json}
    (hr : apply Change.experiment (diffValues number "" (some (.json x)) (inherited key)) (some x) =
      some r)
    (hs : apply Change.experiment (diffValues number "" (inherited key) (some (.json x))) none =
      some s) : s = none := by
  unfold inherited at hr hs
  by_cases hproto : key = "__proto__"
  · rw [if_pos hproto] at hr hs
    by_cases htext : stringify number (some (.json x)) = stringify number (some .prototype)
    · rw [diffValues_of_eq htext.symm] at hs
      exact (Option.some.inj hs).symm
    · by_cases hobject : isObject (some (.json x)) = true
      · rw [diffValues_objects (Ne.symm htext) ⟨rfl, hobject⟩] at hs
        exact apply_keys_none (fun key => pointed_diffValues _ _) hs
      · rw [diffValues_leaf htext fun h => hobject h.1] at hr
        cases hr
  · rw [if_neg hproto, if_pos hkey] at hr
    rw [diffValues_leaf (fun h => by cases h) fun h => by cases h.2] at hr
    cases hr

/-- With a stray key one of the two directions fails. -/
theorem Stray.not_forward {x y : Json} (h : Stray x y) :
    ¬ (Forward number x y ∧ Forward number y x) := by
  induction h with
  | @left a b key item hkey ha hb =>
    rintro ⟨hforward, hbackward⟩
    have hne := (Stray.left hkey ha hb).ne
    have hmem : key ∈ keys (some (.json (.obj a))) (some (.json (.obj b))) :=
      mem_keys.2 (Or.inl (mem_ownKeys.2 ⟨item, ha⟩))
    obtain ⟨r, hr, -⟩ := hforward.member hne hmem
    obtain ⟨s, hs, hrel⟩ := hbackward.member hne.symm (keys_comm _ _ ▸ hmem)
    unfold branch at hr hs
    rw [member_of_lookup ha, member_of_lookup_none hb] at hr hs
    rw [ha] at hr hrel
    rw [hb] at hs
    rw [not_both_inherited hkey hr hs] at hrel
    cases hrel
  | @right a b key item hkey ha hb =>
    rintro ⟨hforward, hbackward⟩
    have hne := (Stray.right hkey ha hb).ne
    have hmem : key ∈ keys (some (.json (.obj a))) (some (.json (.obj b))) :=
      mem_keys.2 (Or.inr (mem_ownKeys.2 ⟨item, hb⟩))
    obtain ⟨s, hs, hrel⟩ := hforward.member hne hmem
    obtain ⟨r, hr, -⟩ := hbackward.member hne.symm (keys_comm _ _ ▸ hmem)
    unfold branch at hr hs
    rw [member_of_lookup_none ha, member_of_lookup hb] at hr hs
    rw [hb] at hr hrel
    rw [ha] at hs
    rw [not_both_inherited hkey hr hs] at hrel
    cases hrel
  | @deeper a b key x y ha hb h ih =>
    rintro ⟨hforward, hbackward⟩
    have hne := (Stray.deeper ha hb h).ne
    have hmem : key ∈ keys (some (.json (.obj a))) (some (.json (.obj b))) :=
      mem_keys.2 (Or.inl (mem_ownKeys.2 ⟨x, ha⟩))
    obtain ⟨r, hr, hrel⟩ := hforward.member hne hmem
    obtain ⟨s, hs, hrel'⟩ := hbackward.member hne.symm (keys_comm _ _ ▸ hmem)
    unfold branch at hr hs
    rw [member_of_lookup ha, member_of_lookup hb] at hr hs
    rw [ha] at hr hrel'
    rw [hb] at hs hrel
    cases hrel with
    | some hsame =>
      cases hrel' with
      | some hsame' => exact ih ⟨⟨_, hr, hsame⟩, ⟨_, hs, hsame'⟩⟩

/-! ## Documents that hold the compared values -/

/-- The pointer to a place. -/
def pathOf : List String → String
  | [] => ""
  | key :: place => "/" ++ pointer key ++ pathOf place

/-- A document with the value at the place. -/
def nest : List String → Json → Json
  | [], value => value
  | key :: place, value => .obj [(key, nest place value)]

theorem segments_pathOf {path : String} {l : List String} (h : segments path = some l)
    (place : List String) : segments (pathOf place ++ path) = some (place ++ l) := by
  induction place with
  | nil => rwa [pathOf, String.empty_append]
  | cons key place ih =>
    rw [pathOf, String.append_assoc]
    exact segments_under ih

theorem Pointed.under {changes : List Change} (h : Pointed changes) (place : List String) :
    Pointed (changes.map (Change.under (pathOf place))) := by
  intro change hchange
  obtain ⟨c, hc, rfl⟩ := List.mem_map.1 hchange
  obtain ⟨l, hl⟩ := h c hc
  exact ⟨place ++ l, segments_pathOf hl place⟩

/-- Changes at a place do to the document what the changes do to the value there. -/
theorem apply_nest {pick : Change → Option Value}
    (hpick : ∀ start change, pick (change.under start) = pick change) {changes : List Change}
    (hpointed : Pointed changes) {x y : Json} (place : List String) :
    (∃ r, apply pick (changes.map (Change.under (pathOf place))) (some (nest place x)) =
        some (some r) ∧ Same r (nest place y)) ↔
      ∃ r, apply pick changes (some x) = some (some r) ∧ Same r y := by
  induction place with
  | nil =>
    have hmap : changes.map (Change.under (pathOf [])) = changes := by
      rw [← List.map_id changes, List.map_map]
      refine List.map_congr_left ?_
      intro change _
      simp [Change.under, pathOf]
    rw [hmap]
    rfl
  | cons key place ih =>
    rw [← ih]
    have hmap : changes.map (Change.under (pathOf (key :: place))) =
        (changes.map (Change.under (pathOf place))).map (Change.under ("/" ++ pointer key)) := by
      rw [List.map_map]
      refine List.map_congr_left ?_
      intro change _
      rw [Function.comp_apply, under_under]
      rfl
    have hlookup (value : Json) : [(key, nest place value)].lookup key = some (nest place value) :=
      List.lookup_cons_self
    have hpointed' := hpointed.under place
    rw [hmap, nest, nest]
    constructor
    · rintro ⟨r, hr, hsame⟩
      cases hvalue : apply pick (changes.map (Change.under (pathOf place)))
          ([(key, nest place x)].lookup key) with
      | none =>
        rw [apply_under_none hpick hpointed' hvalue] at hr
        cases hr
      | some value =>
        obtain ⟨fields, hfields, hfound⟩ := apply_under_some hpick hpointed' hvalue
        obtain rfl : r = .obj fields := Option.some.inj (Option.some.inj (hr.symm.trans hfields))
        have hrel := hsame.lookup key
        rw [hfound, if_pos rfl, hlookup] at hrel
        rw [hlookup] at hvalue
        cases hrel with
        | some hsame => exact ⟨_, hvalue, hsame⟩
    · rintro ⟨r, hr, hsame⟩
      rw [← hlookup] at hr
      obtain ⟨fields, hfields, hfound⟩ := apply_under_some hpick hpointed' hr
      refine ⟨.obj fields, hfields, Same.of_rel ?_⟩
      intro k
      rw [hfound, List.lookup_cons, List.lookup_cons, List.lookup_nil]
      by_cases hk : k = key
      · simp [hk, hsame]
      · simp [hk, beq_false_of_ne hk]

/-! ## Faithful changes -/

/-- The changes of two values at a place: applied to the one document they give the other one, in
both directions, no pointer leads to another one, and equal values have none. -/
structure Faithful (place : List String) (x y : Json) (changes : List Change) : Prop where
  forward : ∃ r, apply Change.experiment changes (some (nest place x)) = some (some r) ∧
    Same r (nest place y)
  backward : ∃ r, apply Change.baseline changes (some (nest place y)) = some (some r) ∧
    Same r (nest place x)
  distinct : (changes.map Change.path).Nodup
  apart : ∀ c ∈ changes, ∀ d ∈ changes, ∀ l m, segments c.path = some l →
    segments d.path = some m → l <+: m → l = m
  silent : Same x y → changes = []

instance : Std.Symm Apart := ⟨fun _ _ h l m hl hm => (h m l hm hl).symm⟩

theorem pairwise_apart_under {changes : List Change} (hpointed : Pointed changes)
    (h : changes.Pairwise Apart) (place : List String) :
    (changes.map (Change.under (pathOf place))).Pairwise Apart := by
  rw [List.pairwise_map]
  refine List.Pairwise.imp_of_mem ?_ h
  intro c d hc hd hapart l m hl hm
  obtain ⟨p, hp⟩ := hpointed c hc
  obtain ⟨q, hq⟩ := hpointed d hd
  obtain rfl := Option.some.inj ((segments_pathOf hp place).symm.trans hl)
  obtain rfl := Option.some.inj ((segments_pathOf hq place).symm.trans hm)
  rw [List.prefix_append_right_inj, List.prefix_append_right_inj]
  exact hapart p q hp hq

theorem nodup_paths {changes : List Change} (hpointed : Pointed changes)
    (h : changes.Pairwise Apart) : (changes.map Change.path).Nodup := by
  rw [List.Nodup, List.pairwise_map]
  refine List.Pairwise.imp_of_mem ?_ h
  intro c d hc _ hapart hpath
  obtain ⟨l, hl⟩ := hpointed c hc
  exact (hapart l l hl (hpath ▸ hl)).1 List.prefix_rfl

theorem eq_of_prefix {changes : List Change} (h : changes.Pairwise Apart) {c d : Change}
    (hc : c ∈ changes) (hd : d ∈ changes) {l m : List String} (hl : segments c.path = some l)
    (hm : segments d.path = some m) (hleads : l <+: m) : l = m := by
  by_cases heq : c = d
  · subst heq
    exact Option.some.inj (hl.symm.trans hm)
  · have hapart := h.forall hc hd heq
    exact absurd hleads (hapart l m hl hm).1

/-- **A diff is faithful exactly when no inherited key is an own one on one side only.** -/
theorem diff_faithful_iff (number : Json.NumberFormat) (place : List String) (x y : Json) :
    Faithful place x y (diffValues number (pathOf place) (some (.json x)) (some (.json y))) ↔
      ¬ Stray x y := by
  have hpointed : Pointed (diffValues number "" (some (.json x)) (some (.json y))) :=
    pointed_diffValues _ _
  have hforward := @apply_nest Change.experiment experiment_under _ hpointed x y place
  have hbackward := @apply_nest Change.baseline (fun _ _ => rfl) _ hpointed y x place
  rw [apply_swap _ (some y), ← diffValues_swap] at hbackward
  rw [diffValues_path]
  constructor
  · intro h hstray
    exact hstray.not_forward ⟨hforward.1 h.forward, hbackward.1 h.backward⟩
  · intro hstray
    have hpairwise := pairwise_apart_under hpointed (pairwise_apart _ _) place
    refine ⟨hforward.2 (forward_of_not_stray hstray),
      hbackward.2 (forward_of_not_stray fun h => hstray h.symm),
      nodup_paths (hpointed.under place) hpairwise, ?_, ?_⟩
    · intro c hc d hd l m hl hm hleads
      exact eq_of_prefix hpairwise hc hd hl hm hleads
    · intro hsame
      rw [diffValues_of_same hsame, List.map_nil]

/-- A key that only the experiment has and every object inherits: the change also has a function
in place of the missing value. -/
theorem constructor_not_faithful :
    diffValues Json.fractions "/config" (some (.json (.obj [])))
        (some (.json (.obj [("constructor", .num 1)]))) =
        [⟨"/config/constructor", some (.function "constructor"), some (.json (.num 1))⟩] ∧
      ¬ Faithful ["config"] (.obj []) (.obj [("constructor", .num 1)])
        (diffValues Json.fractions "/config" (some (.json (.obj [])))
          (some (.json (.obj [("constructor", .num 1)])))) := by
  have hchanges : diffValues Json.fractions "/config" (some (.json (.obj [])))
      (some (.json (.obj [("constructor", .num 1)]))) =
      [⟨"/config/constructor", some (.function "constructor"), some (.json (.num 1))⟩] := by
    have hkeys : keys (some (.json (.obj []))) (some (.json (.obj [("constructor", .num 1)]))) =
        ["constructor"] := by decide +kernel
    have hmember : member (some (.json (.obj []))) "constructor" =
        some (.function "constructor") := by decide +kernel
    rw [diffValues_eq, if_neg (by decide +kernel), if_pos ⟨rfl, rfl⟩, hkeys, List.flatMap_singleton,
      hmember, diffValues_eq, if_neg (by decide +kernel), if_neg (by decide)]
    decide +kernel
  refine ⟨hchanges, ?_⟩
  intro h
  obtain ⟨r, hr, -⟩ := h.backward
  rw [hchanges] at hr
  have hnone : apply Change.baseline
      [⟨"/config/constructor", some (.function "constructor"), some (.json (.num 1))⟩]
      (some (nest ["config"] (.obj [("constructor", .num 1)]))) = none := by decide +kernel
  rw [hnone] at hr
  cases hr

/-! ## Diffs of records -/

/-- The fields of two records that `diff` compares. -/
def diffKeys : List String :=
  ["checkpointSha", "config", "corpusHash", "env", "hardware", "codeRevision", "tokenizerHash",
    "chatTemplateHash", "metrics"]

/-- The changes that `diff` reports of a baseline and an experiment. -/
def diffRecords (number : Json.NumberFormat) (baseline experiment : List (String × Json)) :
    List Change :=
  diffKeys.flatMap fun key => diffValues number ("/" ++ key) ((baseline.lookup key).map .json)
    ((experiment.lookup key).map .json)

/-- The changes of two records turn the compared fields of the one into those of the other, and
leave the other fields. -/
theorem diffRecords_forward (number : Json.NumberFormat) {baseline experiment : List (String × Json)}
    (h : ∀ key ∈ diffKeys, ∀ x y, baseline.lookup key = some x → experiment.lookup key = some y →
      ¬ Stray x y) :
    ∃ fields, apply Change.experiment (diffRecords number baseline experiment)
        (some (.obj baseline)) = some (some (.obj fields)) ∧
      ∀ key, Option.Rel Same (fields.lookup key)
        (if key ∈ diffKeys then experiment.lookup key else baseline.lookup key) := by
  have hpointer : ∀ key ∈ diffKeys, pointer key = key := by decide +kernel
  have hrecords : diffRecords number baseline experiment = diffKeys.flatMap fun key =>
      (diffValues number "" ((baseline.lookup key).map .json)
        ((experiment.lookup key).map .json)).map (Change.under ("/" ++ pointer key)) := by
    refine List.flatMap_congr ?_
    intro key hkey
    rw [diffValues_path, hpointer key hkey]
  have hvalues : ∀ key, ∃ r, key ∈ diffKeys → apply Change.experiment (diffValues number ""
      ((baseline.lookup key).map .json) ((experiment.lookup key).map .json)) (baseline.lookup key) =
        some r ∧ Option.Rel Same r (experiment.lookup key) := by
    intro key
    by_cases hkey : key ∈ diffKeys
    · obtain ⟨r, hr⟩ := @apply_diffValues number _ _ _ _ rfl rfl (h key hkey)
      exact ⟨r, fun _ => hr⟩
    · exact ⟨none, fun h => absurd h hkey⟩
  choose value hvalue using hvalues
  obtain ⟨fields, hfields, hlookup⟩ := apply_keys experiment_under
    (fun key _ => pointed_diffValues _ _) (by decide) fun key hkey => (hvalue key hkey).1
  refine ⟨fields, hrecords ▸ hfields, ?_⟩
  intro key
  rw [hlookup]
  split_ifs with hkey
  · exact (hvalue key hkey).2
  · exact rel_refl _

end Exact

end AgentOrchestrator.Registry
