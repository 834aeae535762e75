import AgentOrchestrator.Calls.Recorder
import Mathlib.Data.List.Induction

/-!
# The audit trail of a run

A call appends its entries inside the `try` whose handler appends the failure, and an entry stays
in the trail when the callback throws at it.  So a callback that refuses the entry of an output
which has passed its checks leaves two outcomes of one call; at every other point a refusal leaves
a trail in order.
-/

namespace AgentOrchestrator.Calls

/-! ## Nodes of a copied graph -/

/-- A node of the copy of a graph. -/
def CallNode.clone (node : CallNode) : CallNode :=
  { node with arguments := cloneJson node.arguments }

theorem texts?_cloneItems (items : List Json) : texts? (cloneItems items) = texts? items := by
  induction items with
  | nil => rfl
  | cons item items ih =>
    rw [cloneItems]
    cases item with
    | str s => simp only [cloneJson, texts?, ih]
    | _ => rfl

theorem node?_cloneJson (candidate : Json) :
    node? (cloneJson candidate) = (node? candidate).map CallNode.clone := by
  cases candidate with
  | obj fields =>
    rw [cloneJson]
    unfold node?
    simp only [lookup_cloneFields]
    rcases fields.lookup "id" with _ | (_ | _ | _ | id | _ | _) <;> try rfl
    rcases fields.lookup "tool" with _ | (_ | _ | _ | tool | _ | _) <;> try rfl
    rcases fields.lookup "arguments" with _ | arguments <;> try rfl
    simp only [Option.map_some, cloneJson]
    split_ifs with hid
    · rfl
    · rcases fields.lookup "dependsOn" with _ | (_ | _ | _ | _ | items | _) <;> try rfl
      simp only [Option.map_some, cloneJson, texts?_cloneItems, Option.map_map]
      rfl
  | _ => rfl

theorem candidates_cloneJson (graph : Json) :
    candidates (cloneJson graph) = (candidates graph).map cloneJson := by
  cases graph with
  | obj fields =>
    rw [cloneJson]
    unfold candidates
    simp only [lookup_cloneFields]
    rcases fields.lookup "nodes" with _ | (_ | _ | _ | _ | items | _) <;> try rfl
    exact cloneItems_eq items
  | _ => rfl

theorem graphNodes_cloneJson (graph : Json) :
    graphNodes (cloneJson graph) = (graphNodes graph).map CallNode.clone := by
  unfold graphNodes
  rw [candidates_cloneJson, List.filterMap_map, List.map_filterMap]
  refine List.filterMap_congr ?_
  intro candidate _
  exact node?_cloneJson candidate

theorem refersTo_cloneJson_of {ref : String} {value : Json} (h : RefersTo ref value) :
    RefersTo ref (cloneJson value) := by
  induction h with
  | here h => exact .here ((reference?_cloneJson _).trans h)
  | item h hitem ih =>
    rw [cloneJson, cloneItems_eq]
    exact .item (List.mem_map_of_mem h) ih
  | field h hitem ih => exact .field (mem_cloneFields.2 ⟨_, h, rfl⟩) ih

theorem refersTo_of_cloneJson {ref : String} {copy : Json} (h : RefersTo ref copy) :
    ∀ {value : Json}, cloneJson value = copy → RefersTo ref value := by
  induction h with
  | here h =>
    rintro value rfl
    exact .here ((reference?_cloneJson value).symm.trans h)
  | item h hitem ih =>
    intro value hvalue
    cases value with
    | arr items =>
      obtain rfl := Json.arr.inj hvalue
      rw [cloneItems_eq] at h
      obtain ⟨item, hmem, hclone⟩ := List.mem_map.1 h
      exact .item hmem (ih hclone)
    | _ => cases hvalue
  | field h hitem ih =>
    intro value hvalue
    cases value with
    | obj fields =>
      obtain rfl := Json.obj.inj hvalue
      obtain ⟨⟨key, item⟩, hmem, hclone⟩ := mem_cloneFields.1 h
      exact .field hmem (ih (congrArg Prod.snd hclone))
    | _ => cases hvalue

@[simp] theorem after_clone {node : CallNode} {id : String} : After node.clone id ↔ After node id :=
  or_congr Iff.rfl ⟨fun h => refersTo_of_cloneJson h rfl, refersTo_cloneJson_of⟩

namespace Replay

/-! ## Trails in order -/

/-- The entry tells how the call of the node ended. -/
def AuditEntry.IsOutcome (entry : AuditEntry) (id : String) : Prop :=
  entry.nodeId = some id ∧
    (entry.decision = .executed ∨ entry.decision = .replayed ∨ entry.decision = .failed)

/-- The call of the node gave an output. -/
def AuditEntry.Completes (entry : AuditEntry) (id : String) : Prop :=
  entry.nodeId = some id ∧ (entry.decision = .executed ∨ entry.decision = .replayed)

/-- Nothing follows the entry. -/
def AuditEntry.Ends (entry : AuditEntry) : Prop :=
  entry.decision = .failed ∨ entry.decision = .validationDenied ∨
    entry.decision = .capabilityDenied

/-- The entry may follow the entries before it. -/
structure Fits (nodes : List CallNode) (before : List AuditEntry) (entry : AuditEntry) : Prop where
  sequence : entry.sequence = before.length
  once : ∀ id, entry.IsOutcome id → ∀ e ∈ before, ¬ e.IsOutcome id
  last : ∀ e ∈ before, ¬ e.Ends
  after : ∀ node ∈ nodes, entry.Completes node.id → ∀ id, After node id →
    ∃ e ∈ before, e.Completes id

/-- Every entry fits the ones before it: the numbers are contiguous, a node has one outcome at
most, an entry that ends the run is the last one, and a node is completed after the nodes it comes
after. -/
def WellFormed (nodes : List CallNode) (trail : List AuditEntry) : Prop :=
  ∀ l₁ entry l₂, trail = l₁ ++ entry :: l₂ → Fits nodes l₁ entry

variable {nodes : List CallNode} {audit : List AuditEntry} {entry : AuditEntry}

theorem wellFormed_nil : WellFormed nodes [] := by
  intro l₁ entry l₂ h
  simp at h

theorem wellFormed_snoc :
    WellFormed nodes (audit ++ [entry]) ↔ WellFormed nodes audit ∧ Fits nodes audit entry := by
  constructor
  · intro h
    refine ⟨?_, h audit entry [] rfl⟩
    rintro l₁ e l₂ rfl
    exact h l₁ e (l₂ ++ [entry]) (by simp)
  · rintro ⟨haudit, hentry⟩ l₁ e l₂ h
    rcases List.eq_nil_or_concat l₂ with rfl | ⟨l₂, z, rfl⟩
    · obtain ⟨rfl, he⟩ := List.append_inj' h rfl
      obtain rfl := (List.cons.inj he).1
      exact hentry
    · rw [List.concat_eq_append, ← List.cons_append, ← List.append_assoc] at h
      obtain ⟨rfl, -⟩ := List.append_inj' h rfl
      exact haudit l₁ e l₂ rfl

theorem WellFormed.mono {nodes' : List CallNode} (h : WellFormed nodes audit)
    (hnodes : ∀ node ∈ nodes', ∃ m ∈ nodes, m.id = node.id ∧ ∀ id, After node id → After m id) :
    WellFormed nodes' audit := by
  intro l₁ entry l₂ hsplit
  have hfits := h l₁ entry l₂ hsplit
  refine ⟨hfits.sequence, hfits.once, hfits.last, ?_⟩
  intro node hnode hcompletes id hafter
  obtain ⟨m, hm, hid, himp⟩ := hnodes node hnode
  exact hfits.after m hm (hid.symm ▸ hcompletes) id (himp id hafter)

theorem AuditEntry.Completes.isOutcome {id : String} (h : entry.Completes id) :
    entry.IsOutcome id :=
  ⟨h.1, h.2.imp (fun h => h) Or.inl⟩

@[simp] theorem complete_nodeId : (complete audit entry).nodeId = entry.nodeId := rfl

@[simp] theorem complete_decision : (complete audit entry).decision = entry.decision := rfl

@[simp] theorem complete_sequence : (complete audit entry).sequence = audit.length := rfl

/-- The only entry of a trail fits when it completes nothing. -/
theorem wellFormed_single (h : ∀ id, ¬ entry.Completes id) :
    WellFormed nodes [complete [] entry] := by
  rw [← List.nil_append [complete [] entry], wellFormed_snoc]
  refine ⟨wellFormed_nil, rfl, ?_, ?_, ?_⟩
  · intro id _ e he
    cases he
  · intro e he
    cases he
  · intro node _ hcompletes
    exact absurd hcompletes (h node.id)

/-- The trail of the calls that have been done. -/
structure Traced (nodes done : List CallNode) (audit : List AuditEntry) : Prop where
  wellFormed : WellFormed nodes audit
  running : ∀ e ∈ audit, ¬ e.Ends
  owned : ∀ e ∈ audit, ∀ id, e.IsOutcome id → ∃ node ∈ done, node.id = id
  completed : ∀ node ∈ done, ∃ e ∈ audit, e.Completes node.id

theorem traced_nil : Traced nodes [] [] := by
  refine ⟨wellFormed_nil, ?_, ?_, ?_⟩ <;> simp

/-- The next node: it has not been called, and the nodes it comes after have. -/
structure Next (nodes done : List CallNode) (node : CallNode) : Prop where
  fresh : ∀ m ∈ done, m.id ≠ node.id
  ready : ∀ m ∈ nodes, m.id = node.id → ∀ id, After m id → ∃ m' ∈ done, m'.id = id

section Traced

variable {done : List CallNode} {node : CallNode}

/-- An entry of the next node fits. -/
theorem Traced.fits (h : Traced nodes done audit) (hnext : Next nodes done node)
    (hid : entry.nodeId = some node.id) : Fits nodes audit (complete audit entry) := by
  refine ⟨rfl, ?_, h.running, ?_⟩
  · rintro id ⟨hentry, -⟩ e he houtcome
    obtain rfl : node.id = id := Option.some.inj (hid.symm.trans hentry)
    obtain ⟨m, hm, hmid⟩ := h.owned e he _ houtcome
    exact hnext.fresh m hm hmid
  · rintro m hm ⟨hentry, -⟩ id hafter
    have hmid : m.id = node.id := Option.some.inj (hentry.symm.trans hid)
    obtain ⟨m', hm', rfl⟩ := hnext.ready m hm hmid id hafter
    exact h.completed m' hm'

theorem Traced.wellFormed_snoc (h : Traced nodes done audit) (hnext : Next nodes done node)
    (hid : entry.nodeId = some node.id) : WellFormed nodes (audit ++ [complete audit entry]) :=
  Replay.wellFormed_snoc.2 ⟨h.wellFormed, h.fits hnext hid⟩

/-- The entry of a call that begins. -/
theorem Traced.attempted (h : Traced nodes done audit) (hnext : Next nodes done node)
    (hid : entry.nodeId = some node.id) (hdecision : entry.decision = .attempted) :
    Traced nodes done (audit ++ [complete audit entry]) := by
  refine ⟨h.wellFormed_snoc hnext hid, ?_, ?_, ?_⟩
  · intro e he
    rcases List.mem_append.1 he with he | he
    · exact h.running e he
    · rw [List.mem_singleton.1 he]
      simp [AuditEntry.Ends, hdecision]
  · intro e he id houtcome
    rcases List.mem_append.1 he with he | he
    · exact h.owned e he id houtcome
    · rw [List.mem_singleton.1 he] at houtcome
      simp [AuditEntry.IsOutcome, hdecision] at houtcome
  · intro m hm
    obtain ⟨e, he, hcompletes⟩ := h.completed m hm
    exact ⟨e, List.mem_append_left _ he, hcompletes⟩

/-- The entry of a call that gave an output. -/
theorem Traced.called (h : Traced nodes done audit) (hnext : Next nodes done node)
    (hcompletes : entry.Completes node.id) :
    Traced nodes (done ++ [node]) (audit ++ [complete audit entry]) := by
  refine ⟨h.wellFormed_snoc hnext hcompletes.1, ?_, ?_, ?_⟩
  · intro e he
    rcases List.mem_append.1 he with he | he
    · exact h.running e he
    · rw [List.mem_singleton.1 he]
      rcases hcompletes.2 with hdecision | hdecision <;> simp [AuditEntry.Ends, hdecision]
  · intro e he id houtcome
    rcases List.mem_append.1 he with he | he
    · obtain ⟨m, hm, hid⟩ := h.owned e he id houtcome
      exact ⟨m, List.mem_append_left _ hm, hid⟩
    · rw [List.mem_singleton.1 he] at houtcome
      have hid : node.id = id := Option.some.inj (hcompletes.1.symm.trans houtcome.1)
      exact ⟨node, by simp, hid⟩
  · intro m hm
    rcases List.mem_append.1 hm with hm | hm
    · obtain ⟨e, he, hdone⟩ := h.completed m hm
      exact ⟨e, List.mem_append_left _ he, hdone⟩
    · rw [List.mem_singleton.1 hm]
      exact ⟨complete audit entry, by simp, hcompletes⟩

end Traced

/-! ## One call -/

theorem appendAudit_ok {policy : ExecutionPolicy} {audit' : List AuditEntry}
    (h : appendAudit policy audit entry = .ok audit') :
    thrown policy audit entry = none ∧ audit' = audit ++ [complete audit entry] := by
  unfold appendAudit at h
  split at h
  · cases h
  · next hnone =>
    cases h
    exact ⟨hnone, rfl⟩

theorem appendAudit_error {policy : ExecutionPolicy} {refused : String × List AuditEntry}
    (h : appendAudit policy audit entry = .error refused) :
    thrown policy audit entry ≠ none ∧ refused.2 = audit ++ [complete audit entry] := by
  unfold appendAudit at h
  split at h
  · next message hsome =>
    cases h
    exact ⟨by simp [hsome], rfl⟩
  · cases h

/-- The entry of a denial is in the trail whatever the callback does. -/
@[simp] theorem denied_trail (policy : ExecutionPolicy) (audit : List AuditEntry)
    (entry : AuditEntry) (message : String) :
    (denied policy audit entry message).trail = audit ++ [complete audit entry] := by
  unfold denied appendAudit
  cases thrown policy audit entry <;> rfl

/-- What a call may append before its outcome: nothing, or that it is attempted. -/
def Opened (node : CallNode) (audit audit' : List AuditEntry) : Prop :=
  audit' = audit ∨ ∃ entry : AuditEntry, entry.nodeId = some node.id ∧
    entry.decision = .attempted ∧ audit' = audit ++ [complete audit entry]

section Call

variable (platform : Platform) (sandbox : Sandbox) (policy : ExecutionPolicy)

theorem opened_replayOutput {record : Option ReplayRecord} {sequence : ℕ} {node : CallNode}
    {input tool : Json} :
    match replayOutput platform policy record sequence node input tool audit with
    | .ok (_, audit') => Opened node audit audit'
    | .error interruption => Opened node audit interruption.audit := by
  unfold replayOutput
  cases verifyRecord platform record sequence node input tool policy.key with
  | error message => exact Or.inl rfl
  | ok output =>
    cases hcheck : checkOutput platform policy node tool output with
    | error message => simp [Except.mapError, hcheck, Opened, bind, Except.bind]
    | ok u => simp [Except.mapError, hcheck, Opened, bind, Except.bind, pure, Except.pure]

theorem opened_liveOutput {sequence : ℕ} {node : CallNode} {input tool : Json} :
    match liveOutput platform sandbox policy sequence node input tool audit with
    | .ok (_, audit') => Opened node audit audit'
    | .error interruption => Opened node audit interruption.audit := by
  unfold liveOutput
  have hopened : Opened node audit
      (audit ++ [complete audit (callEntry node tool input .attempted .null)]) :=
    Or.inr ⟨_, rfl, rfl, rfl⟩
  cases happend : appendAudit policy audit (callEntry node tool input .attempted .null) with
  | error refused =>
    rw [← (appendAudit_error happend).2] at hopened
    exact hopened
  | ok audit' =>
    rw [← (appendAudit_ok happend).2] at hopened
    cases hrun : runSandboxed platform sandbox policy sequence (textField "source" tool) input with
    | error message => simpa [Except.mapError, hrun, bind, Except.bind] using hopened
    | ok output =>
      cases hcheck : checkOutput platform policy node tool output with
      | error message => simpa [Except.mapError, hrun, hcheck, bind, Except.bind] using hopened
      | ok u =>
        simpa [Except.mapError, hrun, hcheck, bind, Except.bind, pure, Except.pure] using hopened

variable (tools : List (String × Json)) (records : List ReplayRecord)

/-- The trail before the outcome of a call and the entry of the outcome, if the output of the call
passes its checks. -/
def outcome (sequence : ℕ) (node : CallNode) (progress : Progress) :
    Option (List AuditEntry × AuditEntry) :=
  match tools.lookup node.tool, resolveReferences progress.outputs node.arguments with
  | some tool, some value =>
    let input := cloneJson value
    if policy.mode = .replay then
      match replayOutput platform policy records[sequence]? sequence node input tool
        progress.audit with
      | .ok (output, audit) => some (audit, callEntry node tool input .replayed output)
      | .error _ => none
    else
      match liveOutput platform sandbox policy sequence node input tool progress.audit with
      | .ok (output, audit) => some (audit, callEntry node tool input .executed (cloneJson output))
      | .error _ => none
  | _, _ => none

/-- The callback throws at the outcome of a call. -/
def Refuses (sequence : ℕ) (node : CallNode) (progress : Progress) : Prop :=
  ∃ audit entry, outcome platform sandbox policy tools records sequence node progress =
    some (audit, entry) ∧ thrown policy audit entry ≠ none

variable {sequence : ℕ} {node : CallNode} {progress : Progress}

/-- What a call leaves in the trail. -/
inductive Leaves (node : CallNode) (progress : Progress) (refused : Prop) :
    Except ExecutionError Progress → Prop where
  | called {audit entry progress'} (hopened : Opened node progress.audit audit)
      (hentry : entry.Completes node.id) (hrefused : ¬ refused)
      (haudit : progress'.audit = audit ++ [complete audit entry]) :
      Leaves node progress refused (.ok progress')
  | refused {audit entry failure error} (hopened : Opened node progress.audit audit)
      (hentry : entry.Completes node.id) (hrefused : refused)
      (hid : failure.nodeId = some node.id) (hfailed : failure.decision = .failed)
      (htrail : error.trail = (audit ++ [complete audit entry]) ++
        [complete (audit ++ [complete audit entry]) failure]) :
      Leaves node progress refused (.error error)
  | failed {audit failure error} (hopened : Opened node progress.audit audit)
      (hrefused : ¬ refused) (hid : failure.nodeId = some node.id)
      (hfailed : failure.decision = .failed)
      (htrail : error.trail = audit ++ [complete audit failure]) :
      Leaves node progress refused (.error error)
  | unresolved {error} (hrefused : ¬ refused) (htrail : error.trail = progress.audit) :
      Leaves node progress refused (.error error)

/-- A call that has its output, or none, and then appends its outcome. -/
def conclude (policy : ExecutionPolicy) (outcomeOf : Json → AuditEntry) (copy : Json → Json)
    (result : Except Interruption (Json × List AuditEntry)) :
    Except Interruption (Json × List AuditEntry) := do
  let (output, audit) ← result
  let audit ← (appendAudit policy audit (outcomeOf output)).mapError
    fun thrown => ⟨thrown.1, thrown.2, output⟩
  return (copy output, audit)

theorem leaves_conclude (outcomeOf : Json → AuditEntry) (copy : Json → Json)
    (failure : Interruption → AuditEntry) (next : Json → List AuditEntry → Progress)
    {result : Except Interruption (Json × List AuditEntry)}
    (hopened : match result with
      | .ok (_, audit) => Opened node progress.audit audit
      | .error interruption => Opened node progress.audit interruption.audit)
    (houtcome : ∀ output, (outcomeOf output).Completes node.id)
    (hfailure : ∀ interruption, (failure interruption).nodeId = some node.id ∧
      (failure interruption).decision = .failed)
    (hnext : ∀ output audit, (next output audit).audit = audit) :
    Leaves node progress
      (∃ audit entry, (match result with
        | .ok (output, audit) => some (audit, outcomeOf output)
        | .error _ => none) = some (audit, entry) ∧ thrown policy audit entry ≠ none)
      (match conclude policy outcomeOf copy result with
        | .error interruption => .error (denied policy interruption.audit (failure interruption)
            interruption.message)
        | .ok (output, audit) => .ok (next output audit)) := by
  cases result with
  | error interruption =>
    obtain ⟨hid, hfailed⟩ := hfailure interruption
    exact .failed hopened (by simp) hid hfailed (denied_trail _ _ _ _)
  | ok r =>
    obtain ⟨output, audit⟩ := r
    cases happend : appendAudit policy audit (outcomeOf output) with
    | error refused =>
      obtain ⟨hthrown, haudit⟩ := appendAudit_error happend
      obtain ⟨hid, hfailed⟩ := hfailure ⟨refused.1, refused.2, output⟩
      simp only [conclude, happend, Except.mapError, bind, Except.bind]
      refine .refused hopened (houtcome output) ⟨_, _, rfl, hthrown⟩ hid hfailed ?_
      rw [denied_trail, haudit]
    | ok audit' =>
      obtain ⟨hthrown, haudit⟩ := appendAudit_ok happend
      simp only [conclude, happend, Except.mapError, bind, Except.bind, pure, Except.pure]
      refine .called hopened (houtcome output) ?_ ((hnext _ _).trans haudit)
      rintro ⟨audit₁, entry₁, heq, hrefused⟩
      obtain ⟨rfl, rfl⟩ := Prod.mk.inj (Option.some.inj heq)
      exact hrefused hthrown

theorem executeNode_leaves :
    Leaves node progress (Refuses platform sandbox policy tools records sequence node progress)
      (executeNode platform sandbox policy tools records sequence node progress) := by
  unfold executeNode Refuses outcome
  cases tools.lookup node.tool with
  | none => exact .unresolved (by simp) rfl
  | some tool =>
    cases resolveReferences progress.outputs node.arguments with
    | none => exact .unresolved (by simp) rfl
    | some value =>
      by_cases hmode : policy.mode = .replay
      · simp only [if_pos hmode]
        refine leaves_conclude policy (callEntry node tool (cloneJson value) .replayed) id
          (failedEntry platform policy node tool (cloneJson value))
          (fun output audit => progress.add platform policy sequence node (cloneJson value) tool
            output audit) (opened_replayOutput platform policy) ?_ ?_ ?_
        · exact fun _ => ⟨rfl, Or.inr rfl⟩
        · exact fun _ => ⟨rfl, rfl⟩
        · exact fun _ _ => rfl
      · simp only [if_neg hmode]
        refine leaves_conclude policy
          (fun output => callEntry node tool (cloneJson value) .executed (cloneJson output)) cloneJson
          (failedEntry platform policy node tool (cloneJson value))
          (fun output audit => progress.add platform policy sequence node (cloneJson value) tool
            output audit) (opened_liveOutput platform sandbox policy) ?_ ?_ ?_
        · exact fun _ => ⟨rfl, Or.inl rfl⟩
        · exact fun _ => ⟨rfl, rfl⟩
        · exact fun _ _ => rfl

/-! ## The calls in their order -/

/-- The callback throws at the outcome of no call of the run. -/
def Accepts : List CallNode → ℕ → Progress → Prop
  | [], _, _ => True
  | node :: rest, sequence, progress =>
    ¬ Refuses platform sandbox policy tools records sequence node progress ∧
      ∀ progress', executeNode platform sandbox policy tools records sequence node progress =
        .ok progress' → Accepts rest (sequence + 1) progress'

end Call

/-- The order of the calls: all nodes, each after the nodes it comes after. -/
structure Ordered (nodes ordered : List CallNode) : Prop where
  ids : (ordered.map (·.id)).Nodup
  mem : ∀ node ∈ nodes, node ∈ ordered
  after : ∀ l₁ node l₂, ordered = l₁ ++ node :: l₂ → ∀ id, After node id → ∃ m ∈ l₁, m.id = id

theorem Ordered.next {done rest : List CallNode} {node : CallNode}
    (h : Ordered nodes (done ++ node :: rest)) : Next nodes done node := by
  constructor
  · intro m hm hid
    have hnodup := h.ids
    rw [List.map_append, List.map_cons] at hnodup
    refine (List.nodup_append.1 hnodup).2.2 m.id (List.mem_map_of_mem hm) node.id ?_ hid
    exact List.mem_cons_self
  · intro m hm hid id hafter
    have hnode : node ∈ done ++ node :: rest := by simp
    obtain rfl := List.inj_on_of_nodup_map h.ids (h.mem m hm) hnode hid
    exact h.after done m rest rfl id hafter

/-- The trail of the calls so far, also when one has failed. -/
def runTrail : Except ExecutionError Progress → List AuditEntry
  | .ok progress => progress.audit
  | .error error => error.trail

section Run

variable (platform : Platform) (sandbox : Sandbox) (policy : ExecutionPolicy)
  (tools : List (String × Json)) (records : List ReplayRecord)

theorem executeNodes_cons {node : CallNode} {rest : List CallNode} {sequence : ℕ}
    {progress : Progress} :
    executeNodes platform sandbox policy tools records (node :: rest) sequence progress =
      match executeNode platform sandbox policy tools records sequence node progress with
      | .error error => .error error
      | .ok progress =>
        executeNodes platform sandbox policy tools records rest (sequence + 1) progress := by
  rw [executeNodes]
  cases executeNode platform sandbox policy tools records sequence node progress <;> rfl

theorem Traced.opened {done : List CallNode} {node : CallNode} {audit' : List AuditEntry}
    (h : Traced nodes done audit) (hnext : Next nodes done node)
    (hopened : Opened node audit audit') : Traced nodes done audit' := by
  rcases hopened with rfl | ⟨entry, hid, hdecision, rfl⟩
  · exact h
  · exact h.attempted hnext hid hdecision

/-- The trail is in order exactly when no outcome has been refused. -/
theorem wellFormed_executeNodes {rest : List CallNode} : ∀ {done : List CallNode} {sequence : ℕ}
    {progress : Progress}, Ordered nodes (done ++ rest) → Traced nodes done progress.audit →
    (WellFormed nodes (runTrail
        (executeNodes platform sandbox policy tools records rest sequence progress)) ↔
      Accepts platform sandbox policy tools records rest sequence progress) := by
  induction rest with
  | nil =>
    intro done sequence progress _ htraced
    exact iff_of_true htraced.wellFormed trivial
  | cons node rest ih =>
    intro done sequence progress hordered htraced
    have hnext := hordered.next
    have hleaves := @executeNode_leaves platform sandbox policy tools records sequence node progress
    rw [executeNodes_cons, Accepts]
    generalize hcall : executeNode platform sandbox policy tools records sequence node progress =
      called at hleaves
    cases hleaves with
    | @called audit entry progress' hopened hentry hrefused haudit =>
      have htraced' : Traced nodes (done ++ [node]) progress'.audit := by
        rw [haudit]
        exact (htraced.opened hnext hopened).called hnext hentry
      have hordered' : Ordered nodes ((done ++ [node]) ++ rest) := by simpa using hordered
      have hrest := @ih (done ++ [node]) (sequence + 1) progress' hordered' htraced'
      constructor
      · intro h
        refine ⟨hrefused, ?_⟩
        rintro _ ⟨⟩
        exact hrest.1 h
      · intro h
        exact hrest.2 (h.2 progress' rfl)
    | @refused audit entry failure error hopened hentry hrefused hid hfailed htrail =>
      refine iff_of_false ?_ (fun h => h.1 hrefused)
      -- the entry of the outcome and that of the failure are two outcomes of the node
      intro h
      have hwell : WellFormed nodes error.trail := h
      rw [htrail] at hwell
      have hfits := (wellFormed_snoc.1 hwell).2
      exact hfits.once node.id ⟨hid, Or.inr (Or.inr hfailed)⟩ (complete audit entry) (by simp)
        hentry.isOutcome
    | @failed audit failure error hopened hrefused hid hfailed htrail =>
      refine iff_of_true ?_ ⟨hrefused, fun _ h => by cases h⟩
      have hwell := (htraced.opened hnext hopened).wellFormed_snoc hnext hid
      rw [← htrail] at hwell
      exact hwell
    | @unresolved error hrefused htrail =>
      refine iff_of_true ?_ ⟨hrefused, fun _ h => by cases h⟩
      have hwell := htraced.wellFormed
      rw [← htrail] at hwell
      exact hwell

/-! ## The whole run -/

theorem checkCapabilities_error {ordered : List CallNode} {error : ExecutionError}
    (h : checkCapabilities policy tools ordered = .error error) :
    error.trail = [] ∨ ∃ entry : AuditEntry, entry.decision = .capabilityDenied ∧
      error.trail = [complete [] entry] := by
  induction ordered with
  | nil => cases h
  | cons node rest ih =>
    unfold checkCapabilities at h
    dsimp only at h
    split at h
    · cases h
      exact Or.inl rfl
    · split_ifs at h
      · exact ih h
      · cases h
        exact Or.inr ⟨_, rfl, denied_trail _ _ _ _⟩

variable {graph : Json} {replayRecords : List ReplayRecord}

/-- A run that makes no call has one entry at most, that of its denial. -/
theorem prepare_error {error : ExecutionError}
    (h : prepare platform graph tools policy replayRecords = .error error) :
    error.trail = [] ∨ ∃ entry : AuditEntry,
      (entry.decision = .validationDenied ∨ entry.decision = .capabilityDenied) ∧
        error.trail = [complete [] entry] := by
  unfold prepare at h
  cases hpolicy : assertPolicy policy with
  | error message =>
    rw [hpolicy] at h
    cases h
    exact Or.inl rfl
  | ok u =>
    rw [hpolicy] at h
    simp only [Except.mapError, bind, Except.bind] at h
    split_ifs at h
    · cases h
      exact Or.inr ⟨_, Or.inl rfl, denied_trail _ _ _ _⟩
    · cases h
      exact Or.inr ⟨_, Or.inl rfl, denied_trail _ _ _ _⟩
    · cases h
      exact Or.inl rfl
    · split at h
      · cases h
        exact Or.inl rfl
      · cases h
        exact Or.inl rfl
      · split_ifs at h
        · cases h
          exact Or.inl rfl
        · split at h
          · next error' hcapability =>
            cases h
            rcases checkCapabilities_error policy _ hcapability with htrail | ⟨entry, hentry, htrail⟩
            · exact Or.inl htrail
            · exact Or.inr ⟨entry, Or.inr hentry, htrail⟩
          · cases h

theorem prepare_ok {ordered : List CallNode}
    (h : prepare platform graph tools policy replayRecords = .ok ordered) :
    (validateCallGraph platform.isUrl (cloneJson graph)
      (schemas (readTools (cloneFields tools)))).valid = true ∧
      topologicalOrder platform.depth (graphNodes (cloneJson graph)) = .ok ordered := by
  unfold prepare at h
  obtain ⟨u, -, h⟩ := bind_eq_ok h
  dsimp only at h
  split_ifs at h with hnodes hvalid hrecords
  refine ⟨by simpa using hvalid, ?_⟩
  split at h
  · cases h
  · cases h
  · next ordered' hordered =>
    split_ifs at h
    obtain ⟨u, -, h⟩ := bind_eq_ok h
    cases h
    exact hordered

theorem ordered_of_prepare {ordered : List CallNode}
    (h : prepare platform graph tools policy replayRecords = .ok ordered) :
    Ordered (graphNodes (cloneJson graph)) ordered := by
  obtain ⟨hvalid, hordered⟩ := prepare_ok platform policy tools h
  have hids := (checked_of_valid hvalid).ids
  obtain ⟨hperm, hafter⟩ := order_of_ok hids hordered
  exact ⟨(hperm.map (·.id)).nodup_iff.2 hids, fun node hnode => hperm.mem_iff.2 hnode, hafter⟩

end Run

/-- The audit trail of a run: that of its result, or what it had appended when it failed. -/
def trailOf : Except ExecutionError ExecutionResult → List AuditEntry
  | .ok result => result.audit
  | .error error => error.trail

/-- The nodes of a graph are ordered as those of its copy. -/
theorem wellFormed_clone {graph : Json} :
    WellFormed (graphNodes (cloneJson graph)) audit ↔ WellFormed (graphNodes graph) audit := by
  rw [graphNodes_cloneJson]
  constructor
  · intro h
    refine h.mono ?_
    intro node hnode
    exact ⟨node.clone, List.mem_map_of_mem hnode, rfl, fun _ => after_clone.2⟩
  · intro h
    refine h.mono ?_
    intro copy hcopy
    obtain ⟨node, hnode, rfl⟩ := List.mem_map.1 hcopy
    exact ⟨node, hnode, rfl, fun _ => after_clone.1⟩

/-- **The audit trail of a run is in order exactly when the callback throws at the outcome of no
call.** -/
theorem audit_wellFormed_iff (platform : Platform) (sandbox : Sandbox) (graph : Json)
    (tools : List (String × Json)) (policy : ExecutionPolicy) (replayRecords : List ReplayRecord) :
    WellFormed (graphNodes graph)
        (trailOf (executeCallGraph platform sandbox graph tools policy replayRecords)) ↔
      ∀ ordered, prepare platform graph tools policy replayRecords = .ok ordered →
        Accepts platform sandbox policy (cloneFields tools) (replayRecords.map ReplayRecord.clone)
          ordered 0 {} := by
  rw [← wellFormed_clone]
  unfold executeCallGraph
  cases hprepare : prepare platform graph tools policy replayRecords with
  | error error =>
    refine iff_of_true ?_ ?_
    · show WellFormed _ error.trail
      rcases prepare_error platform policy tools hprepare with htrail | ⟨entry, hentry, htrail⟩
      · rw [htrail]
        exact wellFormed_nil
      · rw [htrail]
        refine wellFormed_single ?_
        rintro id ⟨-, hdecision⟩
        rcases hentry with hentry | hentry <;> simp [hentry] at hdecision
    · intro ordered h
      cases h
  | ok ordered =>
    have hordered := ordered_of_prepare platform policy tools hprepare
    have hrun := @wellFormed_executeNodes (graphNodes (cloneJson graph)) platform sandbox policy
      (cloneFields tools) (replayRecords.map ReplayRecord.clone) ordered [] 0 {} hordered traced_nil
    have htrail : trailOf (do
          let progress ← executeNodes platform sandbox policy (cloneFields tools)
            (replayRecords.map ReplayRecord.clone) ordered 0 {}
          return { outputs := progress.outputs, audit := progress.audit
                   replay := progress.generated }) =
        runTrail (executeNodes platform sandbox policy (cloneFields tools)
          (replayRecords.map ReplayRecord.clone) ordered 0 {}) := by
      cases executeNodes platform sandbox policy (cloneFields tools)
        (replayRecords.map ReplayRecord.clone) ordered 0 {} <;> rfl
    constructor
    · intro h ordered' hordered'
      obtain rfl := Except.ok.inj hordered'
      exact hrun.1 (htrail ▸ h)
    · intro h
      have hwell := hrun.2 (h ordered rfl)
      rw [← htrail] at hwell
      exact hwell

/-! ## A callback that refuses an outcome -/

/-- A host whose sandbox answers with an empty object. -/
def objectSandbox : Sandbox where
  darwin := true
  spawnBounded _ _ _ _ := .ok "{}".toList

/-- What no live run hashes. -/
def plainPlatform : Platform where
  number := Json.fractions
  isUrl _ := true
  sha256 _ := []
  hmacSha256 _ _ := []
  diagnosticsText _ := ""
  depth := 8

/-- A tool that takes an object and answers with one. -/
def readerTools : List (String × Json) :=
  [("read", .obj [("capability", .str "files"), ("input", .obj [("type", .str "object")]),
    ("output", .obj [("type", .str "object")]), ("source", .str "() => (\x7b\x7d)")])]

def readerGraph : Json :=
  .obj [("nodes", .arr [.obj [("id", .str "a"), ("tool", .str "read"), ("arguments", .obj [])]])]

/-- The callback throws when a call is executed. -/
def throwingPolicy : ExecutionPolicy where
  allowedCapabilities := some ["files"]
  timeoutMs := 1000
  maxOutputBytes := 1024
  audit := some fun entry => if entry.decision = .executed then some "disk full" else none

theorem refused_outcome_fails_too :
    ((trailOf (executeCallGraph plainPlatform objectSandbox readerGraph readerTools throwingPolicy
        [])).map fun entry => (entry.nodeId, entry.decision)) =
        [(some "a", .attempted), (some "a", .executed), (some "a", .failed)] ∧
      ¬ WellFormed (graphNodes readerGraph)
        (trailOf (executeCallGraph plainPlatform objectSandbox readerGraph readerTools
          throwingPolicy [])) := by
  have htrail : ((trailOf (executeCallGraph plainPlatform objectSandbox readerGraph readerTools
      throwingPolicy [])).map fun entry => (entry.nodeId, entry.decision)) =
      [(some "a", .attempted), (some "a", .executed), (some "a", .failed)] := by
    decide +kernel
  refine ⟨htrail, ?_⟩
  intro h
  obtain ⟨attempted, _, hsplit, -, htrail⟩ := List.map_eq_cons_iff.1 htrail
  obtain ⟨executed, _, rfl, hexecuted, htrail⟩ := List.map_eq_cons_iff.1 htrail
  obtain ⟨failed, _, rfl, hfailed, -⟩ := List.map_eq_cons_iff.1 htrail
  have hfits := h [attempted, executed] failed _ hsplit
  obtain ⟨hid, hdecision⟩ := Prod.mk.inj hexecuted
  obtain ⟨hid', hdecision'⟩ := Prod.mk.inj hfailed
  exact hfits.once "a" ⟨hid', Or.inr (Or.inr hdecision')⟩ executed (by simp) ⟨hid, Or.inl hdecision⟩

end Replay

end AgentOrchestrator.Calls
