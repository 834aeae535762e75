import AgentOrchestrator.Ir.TypeSoundness
import AgentOrchestrator.Library.Layers

/-!
# The order of a valid graph

`topological_order` takes the nodes that depend on no remaining node, round after round;
`parallel_frontiers` takes those whose dependencies are completed, and of these a single one where
one must not run beside others.  Both make progress because `validate` has searched the graph for
cycles, though over dependencies of its own: it keeps only those it finds in the graph.  A set is
the list of its elements, and the loops are bounded by `fuel`.
-/

namespace AgentOrchestrator.Ir

open PostOrder Layers

/-! ## The two orders -/

/-- What the node names: the sources of its arguments and the node it repairs. -/
def CallNode.named (node : CallNode) : List PyStr :=
  (node.arguments.filterMap fun binding => binding.source.map (·.nodeId)) ++ node.repairOf.toList

/-- `_dependencies`. -/
def CallGraph.dependencies (self : CallGraph) (id : PyStr) : List PyStr :=
  (self.nodes.filter (·.id = id)).flatMap CallNode.named

/-- The keys of `_dependencies`. -/
def CallGraph.ids (self : CallGraph) : List PyStr := (self.nodes.map (·.id)).dedup

/-- The nodes that depend on no remaining node. -/
def CallGraph.ready (self : CallGraph) (remaining : List PyStr) : List PyStr :=
  (self.nodes.filter fun (node : CallNode) => decide (node.id ∈ remaining ∧
    ∀ dependency ∈ self.dependencies node.id, dependency ∉ remaining)).map (·.id)

/-- The loop of `topological_order`. -/
def CallGraph.orderLoop (self : CallGraph) :
    ℕ → List PyStr → List PyStr → Option (List PyStr)
  | _, [], order => some order
  | 0, _ :: _, _ => none
  | fuel + 1, id :: ids, order =>
    let ready := self.ready (id :: ids)
    self.orderLoop fuel ((id :: ids).filter (· ∉ ready)) (order ++ ready)

def CallGraph.topologicalOrder (repr : PyStr → String) (fuel : ℕ) (self : CallGraph) :
    Option (Except String (List PyStr)) :=
  if self.validate repr none ≠ [] then some (.error "cannot order an invalid call graph")
  else (self.orderLoop fuel self.ids []).map .ok

/-- The remaining nodes whose dependencies are completed. -/
def CallGraph.candidates (self : CallGraph) (remaining completed : List PyStr) : List CallNode :=
  self.nodes.filter fun node => node.id ∈ remaining ∧ self.dependencies node.id ⊆ completed

/-- The first candidate that is not parallelizable, or else all of them. -/
def frontier (candidates : List CallNode) : List PyStr :=
  match candidates.find? fun node => !node.parallelizable.truthy with
  | some serial => [serial.id]
  | none => candidates.map (·.id)

/-- The loop of `parallel_frontiers`. -/
def CallGraph.frontierLoop (self : CallGraph) :
    ℕ → List PyStr → List PyStr → List (List PyStr) → Option (List (List PyStr))
  | _, [], _, frontiers => some frontiers
  | 0, _ :: _, _, _ => none
  | fuel + 1, id :: ids, completed, frontiers =>
    let ready := frontier (self.candidates (id :: ids) completed)
    self.frontierLoop fuel ((id :: ids).filter (· ∉ ready)) (completed ++ ready)
      (frontiers ++ [ready])

def CallGraph.parallelFrontiers (repr : PyStr → String) (fuel : ℕ) (self : CallGraph) :
    Option (Except String (List (List PyStr))) :=
  match self.topologicalOrder repr fuel with
  | none => none
  | some (.error message) => some (.error message)
  | some (.ok order) => (self.frontierLoop fuel order.dedup [] []).map .ok

/-! ## The search for cycles -/

section Search

variable {next : PyStr → List PyStr} {search : PyStr → List PyStr → Bool × List PyStr}

/-- What a search without a cycle has done: the visited ids are in post-order, none was given up,
and those asked for are among them.  The id visited last comes first. -/
structure Explored (next : PyStr → List PyStr) (visited visited' ids : List PyStr) : Prop where
  sorted : Sorted next visited'.reverse
  kept : visited ⊆ visited'
  found : ids ⊆ visited'

theorem anyVisit_explored
    (hsearch : ∀ id visited visited', search id visited = (false, visited') →
      Sorted next visited.reverse → Explored next visited visited' [id])
    {ids visited visited' : List PyStr} (h : anyVisit search ids visited = (false, visited'))
    (hsorted : Sorted next visited.reverse) : Explored next visited visited' ids := by
  induction ids generalizing visited with
  | nil =>
    cases h
    exact ⟨hsorted, List.Subset.refl _, List.nil_subset _⟩
  | cons id ids ih =>
    rw [anyVisit] at h
    rcases hfirst : search id visited with ⟨cyclic, middle⟩
    rw [hfirst] at h
    cases cyclic with
    | true => cases h
    | false =>
      have hhead := hsearch id visited middle hfirst hsorted
      have htail := ih h hhead.sorted
      refine ⟨htail.sorted, List.Subset.trans hhead.kept htail.kept, ?_⟩
      intro other hother
      rcases List.mem_cons.1 hother with rfl | hother
      · exact htail.kept (hhead.found List.mem_cons_self)
      · exact htail.found hother

variable {byId : ById} {deps : PyStr → List PyStr}

/-- The dependencies `visit` follows. -/
def followed (byId : ById) (deps : PyStr → List PyStr) (id : PyStr) : List PyStr :=
  (deps id).filter fun dependency => (byId.lookup dependency).isSome

theorem visit_explored (fuel : ℕ) (visiting : List PyStr) (id : PyStr)
    (visited visited' : List PyStr)
    (h : visit byId deps fuel visiting id visited = (false, visited'))
    (hsorted : Sorted (followed byId deps) visited.reverse) :
    Explored (followed byId deps) visited visited' [id] := by
  induction fuel generalizing visiting id visited visited' with
  | zero => cases h
  | succ fuel ih =>
    rw [visit] at h
    split_ifs at h with hvisiting hvisited
    · cases h
    · cases h
      exact ⟨hsorted, List.Subset.refl _, by simpa using hvisited⟩
    · obtain ⟨hcyclic, rfl⟩ := Prod.mk.inj h
      have hany := anyVisit_explored (ih (id :: visiting))
        (Prod.ext hcyclic rfl : anyVisit (visit byId deps fuel (id :: visiting))
          (followed byId deps id) visited = (false, _)) hsorted
      refine ⟨?_, List.Subset.trans hany.kept (List.subset_cons_self _ _), by simp⟩
      rw [List.reverse_cons]
      exact hany.sorted.snoc fun other hother => List.mem_reverse.2 (hany.found hother)

/-- Where no cycle is reported, all ids stand in one list in post-order. -/
theorem exists_sorted_of_cycleIssues {nodes : List CallNode} (h : cycleIssues byId nodes = []) :
    ∃ visited, Sorted (followed byId (Ir.dependencies byId nodes)) visited ∧
      byId.map (·.1) ⊆ visited := by
  unfold cycleIssues at h
  dsimp only at h
  split_ifs at h with hcyclic
  have hany := anyVisit_explored (visit_explored (byId.length + 1) [])
    (Prod.ext (Bool.not_eq_true _ ▸ hcyclic) rfl : anyVisit _ (byId.map (·.1)) [] = (false, _))
    sorted_nil
  exact ⟨_, hany.sorted, fun id hid => List.mem_reverse.2 (hany.found hid)⟩

end Search

/-! ## Valid graphs -/

variable {repr : PyStr → String} {schemas : Option (List (PyStr × ToolSchema))}

theorem repair_of_node {byId : ById} {nodes : List CallNode} {index : ℕ}
    (h : nodeIssues repr schemas byId index nodes = []) {node : CallNode} (hnode : node ∈ nodes) :
    ∃ i, repairIssues repr byId i node = [] := by
  induction nodes generalizing index with
  | nil => cases hnode
  | cons head nodes ih =>
    obtain ⟨hhead, htail⟩ := List.append_eq_nil_iff.1 h
    rcases List.mem_cons.1 hnode with rfl | hnode
    · exact ⟨index, (List.append_eq_nil_iff.1 (List.append_eq_nil_iff.1 hhead).1).2⟩
    · exact ih htail hnode

/-- Without the tool schemas there are no more issues. -/
theorem nodeIssues_none {byId : ById} {nodes : List CallNode} {index : ℕ}
    (h : nodeIssues repr schemas byId index nodes = []) :
    nodeIssues repr none byId index nodes = [] := by
  induction nodes generalizing index with
  | nil => rfl
  | cons head nodes ih =>
    obtain ⟨hhead, htail⟩ := List.append_eq_nil_iff.1 h
    have hchecks := (List.append_eq_nil_iff.1 hhead).1
    rw [nodeIssues, hchecks, ih htail]
    rfl

theorem CallGraph.validate_none {self : CallGraph} (h : self.validate repr schemas = []) :
    self.validate repr none = [] := by
  obtain ⟨hindex, hcycle⟩ := List.append_eq_nil_iff.1 h
  obtain ⟨hindex, hnodes⟩ := List.append_eq_nil_iff.1 hindex
  rw [CallGraph.validate, hindex, hcycle, nodeIssues_none hnodes]
  rfl

/-- The node takes an argument from the node with the id, or repairs it. -/
def CallNode.DependsOn (node : CallNode) (id : PyStr) : Prop :=
  (∃ binding ∈ node.arguments, ∃ valueSource, binding.source = some valueSource ∧
    valueSource.nodeId = id) ∨ node.repairOf = some id

theorem CallNode.mem_named {node : CallNode} {id : PyStr} :
    id ∈ node.named ↔ node.DependsOn id := by
  simp [CallNode.named, CallNode.DependsOn]

theorem CallGraph.mem_dependencies {self : CallGraph} {id dependency : PyStr} :
    dependency ∈ self.dependencies id ↔
      ∃ node ∈ self.nodes, node.id = id ∧ node.DependsOn dependency := by
  simp [CallGraph.dependencies, CallNode.mem_named, and_assoc]

/-- What a node of a valid graph depends on is in the graph, and `validate` has seen it. -/
theorem known_of_dependsOn {byId : ById} {nodes : List CallNode}
    (hbyId : ∀ id node, byId.lookup id = some node → node.id = id) {index : ℕ}
    (h : nodeIssues repr schemas byId index nodes = []) {node : CallNode} (hnode : node ∈ nodes)
    {id : PyStr} (hid : node.DependsOn id) :
    (byId.lookup id).isSome ∧ id ∈ nodeDependencies byId node := by
  unfold nodeDependencies
  rcases hid with ⟨binding, hbinding, valueSource, hsource, rfl⟩ | hrepair
  · obtain ⟨i, harguments, -⟩ := issues_of_node h hnode
    obtain ⟨-, -, hsources⟩ := issues_of_arguments harguments
    obtain ⟨path, hpath⟩ := hsources binding hbinding
    obtain ⟨producer, -, hproducer, -⟩ := declared_of_source hsource hpath
    refine ⟨Option.isSome_of_eq_some hproducer, List.mem_append_left _ ?_⟩
    refine List.mem_filterMap.2 ⟨binding, hbinding, ?_⟩
    rw [hsource, Option.bind_some, hproducer, Option.map_some, hbyId _ _ hproducer]
  · obtain ⟨i, hissues⟩ := repair_of_node h hnode
    unfold repairIssues at hissues
    rw [hrepair] at hissues
    dsimp only at hissues
    split_ifs at hissues with hknown
    refine ⟨hknown, List.mem_append_right _ ?_⟩
    rw [hrepair, Option.filter_some, if_pos hknown]
    exact List.mem_singleton_self id

/-- What the loops rest on: the ids are distinct, dependencies are ids, and one list has every id
after its dependencies. -/
structure CallGraph.Acyclic (graph : CallGraph) : Prop where
  nodup : (graph.nodes.map (·.id)).Nodup
  closed : ∀ id, graph.dependencies id ⊆ graph.nodes.map (·.id)
  sorted : ∃ visited, Sorted graph.dependencies visited ∧ graph.nodes.map (·.id) ⊆ visited

/-- Without issues on the ids, no id is used twice. -/
theorem nodup_ids {index : ℕ} {byId : ById} {nodes : List CallNode}
    (h : indexIssues repr index byId nodes = []) :
    (nodes.map (·.id)).Nodup ∧ ∀ node ∈ nodes, byId.lookup node.id = none := by
  induction nodes generalizing index byId with
  | nil => exact ⟨List.nodup_nil, fun _ h => absurd h List.not_mem_nil⟩
  | cons head nodes ih =>
    obtain ⟨hnone, -, htail⟩ := indexIssues_cons h
    obtain ⟨hnodup, hnew⟩ := ih htail
    constructor
    · rw [List.map_cons, List.nodup_cons]
      refine ⟨?_, hnodup⟩
      intro hmem
      obtain ⟨node, hnode, hsame⟩ := List.mem_map.1 hmem
      have hfresh := hnew node hnode
      rw [List.lookup_append, hsame, List.lookup_cons_self] at hfresh
      simp at hfresh
    · intro node hnode
      rcases List.mem_cons.1 hnode with rfl | hnode
      · exact hnone
      · have hfresh := hnew node hnode
        rw [List.lookup_append, Option.or_eq_none_iff] at hfresh
        exact hfresh.1

theorem acyclic_of_valid {self : CallGraph} (h : self.validate repr schemas = []) :
    self.Acyclic := by
  obtain ⟨hindex, hcycle⟩ := List.append_eq_nil_iff.1 h
  obtain ⟨hindex, hnodes⟩ := List.append_eq_nil_iff.1 hindex
  have hbyId : ∀ id node, (byIdOf self.nodes).lookup id = some node → node.id = id :=
    fun id node hfound => (mem_byIdOf (Entries.mem_of_lookup hfound)).2
  have hknown : ∀ id, self.dependencies id ⊆
      followed (byIdOf self.nodes) (Ir.dependencies (byIdOf self.nodes) self.nodes) id := by
    intro id dependency hdependency
    obtain ⟨node, hnode, hid, hdepends⟩ := CallGraph.mem_dependencies.1 hdependency
    obtain ⟨hfound, hseen⟩ := known_of_dependsOn hbyId hnodes hnode hdepends
    refine List.mem_filter.2 ⟨List.mem_flatMap.2 ⟨node, ?_, hseen⟩, hfound⟩
    exact List.mem_filter.2 ⟨hnode, by simpa using hid⟩
  obtain ⟨visited, hsorted, hvisited⟩ := exists_sorted_of_cycleIssues hcycle
  refine ⟨(nodup_ids hindex).1, ?_, visited, hsorted.mono hknown, ?_⟩
  · intro id dependency hdependency
    have hfound := (List.mem_filter.1 (hknown id hdependency)).2
    obtain ⟨node, hnode⟩ := Option.isSome_iff_exists.1 hfound
    obtain ⟨hmem, hid⟩ := mem_byIdOf (Entries.mem_of_lookup hnode)
    exact List.mem_map.2 ⟨node, hmem, hid⟩
  · intro id hid
    obtain ⟨node, hnode, rfl⟩ := List.mem_map.1 hid
    exact hvisited (List.mem_map.2 ⟨_, Entries.mem_of_lookup (lookup_byIdOf hindex hnode), rfl⟩)

theorem CallGraph.Acyclic.ids_eq {self : CallGraph} (h : self.Acyclic) :
    self.ids = self.nodes.map (·.id) := h.nodup.dedup

/-- Among remaining ids one depends on none of them. -/
theorem CallGraph.Acyclic.exists_ready {self : CallGraph} (h : self.Acyclic) {l : List PyStr}
    (hsub : l ⊆ self.ids) (hl : l ≠ []) :
    ∃ node ∈ self.nodes, node.id ∈ l ∧ ∀ dependency ∈ self.dependencies node.id,
      dependency ∉ l := by
  rw [h.ids_eq] at hsub
  obtain ⟨visited, hsorted, hvisited⟩ := h.sorted
  obtain ⟨id, hid, hready⟩ := hsorted.exists_ready hl (List.Subset.trans hsub hvisited)
  obtain ⟨node, hnode, rfl⟩ := List.mem_map.1 (hsub hid)
  exact ⟨node, hnode, hid, hready⟩

/-! ## `topological_order` -/

theorem CallGraph.mem_ready {self : CallGraph} {remaining : List PyStr} {id : PyStr} :
    id ∈ self.ready remaining ↔ ∃ node ∈ self.nodes, node.id = id ∧ id ∈ remaining ∧
      ∀ dependency ∈ self.dependencies id, dependency ∉ remaining := by
  unfold CallGraph.ready
  rw [List.mem_map]
  constructor
  · rintro ⟨node, hnode, rfl⟩
    obtain ⟨hmem, hready⟩ := List.mem_filter.1 hnode
    exact ⟨node, hmem, rfl, of_decide_eq_true hready⟩
  · rintro ⟨node, hnode, rfl, hready⟩
    exact ⟨node, List.mem_filter.2 ⟨hnode, decide_eq_true hready⟩, rfl⟩

theorem CallGraph.Acyclic.picks_ready {self : CallGraph} (h : self.Acyclic) :
    Picks self.dependencies self.ready self.ids where
  subset l id hid := by
    obtain ⟨_, _, _, hmem, _⟩ := CallGraph.mem_ready.1 hid
    exact hmem
  nodup l := h.nodup.sublist (List.filter_sublist.map _)
  ready l id hid dependency hdependency := by
    obtain ⟨_, _, _, _, hready⟩ := CallGraph.mem_ready.1 hid
    exact hready dependency hdependency
  progress l hsub hl := by
    obtain ⟨node, hnode, hmem, hready⟩ := h.exists_ready hsub hl
    exact List.ne_nil_of_mem (CallGraph.mem_ready.2 ⟨node, hnode, rfl, hmem, hready⟩)

/-- The loop lists the layers of nodes that are ready together. -/
theorem CallGraph.orderLoop_eq (self : CallGraph) (fuel : ℕ) (remaining order : List PyStr) :
    self.orderLoop fuel remaining order =
      (layers self.ready fuel remaining).map (order ++ ·.flatten) := by
  induction fuel generalizing remaining order with
  | zero =>
    cases remaining with
    | nil => simp [CallGraph.orderLoop, layers]
    | cons id ids => rfl
  | succ fuel ih =>
    cases remaining with
    | nil => simp [CallGraph.orderLoop, layers]
    | cons id ids =>
      rw [CallGraph.orderLoop, layers, Option.map_map, ih]
      congr 1
      funext ls
      simp

/-- The order lists every id once, after the ids its nodes depend on. -/
structure CallGraph.IsOrder (graph : CallGraph) (order : List PyStr) : Prop where
  perm : order.Perm (graph.nodes.map (·.id))
  nodup : order.Nodup
  after : ∀ node ∈ graph.nodes, ∀ before after, order = before ++ node.id :: after →
    ∀ id, node.DependsOn id → id ∈ before

theorem CallGraph.Acyclic.exists_order {self : CallGraph} (h : self.Acyclic) {fuel : ℕ}
    (hfuel : self.nodes.length ≤ fuel) :
    ∃ order, self.orderLoop fuel self.ids [] = some order ∧ self.IsOrder order := by
  have hids := h.ids_eq
  have hnodup : self.ids.Nodup := List.nodup_dedup _
  obtain ⟨ls, hls⟩ := h.picks_ready.exists_layers fuel self.ids (List.Subset.refl _)
    (by rw [hids, List.length_map]; exact hfuel)
  have hperm := h.picks_ready.perm hnodup hls
  have hsorted : Sorted self.dependencies ls.flatten := by
    refine sorted_flatten ?_
    intro l₁ layer l₂ hsplit id hid dependency hdependency
    refine h.picks_ready.earlier hls hsplit hid hdependency ?_
    rw [hids]
    exact h.closed id hdependency
  refine ⟨ls.flatten, ?_, hids ▸ hperm, hperm.nodup_iff.2 hnodup, ?_⟩
  · rw [CallGraph.orderLoop_eq, hls]
    rfl
  · intro node hnode before after hsplit id hid
    exact hsorted before node.id after hsplit id
      (CallGraph.mem_dependencies.2 ⟨node, hnode, rfl, hid⟩)

/-! ## `parallel_frontiers` -/

theorem CallGraph.mem_candidates {self : CallGraph} {remaining completed : List PyStr}
    {node : CallNode} : node ∈ self.candidates remaining completed ↔
      node ∈ self.nodes ∧ node.id ∈ remaining ∧ self.dependencies node.id ⊆ completed := by
  simp [CallGraph.candidates, List.mem_filter]

theorem mem_of_mem_frontier {candidates : List CallNode} {id : PyStr}
    (h : id ∈ frontier candidates) : ∃ node ∈ candidates, node.id = id := by
  unfold frontier at h
  cases hserial : candidates.find? fun node => !node.parallelizable.truthy with
  | some serial =>
    rw [hserial] at h
    exact ⟨serial, List.mem_of_find?_eq_some hserial, (List.mem_singleton.1 h).symm⟩
  | none =>
    rw [hserial] at h
    exact List.mem_map.1 h

theorem frontier_ne_nil {candidates : List CallNode} {node : CallNode} (h : node ∈ candidates) :
    frontier candidates ≠ [] := by
  unfold frontier
  split
  · exact List.cons_ne_nil _ _
  · exact List.ne_nil_of_mem (List.mem_map_of_mem h)

theorem nodup_frontier {candidates : List CallNode} (h : (candidates.map (·.id)).Nodup) :
    (frontier candidates).Nodup := by
  unfold frontier
  split
  · exact List.nodup_singleton _
  · exact h

/-- A node that must not run beside others is alone in its frontier. -/
theorem frontier_eq_singleton {candidates : List CallNode} {node : CallNode}
    (h : node.id ∈ frontier candidates)
    (hunique : ∀ other ∈ candidates, other.id = node.id → other = node)
    (hserial : node.parallelizable.truthy = false) : frontier candidates = [node.id] := by
  obtain ⟨other, hother, hid⟩ := mem_of_mem_frontier h
  obtain rfl := hunique other hother hid
  unfold frontier at h ⊢
  cases hfind : candidates.find? fun node => !node.parallelizable.truthy with
  | some serial =>
    rw [hfind] at h
    dsimp only at h ⊢
    rw [List.mem_singleton.1 h]
  | none =>
    have hnot := List.find?_eq_none.1 hfind other hother
    rw [hserial] at hnot
    exact absurd rfl hnot

/-- The frontier among the remaining nodes, all others being completed. -/
def CallGraph.nextFrontier (self : CallGraph) (remaining : List PyStr) : List PyStr :=
  frontier (self.candidates remaining (self.ids.filter (· ∉ remaining)))

theorem CallGraph.Acyclic.picks_frontier {self : CallGraph} (h : self.Acyclic) :
    Picks self.dependencies self.nextFrontier self.ids where
  subset l id hid := by
    obtain ⟨node, hnode, rfl⟩ := mem_of_mem_frontier hid
    exact (CallGraph.mem_candidates.1 hnode).2.1
  nodup l := nodup_frontier (h.nodup.sublist (List.filter_sublist.map _))
  ready l id hid dependency hdependency := by
    obtain ⟨node, hnode, rfl⟩ := mem_of_mem_frontier hid
    have hcompleted := (CallGraph.mem_candidates.1 hnode).2.2 hdependency
    simpa using (List.mem_filter.1 hcompleted).2
  progress l hsub hl := by
    obtain ⟨node, hnode, hmem, hready⟩ := h.exists_ready hsub hl
    refine frontier_ne_nil (CallGraph.mem_candidates.2 ⟨hnode, hmem, ?_⟩)
    intro dependency hdependency
    refine List.mem_filter.2 ⟨?_, by simpa using hready dependency hdependency⟩
    rw [h.ids_eq]
    exact h.closed node.id hdependency

/-- The loop takes the frontiers as layers, while the completed nodes are those that do not
remain. -/
theorem CallGraph.Acyclic.frontierLoop_eq {self : CallGraph} (h : self.Acyclic) (fuel : ℕ)
    (remaining completed : List PyStr) (frontiers : List (List PyStr))
    (hcompleted : ∀ id ∈ self.ids, id ∈ completed ↔ id ∉ remaining) :
    self.frontierLoop fuel remaining completed frontiers =
      (layers self.nextFrontier fuel remaining).map (frontiers ++ ·) := by
  induction fuel generalizing remaining completed frontiers with
  | zero =>
    cases remaining with
    | nil => simp [CallGraph.frontierLoop, layers]
    | cons id ids => rfl
  | succ fuel ih =>
    cases remaining with
    | nil => simp [CallGraph.frontierLoop, layers]
    | cons id ids =>
      have hsame : self.candidates (id :: ids) completed =
          self.candidates (id :: ids) (self.ids.filter (· ∉ id :: ids)) := by
        apply List.filter_congr
        intro node _
        have hdependencies : self.dependencies node.id ⊆ completed ↔
            self.dependencies node.id ⊆ self.ids.filter (· ∉ id :: ids) := by
          refine forall₂_congr fun dependency hdependency => ?_
          have hknown : dependency ∈ self.ids := h.ids_eq ▸ h.closed node.id hdependency
          rw [List.mem_filter, decide_eq_true_eq, hcompleted dependency hknown]
          exact (and_iff_right hknown).symm
        simp only [hdependencies]
      rw [CallGraph.frontierLoop, layers, Option.map_map, hsame]
      rw [ih]
      · congr 1
        funext ls
        simp [CallGraph.nextFrontier]
      · intro other hother
        rw [List.mem_append, List.mem_filter, decide_eq_true_eq, hcompleted other hother]
        tauto

/-- The frontiers list every id once, in a frontier after those of the ids its nodes depend on; a
node that must not run beside others is alone. -/
structure CallGraph.IsFrontiers (graph : CallGraph) (frontiers : List (List PyStr)) : Prop where
  perm : frontiers.flatten.Perm (graph.nodes.map (·.id))
  nodup : frontiers.flatten.Nodup
  nonempty : [] ∉ frontiers
  after : ∀ node ∈ graph.nodes, ∀ before frontier after, frontiers = before ++ frontier :: after →
    node.id ∈ frontier → ∀ id, node.DependsOn id → id ∈ before.flatten
  alone : ∀ node ∈ graph.nodes, node.parallelizable.truthy = false →
    ∀ frontier ∈ frontiers, node.id ∈ frontier → frontier = [node.id]

theorem CallGraph.Acyclic.exists_frontiers {self : CallGraph} (h : self.Acyclic) {fuel : ℕ}
    (hfuel : self.nodes.length ≤ fuel) {order : List PyStr} (horder : self.IsOrder order) :
    ∃ frontiers, self.frontierLoop fuel order.dedup [] [] = some frontiers ∧
      self.IsFrontiers frontiers := by
  have hids := h.ids_eq
  have hdedup : order.dedup = order := horder.nodup.dedup
  have hperm : order.Perm self.ids := hids ▸ horder.perm
  have hlength : order.length ≤ fuel := by
    rw [horder.perm.length_eq, List.length_map]
    exact hfuel
  obtain ⟨ls, hls⟩ := h.picks_frontier.exists_layers fuel order hperm.subset hlength
  have hflat := h.picks_frontier.perm horder.nodup hls
  refine ⟨ls, ?_, hflat.trans horder.perm, hflat.nodup_iff.2 horder.nodup, ?_, ?_, ?_⟩
  · rw [hdedup, h.frontierLoop_eq, hls]
    · rfl
    · intro id hid
      simpa using hperm.mem_iff.2 hid
  · intro hmem
    obtain ⟨l₁, l₂, hsplit, -⟩ := List.eq_append_cons_of_mem hmem
    obtain ⟨hleft, hlayer⟩ := layer_eq_pick hls hsplit
    refine h.picks_frontier.progress _ ?_ hleft hlayer.symm
    exact fun id hid => hperm.subset (List.mem_of_mem_filter hid)
  · intro node hnode before frontier after hsplit hid id hdepends
    have hdependency : id ∈ self.dependencies node.id :=
      CallGraph.mem_dependencies.2 ⟨node, hnode, rfl, hdepends⟩
    refine h.picks_frontier.earlier hls hsplit hid hdependency ?_
    exact horder.perm.mem_iff.2 (h.closed node.id hdependency)
  · intro node hnode hserial frontier hfrontier hid
    obtain ⟨l₁, l₂, hsplit, -⟩ := List.eq_append_cons_of_mem hfrontier
    have hlayer := (layer_eq_pick hls hsplit).2
    rw [hlayer] at hid ⊢
    refine frontier_eq_singleton hid ?_ hserial
    intro other hother hsame
    exact List.inj_on_of_nodup_map h.nodup (CallGraph.mem_candidates.1 hother).1 hnode hsame

/-- **A graph without issues has an order and frontiers**: as many rounds as there are nodes are
enough for both, every dependency comes before its dependents, and no serial node has company. -/
theorem ordered_of_valid (repr : PyStr → String) (graph : CallGraph)
    (schemas : Option (List (PyStr × ToolSchema))) (h : graph.validate repr schemas = [])
    (fuel : ℕ) (hfuel : graph.nodes.length ≤ fuel) :
    ∃ order frontiers, graph.topologicalOrder repr fuel = some (.ok order) ∧
      graph.IsOrder order ∧ graph.parallelFrontiers repr fuel = some (.ok frontiers) ∧
      graph.IsFrontiers frontiers := by
  have hacyclic := acyclic_of_valid h
  obtain ⟨order, hloop, horder⟩ := hacyclic.exists_order hfuel
  obtain ⟨frontiers, hfrontierLoop, hfrontiers⟩ := hacyclic.exists_frontiers hfuel horder
  have htopological : graph.topologicalOrder repr fuel = some (.ok order) := by
    rw [CallGraph.topologicalOrder, CallGraph.validate_none h, if_neg (not_not_intro rfl), hloop]
    rfl
  refine ⟨order, frontiers, htopological, horder, ?_, hfrontiers⟩
  rw [CallGraph.parallelFrontiers, htopological]
  dsimp only
  rw [hfrontierLoop]
  rfl

/-- A node that must not run beside others, and two that depend on it. -/
def serialGraph : CallGraph where
  nodes := [
    { id := "b", toolId := "use", repairOf := some "a" },
    { id := "a", toolId := "lock", outputs := [("value", { jsonType := "number" })]
      parallelizable := .bool false },
    { id := "c", toolId := "use"
      arguments := [{ argument := "count", valueType := { jsonType := "number" }
                      source := some ⟨"a", "value"⟩ }] }]

theorem ordered_of_valid_serialGraph :
    serialGraph.parallelFrontiers plainRepr 3 = some (.ok [["a"], ["b", "c"]]) ∧
      ∃ order frontiers, serialGraph.topologicalOrder plainRepr 3 = some (.ok order) ∧
        serialGraph.IsOrder order ∧ serialGraph.parallelFrontiers plainRepr 3 = some (.ok frontiers) ∧
        serialGraph.IsFrontiers frontiers :=
  ⟨by decide, ordered_of_valid plainRepr serialGraph none (by decide) 3 (by decide)⟩

end AgentOrchestrator.Ir
