import ModuleGraph.Graph.Basic
import ModuleGraph.Proofs.OrderedMap

/-!
What each addition does to the modules, edges and dependents of a graph. An edge that is there
changes nothing but the modules at its ends; a new one is the last edge of its source, and its source
is the last dependent of its target.
-/
namespace ModuleGraph.Graph
variable {g : Graph} {id source target other name : String} {info : ModuleInfo} {label : EdgeLabel}

theorem hasEdge_iff : g.hasEdge source target = true ↔ target ∈ g.dependencies source :=
  OrderedMap.contains_iff

/-! ## Modules and records -/

@[simp] theorem nodes_addNode : (g.addNode id info).nodes = g.nodes.insertNew id info := rfl
@[simp] theorem edgesOf_addNode : (g.addNode id info).edgesOf other = g.edgesOf other := rfl
@[simp] theorem dependencies_addNode : (g.addNode id info).dependencies other = g.dependencies other := rfl
@[simp] theorem dependents_addNode : (g.addNode id info).dependents other = g.dependents other := rfl

theorem mem_nodeIds_addNode : other ∈ (g.addNode id info).nodeIds ↔ other = id ∨ other ∈ g.nodeIds :=
  OrderedMap.mem_keys_insertNew

theorem addNode_of_mem (known : id ∈ g.nodeIds) : g.addNode id info = g := by
  unfold addNode
  rw [OrderedMap.insertNew_of_mem known]

theorem nodeIds_addNode_of_not_mem (fresh : id ∉ g.nodeIds) :
    (g.addNode id info).nodeIds = g.nodeIds ++ [id] := by
  unfold nodeIds at fresh ⊢
  rw [nodes_addNode, OrderedMap.insertNew_of_not_mem fresh, OrderedMap.keys_insert_of_not_mem fresh]

/-! ## Edges -/

/-- The modules at the ends of an edge come before the edge. -/
def addEnds (g : Graph) (source target : String) : Graph := (g.addNode source .bare).addNode target .bare

@[simp] theorem edgesOf_addEnds : (g.addEnds source target).edgesOf other = g.edgesOf other := rfl
@[simp] theorem dependencies_addEnds :
    (g.addEnds source target).dependencies other = g.dependencies other := rfl
@[simp] theorem dependents_addEnds : (g.addEnds source target).dependents other = g.dependents other := rfl

theorem mem_nodeIds_addEnds :
    other ∈ (g.addEnds source target).nodeIds ↔ other = target ∨ other = source ∨ other ∈ g.nodeIds := by
  unfold addEnds
  rw [mem_nodeIds_addNode, mem_nodeIds_addNode]

/-- The graph with one more edge, between modules that are there. -/
def linkEnds (g : Graph) (source target : String) (label : EdgeLabel) : Graph :=
  { g with
    outgoing := g.outgoing.insert source ((g.edgesOf source).insert target label)
    incoming := g.incoming.insert target (g.dependents target ++ [source]) }

theorem addEdge_of_mem (known : target ∈ g.dependencies source) :
    g.addEdge source target label = (g.addEnds source target, false) :=
  if_pos (hasEdge_iff.mpr known)

theorem addEdge_of_not_mem (new : target ∉ g.dependencies source) :
    g.addEdge source target label = ((g.addEnds source target).linkEnds source target label, true) :=
  if_neg fun known => new (hasEdge_iff.mp known)

theorem addEdge_snd : (g.addEdge source target label).2 = true ↔ target ∉ g.dependencies source := by
  by_cases known : target ∈ g.dependencies source
  · simp [addEdge_of_mem known, known]
  · simp [addEdge_of_not_mem known, known]

@[simp] theorem nodes_linkEnds : (g.linkEnds source target label).nodes = g.nodes := rfl
@[simp] theorem nodeIds_linkEnds : (g.linkEnds source target label).nodeIds = g.nodeIds := rfl

theorem edgesOf_linkEnds :
    (g.linkEnds source target label).edgesOf id =
      if id = source then (g.edgesOf source).insert target label else g.edgesOf id := by
  simp only [edgesOf, linkEnds, OrderedMap.getD, OrderedMap.get?_insert]
  by_cases same : source = id
  · simp [same]
  · simp [same, Ne.symm same]

theorem dependents_linkEnds :
    (g.linkEnds source target label).dependents id =
      if id = target then g.dependents target ++ [source] else g.dependents id := by
  simp only [dependents, linkEnds, OrderedMap.getD, OrderedMap.get?_insert]
  by_cases same : target = id
  · simp [same]
  · simp [same, Ne.symm same]

theorem nodes_addEdge :
    (g.addEdge source target label).1.nodes =
      (g.nodes.insertNew source .bare).insertNew target .bare := by
  by_cases known : target ∈ g.dependencies source
  · rw [addEdge_of_mem known]
    rfl
  · rw [addEdge_of_not_mem known]
    rfl

theorem edgesOf_addEdge :
    (g.addEdge source target label).1.edgesOf id =
      if id = source then (g.edgesOf source).insertNew target label else g.edgesOf id := by
  by_cases known : target ∈ g.dependencies source
  · rw [addEdge_of_mem known, edgesOf_addEnds, OrderedMap.insertNew_of_mem known]
    by_cases same : id = source
    · rw [if_pos same, same]
    · rw [if_neg same]
  · rw [addEdge_of_not_mem known, edgesOf_linkEnds, OrderedMap.insertNew_of_not_mem known]
    rfl

/-! ## Numbers of edges -/

private theorem total_put {β : Type} (size : β → Nat) (key : String) (value : β)
    (pairs : List (String × β)) :
    total ((OrderedMap.put key value pairs).map (size ·.2)) + ((OrderedMap.find key pairs).map size).getD 0 =
      total (pairs.map (size ·.2)) + size value := by
  induction pairs with
  | nil => simp [OrderedMap.put, OrderedMap.find]
  | cons head rest ih =>
    obtain ⟨k, v⟩ := head
    by_cases same : k = key
    · simp [OrderedMap.put, OrderedMap.find, same]
      omega
    · simp only [OrderedMap.put, OrderedMap.find, same, if_false, List.map_cons, total_cons]
      omega

private theorem edgeCount_eq (g : Graph) : g.edgeCount = total (g.outgoing.entries.map (·.2.size)) := by
  simp [edgeCount, OrderedMap.values, List.map_map, Function.comp_def]

@[simp] theorem edgeCount_addNode : (g.addNode id info).edgeCount = g.edgeCount := rfl
@[simp] theorem edgeCount_addEnds : (g.addEnds source target).edgeCount = g.edgeCount := rfl

theorem edgeCount_linkEnds (new : target ∉ g.dependencies source) :
    (g.linkEnds source target label).edgeCount = g.edgeCount + 1 := by
  have grown : ((g.edgesOf source).insert target label).size = (g.edgesOf source).size + 1 := by
    simp [OrderedMap.size, OrderedMap.entries_insert_of_not_mem new]
  have counted := total_put OrderedMap.size source ((g.edgesOf source).insert target label)
    g.outgoing.entries
  have before : ((OrderedMap.find source g.outgoing.entries).map OrderedMap.size).getD 0 =
      (g.edgesOf source).size := by
    simp only [edgesOf, OrderedMap.getD, OrderedMap.get?]
    cases OrderedMap.find source g.outgoing.entries <;> rfl
  rw [before, grown] at counted
  rw [edgeCount_eq, edgeCount_eq]
  change total ((OrderedMap.put source _ g.outgoing.entries).map (·.2.size)) = _
  omega

end ModuleGraph.Graph
