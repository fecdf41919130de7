import ModuleGraph.Proofs.Graph.History

/-!
The representation of a graph. The index of dependents is the exact inverse of the edges, the ends of
every edge are modules, and the number of edges can be counted from either side (`WellIndexed`).
What is known of a module or an edge is what the first addition that named it said (`Recalls`), and
additions only ever append (`Extends`).
-/
namespace ModuleGraph.Graph
variable {g : Graph} {past : List GraphAddition}

/-- The index of dependents agrees with the edges, and both with the modules. -/
structure WellIndexed (g : Graph) : Prop where
  mem_dependents_iff : ∀ source target, source ∈ g.dependents target ↔ target ∈ g.dependencies source
  nodup_dependencies : ∀ source, (g.dependencies source).Nodup
  nodup_dependents : ∀ target, (g.dependents target).Nodup
  source_mem : ∀ source target, target ∈ g.dependencies source → source ∈ g.nodeIds
  target_mem : ∀ source target, target ∈ g.dependencies source → target ∈ g.nodeIds
  edgeCount_eq : g.edgeCount = total (g.nodeIds.map fun id => (g.dependents id).length)

/-- Modules and edges carry what the first of some additions that named them said, and there are no
    others. -/
structure Recalls (g : Graph) (past : List GraphAddition) : Prop where
  node : ∀ id, g.nodes.get? id = (past.flatMap (·.modules)).lookup id
  edge : ∀ source target,
    (g.edgesOf source).get? target = (past.flatMap (·.edges)).lookup (source, target)

/-- All that is in one graph is in another one, in the same order and before anything else. -/
structure Extends (old new : Graph) : Prop where
  nodes : old.nodes.entries <+: new.nodes.entries
  sources : old.outgoing.keys <+: new.outgoing.keys
  edges : ∀ id, (old.edgesOf id).entries <+: (new.edgesOf id).entries
  dependents : ∀ id, old.dependents id <+: new.dependents id

/-! ## The index of dependents -/

private theorem wellIndexed_empty : WellIndexed empty where
  mem_dependents_iff _ _ := by simp [dependents, dependencies, edgesOf, OrderedMap.getD, empty,
    OrderedMap.keys, OrderedMap.empty, OrderedMap.get?, OrderedMap.find]
  nodup_dependencies _ := .nil
  nodup_dependents _ := .nil
  source_mem _ _ edge := absurd edge List.not_mem_nil
  target_mem _ _ edge := absurd edge List.not_mem_nil
  edgeCount_eq := rfl

theorem WellIndexed.dependents_eq_nil (ok : g.WellIndexed) {id : String} (unknown : id ∉ g.nodeIds) :
    g.dependents id = [] := by
  refine List.eq_nil_iff_forall_not_mem.mpr fun source dependent => unknown ?_
  exact ok.target_mem source id ((ok.mem_dependents_iff source id).mp dependent)

theorem WellIndexed.addNode (ok : g.WellIndexed) (id : String) (info : ModuleInfo) :
    (g.addNode id info).WellIndexed := by
  refine ⟨ok.mem_dependents_iff, ok.nodup_dependencies, ok.nodup_dependents,
    fun source target edge => ?_, fun source target edge => ?_, ?_⟩
  · exact mem_nodeIds_addNode.mpr (.inr (ok.source_mem source target edge))
  · exact mem_nodeIds_addNode.mpr (.inr (ok.target_mem source target edge))
  · by_cases known : id ∈ g.nodeIds
    · rw [addNode_of_mem known]
      exact ok.edgeCount_eq
    · have counted := ok.edgeCount_eq
      simp only [nodeIds_addNode_of_not_mem known, edgeCount_addNode, dependents_addNode,
        List.map_append, total_append, List.map_cons, List.map_nil, total_cons, total_nil,
        ok.dependents_eq_nil known, List.length_nil]
      omega

theorem WellIndexed.addEnds (ok : g.WellIndexed) (source target : String) :
    (g.addEnds source target).WellIndexed := (ok.addNode source .bare).addNode target .bare

/-- A new edge between modules that are there adds its source to the dependents of its target. -/
theorem WellIndexed.linkEnds (ok : g.WellIndexed) {source target : String} (label : EdgeLabel)
    (sourceMem : source ∈ g.nodeIds) (targetMem : target ∈ g.nodeIds)
    (new : target ∉ g.dependencies source) : (g.linkEnds source target label).WellIndexed := by
  have targets : ∀ id other, other ∈ (g.linkEnds source target label).dependencies id ↔
      other ∈ g.dependencies id ∨ id = source ∧ other = target := by
    intro id other
    unfold dependencies
    rw [edgesOf_linkEnds]
    by_cases same : id = source
    · rw [if_pos same, OrderedMap.mem_keys_insert, same, or_comm]
      simp
    · simp [same]
  have fresh : source ∉ g.dependents target := fun dependent =>
    new ((ok.mem_dependents_iff source target).mp dependent)
  refine ⟨fun id other => ?_, fun id => (OrderedMap.nodup _), fun id => ?_, fun id other edge => ?_,
    fun id other edge => ?_, ?_⟩
  · rw [targets, dependents_linkEnds, ← ok.mem_dependents_iff]
    by_cases same : other = target
    · subst same
      simp
    · simp [same]
  · rw [dependents_linkEnds]
    by_cases same : id = target
    · rw [if_pos same, List.nodup_append]
      refine ⟨ok.nodup_dependents target, by simp, ?_⟩
      intro old inside last only equal
      rw [List.mem_singleton.mp only] at equal
      exact fresh (equal ▸ inside)
    · rw [if_neg same]
      exact ok.nodup_dependents id
  · rcases (targets id other).mp edge with old | ⟨rfl, -⟩
    · exact ok.source_mem id other old
    · exact sourceMem
  · rcases (targets id other).mp edge with old | ⟨-, rfl⟩
    · exact ok.target_mem id other old
    · exact targetMem
  · rw [edgeCount_linkEnds new, ok.edgeCount_eq, nodeIds_linkEnds]
    refine (total_map_grow (OrderedMap.nodup _) targetMem ?_ fun id _ differ => ?_).symm
    · rw [dependents_linkEnds, if_pos rfl, List.length_append]
      rfl
    · rw [dependents_linkEnds, if_neg differ]

theorem WellIndexed.addEdge (ok : g.WellIndexed) (source target : String) (label : EdgeLabel) :
    (g.addEdge source target label).1.WellIndexed := by
  have ends := ok.addEnds source target
  by_cases known : target ∈ g.dependencies source
  · rw [addEdge_of_mem known]
    exact ends
  · rw [addEdge_of_not_mem known]
    refine ends.linkEnds label ?_ ?_ known
    · exact mem_nodeIds_addEnds.mpr (.inr (.inl rfl))
    · exact mem_nodeIds_addEnds.mpr (.inl rfl)

/-- Records of imports without a file are no part of the index. -/
theorem WellIndexed.withRecords (ok : g.WellIndexed) (unresolved : OrderedMap String (List String))
    (external : OrderedMap String (OrderedSet String)) :
    { g with unresolvedImports := unresolved, externalImports := external }.WellIndexed :=
  ⟨ok.mem_dependents_iff, ok.nodup_dependencies, ok.nodup_dependents, ok.source_mem, ok.target_mem,
    ok.edgeCount_eq⟩

theorem WellIndexed.add (ok : g.WellIndexed) (addition : GraphAddition) :
    (g.add addition).WellIndexed := by
  cases addition with
  | node id info => exact ok.addNode id info
  | edge source target label => exact ok.addEdge source target label
  | unresolved source name => exact ok.withRecords _ _
  | external source name => exact ok.withRecords _ _

theorem WellIndexed.addAll (ok : g.WellIndexed) (additions : List GraphAddition) :
    (g.addAll additions).WellIndexed := by
  induction additions generalizing g with
  | nil => exact ok
  | cons addition rest ih => exact ih (ok.add addition)

theorem wellIndexed_ofDocument (d : GraphDocument) : (ofDocument d).WellIndexed := by
  rw [ofDocument_additions]
  exact (wellIndexed_empty.addAll d.additions).withRecords _ _

theorem wellIndexed_ofChanges (changes : List GraphChange) : (ofChanges changes).WellIndexed :=
  ofChanges_induction (P := fun g _ => g.WellIndexed) wellIndexed_empty
    (fun _ _ addition ok => ok.add addition) wellIndexed_ofDocument changes

/-! ## What is known of modules and edges -/

private theorem recalls_empty : Recalls empty [] := ⟨fun _ => rfl, fun _ _ => rfl⟩

/-- An addition that names no module and no edge makes nothing known. -/
theorem Recalls.withRecords (recalled : g.Recalls past) {addition : GraphAddition}
    (noModules : addition.modules = []) (noEdges : addition.edges = [])
    (unresolved : OrderedMap String (List String)) (external : OrderedMap String (OrderedSet String)) :
    { g with unresolvedImports := unresolved, externalImports := external }.Recalls
      (past ++ [addition]) := by
  refine ⟨fun id => ?_, fun source target => ?_⟩
  · rw [List.flatMap_append, List.flatMap_singleton, noModules, List.append_nil]
    exact recalled.node id
  · rw [List.flatMap_append, List.flatMap_singleton, noEdges, List.append_nil]
    exact recalled.edge source target

theorem Recalls.add (recalled : g.Recalls past) (addition : GraphAddition) :
    (g.add addition).Recalls (past ++ [addition]) := by
  cases addition with
  | node id info =>
    refine ⟨fun other => ?_, fun source target => ?_⟩
    · rw [Graph.add, nodes_addNode, OrderedMap.get?_insertNew, recalled.node, List.flatMap_append,
        List.lookup_append]
      by_cases same : id = other
      · simp [GraphAddition.modules, same]
      · simp [GraphAddition.modules, List.lookup_cons, same, beq_false_of_ne (Ne.symm same)]
    · rw [Graph.add, edgesOf_addNode, recalled.edge, List.flatMap_append]
      simp [GraphAddition.edges]
  | edge source target label =>
    refine ⟨fun other => ?_, fun id other => ?_⟩
    · rw [Graph.add, nodes_addEdge, OrderedMap.get?_insertNew, OrderedMap.get?_insertNew,
        recalled.node, List.flatMap_append, List.lookup_append, Option.or_assoc]
      by_cases first : source = other
      · simp [GraphAddition.modules, first]
      · by_cases second : target = other
        · simp [GraphAddition.modules, List.lookup_cons, first, second, beq_false_of_ne (Ne.symm first)]
        · simp [GraphAddition.modules, List.lookup_cons, first, second, beq_false_of_ne (Ne.symm first),
            beq_false_of_ne (Ne.symm second)]
    · rw [Graph.add, edgesOf_addEdge, List.flatMap_append, List.lookup_append, ← recalled.edge]
      by_cases same : id = source
      · subst same
        rw [if_pos rfl, OrderedMap.get?_insertNew]
        by_cases here : target = other
        · simp [GraphAddition.edges, here]
        · have differ : ((id, other) == (id, target)) = false := by simpa using Ne.symm here
          simp [GraphAddition.edges, List.lookup_cons, here, differ]
      · have differ : ((id, other) == (source, target)) = false := by
          simp [same]
        simp [GraphAddition.edges, List.lookup_cons, same, differ]
  | unresolved source name => exact recalled.withRecords rfl rfl _ _
  | external source name => exact recalled.withRecords rfl rfl _ _

theorem Recalls.addAll (recalled : g.Recalls past) (additions : List GraphAddition) :
    (g.addAll additions).Recalls (past ++ additions) := by
  induction additions generalizing g past with
  | nil => simpa using recalled
  | cons addition rest ih => simpa using ih (recalled.add addition)

theorem recalls_ofDocument (d : GraphDocument) : (ofDocument d).Recalls d.additions := by
  have recalled := recalls_empty.addAll d.additions
  rw [ofDocument_additions]
  exact ⟨recalled.node, recalled.edge⟩

theorem recalls_ofChanges (changes : List GraphChange) :
    (ofChanges changes).Recalls (history changes) :=
  ofChanges_induction (P := Recalls) recalls_empty (fun _ _ addition ok => ok.add addition)
    recalls_ofDocument changes

/-! ## Additions append -/

theorem Extends.refl (g : Graph) : g.Extends g :=
  ⟨List.prefix_rfl, List.prefix_rfl, fun _ => List.prefix_rfl, fun _ => List.prefix_rfl⟩

theorem Extends.trans {first second third : Graph} (front : first.Extends second)
    (back : second.Extends third) : first.Extends third where
  nodes := front.nodes.trans back.nodes
  sources := front.sources.trans back.sources
  edges id := (front.edges id).trans (back.edges id)
  dependents id := (front.dependents id).trans (back.dependents id)

theorem extends_addNode (id : String) (info : ModuleInfo) : g.Extends (g.addNode id info) :=
  { Extends.refl g with nodes := OrderedMap.entries_prefix_insertNew }

theorem extends_linkEnds {source target : String} (label : EdgeLabel)
    (new : target ∉ g.dependencies source) : g.Extends (g.linkEnds source target label) where
  nodes := List.prefix_rfl
  sources := OrderedMap.keys_prefix_insert
  edges id := by
    rw [edgesOf_linkEnds]
    by_cases same : id = source
    · rw [if_pos same, OrderedMap.entries_insert_of_not_mem new, same]
      exact List.prefix_append _ _
    · simp only [if_neg same, List.prefix_rfl]
  dependents id := by
    rw [dependents_linkEnds]
    by_cases same : id = target
    · rw [if_pos same, same]
      exact List.prefix_append _ _
    · simp only [if_neg same, List.prefix_rfl]

theorem extends_addEdge (source target : String) (label : EdgeLabel) :
    g.Extends (g.addEdge source target label).1 := by
  have ends : g.Extends (g.addEnds source target) :=
    (extends_addNode source .bare).trans (extends_addNode target .bare)
  by_cases known : target ∈ g.dependencies source
  · rw [addEdge_of_mem known]
    exact ends
  · rw [addEdge_of_not_mem known]
    exact ends.trans (extends_linkEnds label known)

theorem extends_add (addition : GraphAddition) : g.Extends (g.add addition) := by
  cases addition with
  | node id info => exact extends_addNode id info
  | edge source target label => exact extends_addEdge source target label
  | unresolved source name => exact { Extends.refl g with }
  | external source name => exact { Extends.refl g with }

/-- However a graph came about: its index of dependents is the inverse of its edges, its modules and
    edges are those that its history names, with what was said of them first, and the next addition
    leaves them all where they are. An edge is reported as new exactly if it is. -/
theorem ofChanges_represented (changes : List GraphChange) :
    (ofChanges changes).WellIndexed ∧ (ofChanges changes).Recalls (history changes) ∧
      (∀ source target label, ((ofChanges changes).addEdge source target label).2 = true ↔
        target ∉ (ofChanges changes).dependencies source) ∧
      ∀ addition, (ofChanges changes).Extends ((ofChanges changes).add addition) :=
  ⟨wellIndexed_ofChanges changes, recalls_ofChanges changes, fun _ _ _ => addEdge_snd, extends_add⟩

end ModuleGraph.Graph
