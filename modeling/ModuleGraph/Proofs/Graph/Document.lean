import ModuleGraph.Proofs.Graph.Representation

/-!
Documents and the graphs that they describe. A document is normal if its graph has exactly its
modules and edges, in its order. The document of a graph is normal (`isNormal_toDocument`), and a
normal document is the one of its graph (`toDocument_ofDocument`).
-/
namespace ModuleGraph

/-- The edges of one module as a document should list them: there are some, each once, and they
    join modules of the document. -/
structure ListedEdges (ids : List String) (source : String) (targets : List String) : Prop where
  ne_nil : targets ≠ []
  nodup : targets.Nodup
  source_mem : source ∈ ids
  target_mem : ∀ target ∈ targets, target ∈ ids

structure GraphDocument.IsNormal (d : GraphDocument) : Prop where
  edges : ∀ source targets, (source, targets) ∈ d.edges.entries →
    ListedEdges d.nodes.keys source targets
  nodup_externals : ∀ source names, (source, names) ∈ d.externalDependencies.entries → names.Nodup

namespace OrderedSet
variable {α : Type}

theorem toList_injective {s t : OrderedSet α} (same : s.toList = t.toList) : s = t := by
  have whole (s : OrderedSet α) : s.entries = s.toList.map (·, ()) := by
    rw [toList, OrderedMap.keys, List.map_map]
    exact (List.map_id _).symm
  exact OrderedMap.ext (by rw [whole s, whole t, same])

variable [DecidableEq α]

private theorem eraseDups_of_nodup {xs : List α} (nodup : xs.Nodup) : xs.eraseDups = xs := by
  induction xs with
  | nil => rfl
  | cons x rest ih =>
    rw [List.nodup_cons] at nodup
    have others : rest.filter (fun y => !y == x) = rest := by
      refine List.filter_eq_self.mpr fun y member => ?_
      have differ : y ≠ x := ne_of_mem_of_not_mem member nodup.1
      simpa using differ
    rw [List.eraseDups_cons, others, ih nodup.2]

theorem toList_ofList {xs : List α} (nodup : xs.Nodup) : (ofList xs).toList = xs :=
  (toList_ofList_eq xs).trans (eraseDups_of_nodup nodup)

theorem ofList_toList (s : OrderedSet α) : ofList s.toList = s :=
  toList_injective (toList_ofList s.nodup)

end OrderedSet

namespace Graph
variable {g : Graph} {d : GraphDocument} {id source target : String} {targets : List String}

/-- Edges to targets whose imports are not known. -/
def bareEdges (targets : List String) : OrderedMap String EdgeLabel :=
  .ofList (targets.map (·, .unknown))

theorem entries_bareEdges (nodup : targets.Nodup) :
    (bareEdges targets).entries = targets.map (·, .unknown) := by
  refine OrderedMap.entries_ofList ?_
  simpa [Function.comp_def] using nodup

theorem keys_bareEdges (nodup : targets.Nodup) : (bareEdges targets).keys = targets := by
  simp [OrderedMap.keys, entries_bareEdges nodup, Function.comp_def]

theorem bareEdges_keys (edges : OrderedMap String EdgeLabel) :
    bareEdges edges.keys = edges.mapValues fun _ => .unknown := by
  ext1
  rw [entries_bareEdges (show edges.keys.Nodup from edges.nodup)]
  simp [OrderedMap.keys, OrderedMap.mapValues]

theorem bareEdges_concat : bareEdges (targets ++ [target]) = (bareEdges targets).insert target .unknown := by
  simp [bareEdges, OrderedMap.ofList, OrderedMap.insertAll]

/-! ## Modules and edges one after the other -/

private theorem outgoing_addEdge (new : target ∉ g.dependencies source) (label : EdgeLabel) :
    (g.addEdge source target label).1.outgoing =
      g.outgoing.insert source ((g.edgesOf source).insert target label) := by
  rw [addEdge_of_not_mem new]
  rfl

private theorem nodes_addEdge_of_mem (sourceMem : source ∈ g.nodeIds) (targetMem : target ∈ g.nodeIds)
    (label : EdgeLabel) : (g.addEdge source target label).1.nodes = g.nodes := by
  rw [nodes_addEdge, OrderedMap.insertNew_of_mem sourceMem, OrderedMap.insertNew_of_mem targetMem]

/-- Distinct targets of a module without edges become its edges. -/
private theorem addTargets_fresh (fresh : source ∉ g.outgoing.keys)
    (listed : ListedEdges g.nodeIds source targets) :
    (g.addTargets source targets).nodes = g.nodes ∧
      (g.addTargets source targets).outgoing = g.outgoing.insert source (bareEdges targets) := by
  obtain ⟨some, nodup, sourceMem, targetMem⟩ := listed
  -- The first target alone makes the entry of the source; before it there is none.
  suffices built : (g.addTargets source targets).nodes = g.nodes ∧ (targets ≠ [] →
      (g.addTargets source targets).outgoing = g.outgoing.insert source (bareEdges targets)) from
    ⟨built.1, built.2 some⟩
  clear some
  induction targets using List.reverseRecOn with
  | nil => exact ⟨rfl, fun some => absurd rfl some⟩
  | append_singleton front last ih =>
    obtain ⟨frontNodup, -, apart⟩ := List.nodup_append.mp nodup
    obtain ⟨nodes, outgoing⟩ := ih frontNodup fun target member =>
      targetMem target (List.mem_append_left _ member)
    have step : g.addTargets source (front ++ [last]) =
        ((g.addTargets source front).addEdge source last .unknown).1 := by
      simp [addTargets, List.foldl_append]
    have edges : (g.addTargets source front).edgesOf source = bareEdges front := by
      by_cases none : front = []
      · subst none
        simp [addTargets, edgesOf, OrderedMap.getD, OrderedMap.get?_eq_none_iff.mpr fresh, bareEdges,
          OrderedMap.ofList, OrderedMap.insertAll]
      · rw [edgesOf, OrderedMap.getD, outgoing none, OrderedMap.get?_insert_self]
        rfl
    have new : last ∉ (g.addTargets source front).dependencies source := by
      rw [dependencies, edges, keys_bareEdges frontNodup]
      exact fun member => apart last member last List.mem_cons_self rfl
    rw [step, bareEdges_concat]
    refine ⟨?_, fun _ => ?_⟩
    · rw [nodes_addEdge_of_mem]
      · exact nodes
      · simpa only [nodeIds, nodes] using sourceMem
      · simpa only [nodeIds, nodes] using targetMem last (by simp)
    · rw [outgoing_addEdge new, edges]
      by_cases none : front = []
      · subst none
        rfl
      · rw [outgoing none, OrderedMap.insert_insert]

private theorem foldl_addTargets (entries : List (String × List String)) (g : Graph)
    (distinct : (entries.map Prod.fst).Nodup)
    (fresh : ∀ source ∈ entries.map Prod.fst, source ∉ g.outgoing.keys)
    (listed : ∀ source targets, (source, targets) ∈ entries → ListedEdges g.nodeIds source targets) :
    let built := entries.foldl (fun g (source, targets) => g.addTargets source targets) g
    built.nodes = g.nodes ∧
      built.outgoing = g.outgoing.insertAll (entries.map fun (source, targets) => (source, bareEdges targets)) := by
  induction entries generalizing g with
  | nil => exact ⟨rfl, rfl⟩
  | cons entry rest ih =>
    obtain ⟨source, targets⟩ := entry
    obtain ⟨nodes, outgoing⟩ :=
      addTargets_fresh (fresh source (by simp)) (listed source targets List.mem_cons_self)
    rw [List.map_cons, List.nodup_cons] at distinct
    have later := ih (g.addTargets source targets) distinct.2
    simp only [nodeIds, nodes, outgoing] at later
    exact later
      (fun other member known => by
        rcases OrderedMap.mem_keys_insert.mp known with same | old
        · exact distinct.1 (same ▸ member)
        · exact fresh other (List.mem_cons_of_mem _ member) old)
      fun source targets member => listed source targets (List.mem_cons_of_mem _ member)

private theorem foldl_addNode (entries : List (String × ModuleInfo)) (g : Graph)
    (distinct : (entries.map Prod.fst).Nodup)
    (fresh : ∀ id ∈ entries.map Prod.fst, id ∉ g.nodes.keys) :
    entries.foldl (fun g (id, info) => g.addNode id info) g =
      { g with nodes := g.nodes.insertAll entries } := by
  induction entries generalizing g with
  | nil => rfl
  | cons entry rest ih =>
    obtain ⟨id, info⟩ := entry
    rw [List.map_cons, List.nodup_cons] at distinct
    have first : g.addNode id info = { g with nodes := g.nodes.insert id info } := by
      rw [addNode, OrderedMap.insertNew_of_not_mem (fresh id (by simp))]
    change rest.foldl _ (g.addNode id info) = _
    rw [first, ih _ distinct.2]
    · rfl
    · intro other member known
      rcases OrderedMap.mem_keys_insert.mp known with same | old
      · exact distinct.1 (same ▸ member)
      · exact fresh other (List.mem_cons_of_mem _ member) old

/-! ## Normal documents -/

/-- The graph of a normal document has its modules and edges. -/
theorem ofDocument_of_isNormal (normal : d.IsNormal) :
    (ofDocument d).nodes = d.nodes ∧ (ofDocument d).outgoing = d.edges.mapValues bareEdges := by
  have modules := foldl_addNode d.nodes.entries empty d.nodes.nodup fun _ _ => List.not_mem_nil
  have nodes : OrderedMap.insertAll (Graph.nodes empty) d.nodes.entries = d.nodes :=
    OrderedMap.insertAll_entries
  rw [nodes] at modules
  have edges := foldl_addTargets d.edges.entries { empty with nodes := d.nodes } d.edges.nodup
    (fun _ _ => List.not_mem_nil) normal.edges
  rw [← modules] at edges
  refine ⟨edges.1.trans (by rw [modules]), edges.2.trans ?_⟩
  rw [modules]
  exact OrderedMap.insertAll_entries (m := d.edges.mapValues bareEdges)

theorem edgesOf_ofDocument (normal : d.IsNormal) (id : String) :
    (ofDocument d).edgesOf id = bareEdges (d.edges.getD id []) := by
  rw [edgesOf, OrderedMap.getD, (ofDocument_of_isNormal normal).2, OrderedMap.get?_mapValues,
    OrderedMap.getD]
  cases d.edges.get? id <;> rfl

/-- A normal document is the document of its graph. -/
theorem toDocument_ofDocument (normal : d.IsNormal) : (ofDocument d).toDocument = d := by
  obtain ⟨nodes, outgoing⟩ := ofDocument_of_isNormal normal
  have edges : ((ofDocument d).outgoing.filter (·.2.size ≠ 0)).mapValues (·.keys) = d.edges := by
    have listed : ∀ source edges, (source, edges) ∈ (ofDocument d).outgoing.entries →
        ∃ targets, (source, targets) ∈ d.edges.entries ∧ bareEdges targets = edges := by
      intro source edges member
      rw [outgoing] at member
      obtain ⟨⟨id, targets⟩, inside, same⟩ := List.mem_map.mp member
      cases same
      exact ⟨targets, inside, rfl⟩
    rw [OrderedMap.filter_eq_self, outgoing, OrderedMap.mapValues_mapValues]
    · refine (OrderedMap.mapValues_congr fun source targets member => ?_).trans (OrderedMap.mapValues_id _)
      exact keys_bareEdges (normal.edges source targets member).nodup
    · rintro ⟨source, edges⟩ member
      obtain ⟨targets, inside, rfl⟩ := listed source edges member
      obtain ⟨some, nodup, -⟩ := normal.edges source targets inside
      rw [← keys_bareEdges nodup, ne_eq,
        OrderedMap.keys_eq_nil_iff] at some
      simpa using some
  have externals : (d.externalDependencies.mapValues OrderedSet.ofList).mapValues (·.toList) =
      d.externalDependencies := by
    rw [OrderedMap.mapValues_mapValues]
    refine (OrderedMap.mapValues_congr fun source names member => ?_).trans (OrderedMap.mapValues_id _)
    exact OrderedSet.toList_ofList (normal.nodup_externals source names member)
  cases d
  simp only [toDocument, GraphDocument.mk.injEq]
  exact ⟨nodes, edges, rfl, externals⟩

/-! ## The document of a graph -/

/-- The document of a graph lists what a module imports, if anything. -/
theorem edges_toDocument (g : Graph) (id : String) :
    g.toDocument.edges.getD id [] = g.dependencies id := by
  rw [OrderedMap.getD, toDocument, OrderedMap.get?_mapValues, OrderedMap.get?_filter, dependencies,
    edgesOf, OrderedMap.getD]
  cases g.outgoing.get? id with
  | none => rfl
  | some edges =>
    by_cases none : edges.size = 0
    · simp [Option.filter, none, OrderedMap.keys_eq_nil_iff.mpr none]
    · simp [Option.filter, none]

theorem mem_edges_toDocument (listed : (source, targets) ∈ g.toDocument.edges.entries) :
    targets ≠ [] ∧ targets = g.dependencies source := by
  have found : g.toDocument.edges.get? source = some targets := OrderedMap.mem_entries_iff.mp listed
  refine ⟨?_, by rw [← edges_toDocument, OrderedMap.getD, found]; rfl⟩
  obtain ⟨⟨id, edges⟩, inside, same⟩ := List.mem_map.mp listed
  cases same
  have some : edges.size ≠ 0 := by simpa using (List.mem_filter.mp inside).2
  rwa [ne_eq, OrderedMap.keys_eq_nil_iff]

theorem WellIndexed.isNormal_toDocument (ok : g.WellIndexed) : g.toDocument.IsNormal where
  edges source targets listed := by
    obtain ⟨some, rfl⟩ := mem_edges_toDocument listed
    obtain ⟨first, member⟩ := List.exists_mem_of_ne_nil _ some
    exact ⟨some, ok.nodup_dependencies source, ok.source_mem source first member,
      fun target => ok.target_mem source target⟩
  nodup_externals source names listed := by
    obtain ⟨⟨id, external⟩, -, same⟩ := List.mem_map.mp listed
    cases same
    exact external.nodup

end Graph
end ModuleGraph
