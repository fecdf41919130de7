import ModuleGraph.Graph.Component
import ModuleGraph.Graph.Closure
import ModuleGraph.Graph.Summary
import ModuleGraph.Proofs.Graph.Document
import ModuleGraph.Snapshot.Dependency

/-!
Graphs that no analysis tells apart. The answers rest on the modules, on the targets of their edges
in order, and on the number of dependents alone (`Resembles`); neither the labels of edges nor the
order of dependents matters. A graph that is written and loaded again resembles the first one.
-/
namespace ModuleGraph

/-- Two graphs with the same modules, edges and records, all in the same order. Dependents may come
    in any order, and labels are free. -/
structure Graph.Resembles (g h : Graph) : Prop where
  nodes : g.nodes = h.nodes
  dependencies : ∀ id, g.dependencies id = h.dependencies id
  dependents : ∀ id, (g.dependents id).Perm (h.dependents id)
  unresolvedImports : g.unresolvedImports = h.unresolvedImports
  externalImports : g.externalImports = h.externalImports

/-- Two graphs for which all analyses give the same answers. -/
structure Graph.SameAnswers (g h : Graph) : Prop where
  nodeIds : g.nodeIds = h.nodeIds
  scannedModules : g.scannedModules = h.scannedModules
  unresolvedOf : ∀ id, g.unresolvedOf id = h.unresolvedOf id
  externalOf? : ∀ id, g.externalOf? id = h.externalOf? id
  findCycles : g.findCycles = h.findCycles
  transitiveDependencies : ∀ id, g.transitiveDependencies id = h.transitiveDependencies id
  tangledGroups : g.tangledGroups = h.tangledGroups
  rank : ∀ key limit, g.rank key limit = h.rank key limit
  snapshot : DependencySnapshot.ofGraph g = .ofGraph h
  summary : ∀ top, Summary.ofGraph g top = Summary.ofGraph h top

variable {g h : Graph}

/-! ## The traversals -/

private theorem CycleSearch.step_congr (same : ∀ id, g.dependencies id = h.dependencies id)
    (s : CycleSearch) : s.step g = s.step h := by
  simp only [step, same]

private theorem CycleSearch.run_congr (same : ∀ id, g.dependencies id = h.dependencies id)
    (s : CycleSearch) : s.run g = s.run h := by
  fun_induction CycleSearch.run g s with
  | case1 s stuck =>
    rw [step_congr same] at stuck
    rw [run]
    split
    · rfl
    · rename_i stepped
      cases stuck.symm.trans stepped
  | case2 s t stepped ih =>
    rw [step_congr same] at stepped
    rw [ih, run.eq_def h s]
    split
    · rename_i stuck
      cases stepped.symm.trans stuck
    · rename_i other
      cases stepped.symm.trans other
      rfl

namespace Graph

private theorem reachFrom_congr (same : ∀ id, g.dependencies id = h.dependencies id)
    (stack expanded : List String) (reached : OrderedSet String) :
    g.reachFrom stack expanded reached = h.reachFrom stack expanded reached := by
  fun_induction reachFrom g stack expanded reached with
  | case1 expanded reached => rw [reachFrom]
  | case2 expanded reached node rest known ih =>
    conv_rhs => rw [reachFrom]
    rw [ih, if_pos known]
  | case3 expanded reached node rest unseen fresh ih =>
    conv_rhs => rw [reachFrom]
    rw [ih, if_neg unseen]
    simp only [fresh, same]

namespace Resembles

theorem nodeIds (same : g.Resembles h) : g.nodeIds = h.nodeIds := by
  rw [Graph.nodeIds, Graph.nodeIds, same.nodes]

theorem reach (same : g.Resembles h) : g.reach = h.reach := by
  simp only [Graph.reach, directReach, nodeCount, same.nodeIds, same.nodes, same.dependencies]

theorem degree (same : g.Resembles h) (id : String) (key : RankBy) : g.degree id key = h.degree id key := by
  cases key with
  | dependents => exact (same.dependents id).length_eq
  | dependencies => rw [Graph.degree, Graph.degree, same.dependencies]

theorem rank (same : g.Resembles h) (key : RankBy) (limit : Nat) : g.rank key limit = h.rank key limit := by
  simp only [Graph.rank, same.nodeIds, same.degree]

theorem findCycles (same : g.Resembles h) : g.findCycles = h.findCycles := by
  rw [Graph.findCycles, Graph.findCycles, CycleSearch.run_congr same.dependencies, CycleSearch.start,
    CycleSearch.start, same.nodeIds]

theorem tangledGroups (same : g.Resembles h) : g.tangledGroups = h.tangledGroups := by
  rw [Graph.tangledGroups, Graph.tangledGroups, same.reach]

/-- Edges can be counted by the dependents of the modules. -/
theorem edgeCount (same : g.Resembles h) (left : g.WellIndexed) (right : h.WellIndexed) :
    g.edgeCount = h.edgeCount := by
  rw [left.edgeCount_eq, right.edgeCount_eq, same.nodeIds]
  simp only [(same.dependents _).length_eq]

theorem sameAnswers (same : g.Resembles h) (left : g.WellIndexed) (right : h.WellIndexed) :
    g.SameAnswers h where
  nodeIds := same.nodeIds
  scannedModules := by rw [scannedModules, scannedModules, same.nodes]
  unresolvedOf id := by rw [unresolvedOf, unresolvedOf, same.unresolvedImports]
  externalOf? id := by rw [externalOf?, externalOf?, same.externalImports]
  findCycles := same.findCycles
  transitiveDependencies id := reachFrom_congr same.dependencies _ _ _
  tangledGroups := same.tangledGroups
  rank := same.rank
  snapshot := by simp only [DependencySnapshot.ofGraph, same.nodeIds, same.dependencies]
  summary top := by
    simp only [Summary.ofGraph, nodeCount, unresolvedCount, same.nodes, same.unresolvedImports,
      same.edgeCount left right, same.findCycles, same.tangledGroups, same.rank]

end Resembles

/-! ## Written and loaded again -/

/-- What a document drops is the labels of the edges, nothing else. -/
theorem WellIndexed.edgesOf_reloaded (ok : g.WellIndexed) (id : String) :
    (ofDocument g.toDocument).edgesOf id = (g.edgesOf id).mapValues fun _ => .unknown := by
  rw [edgesOf_ofDocument ok.isNormal_toDocument, edges_toDocument]
  exact bareEdges_keys (g.edgesOf id)

theorem WellIndexed.resembles_reloaded (ok : g.WellIndexed) : (ofDocument g.toDocument).Resembles g := by
  have dependencies (id : String) :
      (ofDocument g.toDocument).dependencies id = g.dependencies id := by
    rw [Graph.dependencies, ok.edgesOf_reloaded, OrderedMap.keys_mapValues]
    rfl
  refine ⟨(ofDocument_of_isNormal ok.isNormal_toDocument).1, dependencies, fun id => ?_, rfl, ?_⟩
  · -- Both lists of dependents are the inverse of the same edges, each without repetition.
    have loaded := wellIndexed_ofDocument g.toDocument
    refine (List.perm_ext_iff_of_nodup (loaded.nodup_dependents id) (ok.nodup_dependents id)).mpr ?_
    intro source
    rw [loaded.mem_dependents_iff, ok.mem_dependents_iff, dependencies]
  · refine (OrderedMap.mapValues_mapValues _ _).trans ?_
    refine (OrderedMap.mapValues_congr fun source external _ => ?_).trans (OrderedMap.mapValues_id _)
    exact external.ofList_toList

/-- Writing a graph and loading it again is seen by no analysis: modules, edges and records come back
    in the same order with all that is known of them, dependents in some order, and the labels of the
    edges are reset. -/
theorem ofChanges_reloaded (changes : List GraphChange) :
    (ofDocument (ofChanges changes).toDocument).Resembles (ofChanges changes) ∧
      (ofDocument (ofChanges changes).toDocument).SameAnswers (ofChanges changes) ∧
      ∀ id, (ofDocument (ofChanges changes).toDocument).edgesOf id =
        ((ofChanges changes).edgesOf id).mapValues fun _ => .unknown := by
  have ok := wellIndexed_ofChanges changes
  have same := ok.resembles_reloaded
  exact ⟨same, same.sameAnswers (wellIndexed_ofDocument _) ok, ok.edgesOf_reloaded⟩

end Graph
end ModuleGraph
