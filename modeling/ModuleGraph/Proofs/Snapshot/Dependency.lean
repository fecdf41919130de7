import ModuleGraph.Snapshot.Dependency
import ModuleGraph.Proofs.OrderedMap

/-!
What dependency snapshots hold at a module: for a graph the modules that it imports (`get?_ofGraph`), and
after a merge those of the part where it was scanned there, or those it had (`get?_merge`).
-/
namespace ModuleGraph.DependencySnapshot
variable {s : DependencySnapshot} {g : Graph} {id : String}

theorem get?_ofGraph : (ofGraph g).dependencies.get? id =
    if id ∈ g.nodeIds then some (g.dependencies id) else none := by
  have written : (ofGraph g).dependencies =
      g.nodeIds.foldl (fun m id => m.insert id (g.dependencies id)) .empty := by
    simp only [ofGraph, OrderedMap.ofList, OrderedMap.insertAll, List.foldl_map]
  rw [written, OrderedMap.get?_foldl_insert, OrderedMap.get?_empty]

theorem get?_merge : (s.merge g).dependencies.get? id =
    if id ∈ g.scannedModules then some (g.dependencies id)
    else (s.dependencies.get? id).or (if id ∈ g.nodeIds then some [] else none) := by
  rw [merge]
  simp only [OrderedMap.get?_foldl_insertNew, OrderedMap.get?_foldl_insert]
  split <;> simp

/-- Snapshots that differ only in modules without dependencies have as many dependencies. -/
theorem totalDependencies_eq {other : DependencySnapshot}
    (same : ∀ id deps, deps ≠ [] → (s.dependencies.get? id = some deps ↔
      other.dependencies.get? id = some deps)) (stamp stamp' : Option Commit) :
    (s.restamp stamp).totalDependencies = (other.restamp stamp').totalDependencies := by
  refine OrderedMap.total_values_eq List.length fun id => Option.ext fun deps => ?_
  simp only [Option.filter_eq_some_iff, decide_eq_true_eq, Ne, List.length_eq_zero_iff]
  by_cases none : deps = []
  · simp [none]
  · simpa [none] using same id deps none

end ModuleGraph.DependencySnapshot
