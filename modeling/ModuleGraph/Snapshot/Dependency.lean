import ModuleGraph.Change.Basic
import ModuleGraph.Count
import ModuleGraph.Graph.Basic

/-!
What is kept of a dependency analysis: the modules that each module imports, and totals. A snapshot
is brought up to date by removing modules and by merging the graph of a part of the project, which
replaces the lists of the modules that were scanned in it and leaves all others alone.
-/
namespace ModuleGraph

/-- The modules that each module imports. A target may be missing from the keys, if its module was
    removed later. -/
structure DependencySnapshot where
  dependencies : OrderedMap String (List String)
  moduleCount : Nat
  totalDependencies : Nat
  lastUpdated : Option Commit
  deriving DecidableEq

namespace DependencySnapshot

/-- The snapshot of no module. -/
def empty : DependencySnapshot := ⟨.empty, 0, 0, none⟩

instance : Inhabited DependencySnapshot := ⟨empty⟩

/-- The snapshot of a graph, its totals not yet counted. -/
def ofGraph (g : Graph) : DependencySnapshot :=
  { empty with dependencies := .ofList (g.nodeIds.map fun id => (id, g.dependencies id)) }

/-- The snapshot without a module. -/
def remove (s : DependencySnapshot) (id : String) : DependencySnapshot :=
  { s with dependencies := s.dependencies.erase id }

/-- The snapshot with the lists of the scanned modules of a graph. Its other modules get an empty
    list if they are new. -/
def merge (s : DependencySnapshot) (part : Graph) : DependencySnapshot :=
  let replaced :=
    part.scannedModules.foldl (fun m id => m.insert id (part.dependencies id)) s.dependencies
  { s with dependencies := part.nodeIds.foldl (fun m id => m.insertNew id []) replaced }

/-- The snapshot with a graph merged into it, and the number of the lists that were replaced. -/
def mergeCounting (s : DependencySnapshot) (part : Graph) : DependencySnapshot × Nat :=
  let written := part.scannedModules.foldl
    (fun done id => (done.1.insert id (part.dependencies id), done.2 + 1)) (s.dependencies, 0)
  ({ s with dependencies := part.nodeIds.foldl (fun m id => m.insertNew id []) written.1 }, written.2)

/-- The snapshot with its totals counted and a stamp. -/
def restamp (s : DependencySnapshot) (stamp : Option Commit) : DependencySnapshot where
  dependencies := s.dependencies
  moduleCount := s.dependencies.size
  totalDependencies := total (s.dependencies.values.map (·.length))
  lastUpdated := stamp

end DependencySnapshot
end ModuleGraph
