import ModuleGraph.Binary64.Basic
import ModuleGraph.Graph.Component
import ModuleGraph.Graph.Cycle
import ModuleGraph.Graph.Rank
import ModuleGraph.Json.Basic

/-!
The summary of a graph. Its cycles are those of the single pass; its groups cover every cyclic
region.
-/
namespace ModuleGraph

/-- The figures of a graph. -/
structure Summary where
  totalModules : Nat
  totalDependencies : Nat
  averageDependencies : Binary64
  mostDependedOn : List (String × Nat)
  mostDependencies : List (String × Nat)
  cycles : List (List String)
  hasCycles : Bool
  tangledGroups : List (List String)
  unresolvedImports : Nat
  deriving DecidableEq

namespace Summary

/-- The length of the rankings unless another one is asked for. -/
def defaultTop : Nat := 10

/-- The summary of a graph with rankings of a given length. -/
def ofGraph (g : Graph) (top : Nat) : Summary :=
  let cycles := g.findCycles
  { totalModules := g.nodeCount
    totalDependencies := g.edgeCount
    averageDependencies := .average g.edgeCount g.nodeCount
    mostDependedOn := g.rank .dependents top
    mostDependencies := g.rank .dependencies top
    cycles
    hasCycles := !cycles.isEmpty
    tangledGroups := g.tangledGroups
    unresolvedImports := g.unresolvedCount }

/-- A ranking as JSON: pairs of a module and its count. -/
def rankingJson (ranking : List (String × Nat)) : Json :=
  .array (ranking.map fun (id, count) => .array [.string id, .number count])

/-- The summary as JSON. -/
def toJson (s : Summary) : Json :=
  .object [("total_modules", .number s.totalModules),
    ("total_dependencies", .number s.totalDependencies),
    ("average_dependencies", .decimal s.averageDependencies),
    ("most_depended_on", rankingJson s.mostDependedOn),
    ("most_dependencies", rankingJson s.mostDependencies),
    ("cycles", .array (s.cycles.map .strings)), ("has_cycles", .bool s.hasCycles),
    ("tangled_groups", .array (s.tangledGroups.map .strings)),
    ("unresolved_imports", .number s.unresolvedImports)]

end Summary
end ModuleGraph
