import ModuleGraph.Graph.Basic

/-!
Rankings of the modules by their number of edges.
-/
namespace ModuleGraph

/-- Which edges of a module count. -/
inductive RankBy where
  | dependents
  | dependencies
  deriving DecidableEq

namespace Graph

/-- The number of edges of a module that count. -/
def degree (g : Graph) (id : String) : RankBy → Nat
  | .dependents => (g.dependents id).length
  | .dependencies => (g.dependencies id).length

/-- The first modules in the order of falling counts; equal counts keep the order of the modules. -/
def rank (g : Graph) (key : RankBy) (limit : Nat) : List (String × Nat) :=
  ((g.nodeIds.map fun id => (id, g.degree id key)).mergeSort (fun a b => b.2 ≤ a.2)).take limit

end Graph
end ModuleGraph
