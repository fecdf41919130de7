import ModuleGraph.Graph.Basic

/-!
What every module leads to, for all modules at once. At first only edges count; then paths may go
through one module more at a time. When they may go through every module, the row of a module holds
all that it leads to by one or more edges.
-/
namespace ModuleGraph

/-- A module, its place in the order of the modules, and the places of those that it leads to as
    the bits of a number. -/
structure Reach where
  id : String
  place : Nat
  targets : Nat
  deriving DecidableEq

namespace Reach

/-- Whether a module leads to the one at a place. -/
def leadsTo (r : Reach) (place : Nat) : Bool := r.targets.testBit place

/-- The row of a module whose paths may go through another one. -/
def through (r via : Reach) : Reach :=
  if r.leadsTo via.place then { r with targets := r.targets ||| via.targets } else r

/-- Whether two modules are one or lead to each other. -/
def tangledWith (a b : Reach) : Bool :=
  a.place == b.place || (a.leadsTo b.place && b.leadsTo a.place)

/-- The places of modules in a list, as bits. -/
def placesOf (nodes ids : List String) : Nat :=
  ids.foldl (fun bits id => bits ||| (1 <<< nodes.idxOf id)) 0

/-- The rows when paths may go through the module at one more place. -/
def letThrough (rows : List Reach) (place : Nat) : List Reach :=
  match rows[place]? with
  | none => rows
  | some via => rows.map (·.through via)

end Reach

namespace Graph

/-- What each module leads to by one edge. -/
def directReach (g : Graph) : List Reach :=
  let nodes := g.nodeIds
  nodes.zipIdx.map fun (id, place) => ⟨id, place, Reach.placesOf nodes (g.dependencies id)⟩

/-- What each module leads to. -/
def reach (g : Graph) : List Reach := (List.range g.nodeCount).foldl Reach.letThrough g.directReach

end Graph
end ModuleGraph
