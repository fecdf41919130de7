import ModuleGraph.Graph.Reach

/-!
Tangled groups: the strongly connected components with more than one module. They cover every
cyclic region, even where the cycles found in one pass report only part of it.
-/
namespace ModuleGraph.Graph

/-- The groups of two or more modules that all depend on each other. Members and groups come in
    the order of the modules, a group where its first member stands. -/
def tangledGroups (g : Graph) : List (List String) :=
  let rows := g.reach
  rows.filterMap fun a =>
    let group := (rows.filter a.tangledWith).map (·.id)
    if group.head? = some a.id ∧ 1 < group.length then some group else none

end ModuleGraph.Graph
