import ModuleGraph.Graph.Unexplored

/-!
Transitive dependencies. The answer holds a module itself only if a cycle leads back to it.
-/
namespace ModuleGraph.Graph

/-- Everything met while the modules of a stack are expanded, each once. `expanded` are done, and
    `reached` has been met so far. -/
def reachFrom (g : Graph) (stack expanded : List String) (reached : OrderedSet String) :
    OrderedSet String :=
  match stack with
  | [] => reached
  | node :: rest =>
    if node ∈ expanded then g.reachFrom rest expanded reached
    else
      let fresh := (g.dependencies node).filter (!(node :: expanded).contains ·)
      g.reachFrom (fresh.reverse ++ rest) (node :: expanded)
        ((g.dependencies node).foldl OrderedSet.add reached)
termination_by (g.unexplored expanded, stack.length)
decreasing_by
  · exact .right _ (Nat.lt_succ_self _)
  · rename_i unseen
    have smaller : g.unexplored (node :: expanded) ≤ g.unexplored expanded :=
      unexplored_le_of_subset fun id old => List.mem_cons_of_mem node old
    by_cases edges : g.dependencies node = []
    · rcases Nat.lt_or_eq_of_le smaller with fewer | same
      · exact .left _ _ fewer
      · exact same ▸ .right _ (by simp [edges])
    · exact .left _ _ (unexplored_lt_of_subset (fun id old => List.mem_cons_of_mem node old)
        (mem_keys_of_dependencies_ne_nil edges) List.mem_cons_self unseen)

/-- The modules that a module depends on through one or more edges, in the order in which a
    last-in, first-out search meets them. -/
def transitiveDependencies (g : Graph) (id : String) : OrderedSet String :=
  g.reachFrom [id] [] .empty

end ModuleGraph.Graph
