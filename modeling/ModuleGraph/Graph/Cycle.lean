import ModuleGraph.Graph.Unexplored

/-!
Import cycles, found in one depth-first pass. Roots come in the order of the modules. A module is
visited once everything below it is done; it is never looked at again, so of overlapping cycles some
stay unreported, but no cycle is left when the closing edges of the reported ones are taken away.
-/
namespace ModuleGraph

/-- A module on the current path and the number of its edges that have been looked at. -/
structure Frame where
  node : String
  next : Nat
  deriving DecidableEq

/-- The state of the search between two looks at an edge. -/
structure CycleSearch where
  /-- Roots to come. -/
  roots : List String
  /-- The current path, innermost module first. -/
  stack : List Frame
  /-- The modules of the current path. -/
  onPath : List String
  /-- The modules that are done. -/
  visited : List String
  /-- The cycles found, latest first. -/
  cycles : List (List String)
  deriving DecidableEq

namespace CycleSearch

/-- The search before its first step. -/
def start (g : Graph) : CycleSearch := ⟨g.nodeIds, [], [], [], []⟩

/-- The current path, outermost module first. -/
def path (s : CycleSearch) : List String := (s.stack.map (·.node)).reverse

/-- The part of the current path from a module on, closed with that module. -/
def cycleAt (s : CycleSearch) (target : String) : List String :=
  s.path.drop ((s.path.findIdx? (· == target)).getD 0) ++ [target]

/-- The search one module deeper. -/
def push (s : CycleSearch) (node : String) : CycleSearch :=
  { s with stack := ⟨node, 0⟩ :: s.stack, onPath := node :: s.onPath }

/-- The search after a look at an edge of the innermost module. -/
def follow (s : CycleSearch) (target : String) : CycleSearch :=
  if target ∈ s.visited then s
  else if target ∈ s.onPath then { s with cycles := s.cycleAt target :: s.cycles }
  else s.push target

/-- One step: take the next root, follow the next edge, or leave a module that is done. -/
def step (g : Graph) (s : CycleSearch) : Option CycleSearch :=
  match s.stack with
  | [] =>
    match s.roots with
    | [] => none
    | root :: roots =>
      let s := { s with roots }
      some (if root ∈ s.visited then s else s.push root)
  | frame :: below =>
    match (g.dependencies frame.node)[frame.next]? with
    | some target => some ({ s with stack := ⟨frame.node, frame.next + 1⟩ :: below }.follow target)
    | none =>
      some { s with
        stack := below
        onPath := s.onPath.filter (· ≠ frame.node)
        visited := frame.node :: s.visited }

/-- What is left to do at one module of the path. -/
def frameWork (g : Graph) (frame : Frame) : Nat :=
  1 + 3 * ((g.dependencies frame.node).length - frame.next)

/-- What is left to do on the path and at the roots, modules not yet reached aside. -/
def work (g : Graph) (s : CycleSearch) : Nat :=
  total (s.roots.map fun root => 1 + frameWork g ⟨root, 0⟩) + total (s.stack.map (frameWork g))

/-- The modules with edges that the search has not reached. -/
def unreached (g : Graph) (s : CycleSearch) : Nat := g.unexplored (s.visited ++ s.onPath)

theorem push_unreached_le (g : Graph) (s : CycleSearch) (node : String) :
    (s.push node).unreached g ≤ s.unreached g :=
  Graph.unexplored_le_of_subset fun id old => by
    rcases List.mem_append.1 old with done | here
    · exact List.mem_append_left _ done
    · exact List.mem_append_right _ (List.mem_cons_of_mem node here)

theorem step_decreases {g : Graph} {s t : CycleSearch} (stepped : s.step g = some t) :
    t.unreached g < s.unreached g ∨ t.unreached g ≤ s.unreached g ∧ t.work g < s.work g := by
  obtain ⟨roots, stack, onPath, visited, cycles⟩ := s
  cases stack with
  | nil =>
    cases roots with
    | nil => simp [step] at stepped
    | cons root roots =>
      simp only [step, Option.some.injEq] at stepped
      subst stepped
      right
      split
      · refine ⟨Nat.le_refl _, ?_⟩
        simp only [work, frameWork, List.map_cons, total_cons]
        omega
      · refine ⟨push_unreached_le g _ root, ?_⟩
        simp [work, push, frameWork]
        omega
  | cons frame below =>
    simp only [step] at stepped
    cases edge : (g.dependencies frame.node)[frame.next]? with
    | none =>
      simp only [edge, Option.some.injEq] at stepped
      subst stepped
      right
      constructor
      · -- A node that is left counts as visited from then on.
        refine Graph.unexplored_le_of_subset fun id old => ?_
        rcases List.mem_append.1 old with done | here
        · exact List.mem_append_left _ (List.mem_cons_of_mem _ done)
        · by_cases same : id = frame.node
          · exact List.mem_append_left _ (same ▸ List.mem_cons_self)
          · exact List.mem_append_right _ (List.mem_filter.2 ⟨here, by simpa using same⟩)
      · simp only [work, frameWork, List.map_cons, total_cons]
        omega
    | some target =>
      simp only [edge, Option.some.injEq] at stepped
      subst stepped
      have bound : frame.next < (g.dependencies frame.node).length :=
        (List.getElem?_eq_some_iff.1 edge).1
      have less : frameWork g ⟨frame.node, frame.next + 1⟩ + 3 = frameWork g frame := by
        simp only [frameWork]
        omega
      simp only [follow]
      split
      · refine .inr ⟨Nat.le_refl _, ?_⟩
        simp [work]
        omega
      · rename_i unvisited
        split
        · refine .inr ⟨Nat.le_refl _, ?_⟩
          simp [work]
          omega
        · rename_i off
          by_cases edges : g.dependencies target = []
          · refine .inr ⟨push_unreached_le g _ target, ?_⟩
            have small : frameWork g ⟨target, 0⟩ = 1 := by simp [frameWork, edges]
            simp [work, push, small]
            omega
          · refine .inl (Graph.unexplored_lt_of_subset (fun id old => ?_)
              (Graph.mem_keys_of_dependencies_ne_nil edges) (by simp [push]) ?_)
            · rcases List.mem_append.1 old with done | here
              · exact List.mem_append_left _ done
              · exact List.mem_append_right _ (List.mem_cons_of_mem target here)
            · exact fun old => (List.mem_append.1 old).elim unvisited off

/-- The search after its last step. -/
def run (g : Graph) (s : CycleSearch) : CycleSearch :=
  match _stepped : s.step g with
  | none => s
  | some t => run g t
termination_by (s.unreached g, s.work g)
decreasing_by
  rcases step_decreases _stepped with fewer | ⟨same, less⟩
  · exact .left _ _ fewer
  · rcases Nat.lt_or_eq_of_le same with fewer | same
    · exact .left _ _ fewer
    · exact same ▸ .right _ less

end CycleSearch

/-- The cycles of a graph in the order of their closing edges; each repeats its first module at its
    end. -/
def Graph.findCycles (g : Graph) : List (List String) :=
  ((CycleSearch.start g).run g).cycles.reverse

end ModuleGraph
