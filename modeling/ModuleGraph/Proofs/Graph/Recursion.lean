import ModuleGraph.Proofs.Graph.Cycle

/-!
The search for cycles as a recursion over the modules. A visit to a module reports a cycle if the module
is on the path to it; otherwise it visits all that the module imports, and then the module is done. The
search with a stack of frames finds the same cycles in the same order (`findCycles_eq_recursive`): of
every state it can be said what the recursion would find from there (`CycleSearch.outcome`), and no step
changes that.
-/
namespace ModuleGraph

/-- What visits have found: the modules that are done, latest first, and the cycles, oldest first. -/
structure Findings where
  visited : List String
  cycles : List (List String)

namespace Findings

/-- Nothing has been visited. -/
def empty : Findings := ⟨[], []⟩

/-- One more module is done. -/
def close (found : Findings) (id : String) : Findings := { found with visited := id :: found.visited }

/-- One more cycle is found. -/
def report (found : Findings) (cycle : List String) : Findings :=
  { found with cycles := found.cycles ++ [cycle] }

end Findings

namespace Graph

mutual

/-- A visit to a module at the end of a path. -/
def visit (g : Graph) (path : List String) (id : String) (found : Findings) : Findings :=
  if id ∈ found.visited then found
  else if id ∈ path then found.report (path.dropWhile (· ≠ id) ++ [id])
  else (g.visitAll (path ++ [id]) (g.dependencies id) found).close id
termination_by (g.unexplored path, 1)
decreasing_by
  rename_i off
  have longer : ∀ old ∈ path, old ∈ path ++ [id] := fun old => List.mem_append_left [id]
  by_cases edges : g.dependencies id = []
  · rcases Nat.lt_or_eq_of_le (unexplored_le_of_subset (g := g) longer) with fewer | same
    · exact .left _ _ fewer
    · exact same ▸ .right _ (by simp [edges])
  · exact .left _ _ (unexplored_lt_of_subset longer (mem_keys_of_dependencies_ne_nil edges)
      (List.mem_append_right path (List.mem_singleton.mpr rfl)) off)

/-- Visits to modules, one after the other, at the end of the same path. -/
def visitAll (g : Graph) (path : List String) (ids : List String) (found : Findings) : Findings :=
  match ids with
  | [] => found
  | id :: rest => g.visitAll path rest (g.visit path id found)
termination_by (g.unexplored path, 2 * ids.length)
decreasing_by
  · exact .right _ (by simp only [List.length_cons]; omega)
  · exact .right _ (by simp only [List.length_cons]; omega)

end

/-- The cycles that visits to all modules find. -/
def cyclesByRecursion (g : Graph) : List (List String) := (g.visitAll [] g.nodeIds .empty).cycles

variable {g : Graph} {path rest : List String} {id : String} {found : Findings}

@[simp] theorem visitAll_nil : g.visitAll path [] found = found := by
  rw [visitAll]

theorem visitAll_cons : g.visitAll path (id :: rest) found = g.visitAll path rest (g.visit path id found) := by
  rw [visitAll]

theorem visit_of_done (done : id ∈ found.visited) : g.visit path id found = found := by
  rw [visit, if_pos done]

theorem visit_of_mem (fresh : id ∉ found.visited) (on : id ∈ path) :
    g.visit path id found = found.report (path.dropWhile (· ≠ id) ++ [id]) := by
  rw [visit, if_neg fresh, if_pos on]

theorem visit_of_not_mem (fresh : id ∉ found.visited) (off : id ∉ path) :
    g.visit path id found = (g.visitAll (path ++ [id]) (g.dependencies id) found).close id := by
  rw [visit, if_neg fresh, if_neg off]

end Graph

namespace CycleSearch
open ModuleGraph.Graph
variable {g : Graph} {s t : CycleSearch} {target : String}

/-! ## What is left to find -/

/-- What a search has found so far. -/
def findings (s : CycleSearch) : Findings := ⟨s.visited, s.cycles.reverse⟩

/-- What the recursion finds at the modules of a path, the innermost one first: it visits what is left
    of the edges of a module, and then the module is done. -/
def unwind (g : Graph) : List Frame → Findings → Findings
  | [], found => found
  | frame :: below, found =>
    let path := ((frame :: below).map (·.node)).reverse
    unwind g below
      ((g.visitAll path ((g.dependencies frame.node).drop frame.next) found).close frame.node)

/-- What the recursion finds in all if it goes on from a state of the search. -/
def outcome (g : Graph) (s : CycleSearch) : Findings :=
  g.visitAll [] s.roots (unwind g s.stack s.findings)

theorem findings_report (s : CycleSearch) (cycle : List String) :
    (s.report cycle).findings = s.findings.report cycle := by
  simp [findings, CycleSearch.report, Findings.report]

/-- The cycle that a module on the path closes. -/
theorem cycleAt_eq_dropWhile (distinct : s.path.Nodup) (on : target ∈ s.path) :
    s.cycleAt target = s.path.dropWhile (· ≠ target) ++ [target] := by
  obtain ⟨before, rest, path, cycle⟩ := cycleAt_eq on
  have apart : ∀ id ∈ before, id ≠ target := by
    rintro id member rfl
    rw [path, List.nodup_append] at distinct
    exact distinct.2.2 id member id List.mem_cons_self rfl
  rw [cycle, path, List.dropWhile_append_of_pos fun id member => by simpa using apart id member]
  simp

/-- To look at an edge of the innermost module is to visit its target. -/
theorem outcome_of_edge {frame : Frame} {below : List Frame} (stack : s.stack = frame :: below)
    (edge : (g.dependencies frame.node)[frame.next]? = some target) :
    s.outcome g = g.visitAll [] s.roots (unwind g s.advance.stack (g.visit s.path target s.findings)) := by
  have left : (g.dependencies frame.node).drop frame.next =
      target :: (g.dependencies frame.node).drop (frame.next + 1) := by
    rw [List.drop_eq_getElem?_toList_append, edge]
    rfl
  rw [outcome, stack, unwind, left, visitAll_cons, CycleSearch.advance, stack, List.modifyHead_cons,
    unwind, path, stack]
  rfl

/-- To go one module deeper is to visit a module that is neither done nor on the path. -/
theorem outcome_push (fresh : target ∉ s.visited) (off : target ∉ s.path) :
    (s.push target).outcome g =
      g.visitAll [] s.roots (unwind g s.stack (g.visit s.path target s.findings)) := by
  rw [visit_of_not_mem fresh off, ← path_push]
  rfl

/-- No step changes what there is to find. -/
theorem outcome_step (ok : s.Consistent g) (stepped : s.step g = some t) :
    t.outcome g = s.outcome g := by
  obtain ⟨distinct, -, apart⟩ := List.nodup_append.mp ok.nodup
  cases moves_of_step stepped with
  | skip idle next done =>
    rw [outcome, outcome, next, idle, visitAll_cons, unwind, visit_of_done done]
    rfl
  | @enter root roots idle next fresh =>
    have alone : path { s with roots } = [] := by rw [path, idle]; rfl
    have off : root ∉ path { s with roots } := alone ▸ List.not_mem_nil
    rw [outcome_push (s := { s with roots }) fresh off, alone, outcome, next, idle, unwind,
      visitAll_cons, unwind]
    rfl
  | pass stack edge done =>
    rw [outcome_of_edge stack edge, visit_of_done done]
    rfl
  | @close frame below target stack edge on =>
    have inside : target ∈ s.path := (ok.mem_onPath_iff target).mp on
    have fresh : target ∉ s.visited := fun done => apart target inside target done rfl
    rw [outcome_of_edge stack edge, visit_of_mem fresh inside, ← cycleAt_eq_dropWhile distinct inside,
      ← findings_report]
    rfl
  | @descend frame below target stack edge fresh off =>
    have outside : target ∉ s.advance.path := by
      rw [path_advance, ← ok.mem_onPath_iff]
      exact off
    rw [outcome_push (s := s.advance) fresh outside, outcome_of_edge stack edge, path_advance]
    rfl
  | leave stack ended =>
    rw [outcome, outcome, stack, unwind, List.drop_of_length_le (List.getElem?_eq_none_iff.mp ended),
      visitAll_nil]
    rfl

/-- When the search is over, there is nothing left to find. -/
theorem outcome_of_stuck (stuck : s.step g = none) : s.outcome g = s.findings := by
  obtain ⟨stack, roots⟩ := idle_of_step_eq_none stuck
  rw [outcome, stack, roots, visitAll_nil, unwind]

end CycleSearch

/-- The search with a stack of frames ends, and what it has found by then is what the recursion finds,
    in the same order. -/
theorem Graph.findCycles_eq_recursive (g : Graph) :
    (∃ n last, Halts (CycleSearch.step g) (.start g) n last ∧ last.cycles.reverse = g.findCycles) ∧
      g.findCycles = g.cyclesByRecursion := by
  obtain ⟨n, halts⟩ := CycleSearch.halts_run g (.start g)
  refine ⟨⟨n, _, halts, rfl⟩, ?_⟩
  obtain ⟨-, same⟩ := halts.keeps
    (P := fun s => s.Consistent g ∧ s.outcome g = (CycleSearch.start g).outcome g)
    (fun s t stepped ⟨ok, same⟩ => ⟨ok.step stepped, (CycleSearch.outcome_step ok stepped).trans same⟩)
    ⟨CycleSearch.consistent_start g, rfl⟩
  rw [CycleSearch.outcome_of_stuck halts.stuck] at same
  exact congrArg Findings.cycles same

end ModuleGraph
