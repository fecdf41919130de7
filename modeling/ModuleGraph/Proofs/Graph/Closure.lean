import ModuleGraph.Graph.Closure
import ModuleGraph.Proofs.Graph.Summary
import ModuleGraph.Proofs.Halting

/-!
Transitive dependencies are what a module leads to by one or more edges (`mem_transitiveDependencies_iff`).
The search takes modules from a stack, on which one module may lie several times. A step either drops a
module that has been expanded before, or expands one and puts at most its edges on the stack; so each edge
is paid for once (`Expansion.work`), and the search takes at most one module more than there are edges.
-/
namespace ModuleGraph

/-- The state of the search between two modules taken from the stack. -/
structure Expansion where
  stack : List String
  expanded : List String
  reached : OrderedSet String

namespace Expansion
variable {g : Graph} {s t : Expansion} {root id node : String} {rest : List String}

/-- The search before its first step. -/
def start (root : String) : Expansion := ⟨[root], [], .empty⟩

/-- The search after a module has been expanded, with what lay below it on the stack. -/
def expand (g : Graph) (s : Expansion) (node : String) (rest : List String) : Expansion where
  stack := ((g.dependencies node).filter (!(node :: s.expanded).contains ·)).reverse ++ rest
  expanded := node :: s.expanded
  reached := (g.dependencies node).foldl OrderedSet.add s.reached

/-- One step: take a module from the stack, and expand it unless that has been done. -/
def step (g : Graph) (s : Expansion) : Option Expansion :=
  match s.stack with
  | [] => none
  | node :: rest =>
    some (if node ∈ s.expanded then { s with stack := rest } else s.expand g node rest)

theorem step_cases (stepped : s.step g = some t) :
    ∃ node rest, s.stack = node :: rest ∧
      (node ∈ s.expanded ∧ t = { s with stack := rest } ∨
        node ∉ s.expanded ∧ t = s.expand g node rest) := by
  obtain ⟨stack, expanded, reached⟩ := s
  cases stack with
  | nil => simp [step] at stepped
  | cons node rest =>
    simp only [step, Option.some.injEq] at stepped
    refine ⟨node, rest, rfl, ?_⟩
    split at stepped
    · exact .inl ⟨‹_›, stepped.symm⟩
    · exact .inr ⟨‹_›, stepped.symm⟩

theorem stack_of_stuck (stuck : s.step g = none) : s.stack = [] := by
  obtain ⟨stack, expanded, reached⟩ := s
  cases stack with
  | nil => rfl
  | cons node rest => simp [step] at stuck

/-- The answer of a search that goes on from a state. -/
def answer (g : Graph) (s : Expansion) : OrderedSet String := g.reachFrom s.stack s.expanded s.reached

theorem answer_step (stepped : s.step g = some t) : t.answer g = s.answer g := by
  obtain ⟨node, rest, stack, ⟨done, rfl⟩ | ⟨fresh, rfl⟩⟩ := step_cases stepped
  · rw [answer, answer, stack]
    conv_rhs => rw [Graph.reachFrom, if_pos done]
  · rw [answer, answer, stack]
    conv_rhs => rw [Graph.reachFrom, if_neg fresh]
    rfl

theorem answer_of_stuck (stuck : s.step g = none) : s.answer g = s.reached := by
  rw [answer, stack_of_stuck stuck, Graph.reachFrom]

/-! ## The number of steps -/

/-- The number of edges that leave modules outside a list. -/
def edgesLeft (g : Graph) (expanded : List String) : Nat :=
  total (g.outgoing.entries.map fun (id, edges) => if id ∈ expanded then 0 else edges.size)

/-- What is left to do: the modules on the stack, and all that may still be put there. -/
def work (g : Graph) (s : Expansion) : Nat := s.stack.length + edgesLeft g s.expanded

/-- The edges of a module that is expanded are no longer left. -/
theorem edgesLeft_cons {expanded : List String} (fresh : node ∉ expanded) :
    edgesLeft g expanded = edgesLeft g (node :: expanded) + (g.dependencies node).length := by
  have same : ∀ id, id ≠ node → (id ∈ node :: expanded ↔ id ∈ expanded) := by
    intro id differ
    rw [List.mem_cons, or_iff_right differ]
  cases found : g.outgoing.get? node with
  | none =>
    have unlisted : ∀ entry ∈ g.outgoing.entries, entry.1 ≠ node := by
      rintro ⟨id, edges⟩ member rfl
      rw [OrderedMap.mem_entries_iff, found] at member
      cases member
    have others : g.dependencies node = [] := by
      simp [Graph.dependencies, Graph.edgesOf, OrderedMap.getD, found, OrderedMap.keys, OrderedMap.empty]
    rw [others, edgesLeft, edgesLeft]
    refine congrArg total (List.map_congr_left fun entry member => ?_)
    simp only [same entry.1 (unlisted entry member)]
  | some edges =>
    have size : (g.dependencies node).length = edges.size := by
      simp [Graph.dependencies, Graph.edgesOf, OrderedMap.getD, found, OrderedMap.keys, OrderedMap.size]
    have entry : (node, edges) ∈ g.outgoing.entries := OrderedMap.mem_entries_iff.mpr found
    refine total_map_grow (.of_map Prod.fst g.outgoing.nodup) entry ?_ fun other member differ => ?_
    · simp [fresh, size]
    · have apart : other.1 ≠ node := fun equal =>
        differ (List.inj_on_of_nodup_map g.outgoing.nodup member entry equal)
      simp only [same other.1 apart]

theorem work_step (stepped : s.step g = some t) : t.work g < s.work g := by
  obtain ⟨node, rest, stack, ⟨done, rfl⟩ | ⟨fresh, rfl⟩⟩ := step_cases stepped
  · simp [work, stack]
  · have paid := edgesLeft_cons (g := g) fresh
    have put := List.length_filter_le (!(node :: s.expanded).contains ·) (g.dependencies node)
    simp only [work, expand, stack, List.length_append, List.length_reverse, List.length_cons]
    omega

theorem work_start (g : Graph) (root : String) : (start root).work g = g.edgeCount + 1 := by
  simp [work, start, edgesLeft, Graph.edgeCount, OrderedMap.values, Function.comp_def, Nat.add_comm]

/-! ## The invariant -/

/-- A module that has been met is expanded or will be. -/
def Met (s : Expansion) (id : String) : Prop := id ∈ s.expanded ∨ id ∈ s.stack

/-- What holds between two steps. -/
structure Consistent (g : Graph) (root : String) (s : Expansion) : Prop where
  stack : ∀ id ∈ s.stack, Relation.ReflTransGen g.Imports root id
  reached : ∀ id ∈ s.reached.toList, g.LeadsTo root id
  met_root : s.Met root
  met : ∀ id ∈ s.reached.toList, s.Met id
  closed : ∀ id ∈ s.expanded, ∀ other ∈ g.dependencies id, other ∈ s.reached.toList

theorem consistent_start (g : Graph) (root : String) : (start root).Consistent g root where
  stack id member := by
    rw [List.mem_singleton.mp member]
  reached id member := absurd member List.not_mem_nil
  met_root := .inr (List.mem_singleton.mpr rfl)
  met id member := absurd member List.not_mem_nil
  closed id member := absurd member List.not_mem_nil

/-- A module that is dropped has been expanded, so no module is forgotten with it. -/
theorem Met.drop (met : s.Met id) (stack : s.stack = node :: rest) (done : node ∈ s.expanded) :
    { s with stack := rest }.Met id := by
  rcases met with old | here
  · exact .inl old
  · rw [stack] at here
    rcases List.mem_cons.mp here with rfl | below
    · exact .inl done
    · exact .inr below

theorem Met.expand (met : s.Met id) (stack : s.stack = node :: rest) :
    (s.expand g node rest).Met id := by
  rcases met with old | here
  · exact .inl (List.mem_cons_of_mem node old)
  · rw [stack] at here
    rcases List.mem_cons.mp here with rfl | below
    · exact .inl List.mem_cons_self
    · exact .inr (List.mem_append_right _ below)

/-- What an expanded module imports is met. -/
theorem met_of_expand (edge : id ∈ g.dependencies node) : (s.expand g node rest).Met id := by
  by_cases old : id ∈ node :: s.expanded
  · exact .inl old
  · refine .inr (List.mem_append_left _ (List.mem_reverse.mpr (List.mem_filter.mpr ⟨edge, ?_⟩)))
    simpa using old

private theorem Consistent.drop (ok : s.Consistent g root) (stack : s.stack = node :: rest)
    (done : node ∈ s.expanded) : { s with stack := rest }.Consistent g root where
  stack id member := ok.stack id (stack ▸ List.mem_cons_of_mem node member)
  reached := ok.reached
  met_root := ok.met_root.drop stack done
  met id member := (ok.met id member).drop stack done
  closed := ok.closed

private theorem Consistent.expand (ok : s.Consistent g root) (stack : s.stack = node :: rest) :
    (s.expand g node rest).Consistent g root := by
  have path : Relation.ReflTransGen g.Imports root node := ok.stack node (stack ▸ List.mem_cons_self)
  constructor
  case stack =>
    intro id member
    rcases List.mem_append.mp member with new | below
    · exact path.tail (List.mem_filter.mp (List.mem_reverse.mp new)).1
    · exact ok.stack id (stack ▸ List.mem_cons_of_mem node below)
  case reached =>
    intro id member
    rcases OrderedSet.mem_foldl_add.mp member with old | edge
    · exact ok.reached id old
    · exact .tail' path edge
  case met_root => exact ok.met_root.expand stack
  case met =>
    intro id member
    rcases OrderedSet.mem_foldl_add.mp member with old | edge
    · exact (ok.met id old).expand stack
    · exact met_of_expand edge
  case closed =>
    intro id member other edge
    rcases List.mem_cons.mp member with rfl | old
    · exact OrderedSet.mem_foldl_add.mpr (.inr edge)
    · exact OrderedSet.mem_foldl_add.mpr (.inl (ok.closed id old other edge))

theorem Consistent.step (ok : s.Consistent g root) (stepped : s.step g = some t) :
    t.Consistent g root := by
  obtain ⟨node, rest, stack, ⟨done, rfl⟩ | ⟨fresh, rfl⟩⟩ := step_cases stepped
  · exact ok.drop stack done
  · exact ok.expand stack

/-- When the stack is empty, all that the root leads to has been reached. -/
theorem Consistent.mem_reached_iff (ok : s.Consistent g root) (stuck : s.step g = none) :
    id ∈ s.reached.toList ↔ g.LeadsTo root id := by
  have expanded : ∀ id, s.Met id → id ∈ s.expanded := fun id met =>
    met.resolve_right (stack_of_stuck stuck ▸ List.not_mem_nil)
  refine ⟨ok.reached id, fun path => ?_⟩
  induction path with
  | single edge => exact ok.closed root (expanded root ok.met_root) _ edge
  | @tail before id _ edge ih => exact ok.closed before (expanded before (ok.met before ih)) id edge

end Expansion

namespace Graph
variable {g : Graph} {a b id : String}

/-- The search ends, and after so many steps it has reached just what its root leads to. -/
theorem exists_halts_transitiveDependencies (g : Graph) (id : String) :
    ∃ n last, n ≤ g.edgeCount + 1 ∧ Halts (Expansion.step g) (.start id) n last ∧
      last.reached = g.transitiveDependencies id ∧ last.Consistent g id := by
  obtain ⟨n, last, bound, halts⟩ :=
    Halts.exists_of_measure (Expansion.work g) (fun _ _ => Expansion.work_step) (.start id)
  obtain ⟨ok, same⟩ := halts.keeps
    (P := fun s => s.Consistent g id ∧ s.answer g = g.transitiveDependencies id)
    (fun s t stepped ⟨ok, same⟩ => ⟨ok.step stepped, (Expansion.answer_step stepped).trans same⟩)
    ⟨Expansion.consistent_start g id, rfl⟩
  rw [Expansion.answer_of_stuck halts.stuck] at same
  exact ⟨n, last, Expansion.work_start g id ▸ bound, halts, same, ok⟩

theorem mem_transitiveDependencies_iff :
    b ∈ (g.transitiveDependencies a).toList ↔ g.LeadsTo a b := by
  obtain ⟨n, last, -, halts, same, ok⟩ := exists_halts_transitiveDependencies g a
  rw [← same]
  exact ok.mem_reached_iff halts.stuck

/-- A path can be cut short until it comes through no module twice. -/
theorem exists_path_of_leadsTo (path : g.LeadsTo a b) :
    ∃ rest, (a :: rest ++ [b]).IsChain g.Imports ∧ (a :: rest).Nodup := by
  induction path using Relation.TransGen.head_induction_on with
  | single edge => exact ⟨[], List.isChain_pair.mpr edge, List.nodup_singleton _⟩
  | @head a c edge _ ih =>
    obtain ⟨rest, chain, distinct⟩ := ih
    by_cases again : a ∈ c :: rest
    · obtain ⟨front, back, split⟩ := List.append_of_mem again
      rw [split] at chain distinct
      rw [List.append_assoc] at chain
      exact ⟨back, (List.isChain_append.mp chain).2.1, (List.nodup_append.mp distinct).2.1⟩
    · exact ⟨c :: rest, List.isChain_cons_cons.mpr ⟨edge, chain⟩, List.nodup_cons.mpr ⟨again, distinct⟩⟩

/-- A module leads to itself just if it lies on a cycle. -/
theorem leadsTo_self_iff : g.LeadsTo id id ↔ ∃ cycle, g.IsCycle cycle ∧ id ∈ cycle := by
  constructor
  · intro path
    obtain ⟨rest, chain, distinct⟩ := exists_path_of_leadsTo path
    exact ⟨id :: rest ++ [id], ⟨id, rest, rfl, distinct, chain⟩, List.mem_cons_self⟩
  · rintro ⟨cycle, is, member⟩
    exact is.leadsTo member member

/-- However a graph came about, the search for what a module leads to ends after at most one step more
    than there are edges. It gives each module that the start leads to by one or more edges once and
    nothing else: the start itself if it lies on a cycle, and with a module all that this one imports. -/
theorem ofChanges_transitiveDependencies (changes : List GraphChange) (id : String) :
    let g := ofChanges changes
    let reached := (g.transitiveDependencies id).toList
    (∃ n last, n ≤ g.edgeCount + 1 ∧ Halts (Expansion.step g) (.start id) n last ∧
        last.reached = g.transitiveDependencies id) ∧
      reached.Nodup ∧ (∀ other, other ∈ reached ↔ g.LeadsTo id other) ∧
      (∀ other ∈ reached, other ∈ g.nodeIds) ∧
      (id ∈ reached ↔ ∃ cycle, g.IsCycle cycle ∧ id ∈ cycle) ∧
      ∀ a ∈ reached, ∀ b ∈ g.dependencies a, b ∈ reached := by
  intro g reached
  have ok : g.WellIndexed := wellIndexed_ofChanges changes
  have exact_iff : ∀ other, other ∈ reached ↔ g.LeadsTo id other := fun other =>
    mem_transitiveDependencies_iff
  obtain ⟨n, last, bound, halts, same, -⟩ := exists_halts_transitiveDependencies g id
  refine ⟨⟨n, last, bound, halts, same⟩, OrderedMap.nodup _, exact_iff, fun other member => ?_,
    (exact_iff id).trans leadsTo_self_iff, fun a member b edge => ?_⟩
  · exact (ok.mem_of_leadsTo ((exact_iff other).mp member)).2
  · exact (exact_iff b).mpr (.tail ((exact_iff a).mp member) edge)

end Graph
end ModuleGraph
