import Mathlib.Data.List.Chain
import ModuleGraph.Graph.Cycle
import ModuleGraph.Proofs.Graph.Reach
import ModuleGraph.Proofs.Halting

/-!
The search for cycles. What one step can do is said once (`Moves`), and all that a step keeps is one
invariant (`CycleSearch.Consistent`). It is told along one list, `CycleSearch.order`: the modules of
the current path from the outermost one on, then those that are done, latest first. A module enters
this list where the path ends and never moves, so at the end it is the order in which modules were
left, backwards; an edge that closes no reported cycle goes forwards in it (`exists_order`).
-/
namespace ModuleGraph

/-- A closed path that comes through its first module twice and through no other one. -/
def Graph.IsCycle (g : Graph) (cycle : List String) : Prop :=
  ∃ first rest, cycle = first :: rest ++ [first] ∧ (first :: rest).Nodup ∧ cycle.IsChain g.Imports

namespace CycleSearch
variable {g : Graph} {s t : CycleSearch} {node target u v : String}

/-- The search when one more edge of the innermost module has been looked at. -/
def advance (s : CycleSearch) : CycleSearch :=
  { s with stack := s.stack.modifyHead fun frame => ⟨frame.node, frame.next + 1⟩ }

/-- The search with one more cycle. -/
def report (s : CycleSearch) (cycle : List String) : CycleSearch := { s with cycles := cycle :: s.cycles }

/-- What one step does. -/
inductive Moves (g : Graph) (s : CycleSearch) : CycleSearch → Prop
  | skip {root : String} {roots : List String} (idle : s.stack = []) (next : s.roots = root :: roots)
      (done : root ∈ s.visited) : Moves g s { s with roots }
  | enter {root : String} {roots : List String} (idle : s.stack = []) (next : s.roots = root :: roots)
      (fresh : root ∉ s.visited) : Moves g s ({ s with roots }.push root)
  | pass {frame : Frame} {below : List Frame} {target : String} (stack : s.stack = frame :: below)
      (edge : (g.dependencies frame.node)[frame.next]? = some target) (done : target ∈ s.visited) :
      Moves g s s.advance
  | close {frame : Frame} {below : List Frame} {target : String} (stack : s.stack = frame :: below)
      (edge : (g.dependencies frame.node)[frame.next]? = some target) (on : target ∈ s.onPath) :
      Moves g s (s.advance.report (s.cycleAt target))
  | descend {frame : Frame} {below : List Frame} {target : String} (stack : s.stack = frame :: below)
      (edge : (g.dependencies frame.node)[frame.next]? = some target) (fresh : target ∉ s.visited)
      (off : target ∉ s.onPath) : Moves g s (s.advance.push target)
  | leave {frame : Frame} {below : List Frame} (stack : s.stack = frame :: below)
      (ended : (g.dependencies frame.node)[frame.next]? = none) :
      Moves g s { s with
        stack := below
        onPath := s.onPath.filter (· ≠ frame.node)
        visited := frame.node :: s.visited }

theorem path_advance (s : CycleSearch) : s.advance.path = s.path := by
  obtain ⟨roots, stack, onPath, visited, cycles⟩ := s
  cases stack <;> rfl

theorem moves_of_step (stepped : s.step g = some t) : Moves g s t := by
  obtain ⟨roots, stack, onPath, visited, cycles⟩ := s
  cases stack with
  | nil =>
    cases roots with
    | nil => simp [step] at stepped
    | cons root roots =>
      simp only [step, Option.some.injEq] at stepped
      subst stepped
      split
      · exact .skip rfl rfl ‹_›
      · exact .enter rfl rfl ‹_›
  | cons frame below =>
    simp only [step] at stepped
    cases edge : (g.dependencies frame.node)[frame.next]? with
    | none =>
      simp only [edge, Option.some.injEq] at stepped
      subst stepped
      exact .leave rfl edge
    | some target =>
      simp only [edge, Option.some.injEq] at stepped
      subst stepped
      unfold follow
      split
      · exact .pass rfl edge ‹_›
      · split
        · exact .close rfl edge ‹_›
        · exact .descend rfl edge ‹_› ‹_›

theorem idle_of_step_eq_none (stuck : s.step g = none) : s.stack = [] ∧ s.roots = [] := by
  obtain ⟨roots, stack, onPath, visited, cycles⟩ := s
  cases stack with
  | nil =>
    cases roots with
    | nil => exact ⟨rfl, rfl⟩
    | cons root roots => simp [step] at stuck
  | cons frame below =>
    simp only [step] at stuck
    cases edge : (g.dependencies frame.node)[frame.next]? <;> simp [edge] at stuck

/-! ## The invariant -/

/-- The modules that the search has met: the path from the outermost module on, then those that are
    done, latest first. -/
def order (s : CycleSearch) : List String := s.path ++ s.visited

/-- A frame stands on the one from which it was entered, by the last edge looked at there. -/
def Joined (g : Graph) (inner outer : Frame) : Prop :=
  ∃ k, outer.next = k + 1 ∧ (g.dependencies outer.node)[k]? = some inner.node

/-- An edge that the search has looked at. -/
def Seen (g : Graph) (s : CycleSearch) (u v : String) : Prop :=
  u ∈ s.visited ∧ v ∈ g.dependencies u ∨
    ∃ frame ∈ s.stack, frame.node = u ∧ v ∈ (g.dependencies u).take frame.next

/-- An edge closes a reported cycle or leads to a module that is done before its own. -/
def Settled (s : CycleSearch) (u v : String) : Prop :=
  (∃ cycle ∈ s.cycles, [u, v] <:+ cycle) ∨ [u, v].Sublist s.order

/-- What holds between two steps. -/
structure Consistent (g : Graph) (s : CycleSearch) : Prop where
  nodup : s.order.Nodup
  mem_onPath_iff : ∀ id, id ∈ s.onPath ↔ id ∈ s.path
  joined : s.stack.IsChain (Joined g)
  covered : ∀ id ∈ g.nodeIds, id ∈ s.roots ∨ id ∈ s.order
  cycles : ∀ cycle ∈ s.cycles, g.IsCycle cycle
  settled : ∀ u v, s.Seen g u v → s.Settled u v

theorem consistent_start (g : Graph) : (start g).Consistent g where
  nodup := .nil
  mem_onPath_iff _ := Iff.rfl
  joined := .nil
  covered _ node := .inl node
  cycles _ found := absurd found List.not_mem_nil
  settled u v seen := by simp [Seen, start] at seen

/-! ## The path -/

theorem path_push (s : CycleSearch) (node : String) : (s.push node).path = s.path ++ [node] := by
  simp [path, push]

theorem order_push (s : CycleSearch) (node : String) :
    (s.push node).order = s.path ++ node :: s.visited := by
  rw [order, path_push, List.append_assoc]
  rfl

theorem path_of_stack {frame : Frame} {below : List Frame} (stack : s.stack = frame :: below) :
    s.path = (below.map (·.node)).reverse ++ [frame.node] := by
  simp [path, stack]

theorem getLast?_path {frame : Frame} {below : List Frame} (stack : s.stack = frame :: below) :
    s.path.getLast? = some frame.node := by
  simp [path_of_stack stack]

/-- Whatever comes behind the path comes behind the innermost module. -/
theorem forwards_of_mem {frame : Frame} {below : List Frame} {behind : List String}
    (stack : s.stack = frame :: below) (member : target ∈ behind) :
    [frame.node, target].Sublist (s.path ++ behind) := by
  rw [path_of_stack stack, List.append_assoc]
  refine List.Sublist.trans ?_ (List.sublist_append_right _ _)
  exact (List.singleton_sublist.mpr member).cons_cons frame.node

/-- The path is a path of the graph. -/
theorem isChain_path (joined : s.stack.IsChain (Joined g)) : s.path.IsChain g.Imports := by
  rw [path, List.isChain_reverse, List.isChain_map]
  refine joined.imp fun inner outer ⟨k, _, edge⟩ => ?_
  exact List.mem_of_getElem? edge

theorem cycleAt_eq (on : target ∈ s.path) :
    ∃ before rest, s.path = before ++ target :: rest ∧ s.cycleAt target = target :: rest ++ [target] := by
  obtain ⟨before, rest, path, first⟩ := List.eq_append_cons_of_mem on
  have missing : before.findIdx? (· == target) = none := by
    refine List.findIdx?_eq_none_iff.mpr fun id old => beq_false_of_ne ?_
    rintro rfl
    exact first old
  have place : s.path.findIdx? (· == target) = some before.length := by
    rw [path, List.findIdx?_append, missing, List.findIdx?_cons]
    simp
  refine ⟨before, rest, path, ?_⟩
  rw [cycleAt, place, path]
  simp

/-- What the search reports is a cycle, and its last edge is the one just looked at. -/
theorem isCycle_cycleAt (ok : s.Consistent g) (last : s.path.getLast? = some u)
    (edge : g.Imports u target) (on : target ∈ s.path) :
    g.IsCycle (s.cycleAt target) ∧ [u, target] <:+ s.cycleAt target := by
  obtain ⟨before, rest, path, cycle⟩ := cycleAt_eq on
  rw [path, List.getLast?_append_of_ne_nil _ (List.cons_ne_nil _ _)] at last
  obtain ⟨front, split⟩ := List.getLast?_eq_some_iff.mp last
  have chain : (target :: rest).IsChain g.Imports :=
    (List.isChain_append.mp (path ▸ isChain_path ok.joined)).2.1
  have distinct : (target :: rest).Nodup :=
    (List.nodup_append.mp (path ▸ (List.nodup_append.mp ok.nodup).1)).2.1
  rw [cycle]
  refine ⟨⟨target, rest, rfl, distinct, ?_⟩, front, by simp [split]⟩
  refine List.isChain_append.mpr ⟨chain, .singleton _, fun x here y there => ?_⟩
  obtain rfl := Option.some.inj (last.symm.trans here)
  obtain rfl : target = y := by simpa using there
  exact edge

/-! ## Edges -/

theorem Settled.mono (settled : s.Settled u v) (cycles : ∀ cycle ∈ s.cycles, cycle ∈ t.cycles)
    (order : s.order.Sublist t.order) : t.Settled u v := by
  rcases settled with ⟨cycle, found, closes⟩ | forwards
  · exact .inl ⟨cycle, cycles cycle found, closes⟩
  · exact .inr (forwards.trans order)

theorem order_advance (s : CycleSearch) : s.advance.order = s.order := by
  rw [order, path_advance]
  rfl

theorem Settled.push (settled : s.Settled u v) (node : String) : (s.push node).Settled u v := by
  refine settled.mono (fun _ found => found) ?_
  rw [order_push]
  exact (List.sublist_cons_self node s.visited).append_left s.path

theorem Settled.advance (settled : s.Settled u v) : s.advance.Settled u v :=
  settled.mono (fun _ found => found) (order_advance s ▸ List.Sublist.refl _)

/-- A module that has just been entered has no edges looked at. -/
theorem Seen.of_push (seen : (s.push node).Seen g u v) : s.Seen g u v := by
  rcases seen with done | ⟨frame, member, same, looked⟩
  · exact .inl done
  · rcases List.mem_cons.mp member with rfl | old
    · simp at looked
    · exact .inr ⟨frame, old, same, looked⟩

theorem Seen.of_advance {frame : Frame} {below : List Frame} (stack : s.stack = frame :: below)
    (edge : (g.dependencies frame.node)[frame.next]? = some target) (seen : s.advance.Seen g u v) :
    s.Seen g u v ∨ u = frame.node ∧ v = target := by
  rcases seen with done | ⟨other, member, rfl, looked⟩
  · exact .inl (.inl done)
  · rw [advance, stack, List.modifyHead_cons] at member
    rcases List.mem_cons.mp member with rfl | old
    · rw [List.take_add_one, edge, List.mem_append] at looked
      rcases looked with before | last
      · exact .inl (.inr ⟨frame, stack ▸ List.mem_cons_self, rfl, before⟩)
      · exact .inr ⟨rfl, by simpa using last⟩
    · exact .inl (.inr ⟨other, stack ▸ List.mem_cons_of_mem frame old, rfl, looked⟩)

/-- A module is left when all its edges have been looked at. -/
theorem Seen.of_leave {frame : Frame} {below : List Frame} {onPath : List String}
    (stack : s.stack = frame :: below) (ended : (g.dependencies frame.node)[frame.next]? = none)
    (seen : { s with stack := below, onPath, visited := frame.node :: s.visited }.Seen g u v) :
    s.Seen g u v := by
  rcases seen with ⟨done, edge⟩ | ⟨other, member, same, looked⟩
  · rcases List.mem_cons.mp done with rfl | old
    · refine .inr ⟨frame, stack ▸ List.mem_cons_self, rfl, ?_⟩
      rwa [List.take_of_length_le (List.getElem?_eq_none_iff.mp ended)]
    · exact .inl ⟨old, edge⟩
  · exact .inr ⟨other, stack ▸ List.mem_cons_of_mem frame member, same, looked⟩

/-! ## The steps -/

theorem nodup_push (nodup : s.order.Nodup) (fresh : node ∉ s.order) : (s.push node).order.Nodup := by
  rw [order_push]
  exact List.nodup_middle.mpr (List.nodup_cons.mpr ⟨fresh, nodup⟩)

theorem mem_onPath_push (same : ∀ id, id ∈ s.onPath ↔ id ∈ s.path) (id : String) :
    id ∈ (s.push node).onPath ↔ id ∈ (s.push node).path := by
  rw [path_push, List.mem_append, List.mem_singleton, ← same, or_comm]
  exact List.mem_cons

theorem mem_order_push {id : String} : id ∈ (s.push node).order ↔ id = node ∨ id ∈ s.order := by
  rw [order_push, order, List.mem_append, List.mem_append, List.mem_cons]
  exact or_left_comm

theorem joined_advance (joined : s.stack.IsChain (Joined g)) : s.advance.stack.IsChain (Joined g) := by
  obtain ⟨roots, stack, onPath, visited, cycles⟩ := s
  match stack, joined with
  | [], _ => exact .nil
  | [frame], _ => exact .singleton _
  | inner :: outer :: below, joined =>
    obtain ⟨top, rest⟩ := List.isChain_cons_cons.mp joined
    exact List.isChain_cons_cons.mpr ⟨top, rest⟩

private theorem Consistent.skip (ok : s.Consistent g) {root : String} {roots : List String}
    (next : s.roots = root :: roots) (done : root ∈ s.visited) :
    { s with roots }.Consistent g where
  __ := ok
  covered id member := by
    rcases ok.covered id member with waiting | met
    · rw [next] at waiting
      rcases List.mem_cons.mp waiting with rfl | later
      · exact .inr (List.mem_append_right _ done)
      · exact .inl later
    · exact .inr met

private theorem Consistent.enter (ok : s.Consistent g) {root : String} {roots : List String}
    (idle : s.stack = []) (next : s.roots = root :: roots) (fresh : root ∉ s.visited) :
    ({ s with roots }.push root).Consistent g where
  nodup := by
    refine nodup_push ok.nodup ?_
    simpa [order, path, idle] using fresh
  mem_onPath_iff := mem_onPath_push ok.mem_onPath_iff
  joined := by
    rw [push, idle]
    exact .singleton _
  covered id member := by
    rw [mem_order_push]
    rcases ok.covered id member with waiting | met
    · rw [next] at waiting
      rcases List.mem_cons.mp waiting with rfl | later
      · exact .inr (.inl rfl)
      · exact .inl later
    · exact .inr (.inr met)
  cycles := ok.cycles
  settled u v seen := Settled.push (s := { s with roots }) (ok.settled u v seen.of_push) root

/-- A look at an edge that does not lead deeper. -/
private theorem Consistent.advance (ok : s.Consistent g) {frame : Frame} {below : List Frame}
    (stack : s.stack = frame :: below) (edge : (g.dependencies frame.node)[frame.next]? = some target)
    (settled : s.Settled frame.node target) : s.advance.Consistent g where
  nodup := (order_advance s).symm ▸ ok.nodup
  mem_onPath_iff id := by
    rw [path_advance]
    exact ok.mem_onPath_iff id
  joined := joined_advance ok.joined
  covered id member := (order_advance s).symm ▸ ok.covered id member
  cycles := ok.cycles
  settled u v seen := by
    rcases seen.of_advance stack edge with old | ⟨rfl, rfl⟩
    · exact (ok.settled u v old).advance
    · exact settled.advance

private theorem Consistent.report (ok : s.Consistent g) {cycle : List String} (is : g.IsCycle cycle) :
    (s.report cycle).Consistent g where
  __ := ok
  cycles other found := by
    rcases List.mem_cons.mp found with rfl | old
    · exact is
    · exact ok.cycles other old
  settled u v seen :=
    (ok.settled u v seen).mono (fun _ found => List.mem_cons_of_mem _ found) (List.Sublist.refl _)

private theorem Consistent.descend (ok : s.Consistent g) {frame : Frame} {below : List Frame}
    (stack : s.stack = frame :: below) (edge : (g.dependencies frame.node)[frame.next]? = some target)
    (fresh : target ∉ s.visited) (off : target ∉ s.onPath) : (s.advance.push target).Consistent g where
  nodup := by
    refine nodup_push ((order_advance s).symm ▸ ok.nodup) ?_
    rw [order_advance, order, List.mem_append, ← ok.mem_onPath_iff]
    exact fun met => met.elim off fresh
  mem_onPath_iff := by
    refine mem_onPath_push fun id => ?_
    rw [path_advance]
    exact ok.mem_onPath_iff id
  joined := by
    have above := joined_advance ok.joined
    rw [CycleSearch.advance, stack, List.modifyHead_cons] at above ⊢
    exact List.isChain_cons_cons.mpr ⟨⟨frame.next, rfl, edge⟩, above⟩
  covered id member := by
    rw [mem_order_push, order_advance]
    exact (ok.covered id member).imp_right .inr
  cycles := ok.cycles
  settled u v seen := by
    rcases seen.of_push.of_advance stack edge with old | ⟨rfl, rfl⟩
    · exact (ok.settled u v old).advance.push _
    · -- The new module stands right behind the one from which it was entered.
      refine .inr ?_
      rw [order_push, path_advance]
      exact forwards_of_mem stack List.mem_cons_self

private theorem Consistent.leave (ok : s.Consistent g) {frame : Frame} {below : List Frame}
    (stack : s.stack = frame :: below) (ended : (g.dependencies frame.node)[frame.next]? = none) :
    { s with
      stack := below
      onPath := s.onPath.filter (· ≠ frame.node)
      visited := frame.node :: s.visited }.Consistent g := by
  have order : CycleSearch.order { s with
      stack := below
      onPath := s.onPath.filter (· ≠ frame.node)
      visited := frame.node :: s.visited } = s.order := by
    rw [CycleSearch.order, CycleSearch.order, path_of_stack stack, List.append_assoc]
    rfl
  refine ⟨order ▸ ok.nodup, fun id => ?_, ?_, fun id member => order ▸ ok.covered id member, ok.cycles,
    fun u v seen => ?_⟩
  · have alone : frame.node ∉ (below.map (·.node)).reverse := by
      have distinct := (List.nodup_append.mp ok.nodup).1
      rw [path_of_stack stack, List.nodup_append] at distinct
      exact fun member => distinct.2.2 _ member _ (List.mem_singleton.mpr rfl) rfl
    rw [List.mem_filter, ok.mem_onPath_iff, path_of_stack stack, List.mem_append, List.mem_singleton]
    constructor
    · rintro ⟨old | rfl, differ⟩
      · exact old
      · simp at differ
    · intro old
      refine ⟨.inl old, decide_eq_true ?_⟩
      rintro rfl
      exact alone old
  · exact (stack ▸ ok.joined).tail
  · exact (ok.settled u v (seen.of_leave stack ended)).mono (fun _ found => found) (order ▸ .refl _)

theorem Consistent.step (ok : s.Consistent g) (stepped : s.step g = some t) : t.Consistent g := by
  cases moves_of_step stepped with
  | skip _ next done => exact ok.skip next done
  | enter idle next fresh => exact ok.enter idle next fresh
  | pass stack edge done =>
    exact ok.advance stack edge (.inr (forwards_of_mem stack done))
  | close stack edge on =>
    obtain ⟨is, closes⟩ := isCycle_cycleAt ok (getLast?_path stack) (List.mem_of_getElem? edge)
      ((ok.mem_onPath_iff _).mp on)
    exact (ok.report is).advance stack edge (.inl ⟨_, List.mem_cons_self, closes⟩)
  | descend stack edge fresh off => exact ok.descend stack edge fresh off
  | leave stack ended => exact ok.leave stack ended

/-! ## The whole search -/

/-- The steps of a search end. -/
theorem halts_run (g : Graph) (s : CycleSearch) : ∃ n, Halts (step g) s n (s.run g) := by
  fun_induction CycleSearch.run g s with
  | case1 s stuck => exact ⟨0, .stop stuck⟩
  | case2 s t stepped ih =>
    obtain ⟨n, halts⟩ := ih
    exact ⟨n + 1, .next stepped halts⟩

theorem Consistent.run (ok : s.Consistent g) : (s.run g).Consistent g := by
  obtain ⟨n, halts⟩ := halts_run g s
  exact halts.keeps (fun s t stepped ok => ok.step stepped) ok

theorem run_idle (g : Graph) (s : CycleSearch) : (s.run g).stack = [] ∧ (s.run g).roots = [] := by
  obtain ⟨n, halts⟩ := halts_run g s
  exact idle_of_step_eq_none halts.stuck

end CycleSearch

namespace Graph
variable {g : Graph} {u v : String}

/-- An edge that closes a reported cycle. -/
def Closes (g : Graph) (u v : String) : Prop := ∃ cycle ∈ g.findCycles, [u, v] <:+ cycle

theorem isCycle_of_mem_findCycles {cycle : List String} (found : cycle ∈ g.findCycles) :
    g.IsCycle cycle :=
  (CycleSearch.consistent_start g).run.cycles cycle (List.mem_reverse.mp found)

/-- The modules can be listed so that an edge that closes no reported cycle always goes forwards. -/
theorem WellIndexed.exists_order (ok : g.WellIndexed) :
    ∃ order : List String, order.Nodup ∧ (∀ id ∈ g.nodeIds, id ∈ order) ∧
      ∀ u v, g.Imports u v → g.Closes u v ∨ [u, v].Sublist order := by
  have done := (CycleSearch.consistent_start g).run
  obtain ⟨stack, roots⟩ := CycleSearch.run_idle g (.start g)
  have covered : ∀ id ∈ g.nodeIds, id ∈ ((CycleSearch.start g).run g).order := by
    intro id node
    exact (done.covered id node).resolve_left (by simp [roots])
  refine ⟨_, done.nodup, covered, fun u v edge => ?_⟩
  have visited : u ∈ ((CycleSearch.start g).run g).visited := by
    simpa [CycleSearch.order, CycleSearch.path, stack] using covered u (ok.source_mem u v edge)
  refine (done.settled u v (.inl ⟨visited, edge⟩)).imp_left ?_
  rintro ⟨cycle, found, closes⟩
  exact ⟨cycle, List.mem_reverse.mpr found, closes⟩

end Graph
end ModuleGraph
