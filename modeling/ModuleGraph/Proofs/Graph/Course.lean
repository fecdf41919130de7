import ModuleGraph.Proofs.Graph.Cycle
import ModuleGraph.Proofs.Graph.Degree

/-!
The course of the search for cycles: what its stack, its path and the modules that are done have to do
with each other between any two steps (`CycleSearch.Synchronised`), and what the steps do in all. A step
puts a module on the path, takes one away or does neither (`CycleSearch.Moves.path`). Whatever comes onto
the path comes into `CycleSearch.order`, whatever leaves it is done, and an edge that is examined counts
among those that have been looked at (`CycleSearch.looked`); at the end these are all modules, all modules
and all edges (`Graph.ofChanges_course`).
-/
namespace ModuleGraph

theorem append_diff_left {α : Type} [DecidableEq α] (front back : List α) :
    (front ++ back).diff front = back := by
  induction front with
  | nil => rfl
  | cons x rest ih => rw [List.cons_append, List.diff_cons, List.erase_cons_head, ih]

theorem diff_append_left {α : Type} [DecidableEq α] (front back : List α) :
    front.diff (front ++ back) = [] := by
  have none : front.diff front = [] := by simpa using append_diff_left front []
  rw [List.diff_append, none, List.nil_diff]

namespace CycleSearch
variable {g : Graph} {s t : CycleSearch} {u v : String}

/-- How the stack, the path and the modules that are done stand to each other. -/
structure Synchronised (g : Graph) (s : CycleSearch) : Prop where
  distinct : (s.stack.map (·.node)).Nodup
  onPath_iff : ∀ id, id ∈ s.onPath ↔ id ∈ s.stack.map (·.node)
  apart : ∀ id ∈ s.visited, id ∉ s.onPath
  joined : s.stack.IsChain (Joined g)
  closed : ∀ u ∈ s.visited, ∀ v ∈ g.dependencies u, v ∈ s.visited ∨ v ∈ s.onPath
  located : ∀ id ∈ s.onPath, ∃ place, s.path.findIdx? (· == id) = some place ∧ s.path[place]? = some id

/-- The modules that are on the path after a step and were not before it. -/
def entered (s t : CycleSearch) : List String := t.path.diff s.path

/-- The modules that were on the path before a step and are not after it. -/
def left (s t : CycleSearch) : List String := s.path.diff t.path

/-- The edge that the next step examines. -/
def examined (g : Graph) (s : CycleSearch) : List (String × String) :=
  match s.stack with
  | [] => []
  | frame :: _ => (g.dependencies frame.node)[frame.next]?.toList.map (frame.node, ·)

/-! ## Where the search has been -/

/-- The search keeps to the modules, and an edge that it has looked at leads to one that it has met. -/
structure Inside (g : Graph) (s : CycleSearch) : Prop where
  roots : ∀ id ∈ s.roots, id ∈ g.nodeIds
  order : ∀ id ∈ s.order, id ∈ g.nodeIds
  seen : ∀ u v, s.Seen g u v → v ∈ s.order

theorem inside_start (g : Graph) : (start g).Inside g where
  roots _ node := node
  order _ met := absurd met List.not_mem_nil
  seen u v seen := by simp [Seen, start] at seen

/-- What a step does to the path: a module is put on it, or taken off it and done, or it stays. -/
theorem Moves.path (moves : Moves g s t) :
    (t.path = s.path ∧ t.visited = s.visited) ∨
      (∃ id, t.path = s.path ++ [id] ∧ t.visited = s.visited) ∨
      ∃ id, s.path = t.path ++ [id] ∧ t.visited = id :: s.visited := by
  cases moves with
  | skip => exact .inl ⟨rfl, rfl⟩
  | @enter root roots => exact .inr (.inl ⟨root, path_push _ root, rfl⟩)
  | pass | close => exact .inl ⟨path_advance s, rfl⟩
  | @descend _ _ target => exact .inr (.inl ⟨target, by rw [path_push, path_advance], rfl⟩)
  | @leave frame _ stack => exact .inr (.inr ⟨frame.node, path_of_stack stack, rfl⟩)

/-- What comes onto the path is met. -/
theorem Moves.order_perm (moves : Moves g s t) : t.order.Perm (s.order ++ s.entered t) := by
  rcases moves.path with ⟨path, visited⟩ | ⟨id, path, visited⟩ | ⟨id, path, visited⟩
  · have none : s.entered t = [] := by simpa [entered, path] using diff_append_left s.path []
    rw [none, List.append_nil, order, order, path, visited]
  · rw [entered, order, order, path, visited, append_diff_left, List.append_assoc, List.append_assoc]
    exact List.perm_append_comm.append_left s.path
  · rw [entered, order, order, path, visited, diff_append_left, List.append_nil, List.append_assoc]
    exact .refl _

/-- What leaves the path is done. -/
theorem Moves.visited_perm (moves : Moves g s t) : t.visited.Perm (s.visited ++ s.left t) := by
  rcases moves.path with ⟨path, visited⟩ | ⟨id, path, visited⟩ | ⟨id, path, visited⟩
  · have none : s.left t = [] := by simpa [left, path] using diff_append_left s.path []
    rw [none, List.append_nil, visited]
  · rw [left, path, visited, diff_append_left, List.append_nil]
  · rw [left, path, visited, append_diff_left]
    exact (List.perm_append_singleton id s.visited).symm

theorem Moves.mem_order (moves : Moves g s t) {id : String} (met : id ∈ s.order) : id ∈ t.order :=
  moves.order_perm.mem_iff.mpr (List.mem_append_left _ met)

/-- An edge that has been looked at by the end of a step leads to a module that has been met by then. -/
theorem Moves.mem_order_of_seen (moves : Moves g s t) (ok : s.Consistent g) (inside : s.Inside g)
    (seen : t.Seen g u v) : v ∈ t.order := by
  have old (before : s.Seen g u v) : v ∈ t.order := moves.mem_order (inside.seen u v before)
  cases moves with
  | skip => exact old seen
  | enter => exact old seen.of_push
  | pass stack edge done =>
    rcases seen.of_advance stack edge with before | ⟨rfl, rfl⟩
    · exact old before
    · exact List.mem_append_right _ done
  | close stack edge on =>
    rcases Seen.of_advance stack edge seen with before | ⟨rfl, rfl⟩
    · exact old before
    · refine List.mem_append_left _ ?_
      exact (path_advance s).symm ▸ (ok.mem_onPath_iff _).mp on
  | descend stack edge =>
    rcases seen.of_push.of_advance stack edge with before | ⟨rfl, rfl⟩
    · exact old before
    · exact mem_order_push.mpr (.inl rfl)
  | leave stack ended => exact old (seen.of_leave stack ended)

theorem Inside.step (inside : s.Inside g) (known : g.WellIndexed) (ok : s.Consistent g)
    (stepped : s.step g = some t) : t.Inside g := by
  have moves := moves_of_step stepped
  have seen := fun u v => moves.mem_order_of_seen (u := u) (v := v) ok inside
  cases moves with
  | @skip root roots idle next done =>
    exact ⟨fun id later => inside.roots id (next ▸ List.mem_cons_of_mem root later), inside.order, seen⟩
  | @enter root roots idle next fresh =>
    refine ⟨fun id later => inside.roots id (next ▸ List.mem_cons_of_mem root later), fun id met => ?_, seen⟩
    rcases mem_order_push.mp met with rfl | old
    · exact inside.roots id (next ▸ List.mem_cons_self)
    · exact inside.order id old
  | pass | close => exact ⟨inside.roots, fun id met => inside.order id (order_advance s ▸ met), seen⟩
  | @descend frame below target stack edge fresh off =>
    refine ⟨inside.roots, fun id met => ?_, seen⟩
    rcases mem_order_push.mp met with rfl | old
    · exact known.target_mem frame.node id (List.mem_of_getElem? edge)
    · exact inside.order id (order_advance s ▸ old)
  | @leave frame below stack ended =>
    refine ⟨inside.roots, fun id met => inside.order id ?_, seen⟩
    rw [CycleSearch.order, path_of_stack stack, List.append_assoc]
    exact met

theorem Consistent.synchronised (ok : s.Consistent g) (inside : s.Inside g) : s.Synchronised g := by
  obtain ⟨distinct, -, apart⟩ := List.nodup_append.mp ok.nodup
  refine ⟨List.nodup_reverse.mp distinct, fun id => ?_, fun id done on => ?_, ok.joined, fun u done v edge => ?_,
    fun id on => ?_⟩
  · rw [ok.mem_onPath_iff, path, List.mem_reverse]
  · exact apart id ((ok.mem_onPath_iff id).mp on) id done rfl
  · rcases List.mem_append.mp (inside.seen u v (.inl ⟨done, edge⟩)) with on | done
    · exact .inr ((ok.mem_onPath_iff v).mpr on)
    · exact .inl done
  · have found : (s.path.findIdx? (· == id)).isSome = true := by
      rw [List.findIdx?_isSome, List.any_eq_true]
      exact ⟨id, (ok.mem_onPath_iff id).mp on, beq_self_eq_true id⟩
    obtain ⟨place, found⟩ := Option.isSome_iff_exists.mp found
    obtain ⟨bound, same, -⟩ := List.findIdx?_eq_some_iff_getElem.mp found
    exact ⟨place, found, by rw [List.getElem?_eq_getElem bound, eq_of_beq same]⟩

/-! ## The edges that have been looked at -/

/-- The edges that a search has looked at: all of the modules that are done, and on the path those before
    the saved index. -/
def looked (g : Graph) (s : CycleSearch) : List (String × String) :=
  s.visited.flatMap (fun id => (g.dependencies id).map (id, ·)) ++
    s.stack.flatMap fun frame => ((g.dependencies frame.node).take frame.next).map (frame.node, ·)

theorem examined_of_idle (idle : s.stack = []) : s.examined g = [] := by
  rw [examined, idle]

theorem looked_push (s : CycleSearch) (node : String) : (s.push node).looked g = s.looked g := by
  simp [looked, push]

theorem looked_advance {frame : Frame} {below : List Frame} {target : String} (stack : s.stack = frame :: below)
    (edge : (g.dependencies frame.node)[frame.next]? = some target) :
    (s.advance.looked g).Perm (s.looked g ++ s.examined g) := by
  have one : s.examined g = [(frame.node, target)] := by simp [examined, stack, edge]
  rw [one, looked, looked, advance, stack, List.modifyHead_cons, List.flatMap_cons, List.flatMap_cons,
    List.take_add_one, edge, List.map_append, List.append_assoc, List.append_assoc, List.append_assoc]
  exact ((List.perm_append_comm.append_left _).append_left _)

/-- The edge that a step examines is looked at from then on. -/
theorem Moves.looked_perm (moves : Moves g s t) : (t.looked g).Perm (s.looked g ++ s.examined g) := by
  cases moves with
  | skip idle =>
    rw [examined_of_idle idle, List.append_nil]
    exact .refl _
  | enter idle =>
    rw [looked_push, examined_of_idle idle, List.append_nil]
    exact .refl _
  | pass stack edge | close stack edge => exact looked_advance stack edge
  | descend stack edge =>
    rw [looked_push]
    exact looked_advance stack edge
  | @leave frame below stack ended =>
    have none : s.examined g = [] := by simp [examined, stack, ended]
    rw [none, List.append_nil, looked, looked, stack, List.flatMap_cons, List.flatMap_cons,
      List.take_of_length_le (List.getElem?_eq_none_iff.mp ended), ← List.append_assoc]
    exact List.perm_append_comm.append_right _

/-! ## The whole course -/

/-- Once the search is over, all modules are done, each once. -/
theorem visited_perm_of_stuck (ok : s.Consistent g) (inside : s.Inside g) (stuck : s.step g = none) :
    s.order = s.visited ∧ s.visited.Perm g.nodeIds := by
  obtain ⟨stack, roots⟩ := idle_of_step_eq_none stuck
  have whole : s.order = s.visited := by simp [order, path, stack]
  refine ⟨whole, (List.perm_ext_iff_of_nodup (whole ▸ ok.nodup) (OrderedMap.nodup g.nodes)).mpr fun id => ?_⟩
  rw [← whole]
  exact ⟨inside.order id, fun node => (ok.covered id node).resolve_left (by simp [roots])⟩

/-- If all modules are done, each once, all edges have been looked at, each once. -/
theorem looked_perm_of_stuck (known : g.WellIndexed) (stuck : s.step g = none)
    (done : s.visited.Perm g.nodeIds) : (s.looked g).Perm g.edgeList := by
  obtain ⟨stack, -⟩ := idle_of_step_eq_none stuck
  have all : s.looked g = s.visited.flatMap fun id => (g.dependencies id).map (id, ·) := by
    simp [looked, stack]
  have distinct : (s.looked g).Nodup := by
    rw [all]
    exact nodup_flatMap_pairs (done.nodup_iff.mpr (OrderedMap.nodup g.nodes)) known.nodup_dependencies
  refine (List.perm_ext_iff_of_nodup distinct g.nodup_edgeList).mpr fun (source, target) => ?_
  rw [all, mem_flatMap_pairs, Graph.mem_edgeList, done.mem_iff]
  exact and_iff_right_of_imp (known.source_mem source target)

end CycleSearch

/-- The search for cycles passes through states in each of which its stack, its path and the modules that are
    done agree, and ends with the cycles that are reported. Over its course every module comes onto the path
    once and leaves it once, and every edge is examined once. -/
theorem Graph.ofChanges_course (changes : List GraphChange) :
    let g := ofChanges changes
    ∃ states last, Passes (CycleSearch.step g) (.start g) states ∧ states.getLast? = some last ∧
      last.cycles.reverse = g.findCycles ∧ (∀ s ∈ states, s.Synchronised g) ∧
      (overSteps CycleSearch.entered states).Perm g.nodeIds ∧
      (overSteps CycleSearch.left states).Perm g.nodeIds ∧
      (overSteps (fun s _ => s.examined g) states).Perm g.edgeList ∧
      g.nodeIds.Nodup ∧ g.edgeList.Nodup := by
  intro g
  have known : g.WellIndexed := wellIndexed_ofChanges changes
  obtain ⟨n, halts⟩ := CycleSearch.halts_run g (.start g)
  obtain ⟨states, passes, ends⟩ := halts.exists_passes
  let Inv (s : CycleSearch) := s.Consistent g ∧ s.Inside g
  have kept : ∀ s t, s.step g = some t → Inv s → Inv t := fun s t stepped ⟨ok, inside⟩ =>
    ⟨ok.step stepped, inside.step known ok stepped⟩
  have first : Inv (.start g) := ⟨CycleSearch.consistent_start g, CycleSearch.inside_start g⟩
  have all := passes.keeps kept first
  obtain ⟨ok, inside⟩ := all _ (List.mem_of_getLast? ends)
  obtain ⟨whole, done⟩ := CycleSearch.visited_perm_of_stuck ok inside halts.stuck
  have entered := passes.perm_overSteps CycleSearch.order CycleSearch.entered kept
    (fun s t stepped _ => (CycleSearch.moves_of_step stepped).order_perm) first ends
  have left := passes.perm_overSteps CycleSearch.visited CycleSearch.left kept
    (fun s t stepped _ => (CycleSearch.moves_of_step stepped).visited_perm) first ends
  have examined := passes.perm_overSteps (CycleSearch.looked g) (fun s _ => s.examined g) kept
    (fun s t stepped _ => (CycleSearch.moves_of_step stepped).looked_perm) first ends
  refine ⟨states, _, passes, ends, rfl, fun s passed => (all s passed).1.synchronised (all s passed).2,
    ?_, ?_, ?_, OrderedMap.nodup _, g.nodup_edgeList⟩
  · exact entered.symm.trans (whole ▸ done)
  · exact left.symm.trans done
  · exact examined.symm.trans (CycleSearch.looked_perm_of_stuck known halts.stuck done)

end ModuleGraph
