import ModuleGraph.Graph.Summary
import ModuleGraph.Proofs.Graph.Component
import ModuleGraph.Proofs.Graph.Cycle

/-!
The two views of the cycles in a summary. A single pass reports some cycles only, but it meets every
tangled group: of the members of a group, the one that is left first has an edge into the group, and
nothing of the group is done by then, so this edge closes a reported cycle
(`exists_cycle_of_mem_tangledGroups`).
-/
namespace ModuleGraph

/-- Of the entries of a list that satisfy something, one has no other one behind it. -/
theorem exists_last_of_mem {α : Type} {order : List α} {p : α → Prop} {x : α} (distinct : order.Nodup)
    (member : x ∈ order) (holds : p x) : ∃ u ∈ order, p u ∧ ∀ v, p v → ¬[u, v].Sublist order := by
  induction order generalizing x with
  | nil => simp at member
  | cons head rest ih =>
    obtain ⟨alone, distinct⟩ := List.nodup_cons.mp distinct
    by_cases later : ∃ y ∈ rest, p y
    · obtain ⟨y, inside, holds⟩ := later
      obtain ⟨u, behind, holds, last⟩ := ih distinct inside holds
      refine ⟨u, List.mem_cons_of_mem head behind, holds, fun v other forwards => ?_⟩
      cases forwards with
      | cons _ forwards => exact last v other forwards
      | cons_cons _ _ => exact alone behind
    · rcases List.mem_cons.mp member with rfl | behind
      · refine ⟨x, List.mem_cons_self, holds, fun v other forwards => later ⟨v, ?_, other⟩⟩
        exact List.singleton_sublist.mp (List.cons_sublist_cons.mp forwards)
      · exact absurd ⟨x, behind, holds⟩ later

namespace Graph
variable {g : Graph} {a b : String} {cycle group : List String}

/-- All modules of a cycle lead to each other. -/
theorem IsCycle.leadsTo (is : g.IsCycle cycle) (left : a ∈ cycle) (right : b ∈ cycle) :
    g.LeadsTo a b := by
  obtain ⟨first, rest, rfl, -, chain⟩ := is
  have paths : (first :: rest ++ [first]).Pairwise g.LeadsTo :=
    List.isChain_iff_pairwise.mp (chain.imp fun _ _ edge => .single edge)
  have toFirst : ∀ id ∈ first :: rest, g.LeadsTo id first := fun id member =>
    (List.pairwise_append.mp paths).2.2 id member first (List.mem_singleton.mpr rfl)
  have fromFirst : ∀ id ∈ rest ++ [first], g.LeadsTo first id := (List.pairwise_cons.mp paths).1
  have members : ∀ id ∈ first :: rest ++ [first], id ∈ first :: rest ∧ id ∈ rest ++ [first] := by
    intro id member
    rcases List.mem_append.mp member with front | last
    · refine ⟨front, ?_⟩
      rcases List.mem_cons.mp front with rfl | inner
      · exact List.mem_append_right _ (List.mem_singleton.mpr rfl)
      · exact List.mem_append_left _ inner
    · exact ⟨List.mem_singleton.mp last ▸ List.mem_cons_self, List.mem_append_right _ last⟩
  exact (toFirst a (members a left).1).trans (fromFirst b (members b right).2)

/-- A path to another module has a first step away. -/
theorem exists_step_of_leadsTo (path : g.LeadsTo a b) (differ : a ≠ b) :
    ∃ c, c ≠ a ∧ g.Imports a c ∧ (c = b ∨ g.LeadsTo c b) := by
  induction path using Relation.TransGen.head_induction_on with
  | single edge => exact ⟨b, differ.symm, edge, .inl rfl⟩
  | @head a c edge path ih =>
    by_cases same : c = a
    · subst same
      exact ih differ
    · exact ⟨c, same, edge, .inr path⟩

/-- A cycle through two modules lies in their group. -/
theorem IsCycle.subset_component (is : g.IsCycle cycle) (ok : g.WellIndexed) (left : a ∈ cycle)
    (right : b ∈ cycle) : b ∈ g.component a :=
  have path := is.leadsTo left right
  mem_component.mpr ⟨(ok.mem_of_leadsTo path).2, .inr ⟨path, is.leadsTo right left⟩⟩

theorem WellIndexed.exists_cycle_of_mem_tangledGroups (ok : g.WellIndexed)
    (found : group ∈ g.tangledGroups) :
    ∃ cycle ∈ g.findCycles, (∃ a ∈ cycle, ∃ b ∈ cycle, a ≠ b) ∧ ∀ id ∈ cycle, id ∈ group := by
  obtain ⟨order, distinct, listed, forwards⟩ := ok.exists_order
  obtain ⟨first, member, _⟩ := exists_ne_of_mem_tangledGroups ok found
  have nodes : ∀ id ∈ group, id ∈ g.nodeIds := by
    intro id member
    rw [eq_component_of_mem ok found member] at member
    exact (mem_component.mp member).1
  obtain ⟨u, -, inside, last⟩ := exists_last_of_mem distinct (listed first (nodes first member)) member
  obtain ⟨w, other, differ⟩ : ∃ w ∈ group, u ≠ w := by
    obtain ⟨a, left, b, right, differ⟩ := exists_ne_of_mem_tangledGroups ok found
    by_cases same : u = a
    · exact ⟨b, right, same ▸ differ⟩
    · exact ⟨a, left, same⟩
  have whole := eq_component_of_mem ok found inside
  obtain ⟨there, back⟩ := ((mem_component.mp (whole ▸ other)).2).resolve_left differ
  obtain ⟨v, away, edge, onward⟩ := exists_step_of_leadsTo there differ
  have returns : g.LeadsTo v u := by
    rcases onward with rfl | onward
    · exact back
    · exact onward.trans back
  have member : v ∈ group := by
    rw [whole, mem_component]
    exact ⟨ok.target_mem u v edge, .inr ⟨.single edge, returns⟩⟩
  obtain ⟨cycle, reported, closes⟩ := (forwards u v edge).resolve_right (last v member)
  have left : u ∈ cycle := closes.subset List.mem_cons_self
  have right : v ∈ cycle := closes.subset (List.mem_cons_of_mem u List.mem_cons_self)
  refine ⟨cycle, reported, ⟨u, left, v, right, away.symm⟩, fun id inside => ?_⟩
  rw [whole]
  exact (isCycle_of_mem_findCycles reported).subset_component ok left inside

theorem WellIndexed.existsUnique_group_of_mem_findCycles (ok : g.WellIndexed)
    (reported : cycle ∈ g.findCycles) (left : a ∈ cycle) (right : b ∈ cycle) (differ : a ≠ b) :
    ∃! group, group ∈ g.tangledGroups ∧ ∀ id ∈ cycle, id ∈ group := by
  have is := isCycle_of_mem_findCycles reported
  have inside := fun id => is.subset_component (b := id) ok left
  have tangled := (mem_component.mp (inside b right)).2
  refine ⟨g.component a, ⟨component_mem_tangledGroups ok differ tangled, inside⟩, ?_⟩
  rintro group ⟨found, whole⟩
  exact eq_component_of_mem ok found (whole a left)

/-- A module that imports itself is reported as a cycle. -/
theorem WellIndexed.exists_cycle_of_imports_self (ok : g.WellIndexed) (edge : g.Imports a a) :
    ∃ cycle, cycle ∈ g.findCycles := by
  obtain ⟨order, distinct, -, forwards⟩ := ok.exists_order
  obtain ⟨cycle, reported, -⟩ :=
    (forwards a a edge).resolve_right (List.nodup_iff_sublist.mp distinct a)
  exact ⟨cycle, reported⟩

theorem WellIndexed.findCycles_ne_nil_iff (ok : g.WellIndexed) :
    g.findCycles ≠ [] ↔ g.tangledGroups ≠ [] ∨ ∃ id, g.Imports id id := by
  constructor
  · intro some
    obtain ⟨cycle, reported⟩ := List.exists_mem_of_ne_nil _ some
    obtain ⟨first, rest, shape, distinct, chain⟩ := isCycle_of_mem_findCycles reported
    cases rest with
    | nil =>
      subst shape
      exact .inr ⟨first, (List.isChain_cons_cons.mp chain).1⟩
    | cons second rest =>
      have differ : first ≠ second := fun same =>
        (List.nodup_cons.mp distinct).1 (same ▸ List.mem_cons_self)
      obtain ⟨group, ⟨found, -⟩, -⟩ := ok.existsUnique_group_of_mem_findCycles reported
        (a := first) (b := second) (by simp [shape]) (by simp [shape]) differ
      exact .inl (List.ne_nil_of_mem found)
  · rintro (some | ⟨id, edge⟩)
    · obtain ⟨group, found⟩ := List.exists_mem_of_ne_nil _ some
      obtain ⟨cycle, reported, -⟩ := ok.exists_cycle_of_mem_tangledGroups found
      exact List.ne_nil_of_mem reported
    · obtain ⟨cycle, reported⟩ := ok.exists_cycle_of_imports_self edge
      exact List.ne_nil_of_mem reported

end Graph

/-- The cycles of a summary and its groups agree, however the graph came about: there are cycles
    exactly if there is a group or a module that imports itself, a cycle through two modules lies in
    one group, and every group holds all of a cycle through two modules. -/
theorem Summary.ofGraph_cycles_consistent (changes : List GraphChange) (top : Nat) :
    let g := Graph.ofChanges changes
    let summary := Summary.ofGraph g top
    (summary.hasCycles = true ↔ summary.tangledGroups ≠ [] ∨ ∃ id, id ∈ g.dependencies id) ∧
      (∀ cycle ∈ summary.cycles, (∃ a ∈ cycle, ∃ b ∈ cycle, a ≠ b) →
        ∃! group, group ∈ summary.tangledGroups ∧ ∀ id ∈ cycle, id ∈ group) ∧
      ∀ group ∈ summary.tangledGroups, ∃ cycle ∈ summary.cycles,
        (∃ a ∈ cycle, ∃ b ∈ cycle, a ≠ b) ∧ ∀ id ∈ cycle, id ∈ group := by
  intro g summary
  have ok : g.WellIndexed := Graph.wellIndexed_ofChanges changes
  refine ⟨?_, ?_, fun group found => ok.exists_cycle_of_mem_tangledGroups found⟩
  · refine Iff.trans ?_ ok.findCycles_ne_nil_iff
    simp [summary, ofGraph]
  · rintro cycle reported ⟨a, left, b, right, differ⟩
    exact ok.existsUnique_group_of_mem_findCycles reported left right differ

end ModuleGraph
