import ModuleGraph.Proofs.Graph.Summary

/-!
What the search for cycles reports and what it leaves. Without the edges that close a reported cycle no
module leads to itself (`WellIndexed.not_remains_self`), so every closed walk takes one of these edges.
No edge closes two reported cycles (`pairwise_findCycles`): an edge is looked at once, and only a look
at it reports a cycle that it closes.
-/
namespace ModuleGraph

namespace CycleSearch
variable {g : Graph} {s t : CycleSearch} {node target u v : String}

/-! ## Edges that have been looked at -/

theorem Seen.push (seen : s.Seen g u v) (node : String) : (s.push node).Seen g u v := by
  rcases seen with done | ⟨frame, member, same, looked⟩
  · exact .inl done
  · exact .inr ⟨frame, List.mem_cons_of_mem _ member, same, looked⟩

theorem Seen.advance (seen : s.Seen g u v) : s.advance.Seen g u v := by
  rcases seen with done | ⟨frame, member, rfl, looked⟩
  · exact .inl done
  · cases stack : s.stack with
    | nil => simp [stack] at member
    | cons top below =>
      rw [stack] at member
      rcases List.mem_cons.mp member with rfl | deeper
      · refine .inr ⟨⟨frame.node, frame.next + 1⟩, by simp [CycleSearch.advance, stack], rfl, ?_⟩
        exact (List.take_sublist_take_left (Nat.le_succ _)).subset looked
      · exact .inr ⟨frame, by simp [CycleSearch.advance, stack, deeper], rfl, looked⟩

/-- The edge that is looked at next counts as looked at from then on. -/
theorem seen_advance {frame : Frame} {below : List Frame} (stack : s.stack = frame :: below)
    (edge : (g.dependencies frame.node)[frame.next]? = some target) :
    s.advance.Seen g frame.node target := by
  refine .inr ⟨⟨frame.node, frame.next + 1⟩, by simp [CycleSearch.advance, stack], rfl, ?_⟩
  rw [List.take_add_one, edge]
  simp

theorem Seen.leave (seen : s.Seen g u v) {frame : Frame} {below : List Frame} {onPath : List String}
    (stack : s.stack = frame :: below) :
    { s with stack := below, onPath, visited := frame.node :: s.visited }.Seen g u v := by
  rcases seen with ⟨done, edge⟩ | ⟨other, member, rfl, looked⟩
  · exact .inl ⟨List.mem_cons_of_mem _ done, edge⟩
  · rw [stack] at member
    rcases List.mem_cons.mp member with rfl | deeper
    · exact .inl ⟨List.mem_cons_self, List.mem_of_mem_take looked⟩
    · exact .inr ⟨other, deeper, rfl, looked⟩

/-- The edge that is looked at next has not been looked at before. -/
theorem not_seen_next (ok : s.Consistent g) {frame : Frame} {below : List Frame}
    (stack : s.stack = frame :: below)
    (edge : (g.dependencies frame.node)[frame.next]? = some target) : ¬s.Seen g frame.node target := by
  obtain ⟨distinct, -, apart⟩ := List.nodup_append.mp ok.nodup
  have onPath : frame.node ∈ s.path := by simp [path_of_stack stack]
  rintro (⟨done, -⟩ | ⟨other, member, same, looked⟩)
  · exact apart _ onPath _ done rfl
  · rw [path_of_stack stack, List.nodup_append] at distinct
    rw [stack] at member
    rcases List.mem_cons.mp member with rfl | deeper
    · obtain ⟨i, bound, before⟩ := List.mem_iff_getElem.mp looked
      have unique : (g.dependencies other.node).Nodup := (g.edgesOf other.node).nodup
      rw [List.getElem_take] at before
      rw [List.length_take] at bound
      obtain ⟨inside, here⟩ := List.getElem?_eq_some_iff.mp edge
      have same : i = other.next := unique.getElem_inj_iff.mp (before.trans here.symm)
      omega
    · refine distinct.2.2 other.node ?_ frame.node (List.mem_singleton.mpr rfl) same
      exact List.mem_reverse.mpr (List.mem_map_of_mem deeper)

/-! ## Closing edges -/

/-- No edge closes two of the cycles found, and those that close one have been looked at. -/
structure Sparing (g : Graph) (s : CycleSearch) : Prop where
  seen : ∀ cycle ∈ s.cycles, ∀ u v, [u, v] <:+ cycle → s.Seen g u v
  apart : s.cycles.Pairwise fun a b => ∀ u v, [u, v] <:+ a → ¬[u, v] <:+ b

theorem sparing_start (g : Graph) : (start g).Sparing g := ⟨by simp [start], .nil⟩

/-- A step that reports no cycle forgets no edge. -/
private theorem Sparing.mono (sparing : s.Sparing g) (cycles : t.cycles = s.cycles)
    (seen : ∀ u v, s.Seen g u v → t.Seen g u v) : t.Sparing g where
  seen cycle found u v closes := seen u v (sparing.seen cycle (cycles ▸ found) u v closes)
  apart := cycles ▸ sparing.apart

theorem Sparing.step (sparing : s.Sparing g) (ok : s.Consistent g) (stepped : s.step g = some t) :
    t.Sparing g := by
  cases moves_of_step stepped with
  | skip _ _ _ => exact sparing.mono rfl fun u v seen => seen
  | enter _ _ _ => exact sparing.mono rfl fun u v seen => seen.push _
  | pass _ _ _ => exact sparing.mono rfl fun u v seen => seen.advance
  | descend _ _ _ _ => exact sparing.mono rfl fun u v seen => seen.advance.push _
  | leave stack _ => exact sparing.mono rfl fun u v seen => seen.leave stack
  | @close frame below target stack edge on =>
    obtain ⟨-, closes⟩ := isCycle_cycleAt ok (getLast?_path stack) (List.mem_of_getElem? edge)
      ((ok.mem_onPath_iff _).mp on)
    have unique : ∀ u v, [u, v] <:+ s.cycleAt target → u = frame.node ∧ v = target := by
      intro u v other
      have same := List.IsSuffix.eq_of_length_le
        (List.suffix_of_suffix_length_le other closes (Nat.le_refl 2)) (Nat.le_refl 2)
      simpa using same
    refine ⟨fun cycle found u v last => ?_, List.pairwise_cons.mpr ⟨fun cycle found u v last other => ?_, sparing.apart⟩⟩
    · rcases List.mem_cons.mp found with rfl | old
      · obtain ⟨rfl, rfl⟩ := unique u v last
        exact seen_advance stack edge
      · exact (sparing.seen cycle old u v last).advance
    · obtain ⟨rfl, rfl⟩ := unique u v last
      exact not_seen_next ok stack edge (sparing.seen cycle found _ _ other)

theorem Sparing.run (sparing : s.Sparing g) (ok : s.Consistent g) : (s.run g).Sparing g := by
  obtain ⟨n, halts⟩ := halts_run g s
  have both : (s.run g).Sparing g ∧ (s.run g).Consistent g :=
    halts.keeps (P := fun s => s.Sparing g ∧ s.Consistent g)
      (fun s t stepped ⟨sparing, ok⟩ => ⟨sparing.step ok stepped, ok.step stepped⟩) ⟨sparing, ok⟩
  exact both.1

end CycleSearch

namespace Graph
variable {g : Graph} {u v id : String} {cycle : List String}

/-- No edge closes two reported cycles. -/
theorem pairwise_findCycles (g : Graph) :
    g.findCycles.Pairwise fun a b => ∀ u v, [u, v] <:+ a → ¬[u, v] <:+ b := by
  have sparing := (CycleSearch.sparing_start g).run (CycleSearch.consistent_start g)
  rw [findCycles, List.pairwise_reverse]
  exact sparing.apart.imp fun differ u v left right => differ u v right left

/-- Every cycle is closed by an edge. -/
theorem IsCycle.exists_closing (is : g.IsCycle cycle) : ∃ u v, [u, v] <:+ cycle ∧ g.Imports u v := by
  obtain ⟨first, rest, rfl, -, chain⟩ := is
  have split := List.dropLast_append_getLast (List.cons_ne_nil first rest)
  rw [← split, List.append_assoc] at chain
  refine ⟨_, first, ⟨(first :: rest).dropLast, ?_⟩, by simpa using (List.isChain_append.mp chain).2.1⟩
  conv => rhs; rw [← split]
  simp

theorem nodup_findCycles (g : Graph) : g.findCycles.Nodup := by
  refine (pairwise_findCycles g).imp_of_mem fun left _ differ => ?_
  rintro rfl
  obtain ⟨u, v, closes, -⟩ := (isCycle_of_mem_findCycles left).exists_closing
  exact differ u v closes closes

/-- A cycle that the edge from a module to itself closes is nothing but that edge. -/
theorem IsCycle.eq_of_self (is : g.IsCycle cycle) (closes : [id, id] <:+ cycle) : cycle = [id, id] := by
  obtain ⟨first, rest, rfl, distinct, -⟩ := is
  obtain ⟨front, split⟩ := closes
  rw [show front ++ [id, id] = (front ++ [id]) ++ [id] by simp] at split
  obtain ⟨split, last⟩ := List.append_inj' split rfl
  cases List.singleton_inj.mp last
  cases front with
  | nil =>
    cases split
    rfl
  | cons head front =>
    cases split
    exact absurd (by simp) (List.nodup_cons.mp distinct).1

/-- The edges that close no reported cycle. -/
def Remains (g : Graph) (u v : String) : Prop := g.Imports u v ∧ ¬g.Closes u v

/-- Without the closing edges no module leads to itself. -/
theorem WellIndexed.not_remains_self (ok : g.WellIndexed) (id : String) :
    ¬Relation.TransGen g.Remains id id := by
  intro circle
  obtain ⟨order, distinct, listed, forwards⟩ := ok.exists_order
  obtain ⟨next, ⟨edge, -⟩, -⟩ := Relation.TransGen.head'_iff.mp circle
  have member : id ∈ order := listed id (ok.source_mem id next edge)
  -- Of the modules on circles, one has no other one behind it; but its circle goes on.
  obtain ⟨u, -, circle, last⟩ :=
    exists_last_of_mem (p := fun id => Relation.TransGen g.Remains id id) distinct member circle
  obtain ⟨v, edge, back⟩ := Relation.TransGen.head'_iff.mp circle
  have onward : Relation.TransGen g.Remains v v := .tail' back edge
  exact last v onward ((forwards u v edge.1).resolve_left edge.2)

/-- A closed walk takes a closing edge. -/
theorem WellIndexed.exists_closing_of_walk (ok : g.WellIndexed) {first : String} {rest : List String}
    (walk : (first :: rest ++ [first]).IsChain g.Imports) :
    ∃ u v, [u, v] <:+: first :: rest ++ [first] ∧ g.Closes u v := by
  by_contra none
  push Not at none
  have kept : (first :: rest ++ [first]).IsChain g.Remains := by
    rw [List.isChain_iff_forall_rel_of_append_cons_cons] at walk ⊢
    intro u v front back split
    exact ⟨walk split, none u v ⟨front, back, by simp [split]⟩⟩
  have paths : (first :: rest ++ [first]).Pairwise (Relation.TransGen g.Remains) :=
    List.isChain_iff_pairwise.mp (kept.imp fun _ _ edge => .single edge)
  exact ok.not_remains_self first ((List.pairwise_cons.mp paths).1 first (by simp))

theorem WellIndexed.findCycles_eq_nil_iff (ok : g.WellIndexed) :
    g.findCycles = [] ↔ ∀ id, ¬g.LeadsTo id id := by
  constructor
  · intro none id circle
    have kept : ∀ u v, g.Imports u v → g.Remains u v := by
      refine fun u v edge => ⟨edge, ?_⟩
      rintro ⟨cycle, found, -⟩
      simp [none] at found
    exact ok.not_remains_self id (Relation.TransGen.mono kept id id circle)
  · intro acyclic
    refine List.eq_nil_iff_forall_not_mem.mpr fun cycle found => ?_
    have is := isCycle_of_mem_findCycles found
    obtain ⟨u, v, closes, -⟩ := is.exists_closing
    have member : u ∈ cycle := closes.subset List.mem_cons_self
    exact acyclic u (is.leadsTo member member)

/-- A module that imports itself is reported once for that, and no other one is. -/
theorem WellIndexed.count_self (ok : g.WellIndexed) (id : String) :
    g.findCycles.count [id, id] = if id ∈ g.dependencies id then 1 else 0 := by
  split
  · rename_i edge
    have walk : (id :: [] ++ [id]).IsChain g.Imports := List.isChain_pair.mpr edge
    obtain ⟨u, v, inside, cycle, found, closes⟩ := ok.exists_closing_of_walk walk
    have same : [u, v] = [id, id] := inside.eq_of_length_le (Nat.le_refl 2)
    rw [same] at closes
    rw [(isCycle_of_mem_findCycles found).eq_of_self closes] at found
    exact List.count_eq_one_of_mem g.nodup_findCycles found
  · rename_i off
    refine List.count_eq_zero.mpr fun found => off ?_
    obtain ⟨first, rest, shape, -, chain⟩ := isCycle_of_mem_findCycles found
    exact List.isChain_pair.mp chain

/-- However a graph came about, each list that is reported for it is a walk along edges that ends where it
    starts and comes through no other module twice. No list is reported twice, no edge closes two of
    them, and there is one as soon as some module leads to itself. -/
theorem ofChanges_findCycles_sound (changes : List GraphChange) :
    let g := ofChanges changes
    (∀ cycle ∈ g.findCycles, 2 ≤ cycle.length ∧ cycle.head? = cycle.getLast? ∧
        cycle.dropLast.Nodup ∧ cycle.IsChain fun u v => v ∈ g.dependencies u) ∧
      g.findCycles.Nodup ∧
      (g.findCycles.Pairwise fun a b => ∀ u v, [u, v] <:+ a → ¬[u, v] <:+ b) ∧
      ∀ id, g.LeadsTo id id → g.findCycles ≠ [] := by
  intro g
  have ok : g.WellIndexed := wellIndexed_ofChanges changes
  refine ⟨fun cycle found => ?_, g.nodup_findCycles, g.pairwise_findCycles, fun id circle none => ?_⟩
  · obtain ⟨first, rest, rfl, distinct, chain⟩ := isCycle_of_mem_findCycles found
    refine ⟨by simp, ?_, ?_, chain⟩
    · rw [List.getLast?_concat]
      rfl
    · rwa [List.dropLast_concat]
  · exact ok.findCycles_eq_nil_iff.mp none id circle

/-- However a graph came about, taking away the edges that close a reported cycle leaves no cycle. So
    cycles are reported exactly if there is one, a module that imports itself is reported exactly once
    for that, and every closed walk takes an edge that closes a reported cycle. -/
theorem ofChanges_acyclic_without_closing (changes : List GraphChange) :
    let g := ofChanges changes
    (∀ id, ¬Relation.TransGen (fun u v => v ∈ g.dependencies u ∧ ¬g.Closes u v) id id) ∧
      (g.findCycles = [] ↔ ∀ id, ¬g.LeadsTo id id) ∧
      (∀ id, g.findCycles.count [id, id] = if id ∈ g.dependencies id then 1 else 0) ∧
      ∀ first rest, (first :: rest ++ [first]).IsChain g.Imports →
        ∃ u v, [u, v] <:+: first :: rest ++ [first] ∧ g.Closes u v := by
  intro g
  have ok : g.WellIndexed := wellIndexed_ofChanges changes
  exact ⟨ok.not_remains_self, ok.findCycles_eq_nil_iff, ok.count_self,
    fun first rest walk => ok.exists_closing_of_walk walk⟩

end Graph
end ModuleGraph
