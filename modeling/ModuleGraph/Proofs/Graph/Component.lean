import ModuleGraph.Graph.Component
import ModuleGraph.Proofs.Graph.Reach

/-!
Tangled groups are the strongly connected components with more than one module. Two modules are
tangled if they are one or lead to each other; a group is all that is tangled with one of its members
(`mem_tangledGroups_iff`), whichever member that is (`component_eq_of_tangled`).
-/
namespace ModuleGraph.Graph
variable {g : Graph} {a b c : String} {group : List String}

/-- Two modules are one or lead to each other. -/
def Tangled (g : Graph) (a b : String) : Prop := a = b ∨ g.LeadsTo a b ∧ g.LeadsTo b a

theorem Tangled.symm (tangled : g.Tangled a b) : g.Tangled b a :=
  tangled.imp Eq.symm And.symm

theorem Tangled.trans (front : g.Tangled a b) (back : g.Tangled b c) : g.Tangled a c := by
  rcases front with rfl | ⟨there, fromThere⟩
  · exact back
  · rcases back with rfl | ⟨onward, backward⟩
    · exact .inr ⟨there, fromThere⟩
    · exact .inr ⟨there.trans onward, backward.trans fromThere⟩

open Classical in
/-- The modules tangled with one module, in the order of the modules. -/
noncomputable def component (g : Graph) (id : String) : List String :=
  g.nodeIds.filter fun other => decide (g.Tangled id other)

theorem mem_component : b ∈ g.component a ↔ b ∈ g.nodeIds ∧ g.Tangled a b := by
  simp [component]

theorem component_eq_of_tangled (tangled : g.Tangled a b) : g.component a = g.component b := by
  refine List.filter_congr fun other _ => decide_eq_decide.mpr ?_
  exact ⟨tangled.symm.trans, tangled.trans⟩

theorem nodup_component (g : Graph) (id : String) : (g.component id).Nodup :=
  (OrderedMap.nodup g.nodes).filter _

/-- The ends of a path are modules. -/
theorem WellIndexed.mem_of_leadsTo (ok : g.WellIndexed) (path : g.LeadsTo a b) :
    a ∈ g.nodeIds ∧ b ∈ g.nodeIds := by
  induction path with
  | single edge => exact ⟨ok.source_mem _ _ edge, ok.target_mem _ _ edge⟩
  | tail _ edge ih => exact ⟨ih.1, ok.target_mem _ _ edge⟩

private theorem areFor_reach (g : Graph) : Reach.AreFor g.nodeIds g.reach :=
  (areFor_directReach g).upTo g.nodeCount

private theorem at_place_of_mem {r : Reach} (row : r ∈ g.reach) :
    g.reach[r.place]? = some r ∧ g.nodeIds[r.place]? = some r.id := by
  obtain ⟨i, row⟩ := List.mem_iff_getElem?.mp row
  obtain ⟨rfl, node⟩ := (areFor_reach g).at_place row
  exact ⟨row, node⟩

private theorem leadsTo_iff (ok : g.WellIndexed) {r s : Reach} (left : r ∈ g.reach)
    (right : s ∈ g.reach) : r.leadsTo s.place = true ↔ g.LeadsTo r.id s.id := by
  obtain ⟨row, source⟩ := at_place_of_mem left
  obtain ⟨-, target⟩ := at_place_of_mem right
  have leads := leads_reach_iff ok (i := r.place) (j := s.place)
  constructor
  · intro reached
    obtain ⟨a, b, source', target', path⟩ := leads.mp ⟨r, row, reached⟩
    obtain rfl := Option.some.inj (source'.symm.trans source)
    obtain rfl := Option.some.inj (target'.symm.trans target)
    exact path
  · intro path
    obtain ⟨r', row', reached⟩ := leads.mpr ⟨_, _, source, target, path⟩
    obtain rfl := Option.some.inj (row'.symm.trans row)
    exact reached

private theorem place_eq_iff {r s : Reach} (left : r ∈ g.reach) (right : s ∈ g.reach) :
    r.place = s.place ↔ r.id = s.id := by
  obtain ⟨-, source⟩ := at_place_of_mem left
  obtain ⟨-, target⟩ := at_place_of_mem right
  constructor
  · intro same
    exact Option.some.inj (source.symm.trans (same ▸ target))
  · intro same
    obtain ⟨bound, here⟩ := List.getElem?_eq_some_iff.mp source
    obtain ⟨bound', there⟩ := List.getElem?_eq_some_iff.mp target
    exact (OrderedMap.nodup g.nodes).getElem_inj_iff.mp (here.trans (same.trans there.symm))

theorem tangledWith_iff (ok : g.WellIndexed) {r s : Reach} (left : r ∈ g.reach)
    (right : s ∈ g.reach) : r.tangledWith s = true ↔ g.Tangled r.id s.id := by
  simp [Reach.tangledWith, Tangled, place_eq_iff left right, leadsTo_iff ok left right,
    leadsTo_iff ok right left]

open Classical in
/-- The members that one row of the table gives. -/
private theorem members_eq (ok : g.WellIndexed) {r : Reach} (row : r ∈ g.reach) :
    (g.reach.filter r.tangledWith).map (·.id) = g.component r.id := by
  have decided : g.reach.filter r.tangledWith =
      g.reach.filter fun s => decide (g.Tangled r.id s.id) := by
    refine List.filter_congr fun s other => ?_
    rw [Bool.eq_iff_iff, tangledWith_iff ok row other, decide_eq_true_iff]
  rw [decided, component, ← (areFor_reach g).map_id, List.filter_map]
  rfl

/-- A group is found at its first member. -/
theorem mem_tangledGroups_iff (ok : g.WellIndexed) :
    group ∈ g.tangledGroups ↔
      ∃ id, group = g.component id ∧ group.head? = some id ∧ 1 < group.length := by
  simp only [tangledGroups, List.mem_filterMap, Option.ite_none_right_eq_some, Option.some.injEq]
  constructor
  · rintro ⟨r, row, ⟨first, size⟩, rfl⟩
    rw [members_eq ok row] at first size ⊢
    exact ⟨r.id, rfl, first, size⟩
  · rintro ⟨id, rfl, first, size⟩
    have node : id ∈ g.nodeIds := (mem_component.mp (List.mem_of_mem_head? first)).1
    obtain ⟨i, place⟩ := List.mem_iff_getElem?.mp node
    obtain ⟨r, row, rfl⟩ := (areFor_reach g).exists_row place
    have row := List.mem_of_getElem? row
    exact ⟨r, row, by rw [members_eq ok row]; exact ⟨⟨first, size⟩, rfl⟩⟩

/-- Whatever is tangled with a module, it is also tangled with the first module of these. -/
theorem exists_first_component (some : g.component a ≠ []) :
    ∃ first, (g.component a).head? = .some first ∧ g.component a = g.component first := by
  obtain ⟨first, rest, members⟩ := List.exists_cons_of_ne_nil some
  have member : first ∈ g.component a := members ▸ List.mem_cons_self
  exact ⟨first, members ▸ rfl, component_eq_of_tangled (mem_component.mp member).2⟩

/-- The groups are the components with more than one member. -/
theorem mem_tangledGroups_iff_component (ok : g.WellIndexed) :
    group ∈ g.tangledGroups ↔ ∃ id, group = g.component id ∧ 1 < group.length := by
  rw [mem_tangledGroups_iff ok]
  constructor
  · rintro ⟨id, whole, -, size⟩
    exact ⟨id, whole, size⟩
  · rintro ⟨id, rfl, size⟩
    obtain ⟨first, head, same⟩ := exists_first_component (List.length_pos_iff.mp (Nat.zero_lt_of_lt size))
    exact ⟨first, same, head, size⟩

/-- A group is all that is tangled with any of its members. -/
theorem eq_component_of_mem (ok : g.WellIndexed) (found : group ∈ g.tangledGroups)
    (member : a ∈ group) : group = g.component a := by
  obtain ⟨id, rfl, -, -⟩ := (mem_tangledGroups_iff ok).mp found
  exact component_eq_of_tangled (mem_component.mp member).2

theorem exists_ne_of_mem_tangledGroups (ok : g.WellIndexed) (found : group ∈ g.tangledGroups) :
    ∃ a ∈ group, ∃ b ∈ group, a ≠ b := by
  obtain ⟨id, rfl, -, size⟩ := (mem_tangledGroups_iff ok).mp found
  have distinct := g.nodup_component id
  match members : g.component id, size, distinct with
  | a :: b :: rest, _, distinct =>
    refine ⟨a, List.mem_cons_self, b, List.mem_cons_of_mem a List.mem_cons_self, fun same => ?_⟩
    exact (List.nodup_cons.mp distinct).1 (same ▸ List.mem_cons_self)

/-- Two modules that lead to each other have a group. -/
theorem component_mem_tangledGroups (ok : g.WellIndexed) (differ : a ≠ b) (tangled : g.Tangled a b) :
    g.component a ∈ g.tangledGroups := by
  obtain ⟨there, -⟩ := tangled.resolve_left differ
  obtain ⟨left, right⟩ := ok.mem_of_leadsTo there
  have first : a ∈ g.component a := mem_component.mpr ⟨left, .inl rfl⟩
  have second : b ∈ g.component a := mem_component.mpr ⟨right, tangled⟩
  refine (mem_tangledGroups_iff_component ok).mpr ⟨a, rfl, ?_⟩
  match g.component a, first, second with
  | [only], first, second =>
    rw [List.mem_singleton.mp first, List.mem_singleton.mp second] at differ
    exact absurd rfl differ
  | head :: next :: rest, _, _ => simp

private theorem filterMap_sublist_map {α β : Type} {f : α → Option β} {h : α → β} (l : List α)
    (labelled : ∀ x y, f x = some y → y = h x) : (l.filterMap f).Sublist (l.map h) := by
  induction l with
  | nil => exact .slnil
  | cons x rest ih =>
    rw [List.map_cons]
    cases found : f x with
    | none =>
      rw [List.filterMap_cons_none found]
      exact ih.cons _
    | some y =>
      rw [List.filterMap_cons_some found, labelled x y found]
      exact ih.cons_cons _

/-- The first members of the groups come in the order of the modules. -/
theorem head?_tangledGroups_sublist (g : Graph) :
    (g.tangledGroups.filterMap List.head?).Sublist g.nodeIds := by
  rw [tangledGroups, List.filterMap_filterMap, ← (areFor_reach g).map_id]
  refine filterMap_sublist_map _ fun r first found => ?_
  obtain ⟨group, kept, head⟩ := Option.bind_eq_some_iff.mp found
  obtain ⟨⟨first', -⟩, whole⟩ := Option.ite_none_right_eq_some.mp kept
  rw [Option.some.inj whole, head] at first'
  exact Option.some.inj first'

end ModuleGraph.Graph
