import ModuleGraph.Proofs.Graph.Component
import ModuleGraph.Proofs.Sorting

/-!
Tangled groups out of a list of strongly connected components. The modules are numbered in their order;
an algorithm that works on numbers lists the components in any order, and sorting each of them and then
all by their first members gives the groups (`groupsBy_eq`), whatever order the list came in.
-/
namespace ModuleGraph

/-- A directed graph on the numbers below a bound. -/
structure IndexGraph where
  size : Nat
  edges : List (Nat × Nat)
  deriving DecidableEq

namespace IndexGraph

/-- One number leads to another by edges, or is the same. -/
def LeadsTo (d : IndexGraph) : Nat → Nat → Prop := Relation.ReflTransGen fun i j => (i, j) ∈ d.edges

/-- The lists are the strongly connected components, each once. Neither the order of the components nor
    the order within one matters. -/
structure AreComponents (d : IndexGraph) (components : List (List Nat)) : Prop where
  nodup : components.flatten.Nodup
  mem_iff : ∀ i, i ∈ components.flatten ↔ i < d.size
  ne_nil : ∀ component ∈ components, component ≠ []
  together : ∀ component ∈ components, ∀ i ∈ component, ∀ j,
    j ∈ component ↔ j < d.size ∧ d.LeadsTo i j ∧ d.LeadsTo j i

/-- The components with more than one member, each in ascending order. -/
def sortedGroups (components : List (List Nat)) : List (List Nat) :=
  (components.filter (1 < ·.length)).map (·.mergeSort (· ≤ ·))

theorem mem_sortedGroups {components : List (List Nat)} {group : List Nat} :
    group ∈ sortedGroups components ↔
      ∃ component ∈ components, 1 < component.length ∧ component.mergeSort (· ≤ ·) = group := by
  simp [sortedGroups, and_assoc]

end IndexGraph

open IndexGraph (sortedGroups mem_sortedGroups)

namespace Graph
variable {g : Graph} {a b id : String} {i j : Nat} {component group : List String}

/-- The graph on the places of the modules. -/
def indexGraph (g : Graph) : IndexGraph where
  size := g.nodeIds.length
  edges := g.nodeIds.flatMap fun id => (g.dependencies id).filterMap fun target => do
    pure (← g.nodeIds.idxOf? id, ← g.nodeIds.idxOf? target)

/-- The module at a place. -/
def nodeAt (g : Graph) (i : Nat) : String := g.nodeIds.getD i ""

/-- The groups that an algorithm for strongly connected components gives: the components with more than
    one member, each sorted, and all of them sorted by their first members. -/
def groupsBy (g : Graph) (scc : IndexGraph → List (List Nat)) : List (List String) :=
  ((sortedGroups (scc g.indexGraph)).mergeSort fun a b => a.headD 0 ≤ b.headD 0).map (·.map g.nodeAt)

/-! ## Places -/

theorem getElem?_nodeIds (bound : i < g.nodeIds.length) : g.nodeIds[i]? = some (g.nodeAt i) := by
  simp [nodeAt, bound]

theorem nodeAt_mem (bound : i < g.nodeIds.length) : g.nodeAt i ∈ g.nodeIds :=
  List.mem_of_getElem? (getElem?_nodeIds bound)

theorem idxOf_nodeAt (bound : i < g.nodeIds.length) : g.nodeIds.idxOf (g.nodeAt i) = i := by
  obtain ⟨_, here⟩ := List.getElem?_eq_some_iff.mp (getElem?_nodeIds bound)
  rw [← here]
  exact (OrderedMap.nodup g.nodes).idxOf_getElem i bound

theorem exists_nodeAt (node : id ∈ g.nodeIds) : ∃ i < g.nodeIds.length, g.nodeAt i = id := by
  have bound := List.idxOf_lt_length_iff.mpr node
  refine ⟨g.nodeIds.idxOf id, bound, ?_⟩
  exact Option.some.inj ((getElem?_nodeIds bound).symm.trans (List.getElem?_idxOf node))

theorem idxOf?_eq_some_iff : g.nodeIds.idxOf? id = some i ↔ g.nodeIds[i]? = some id := by
  rw [List.idxOf?_eq_some_iff, List.getElem?_eq_some_iff]
  refine exists_congr fun bound => and_iff_left_of_imp ?_
  rintro rfl k before same
  have := (OrderedMap.nodup g.nodes).getElem_inj_iff.mp same
  omega

/-- One module comes before another. -/
def Precedes (g : Graph) (a b : String) : Prop := g.nodeIds.idxOf a < g.nodeIds.idxOf b

theorem Precedes.asymm (first : g.Precedes a b) : ¬g.Precedes b a := Nat.lt_asymm first

theorem pairwise_precedes_of_sublist (part : group.Sublist g.nodeIds) : group.Pairwise g.Precedes :=
  List.Pairwise.sublist part (pairwise_idxOf (OrderedMap.nodup g.nodes))

/-! ## Components -/

theorem mem_edges_indexGraph :
    (i, j) ∈ g.indexGraph.edges ↔
      ∃ a b, g.nodeIds[i]? = some a ∧ g.nodeIds[j]? = some b ∧ g.Imports a b := by
  have edge (a b : String) :
      (do pure (← g.nodeIds.idxOf? a, ← g.nodeIds.idxOf? b) : Option (Nat × Nat)) = some (i, j) ↔
        g.nodeIds[i]? = some a ∧ g.nodeIds[j]? = some b := by
    simp [Option.bind_eq_some_iff, idxOf?_eq_some_iff]
  simp only [indexGraph, List.mem_flatMap, List.mem_filterMap, edge]
  constructor
  · rintro ⟨a, -, b, import_, source, target⟩
    exact ⟨a, b, source, target, import_⟩
  · rintro ⟨a, b, source, target, import_⟩
    exact ⟨a, List.mem_of_getElem? source, b, import_, source, target⟩

/-- Two places are in one component just if their modules are tangled. -/
theorem WellIndexed.tangled_iff (ok : g.WellIndexed) (left : i < g.nodeIds.length)
    (right : j < g.nodeIds.length) :
    g.indexGraph.LeadsTo i j ∧ g.indexGraph.LeadsTo j i ↔ g.Tangled (g.nodeAt i) (g.nodeAt j) := by
  have path : ∀ i j, i < g.nodeIds.length → j < g.nodeIds.length →
      (Relation.TransGen (fun i j => (i, j) ∈ g.indexGraph.edges) i j ↔
        g.LeadsTo (g.nodeAt i) (g.nodeAt j)) := by
    intro i j left right
    rw [ok.path_iff fun _ _ => mem_edges_indexGraph]
    simp [getElem?_nodeIds left, getElem?_nodeIds right]
  have same : j = i ↔ g.nodeAt i = g.nodeAt j := by
    constructor
    · rintro rfl
      rfl
    · intro equal
      rw [← idxOf_nodeAt left, equal, idxOf_nodeAt right]
  simp only [IndexGraph.LeadsTo, Relation.reflTransGen_iff_eq_or_transGen, path i j left right,
    path j i right left, eq_comm (a := i), same]
  rw [← or_and_left]
  rfl

variable {scc : IndexGraph → List (List Nat)}

/-- A sorted component is the list of the modules that are tangled with one of its members. -/
theorem WellIndexed.sorted_eq (ok : g.WellIndexed) (sound : g.indexGraph.AreComponents (scc g.indexGraph))
    {places : List Nat} (listed : places ∈ scc g.indexGraph) (member : i ∈ places) :
    (places.mergeSort (· ≤ ·)).map g.nodeAt = g.component (g.nodeAt i) := by
  have inside : ∀ j ∈ places, j < g.nodeIds.length := fun j here =>
    (sound.mem_iff j).mp (List.mem_flatten.mpr ⟨places, listed, here⟩)
  have distinct : (places.map fun i => i).Nodup := by
    simpa using (List.nodup_flatten.mp sound.nodup).1 places listed
  have ordered : ((places.mergeSort (· ≤ ·)).map g.nodeAt).Pairwise g.Precedes := by
    rw [List.pairwise_map]
    refine (strict_mergeSort (fun i => i) distinct).imp_of_mem fun left right less => ?_
    rwa [Precedes, idxOf_nodeAt (inside _ (List.mem_mergeSort.mp left)),
      idxOf_nodeAt (inside _ (List.mem_mergeSort.mp right))]
  refine eq_of_strict (fun _ _ => Precedes.asymm) ordered
    (pairwise_precedes_of_sublist List.filter_sublist) fun id => ?_
  rw [List.mem_map, mem_component]
  constructor
  · rintro ⟨j, here, rfl⟩
    have here := List.mem_mergeSort.mp here
    exact ⟨nodeAt_mem (inside j here), (ok.tangled_iff (inside i member) (inside j here)).mp
      ((sound.together places listed i member j).mp here).2⟩
  · rintro ⟨node, tangled⟩
    obtain ⟨j, bound, rfl⟩ := exists_nodeAt node
    refine ⟨j, List.mem_mergeSort.mpr ?_, rfl⟩
    exact (sound.together places listed i member j).mpr
      ⟨bound, (ok.tangled_iff (inside i member) bound).mpr tangled⟩

theorem WellIndexed.mem_groupsBy_iff (ok : g.WellIndexed)
    (sound : g.indexGraph.AreComponents (scc g.indexGraph)) :
    group ∈ g.groupsBy scc ↔ ∃ id, group = g.component id ∧ 1 < group.length := by
  simp only [groupsBy, List.mem_map, List.mem_mergeSort, mem_sortedGroups]
  constructor
  · rintro ⟨_, ⟨places, listed, size, rfl⟩, rfl⟩
    obtain ⟨i, member⟩ := List.exists_mem_of_ne_nil _ (sound.ne_nil places listed)
    exact ⟨g.nodeAt i, ok.sorted_eq sound listed member, by simpa using size⟩
  · rintro ⟨id, rfl, size⟩
    obtain ⟨first, head, same⟩ := exists_first_component (List.length_pos_iff.mp (Nat.zero_lt_of_lt size))
    have node : first ∈ g.nodeIds := (mem_component.mp (List.mem_of_head? head)).1
    obtain ⟨i, bound, rfl⟩ := exists_nodeAt node
    obtain ⟨places, listed, member⟩ := List.mem_flatten.mp ((sound.mem_iff i).mpr bound)
    have whole := ok.sorted_eq sound listed member
    refine ⟨_, ⟨places, listed, ?_, rfl⟩, whole.trans same.symm⟩
    rw [same, ← whole] at size
    simpa using size

/-! ## The order of the groups -/

/-- The first member of one group comes before that of another one. -/
def PrecedesAsGroup (g : Graph) (a b : List String) : Prop := g.Precedes (a.headD "") (b.headD "")

theorem WellIndexed.pairwise_tangledGroups (ok : g.WellIndexed) :
    g.tangledGroups.Pairwise g.PrecedesAsGroup := by
  have heads := List.pairwise_filterMap.mp (pairwise_precedes_of_sublist g.head?_tangledGroups_sublist)
  refine heads.imp_of_mem fun {a b} left right first => ?_
  obtain ⟨x, -, headX, -⟩ := (mem_tangledGroups_iff ok).mp left
  obtain ⟨y, -, headY, -⟩ := (mem_tangledGroups_iff ok).mp right
  rw [PrecedesAsGroup, List.headD_eq_head?_getD, List.headD_eq_head?_getD, headX, headY]
  exact first x headX y headY

/-- A sorted component begins with one of its members. -/
theorem exists_head_mergeSort (sound : g.indexGraph.AreComponents (scc g.indexGraph))
    {places : List Nat} (listed : places ∈ scc g.indexGraph) :
    ∃ i ∈ places, i < g.nodeIds.length ∧ (places.mergeSort (· ≤ ·)).head? = some i := by
  obtain ⟨i, member⟩ := List.exists_mem_of_ne_nil _ (sound.ne_nil places listed)
  have some : places.mergeSort (· ≤ ·) ≠ [] := List.ne_nil_of_mem (List.mem_mergeSort.mpr member)
  obtain ⟨first, rest, sorted⟩ := List.exists_cons_of_ne_nil some
  have inside : first ∈ places := List.mem_mergeSort.mp (sorted ▸ List.mem_cons_self)
  exact ⟨first, inside, (sound.mem_iff first).mp (List.mem_flatten.mpr ⟨places, listed, inside⟩),
    sorted ▸ rfl⟩

theorem pairwise_groupsBy (sound : g.indexGraph.AreComponents (scc g.indexGraph)) :
    (g.groupsBy scc).Pairwise g.PrecedesAsGroup := by
  have distinct : ((sortedGroups (scc g.indexGraph)).map (·.headD 0)).Nodup := by
    rw [sortedGroups, List.map_map, List.Nodup, List.pairwise_map]
    refine ((List.nodup_flatten.mp sound.nodup).2.filter _).imp_of_mem fun left right apart same => ?_
    obtain ⟨i, here, -, headI⟩ := exists_head_mergeSort sound (List.mem_of_mem_filter left)
    obtain ⟨j, there, -, headJ⟩ := exists_head_mergeSort sound (List.mem_of_mem_filter right)
    simp only [Function.comp_apply, List.headD_eq_head?_getD, headI, headJ, Option.getD_some] at same
    exact apart here (same ▸ there)
  have label : ∀ group ∈ sortedGroups (scc g.indexGraph),
      g.nodeIds.idxOf ((group.map g.nodeAt).headD "") = group.headD 0 := by
    intro group member
    obtain ⟨places, listed, -, rfl⟩ := mem_sortedGroups.mp member
    obtain ⟨i, -, bound, head⟩ := exists_head_mergeSort sound listed
    simp [head, idxOf_nodeAt bound]
  rw [groupsBy, List.pairwise_map]
  refine (strict_mergeSort _ distinct).imp_of_mem fun left right less => ?_
  rwa [PrecedesAsGroup, Precedes, label _ (List.mem_mergeSort.mp left),
    label _ (List.mem_mergeSort.mp right)]

theorem WellIndexed.pairwise_disjoint_tangledGroups (ok : g.WellIndexed) :
    g.tangledGroups.Pairwise List.Disjoint := by
  refine ok.pairwise_tangledGroups.imp_of_mem fun {a b} left right first x here there => ?_
  rw [eq_component_of_mem ok left here, eq_component_of_mem ok right there] at first
  exact first.asymm first

/-- Whatever order the components are listed in, sorting gives the groups. -/
theorem WellIndexed.groupsBy_eq (ok : g.WellIndexed)
    (sound : g.indexGraph.AreComponents (scc g.indexGraph)) : g.groupsBy scc = g.tangledGroups :=
  eq_of_strict (fun _ _ => Precedes.asymm) (pairwise_groupsBy sound) ok.pairwise_tangledGroups
    fun _ => (ok.mem_groupsBy_iff sound).trans (mem_tangledGroups_iff_component ok).symm

/-- However a graph came about, its tangled groups are its strongly connected components with more than
    one module: two modules share a group just if each leads to the other, groups are disjoint, and
    members and groups come in the order of the modules. Any algorithm that lists the components of the
    graph on places gives these groups when its components are sorted. -/
theorem ofChanges_tangledGroups (changes : List GraphChange) :
    let g := ofChanges changes
    (∀ a b, a ≠ b →
        ((∃ group ∈ g.tangledGroups, a ∈ group ∧ b ∈ group) ↔ g.LeadsTo a b ∧ g.LeadsTo b a)) ∧
      g.tangledGroups.Pairwise List.Disjoint ∧
      (∀ group ∈ g.tangledGroups, 2 ≤ group.length ∧ group.Sublist g.nodeIds) ∧
      (g.tangledGroups.filterMap List.head?).Sublist g.nodeIds ∧
      ∀ scc : IndexGraph → List (List Nat), g.indexGraph.AreComponents (scc g.indexGraph) →
        g.groupsBy scc = g.tangledGroups := by
  intro g
  have ok : g.WellIndexed := wellIndexed_ofChanges changes
  refine ⟨fun a b differ => ?_, ok.pairwise_disjoint_tangledGroups, fun group found => ?_,
    g.head?_tangledGroups_sublist, fun scc sound => ok.groupsBy_eq sound⟩
  · constructor
    · rintro ⟨group, found, left, right⟩
      rw [eq_component_of_mem ok found left] at right
      exact (mem_component.mp right).2.resolve_left differ
    · intro both
      obtain ⟨left, right⟩ := ok.mem_of_leadsTo both.1
      exact ⟨g.component a, component_mem_tangledGroups ok differ (.inr both),
        mem_component.mpr ⟨left, .inl rfl⟩, mem_component.mpr ⟨right, .inr both⟩⟩
  · obtain ⟨id, rfl, size⟩ := (mem_tangledGroups_iff_component ok).mp found
    exact ⟨size, List.filter_sublist⟩

/-! Two cycles that share modules, with one module outside that leads to them. -/

/-- A imports B and D, which both lead back to A through B and C; E imports A. -/
def overlapping : List GraphChange :=
  [("A", "B"), ("B", "C"), ("C", "A"), ("A", "D"), ("D", "B"), ("E", "A")].map
    fun (source, target) => .add (.edge source target .unknown)

/-- The components of these modules, each from the module that was left first. -/
def overlappingComponents (_ : IndexGraph) : List (List Nat) := [[2, 1, 3, 0], [4]]

/-- The graph on their places. -/
def overlappingPlaces : IndexGraph where
  size := 5
  edges := [(0, 1), (0, 3), (1, 2), (2, 0), (3, 1), (4, 0)]

private theorem indexGraph_overlapping : (ofChanges overlapping).indexGraph = overlappingPlaces := by
  decide +kernel

/-- The modules of the two cycles lead to each other, by way of A. -/
private theorem overlapping_circle :
    ∀ i ∈ [2, 1, 3, 0], overlappingPlaces.LeadsTo i 0 ∧ overlappingPlaces.LeadsTo 0 i := by
  have step {i j : Nat} (edge : (i, j) ∈ overlappingPlaces.edges) : overlappingPlaces.LeadsTo i j :=
    .single edge
  have there : overlappingPlaces.LeadsTo 0 3 := step (by decide)
  have onward : overlappingPlaces.LeadsTo 3 1 := step (by decide)
  have further : overlappingPlaces.LeadsTo 1 2 := step (by decide)
  have back : overlappingPlaces.LeadsTo 2 0 := step (by decide)
  have one : overlappingPlaces.LeadsTo 1 0 := further.trans back
  have three : overlappingPlaces.LeadsTo 0 1 := there.trans onward
  simp only [List.forall_mem_cons, List.not_mem_nil, false_implies, implies_true, and_true]
  exact ⟨⟨back, three.trans further⟩, ⟨one, three⟩, ⟨onward.trans one, there⟩, .refl, .refl⟩

/-- Nothing imports E. -/
private theorem eq_of_leadsTo_outside (path : overlappingPlaces.LeadsTo i 4) : i = 4 := by
  rcases Relation.ReflTransGen.cases_tail path with same | ⟨j, -, edge⟩
  · exact same.symm
  · simp [overlappingPlaces] at edge

private theorem areComponents_overlapping :
    overlappingPlaces.AreComponents (overlappingComponents overlappingPlaces) := by
  refine ⟨by decide, fun i => ?_, by decide, fun places listed i member j => ?_⟩
  · simp [overlappingComponents, overlappingPlaces]
    omega
  · simp only [overlappingComponents, List.mem_cons, List.not_mem_nil, or_false] at listed
    rcases listed with rfl | rfl
    · constructor
      · intro other
        obtain ⟨back, there⟩ := overlapping_circle i member
        obtain ⟨back', there'⟩ := overlapping_circle j other
        have bounds : ∀ j ∈ [2, 1, 3, 0], j < 5 := by decide
        exact ⟨bounds j other, back.trans there', back'.trans there⟩
      · rintro ⟨bound, path, -⟩
        have differ : j ≠ 4 := by
          rintro rfl
          simp [eq_of_leadsTo_outside path] at member
        have others : ∀ j < 5, j ≠ 4 → j ∈ [2, 1, 3, 0] := by decide
        exact others j bound differ
    · obtain rfl := List.mem_singleton.mp member
      constructor
      · intro other
        obtain rfl := List.mem_singleton.mp other
        exact ⟨by decide, .refl, .refl⟩
      · rintro ⟨-, -, path⟩
        exact List.mem_singleton.mpr (eq_of_leadsTo_outside path)

/-- The four modules of the two cycles are one group, in the order in which they came in. -/
theorem ofChanges_tangledGroups_overlapping :
    (ofChanges overlapping).indexGraph.AreComponents
        (overlappingComponents (ofChanges overlapping).indexGraph) ∧
      (ofChanges overlapping).groupsBy overlappingComponents = [["A", "B", "C", "D"]] := by
  have sound : (ofChanges overlapping).indexGraph.AreComponents
      (overlappingComponents (ofChanges overlapping).indexGraph) :=
    indexGraph_overlapping ▸ areComponents_overlapping
  obtain ⟨-, -, -, -, sorted⟩ := ofChanges_tangledGroups overlapping
  refine ⟨sound, (sorted overlappingComponents sound).trans ?_⟩
  decide +kernel

end Graph
end ModuleGraph
