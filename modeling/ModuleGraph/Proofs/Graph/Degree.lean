import Mathlib.Data.List.Nodup
import ModuleGraph.Graph.Rank
import ModuleGraph.Graph.Unexplored
import ModuleGraph.Proofs.Graph.Representation

/-!
The edges of a graph as one list of pairs. No pair is there twice (`nodup_edgeList`) and the list is as
long as the number of edges says. The index of dependents and the edges of a module count the pairs with
the module at one end (`WellIndexed.degree_eq`), so over all modules either count adds up to the number
of edges (`WellIndexed.total_degree`).
-/
namespace ModuleGraph

/-- The end of an edge at which it counts. -/
def RankBy.endOf : RankBy → String × String → String
  | .dependents, edge => edge.2
  | .dependencies, edge => edge.1

/-- Every element of a list is counted at one of some distinct places. -/
theorem total_count {α : Type} [DecidableEq α] {places l : List α} (distinct : places.Nodup)
    (known : ∀ x ∈ l, x ∈ places) : total (places.map l.count) = l.length := by
  induction l with
  | nil =>
    clear distinct known
    induction places with
    | nil => rfl
    | cons _ _ ih => simpa using ih
  | cons x rest ih =>
    have grown : total (places.map (x :: rest).count) = total (places.map rest.count) + 1 :=
      total_map_grow distinct (known x List.mem_cons_self) List.count_cons_self
        fun y _ differ => List.count_cons_of_ne differ.symm
    rw [grown, ih fun y inside => known y (List.mem_cons_of_mem x inside), List.length_cons]

section
variable {α β : Type} {l : List α} {f : α → List β}

theorem mem_flatMap_pairs {a : α} {b : β} : (a, b) ∈ (l.flatMap fun x => (f x).map (x, ·)) ↔ a ∈ l ∧ b ∈ f a := by
  simp only [List.mem_flatMap, List.mem_map, Prod.mk.injEq]
  constructor
  · rintro ⟨_, inside, _, listed, rfl, rfl⟩
    exact ⟨inside, listed⟩
  · rintro ⟨inside, listed⟩
    exact ⟨a, inside, b, listed, rfl, rfl⟩

theorem nodup_flatMap_pairs (distinct : l.Nodup) (each : ∀ x, (f x).Nodup) :
    (l.flatMap fun x => (f x).map (x, ·)).Nodup := by
  refine List.nodup_flatMap.mpr ⟨fun x _ => (each x).map fun _ _ same => (Prod.mk.inj same).2, ?_⟩
  refine List.Pairwise.imp (fun {x y} differ pair left right => ?_) distinct
  obtain ⟨_, _, rfl⟩ := List.mem_map.mp left
  obtain ⟨_, _, same⟩ := List.mem_map.mp right
  exact differ (Prod.mk.inj same).1.symm

end

namespace Graph
variable {g : Graph} {source target : String}

/-- All edges by their ends, source by source. -/
def edgeList (g : Graph) : List (String × String) :=
  g.outgoing.keys.flatMap fun source => (g.dependencies source).map (source, ·)

/-- The number of edges with a module at the end that counts. -/
def edgesAt (g : Graph) (key : RankBy) (id : String) : Nat := (g.edgeList.map key.endOf).count id

theorem mem_edgeList : (source, target) ∈ g.edgeList ↔ target ∈ g.dependencies source := by
  rw [edgeList, mem_flatMap_pairs]
  refine and_iff_right_of_imp fun edge => ?_
  exact mem_keys_of_dependencies_ne_nil (List.ne_nil_of_mem edge)

theorem nodup_edgeList (g : Graph) : g.edgeList.Nodup :=
  nodup_flatMap_pairs g.outgoing.nodup fun source => (g.edgesOf source).nodup

theorem length_edgeList (g : Graph) : g.edgeList.length = g.edgeCount := by
  have counts : g.outgoing.keys.map (fun source => (g.dependencies source).length) =
      g.outgoing.values.map (·.size) := by
    rw [OrderedMap.keys, OrderedMap.values, List.map_map, List.map_map]
    refine List.map_congr_left ?_
    rintro ⟨source, targets⟩ listed
    have found := OrderedMap.mem_entries_iff.mp listed
    simp [dependencies, edgesOf, OrderedMap.getD, found, OrderedMap.keys, OrderedMap.size]
  rw [edgeCount, ← counts, edgeList, List.length_flatMap]
  simp only [List.length_map]
  rfl

/-- What lists the edges at a module without repeats is as long as their number. -/
theorem length_eq_edgesAt {key : RankBy} {id : String} {ids : List String} (edge : String → String × String)
    (distinct : ids.Nodup) (apart : edge.Injective)
    (listed : ∀ e, e ∈ ids.map edge ↔ e ∈ g.edgeList ∧ key.endOf e = id) : ids.length = g.edgesAt key id := by
  have counted : g.edgesAt key id = (g.edgeList.filter (key.endOf · == id)).length := by
    rw [edgesAt, List.count_eq_countP, List.countP_map, List.countP_eq_length_filter]
    rfl
  have same : (ids.map edge).Perm (g.edgeList.filter (key.endOf · == id)) := by
    refine (List.perm_ext_iff_of_nodup (distinct.map apart) (g.nodup_edgeList.filter _)).mpr fun e => ?_
    rw [listed, List.mem_filter, beq_iff_eq]
  rw [counted, ← same.length_eq, List.length_map]

theorem WellIndexed.degree_eq (ok : g.WellIndexed) (key : RankBy) (id : String) :
    g.degree id key = g.edgesAt key id := by
  cases key with
  | dependents =>
    refine length_eq_edgesAt (·, id) (ok.nodup_dependents id)
      (fun _ _ same => (Prod.mk.inj same).1) fun (source, target) => ?_
    rw [List.mem_map, mem_edgeList, RankBy.endOf]
    constructor
    · rintro ⟨_, dependent, rfl, rfl⟩
      exact ⟨(ok.mem_dependents_iff _ _).mp dependent, rfl⟩
    · rintro ⟨edge, rfl⟩
      exact ⟨source, (ok.mem_dependents_iff _ _).mpr edge, rfl⟩
  | dependencies =>
    refine length_eq_edgesAt (id, ·) (ok.nodup_dependencies id)
      (fun _ _ same => (Prod.mk.inj same).2) fun (source, target) => ?_
    rw [List.mem_map, mem_edgeList, RankBy.endOf]
    constructor
    · rintro ⟨_, edge, rfl, rfl⟩
      exact ⟨edge, rfl⟩
    · rintro ⟨edge, rfl⟩
      exact ⟨target, edge, rfl⟩

theorem WellIndexed.total_degree (ok : g.WellIndexed) (key : RankBy) :
    total (g.nodeIds.map (g.degree · key)) = g.edgeCount := by
  have known : ∀ id ∈ g.edgeList.map key.endOf, id ∈ g.nodeIds := by
    intro id member
    obtain ⟨⟨source, target⟩, listed, rfl⟩ := List.mem_map.mp member
    have edge := mem_edgeList.mp listed
    cases key with
    | dependents => exact ok.target_mem source target edge
    | dependencies => exact ok.source_mem source target edge
  rw [List.map_congr_left fun id _ => ok.degree_eq key id, ← length_edgeList, ← List.length_map key.endOf]
  exact total_count (OrderedMap.nodup g.nodes) known

end Graph
end ModuleGraph
