import ModuleGraph.Proofs.Graph.Degree
import ModuleGraph.Proofs.Graph.IndexGraph

/-!
Rankings. All modules in the order of a ranking are one list (`Graph.ranked`), of which a ranking is the
front. In that list a module stands above the later ones (`Graph.Outranks`): more of its edges count, or
as many and it came in earlier. So no module that is cut off belongs above one that is not
(`Graph.ofChanges_rank`).
-/
namespace ModuleGraph.Graph
variable {g : Graph} {key : RankBy} {limit : Nat}

/-- A module stands above another one: it has more edges that count, or as many and came in earlier. -/
def Outranks (g : Graph) (key : RankBy) (a b : String) : Prop :=
  g.edgesAt key b < g.edgesAt key a ∨ g.edgesAt key a = g.edgesAt key b ∧ g.Precedes a b

/-! ## The order of the modules -/

theorem nodes_add (addition : GraphAddition) :
    (g.add addition).nodes = addition.modules.foldl (fun m x => m.insertNew x.1 x.2) g.nodes := by
  cases addition with
  | edge source target label => exact nodes_addEdge
  | node | unresolved | external => rfl

theorem nodes_addAll (additions : List GraphAddition) :
    (g.addAll additions).nodes =
      (additions.flatMap (·.modules)).foldl (fun m x => m.insertNew x.1 x.2) g.nodes := by
  induction additions generalizing g with
  | nil => rfl
  | cons addition rest ih => rw [addAll_cons, ih, nodes_add, List.flatMap_cons, List.foldl_append]

/-- The modules stand in the order in which additions first named them. -/
theorem entries_nodes_ofChanges (changes : List GraphChange) :
    (ofChanges changes).nodes.entries =
      ((history changes).flatMap (·.modules)).eraseDupsBy fun a b => a.1 == b.1 := by
  have built : (ofChanges changes).nodes =
      ((history changes).flatMap (·.modules)).foldl (fun m x => m.insertNew x.1 x.2) .empty := by
    refine ofChanges_induction
      (P := fun g past => g.nodes = (past.flatMap (·.modules)).foldl (fun m x => m.insertNew x.1 x.2) .empty)
      rfl (fun g past addition ih => ?_) (fun document => ?_) changes
    · rw [nodes_add, ih, List.flatMap_append, List.flatMap_singleton, List.foldl_append]
    · rw [ofDocument_additions]
      exact nodes_addAll document.additions
  rw [built, OrderedMap.entries_foldl_insertNew_empty]
  exact List.map_id _

/-! ## The whole ranking -/

/-- All modules with their counts, in the order of a ranking. -/
def ranked (g : Graph) (key : RankBy) : List (String × Nat) :=
  (g.nodeIds.map fun id => (id, g.degree id key)).mergeSort fun a b => b.2 ≤ a.2

theorem rank_eq_take : g.rank key limit = (g.ranked key).take limit := rfl

theorem ranked_perm : (g.ranked key).Perm (g.nodeIds.map fun id => (id, g.degree id key)) :=
  List.mergeSort_perm _ _

theorem names_ranked_perm : ((g.ranked key).map Prod.fst).Perm g.nodeIds := by
  simpa [List.map_map, Function.comp_def] using ranked_perm.map Prod.fst

theorem length_ranked : (g.ranked key).length = g.nodeCount := by
  rw [ranked_perm.length_eq, List.length_map, nodeIds, OrderedMap.keys, List.length_map]
  rfl

theorem WellIndexed.edgesAt_of_mem_ranked (ok : g.WellIndexed) {entry : String × Nat}
    (listed : entry ∈ g.ranked key) : entry.1 ∈ g.nodeIds ∧ entry.2 = g.edgesAt key entry.1 := by
  obtain ⟨id, node, rfl⟩ := List.mem_map.mp (ranked_perm.mem_iff.mp listed)
  exact ⟨node, ok.degree_eq key id⟩

theorem WellIndexed.pairwise_ranked (ok : g.WellIndexed) :
    (g.ranked key).Pairwise fun a b => g.Outranks key a.1 b.1 := by
  have distinct : (g.nodeIds.map fun id => (id, g.degree id key)).Nodup :=
    (OrderedMap.nodup g.nodes).map fun _ _ same => (Prod.mk.inj same).1
  have trans : ∀ a b c : String × Nat, decide (b.2 ≤ a.2) = true → decide (c.2 ≤ b.2) = true →
      decide (c.2 ≤ a.2) = true := by
    intro a b c first second
    exact decide_eq_true (Nat.le_trans (of_decide_eq_true second) (of_decide_eq_true first))
  have total : ∀ a b : String × Nat, (decide (b.2 ≤ a.2) || decide (a.2 ≤ b.2)) = true := by
    intro a b
    simpa using Nat.le_total b.2 a.2
  have sorted : (g.ranked key).Pairwise _ := stable_mergeSort trans total distinct
  refine sorted.imp_of_mem fun {a b} left right ⟨above, tie⟩ => ?_
  have first := (ok.edgesAt_of_mem_ranked left).2
  have second := (ok.edgesAt_of_mem_ranked right).2
  rcases Nat.lt_or_eq_of_le (of_decide_eq_true above) with more | same
  · exact .inl (by omega)
  · -- The two were not moved past each other, so their order is that of the modules.
    have names : [a.1, b.1].Sublist g.nodeIds := by
      simpa [List.map_map, Function.comp_def] using (tie (decide_eq_true same.ge)).map Prod.fst
    exact .inr ⟨by omega, by simpa using pairwise_precedes_of_sublist names⟩

/-! ## What a ranking shows -/

/-- A ranking shows as many different modules as its limit allows, each with the number of its edges and above
    the later ones and all that are cut off; a larger limit only adds to it. Modules with equally many edges
    stand in the order in which they were first named, and the counts of all modules make up the number of
    edges. -/
theorem ofChanges_rank (changes : List GraphChange) (key : RankBy) (limit : Nat) :
    let g := ofChanges changes
    let ranking := g.rank key limit
    g.nodes.entries = ((history changes).flatMap (·.modules)).eraseDupsBy (fun a b => a.1 == b.1) ∧
      ranking.length = min limit g.nodeCount ∧
      (ranking.map (·.1)).Nodup ∧
      (∀ entry ∈ ranking, entry.1 ∈ g.nodeIds ∧ entry.2 = g.edgesAt key entry.1) ∧
      ranking.Pairwise (fun a b => g.Outranks key a.1 b.1) ∧
      (∀ id ∈ g.nodeIds, id ∉ ranking.map (·.1) → ∀ entry ∈ ranking, g.Outranks key entry.1 id) ∧
      (∀ larger, limit ≤ larger → ranking <+: g.rank key larger) ∧
      (g.nodeCount ≤ limit → total (ranking.map (·.2)) = g.edgeCount) := by
  intro g ranking
  have ok : g.WellIndexed := wellIndexed_ofChanges changes
  have shown : ranking = (g.ranked key).take limit := rank_eq_take
  obtain ⟨others, cut⟩ : ranking <+: g.ranked key := shown ▸ List.take_prefix limit _
  have front : ranking.Sublist (g.ranked key) := cut ▸ List.sublist_append_left ranking others
  have sorted : (ranking ++ others).Pairwise fun a b => g.Outranks key a.1 b.1 := cut ▸ ok.pairwise_ranked
  refine ⟨entries_nodes_ofChanges changes, ?_, ?_, ?_, ?_, ?_, ?_, ?_⟩
  · rw [shown, List.length_take, length_ranked]
  · exact (names_ranked_perm.nodup_iff.mpr (OrderedMap.nodup g.nodes)).sublist (front.map _)
  · exact fun entry listed => ok.edgesAt_of_mem_ranked (front.subset listed)
  · exact sorted.sublist (List.sublist_append_left ranking others)
  · intro id node out entry listed
    obtain ⟨⟨_, count⟩, ranked, rfl⟩ := List.mem_map.mp (names_ranked_perm.mem_iff.mpr node)
    rcases List.mem_append.mp (cut ▸ ranked) with inside | behind
    · exact absurd (List.mem_map.mpr ⟨_, inside, rfl⟩) out
    · exact (List.pairwise_append.mp sorted).2.2 entry listed _ behind
  · exact fun larger more => List.take_prefix_take_left more
  · intro all
    have whole : ranking = g.ranked key := shown.trans (List.take_of_length_le (length_ranked.trans_le all))
    rw [whole, total_perm (ranked_perm.map _), List.map_map]
    exact ok.total_degree key

end ModuleGraph.Graph
