import Mathlib.Data.List.Induction
import ModuleGraph.Proofs.Graph.Outcomes

/-!
The order of the modules of a graph. Files with silent outcomes can be left out (`ofOutcomes_filter`). The outcomes
that are left first add their own modules and then, one after the other, the targets of their edges
(`nodes_foldl_addOutcome`). So the modules that were read come first, in the order of the outcomes, and the other
targets follow in the order in which they are first referred to (`nodeIds_ofOutcomes`).
-/
namespace ModuleGraph

namespace Outcome
variable {o : Outcome}

/-- An outcome that adds neither a module nor edges nor records. -/
structure IsSilent (o : Outcome) : Prop where
  info : o.info = none
  edges : o.edges = []
  unresolved : o.unresolved = []
  external : o.external = []

/-- To add the modules that edges lead to is to add each target once. -/
theorem foldl_targets (m : OrderedMap String ModuleInfo) :
    o.targets.foldl (fun m target => m.insertNew target .bare) m =
      o.edges.foldl (fun m edge => m.insertNew edge.1 .bare) m := by
  have unfolded : o.targets = (o.edges.foldl (fun m edge => m.insertNew edge.1 edge.2) OrderedMap.empty).keys := rfl
  rw [unfolded]
  induction o.edges using List.reverseRecOn with
  | nil => rfl
  | append_singleton front edge ih =>
    rw [List.foldl_append, List.foldl_append, ← ih]
    generalize front.foldl (fun m edge => m.insertNew edge.1 edge.2) OrderedMap.empty = links
    simp only [List.foldl_cons, List.foldl_nil]
    by_cases known : edge.1 ∈ links.keys
    · have there : edge.1 ∈ (links.keys.foldl (fun m target => m.insertNew target .bare) m).keys := by
        rw [OrderedMap.mem_keys_iff, ← Option.isSome_iff_exists, OrderedMap.get?_foldl_insertNew, if_pos known]
        simp
      rw [OrderedMap.insertNew_of_mem known, OrderedMap.insertNew_of_mem there]
    · rw [OrderedMap.insertNew_of_not_mem known, OrderedMap.keys_insert_of_not_mem known, List.foldl_append]
      rfl

end Outcome

namespace Graph
variable {g : Graph} {o : Outcome} {outcomes : List Outcome} {source : String}

/-! ## Silent outcomes -/

theorem addOutcome_of_isSilent (silent : o.IsSilent) : g.addOutcome o = g := by
  rw [addOutcome, silent.edges, silent.unresolved, silent.external]
  rfl

/-- What has a silent outcome can be left out. -/
theorem ofOutcomes_filter {γ : Type} {l : List γ} {outcome : γ → Outcome} {keep : γ → Bool}
    (silent : ∀ x ∈ l, keep x = false → (outcome x).IsSilent) :
    ofOutcomes ((l.filter keep).map outcome) = ofOutcomes (l.map outcome) := by
  have skipped (step : Graph → Outcome → Graph) (skips : ∀ g o, o.IsSilent → step g o = g) (g : Graph) :
      ((l.filter keep).map outcome).foldl step g = (l.map outcome).foldl step g := by
    rw [List.foldl_map, List.foldl_map, List.foldl_filter]
    refine List.foldl_ext _ _ _ fun g x member => ?_
    by_cases kept : keep x = true
    · rw [if_pos kept]
    · rw [if_neg kept, skips g _ (silent x member (by simpa using kept))]
  have scanned (g : Graph) : g.addScanned ((l.filter keep).map outcome) = g.addScanned (l.map outcome) :=
    skipped _ (fun g o still => by rw [still.info]) g
  rw [ofOutcomes, ofOutcomes, scanned, skipped addOutcome fun g o => addOutcome_of_isSilent]

/-! ## Targets of edges -/

private theorem nodes_foldl_addEdge (edges : List (String × EdgeLabel)) (known : source ∈ g.nodeIds) :
    (edges.foldl (fun g (target, label) => (g.addEdge source target label).1) g).nodes =
      edges.foldl (fun m edge => m.insertNew edge.1 .bare) g.nodes := by
  induction edges generalizing g with
  | nil => rfl
  | cons edge rest ih =>
    have grown : (g.addEdge source edge.1 edge.2).1.nodes = g.nodes.insertNew edge.1 .bare := by
      rw [nodes_addEdge, OrderedMap.insertNew_of_mem known]
    have still : source ∈ (g.addEdge source edge.1 edge.2).1.nodeIds := by
      rw [nodeIds, grown]
      exact OrderedMap.mem_keys_insertNew.mpr (.inr known)
    rw [List.foldl_cons, List.foldl_cons, ← grown]
    exact ih still

theorem nodes_addOutcome (known : o.moduleId ∈ g.nodeIds) :
    (g.addOutcome o).nodes = o.targets.foldl (fun m target => m.insertNew target .bare) g.nodes := by
  rw [addOutcome, (foldl_addExternal_frame _ _).1, (foldl_addUnresolved_frame _ _).1, Outcome.foldl_targets]
  exact nodes_foldl_addEdge o.edges known

theorem nodes_foldl_addOutcome (known : ∀ o ∈ outcomes, o.moduleId ∈ g.nodeIds) :
    (outcomes.foldl addOutcome g).nodes =
      (outcomes.flatMap (·.targets)).foldl (fun m target => m.insertNew target .bare) g.nodes := by
  induction outcomes generalizing g with
  | nil => rfl
  | cons first rest ih =>
    have grown := nodes_addOutcome (known first List.mem_cons_self)
    have still : ∀ o ∈ rest, o.moduleId ∈ (g.addOutcome first).nodeIds := by
      intro o member
      obtain ⟨info, there⟩ := OrderedMap.mem_keys_iff.mp (known o (List.mem_cons_of_mem _ member))
      refine OrderedMap.mem_keys_iff.mpr ⟨info, ?_⟩
      rw [get?_addOutcome, there, Option.some_or]
    rw [List.foldl_cons, List.flatMap_cons, List.foldl_append, ← grown]
    exact ih still

/-! ## Modules that were read -/

private theorem entries_addScanned (nodup : (outcomes.map (·.moduleId)).Nodup)
    (fresh : ∀ o ∈ outcomes, o.moduleId ∉ g.nodes.keys) : (g.addScanned outcomes).nodes.entries =
      g.nodes.entries ++ outcomes.filterMap fun o => o.info.map (o.moduleId, ·) := by
  induction outcomes generalizing g with
  | nil => simp [addScanned]
  | cons first rest ih =>
    obtain ⟨single, later⟩ := List.nodup_cons.mp nodup
    cases read : first.info with
    | none =>
      have skipped : g.addScanned (first :: rest) = g.addScanned rest := by
        rw [addScanned, List.foldl_cons, read]
        rfl
      rw [skipped, List.filterMap_cons_none (by rw [read]; rfl)]
      exact ih later fun o member => fresh o (List.mem_cons_of_mem _ member)
    | some info =>
      have added : g.addScanned (first :: rest) = (g.addNode first.moduleId info).addScanned rest := by
        rw [addScanned, List.foldl_cons, read]
        rfl
      have new := fresh first List.mem_cons_self
      have fresh' : ∀ o ∈ rest, o.moduleId ∉ (g.addNode first.moduleId info).nodes.keys := by
        intro o member again
        rcases OrderedMap.mem_keys_insertNew.mp again with same | old
        · exact single (List.mem_map.mpr ⟨o, member, same⟩)
        · exact fresh o (List.mem_cons_of_mem _ member) old
      rw [added, List.filterMap_cons_some (by rw [read]; rfl), ih later fresh', nodes_addNode,
        OrderedMap.insertNew_of_not_mem new, OrderedMap.entries_insert_of_not_mem new, List.append_assoc]
      rfl

private theorem map_fst_read (read : ∀ o ∈ outcomes, o.info.isSome) :
    (outcomes.filterMap fun o => o.info.map (o.moduleId, ·)).map Prod.fst = outcomes.map (·.moduleId) := by
  rw [List.map_filterMap, ← List.filterMap_eq_map]
  refine List.filterMap_congr fun o member => ?_
  obtain ⟨info, there⟩ := Option.isSome_iff_exists.mp (read o member)
  rw [there]
  rfl

/-! ## The order -/

/-- First the modules that were read, in the order of their outcomes, then the other targets of edges, each where it
    is first referred to. -/
theorem entries_ofOutcomes (nodup : (outcomes.map (·.moduleId)).Nodup) (read : ∀ o ∈ outcomes, o.info.isSome) :
    (ofOutcomes outcomes).nodes.entries =
      (outcomes.filterMap fun o => o.info.map (o.moduleId, ·)) ++
        ((outcomes.flatMap (·.targets)).filter (· ∉ outcomes.map (·.moduleId))).eraseDups.map (·, .bare) := by
  have first : (empty.addScanned outcomes).nodes.entries =
      outcomes.filterMap fun o => o.info.map (o.moduleId, ·) :=
    entries_addScanned nodup fun o _ => List.not_mem_nil
  have keys : (empty.addScanned outcomes).nodes.keys = outcomes.map (·.moduleId) := by
    rw [OrderedMap.keys, first, map_fst_read read]
  have known : ∀ o ∈ outcomes, o.moduleId ∈ (empty.addScanned outcomes).nodeIds := by
    intro o member
    rw [nodeIds, keys]
    exact List.mem_map_of_mem member
  rw [ofOutcomes, nodes_foldl_addOutcome known, OrderedMap.entries_foldl_insertNew, first, keys]
  rfl

theorem nodeIds_ofOutcomes (nodup : (outcomes.map (·.moduleId)).Nodup) (read : ∀ o ∈ outcomes, o.info.isSome) :
    (ofOutcomes outcomes).nodeIds = outcomes.map (·.moduleId) ++
      (((outcomes.map (·.moduleId)).flatMap (ofOutcomes outcomes).dependencies).filter
        (· ∉ outcomes.map (·.moduleId))).eraseDups := by
  have targets : (outcomes.map (·.moduleId)).flatMap (ofOutcomes outcomes).dependencies =
      outcomes.flatMap (·.targets) := by
    rw [List.flatMap_map]
    exact List.flatMap_congr fun o member => dependencies_ofOutcomes nodup member
  rw [nodeIds, OrderedMap.keys, entries_ofOutcomes nodup read, List.map_append, map_fst_read read, targets,
    List.map_map]
  exact congrArg _ (List.map_id _)

theorem scannedModules_ofOutcomes (nodup : (outcomes.map (·.moduleId)).Nodup)
    (read : ∀ o ∈ outcomes, o.info.isSome) (complete : ∀ o ∈ outcomes, o.IsComplete) :
    (ofOutcomes outcomes).scannedModules = outcomes.map (·.moduleId) := by
  have scanned : (outcomes.filterMap fun o => o.info.map (o.moduleId, ·)).filter (·.2.isScanned) =
      outcomes.filterMap fun o => o.info.map (o.moduleId, ·) := by
    refine List.filter_eq_self.mpr fun pair member => ?_
    obtain ⟨o, listed, known⟩ := List.mem_filterMap.mp member
    obtain ⟨info, there, rfl⟩ := Option.map_eq_some_iff.mp known
    exact (complete o listed).scanned info there
  have bare (l : List String) : (l.map (·, ModuleInfo.bare)).filter (·.2.isScanned) = [] := by
    simp [ModuleInfo.bare, ModuleInfo.isScanned]
  have kept : (ofOutcomes outcomes).scannedModules =
      ((ofOutcomes outcomes).nodes.entries.filter (·.2.isScanned)).map Prod.fst := rfl
  rw [kept, entries_ofOutcomes nodup read, List.filter_append, scanned, bare, List.append_nil, map_fst_read read]

end Graph
end ModuleGraph
