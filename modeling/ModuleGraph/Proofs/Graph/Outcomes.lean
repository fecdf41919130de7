import ModuleGraph.Extraction.Run
import ModuleGraph.Proofs.Graph.Operations

/-!
The graph of the outcomes of files. Its scanned modules are those whose imports were read
(`mem_scannedModules_ofOutcomes`), its other modules are the targets of edges (`mem_nodeIds_ofOutcomes`),
and what a module imports is what its own outcome says (`edgesOf_ofOutcomes`, `unresolvedOf_ofOutcomes`,
`externalOf?_ofOutcomes`), whatever the outcomes of other files are (`view_foldl_addOutcome`).
-/
namespace ModuleGraph

namespace Outcome

/-- What holds of the outcome of a file: its imports were read, or it has no edges. -/
structure IsComplete (o : Outcome) : Prop where
  scanned : ∀ info, o.info = some info → info.isScanned = true
  no_edges : o.info = none → o.edges = []

/-- The edges of an outcome, the first one to each target. -/
def links (o : Outcome) : OrderedMap String EdgeLabel :=
  o.edges.foldl (fun m (target, label) => m.insertNew target label) .empty

/-- The targets of an outcome's edges, each once. -/
def targets (o : Outcome) : List String := o.links.keys

variable {o : Outcome} {target : String}

theorem mem_targets_iff : target ∈ o.targets ↔ ∃ edge ∈ o.edges, edge.1 = target := by
  exact (OrderedMap.mem_keys_foldl_insertNew o.edges Prod.fst Prod.snd).trans
    (or_iff_right List.not_mem_nil)

theorem mem_edges_of_get?_links {label : EdgeLabel} (known : o.links.get? target = some label) :
    (target, label) ∈ o.edges := by
  have grown (edges : List (String × EdgeLabel)) (m : OrderedMap String EdgeLabel)
      (known : (edges.foldl (fun m (target, label) => m.insertNew target label) m).get? target = some label) :
      m.get? target = some label ∨ (target, label) ∈ edges := by
    induction edges generalizing m with
    | nil => exact .inl known
    | cons edge rest ih =>
      obtain ⟨first, label'⟩ := edge
      rcases ih _ known with old | later
      · rw [OrderedMap.get?_insertNew, Option.or_eq_some_iff] at old
        rcases old with old | ⟨-, new⟩
        · exact .inl old
        · split at new
          · rename_i here
            cases new
            exact .inr (List.mem_cons.mpr (.inl (by rw [here])))
          · cases new
      · exact .inr (List.mem_cons_of_mem _ later)
  rcases grown o.edges .empty known with old | inside
  · cases old
  · exact inside

theorem IsComplete.targets_eq_nil (complete : o.IsComplete) (unread : o.info = none) : o.targets = [] := by
  rw [targets, links, complete.no_edges unread]
  rfl

end Outcome

namespace Graph
variable {g : Graph} {o : Outcome} {outcomes : List Outcome} {id source : String}

/-! ## One outcome -/

private theorem edgesOf_foldl_addEdge (edges : List (String × EdgeLabel)) :
    (edges.foldl (fun g (target, label) => (g.addEdge source target label).1) g).edgesOf id =
      if id = source then
        edges.foldl (fun m (target, label) => m.insertNew target label) (g.edgesOf source)
      else g.edgesOf id := by
  induction edges generalizing g with
  | nil =>
    by_cases same : id = source <;> simp [same]
  | cons edge rest ih =>
    rw [List.foldl_cons, ih, edgesOf_addEdge, edgesOf_addEdge, if_pos rfl]
    by_cases same : id = source <;> simp [same]

private theorem get?_foldl_addEdge (edges : List (String × EdgeLabel)) :
    (edges.foldl (fun g (target, label) => (g.addEdge source target label).1) g).nodes.get? id =
      (g.nodes.get? id).or
        (if ∃ edge ∈ edges, id = source ∨ id = edge.1 then some .bare else none) := by
  induction edges generalizing g with
  | nil => simp
  | cons edge rest ih =>
    rw [List.foldl_cons, ih, nodes_addEdge, OrderedMap.get?_insertNew, OrderedMap.get?_insertNew]
    cases g.nodes.get? id with
    | some info => simp
    | none =>
      by_cases ends : id = source ∨ id = edge.1
      · have whole : ∃ other ∈ edge :: rest, id = source ∨ id = other.1 := ⟨edge, by simp, ends⟩
        rw [if_pos whole]
        rcases ends with rfl | rfl
        · simp
        · by_cases loop : source = edge.1 <;> simp [loop]
      · have skipped : (∃ other ∈ edge :: rest, id = source ∨ id = other.1) ↔
            ∃ other ∈ rest, id = source ∨ id = other.1 := by
          rw [List.exists_mem_cons_iff, or_iff_right ends]
        obtain ⟨off, off'⟩ := not_or.mp ends
        simp only [skipped, if_neg (Ne.symm off), if_neg (Ne.symm off'), Option.none_or]

theorem foldl_addUnresolved_frame (unresolved : List String) (g : Graph) :
    (unresolved.foldl (·.addUnresolved source ·) g).nodes = g.nodes ∧
      (unresolved.foldl (·.addUnresolved source ·) g).outgoing = g.outgoing ∧
      (unresolved.foldl (·.addUnresolved source ·) g).externalImports = g.externalImports := by
  induction unresolved generalizing g with
  | nil => exact ⟨rfl, rfl, rfl⟩
  | cons name rest ih => exact ih (g.addUnresolved source name)

theorem foldl_addExternal_frame (external : List String) (g : Graph) :
    (external.foldl (·.addExternal source ·) g).nodes = g.nodes ∧
      (external.foldl (·.addExternal source ·) g).outgoing = g.outgoing ∧
      (external.foldl (·.addExternal source ·) g).unresolvedImports = g.unresolvedImports := by
  induction external generalizing g with
  | nil => exact ⟨rfl, rfl, rfl⟩
  | cons name rest ih => exact ih (g.addExternal source name)

/-- Adds the edges of an outcome to those that a module has. -/
private def withEdges (m : OrderedMap String EdgeLabel) (o : Outcome) : OrderedMap String EdgeLabel :=
  o.edges.foldl (fun m (target, label) => m.insertNew target label) m

private theorem edgesOf_addOutcome (g : Graph) (o : Outcome) (id : String) : (g.addOutcome o).edgesOf id =
    if id = o.moduleId then withEdges (g.edgesOf id) o else g.edgesOf id := by
  have grown : (o.edges.foldl (fun g (target, label) => (g.addEdge o.moduleId target label).1) g).edgesOf id = _ :=
    edgesOf_foldl_addEdge o.edges
  rw [edgesOf, addOutcome, (foldl_addExternal_frame _ _).2.1, (foldl_addUnresolved_frame _ _).2.1]
  refine grown.trans ?_
  split
  · rename_i same
    rw [same]
    rfl
  · rfl

private theorem records_foldl_addEdge (edges : List (String × EdgeLabel)) :
    (edges.foldl (fun g (target, label) => (g.addEdge source target label).1) g).unresolvedImports =
        g.unresolvedImports ∧
      (edges.foldl (fun g (target, label) => (g.addEdge source target label).1) g).externalImports =
        g.externalImports := by
  induction edges generalizing g with
  | nil => exact ⟨rfl, rfl⟩
  | cons edge rest ih =>
    obtain ⟨unresolved, external⟩ := ih (g := (g.addEdge source edge.1 edge.2).1)
    have kept : (g.addEdge source edge.1 edge.2).1.unresolvedImports = g.unresolvedImports ∧
        (g.addEdge source edge.1 edge.2).1.externalImports = g.externalImports := by
      unfold addEdge
      simp only
      split <;> exact ⟨rfl, rfl⟩
    exact ⟨unresolved.trans kept.1, external.trans kept.2⟩

private theorem unresolvedOf_foldl_addUnresolved (unresolved : List String) :
    (unresolved.foldl (·.addUnresolved source ·) g).unresolvedOf id =
      if id = source then g.unresolvedOf id ++ unresolved else g.unresolvedOf id := by
  induction unresolved generalizing g with
  | nil => simp
  | cons name rest ih =>
    have single : (g.addUnresolved source name).unresolvedOf id =
        if source = id then g.unresolvedOf source ++ [name] else g.unresolvedOf id := by
      simp only [unresolvedOf, addUnresolved, OrderedMap.getD, OrderedMap.get?_insert]
      split <;> rfl
    rw [List.foldl_cons, ih, single]
    by_cases same : id = source
    · simp [same]
    · simp [same, Ne.symm same]

private theorem unresolvedOf_addOutcome (g : Graph) (o : Outcome) (id : String) : (g.addOutcome o).unresolvedOf id =
    if id = o.moduleId then g.unresolvedOf id ++ o.unresolved else g.unresolvedOf id := by
  have same (g : Graph) :
      (o.external.foldl (·.addExternal o.moduleId ·) g).unresolvedOf id = g.unresolvedOf id := by
    rw [unresolvedOf, (foldl_addExternal_frame o.external g).2.2]
    rfl
  rw [addOutcome, same, unresolvedOf_foldl_addUnresolved, unresolvedOf, (records_foldl_addEdge o.edges).1]
  rfl

/-- Adds the external imports of an outcome to those that are recorded for a module. -/
private def withExternal (known : Option (OrderedSet String)) (o : Outcome) : Option (OrderedSet String) :=
  o.external.foldl (fun known name => some ((known.getD .empty).add name)) known

private theorem externalImports_foldl_addExternal (external : List String) :
    (external.foldl (·.addExternal source ·) g).externalImports.get? id =
      if id = source then
        external.foldl (fun known name => some ((known.getD .empty).add name)) (g.externalImports.get? id)
      else g.externalImports.get? id := by
  induction external generalizing g with
  | nil => simp
  | cons name rest ih =>
    rw [List.foldl_cons, ih, addExternal, OrderedMap.get?_insert]
    by_cases same : id = source
    · simp [same, OrderedMap.getD]
    · simp [same, Ne.symm same]

private theorem externalImports_addOutcome (g : Graph) (o : Outcome) (id : String) :
    (g.addOutcome o).externalImports.get? id =
      if id = o.moduleId then withExternal (g.externalImports.get? id) o else g.externalImports.get? id := by
  rw [addOutcome, externalImports_foldl_addExternal, (foldl_addUnresolved_frame _ _).2.2,
    (records_foldl_addEdge o.edges).2]
  rfl

theorem get?_addOutcome : (g.addOutcome o).nodes.get? id = (g.nodes.get? id).or
    (if ∃ edge ∈ o.edges, id = o.moduleId ∨ id = edge.1 then some .bare else none) := by
  rw [← get?_foldl_addEdge, addOutcome, (foldl_addExternal_frame _ _).1, (foldl_addUnresolved_frame _ _).1]

/-! ## All outcomes -/

/-- Where every outcome only changes what is known of its own module, each module is as its own outcome leaves it. -/
private theorem view_foldl_addOutcome {β : Type} (view : Graph → String → β) (step : β → Outcome → β)
    (single : ∀ g o id, view (g.addOutcome o) id = if id = o.moduleId then step (view g id) o else view g id)
    (nodup : (outcomes.map (·.moduleId)).Nodup) (id : String) :
    (∀ o ∈ outcomes, o.moduleId = id → view (outcomes.foldl addOutcome g) id = step (view g id) o) ∧
      ((∀ o ∈ outcomes, o.moduleId ≠ id) → view (outcomes.foldl addOutcome g) id = view g id) := by
  induction outcomes generalizing g with
  | nil => simp
  | cons first rest ih =>
    obtain ⟨fresh, later⟩ := List.nodup_cons.mp nodup
    obtain ⟨inside, outside⟩ := ih (g := g.addOutcome first) later
    rw [List.foldl_cons]
    refine ⟨fun o member same => ?_, fun other => ?_⟩
    · rcases List.mem_cons.mp member with rfl | member
      · rw [outside fun other listed equal => fresh (List.mem_map.mpr ⟨other, listed, equal.trans same.symm⟩),
          single, if_pos same.symm]
      · have differ : id ≠ first.moduleId := fun equal =>
          fresh (List.mem_map.mpr ⟨o, member, same.trans equal⟩)
        rw [inside o member same, single, if_neg differ]
    · rw [outside fun o member => other o (by simp [member]), single,
        if_neg (Ne.symm (other first (by simp)))]

private theorem get?_foldl_addOutcome :
    (outcomes.foldl addOutcome g).nodes.get? id = (g.nodes.get? id).or
      (if ∃ o ∈ outcomes, ∃ edge ∈ o.edges, id = o.moduleId ∨ id = edge.1 then some .bare else none) := by
  induction outcomes generalizing g with
  | nil => simp
  | cons first rest ih =>
    rw [List.foldl_cons, ih, get?_addOutcome]
    cases g.nodes.get? id with
    | some info => simp
    | none =>
      by_cases here : ∃ edge ∈ first.edges, id = first.moduleId ∨ id = edge.1
      · have whole : ∃ o ∈ first :: rest, ∃ edge ∈ o.edges, id = o.moduleId ∨ id = edge.1 :=
          ⟨first, by simp, here⟩
        rw [if_pos here, if_pos whole, Option.none_or, Option.some_or]
      · simp only [here, if_false, Option.none_or, List.mem_cons, exists_eq_or_imp, false_or]

private theorem addScanned_frame (g : Graph) : (g.addScanned outcomes).outgoing = g.outgoing ∧
    (g.addScanned outcomes).unresolvedImports = g.unresolvedImports ∧
    (g.addScanned outcomes).externalImports = g.externalImports := by
  unfold addScanned
  induction outcomes generalizing g with
  | nil => exact ⟨rfl, rfl, rfl⟩
  | cons first rest ih =>
    rw [List.foldl_cons]
    split
    · exact ih (g.addNode first.moduleId _)
    · exact ih g

private theorem get?_addScanned (outcomes : List Outcome) (g : Graph) :
    (g.addScanned outcomes).nodes.get? id =
      (g.nodes.get? id).or (outcomes.findSome? fun o => if o.moduleId = id then o.info else none) := by
  unfold addScanned
  induction outcomes generalizing g with
  | nil => simp
  | cons first rest ih =>
    rw [List.foldl_cons, ih, List.findSome?_cons]
    cases read : first.info with
    | none => simp
    | some info =>
      rw [nodes_addNode, OrderedMap.get?_insertNew, Option.or_assoc]
      by_cases same : first.moduleId = id <;> simp [same]

/-- What is known of a module: what was read of it, or only that an edge ends at it. -/
theorem get?_ofOutcomes : (ofOutcomes outcomes).nodes.get? id =
    (outcomes.findSome? fun o => if o.moduleId = id then o.info else none).or
      (if ∃ o ∈ outcomes, ∃ edge ∈ o.edges, id = o.moduleId ∨ id = edge.1 then some .bare else none) := by
  rw [ofOutcomes, get?_foldl_addOutcome, get?_addScanned]
  rfl

private theorem isSome_findSome?_iff :
    (outcomes.findSome? fun o => if o.moduleId = id then o.info else none).isSome ↔
      ∃ o ∈ outcomes, o.moduleId = id ∧ o.info.isSome := by
  rw [List.findSome?_isSome_iff]
  refine exists_congr fun o => and_congr_right fun _ => ?_
  by_cases same : o.moduleId = id <;> simp [same]

/-- What was read of a module is known of it. -/
theorem get?_ofOutcomes_of_mem {info : ModuleInfo} (nodup : (outcomes.map (·.moduleId)).Nodup)
    (member : o ∈ outcomes) (read : o.info = some info) :
    (ofOutcomes outcomes).nodes.get? o.moduleId = some info := by
  have known : (outcomes.findSome? fun other => if other.moduleId = o.moduleId then other.info else none) =
      some info := by
    cases found : outcomes.findSome? fun other => if other.moduleId = o.moduleId then other.info else none with
    | none =>
      have some := isSome_findSome?_iff.mpr ⟨o, member, rfl, by rw [read]; rfl⟩
      rw [found] at some
      cases some
    | some info' =>
      obtain ⟨other, member', read'⟩ := List.exists_of_findSome?_eq_some found
      split at read'
      · rename_i same
        rw [List.inj_on_of_nodup_map nodup member' member same, read] at read'
        exact read'.symm
      · cases read'
  rw [get?_ofOutcomes, known, Option.some_or]

private theorem isScanned_of_findSome? {info : ModuleInfo} (complete : ∀ o ∈ outcomes, o.IsComplete)
    (found : (outcomes.findSome? fun o => if o.moduleId = id then o.info else none) = some info) :
    info.isScanned = true := by
  obtain ⟨o, member, read⟩ := List.exists_of_findSome?_eq_some found
  split at read
  · exact (complete o member).scanned info read
  · cases read

/-- The scanned modules are those whose imports were read. -/
theorem mem_scannedModules_ofOutcomes (complete : ∀ o ∈ outcomes, o.IsComplete) :
    id ∈ (ofOutcomes outcomes).scannedModules ↔ ∃ o ∈ outcomes, o.moduleId = id ∧ o.info.isSome := by
  rw [scannedModules, OrderedMap.mem_keys_iff, OrderedMap.get?_filter, get?_ofOutcomes,
    ← isSome_findSome?_iff, ← Option.isSome_iff_exists]
  cases found : outcomes.findSome? fun o => if o.moduleId = id then o.info else none with
  | none =>
    split <;> simp [Option.filter, ModuleInfo.bare, ModuleInfo.isScanned]
  | some info => simp [Option.filter, isScanned_of_findSome? complete found]

/-- The other modules are targets of edges. -/
theorem mem_nodeIds_ofOutcomes (complete : ∀ o ∈ outcomes, o.IsComplete) :
    id ∈ (ofOutcomes outcomes).nodeIds ↔
      (∃ o ∈ outcomes, o.moduleId = id ∧ o.info.isSome) ∨ ∃ o ∈ outcomes, id ∈ o.targets := by
  rw [nodeIds, OrderedMap.mem_keys_iff, ← Option.isSome_iff_exists, get?_ofOutcomes, Option.isSome_or,
    Bool.or_eq_true, isSome_findSome?_iff, Option.isSome_ite]
  constructor
  · rintro (scanned | ⟨o, member, edge, listed, rfl | rfl⟩)
    · exact .inl scanned
    · refine .inl ⟨o, member, rfl, Option.isSome_iff_ne_none.mpr fun unread => ?_⟩
      simp [(complete o member).no_edges unread] at listed
    · exact .inr ⟨o, member, Outcome.mem_targets_iff.mpr ⟨edge, listed, rfl⟩⟩
  · rintro (scanned | ⟨o, member, target⟩)
    · exact .inl scanned
    · obtain ⟨edge, listed, rfl⟩ := Outcome.mem_targets_iff.mp target
      exact .inr ⟨o, member, edge, listed, .inr rfl⟩

private theorem edgesOf_addScanned : (empty.addScanned outcomes).edgesOf id = .empty := by
  rw [edgesOf, (addScanned_frame empty).1]
  rfl

/-- The edges of a module are those of its own outcome. -/
theorem edgesOf_ofOutcomes (nodup : (outcomes.map (·.moduleId)).Nodup) (member : o ∈ outcomes) :
    (ofOutcomes outcomes).edgesOf o.moduleId = o.links := by
  rw [ofOutcomes, (view_foldl_addOutcome edgesOf withEdges edgesOf_addOutcome nodup _).1 o member rfl,
    edgesOf_addScanned]
  rfl

/-- Of a module that no outcome is about, no imports are known. -/
theorem blank_ofOutcomes (nodup : (outcomes.map (·.moduleId)).Nodup) (other : ∀ o ∈ outcomes, o.moduleId ≠ id) :
    (ofOutcomes outcomes).edgesOf id = .empty ∧ (ofOutcomes outcomes).unresolvedOf id = [] ∧
      (ofOutcomes outcomes).externalOf? id = none := by
  obtain ⟨-, unresolved, external⟩ : (empty.addScanned outcomes).outgoing = _ ∧ _ := addScanned_frame empty
  refine ⟨?_, ?_, ?_⟩
  · rw [ofOutcomes, (view_foldl_addOutcome edgesOf withEdges edgesOf_addOutcome nodup id).2 other, edgesOf_addScanned]
  · rw [ofOutcomes, (view_foldl_addOutcome unresolvedOf (· ++ ·.unresolved) unresolvedOf_addOutcome nodup id).2 other,
      unresolvedOf, unresolved]
    rfl
  · rw [externalOf?, ofOutcomes, (view_foldl_addOutcome (·.externalImports.get? ·) withExternal
      externalImports_addOutcome nodup id).2 other, external]
    rfl

/-- Every edge is one of an outcome. -/
theorem exists_outcome_of_edge {target : String} {label : EdgeLabel} (nodup : (outcomes.map (·.moduleId)).Nodup)
    (edge : ((ofOutcomes outcomes).edgesOf id).get? target = some label) :
    ∃ o ∈ outcomes, o.moduleId = id ∧ (target, label) ∈ o.edges := by
  by_cases listed : ∃ o ∈ outcomes, o.moduleId = id
  · obtain ⟨o, member, rfl⟩ := listed
    rw [edgesOf_ofOutcomes nodup member] at edge
    exact ⟨o, member, rfl, Outcome.mem_edges_of_get?_links edge⟩
  · rw [(blank_ofOutcomes nodup fun o member same => listed ⟨o, member, same⟩).1] at edge
    cases edge

/-- The imports of a module without a file are those of its own outcome. -/
theorem unresolvedOf_ofOutcomes (nodup : (outcomes.map (·.moduleId)).Nodup) (member : o ∈ outcomes) :
    (ofOutcomes outcomes).unresolvedOf o.moduleId = o.unresolved := by
  have own := (view_foldl_addOutcome unresolvedOf (· ++ ·.unresolved) unresolvedOf_addOutcome nodup
    (g := empty.addScanned outcomes) o.moduleId).1 o member rfl
  rw [ofOutcomes, own, unresolvedOf, (addScanned_frame empty).2.1]
  rfl

/-- The external imports of a module are those of its own outcome, each once. -/
theorem externalOf?_ofOutcomes (nodup : (outcomes.map (·.moduleId)).Nodup) (member : o ∈ outcomes) :
    (ofOutcomes outcomes).externalOf? o.moduleId =
      if o.external = [] then none else some (OrderedSet.ofList o.external).toList := by
  have own := (view_foldl_addOutcome (·.externalImports.get? ·) withExternal externalImports_addOutcome nodup
    (g := empty.addScanned outcomes) o.moduleId).1 o member rfl
  have grown (names : List String) (known : OrderedSet String) :
      names.foldl (fun known name => some ((known.getD .empty).add name)) (some known) =
        some (names.foldl OrderedSet.add known) := by
    induction names generalizing known with
    | nil => rfl
    | cons name rest ih => exact ih (known.add name)
  have none : (empty.addScanned outcomes).externalImports.get? o.moduleId = none := by
    rw [(addScanned_frame empty).2.2]
    rfl
  rw [externalOf?, ofOutcomes, own, none, withExternal]
  cases o.external with
  | nil => rfl
  | cons name rest =>
    rw [List.foldl_cons, grown]
    rfl

/-- Two graphs know the same of a module. -/
structure SameAt (g h : Graph) (id : String) : Prop where
  node : g.nodes.get? id = h.nodes.get? id
  edges : g.edgesOf id = h.edgesOf id
  unresolved : g.unresolvedOf id = h.unresolvedOf id
  external : g.externalOf? id = h.externalOf? id

/-- The outcome of a file says what is known of it, whatever the other files are. -/
theorem sameAt_ofOutcomes {others : List Outcome} (nodup : (outcomes.map (·.moduleId)).Nodup)
    (nodup' : (others.map (·.moduleId)).Nodup) (member : o ∈ outcomes) (member' : o ∈ others)
    (read : o.info.isSome) : (ofOutcomes outcomes).SameAt (ofOutcomes others) o.moduleId := by
  obtain ⟨info, read⟩ := Option.isSome_iff_exists.mp read
  constructor
  · rw [get?_ofOutcomes_of_mem nodup member read, get?_ofOutcomes_of_mem nodup' member' read]
  · rw [edgesOf_ofOutcomes nodup member, edgesOf_ofOutcomes nodup' member']
  · rw [unresolvedOf_ofOutcomes nodup member, unresolvedOf_ofOutcomes nodup' member']
  · rw [externalOf?_ofOutcomes nodup member, externalOf?_ofOutcomes nodup' member']

/-- A module imports the targets of its own outcome. -/
theorem dependencies_ofOutcomes (nodup : (outcomes.map (·.moduleId)).Nodup) (member : o ∈ outcomes) :
    (ofOutcomes outcomes).dependencies o.moduleId = o.targets := by
  rw [dependencies, edgesOf_ofOutcomes nodup member]
  rfl

/-- A module that was not scanned imports nothing. -/
theorem dependencies_ofOutcomes_of_unscanned (nodup : (outcomes.map (·.moduleId)).Nodup)
    (complete : ∀ o ∈ outcomes, o.IsComplete)
    (unscanned : ¬∃ o ∈ outcomes, o.moduleId = id ∧ o.info.isSome) :
    (ofOutcomes outcomes).dependencies id = [] := by
  by_cases listed : ∃ o ∈ outcomes, o.moduleId = id
  · obtain ⟨o, member, rfl⟩ := listed
    rw [dependencies_ofOutcomes nodup member]
    refine (complete o member).targets_eq_nil (Option.not_isSome_iff_eq_none.mp fun read => ?_)
    exact unscanned ⟨o, member, rfl, read⟩
  · rw [dependencies, (blank_ofOutcomes nodup fun o member same => listed ⟨o, member, same⟩).1]
    rfl

end Graph
end ModuleGraph
