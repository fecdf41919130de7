import ModuleGraph.Proofs.Snapshot.History

/-!
Merging the graph of a part of the project puts new lists in the place of old ones and never joins the two
(`merge_replaces`). So a part can be merged again without any effect, parts that scan different modules can be merged
in either order, and a part that a later one covers need not have been merged at all.
-/
namespace ModuleGraph.DependencySnapshot
variable {s : DependencySnapshot} {p q : Graph} {id : String}

/-- What a snapshot is after a part was merged into another one: the scanned modules have the lists of the part, the
    others keep theirs, and those that are new have an empty one. -/
structure Merged (s : DependencySnapshot) (part : Graph) (merged : DependencySnapshot) : Prop where
  scanned : ∀ id ∈ part.scannedModules, merged.dependencies.get? id = some (part.dependencies id)
  kept : ∀ id ∈ s.dependencies.keys, id ∉ part.scannedModules →
    merged.dependencies.get? id = s.dependencies.get? id
  bare : ∀ id ∈ part.nodeIds, id ∉ part.scannedModules → id ∉ s.dependencies.keys →
    merged.dependencies.get? id = some []
  noOther : ∀ id ∈ merged.dependencies.keys, id ∈ s.dependencies.keys ∨ id ∈ part.nodeIds
  totals : { merged with dependencies := s.dependencies } = s

theorem nodup_scannedModules : p.scannedModules.Nodup := by
  unfold Graph.scannedModules
  exact OrderedMap.nodup _

theorem merged_merge : Merged s p (s.merge p) where
  scanned id scanned := by rw [get?_merge, if_pos scanned]
  kept id known unscanned := by
    obtain ⟨deps, found⟩ := OrderedMap.mem_keys_iff.mp known
    rw [get?_merge, if_neg unscanned, found, Option.some_or]
  bare id node unscanned unknown := by
    rw [get?_merge, if_neg unscanned, OrderedMap.get?_eq_none_iff.mpr unknown, if_pos node, Option.none_or]
  noOther id known := mem_keys_merge.mp known
  totals := rfl

/-- The loop that writes the lists counts the modules that it has been through. -/
theorem mergeCounting_eq (s : DependencySnapshot) (p : Graph) :
    s.mergeCounting p = (s.merge p, p.scannedModules.length) := by
  have counted : ∀ (l : List String) (m : OrderedMap String (List String)) (count : Nat),
      l.foldl (fun done id => (done.1.insert id (p.dependencies id), done.2 + 1)) (m, count) =
        (l.foldl (fun m id => m.insert id (p.dependencies id)) m, count + l.length) := by
    intro l
    induction l with
    | nil => exact fun _ _ => rfl
    | cons id rest ih =>
      intro m count
      rw [List.foldl_cons, List.foldl_cons, ih, List.length_cons, Nat.add_right_comm, Nat.add_assoc]
  rw [mergeCounting, counted, Nat.zero_add]
  rfl

/-- After a merge every list that it writes is there, and every module that it may add. -/
theorem merge_merge_self (s : DependencySnapshot) (p : Graph) : (s.merge p).merge p = s.merge p := by
  have written : p.scannedModules.foldl (fun m id => m.insert id (p.dependencies id)) (s.merge p).dependencies =
      (s.merge p).dependencies :=
    OrderedMap.foldl_insert_of_get? fun id scanned => merged_merge.scanned id scanned
  have added : p.nodeIds.foldl (fun m id => m.insertNew id []) (s.merge p).dependencies = (s.merge p).dependencies :=
    OrderedMap.foldl_insertNew_of_mem fun id node => mem_keys_merge.mpr (.inr node)
  rw [merge, written, added]

/-- Which of two parts comes first matters only for a module that both have scanned. -/
theorem get?_merge_comm (unshared : ¬(id ∈ p.scannedModules ∧ id ∈ q.scannedModules)) :
    ((s.merge p).merge q).dependencies.get? id = ((s.merge q).merge p).dependencies.get? id := by
  simp only [get?_merge]
  by_cases inP : id ∈ p.scannedModules
  · have notInQ : id ∉ q.scannedModules := fun inQ => unshared ⟨inP, inQ⟩
    simp only [if_pos inP, if_neg notInQ, Option.some_or]
  · by_cases inQ : id ∈ q.scannedModules
    · simp only [if_neg inP, if_pos inQ, Option.some_or]
    · -- neither writes a list, so at most an empty one comes in
      simp only [if_neg inP, if_neg inQ, Option.or_assoc]
      by_cases nodeOfP : id ∈ p.nodeIds <;> by_cases nodeOfQ : id ∈ q.nodeIds <;> simp [nodeOfP, nodeOfQ]

/-- A part is forgotten at a module that a later one scans, and one that only names the module adds no more than a
    later one that names it too. -/
theorem get?_merge_covered (scanned : id ∈ p.scannedModules → id ∈ q.scannedModules)
    (named : id ∈ p.nodeIds → id ∈ q.nodeIds) :
    ((s.merge p).merge q).dependencies.get? id = (s.merge q).dependencies.get? id := by
  simp only [get?_merge]
  by_cases inQ : id ∈ q.scannedModules
  · simp only [if_pos inQ]
  · have notInP : id ∉ p.scannedModules := fun inP => inQ (scanned inP)
    simp only [if_neg inQ, if_neg notInP, Option.or_assoc]
    by_cases node : id ∈ p.nodeIds
    · simp only [if_pos node, if_pos (named node), Option.some_or]
    · simp only [if_neg node, Option.none_or]

/-- Merging replaces lists and counts the modules whose lists it replaces. It can be repeated without any effect, the
    order of parts that scan different modules does not matter, and a part leaves no trace behind one that covers it. -/
theorem merge_replaces (s : DependencySnapshot) (p : Graph) :
    (s.mergeCounting p = (s.merge p, p.scannedModules.length) ∧ p.scannedModules.Nodup) ∧
      Merged s p (s.merge p) ∧
      (s.merge p).merge p = s.merge p ∧
      (∀ q : Graph, p.scannedModules.Disjoint q.scannedModules →
        ∀ id, ((s.merge p).merge q).dependencies.get? id = ((s.merge q).merge p).dependencies.get? id) ∧
      ∀ q : Graph, p.scannedModules ⊆ q.scannedModules → p.nodeIds ⊆ q.nodeIds →
        ∀ id, ((s.merge p).merge q).dependencies.get? id = (s.merge q).dependencies.get? id := by
  refine ⟨⟨mergeCounting_eq s p, nodup_scannedModules⟩, merged_merge, merge_merge_self s p, ?_, ?_⟩
  · intro q apart id
    exact get?_merge_comm fun both => apart both.1 both.2
  · intro q scanned named id
    exact get?_merge_covered (fun inP => scanned inP) fun node => named node

/-- A module that one part scans and another one only names, in both orders, and a part that covers the first. -/
theorem merge_replaces_scanned_and_named :
    let known : DependencySnapshot := (ofGraph .empty).merge (.ofChanges [.add (.node "b" (.scanned [])),
      .add (.edge "b" "old" .unknown)])
    let first : Graph := .ofChanges [.add (.node "a" (.scanned [])), .add (.edge "a" "b" .unknown)]
    let second : Graph := .ofChanges [.add (.node "b" (.scanned [])), .add (.edge "b" "a" .unknown)]
    let whole : Graph := .ofChanges [.add (.node "b" (.scanned [])), .add (.node "a" (.scanned []))]
    known.dependencies.get? "b" = some ["old"] ∧
      (first.scannedModules.Disjoint second.scannedModules ∧
        ((known.merge first).merge second).dependencies.get? "b" =
          ((known.merge second).merge first).dependencies.get? "b") ∧
      (first.scannedModules ⊆ whole.scannedModules ∧ first.nodeIds ⊆ whole.nodeIds ∧
        ((known.merge first).merge whole).dependencies.get? "b" = (known.merge whole).dependencies.get? "b") := by
  intro known first second whole
  have unshared : ∀ id ∈ first.scannedModules, id ∉ second.scannedModules := by decide
  have apart : first.scannedModules.Disjoint second.scannedModules := unshared
  have scanned : first.scannedModules ⊆ whole.scannedModules := by decide
  have named : first.nodeIds ⊆ whole.nodeIds := by decide
  obtain ⟨-, -, -, swapped, covered⟩ := merge_replaces known first
  exact ⟨by decide, ⟨apart, swapped second apart "b"⟩, scanned, named, covered whole scanned named "b"⟩

end ModuleGraph.DependencySnapshot
