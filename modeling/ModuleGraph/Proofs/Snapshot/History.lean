import ModuleGraph.Proofs.Graph.Representation
import ModuleGraph.Proofs.Snapshot.Dependency

/-!
The snapshots that an analyzer can hold: each arises from no module, or from the modules of a graph,
by merging graphs and removing modules. A module that some other one is said to import is a module of
the snapshot itself, unless it was removed and no later merge has brought it back (`dangling_iff`).
Both ends of an edge being modules of their graph is what keeps merges from naming anything unknown.
-/
namespace ModuleGraph

/-- What a snapshot starts from. -/
inductive SnapshotStart where
  | empty
  | ofGraph (changes : List GraphChange)

/-- One change of a snapshot: a graph that is merged, as its own changes made it, or a module that is
    removed. -/
inductive SnapshotChange where
  | merge (changes : List GraphChange)
  | remove (id : String)

namespace DependencySnapshot
variable {s : DependencySnapshot} {g : Graph} {start : SnapshotStart} {past : List SnapshotChange}
  {id target : String}

/-- The snapshot at the start. -/
def atStart : SnapshotStart → DependencySnapshot
  | .empty => .empty
  | .ofGraph changes => ofGraph (.ofChanges changes)

/-- The snapshot after a change. -/
def change (s : DependencySnapshot) : SnapshotChange → DependencySnapshot
  | .merge changes => s.merge (.ofChanges changes)
  | .remove id => s.remove id

/-- The snapshot that changes make of the one at the start. -/
def ofHistory (start : SnapshotStart) (past : List SnapshotChange) : DependencySnapshot :=
  past.foldl change (atStart start)

/-- Some module is said to import this one. -/
def Names (s : DependencySnapshot) (target : String) : Prop :=
  ∃ id deps, s.dependencies.get? id = some deps ∧ target ∈ deps

/-- No change brings a module back. -/
def NoReturn (target : String) (later : List SnapshotChange) : Prop :=
  ∀ changes, .merge changes ∈ later → target ∉ (Graph.ofChanges changes).nodeIds

/-- A module was there, was removed under its own name, and has not been brought back since. -/
def Left (start : SnapshotStart) (past : List SnapshotChange) (target : String) : Prop :=
  ∃ before after, past = before ++ .remove target :: after ∧
    target ∈ (ofHistory start before).dependencies.keys ∧ NoReturn target after

@[simp] theorem ofHistory_nil : ofHistory start [] = atStart start := rfl

theorem ofHistory_concat {last : SnapshotChange} :
    ofHistory start (past ++ [last]) = (ofHistory start past).change last := by
  simp only [ofHistory, List.foldl_append, List.foldl_cons, List.foldl_nil]

theorem ofHistory_append {later : List SnapshotChange} :
    ofHistory start (past ++ later) = later.foldl change (ofHistory start past) := by
  simp only [ofHistory, List.foldl_append]

/-! ## The modules of a snapshot -/

theorem mem_keys_ofGraph : id ∈ (ofGraph g).dependencies.keys ↔ id ∈ g.nodeIds := by
  rw [OrderedMap.mem_keys_iff, get?_ofGraph]
  by_cases node : id ∈ g.nodeIds
  · simp [node]
  · simp [node]

theorem mem_keys_remove :
    id ∈ (s.remove target).dependencies.keys ↔ id ≠ target ∧ id ∈ s.dependencies.keys := by
  rw [OrderedMap.mem_keys_iff, OrderedMap.mem_keys_iff, remove, OrderedMap.get?_erase]
  by_cases same : target = id
  · simp [same]
  · simp [same, Ne.symm same]

theorem mem_keys_merge :
    id ∈ (s.merge g).dependencies.keys ↔ id ∈ s.dependencies.keys ∨ id ∈ g.nodeIds := by
  have node_of_scanned : id ∈ g.scannedModules → id ∈ g.nodeIds := by
    intro scanned
    obtain ⟨entry, inside, rfl⟩ := List.mem_map.mp scanned
    exact List.mem_map_of_mem (List.mem_filter.mp inside).1
  rw [OrderedMap.mem_keys_iff, OrderedMap.mem_keys_iff, get?_merge]
  by_cases scanned : id ∈ g.scannedModules
  · simp [scanned, node_of_scanned scanned]
  · rw [if_neg scanned]
    cases known : s.dependencies.get? id with
    | some deps => simp
    | none =>
      by_cases node : id ∈ g.nodeIds
      · simp [node]
      · simp [node]

/-! ## The modules that a snapshot names -/

theorem names_ofGraph (ok : g.WellIndexed) (named : (ofGraph g).Names target) :
    target ∈ g.nodeIds := by
  obtain ⟨id, deps, found, inside⟩ := named
  rw [get?_ofGraph] at found
  by_cases node : id ∈ g.nodeIds
  · rw [if_pos node] at found
    obtain rfl := Option.some.inj found
    exact ok.target_mem id target inside
  · simp [node] at found

theorem names_remove (named : (s.remove id).Names target) : s.Names target := by
  obtain ⟨source, deps, found, inside⟩ := named
  rw [remove, OrderedMap.get?_erase] at found
  by_cases same : id = source
  · simp [same] at found
  · rw [if_neg same] at found
    exact ⟨source, deps, found, inside⟩

/-- A merge names what was named before and modules of the part. -/
theorem names_merge (ok : g.WellIndexed) (named : (s.merge g).Names target) :
    s.Names target ∨ target ∈ g.nodeIds := by
  obtain ⟨id, deps, found, inside⟩ := named
  rw [get?_merge] at found
  by_cases scanned : id ∈ g.scannedModules
  · rw [if_pos scanned] at found
    obtain rfl := Option.some.inj found
    exact .inr (ok.target_mem id target inside)
  · rw [if_neg scanned] at found
    cases known : s.dependencies.get? id with
    | some old =>
      obtain rfl : old = deps := by simpa [known] using found
      exact .inl ⟨id, old, known, inside⟩
    | none =>
      -- a module that is only a target in the part gets the empty list
      have bare : [] = deps := by
        by_cases node : id ∈ g.nodeIds
        · simpa [known, node] using found
        · simp [known, node] at found
      subst bare
      simp at inside

/-! ## One change -/

theorem Left.concat {last : SnapshotChange} (gone : Left start past target)
    (away : NoReturn target [last]) : Left start (past ++ [last]) target := by
  obtain ⟨before, after, rfl, there, noReturn⟩ := gone
  refine ⟨before, after ++ [last], by simp, there, ?_⟩
  intro changes merged
  rcases List.mem_append.mp merged with early | final
  · exact noReturn changes early
  · exact away changes final

/-- What is known or has left before a change, is known or has left after it. -/
theorem known_or_left_concat (last : SnapshotChange)
    (before : target ∈ (ofHistory start past).dependencies.keys ∨ Left start past target) :
    target ∈ (ofHistory start (past ++ [last])).dependencies.keys ∨
      Left start (past ++ [last]) target := by
  rw [ofHistory_concat]
  cases last with
  | merge changes =>
    by_cases node : target ∈ (Graph.ofChanges changes).nodeIds
    · exact .inl (mem_keys_merge.mpr (.inr node))
    · rcases before with known | gone
      · exact .inl (mem_keys_merge.mpr (.inl known))
      · refine .inr (gone.concat ?_)
        intro others only
        cases List.mem_singleton.mp only
        exact node
  | remove id =>
    rcases before with known | gone
    · by_cases same : target = id
      · subst same
        exact .inr ⟨past, [], rfl, known, by simp [NoReturn]⟩
      · exact .inl (mem_keys_remove.mpr ⟨same, known⟩)
    · exact .inr (gone.concat (by simp [NoReturn]))

/-- A module that is not there stays away until a merge brings it back. -/
theorem not_mem_keys_of_noReturn {later : List SnapshotChange} (unknown : target ∉ s.dependencies.keys)
    (away : NoReturn target later) : target ∉ (later.foldl change s).dependencies.keys := by
  induction later generalizing s with
  | nil => exact unknown
  | cons next rest ih =>
    have still : target ∉ (s.change next).dependencies.keys := by
      cases next with
      | merge changes =>
        have outside : target ∉ (Graph.ofChanges changes).nodeIds := away changes List.mem_cons_self
        intro known
        rcases mem_keys_merge.mp known with old | node
        · exact unknown old
        · exact outside node
      | remove id =>
        intro known
        exact unknown (mem_keys_remove.mp known).2
    exact ih still fun changes merged => away changes (List.mem_cons_of_mem next merged)

/-! ## Histories -/

/-- Induction over the history, last change last: whatever is named is known, or has left. -/
theorem known_or_left (named : (ofHistory start past).Names target) :
    target ∈ (ofHistory start past).dependencies.keys ∨ Left start past target := by
  induction past using List.reverseRecOn with
  | nil =>
    cases start with
    | empty =>
      obtain ⟨id, deps, found, -⟩ := named
      cases found
    | ofGraph changes =>
      exact .inl (mem_keys_ofGraph.mpr (names_ofGraph (Graph.wellIndexed_ofChanges changes) named))
  | append_singleton past last ih =>
    rw [ofHistory_concat] at named
    cases last with
    | merge changes =>
      rcases names_merge (Graph.wellIndexed_ofChanges changes) named with old | node
      · exact known_or_left_concat _ (ih old)
      · rw [ofHistory_concat]
        exact .inl (mem_keys_merge.mpr (.inr node))
    | remove id => exact known_or_left_concat _ (ih (names_remove named))

theorem Left.not_mem_keys (gone : Left start past target) :
    target ∉ (ofHistory start past).dependencies.keys := by
  obtain ⟨before, after, rfl, -, noReturn⟩ := gone
  rw [ofHistory_append, List.foldl_cons]
  exact not_mem_keys_of_noReturn (by simp [change, mem_keys_remove]) noReturn

/-- Only removals leave dangling targets: a target in the list of some module is missing from the
    modules exactly if it was one of them, was removed under its own name, and no later merge has it
    as a module. -/
theorem dangling_iff (start : SnapshotStart) (past : List SnapshotChange) {id target : String}
    {deps : List String} (found : (ofHistory start past).dependencies.get? id = some deps)
    (inside : target ∈ deps) :
    target ∉ (ofHistory start past).dependencies.keys ↔ Left start past target := by
  constructor
  · intro unknown
    exact (known_or_left ⟨id, deps, found, inside⟩).resolve_left unknown
  · exact Left.not_mem_keys

/-- A module that was removed is missing from the modules while the list that names it stays; a merge
    in which it is a target only brings it back, without dependencies. -/
theorem dangling_iff_removed :
    let scan : SnapshotChange :=
      .merge [.add (.node "a" (.scanned [])), .add (.edge "a" "b" .unknown)]
    let removed := ofHistory (.ofGraph []) [scan, .remove "b"]
    let merged := ofHistory (.ofGraph []) [scan, .remove "b", scan]
    removed.dependencies.get? "a" = some ["b"] ∧ "b" ∉ removed.dependencies.keys ∧
      Left (.ofGraph []) [scan, .remove "b"] "b" ∧ merged.dependencies.get? "b" = some [] := by
  intro scan removed merged
  have found : removed.dependencies.get? "a" = some ["b"] := by decide
  have missing : "b" ∉ removed.dependencies.keys := by decide
  refine ⟨found, missing, ?_, by decide⟩
  exact (dangling_iff (.ofGraph []) [scan, .remove "b"] found List.mem_cons_self).mp missing

end DependencySnapshot
end ModuleGraph
