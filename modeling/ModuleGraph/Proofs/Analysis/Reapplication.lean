import ModuleGraph.Proofs.Analysis.Dependencies

/-!
Updates that are made again. What an update leaves at an id depends on the changes, on the files and on what there was
at that id (`updateDependencies_acts`, `updateMetrics_acts`), and once it is there, the same changes leave it as it is.
So a snapshot that has been brought up to date can be brought up to date by the same changes again and again
(`update_again`).
-/
namespace ModuleGraph
open ModuleGraph.Path

section
variable {α β : Type} {update : α → Except RunError α} {view : α → String → Option β}
  {act : String → Option β → Option β}

/-- Makes an update a number of times, up to the first one that fails. -/
def repeatedly (update : α → Except RunError α) : Nat → α → Except RunError α
  | 0, s => .ok s
  | n + 1, s => (repeatedly update n s).bind update

/-- An update always gives a snapshot, and what that holds at an id depends on what there was at the id. -/
def ActsBy (update : α → Except RunError α) (view : α → String → Option β) (act : String → Option β → Option β) :
    Prop :=
  ∀ s, ∃ t, update s = .ok t ∧ ∀ id, view t id = act id (view s id)

/-- An update fails whatever it starts from. Or it always gives a snapshot, and the map of this snapshot stays as it is
    however often the update is made again. -/
def Repeatable (update : α → Except RunError α) (view : α → String → Option β) : Prop :=
  (∃ e, ∀ s, update s = .error e) ∨
    ∀ s, ∃ once, update s = .ok once ∧
      ∀ n, ∃ again, repeatedly update n once = .ok again ∧ ∀ id, view again id = view once id

example (update : α → Except RunError α) (s : α) : repeatedly update 1 s = update s := rfl

/-- Induction over the further updates: each acts on what the first one left. -/
theorem ActsBy.repeatable (acts : ActsBy update view act) (settles : ∀ id old, act id (act id old) = act id old) :
    Repeatable update view := by
  refine .inr fun s => ?_
  obtain ⟨once, done, left⟩ := acts s
  refine ⟨once, done, fun n => ?_⟩
  induction n with
  | zero => exact ⟨once, rfl, fun _ => rfl⟩
  | succ n ih =>
    obtain ⟨before, reached, same⟩ := ih
    obtain ⟨again, done', left'⟩ := acts before
    refine ⟨again, ?_, fun id => ?_⟩
    · rw [repeatedly, reached]
      exact done'
    · rw [left', same, left, settles]

end

namespace Project
variable {p : Project} {fs : FileSystem} {c : ChangeSet}

/-- The graph of the changed files, which is all that an update of dependencies looks at. -/
def changedPart (p : Project) (fs : FileSystem) (c : ChangeSet) : Except RunError Graph :=
  if c.changedFiles.isEmpty then .ok .empty
  else (p.pipeline.extractFiles fs p.root c.changedFiles.toList).1

theorem updateDependencies_eq (p : Project) (fs : FileSystem) (s : DependencySnapshot) (c : ChangeSet) :
    p.updateDependencies fs s c = (p.changedPart fs c).map (removeModules s c.deleted).merge := by
  unfold updateDependencies changedPart
  by_cases none : c.changedFiles.isEmpty = true
  · rw [if_pos none, if_pos none]
    rfl
  · rw [if_neg none, if_neg none]

/-- The modules that were read again get their imports; the others lose theirs if they were deleted, and those that
    are imported and unknown then get an empty list. -/
theorem updateDependencies_acts {part : Graph} (extracted : p.changedPart fs c = .ok part) :
    ActsBy (p.updateDependencies fs · c) (·.dependencies.get?) fun id old =>
      if id ∈ part.scannedModules then some (part.dependencies id)
      else (if ∃ path ∈ c.deleted, normalised path = id then none else old).or
        (if id ∈ part.nodeIds then some [] else none) := by
  intro s
  refine ⟨(removeModules s c.deleted).merge part, ?_, fun id => ?_⟩
  · simp only [updateDependencies_eq, extracted, Except.map]
  · simp only [DependencySnapshot.get?_merge, get?_removeModules]

/-- The files that were selected get the counts of what is there now, and the others lose theirs if they were deleted. -/
theorem updateMetrics_acts {f : SourceFilter} (compiled : p.sourceFilter = .ok f) :
    ActsBy (p.updateMetrics fs · c) (·.files.get?) fun id old =>
      if (∃ name ∈ c.changedFiles, normalised name = id) ∧ f.accepts id = true ∧
          fs.isFile (p.root.join ⟨id⟩) = true then
        (LineMetrics.ofFile fs (p.root.join ⟨id⟩)).toOption
      else if ∃ path ∈ c.deleted, normalised path = id then none
      else old :=
  fun s => get?_updateMetrics fs s c compiled

/-- Changes that were applied can be applied again: an update by the same changes, over the same files, leaves the
    imports of each module and the counts of each file as the first one left them. If it fails, it does so whatever
    the snapshot. -/
theorem update_again (p : Project) (fs : FileSystem) (c : ChangeSet) :
    Repeatable (p.updateDependencies fs · c) (·.dependencies.get?) ∧
      Repeatable (p.updateMetrics fs · c) (·.files.get?) := by
  constructor
  · cases extracted : p.changedPart fs c with
    | error e =>
      refine .inl ⟨e, fun s => ?_⟩
      simp only [updateDependencies_eq, extracted, Except.map]
    | ok part =>
      refine (updateDependencies_acts extracted).repeatable fun id old => ?_
      by_cases scanned : id ∈ part.scannedModules
      · simp only [if_pos scanned]
      · simp only [if_neg scanned]
        -- A module that was deleted and is imported is removed and comes back with an empty list each time.
        by_cases deleted : ∃ path ∈ c.deleted, normalised path = id
        · simp only [if_pos deleted]
        · simp only [if_neg deleted, Option.or_assoc, Option.or_self]
  · cases compiled : p.sourceFilter with
    | error e =>
      refine .inl ⟨e, fun s => ?_⟩
      simp only [updateMetrics, compiled, bind, Except.bind]
    | ok f =>
      refine (updateMetrics_acts compiled).repeatable fun id old => ?_
      by_cases again : (∃ name ∈ c.changedFiles, normalised name = id) ∧ f.accepts id = true ∧
          fs.isFile (p.root.join ⟨id⟩) = true
      · simp only [if_pos again]
      · simp only [if_neg again]
        by_cases deleted : ∃ path ∈ c.deleted, normalised path = id
        · simp only [if_pos deleted]
        · simp only [if_neg deleted]

end Project
end ModuleGraph
