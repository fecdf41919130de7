import ModuleGraph.Proofs.Analysis.Metrics
import ModuleGraph.Proofs.Enumeration
import ModuleGraph.Proofs.Extraction.Partial
import ModuleGraph.Proofs.Snapshot.Dependency

/-!
Dependencies brought up to date. Between two states of a project (`Project.Revision`) a file that does not
differ contributes the same (`Revision.contribution_eq`), so an update needs the changed files only: every
module of a full analysis has the same dependencies after an update, and what else an update keeps are
modules without dependencies (`updateDependencies_agrees`). That takes a changed file whose path is not too
long: the walk of a full analysis finds any other, but an update does not (`updateDependencies_misses_distant`).
-/
namespace ModuleGraph
open ModuleGraph.Path Text

/-- An extractor that looks at nothing but the path that it is given and what is read there. -/
def Extractor.IsLocal (x : Extractor) : Prop :=
  ∀ fs fs' path, fs.read path = fs'.read path → x fs path = x fs' path

theorem Python.isLocal_extractor (grammar : Except String Grammar) : (extractor grammar).IsLocal := by
  intro fs fs' path same
  simp only [extractor, sourceText, FileSystem.readText, same]

namespace Project

/-- The names of the source files of a tree. -/
def IsSource (f : SourceFilter) (fs : FileSystem) (top : Path) (base : Location) (names : List String) : Prop :=
  f.accepts (ofNames names) = true ∧ fs.IsWalked top base names

/-- The names of the source files that are new or differ from what they were. -/
def IsChanged (f : SourceFilter) (top : Path) (old new : FileSystem) (oldBase newBase : Location)
    (names : List String) : Prop :=
  IsSource f new top newBase names ∧ old.contentBelow oldBase names ≠ new.contentBelow newBase names

/-- Two states of a project, each a tree at the same place, and the changes between them. The changed
    source files are extracted without an error, and imports of the others lead where they led before. -/
structure Revision (p : Project) (f : SourceFilter) (top : Path) (old new : FileSystem)
    (oldBase newBase : Location) (c : ChangeSet) : Prop where
  compiled : p.sourceFilter = .ok f
  old_root : Extraction.canonicalRoot old p.root = .ok top
  new_root : Extraction.canonicalRoot new p.root = .ok top
  old_tree : old.IsTree top oldBase
  new_tree : new.IsTree top newBase
  precise : c.Between (old.contentBelow oldBase) (new.contentBelow newBase)
  isLocal : p.extractor.IsLocal
  extracts : ∀ names, IsChanged f top old new oldBase newBase names →
    ∃ imports, p.extractor new (top.join ⟨ofNames names⟩) = .ok imports
  answers : ∀ names, IsSource f old top oldBase names →
    old.contentBelow oldBase names = new.contentBelow newBase names →
      ∀ q ∈ (Extraction.inquiry old p.extractor top (.below top (ofNames names))).queries
          (Extraction.answer old p.settings top),
        Extraction.answer old p.settings top q = Extraction.answer new p.settings top q

/-- What the file at names contributes to the dependencies of a project. -/
def contribution (p : Project) (fs : FileSystem) (top : Path) (names : List String) : Outcome :=
  Extraction.outcome fs p.settings p.extractor top (.below top (ofNames names))

/-- The ids of the modules that an update removes. -/
def IsDeleted (p : Project) (c : ChangeSet) (id : String) : Prop :=
  ∃ path ∈ (c.filtered p.settings.sourceExtension).deleted, normalised path = id

variable {p : Project} {f : SourceFilter} {top : Path} {old new : FileSystem} {oldBase newBase : Location}
  {c : ChangeSet} {names : List String} {id : String} {before after part : Graph}

namespace Revision

/-! ## Files -/

theorem read_eq (r : p.Revision f top old new oldBase newBase c)
    (source : IsSource f old top oldBase names)
    (same : old.contentBelow oldBase names = new.contentBelow newBase names) :
    old.read (top.join ⟨ofNames names⟩) = new.read (top.join ⟨ofNames names⟩) := by
  obtain ⟨bytes, content⟩ := Option.isSome_iff_exists.mp source.2.present
  rw [r.old_tree.read_join content, r.new_tree.read_join (same.symm.trans content)]

/-- A file that does not differ contributes the same. -/
theorem contribution_eq (r : p.Revision f top old new oldBase newBase c)
    (source : IsSource f old top oldBase names)
    (same : old.contentBelow oldBase names = new.contentBelow newBase names) :
    p.contribution old top names = p.contribution new top names := by
  have extracted : Extraction.inquiry old p.extractor top (.below top (ofNames names)) =
      Extraction.inquiry new p.extractor top (.below top (ofNames names)) :=
    congrArg (Outcome.ofImports top _) (r.isLocal old new _ (r.read_eq source same))
  unfold contribution Extraction.outcome
  rw [← extracted]
  exact Inquiry.run_congr (r.answers names source same)

theorem isSome_of_isChanged (r : p.Revision f top old new oldBase newBase c)
    (changed : IsChanged f top old new oldBase newBase names) : (p.contribution new top names).info.isSome := by
  obtain ⟨imports, extracted⟩ := r.extracts names changed
  exact Extraction.isSome_info_outcome.mpr ⟨imports, extracted⟩

theorem isSource_old (same : old.contentBelow oldBase names = new.contentBelow newBase names)
    (source : IsSource f new top newBase names) : IsSource f old top oldBase names := by
  obtain ⟨accepted, present, entered⟩ := source
  rw [← same] at present
  exact ⟨accepted, present, entered⟩

theorem ofPatterns_eq (r : p.Revision f top old new oldBase newBase c) :
    SourceFilter.ofPatterns p.settings.included p.settings.excluded p.settings.sourceExtension = .ok f :=
  ofPatterns_of_sourceFilter r.compiled

/-- A source file that is not there any more is deleted. -/
theorem isDeleted_of_source (r : p.Revision f top old new oldBase newBase c)
    (source : IsSource f old top oldBase names) (gone : new.contentBelow newBase names = none) :
    p.IsDeleted c (ofNames names) := by
  have ok := r.old_tree.areNames_of_isSome source.2.present
  have ends := SourceFilter.endsInExtension_of_accepts r.ofPatterns_eq ok source.1
  exact (r.precise.deleted_names_iff _ (fun _ => r.old_tree.areNames_of_isSome) ok).mpr ⟨ends, source.2.present, gone⟩

theorem not_isDeleted (r : p.Revision f top old new oldBase newBase c) (ok : AreNames names)
    (present : (new.contentBelow newBase names).isSome) : ¬p.IsDeleted c (ofNames names) := fun deleted => by
  have gone := ((r.precise.deleted_names_iff _ (fun _ => r.old_tree.areNames_of_isSome) ok).mp deleted).2.2
  simp [gone] at present

/-! ## Modules -/

/-- What an update keeps of the modules that are not scanned now was not scanned before either. -/
theorem unscanned_before (r : p.Revision f top old new oldBase newBase c)
    (whole : before.Extracted (IsSource f old top oldBase) (p.contribution old top))
    (whole' : after.Extracted (IsSource f new top newBase) (p.contribution new top))
    (unscanned : id ∉ after.scannedModules) (kept : ¬p.IsDeleted c id) : id ∉ before.scannedModules := by
  intro scanned
  obtain ⟨names, source, rfl, read⟩ := (whole.mem_scannedModules_iff id).mp scanned
  cases present : new.contentBelow newBase names with
  | none => exact kept (r.isDeleted_of_source source present)
  | some bytes =>
    have source' : IsSource f new top newBase names := ⟨source.1, by simp [present], source.2.entered⟩
    refine unscanned ((whole'.mem_scannedModules_iff _).mpr ⟨names, source', rfl, ?_⟩)
    by_cases same : old.contentBelow oldBase names = new.contentBelow newBase names
    · rwa [← r.contribution_eq source same]
    · exact r.isSome_of_isChanged ⟨source', same⟩

/-- What is scanned in an update is scanned in a full analysis, with the same dependencies. -/
theorem scanned_part (partly : part.Extracted (IsChanged f top old new oldBase newBase) (p.contribution new top))
    (whole' : after.Extracted (IsSource f new top newBase) (p.contribution new top))
    (scanned : id ∈ part.scannedModules) :
    id ∈ after.scannedModules ∧ part.dependencies id = after.dependencies id := by
  obtain ⟨names, changed, rfl, read⟩ := (partly.mem_scannedModules_iff id).mp scanned
  refine ⟨(whole'.mem_scannedModules_iff _).mpr ⟨names, changed.1, rfl, read⟩, ?_⟩
  rw [partly.dependencies_eq names changed, whole'.dependencies_eq names changed.1]

/-- The modules of an update are modules of a full analysis. -/
theorem mem_nodeIds_part
    (partly : part.Extracted (IsChanged f top old new oldBase newBase) (p.contribution new top))
    (whole' : after.Extracted (IsSource f new top newBase) (p.contribution new top))
    (known : id ∈ part.nodeIds) : id ∈ after.nodeIds := by
  refine (whole'.mem_nodeIds_iff id).mpr ?_
  rcases (partly.mem_nodeIds_iff id).mp known with scanned | ⟨names, changed, target⟩
  · exact .inl (scanned_part partly whole' scanned).1
  · exact .inr ⟨names, changed.1, target⟩

/-- What is scanned in a full analysis but not in an update was scanned before, with the same
    dependencies, and is not deleted. -/
theorem scanned_before (r : p.Revision f top old new oldBase newBase c)
    (whole : before.Extracted (IsSource f old top oldBase) (p.contribution old top))
    (whole' : after.Extracted (IsSource f new top newBase) (p.contribution new top))
    (partly : part.Extracted (IsChanged f top old new oldBase newBase) (p.contribution new top))
    (scanned : id ∈ after.scannedModules) (rest : id ∉ part.scannedModules) :
    id ∈ before.scannedModules ∧ before.dependencies id = after.dependencies id ∧ ¬p.IsDeleted c id := by
  obtain ⟨names, source, rfl, read⟩ := (whole'.mem_scannedModules_iff id).mp scanned
  have same : old.contentBelow oldBase names = new.contentBelow newBase names := by
    by_contra differ
    exact rest ((partly.mem_scannedModules_iff _).mpr ⟨names, ⟨source, differ⟩, rfl, read⟩)
  have source' := isSource_old same source
  have equal := r.contribution_eq source' same
  refine ⟨(whole.mem_scannedModules_iff _).mpr ⟨names, source', rfl, equal ▸ read⟩, ?_, ?_⟩
  · rw [whole.dependencies_eq names source', whole'.dependencies_eq names source, equal]
  · exact r.not_isDeleted (r.new_tree.areNames_of_isSome source.2.present) source.2.present

/-- A target of a full analysis is one of the update, or it was a module before and is not deleted. -/
theorem target_before (r : p.Revision f top old new oldBase newBase c)
    (whole : before.Extracted (IsSource f old top oldBase) (p.contribution old top))
    (partly : part.Extracted (IsChanged f top old new oldBase newBase) (p.contribution new top))
    (source : IsSource f new top newBase names) (target : id ∈ (p.contribution new top names).targets) :
    id ∈ part.nodeIds ∨ id ∈ before.nodeIds ∧ ¬p.IsDeleted c id := by
  by_cases same : old.contentBelow oldBase names = new.contentBelow newBase names
  · have source' := isSource_old same source
    refine .inr ⟨(whole.mem_nodeIds_iff id).mpr (.inr ⟨names, source', ?_⟩), fun deleted => ?_⟩
    · rwa [r.contribution_eq source' same]
    · obtain ⟨_, names', ok', rfl, _, gone⟩ :=
        (r.precise.exists_deleted_iff fun _ => r.old_tree.areNames_of_isSome).mp deleted
      have present := Extraction.contentBelow_of_mem_targets r.new_tree
        (Extraction.isAbsolute_canonicalRoot r.new_root) (r.new_tree.areNames_of_isSome source.2.present) ok' target
      simp [gone] at present
  · exact .inl ((partly.mem_nodeIds_iff id).mpr (.inr ⟨names, ⟨source, same⟩, target⟩))

end Revision

/-! ## Snapshots -/

variable {s : DependencySnapshot} {deleted : SortedSet}

theorem get?_removeModules : (removeModules s deleted).dependencies.get? id =
    if ∃ path ∈ deleted, normalised path = id then none else s.dependencies.get? id := by
  have erased (l : List String) (s : DependencySnapshot) :
      (l.foldl (fun s path => s.remove (normalised path)) s).dependencies =
        l.foldl (fun m path => m.erase (normalised path)) s.dependencies := by
    induction l generalizing s with
    | nil => rfl
    | cons path rest ih => exact ih _
  rw [removeModules, erased, OrderedMap.get?_foldl_erase]
  rfl

private theorem get?_removeModules_of_not (present : ¬p.IsDeleted c id) :
    (removeModules s (c.filtered p.settings.sourceExtension).deleted).dependencies.get? id =
      s.dependencies.get? id := by
  rw [get?_removeModules]
  exact if_neg present

/-- The changed source files are those that an update finds, unless their paths are too long. -/
private theorem found_iff_isChanged (r : p.Revision f top old new oldBase newBase c)
    (near : ∀ names, IsChanged f top old new oldBase newBase names →
      (top.join ⟨ofNames names⟩).text.utf8ByteSize ≤ FileSystem.pathLimit) (names : List String) :
    AreNames names ∧ ofNames names ∈ (c.filtered p.settings.sourceExtension).changedFiles ∧
        f.accepts (ofNames names) = true ∧ new.isFile (top.join ⟨ofNames names⟩) = true ↔
      IsChanged f top old new oldBase newBase names := by
  constructor
  · rintro ⟨ok, listed, accepted, isFile⟩
    obtain ⟨_, names', same, present, differ⟩ := r.precise.mem_changed_iff.mp listed
    obtain rfl := ofNames_injective ok (r.new_tree.areNames_of_isSome present) same
    have short := ((r.new_tree.isFile_join_iff ok).mp isFile).1
    exact ⟨⟨accepted, present, FileSystem.isEntered_of_near r.new_tree.named ok short⟩, differ⟩
  · intro changed
    have ⟨⟨accepted, present, _⟩, differ⟩ := changed
    have ok := r.new_tree.areNames_of_isSome present
    have ends := SourceFilter.endsInExtension_of_accepts r.ofPatterns_eq ok accepted
    exact ⟨ok, r.precise.mem_changed_iff.mpr ⟨ends, names, rfl, present, differ⟩, accepted,
      (r.new_tree.isFile_join_iff ok).mpr ⟨near names changed, present⟩⟩

/-- An update removes the deleted modules and merges the graph of the changed files. -/
theorem updateDependencies_extracted (r : p.Revision f top old new oldBase newBase c)
    (near : ∀ names, IsChanged f top old new oldBase newBase names →
      (top.join ⟨ofNames names⟩).text.utf8ByteSize ≤ FileSystem.pathLimit)
    (starts : p.workers.perform p.settings.threads () = .ok ()) (s : DependencySnapshot) :
    ∃ updated part, p.updateDependencies new s (c.filtered p.settings.sourceExtension) = .ok updated ∧
      part.Extracted (IsChanged f top old new oldBase newBase) (p.contribution new top) ∧
      ∀ id, updated.dependencies.get? id =
        ((removeModules s (c.filtered p.settings.sourceExtension).deleted).merge part).dependencies.get? id := by
  unfold updateDependencies
  by_cases none : (c.filtered p.settings.sourceExtension).changedFiles.isEmpty = true
  · have unchanged : ∀ names, ¬IsChanged f top old new oldBase newBase names := fun names changed =>
      SortedSet.isEmpty_iff.mp none _ ((found_iff_isChanged r near names).mpr changed).2.1
    refine ⟨_, .ofOutcomes [], if_pos none, ?_, fun id => ?_⟩
    · exact Extraction.extracted_of_files (.nil : SourceFilter.Ascending []) fun file => by simp [unchanged]
    · rw [DependencySnapshot.get?_merge]
      exact Option.or_none.symm
  · obtain ⟨outcomes, extracted, partly⟩ := Extraction.part_extracted p.extractor
      (c.filtered p.settings.sourceExtension).changedFiles.toList r.new_root r.ofPatterns_eq
      r.new_tree fun name listed => by
        obtain ⟨_, names, same, present, _⟩ := r.precise.mem_changed_iff.mp listed
        exact ⟨names, r.new_tree.areNames_of_isSome present, same⟩
    refine ⟨_, .ofOutcomes outcomes, ?_, ?_, fun id => rfl⟩
    · rw [if_neg none, extractFiles_fst extracted, Workers.perform_eq_ok_of_ok starts]
      rfl
    · simp only [SortedSet.mem_toList] at partly
      have same := funext fun names => propext (found_iff_isChanged r near names)
      rw [same] at partly
      exact partly

section
variable (r : p.Revision f top old new oldBase newBase c)
  (whole : before.Extracted (IsSource f old top oldBase) (p.contribution old top))
  (whole' : after.Extracted (IsSource f new top newBase) (p.contribution new top))
include r whole whole'

/-- What the modules that are left had before. -/
private theorem get?_kept (unscanned : id ∉ after.scannedModules) {deps : List String}
    (kept : (removeModules (.ofGraph before)
      (c.filtered p.settings.sourceExtension).deleted).dependencies.get? id = some deps) :
    deps = [] ∧ id ∈ before.nodeIds ∧ id ∉ before.scannedModules := by
  rw [get?_removeModules] at kept
  split at kept
  · cases kept
  · rename_i present
    rw [DependencySnapshot.get?_ofGraph] at kept
    split at kept
    · rename_i known
      have unscanned' := r.unscanned_before whole whole' unscanned present
      exact ⟨(Option.some.inj kept).symm.trans (whole.dependencies_eq_nil id unscanned'), known, unscanned'⟩
    · cases kept

variable (partly : part.Extracted (IsChanged f top old new oldBase newBase) (p.contribution new top))
include partly

private theorem get?_merge_of_mem (known : id ∈ after.nodeIds) :
    ((removeModules (.ofGraph before) (c.filtered p.settings.sourceExtension).deleted).merge
      part).dependencies.get? id = some (after.dependencies id) := by
  rw [DependencySnapshot.get?_merge]
  by_cases inPart : id ∈ part.scannedModules
  · rw [if_pos inPart, (Revision.scanned_part partly whole' inPart).2]
  rw [if_neg inPart]
  by_cases scanned : id ∈ after.scannedModules
  · obtain ⟨scanned', same, present⟩ := r.scanned_before whole whole' partly scanned inPart
    have known' := (whole.mem_nodeIds_iff id).mpr (.inl scanned')
    rw [get?_removeModules_of_not present, DependencySnapshot.get?_ofGraph, if_pos known', same,
      Option.some_or]
  · rw [whole'.dependencies_eq_nil id scanned]
    cases kept : (removeModules (.ofGraph before)
        (c.filtered p.settings.sourceExtension).deleted).dependencies.get? id with
    | some deps => rw [(get?_kept r whole whole' scanned kept).1, Option.some_or]
    | none =>
      rcases (whole'.mem_nodeIds_iff id).mp known with scanned' | ⟨names, source, target⟩
      · exact absurd scanned' scanned
      rcases r.target_before whole partly source target with known' | ⟨known', present⟩
      · rw [if_pos known', Option.none_or]
      · rw [get?_removeModules_of_not present, DependencySnapshot.get?_ofGraph, if_pos known'] at kept
        cases kept

private theorem get?_merge_of_not_mem (unknown : id ∉ after.nodeIds) {deps : List String}
    (found : ((removeModules (.ofGraph before) (c.filtered p.settings.sourceExtension).deleted).merge
      part).dependencies.get? id = some deps) :
    deps = [] ∧ id ∉ before.scannedModules ∧ ∃ source, id ∈ before.dependencies source := by
  have unscanned : id ∉ after.scannedModules := fun scanned =>
    unknown ((whole'.mem_nodeIds_iff id).mpr (.inl scanned))
  have notInPart : id ∉ part.nodeIds := fun known => unknown (Revision.mem_nodeIds_part partly whole' known)
  have notScanned : id ∉ part.scannedModules := fun scanned =>
    notInPart ((partly.mem_nodeIds_iff id).mpr (.inl scanned))
  rw [DependencySnapshot.get?_merge, if_neg notScanned, if_neg notInPart, Option.or_none] at found
  obtain ⟨none, known, unscanned'⟩ := get?_kept r whole whole' unscanned found
  refine ⟨none, unscanned', ?_⟩
  rcases (whole.mem_nodeIds_iff id).mp known with scanned | ⟨names, source, target⟩
  · exact absurd scanned unscanned'
  · exact ⟨_, (whole.dependencies_eq names source).symm ▸ target⟩

end

/-- After an update every module of a full analysis has exactly the dependencies that the full analysis
    finds. The other modules that are left have none, and they were targets of imports that were not
    scanned before. So the number of dependencies is that of the full analysis. No changed file may have
    a path that is too long. -/
theorem updateDependencies_agrees (r : p.Revision f top old new oldBase newBase c)
    (near : ∀ names, IsChanged f top old new oldBase newBase names →
      (top.join ⟨ofNames names⟩).text.utf8ByteSize ≤ FileSystem.pathLimit) {g : Graph}
    (first : (p.pipeline.extract old p.root).1 = .ok g) :
    p.fullDependencies old = .ok (.ofGraph g) ∧ ∃ updated full,
      p.updateDependencies new (.ofGraph g) (c.filtered p.settings.sourceExtension) = .ok updated ∧
      p.fullDependencies new = .ok full ∧
      (∀ id deps, full.dependencies.get? id = some deps → updated.dependencies.get? id = some deps) ∧
      (∀ id deps, updated.dependencies.get? id = some deps → full.dependencies.get? id = none →
        deps = [] ∧ id ∉ g.scannedModules ∧ ∃ source, id ∈ g.dependencies source) ∧
      ∀ stamp stamp',
        (updated.restamp stamp).totalDependencies = (full.restamp stamp').totalDependencies := by
  obtain ⟨oldOutcomes, oldRun, whole⟩ :=
    Extraction.whole_extracted p.extractor r.old_root r.ofPatterns_eq r.old_tree
  obtain ⟨newOutcomes, newRun, whole'⟩ :=
    Extraction.whole_extracted p.extractor r.new_root r.ofPatterns_eq r.new_tree
  have before : p.fullDependencies old = .ok (.ofGraph g) := by
    rw [fullDependencies, first]
    rfl
  rw [extract_fst oldRun] at first
  have after : p.fullDependencies new = .ok (.ofGraph (.ofOutcomes newOutcomes)) := by
    rw [fullDependencies, extract_fst newRun, Workers.perform_eq_ok_of_ok first]
    rfl
  cases Workers.eq_of_perform_eq_ok first
  obtain ⟨updated, part, done, partly, found⟩ := updateDependencies_extracted r near
    (Workers.perform_eq_ok_of_ok first ()) (.ofGraph (.ofOutcomes oldOutcomes))
  refine ⟨before, updated, .ofGraph (.ofOutcomes newOutcomes), done, after, ?_⟩
  have agree : ∀ id deps, (DependencySnapshot.ofGraph (.ofOutcomes newOutcomes)).dependencies.get? id =
      some deps → updated.dependencies.get? id = some deps := fun id deps listed => by
    rw [DependencySnapshot.get?_ofGraph] at listed
    split at listed
    · rename_i known
      rw [found, get?_merge_of_mem r whole whole' partly known, listed]
    · cases listed
  have rest : ∀ id deps, updated.dependencies.get? id = some deps →
      (DependencySnapshot.ofGraph (.ofOutcomes newOutcomes)).dependencies.get? id = none →
        deps = [] ∧ id ∉ (Graph.ofOutcomes oldOutcomes).scannedModules ∧
          ∃ source, id ∈ (Graph.ofOutcomes oldOutcomes).dependencies source := fun id deps kept missing => by
    rw [DependencySnapshot.get?_ofGraph] at missing
    split at missing
    · cases missing
    · rename_i unknown
      exact get?_merge_of_not_mem r whole whole' partly unknown (found id ▸ kept)
  refine ⟨agree, rest, DependencySnapshot.totalDependencies_eq fun id deps some => ⟨fun kept => ?_, agree id deps⟩⟩
  cases listed : (DependencySnapshot.ofGraph (.ofOutcomes newOutcomes)).dependencies.get? id with
  | none => exact absurd (rest id deps kept listed).1 some
  | some deps' => rw [← kept, agree id deps' listed]

open FileSystem (flat)

/-- A file that imports an empty one, and a file that nothing imports. -/
def importedBefore : OrderedMap String (List UInt8) :=
  .ofList [("a.py", utf8Bytes "import b\n"), ("b.py", []), ("d.py", utf8Bytes "x")]

/-- The first file is left alone, the second one changes, a third one comes and the last one goes. -/
def importedAfter : OrderedMap String (List UInt8) :=
  .ofList [("a.py", utf8Bytes "import b\n"), ("b.py", utf8Bytes "x"), ("c.py", utf8Bytes "import b\n")]

private theorem tree_importedBefore : (flat importedBefore).IsTree ⟨"/p"⟩ ["p"] :=
  FileSystem.isTree_flat (by decide)

private theorem tree_importedAfter : (flat importedAfter).IsTree ⟨"/p"⟩ ["p"] :=
  FileSystem.isTree_flat (by decide)

private theorem near_importedAfter {names : List String}
    (present : (FileSystem.flatContent importedAfter names).isSome) :
    (Path.join ⟨"/p"⟩ ⟨ofNames names⟩).text.utf8ByteSize ≤ FileSystem.pathLimit ∧
      ∃ source, FileSystem.flatContent importedAfter names = some (utf8Bytes source) := by
  match names with
  | [] => cases present
  | [name] =>
    have listed : name ∈ ["a.py", "b.py", "c.py"] :=
      OrderedMap.mem_keys_iff.mpr (Option.isSome_iff_exists.mp present)
    simp only [List.mem_cons, List.not_mem_nil, or_false] at listed
    rcases listed with rfl | rfl | rfl <;> exact ⟨by decide, _, rfl⟩
  | _ :: _ :: _ => cases present

private theorem extracted_importedAfter {names : List String}
    (present : (FileSystem.flatContent importedAfter names).isSome) :
    ∃ imports, plain.extractor (flat importedAfter) (Path.join ⟨"/p"⟩ ⟨ofNames names⟩) = .ok imports := by
  obtain ⟨near, source, content⟩ := near_importedAfter present
  have read := tree_importedAfter.read_join (FileSystem.contentBelow_flat ▸ content)
  rw [if_neg (Nat.not_lt.mpr near)] at read
  exact ⟨_, Python.lineExtractor_of_read (FileSystem.readText_of_read read)⟩

private theorem answer_imported {files : OrderedMap String (List UInt8)}
    (isFile : (flat files).isFile ⟨"/p/b.py"⟩ = true) :
    Extraction.answer (flat files) plain.settings ⟨"/p"⟩ ⟨"b", some ⟨"/p/a.py"⟩, 0⟩ =
      .ok (.resolved ⟨"/p/b.py"⟩) := by
  have search : Extraction.searchPath (flat files) plain.settings ⟨"/p"⟩ = ⟨[⟨"/p"⟩], "py"⟩ := rfl
  have listed : Resolution.candidatesOf ⟨[⟨"/p"⟩], "py"⟩ ⟨"b", some ⟨"/p/a.py"⟩, 0⟩ = .ok [⟨"/p/b.py"⟩,
      ⟨"/p/b/__init__.py"⟩, ⟨"/p/b.pyd"⟩, ⟨"/p/b.so"⟩, ⟨"/p/b.pyc"⟩] := rfl
  rw [Extraction.answer, search, Resolution.resolve, listed]
  simp only [bind, Except.bind, Resolution.firstFile, Resolution.probe_eq_file_iff.mpr isFile]

private theorem queries_importedBefore : (Extraction.inquiry (flat importedBefore) plain.extractor ⟨"/p"⟩
      (.below ⟨"/p"⟩ (ofNames ["a.py"]))).queries
        (Extraction.answer (flat importedBefore) plain.settings ⟨"/p"⟩) = [⟨"b", some ⟨"/p/a.py"⟩, 0⟩] := by
  have text : (flat importedBefore).readText ⟨"/p/a.py"⟩ = .ok "import b\n" :=
    FileSystem.readText_of_read (FileSystem.read_flat "a.py" (by decide) rfl (by decide))
  have read : Python.lineExtractor (flat importedBefore) ⟨"/p/a.py"⟩ = .ok [⟨.absolute, "b", 0, 1, []⟩] := by
    rw [Python.lineExtractor_of_read text]
    decide
  have path : SourceFile.below ⟨"/p"⟩ (ofNames ["a.py"]) = ⟨⟨"/p/a.py"⟩, "a.py"⟩ := rfl
  have own : plain.extractor = Python.lineExtractor := rfl
  rw [Extraction.inquiry, path, own, read]
  rfl

private theorem answers_imported {names : List String}
    (present : (FileSystem.flatContent importedBefore names).isSome)
    (same : FileSystem.flatContent importedBefore names = FileSystem.flatContent importedAfter names) :
    ∀ q ∈ (Extraction.inquiry (flat importedBefore) plain.extractor ⟨"/p"⟩
        (.below ⟨"/p"⟩ (ofNames names))).queries
          (Extraction.answer (flat importedBefore) plain.settings ⟨"/p"⟩),
      Extraction.answer (flat importedBefore) plain.settings ⟨"/p"⟩ q =
        Extraction.answer (flat importedAfter) plain.settings ⟨"/p"⟩ q := by
  have isFile {files : OrderedMap String (List UInt8)} (tree : (flat files).IsTree ⟨"/p"⟩ ["p"])
      (known : (files.get? "b.py").isSome) : (flat files).isFile ⟨"/p/b.py"⟩ = true := by
    have path : Path.join ⟨"/p"⟩ ⟨ofNames ["b.py"]⟩ = ⟨"/p/b.py"⟩ := rfl
    rw [← path, tree.isFile_join_iff ⟨by decide, by decide⟩, path, FileSystem.contentBelow_flat]
    exact ⟨by decide, known⟩
  match names with
  | [] => cases present
  | [name] =>
    have listed : name ∈ ["a.py", "b.py", "d.py"] :=
      OrderedMap.mem_keys_iff.mpr (Option.isSome_iff_exists.mp present)
    simp only [List.mem_cons, List.not_mem_nil, or_false] at listed
    rcases listed with rfl | rfl | rfl
    · intro q asked
      rw [queries_importedBefore, List.mem_singleton] at asked
      rw [asked, answer_imported (isFile tree_importedBefore (by decide)),
        answer_imported (isFile tree_importedAfter (by decide))]
    · exact absurd same (by decide)
    · exact absurd same (by decide)
  | _ :: _ :: _ => cases present

private theorem revision_imported {f : SourceFilter} (compiled : plain.sourceFilter = .ok f) :
    plain.Revision f ⟨"/p"⟩ (flat importedBefore) (flat importedAfter) ["p"] ["p"]
      (.ofFlat importedBefore importedAfter) where
  compiled := compiled
  old_root := Extraction.canonicalRoot_of_tree ["p"] tree_importedBefore
  new_root := Extraction.canonicalRoot_of_tree ["p"] tree_importedAfter
  old_tree := tree_importedBefore
  new_tree := tree_importedAfter
  precise := by
    rw [FileSystem.contentBelow_flat, FileSystem.contentBelow_flat]
    exact ChangeSet.between_flat
  isLocal := (Python.isLocal_extractor _ : Python.lineExtractor.IsLocal)
  extracts names changed := extracted_importedAfter (FileSystem.contentBelow_flat ▸ changed.1.2.present)
  answers names source same := by
    have present := source.2.present
    rw [FileSystem.contentBelow_flat] at present same
    rw [FileSystem.contentBelow_flat] at same
    exact answers_imported present same

theorem updateDependencies_agrees_flat :
    ∃ g, (plain.pipeline.extract (flat importedBefore) plain.root).1 = .ok g ∧
      plain.fullDependencies (flat importedBefore) = .ok (.ofGraph g) ∧ ∃ updated full,
      plain.updateDependencies (flat importedAfter) (.ofGraph g)
        ((ChangeSet.ofFlat importedBefore importedAfter).filtered plain.settings.sourceExtension) =
          .ok updated ∧
      plain.fullDependencies (flat importedAfter) = .ok full ∧
      (∀ id deps, full.dependencies.get? id = some deps → updated.dependencies.get? id = some deps) ∧
      (∀ id deps, updated.dependencies.get? id = some deps → full.dependencies.get? id = none →
        deps = [] ∧ id ∉ g.scannedModules ∧ ∃ source, id ∈ g.dependencies source) ∧
      ∀ stamp stamp',
        (updated.restamp stamp).totalDependencies = (full.restamp stamp').totalDependencies := by
  obtain ⟨f, compiled⟩ : ∃ f, plain.sourceFilter = .ok f := ⟨_, rfl⟩
  have r := revision_imported compiled
  obtain ⟨outcomes, run, _⟩ :=
    Extraction.whole_extracted plain.extractor r.old_root r.ofPatterns_eq r.old_tree
  have near : ∀ names, IsChanged f ⟨"/p"⟩ (flat importedBefore) (flat importedAfter) ["p"] ["p"] names →
      (Path.join ⟨"/p"⟩ ⟨ofNames names⟩).text.utf8ByteSize ≤ FileSystem.pathLimit := fun names changed =>
    (near_importedAfter (FileSystem.contentBelow_flat ▸ changed.1.2.present)).1
  exact ⟨_, extract_fst run, updateDependencies_agrees r near (extract_fst run)⟩

open FileSystem (flatAt locationPath)
open Pipeline (distantDirectory singleFile)

/-- A project in a directory whose path is as long as a path may be. -/
def distantProject : Project :=
  ⟨locationPath distantDirectory, Pipeline.openSettings, Pipeline.blindExtractor, .ready⟩

private theorem tree_nothing :
    (flatAt distantDirectory .empty).IsTree (locationPath distantDirectory) distantDirectory :=
  FileSystem.isTree_flatAt Pipeline.isName_distant nofun (Nat.le_of_eq Pipeline.size_distant)

private theorem content_nothing (names : List String) :
    (flatAt distantDirectory .empty).contentBelow distantDirectory names = none := by
  rw [FileSystem.contentBelow_flatAt]
  match names with
  | [] => rfl
  | [_] => rfl
  | _ :: _ :: _ => rfl

private theorem revision_distant : distantProject.Revision ⟨none, [], "py"⟩ (locationPath distantDirectory)
    (flatAt distantDirectory .empty) (flatAt distantDirectory singleFile) distantDirectory distantDirectory
    (.ofFlat .empty singleFile) where
  compiled := rfl
  old_root := Extraction.canonicalRoot_of_tree distantDirectory tree_nothing
  new_root := Extraction.canonicalRoot_of_tree distantDirectory Pipeline.tree_distant
  old_tree := tree_nothing
  new_tree := Pipeline.tree_distant
  precise := by
    rw [FileSystem.contentBelow_flatAt, FileSystem.contentBelow_flatAt]
    exact ChangeSet.between_flat
  isLocal _ _ _ _ := rfl
  extracts _ _ := ⟨[], rfl⟩
  answers names source := by
    have present := source.2.present
    rw [content_nothing] at present
    cases present

private theorem scan_nothing :
    SourceFilter.scan? ⟨none, [], "py"⟩ (flatAt distantDirectory .empty) (locationPath distantDirectory) = some [] := by
  obtain ⟨files, scanned, -, member⟩ := SourceFilter.scan_tree ⟨none, [], "py"⟩ tree_nothing
  have none : files = [] := by
    refine List.eq_nil_iff_forall_not_mem.mpr fun file listed => ?_
    obtain ⟨names, ⟨present, -⟩, -⟩ := (member file).mp listed
    rw [content_nothing] at present
    cases present
  rw [scanned, none]

private theorem select_distant :
    SourceFilter.select ⟨none, [], "py"⟩ (flatAt distantDirectory singleFile) (locationPath distantDirectory) ["a.py"] =
      [] := by
  refine List.eq_nil_iff_forall_not_mem.mpr fun file selected => ?_
  obtain ⟨shape, ⟨name, listed, same⟩, -, isFile⟩ := SourceFilter.mem_select.mp selected
  have plain : normalised "a.py" = "a.py" := by decide
  rw [List.mem_singleton.mp listed, plain] at same
  rw [shape, ← same] at isFile
  dsimp only [SourceFile.below] at isFile
  rw [Pipeline.isFile_distant] at isFile
  cases isFile

/-- A module that is added at a path that is too long is one of a full analysis and not of an update. -/
theorem updateDependencies_misses_distant :
    distantProject.Revision ⟨none, [], "py"⟩ (locationPath distantDirectory)
      (flatAt distantDirectory .empty) (flatAt distantDirectory singleFile) distantDirectory distantDirectory
      (.ofFlat .empty singleFile) ∧
    ∃ g updated full, (distantProject.pipeline.extract (flatAt distantDirectory .empty) distantProject.root).1 = .ok g ∧
      distantProject.updateDependencies (flatAt distantDirectory singleFile) (.ofGraph g)
        ((ChangeSet.ofFlat .empty singleFile).filtered distantProject.settings.sourceExtension) = .ok updated ∧
      distantProject.fullDependencies (flatAt distantDirectory singleFile) = .ok full ∧
      full.dependencies.get? "a.py" = some [] ∧ updated.dependencies.get? "a.py" = none := by
  have r := revision_distant
  have before : (distantProject.pipeline.extract (flatAt distantDirectory .empty) distantProject.root).1 =
      .ok (.ofOutcomes []) := extract_fst (Extraction.whole_of_scan r.old_root r.ofPatterns_eq scan_nothing)
  have part : (distantProject.pipeline.extractFiles (flatAt distantDirectory singleFile) distantProject.root
      ["a.py"]).1 = .ok (.ofOutcomes []) := by
    rw [extractFiles_fst (Extraction.part_of_select r.new_root r.ofPatterns_eq ["a.py"]), select_distant]
    rfl
  obtain ⟨outcomes, run, whole⟩ :=
    Extraction.whole_extracted distantProject.extractor r.new_root r.ofPatterns_eq r.new_tree
  have listed : ((ChangeSet.ofFlat .empty singleFile).filtered
      distantProject.settings.sourceExtension).changedFiles.toList = ["a.py"] := by decide
  refine ⟨r, .ofOutcomes [], (DependencySnapshot.ofGraph (.ofOutcomes [])).merge (.ofOutcomes []),
    .ofGraph (.ofOutcomes outcomes), before, ?updated, ?full, ?known, rfl⟩
  case updated =>
    rw [updateDependencies, if_neg (by decide), listed, part]
    rfl
  case full =>
    rw [fullDependencies, extract_fst run]
    rfl
  case known =>
    have source : IsSource ⟨none, [], "py"⟩ (flatAt distantDirectory singleFile) (locationPath distantDirectory)
        distantDirectory ["a.py"] := by
      refine ⟨by decide, ?_, FileSystem.isEntered_singleton r.new_tree.stat_root _⟩
      rw [FileSystem.contentBelow_flatAt]
      rfl
    have scanned := (whole.mem_scannedModules_iff "a.py").mpr
      ⟨["a.py"], source, rfl, Extraction.isSome_info_outcome.mpr ⟨[], rfl⟩⟩
    rw [DependencySnapshot.get?_ofGraph, if_pos ((whole.mem_nodeIds_iff _).mpr (.inl scanned))]
    exact congrArg some (whole.dependencies_eq _ source)

end Project
end ModuleGraph
