import ModuleGraph.Proofs.Analysis.Dependencies
import ModuleGraph.Proofs.Extraction.Isolation

/-!
What an update leaves at the files that changed, whatever has become of them. A file that it selects and can read
gets what is there now, which a full analysis finds as well if it is scanned. All others keep what the snapshot
had unless they are reported as deleted (`updateMetrics_changed`, `updateDependencies_changed`). So the counts of a
file survive that is gone (`updateMetrics_stale`), and the imports of one that cannot be read any more
(`updateDependencies_stale`).
-/
namespace ModuleGraph
open ModuleGraph.Path Text

namespace SourceFilter

/-- Whether a scan finds a file with an id. -/
def scans (f : SourceFilter) (fs : FileSystem) (root : Path) (id : String) : Bool :=
  match f.scan? fs root with
  | some files => files.any (·.moduleId == id)
  | none => false

/-- Whether the file with an id is selected when it is asked for. -/
def selects (f : SourceFilter) (fs : FileSystem) (root : Path) (id : String) : Bool :=
  f.accepts id && fs.isFile (root.join ⟨id⟩)

variable {f : SourceFilter} {fs : FileSystem} {root : Path} {files : List SourceFile} {names : List String} {id : String}

/-- The file that is scanned under an id is the one that the id leads to. -/
theorem scans_iff (named : fs.WellNamed) (start : root.text ≠ "") (found : f.scan? fs root = some files) :
    f.scans fs root id = true ↔ .below root id ∈ files := by
  rw [scans, found]
  simp only [List.any_eq_true, beq_iff_eq]
  constructor
  · rintro ⟨file, member, rfl⟩
    obtain ⟨names, -, rfl⟩ := exists_names_of_scan named start found member
    exact member
  · exact fun member => ⟨_, member, rfl⟩

theorem accepts_of_scans (scanned : f.scans fs root id = true) : f.accepts id = true := by
  unfold scans at scanned
  split at scanned
  · rename_i files found
    obtain ⟨file, member, same⟩ := List.any_eq_true.mp scanned
    rw [beq_iff_eq] at same
    exact same ▸ accepts_of_scan found member
  · cases scanned

theorem below_mem_select : .below root id ∈ f.select fs root names ↔
    (∃ name ∈ names, normalised name = id) ∧ f.selects fs root id = true := by
  rw [mem_select, selects, Bool.and_eq_true]
  exact and_iff_right rfl

theorem exists_scan (directory : fs.isDirectory root = true) : ∃ files, f.scan? fs root = some files :=
  ⟨_, if_pos directory⟩

theorem Lists.eq_below {file : SourceFile} (named : fs.WellNamed) (start : root.text ≠ "")
    (listed : f.Lists fs root files) (member : file ∈ files) : file = .below root file.moduleId := by
  cases listed with
  | scanned found =>
    obtain ⟨names, -, rfl⟩ := exists_names_of_scan named start found member
    rfl
  | selected names => exact (mem_select.mp member).1

end SourceFilter

theorem Extraction.isRead_iff_exists {extractor : Extractor} {file : SourceFile} {fs : FileSystem} :
    isRead fs extractor file = true ↔ ∃ imports, extractor fs file.path = .ok imports := by
  unfold isRead
  cases extractor fs file.path <;> simp [Except.isOk, Except.toBool]

/-- The modules that a module imports, none if it is not known. -/
def DependencySnapshot.importsOf (s : DependencySnapshot) (id : String) : List String :=
  (s.dependencies.get? id).getD []

namespace Project
variable {p : Project} {f : SourceFilter} {fs : FileSystem} {top : Path} {files : List SourceFile} {id : String}

/-! ## Line counts -/

theorem selects_of_scans {m : LineMetrics} {root : Path} (scanned : f.scans fs root id = true)
    (counted : LineMetrics.ofFile fs (root.join ⟨id⟩) = .ok m) : f.selects fs root id = true := by
  obtain ⟨bytes, read, -⟩ := ofFile_eq_ok_iff.mp counted
  rw [SourceFilter.selects, SourceFilter.accepts_of_scans scanned, FileSystem.isFile_iff.mpr ⟨bytes, read⟩]
  rfl

/-- What a full analysis finds at an id. -/
theorem get?_fullMetrics (named : fs.WellNamed) (compiled : p.sourceFilter = .ok f)
    (directory : fs.isDirectory p.root = true) :
    ∃ full, p.fullMetrics fs = .ok full ∧ ∀ id, full.files.get? id =
      if f.scans fs p.root id then (LineMetrics.ofFile fs (p.root.join ⟨id⟩)).toOption else none := by
  obtain ⟨loc, stands⟩ := FileSystem.exists_stat_of_isDirectory directory
  have start : p.root.text ≠ "" := (FileSystem.leads_of_stat stands).2.1
  obtain ⟨files, found⟩ := SourceFilter.exists_scan (f := f) directory
  refine ⟨MetricsSnapshot.empty.merge (collectMetrics fs files), ?_, fun id => Option.ext fun m => ?_⟩
  · simp only [fullMetrics, compiled, found, bind, Except.bind]
  · rw [get?_merge, MetricsSnapshot.empty, OrderedMap.get?_empty, Option.or_none,
      get?_collectMetrics (SourceFilter.ascending_scan named found), Option.ite_none_right_eq_some,
      SourceFilter.scans_iff named start found, toOption_eq_some_iff]
    constructor
    · rintro ⟨file, member, rfl, counted⟩
      obtain ⟨names, -, rfl⟩ := SourceFilter.exists_names_of_scan named start found member
      exact ⟨member, counted⟩
    · rintro ⟨member, counted⟩
      exact ⟨_, member, rfl, counted⟩

/-- Of the files that changed an update counts those that it selects. The others keep what the snapshot had if they
    are not reported as deleted. So an update finds what a full analysis finds just if what it counts is
    scanned as well and nothing is kept. -/
theorem updateMetrics_changed (named : fs.WellNamed) (compiled : p.sourceFilter = .ok f)
    (directory : fs.isDirectory p.root = true) (s : MetricsSnapshot) (c : ChangeSet) :
    ∃ updated full, p.updateMetrics fs s c = .ok updated ∧ p.fullMetrics fs = .ok full ∧
      ∀ name ∈ c.changedFiles, ∀ id, normalised name = id →
        let counts := (LineMetrics.ofFile fs (p.root.join ⟨id⟩)).toOption
        let deleted := ∃ path ∈ c.deleted, normalised path = id
        (full.files.get? id = if f.scans fs p.root id then counts else none) ∧
        (updated.files.get? id =
          if f.selects fs p.root id then counts else if deleted then none else s.files.get? id) ∧
        (updated.files.get? id = full.files.get? id ↔
          (f.selects fs p.root id = true → f.scans fs p.root id = true ∨ counts = none) ∧
          (f.selects fs p.root id = false → deleted ∨ s.files.get? id = none)) := by
  obtain ⟨full, whole, found⟩ := get?_fullMetrics named compiled directory
  obtain ⟨updated, done, left⟩ := get?_updateMetrics fs s c compiled
  refine ⟨updated, full, done, whole, fun name changed id same => ?_⟩
  have listed : ∃ name ∈ c.changedFiles, normalised name = id := ⟨name, changed, same⟩
  have here := left id
  simp only [and_iff_right listed, ← Bool.and_eq_true] at here
  rw [← SourceFilter.selects] at here
  refine ⟨found id, here, ?_⟩
  rw [found, here]
  cases selected : f.selects fs p.root id with
  | true => by_cases scanned : f.scans fs p.root id = true <;> simp [scanned]
  | false =>
    have missing : (if f.scans fs p.root id then (LineMetrics.ofFile fs (p.root.join ⟨id⟩)).toOption else none) =
        none := by
      refine ite_eq_right_iff.mpr fun scanned => Option.eq_none_iff_forall_ne_some.mpr fun m counted => ?_
      have known := selects_of_scans scanned (toOption_eq_some_iff.mp counted)
      rw [selected] at known
      cases known
    rw [missing]
    by_cases deleted : ∃ path ∈ c.deleted, normalised path = id <;> simp [deleted]

/-- A project in which all files with the source extension are source files. -/
private def openProject : Project := ⟨⟨"/p"⟩, Pipeline.openSettings, Python.lineExtractor, .ready⟩

private theorem sourceFilter_openProject : openProject.sourceFilter = .ok ⟨none, [], "py"⟩ := rfl

/-- A change of one file. -/
private def modified (name : String) : ChangeSet := ⟨.empty, .ofList [name], .empty⟩

private theorem mem_modified (name : String) : name ∈ (modified name).changedFiles := List.mem_singleton.mpr rfl

private theorem not_deleted_modified (name id : String) : ¬∃ path ∈ (modified name).deleted, normalised path = id := by
  rintro ⟨path, deleted, -⟩
  cases deleted

/-- A file that is no text and an empty one. -/
def garbled : OrderedMap String (List UInt8) := .ofList [("a.py", [0xff]), ("b.py", [])]

private theorem proper_garbled : ∀ name ∈ garbled.keys, IsName name ∧ name.utf8ByteSize ≤ FileSystem.nameLimit := by
  decide

private theorem wellNamed_garbled : (FileSystem.flat garbled).WellNamed :=
  (FileSystem.isLinkFree_flat proper_garbled).wellNamed

private theorem tree_garbled : (FileSystem.flat garbled).IsTree ⟨"/p"⟩ ["p"] := FileSystem.isTree_flat proper_garbled

private theorem read_garbled : (FileSystem.flat garbled).read (Path.join ⟨"/p"⟩ ⟨"a.py"⟩) = .ok [0xff] :=
  FileSystem.read_flat "a.py" proper_garbled rfl (by decide)

/-- The counts of two files, one of them with a line of code. -/
private def counted : MetricsSnapshot where
  files := .ofList [("a.py", { LineMetrics.zero with lines := 1, codeLines := 1 }), ("b.py", .zero)]
  totalFiles := 2
  totalLines := 1
  averageLines := .average 1 2
  lastUpdated := none

theorem updateMetrics_changed_garbled :
    (FileSystem.flat garbled).WellNamed ∧ (FileSystem.flat garbled).isDirectory openProject.root = true ∧
    ∃ f, openProject.sourceFilter = .ok f ∧ f.selects (.flat garbled) openProject.root "a.py" = true ∧
      ∃ updated full, openProject.updateMetrics (.flat garbled) counted (modified "a.py") = .ok updated ∧
        openProject.fullMetrics (.flat garbled) = .ok full ∧ updated.files.get? "a.py" = none ∧
        updated.files.get? "a.py" = full.files.get? "a.py" := by
  have directory : (FileSystem.flat garbled).isDirectory openProject.root = true := by
    simp only [FileSystem.isDirectory, openProject, tree_garbled.stat_root]
  have selected : SourceFilter.selects ⟨none, [], "py"⟩ (.flat garbled) openProject.root "a.py" = true := by
    have present : (FileSystem.flat garbled).isFile (openProject.root.join ⟨"a.py"⟩) = true :=
      FileSystem.isFile_iff.mpr ⟨_, read_garbled⟩
    rw [SourceFilter.selects, present]
    decide
  have uncounted : (LineMetrics.ofFile (.flat garbled) (openProject.root.join ⟨"a.py"⟩)).toOption = none := by
    refine Option.eq_none_iff_forall_ne_some.mpr fun m counted => ?_
    obtain ⟨bytes, read, text⟩ := ofFile_eq_ok_iff.mp (toOption_eq_some_iff.mp counted)
    cases read_garbled.symm.trans read
    cases text
  obtain ⟨updated, full, done, whole, law⟩ :=
    updateMetrics_changed wellNamed_garbled sourceFilter_openProject directory counted (modified "a.py")
  obtain ⟨-, here, agree⟩ := law "a.py" (mem_modified _) "a.py" (by decide)
  refine ⟨wellNamed_garbled, directory, _, sourceFilter_openProject, selected, updated, full, done, whole, ?_,
    agree.mpr ?_⟩
  · rw [here, if_pos selected, uncounted]
  · exact ⟨fun _ => .inr uncounted, fun off => by rw [selected] at off; cases off⟩

/-- The tree without the first of the two files. -/
private def remaining : OrderedMap String (List UInt8) := .ofList [("b.py", [])]

/-- A file that is gone keeps its counts if it is reported as modified. -/
theorem updateMetrics_stale :
    ∃ updated full, openProject.updateMetrics (.flat remaining) counted (modified "a.py") = .ok updated ∧
      openProject.fullMetrics (.flat remaining) = .ok full ∧
      (FileSystem.flat remaining).isFile ⟨"/p/a.py"⟩ = false ∧
      updated.files.get? "a.py" = counted.files.get? "a.py" ∧ updated.files.contains "a.py" = true ∧
      full.files.contains "a.py" = false := by
  have proper : ∀ name ∈ remaining.keys, IsName name ∧ name.utf8ByteSize ≤ FileSystem.nameLimit := by decide
  have tree : (FileSystem.flat remaining).IsTree openProject.root ["p"] := FileSystem.isTree_flat proper
  have names : AreNames ["a.py"] := ⟨by decide, by decide⟩
  have content : (FileSystem.flat remaining).contentBelow ["p"] ["a.py"] = none := by
    rw [FileSystem.contentBelow_flat]
    rfl
  have gone : (FileSystem.flat remaining).isFile ⟨"/p/a.py"⟩ = false := by
    refine Bool.eq_false_iff.mpr fun present => ?_
    have there := ((tree.isFile_join_iff names).mp present).2
    rw [content] at there
    cases there
  obtain ⟨updated, done, left⟩ := get?_updateMetrics (.flat remaining) counted (modified "a.py") sourceFilter_openProject
  obtain ⟨full, whole, counts⟩ := fullMetrics_counts sourceFilter_openProject tree
  have kept : updated.files.get? "a.py" = counted.files.get? "a.py" := by
    rw [left, if_neg, if_neg (not_deleted_modified _ _)]
    rintro ⟨-, -, present⟩
    exact absurd (gone.symm.trans present) Bool.false_ne_true
  refine ⟨updated, full, done, whole, gone, kept, ?_, ?_⟩
  · rw [OrderedMap.contains, kept]
    decide
  · rw [OrderedMap.contains_eq_false_iff]
    have nothing := counts.at_names ["a.py"] names
    rwa [content, SourceFilter.countsAt, Option.bind_none, ite_self] at nothing

/-! ## Imports -/

/-- The modules that a module with an id imports, as a run over all files finds them. -/
def importsAt (p : Project) (fs : FileSystem) (top : Path) (id : String) : List String :=
  (Extraction.outcome fs p.settings p.extractor top (.below top id)).targets

/-- What the graph of files of a project holds at an id. -/
theorem imports_run (p : Project) {root : Path} (named : fs.WellNamed)
    (found : Extraction.canonicalRoot fs root = .ok top) (listed : f.Lists fs top files) (id : String) :
    let g := Graph.ofOutcomes (Extraction.run fs p.settings p.extractor top files)
    let read := .below top id ∈ files ∧ Extraction.isRead fs p.extractor (.below top id) = true
    (id ∈ g.scannedModules ↔ read) ∧ (read → g.dependencies id = p.importsAt fs top id) ∧
      (¬read → g.dependencies id = []) := by
  intro g read
  have start : top.text ≠ "" := ne_empty_of_isAbsolute (Extraction.isAbsolute_canonicalRoot found)
  have run := Extraction.run_filter p.extractor p.settings named found listed fun _ => true
  rw [List.filter_eq_self.mpr fun _ _ => rfl] at run
  have nodup : ((files.map (Extraction.outcome fs p.settings p.extractor top)).map (·.moduleId)).Nodup := by
    rw [Extraction.moduleIds_outcomes]
    exact (listed.ascending named).nodup
  have scanned : (∃ file ∈ files, file.moduleId = id ∧
      (Extraction.outcome fs p.settings p.extractor top file).info.isSome) ↔ read := by
    constructor
    · rintro ⟨file, member, rfl, known⟩
      rw [Extraction.info_outcome, listed.eq_below named start member] at known
      exact ⟨listed.eq_below named start member ▸ member, known⟩
    · rintro ⟨member, known⟩
      exact ⟨_, member, rfl, by rwa [Extraction.info_outcome]⟩
  simp only [g, run]
  refine ⟨Extraction.mem_scannedModules_outcomes.trans scanned, fun known => ?_, fun unknown => ?_⟩
  · have own := Graph.dependencies_ofOutcomes nodup (List.mem_map_of_mem known.1)
    rwa [Extraction.moduleId_outcome] at own
  · refine Graph.dependencies_ofOutcomes_of_unscanned nodup (Extraction.isComplete_of_mem_outcomes files) ?_
    rintro ⟨o, member, same, known⟩
    obtain ⟨file, inside, rfl⟩ := List.mem_map.mp member
    rw [Extraction.moduleId_outcome] at same
    exact unknown (scanned.mp ⟨file, inside, same, known⟩)

/-- What a full analysis finds at an id, if its workers start. -/
theorem importsOf_fullDependencies (named : fs.WellNamed) (found : Extraction.canonicalRoot fs p.root = .ok top)
    (compiled : p.sourceFilter = .ok f) :
    ∃ full, p.fullDependencies fs = p.workers.perform p.settings.threads full ∧ ∀ id, full.importsOf id =
      if f.scans fs top id && Extraction.isRead fs p.extractor (.below top id) then p.importsAt fs top id else [] := by
  have start : top.text ≠ "" := ne_empty_of_isAbsolute (Extraction.isAbsolute_canonicalRoot found)
  obtain ⟨loc, -, -, directory⟩ := Extraction.exists_location_of_canonicalRoot named found
  obtain ⟨files, scanned⟩ := SourceFilter.exists_scan (f := f) directory
  let g := Graph.ofOutcomes (Extraction.run fs p.settings p.extractor top files)
  refine ⟨.ofGraph g, ?_, fun id => ?_⟩
  · rw [fullDependencies, extract_fst (Extraction.whole_of_scan found (ofPatterns_of_sourceFilter compiled) scanned),
      Workers.map_perform]
  · obtain ⟨known, own, other⟩ := p.imports_run named found (.scanned scanned) id
    have listed : (DependencySnapshot.ofGraph g).importsOf id = g.dependencies id := by
      rw [DependencySnapshot.importsOf, DependencySnapshot.get?_ofGraph]
      split
      · rfl
      · rename_i missing
        refine (other fun read => missing ?_).symm
        exact (List.filter_sublist.map _).subset (known.mpr read)
    simp only [← SourceFilter.scans_iff named start scanned, ← Bool.and_eq_true] at own other
    rw [listed]
    split
    · rename_i read
      exact own read
    · rename_i unread
      exact other unread

/-- What an update leaves at an id: the imports that were read again, or none if the file was deleted, or
    the old ones. Workers have to start only if there is something to read. -/
theorem importsOf_updateDependencies (named : fs.WellNamed) (found : Extraction.canonicalRoot fs p.root = .ok top)
    (compiled : p.sourceFilter = .ok f) (s : DependencySnapshot) (c : ChangeSet) :
    ∃ updated, p.updateDependencies fs s c =
        (if c.changedFiles.isEmpty then .ok updated else p.workers.perform p.settings.threads updated) ∧
      ∀ id, updated.importsOf id =
      if (∃ name ∈ c.changedFiles, normalised name = id) ∧
          (f.selects fs top id && Extraction.isRead fs p.extractor (.below top id)) = true then p.importsAt fs top id
      else if ∃ path ∈ c.deleted, normalised path = id then []
      else s.importsOf id := by
  have removed (id : String) : (removeModules s c.deleted).importsOf id =
      if ∃ path ∈ c.deleted, normalised path = id then [] else s.importsOf id := by
    rw [DependencySnapshot.importsOf, get?_removeModules]
    split <;> rfl
  unfold updateDependencies
  by_cases none : c.changedFiles.isEmpty = true
  · refine ⟨_, by rw [if_pos none, if_pos none], fun id => ?_⟩
    rw [removed, if_neg (c := _ ∧ _)]
    rintro ⟨⟨name, changed, -⟩, -⟩
    exact SortedSet.isEmpty_iff.mp none name changed
  · let files := f.select fs top c.changedFiles.toList
    let part := Graph.ofOutcomes (Extraction.run fs p.settings p.extractor top files)
    refine ⟨(removeModules s c.deleted).merge part, ?_, fun id => ?_⟩
    · rw [if_neg none, if_neg none,
        extractFiles_fst (Extraction.part_of_select found (ofPatterns_of_sourceFilter compiled) _), Workers.map_perform]
    · obtain ⟨known, own, -⟩ := p.imports_run named found (.selected (f := f) c.changedFiles.toList) id
      simp only [SourceFilter.below_mem_select, SortedSet.mem_toList, and_assoc, ← Bool.and_eq_true] at known own
      rw [DependencySnapshot.importsOf, DependencySnapshot.get?_merge]
      split
      · rename_i scanned
        rw [if_pos (known.mp scanned)]
        exact own (known.mp scanned)
      · rename_i unscanned
        rw [if_neg fun again => unscanned (known.mpr again), ← removed, DependencySnapshot.importsOf]
        cases (removeModules s c.deleted).dependencies.get? id with
        | some deps => rfl
        | none => split <;> rfl

/-- Of the files that changed an update replaces the imports of those that it selects and can read. The others keep
    what the snapshot had if they are not reported as deleted. So an update finds what a full analysis finds just
    if what it reads is scanned as well and nothing is kept. Both fail if their workers do not start. -/
theorem updateDependencies_changed (named : fs.WellNamed) (found : Extraction.canonicalRoot fs p.root = .ok top)
    (compiled : p.sourceFilter = .ok f) (reads : ∀ path imports, p.extractor fs path = .ok imports → fs.isFile path = true)
    (s : DependencySnapshot) (c : ChangeSet) :
    ∃ updated full,
      p.updateDependencies fs s c =
        (if c.changedFiles.isEmpty then .ok updated else p.workers.perform p.settings.threads updated) ∧
      p.fullDependencies fs = p.workers.perform p.settings.threads full ∧
      ∀ name ∈ c.changedFiles, ∀ id, normalised name = id →
        let read := Extraction.isRead fs p.extractor (.below top id)
        let imports := (Extraction.outcome fs p.settings p.extractor top (.below top id)).targets
        let deleted := ∃ path ∈ c.deleted, normalised path = id
        (full.importsOf id = if f.scans fs top id && read then imports else []) ∧
        (updated.importsOf id =
          if f.selects fs top id && read then imports else if deleted then [] else s.importsOf id) ∧
        (updated.importsOf id = full.importsOf id ↔
          ((f.selects fs top id && read) = true → f.scans fs top id = true ∨ imports = []) ∧
          ((f.selects fs top id && read) = false → deleted ∨ s.importsOf id = [])) := by
  obtain ⟨full, whole, all⟩ := importsOf_fullDependencies named found compiled
  obtain ⟨updated, done, left⟩ := importsOf_updateDependencies named found compiled s c
  refine ⟨updated, full, done, whole, fun name changed id same => ?_⟩
  have listed : ∃ name ∈ c.changedFiles, normalised name = id := ⟨name, changed, same⟩
  have here := left id
  simp only [and_iff_right listed] at here
  refine ⟨all id, here, ?_⟩
  rw [all, here]
  cases again : f.selects fs top id && Extraction.isRead fs p.extractor (.below top id) with
  | true =>
    obtain ⟨-, read⟩ := Bool.and_eq_true_iff.mp again
    by_cases scanned : f.scans fs top id = true <;> simp [scanned, read, importsAt]
  | false =>
    have missing : (f.scans fs top id && Extraction.isRead fs p.extractor (.below top id)) = false := by
      refine Bool.eq_false_iff.mpr fun both => ?_
      obtain ⟨scanned, read⟩ := Bool.and_eq_true_iff.mp both
      obtain ⟨imports, extracted⟩ := Extraction.isRead_iff_exists.mp read
      have isFile : fs.isFile (top.join ⟨id⟩) = true := reads _ imports extracted
      rw [SourceFilter.selects, SourceFilter.accepts_of_scans scanned, isFile, read] at again
      cases again
    rw [missing]
    by_cases deleted : ∃ path ∈ c.deleted, normalised path = id <;> simp [deleted]

theorem isFile_of_extractor {grammar : Grammar} {path : Path} {imports : List Import}
    (read : Python.extractor (.ok grammar) fs path = .ok imports) : fs.isFile path = true := by
  unfold Python.extractor sourceText FileSystem.readText at read
  cases bytes : fs.read path with
  | ok bytes' => exact FileSystem.isFile_iff.mpr ⟨bytes', bytes⟩
  | error e =>
    rw [bytes] at read
    cases read

/-- A module that imports another one, and one that was imported and is empty now. -/
private def imported : DependencySnapshot where
  dependencies := .ofList [("a.py", ["b.py"]), ("b.py", ["a.py"])]
  moduleCount := 2
  totalDependencies := 2
  lastUpdated := none

private theorem canonicalRoot_garbled : Extraction.canonicalRoot (.flat garbled) openProject.root = .ok ⟨"/p"⟩ :=
  Extraction.canonicalRoot_of_tree ["p"] tree_garbled

theorem updateDependencies_changed_garbled :
    (FileSystem.flat garbled).WellNamed ∧
    Extraction.canonicalRoot (.flat garbled) openProject.root = .ok ⟨"/p"⟩ ∧
    (∀ path imports, openProject.extractor (.flat garbled) path = .ok imports →
      (FileSystem.flat garbled).isFile path = true) ∧
    ∃ f, openProject.sourceFilter = .ok f ∧
      ∃ updated full, openProject.updateDependencies (.flat garbled) imported (modified "b.py") = .ok updated ∧
        openProject.fullDependencies (.flat garbled) = .ok full ∧
        imported.importsOf "b.py" = ["a.py"] ∧ updated.importsOf "b.py" = [] ∧
        updated.importsOf "b.py" = full.importsOf "b.py" := by
  have reads : ∀ path imports, openProject.extractor (.flat garbled) path = .ok imports →
      (FileSystem.flat garbled).isFile path = true := by
    intro path imports (read : Python.lineExtractor _ _ = _)
    exact isFile_of_extractor read
  have text : (FileSystem.flat garbled).readText ⟨"/p/b.py"⟩ = .ok "" :=
    FileSystem.readText_of_read (FileSystem.read_flat "b.py" proper_garbled rfl (by decide))
  have extracted : openProject.extractor (.flat garbled) ⟨"/p/b.py"⟩ = .ok [] := Python.lineExtractor_of_read text
  have nothing : (Extraction.outcome (.flat garbled) openProject.settings openProject.extractor ⟨"/p"⟩
      (.below ⟨"/p"⟩ "b.py")).targets = [] := by
    rw [Extraction.outcome, Extraction.inquiry, show (SourceFile.below ⟨"/p"⟩ "b.py").path = ⟨"/p/b.py"⟩ from rfl,
      extracted]
    rfl
  have again : (SourceFilter.selects ⟨none, [], "py"⟩ (.flat garbled) ⟨"/p"⟩ "b.py" &&
      Extraction.isRead (.flat garbled) openProject.extractor (.below ⟨"/p"⟩ "b.py")) = true := by
    have present : (FileSystem.flat garbled).isFile (Path.join ⟨"/p"⟩ ⟨"b.py"⟩) = true := reads _ _ extracted
    rw [SourceFilter.selects, present, Extraction.isRead_iff_exists.mpr ⟨[], extracted⟩]
    decide
  obtain ⟨updated, full, done, whole, law⟩ := updateDependencies_changed wellNamed_garbled canonicalRoot_garbled
    sourceFilter_openProject reads imported (modified "b.py")
  obtain ⟨-, here, agree⟩ := law "b.py" (mem_modified _) "b.py" (by decide)
  refine ⟨wellNamed_garbled, canonicalRoot_garbled, reads, _, sourceFilter_openProject, updated, full, done, whole,
    by decide, ?_, agree.mpr ?_⟩
  · rw [here, if_pos again, nothing]
  · exact ⟨fun _ => .inr nothing, fun off => by rw [again] at off; cases off⟩

/-- A file that cannot be read any more keeps its imports. -/
theorem updateDependencies_stale :
    ∃ updated full, openProject.updateDependencies (.flat garbled) imported (modified "a.py") = .ok updated ∧
      openProject.fullDependencies (.flat garbled) = .ok full ∧
      updated.importsOf "a.py" = ["b.py"] ∧ full.importsOf "a.py" = [] := by
  have unread : Extraction.isRead (.flat garbled) openProject.extractor (.below ⟨"/p"⟩ "a.py") = false :=
    Extraction.isRead_eq_false_iff.mpr ⟨_, Python.lineExtractor_of_not_text read_garbled (by decide)⟩
  obtain ⟨updated, done, left⟩ := importsOf_updateDependencies wellNamed_garbled canonicalRoot_garbled
    sourceFilter_openProject imported (modified "a.py")
  obtain ⟨full, whole, all⟩ := importsOf_fullDependencies wellNamed_garbled canonicalRoot_garbled
    sourceFilter_openProject
  refine ⟨updated, full, done, whole, ?_, ?_⟩
  · rw [left, if_neg, if_neg (not_deleted_modified _ _)]
    · decide
    · rw [unread, Bool.and_false]
      simp
  · rw [all, unread, Bool.and_false]
    rfl

end Project
end ModuleGraph
