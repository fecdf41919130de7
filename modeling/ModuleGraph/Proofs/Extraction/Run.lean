import ModuleGraph.Proofs.Extraction.Outcome
import ModuleGraph.Proofs.Graph.Outcomes
import ModuleGraph.Proofs.Resolution
import ModuleGraph.Proofs.Change

/-!
Extraction file by file. The memory that the files share makes no difference (`run_eq_map`), so the graph
of a project, or of some of its files, is determined by what each file contributes on its own
(`Graph.Extracted`, `whole_extracted`, `part_extracted`).
-/
namespace ModuleGraph
open ModuleGraph.Path Text

namespace Extraction
variable {fs : FileSystem} {settings : ExtractionSettings} {extractor : Extractor} {top : Path}
  {files : List SourceFile} {search : SearchPath} {memo : Memo} {base : Location} {f : SourceFilter}
  {names : List String}

/-- Where the imports of a project are searched. -/
def searchPath (fs : FileSystem) (settings : ExtractionSettings) (top : Path) : SearchPath :=
  SearchPath.ofRoots top (extraRoots fs top settings.searchRoots) settings.sourceExtension

/-- How an import of a project is resolved. -/
def answer (fs : FileSystem) (settings : ExtractionSettings) (top : Path) (q : Query) :
    Except ResolutionError Resolution := Resolution.resolve fs (searchPath fs settings top) q

/-- The work that a file of a project gives. -/
def inquiry (fs : FileSystem) (extractor : Extractor) (top : Path) (file : SourceFile) : Inquiry Outcome :=
  Outcome.ofImports top file (extractor fs file.path)

/-- What a file of a project contributes. -/
def outcome (fs : FileSystem) (settings : ExtractionSettings) (extractor : Extractor) (top : Path)
    (file : SourceFile) : Outcome := (inquiry fs extractor top file).run (answer fs settings top)

@[simp] theorem moduleId_outcome (file : SourceFile) :
    (outcome fs settings extractor top file).moduleId = file.moduleId := Outcome.moduleId_ofImports

theorem outcomes_eq_map {paths : List Path} (sound : memo.Sound fs search paths)
    (differ : ∀ p ∈ paths, ∀ p' ∈ paths, p.components = p'.components → p = p')
    (listed : ∀ file ∈ files, file.path ∈ paths) :
    outcomes fs extractor search top memo files =
      files.map fun file => (inquiry fs extractor top file).run (Resolution.resolve fs search) := by
  induction files generalizing memo with
  | nil => rfl
  | cons file rest ih =>
    have about : ∀ q ∈ (inquiry fs extractor top file).queries (Resolution.resolve fs search),
        ∃ path ∈ paths, q.source = some path := fun q asked =>
      ⟨file.path, listed file (by simp), Outcome.source_of_mem_queries asked⟩
    obtain ⟨same, kept⟩ := Inquiry.runWith_eq_run _ sound differ about
    exact congrArg₂ List.cons same (ih kept fun other member => listed other (by simp [member]))

/-- Files below a root by names are extracted one by one. -/
theorem run_eq_map (named : top.text ≠ "")
    (below : ∀ file ∈ files, ∃ names, AreNames names ∧ file = .below top (ofNames names)) :
    run fs settings extractor top files = files.map (outcome fs settings extractor top) := by
  have listed : ∀ file ∈ files, file.path ∈ files.map (·.path) :=
    fun file member => List.mem_map.mpr ⟨file, member, rfl⟩
  refine outcomes_eq_map Memo.sound_nil ?_ listed
  intro p listed p' listed' same
  obtain ⟨file, member, rfl⟩ := List.mem_map.mp listed
  obtain ⟨file', member', rfl⟩ := List.mem_map.mp listed'
  obtain ⟨names, ok, rfl⟩ := below file member
  obtain ⟨names', ok', rfl⟩ := below file' member'
  simp only [SourceFile.below, components_join_ofNames named ok, components_join_ofNames named ok',
    List.append_cancel_left_eq] at same ⊢
  rw [(List.map_inj_right fun _ _ equal => Component.name.inj equal).mp same]

theorem isComplete_outcome (file : SourceFile) : (outcome fs settings extractor top file).IsComplete := by
  unfold outcome inquiry
  cases extractor fs file.path with
  | error e =>
    rw [Outcome.ofImports_error]
    exact ⟨fun info known => absurd known (Option.some_ne_none info).symm, fun _ => rfl⟩
  | ok imports =>
    rw [Outcome.run_ofImports]
    exact ⟨fun info known => Option.some.inj known ▸ rfl, fun unread => absurd unread (Option.some_ne_none _)⟩

theorem isSome_info_outcome {file : SourceFile} : (outcome fs settings extractor top file).info.isSome ↔
    ∃ imports, extractor fs file.path = .ok imports := by
  unfold outcome inquiry
  cases extractor fs file.path with
  | error e => simp [Outcome.start, Outcome.fail]
  | ok imports => simp [Outcome.run_ofImports]

theorem moduleIds_outcomes (files : List SourceFile) :
    (files.map (outcome fs settings extractor top)).map (·.moduleId) = files.map (·.moduleId) := by
  simp [List.map_map, Function.comp_def]

theorem isComplete_of_mem_outcomes (files : List SourceFile) :
    ∀ o ∈ files.map (outcome fs settings extractor top), o.IsComplete := by
  intro o listed
  obtain ⟨file, _, rfl⟩ := List.mem_map.mp listed
  exact isComplete_outcome file

/-- The scanned modules of a project are those of the files whose imports were read. -/
theorem mem_scannedModules_outcomes {id : String} :
    id ∈ (Graph.ofOutcomes (files.map (outcome fs settings extractor top))).scannedModules ↔
      ∃ file ∈ files, file.moduleId = id ∧ (outcome fs settings extractor top file).info.isSome := by
  rw [Graph.mem_scannedModules_ofOutcomes (isComplete_of_mem_outcomes files)]
  simp

/-- What files of a project import within the project's tree is there. -/
theorem contentBelow_of_mem_targets {names' : List String} (tree : fs.IsTree top base)
    (absolute : top.isAbsolute = true) (ok : AreNames names) (ok' : AreNames names')
    (target : ofNames names' ∈
      (outcome fs settings extractor top (.below top (ofNames names))).targets) :
    (fs.contentBelow base names').isSome := by
  obtain ⟨edge, listed, same⟩ := Outcome.mem_targets_iff.mp target
  obtain ⟨q, path, about, found, id⟩ := Outcome.edges_ofImports listed
  obtain ⟨pathAbsolute, isFile⟩ := Resolution.isFile_of_resolved (isAbsolute_of_mem_roots absolute _ _)
    about (Resolution.isAbsolute_relativeBase absolute ok) found
  exact tree.contentBelow_of_moduleId absolute pathAbsolute isFile ok' (id.symm.trans same)

end Extraction

/-! ## Graphs -/

/-- A graph is that of some files of a project, given by their names, and of what each of them
    contributes. -/
structure Graph.Extracted (g : Graph) (files : List String → Prop) (outcome : List String → Outcome) :
    Prop where
  mem_scannedModules_iff : ∀ id, id ∈ g.scannedModules ↔
    ∃ names, files names ∧ id = ofNames names ∧ (outcome names).info.isSome
  mem_nodeIds_iff : ∀ id, id ∈ g.nodeIds ↔
    id ∈ g.scannedModules ∨ ∃ names, files names ∧ id ∈ (outcome names).targets
  dependencies_eq : ∀ names, files names → g.dependencies (ofNames names) = (outcome names).targets
  dependencies_eq_nil : ∀ id, id ∉ g.scannedModules → g.dependencies id = []

namespace Extraction
variable {fs : FileSystem} {settings : ExtractionSettings} {extractor : Extractor} {top root : Path}
  {files : List SourceFile} {base : Location} {f : SourceFilter}

/-- Distinct files give the graph of what each of them contributes. -/
theorem extracted_of_files {among : List String → Prop} (ascending : SourceFilter.Ascending files)
    (member : ∀ file, file ∈ files ↔ ∃ names, among names ∧ file = .below top (ofNames names)) :
    (Graph.ofOutcomes (files.map (outcome fs settings extractor top))).Extracted among
      fun names => outcome fs settings extractor top (.below top (ofNames names)) := by
  have complete : ∀ o ∈ files.map (outcome fs settings extractor top), o.IsComplete :=
    isComplete_of_mem_outcomes files
  have nodup : ((files.map (outcome fs settings extractor top)).map (·.moduleId)).Nodup := by
    rw [moduleIds_outcomes]
    exact ascending.nodup
  have exists_iff {P : Outcome → Prop} : (∃ o ∈ files.map (outcome fs settings extractor top), P o) ↔
      ∃ names, among names ∧ P (outcome fs settings extractor top (.below top (ofNames names))) := by
    constructor
    · rintro ⟨o, listed, holds⟩
      obtain ⟨file, known, rfl⟩ := List.mem_map.mp listed
      obtain ⟨names, inside, rfl⟩ := (member file).mp known
      exact ⟨names, inside, holds⟩
    · rintro ⟨names, inside, holds⟩
      exact ⟨_, List.mem_map.mpr ⟨_, (member _).mpr ⟨names, inside, rfl⟩, rfl⟩, holds⟩
  have scanned (id : String) : id ∈ Graph.scannedModules (.ofOutcomes _) ↔
      ∃ o ∈ files.map (outcome fs settings extractor top), o.moduleId = id ∧ o.info.isSome :=
    Graph.mem_scannedModules_ofOutcomes complete
  refine ⟨fun id => ?_, fun id => ?_, fun names inside => ?_, fun id unscanned => ?_⟩
  · rw [scanned, exists_iff]
    simp only [moduleId_outcome, SourceFile.below, eq_comm]
  · rw [Graph.mem_nodeIds_ofOutcomes complete, exists_iff (P := fun o => id ∈ o.targets), scanned]
  · have known := (member (.below top (ofNames names))).mpr ⟨names, inside, rfl⟩
    have imported := Graph.dependencies_ofOutcomes nodup (List.mem_map_of_mem known)
    rw [moduleId_outcome] at imported
    exact imported
  · exact Graph.dependencies_ofOutcomes_of_unscanned nodup complete (mt (scanned id).mpr unscanned)

theorem whole_of_scan {included excluded : List String} (found : canonicalRoot fs root = .ok top)
    (compiled : SourceFilter.ofPatterns included excluded settings.sourceExtension = .ok f)
    (scanned : f.scan? fs top = some files) :
    whole fs settings extractor root included excluded = .ok (run fs settings extractor top files) := by
  simp only [whole, found, compiled, scanned, bind, Except.bind]

theorem part_of_select (found : canonicalRoot fs root = .ok top)
    (compiled : SourceFilter.ofPatterns settings.included settings.excluded settings.sourceExtension = .ok f)
    (names : List String) :
    part fs settings extractor root names = .ok (run fs settings extractor top (f.select fs top names)) := by
  simp only [part, found, compiled, bind, Except.bind]

/-- The source files of a project are extracted one by one. -/
theorem whole_eq_map (extractor : Extractor) {included excluded : List String}
    (found : canonicalRoot fs root = .ok top)
    (compiled : SourceFilter.ofPatterns included excluded settings.sourceExtension = .ok f)
    (tree : fs.IsTree top base) :
    ∃ files, f.scan? fs top = some files ∧ SourceFilter.Ascending files ∧
      (∀ file, file ∈ files ↔ ∃ names, fs.IsWalked top base names ∧
        file = .below top (ofNames names) ∧ f.accepts (ofNames names) = true) ∧
      whole fs settings extractor root included excluded =
        .ok (files.map (outcome fs settings extractor top)) := by
  obtain ⟨files, scanned, ascending, member⟩ := SourceFilter.scan_tree f tree
  have below : ∀ file ∈ files, ∃ names, AreNames names ∧ file = .below top (ofNames names) :=
    fun file listed => by
      obtain ⟨names, walked, shape, _⟩ := (member file).mp listed
      exact ⟨names, tree.areNames_of_isSome walked.present, shape⟩
  refine ⟨files, scanned, ascending, member, ?_⟩
  rw [whole_of_scan found compiled scanned, run_eq_map tree.named below]

/-- The whole of a project is extracted. -/
theorem whole_extracted (extractor : Extractor) {included excluded : List String}
    (found : canonicalRoot fs root = .ok top)
    (compiled : SourceFilter.ofPatterns included excluded settings.sourceExtension = .ok f)
    (tree : fs.IsTree top base) :
    ∃ outcomes, whole fs settings extractor root included excluded = .ok outcomes ∧
      (Graph.ofOutcomes outcomes).Extracted
        (fun names => f.accepts (ofNames names) = true ∧ fs.IsWalked top base names)
        fun names => outcome fs settings extractor top (.below top (ofNames names)) := by
  obtain ⟨files, -, ascending, member, extracted⟩ := whole_eq_map extractor found compiled tree
  refine ⟨_, extracted, extracted_of_files ascending fun file => (member file).trans ?_⟩
  refine exists_congr fun names => ?_
  grind

/-- Some files of a project are extracted. -/
theorem part_extracted (extractor : Extractor) (names : List String)
    (found : canonicalRoot fs root = .ok top)
    (compiled : SourceFilter.ofPatterns settings.included settings.excluded settings.sourceExtension =
      .ok f) (tree : fs.IsTree top base)
    (valid : ∀ name ∈ names, ∃ parts, AreNames parts ∧ name = ofNames parts) :
    ∃ outcomes, part fs settings extractor root names = .ok outcomes ∧
      (Graph.ofOutcomes outcomes).Extracted
        (fun parts => AreNames parts ∧ ofNames parts ∈ names ∧ f.accepts (ofNames parts) = true ∧
          fs.isFile (top.join ⟨ofNames parts⟩) = true)
        fun parts => outcome fs settings extractor top (.below top (ofNames parts)) := by
  have member (file : SourceFile) : file ∈ f.select fs top names ↔ ∃ parts,
      (AreNames parts ∧ ofNames parts ∈ names ∧ f.accepts (ofNames parts) = true ∧
        fs.isFile (top.join ⟨ofNames parts⟩) = true) ∧ file = .below top (ofNames parts) := by
    rw [SourceFilter.mem_select]
    constructor
    · rintro ⟨shape, ⟨name, listed, same⟩, accepted, isFile⟩
      obtain ⟨parts, ok, rfl⟩ := valid name listed
      rw [normalised_ofNames ok] at same
      rw [shape, ← same] at isFile
      rw [← same] at shape accepted
      exact ⟨parts, ⟨ok, listed, accepted, isFile⟩, shape⟩
    · rintro ⟨parts, ⟨ok, listed, accepted, isFile⟩, rfl⟩
      exact ⟨rfl, ⟨_, listed, normalised_ofNames ok⟩, accepted, isFile⟩
  refine ⟨(f.select fs top names).map (outcome fs settings extractor top), ?_, ?_⟩
  · have below : ∀ file ∈ f.select fs top names, ∃ parts, AreNames parts ∧ file = .below top (ofNames parts) :=
      fun file listed => by
        obtain ⟨parts, known, shape⟩ := (member file).mp listed
        exact ⟨parts, known.1, shape⟩
    rw [part_of_select found compiled, run_eq_map tree.named below]
  · exact extracted_of_files SourceFilter.ascending_select member

end Extraction

end ModuleGraph
