import ModuleGraph.Proofs.Extraction.Partial
import ModuleGraph.Proofs.Extraction.Pool
import ModuleGraph.Proofs.Graph.Order

/-!
Files that fail. A file whose imports cannot be read has a silent outcome with one failure
(`Extraction.isSilent_outcome`, `Extraction.failures_of_error`), so a run over files gives the graph of those that
are read, whichever the others are (`Pipeline.isolated_of_lists`). This is what a pipeline gives that extracts a
project or some of its files, and it reports the failures of these files and no earlier ones
(`Pipeline.extract_isolated`).
-/
namespace ModuleGraph
open ModuleGraph.Path

namespace Extraction
variable {fs : FileSystem} {settings : ExtractionSettings} {extractor : Extractor} {top : Path}
  {files : List SourceFile} {file : SourceFile} {e : SourceError}

/-- Whether the imports of a file can be read. -/
def isRead (fs : FileSystem) (extractor : Extractor) (file : SourceFile) : Bool := (extractor fs file.path).isOk

def readIds (fs : FileSystem) (extractor : Extractor) (files : List SourceFile) : List String :=
  (files.filter (isRead fs extractor)).map (·.moduleId)

theorem isRead_eq_false_iff : isRead fs extractor file = false ↔ ∃ e, extractor fs file.path = .error e := by
  unfold isRead
  cases extractor fs file.path <;> simp [Except.isOk, Except.toBool]

/-! ## One file -/

theorem info_outcome : (outcome fs settings extractor top file).info.isSome = isRead fs extractor file := by
  unfold outcome inquiry isRead
  cases extractor fs file.path with
  | error e => rfl
  | ok imports =>
    rw [Outcome.run_ofImports]
    rfl

theorem isSilent_outcome (unread : isRead fs extractor file = false) :
    (outcome fs settings extractor top file).IsSilent := by
  obtain ⟨e, failed⟩ := isRead_eq_false_iff.mp unread
  rw [outcome, inquiry, failed, Outcome.ofImports_error]
  exact ⟨rfl, rfl, rfl, rfl⟩

theorem failures_of_error (failed : extractor fs file.path = .error e) :
    (outcome fs settings extractor top file).failures = [⟨file.moduleId, .extraction, e.message⟩] := by
  rw [outcome, inquiry, failed, Outcome.ofImports_error]
  rfl

theorem kind_of_isRead {failure : FileFailure} (read : isRead fs extractor file = true)
    (member : failure ∈ (outcome fs settings extractor top file).failures) : failure.kind = .resolution := by
  unfold outcome inquiry at member
  unfold isRead at read
  cases told : extractor fs file.path with
  | error e =>
    rw [told] at read
    cases read
  | ok imports =>
    rw [told] at member
    exact Outcome.kind_of_mem_failures member

/-! ## Several files -/

/-- The failures that are reported under the id of a file are its own. -/
theorem failures_of_mem (nodup : (files.map (·.moduleId)).Nodup) (member : file ∈ files) :
    (files.flatMap fun file => (outcome fs settings extractor top file).failures).filter
        (·.file = file.moduleId) = (outcome fs settings extractor top file).failures := by
  have single : files.filter (·.moduleId == file.moduleId) = [file] := by
    refine List.perm_singleton.mp ((List.perm_ext_iff_of_nodup (nodup.of_map.filter _)
      (List.nodup_singleton file)).mpr fun other => ?_)
    rw [List.mem_filter, List.mem_singleton, beq_iff_eq]
    constructor
    · rintro ⟨listed, same⟩
      exact List.inj_on_of_nodup_map nodup listed member same
    · rintro rfl
      exact ⟨member, rfl⟩
  have chosen : ((files.filter (·.moduleId == file.moduleId)).map
      (outcome fs settings extractor top)).flatMap (·.failures) = _ := failures_filter nodup
  rw [single, List.flatMap_map, List.flatMap_map, List.flatMap_cons, List.flatMap_nil, List.append_nil] at chosen
  rw [chosen]
  refine List.filter_congr fun failure _ => ?_
  rw [List.any_cons, List.any_nil, Bool.or_false, beq_eq_decide, decide_eq_decide]
  exact eq_comm

theorem mem_readIds_iff (nodup : (files.map (·.moduleId)).Nodup) (member : file ∈ files) :
    file.moduleId ∈ readIds fs extractor files ↔ isRead fs extractor file = true := by
  rw [readIds, List.mem_map]
  constructor
  · rintro ⟨other, kept, same⟩
    obtain ⟨listed, read⟩ := List.mem_filter.mp kept
    rwa [List.inj_on_of_nodup_map nodup listed member same] at read
  · intro read
    exact ⟨file, List.mem_filter.mpr ⟨member, read⟩, rfl⟩

/-- A file is read just if none of its failures is one of the extraction. -/
theorem isRead_iff : isRead fs extractor file = true ↔
    ∀ failure ∈ (outcome fs settings extractor top file).failures, failure.kind ≠ .extraction := by
  constructor
  · intro read failure member same
    have other := kind_of_isRead read member
    rw [same] at other
    cases other
  · intro none
    by_contra unread
    obtain ⟨e, failed⟩ := isRead_eq_false_iff.mp (Bool.eq_false_iff.mpr unread)
    rw [failures_of_error failed] at none
    exact none _ List.mem_cons_self rfl

theorem run_filter (extractor : Extractor) (settings : ExtractionSettings) {root : Path} {f : SourceFilter}
    (named : fs.WellNamed) (found : canonicalRoot fs root = .ok top) (listed : f.Lists fs top files)
    (keep : SourceFile → Bool) : run fs settings extractor top (files.filter keep) =
      (files.filter keep).map (outcome fs settings extractor top) := by
  refine outcomes_eq_map Memo.sound_nil (eq_of_components named found listed) fun file member => ?_
  exact List.mem_map_of_mem (List.mem_filter.mp member).1

end Extraction

namespace Pipeline
variable {fs : FileSystem} {root top : Path} {f : SourceFilter} {files : List SourceFile} {names : List String}
  {g : Graph}

/-- What a run over files gives, whichever of them fail: a graph and the failures that are reported. -/
structure Isolated (p : Pipeline) (fs : FileSystem) (top : Path) (files : List SourceFile) (g : Graph)
    (failures : List FileFailure) : Prop where
  increasing : (Extraction.readIds fs p.extractor files).Pairwise (· < ·)
  nodeIds : g.nodeIds = Extraction.readIds fs p.extractor files ++
    (((Extraction.readIds fs p.extractor files).flatMap g.dependencies).filter
      (· ∉ Extraction.readIds fs p.extractor files)).eraseDups
  scannedModules : g.scannedModules = Extraction.readIds fs p.extractor files
  bare : ∀ id ∉ Extraction.readIds fs p.extractor files,
    g.dependencies id = [] ∧ g.unresolvedOf id = [] ∧ g.externalOf? id = none
  scanned_iff : ∀ file ∈ files, file.moduleId ∈ g.scannedModules ↔
    ∀ failure ∈ failures, failure.file = file.moduleId → failure.kind ≠ .extraction
  single : ∀ file ∈ files, ∀ e, p.extractor fs file.path = .error e →
    failures.filter (·.file = file.moduleId) = [⟨file.moduleId, .extraction, e.message⟩]
  failures : failures = files.flatMap fun file =>
    (Extraction.alone fs p.settings p.extractor top file).failures
  dropped : ∀ keep : SourceFile → Bool,
    (∀ file ∈ files, keep file = false → ∃ e, p.extractor fs file.path = .error e) →
    Graph.ofOutcomes (Extraction.run fs p.settings p.extractor top (files.filter keep)) = g

/-- The files of a project that fail affect nothing but the report of their failures. -/
theorem isolated_of_lists (p : Pipeline) (named : fs.WellNamed) (found : Extraction.canonicalRoot fs root = .ok top)
    (listed : f.Lists fs top files) :
    p.Isolated fs top files (.ofOutcomes (Extraction.run fs p.settings p.extractor top files))
      ((Extraction.run fs p.settings p.extractor top files).flatMap (·.failures)) := by
  let outcome := Extraction.outcome fs p.settings p.extractor top
  let isRead := Extraction.isRead fs p.extractor
  have ascending := listed.ascending named
  have run : Extraction.run fs p.settings p.extractor top files = files.map outcome := by
    have whole := Extraction.run_filter p.extractor p.settings named found listed fun _ => true
    rwa [List.filter_eq_self.mpr fun _ _ => rfl] at whole
  -- The graph is that of the files that are read.
  have dropped (keep : SourceFile → Bool) (unread : ∀ file ∈ files, keep file = false → isRead file = false) :
      Graph.ofOutcomes ((files.filter keep).map outcome) = .ofOutcomes (files.map outcome) :=
    Graph.ofOutcomes_filter fun file member out => Extraction.isSilent_outcome (unread file member out)
  have ids : ((files.filter isRead).map outcome).map (·.moduleId) = Extraction.readIds fs p.extractor files :=
    Extraction.moduleIds_outcomes _
  have nodup : (((files.filter isRead).map outcome).map (·.moduleId)).Nodup := by
    rw [ids]
    exact SourceFilter.Ascending.nodup (ascending.filter _)
  have read : ∀ o ∈ (files.filter isRead).map outcome, o.info.isSome := by
    intro o member
    obtain ⟨file, kept, rfl⟩ := List.mem_map.mp member
    rw [Extraction.info_outcome]
    exact (List.mem_filter.mp kept).2
  have own (file : SourceFile) (member : file ∈ files) :
      (files.flatMap fun file => (outcome file).failures).filter (·.file = file.moduleId) =
        (outcome file).failures := Extraction.failures_of_mem ascending.nodup member
  rw [run, ← dropped isRead fun _ _ => id, List.flatMap_map]
  have scanned := Graph.scannedModules_ofOutcomes nodup read (Extraction.isComplete_of_mem_outcomes _)
  rw [ids] at scanned
  constructor
  case increasing => exact List.pairwise_map.mpr (ascending.filter _)
  case nodeIds =>
    rw [Graph.nodeIds_ofOutcomes nodup read, ids]
  case scannedModules => exact scanned
  case bare =>
    intro id outside
    have other : ∀ o ∈ (files.filter isRead).map outcome, o.moduleId ≠ id := by
      rintro o member rfl
      rw [← ids] at outside
      exact outside (List.mem_map_of_mem member)
    obtain ⟨edges, unresolved, external⟩ := Graph.blank_ofOutcomes nodup other
    exact ⟨by rw [Graph.dependencies, edges]; rfl, unresolved, external⟩
  case scanned_iff =>
    intro file member
    have read : Extraction.isRead fs p.extractor file = true ↔ ∀ failure ∈ (outcome file).failures, _ :=
      Extraction.isRead_iff
    rw [scanned, Extraction.mem_readIds_iff ascending.nodup member, read, ← own file member]
    simp only [List.mem_filter, decide_eq_true_eq, and_imp]
  case single =>
    intro file member e failed
    exact (own file member).trans (Extraction.failures_of_error failed)
  case failures =>
    refine List.flatMap_congr fun file _ => ?_
    rw [Extraction.alone_eq_outcome]
  case dropped =>
    intro keep failing
    rw [Extraction.run_filter p.extractor p.settings named found listed keep, dropped isRead fun _ _ => id]
    exact dropped keep fun file member out => Extraction.isRead_eq_false_iff.mpr (failing file member out)

/-! ## Runs that succeed -/

theorem extractWith_eq (p : Pipeline) {included excluded : List String}
    (found : Extraction.canonicalRoot fs root = .ok top)
    (compiled : SourceFilter.ofPatterns included excluded p.settings.sourceExtension = .ok f)
    (scanned : f.scan? fs top = some files) : p.extractWith fs root included excluded =
      p.settle (.ok (Extraction.run fs p.settings p.extractor top files)) := by
  rw [extractWith, Extraction.whole_of_scan found compiled scanned]

theorem extractFiles_eq (p : Pipeline) (found : Extraction.canonicalRoot fs root = .ok top)
    (compiled : SourceFilter.ofPatterns p.settings.included p.settings.excluded p.settings.sourceExtension = .ok f)
    (names : List String) : p.extractFiles fs root names =
      p.settle (.ok (Extraction.run fs p.settings p.extractor top (f.select fs top names))) := by
  rw [extractFiles, Extraction.part_of_select found compiled]

theorem exists_files_of_extractWith {p : Pipeline} {included excluded : List String}
    (extracted : (p.extractWith fs root included excluded).1 = .ok g) :
    ∃ top f files, Extraction.canonicalRoot fs root = .ok top ∧
      SourceFilter.ofPatterns included excluded p.settings.sourceExtension = .ok f ∧
      f.scan? fs top = some files := by
  rw [extractWith, Extraction.whole] at extracted
  cases found : Extraction.canonicalRoot fs root with
  | error e =>
    rw [found] at extracted
    cases extracted
  | ok top =>
    simp only [found, bind, Except.bind] at extracted
    cases compiled : SourceFilter.ofPatterns included excluded p.settings.sourceExtension with
    | error e =>
      rw [compiled] at extracted
      cases extracted
    | ok f =>
      rw [compiled] at extracted
      cases scanned : f.scan? fs top with
      | none =>
        simp only [scanned] at extracted
        cases extracted
      | some files => exact ⟨top, f, files, rfl, rfl, scanned⟩

theorem exists_filter_of_extractFiles {p : Pipeline} (extracted : (p.extractFiles fs root names).1 = .ok g) :
    ∃ top f, Extraction.canonicalRoot fs root = .ok top ∧
      SourceFilter.ofPatterns p.settings.included p.settings.excluded p.settings.sourceExtension = .ok f := by
  rw [extractFiles, Extraction.part] at extracted
  cases found : Extraction.canonicalRoot fs root with
  | error e =>
    rw [found] at extracted
    cases extracted
  | ok top =>
    simp only [found, bind, Except.bind] at extracted
    cases compiled : SourceFilter.ofPatterns p.settings.included p.settings.excluded p.settings.sourceExtension with
    | error e =>
      rw [compiled] at extracted
      cases extracted
    | ok f => exact ⟨top, f, rfl, rfl⟩

/-- What is extracted from a project or from some of its files is not affected by files that fail. These have no
    part in the graph and each reports a single failure, and without them the graph is the same: a scan with other
    patterns that finds all others gives it, and so do names that are left when those of failing files are
    dropped. -/
theorem extract_isolated (p : Pipeline) (named : fs.WellNamed) :
    ((p.extract fs root).1 = .ok g → ∃ top f files, Extraction.canonicalRoot fs root = .ok top ∧
      SourceFilter.ofPatterns p.settings.included p.settings.excluded p.settings.sourceExtension = .ok f ∧
      f.scan? fs top = some files ∧ p.Isolated fs top files g (p.extract fs root).2.failures ∧
      ∀ (included excluded : List String) (f' : SourceFilter) (keep : SourceFile → Bool),
        SourceFilter.ofPatterns included excluded p.settings.sourceExtension = .ok f' →
        f'.scan? fs top = some (files.filter keep) →
        (∀ file ∈ files, keep file = false → ∃ e, p.extractor fs file.path = .error e) →
        (p.extractWith fs root included excluded).1 = .ok g) ∧
    ∀ names, (p.extractFiles fs root names).1 = .ok g → ∃ top f, Extraction.canonicalRoot fs root = .ok top ∧
      SourceFilter.ofPatterns p.settings.included p.settings.excluded p.settings.sourceExtension = .ok f ∧
      p.Isolated fs top (f.select fs top names) g (p.extractFiles fs root names).2.failures ∧
      ∀ keep : String → Bool,
        (∀ name ∈ names, keep name = false → ∃ e, p.extractor fs (top.join ⟨normalised name⟩) = .error e) →
        (p.extractFiles fs root (names.filter keep)).1 = .ok g := by
  constructor
  · intro extracted
    obtain ⟨top, f, files, found, compiled, scanned⟩ := exists_files_of_extractWith extracted
    have whole : p.extract fs root = _ := p.extractWith_eq found compiled scanned
    have isolated := p.isolated_of_lists named found (.scanned scanned)
    rw [whole] at extracted ⊢
    obtain ⟨rfl, failures⟩ := settle_eq_ok extracted
    rw [failures]
    refine ⟨top, f, files, found, compiled, scanned, isolated, ?_⟩
    intro included excluded f' keep compiled' scanned' failing
    rw [p.extractWith_eq found compiled' scanned', settle_fst, isolated.dropped keep failing, ← settle_fst, extracted]
  · intro names extracted
    obtain ⟨top, f, found, compiled⟩ := exists_filter_of_extractFiles extracted
    have isolated := p.isolated_of_lists named found (.selected (f := f) names)
    rw [p.extractFiles_eq found compiled names] at extracted ⊢
    obtain ⟨rfl, failures⟩ := settle_eq_ok extracted
    rw [failures]
    refine ⟨top, f, found, compiled, isolated, fun keep failing => ?_⟩
    rw [p.extractFiles_eq found compiled, SourceFilter.select_of_subset (List.filter_subset_self names), settle_fst,
      isolated.dropped _ ?_, ← settle_fst, extracted]
    intro file selected unnamed
    -- A file is dropped if all of its names are.
    obtain ⟨shape, ⟨name, listed, same⟩, -, -⟩ := SourceFilter.mem_select.mp selected
    have out : keep name = false := by
      by_contra kept
      rw [SourceFilter.isNamed, List.any_eq_false] at unnamed
      exact unnamed name (List.mem_filter.mpr ⟨listed, by simpa using kept⟩) (by simpa using same)
    rw [shape, ← same]
    exact failing name listed out

/-- A module, and a file that it imports and that is no text. -/
private def brokenFiles : OrderedMap String (List UInt8) :=
  .ofList [("a.py", Text.utf8Bytes "import b\n"), ("b.py", [0xff])]

/-- A pipeline that has failed before. -/
private def usedPipeline : Pipeline := { openPipeline with failures := [⟨"c.py", .extraction, "gone"⟩] }

theorem extract_isolated_broken :
    (FileSystem.flat brokenFiles).WellNamed ∧
    (∃ g, (usedPipeline.extract (.flat brokenFiles) ⟨"/p"⟩).1 = .ok g ∧
      ∃ f files, SourceFilter.scan? f (.flat brokenFiles) ⟨"/p"⟩ = some files ∧
        usedPipeline.Isolated (.flat brokenFiles) ⟨"/p"⟩ files g
          (usedPipeline.extract (.flat brokenFiles) ⟨"/p"⟩).2.failures) ∧
    ∃ g, (usedPipeline.extractFiles (.flat brokenFiles) ⟨"/p"⟩ ["b.py", "./a.py"]).1 = .ok g ∧
      "b.py" ∉ g.scannedModules ∧
      (usedPipeline.extractFiles (.flat brokenFiles) ⟨"/p"⟩ ["./a.py"]).1 = .ok g := by
  have proper : ∀ name ∈ brokenFiles.keys, IsName name ∧ name.utf8ByteSize ≤ FileSystem.nameLimit := by decide
  have named : (FileSystem.flat brokenFiles).WellNamed := (FileSystem.isLinkFree_flat proper).wellNamed
  have tree := FileSystem.isTree_flat proper
  have root : Extraction.canonicalRoot (.flat brokenFiles) ⟨"/p"⟩ = .ok ⟨"/p"⟩ :=
    Extraction.canonicalRoot_of_tree ["p"] tree
  have filter : SourceFilter.ofPatterns openSettings.included openSettings.excluded openSettings.sourceExtension =
      .ok ⟨none, [], "py"⟩ := rfl
  have read : (FileSystem.flat brokenFiles).read ⟨"/p/b.py"⟩ = .ok [0xff] :=
    FileSystem.read_flat "b.py" proper rfl (by decide)
  have broken : usedPipeline.extractor (.flat brokenFiles) ⟨"/p/b.py"⟩ = .error _ :=
    Python.lineExtractor_of_not_text read (by decide)
  refine ⟨named, ?_, ?_⟩
  · obtain ⟨files, scanned, -, -⟩ := SourceFilter.scan_tree ⟨none, [], "py"⟩ tree
    have whole : usedPipeline.extract (.flat brokenFiles) ⟨"/p"⟩ = _ :=
      usedPipeline.extractWith_eq root filter scanned
    have extracted := congrArg Prod.fst whole
    obtain ⟨top, f, files, found, -, scanned, isolated, -⟩ :=
      (usedPipeline.extract_isolated named).1 extracted
    cases root.symm.trans found
    exact ⟨_, extracted, f, files, scanned, isolated⟩
  · have part := usedPipeline.extractFiles_eq root filter ["b.py", "./a.py"]
    have extracted := congrArg Prod.fst part
    obtain ⟨top, f, found, -, isolated, fewer⟩ := (usedPipeline.extract_isolated named).2 _ extracted
    cases root.symm.trans found
    refine ⟨_, extracted, ?_, fewer (· ≠ "b.py") ?_⟩
    · rw [isolated.scannedModules, Extraction.readIds, List.mem_map]
      rintro ⟨file, kept, same⟩
      obtain ⟨selected, read⟩ := List.mem_filter.mp kept
      rw [(SourceFilter.mem_select.mp selected).1, same] at read
      exact absurd read (Bool.eq_false_iff.mp (Extraction.isRead_eq_false_iff.mpr ⟨_, broken⟩))
    · intro name listed out
      obtain rfl : name = "b.py" := by simpa using out
      exact ⟨_, broken⟩

end Pipeline
end ModuleGraph
