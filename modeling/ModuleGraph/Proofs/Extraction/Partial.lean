import ModuleGraph.Proofs.Enumeration
import ModuleGraph.Proofs.Extraction.Run
import ModuleGraph.Proofs.FileSystem.Flat
import ModuleGraph.Proofs.Import.Traversal

/-!
Partial extraction. In a tree, the files that are selected by relative names are those of the scan that are named and
whose paths are short enough to be looked up (`SourceFilter.select_eq_filter`). What is known of a module is what its
own file says, so a part of a project agrees with the whole on every module that it scans
(`Pipeline.extractFiles_agrees`). A file whose path is too long is scanned but cannot be selected
(`Pipeline.extractFiles_misses_distant`).
-/
namespace ModuleGraph
open ModuleGraph.Path Text

namespace Path
variable {name : String}

/-- A relative path without steps up. -/
def IsInner (p : Path) : Prop := p.isAbsolute = false ∧ Component.up ∉ p.components

instance (p : Path) : Decidable p.IsInner := inferInstanceAs (Decidable (_ ∧ _))

/-- An inner path names what lies behind names below a directory. -/
theorem IsInner.exists_names (inner : IsInner ⟨name⟩) (clean : '\x00' ∉ (normalised name).toList)
    (filled : normalised name ≠ "") : ∃ parts, AreNames parts ∧ normalised name = ofNames parts := by
  have text : normalised name = idOf false ((Path.mk name).pieces.filter (!isIdle ·)) := by
    rw [normalised_eq_idOf, inner.1]
  have spelled : ofNames (((Path.mk name).pieces.filter (!isIdle ·)).map String.ofList) = normalised name := by
    rw [text, ofNames, List.map_map]
    simp [Function.comp_def, idOf]
  refine ⟨_, ⟨?_, ?_⟩, spelled.symm⟩
  · intro none
    rw [none] at spelled
    exact filled spelled.symm
  · intro part member
    obtain ⟨piece, kept, rfl⟩ := List.mem_map.mp member
    obtain ⟨solid, noSlash⟩ := areSteps_pieces ⟨name⟩ piece kept
    rw [isIdle, Bool.or_eq_false_iff, beq_eq_false_iff_ne, beq_eq_false_iff_ne] at solid
    refine ⟨by simpa using solid.1, by simpa using solid.2, ?_, by simpa using noSlash, ?_⟩
    · rw [String.toList_ofList]
      rintro rfl
      exact inner.2 (ofPiece_mem_components kept)
    · rw [String.toList_ofList]
      intro nul
      rw [text, idOf, String.toList_ofList] at clean
      exact clean (mem_joinWith_of_mem kept nul)

end Path

namespace SourceFilter
variable {f : SourceFilter} {fs : FileSystem} {top : Path} {base : Location} {files : List SourceFile}
  {file : SourceFile} {names : List String}

/-- Whether a file is named in a list of relative paths. -/
def isNamed (names : List String) (file : SourceFile) : Bool := names.any (normalised · == file.moduleId)

/-- Whether the path of a file is short enough to be looked up. -/
def isNear (file : SourceFile) : Bool := file.path.text.utf8ByteSize ≤ FileSystem.pathLimit

/-- Of a tree, what is selected are the named files that can be looked up. -/
theorem mem_select_of_tree (tree : fs.IsTree top base) (inner : ∀ name ∈ names, IsInner ⟨name⟩) :
    file ∈ f.select fs top names ↔
      (∃ parts, fs.IsWalked top base parts ∧ file = .below top (ofNames parts) ∧
        f.accepts (ofNames parts) = true) ∧ isNamed names file = true ∧ isNear file = true := by
  rw [mem_select, isNamed, isNear, List.any_eq_true, decide_eq_true_iff]
  simp only [beq_iff_eq]
  constructor
  · rintro ⟨shape, named, accepted, isFile⟩
    obtain ⟨name, listed, same⟩ := named
    have relative : (Path.mk file.moduleId).isAbsolute = false := by
      rw [← same, isAbsolute_normalised]
      exact (inner name listed).1
    have filled : normalised name ≠ "" := by
      intro none
      rw [← same, none, accepts_empty] at accepted
      cases accepted
    have clean : '\x00' ∉ (normalised name).toList := by
      obtain ⟨bytes, read⟩ := FileSystem.isFile_iff.mp isFile
      obtain ⟨found, located⟩ := FileSystem.read_eq_ok_iff.mp read
      have clean := (FileSystem.locate_eq_present_iff.mp located).1
      rw [shape, SourceFile.below] at clean
      rw [same]
      intro nul
      rcases FileSystem.toList_join top relative with joined | joined <;> simp [joined, nul] at clean
    obtain ⟨parts, ok, id⟩ := (inner name listed).exists_names clean filled
    have id := same.symm.trans id
    rw [id] at shape accepted
    have there := isFile
    rw [shape, SourceFile.below, tree.isFile_join_iff ok] at there
    have walked : fs.IsWalked top base parts := ⟨there.2, FileSystem.isEntered_of_near tree.named ok there.1⟩
    refine ⟨⟨parts, walked, shape, accepted⟩, ⟨name, listed, same⟩, ?_⟩
    rw [shape]
    exact there.1
  · rintro ⟨⟨parts, walked, rfl, accepted⟩, named, near⟩
    refine ⟨rfl, named, accepted, ?_⟩
    exact (tree.isFile_join_iff (tree.areNames_of_isSome walked.present)).mpr ⟨near, walked.present⟩

/-- Of a tree, the selected files are the scanned ones that are named and can be looked up. -/
theorem select_eq_filter (tree : fs.IsTree top base) (inner : ∀ name ∈ names, IsInner ⟨name⟩)
    (ascending : Ascending files)
    (member : ∀ file, file ∈ files ↔ ∃ parts, fs.IsWalked top base parts ∧
      file = .below top (ofNames parts) ∧ f.accepts (ofNames parts) = true) :
    f.select fs top names = files.filter fun file => isNamed names file && isNear file := by
  refine ascending_select.ext (ascending.filter _) fun file => ?_
  rw [mem_select_of_tree tree inner, List.mem_filter, member, Bool.and_eq_true]

/-- Fewer names select those of the files that they name. -/
theorem select_of_subset {some : List String} (subset : some ⊆ names) :
    f.select fs top some = (f.select fs top names).filter (isNamed some) := by
  refine ascending_select.ext (ascending_select.filter _) fun file => ?_
  rw [List.mem_filter, mem_select, mem_select, isNamed, List.any_eq_true]
  simp only [beq_iff_eq]
  constructor
  · rintro ⟨shape, ⟨name, listed, same⟩, accepted, isFile⟩
    exact ⟨⟨shape, ⟨name, subset listed, same⟩, accepted, isFile⟩, name, listed, same⟩
  · rintro ⟨⟨shape, -, accepted, isFile⟩, named⟩
    exact ⟨shape, named, accepted, isFile⟩

end SourceFilter

namespace Extraction
variable {fs : FileSystem} {settings : ExtractionSettings} {root top : Path} {base : Location} {f : SourceFilter}
  {names : List String}

/-- The selected files of a project are extracted one by one. -/
theorem part_eq_map (extractor : Extractor) (found : canonicalRoot fs root = .ok top)
    (compiled : SourceFilter.ofPatterns settings.included settings.excluded settings.sourceExtension = .ok f)
    (tree : fs.IsTree top base) (inner : ∀ name ∈ names, IsInner ⟨name⟩) :
    part fs settings extractor root names =
      .ok ((f.select fs top names).map (outcome fs settings extractor top)) := by
  have below : ∀ file ∈ f.select fs top names, ∃ parts, AreNames parts ∧ file = .below top (ofNames parts) := by
    intro file listed
    obtain ⟨⟨parts, walked, shape, -⟩, -, -⟩ := (SourceFilter.mem_select_of_tree tree inner).mp listed
    exact ⟨parts, tree.areNames_of_isSome walked.present, shape⟩
  simp only [part, found, compiled, bind, Except.bind, run_eq_map tree.named below]

/-- The failures of some of the files of a project are those that are reported for these files. -/
theorem failures_filter {extractor : Extractor} {files : List SourceFile} {keep : SourceFile → Bool}
    (nodup : (files.map (·.moduleId)).Nodup) :
    ((files.filter keep).map (outcome fs settings extractor top)).flatMap (·.failures) =
      ((files.map (outcome fs settings extractor top)).flatMap (·.failures)).filter fun failure =>
        (files.filter keep).any (·.moduleId == failure.file) := by
  have own {file : SourceFile} {failure : FileFailure}
      (member : failure ∈ (outcome fs settings extractor top file).failures) : failure.file = file.moduleId :=
    Outcome.file_of_mem_failures member
  have kept (files : List SourceFile) (F : SourceFile → List FileFailure) :
      (files.filter keep).flatMap F = files.flatMap fun file => if keep file then F file else [] := by
    induction files with
    | nil => rfl
    | cons file rest ih =>
      rw [List.filter_cons, List.flatMap_cons, ← ih]
      split <;> rfl
  rw [List.flatMap_map, List.flatMap_map, List.filter_flatMap, kept]
  refine List.flatMap_congr fun file listed => ?_
  split
  · rename_i keeps
    refine (List.filter_eq_self.mpr fun failure member => ?_).symm
    refine List.any_eq_true.mpr ⟨file, List.mem_filter.mpr ⟨listed, keeps⟩, ?_⟩
    rw [own member]
    exact beq_self_eq_true file.moduleId
  · rename_i drops
    refine (List.filter_eq_nil_iff.mpr fun failure member chosen => ?_).symm
    obtain ⟨other, inside, same⟩ := List.any_eq_true.mp chosen
    obtain ⟨listed', keeps⟩ := List.mem_filter.mp inside
    rw [own member, beq_iff_eq] at same
    rw [List.inj_on_of_nodup_map nodup listed' listed same] at keeps
    exact drops keeps

end Extraction

namespace Pipeline
variable {fs : FileSystem} {root top : Path} {base : Location} {names : List String}

/-- A part of a project is extracted as the whole is, if the workers start. What is known of a module that the part
    scans is what the whole knows of it, the failures are those of the selected files, and what the whole scans is
    scanned if it is named and its path is not too long. -/
theorem extractFiles_agrees (p : Pipeline) (found : Extraction.canonicalRoot fs root = .ok top)
    (tree : fs.IsTree top base) (inner : ∀ name ∈ names, IsInner ⟨name⟩) :
    (∀ e, SourceFilter.ofPatterns p.settings.included p.settings.excluded p.settings.sourceExtension = .error e →
      (p.extract fs root).1 = .error (.invalidGlob e) ∧ (p.extractFiles fs root names).1 = .error (.invalidGlob e)) ∧
    ∀ f, SourceFilter.ofPatterns p.settings.included p.settings.excluded p.settings.sourceExtension = .ok f →
      ∃ g h, (p.extract fs root).1 = p.workers.perform p.settings.threads g ∧
        (p.extractFiles fs root names).1 = p.workers.perform p.settings.threads h ∧
        (∀ id ∈ h.scannedModules, id ∈ g.scannedModules ∧ h.SameAt g id) ∧
        (p.extractFiles fs root names).2.failures = (p.extract fs root).2.failures.filter (fun failure =>
          (f.select fs top names).any (·.moduleId == failure.file)) ∧
        ∀ id ∈ g.scannedModules, (∃ name ∈ names, normalised name = id) →
          (top.join ⟨id⟩).text.utf8ByteSize ≤ FileSystem.pathLimit → id ∈ h.scannedModules := by
  refine ⟨fun e unreadable => ?_, fun f compiled => ?_⟩
  · simp only [extract, extractWith, extractFiles, Extraction.whole, Extraction.part, found, unreadable, bind,
      Except.bind, settle, and_self]
  obtain ⟨files, -, ascending, member, whole⟩ := Extraction.whole_eq_map p.extractor found compiled tree
  have part := Extraction.part_eq_map p.extractor found compiled tree inner
  have select := SourceFilter.select_eq_filter tree inner ascending member
  have listed : ∀ file ∈ f.select fs top names, file ∈ files := by
    intro file selected
    rw [select] at selected
    exact (List.mem_filter.mp selected).1
  have nodup {files : List SourceFile} (ascending : SourceFilter.Ascending files) :
      ((files.map (Extraction.outcome fs p.settings p.extractor top)).map (·.moduleId)).Nodup := by
    rw [Extraction.moduleIds_outcomes]
    exact ascending.nodup
  refine ⟨_, _, by rw [extract, extractWith, whole, settle_fst], by rw [extractFiles, part, settle_fst], ?_, ?_, ?_⟩
  · intro id there
    obtain ⟨file, selected, rfl, read⟩ := Extraction.mem_scannedModules_outcomes.mp there
    have inside := listed file selected
    refine ⟨Extraction.mem_scannedModules_outcomes.mpr ⟨file, inside, rfl, read⟩, ?_⟩
    have same := Graph.sameAt_ofOutcomes (nodup SourceFilter.ascending_select) (nodup ascending)
      (List.mem_map_of_mem selected) (List.mem_map_of_mem inside) read
    rwa [Extraction.moduleId_outcome] at same
  · rw [extract, extractWith, whole, extractFiles, part, failures_settle, failures_settle, select]
    split
    · exact Extraction.failures_filter ascending.nodup
    · rfl
  · intro id there named near
    obtain ⟨file, inside, rfl, read⟩ := Extraction.mem_scannedModules_outcomes.mp there
    refine Extraction.mem_scannedModules_outcomes.mpr ⟨file, ?_, rfl, read⟩
    have known := (member file).mp inside
    refine (SourceFilter.mem_select_of_tree tree inner).mpr ⟨known, ?_, ?_⟩
    · simpa [SourceFilter.isNamed] using named
    · obtain ⟨parts, -, rfl, -⟩ := known
      exact decide_eq_true near

/-- Settings under which every file with the source extension is a source file. -/
def openSettings : ExtractionSettings := { (default : ExtractionSettings) with included := [], excluded := [] }

/-- A pipeline with these settings. -/
def openPipeline : Pipeline := .ofSettings openSettings Python.lineExtractor .ready

/-- Three modules that import each other. -/
def circleFiles : OrderedMap String (List UInt8) :=
  .ofList [("a.py", utf8Bytes "import b\n"), ("b.py", utf8Bytes "import c\n"), ("c.py", utf8Bytes "import a\n")]

theorem extractFiles_agrees_circle :
    ∃ g h, (openPipeline.extract (.flat circleFiles) ⟨"/p"⟩).1 = .ok g ∧
      (openPipeline.extractFiles (.flat circleFiles) ⟨"/p"⟩ ["./b.py", "c.py"]).1 = .ok h ∧
      ∀ id ∈ h.scannedModules, id ∈ g.scannedModules ∧ h.SameAt g id := by
  have proper : ∀ name ∈ circleFiles.keys, IsName name ∧ name.utf8ByteSize ≤ FileSystem.nameLimit := by decide
  have tree := FileSystem.isTree_flat proper
  have found : Extraction.canonicalRoot (.flat circleFiles) ⟨"/p"⟩ = .ok ⟨"/p"⟩ :=
    Extraction.canonicalRoot_of_tree ["p"] tree
  have inner : ∀ name ∈ ["./b.py", "c.py"], IsInner ⟨name⟩ := by decide
  have compiled : SourceFilter.ofPatterns openSettings.included openSettings.excluded openSettings.sourceExtension =
      .ok ⟨none, [], "py"⟩ := rfl
  obtain ⟨g, h, whole, part, agrees, -⟩ :=
    (openPipeline.extractFiles_agrees found tree inner).2 _ compiled
  exact ⟨g, h, whole, part, agrees⟩

/-! ## Distant files -/

/-- A name of a length. -/
def longName (n : Nat) : String := String.ofList (List.replicate n 'd')

private theorem size_longName (n : Nat) : (longName n).utf8ByteSize = n := by
  induction n with
  | zero => rfl
  | succ n ih =>
    have letter : (String.singleton 'd').utf8ByteSize = 1 := rfl
    rw [longName, List.replicate_succ, String.ofList_cons, String.utf8ByteSize_append, letter, Nat.add_comm]
    exact congrArg (· + 1) ih

private theorem isName_longName (n : Nat) : IsName (longName (n + 3)) := by
  constructor <;> simp [longName, List.replicate_succ]

private theorem size_location_cons {loc : Location} (deep : loc ≠ []) (name : String) :
    (FileSystem.locationPath (name :: loc)).text.utf8ByteSize =
      (FileSystem.locationPath loc).text.utf8ByteSize + 1 + name.utf8ByteSize := by
  have text : (FileSystem.locationPath (name :: loc)).text = (FileSystem.locationPath loc).text ++ "/" ++ name := by
    have outer : loc.reverse.map (·.toList) ≠ [] := by simpa using deep
    refine String.toList_inj.mp ?_
    rw [FileSystem.locationPath, List.reverse_cons, List.map_append, String.toList_ofList]
    exact (congrArg ('/' :: ·) (joinWith_concat '/' outer _)).trans (by simp [FileSystem.locationPath])
  have slash : "/".utf8ByteSize = 1 := rfl
  rw [text, String.utf8ByteSize_append, String.utf8ByteSize_append, slash]

theorem size_join_location {loc : Location} {name : String} (isName : ∀ name ∈ loc, IsName name)
    (deep : loc ≠ []) (named : IsName name) : ((FileSystem.locationPath loc).join ⟨name⟩).text.utf8ByteSize =
      (FileSystem.locationPath loc).text.utf8ByteSize + 1 + name.utf8ByteSize := by
  have joined := FileSystem.join_location isName (⟨by simp, by simpa using named⟩ : AreNames [name])
  rw [ofNames_singleton] at joined
  rw [joined]
  exact size_location_cons deep name

private theorem size_location_replicate (name : String) (n : Nat) :
    (FileSystem.locationPath (List.replicate (n + 1) name)).text.utf8ByteSize =
      (n + 1) * (name.utf8ByteSize + 1) := by
  induction n with
  | zero =>
    have text : (FileSystem.locationPath [name]).text = "/" ++ name := by
      refine String.toList_inj.mp ?_
      simp [FileSystem.locationPath, joinWith]
    have slash : "/".utf8ByteSize = 1 := rfl
    rw [List.replicate_one, text, String.utf8ByteSize_append, slash]
    omega
  | succ n ih =>
    rw [List.replicate_succ, size_location_cons (by simp), ih, Nat.succ_mul (n + 1)]
    omega

/-- A directory whose path is as long as a path may be. -/
def distantDirectory : Location := List.replicate 21 (longName 194)

/-- A single module. -/
def singleFile : OrderedMap String (List UInt8) := .ofList [("a.py", [])]

/-- Finds no imports, whatever the file. -/
def blindExtractor : Extractor := fun _ _ => .ok []

theorem isName_distant :
    ∀ name ∈ distantDirectory, IsName name ∧ name.utf8ByteSize ≤ FileSystem.nameLimit := by
  intro name member
  rw [List.eq_of_mem_replicate member, size_longName]
  exact ⟨isName_longName 191, by decide⟩

theorem size_distant :
    (FileSystem.locationPath distantDirectory).text.utf8ByteSize = FileSystem.pathLimit := by
  rw [distantDirectory, size_location_replicate, size_longName]
  rfl

theorem isName_single :
    ∀ name ∈ singleFile.keys, IsName name ∧ name.utf8ByteSize ≤ FileSystem.nameLimit := by
  decide

theorem tree_distant : (FileSystem.flatAt distantDirectory singleFile).IsTree
    (FileSystem.locationPath distantDirectory) distantDirectory :=
  FileSystem.isTree_flatAt isName_distant isName_single (Nat.le_of_eq size_distant)

theorem isFile_distant : (FileSystem.flatAt distantDirectory singleFile).isFile
    ((FileSystem.locationPath distantDirectory).join ⟨"a.py"⟩) = false := by
  have ok : AreNames ["a.py"] := ⟨by simp, by decide⟩
  have deep : distantDirectory ≠ [] := List.cons_ne_nil _ _
  have named : ofNames ["a.py"] = "a.py" := ofNames_singleton
  refine Bool.eq_false_iff.mpr fun isFile => ?_
  rw [← named] at isFile
  have short := ((tree_distant.isFile_join_iff ok).mp isFile).1
  rw [named, size_join_location (fun name member => (isName_distant name member).1) deep (by decide), size_distant]
    at short
  generalize FileSystem.pathLimit = limit at short
  omega

/-- A module at a path that is too long is scanned with the whole project and not when it is asked for. -/
theorem extractFiles_misses_distant :
    (FileSystem.flatAt distantDirectory singleFile).IsTree (FileSystem.locationPath distantDirectory)
      distantDirectory ∧
    (∀ name ∈ ["a.py"], IsInner ⟨name⟩ ∧ normalised name = "a.py") ∧
    ∃ g h, ((ofSettings openSettings blindExtractor .ready).extract (.flatAt distantDirectory singleFile)
          (FileSystem.locationPath distantDirectory)).1 = .ok g ∧
      ((ofSettings openSettings blindExtractor .ready).extractFiles (.flatAt distantDirectory singleFile)
          (FileSystem.locationPath distantDirectory) ["a.py"]).1 = .ok h ∧
      "a.py" ∈ g.scannedModules ∧ "a.py" ∉ h.scannedModules := by
  have tree := tree_distant
  have found := Extraction.canonicalRoot_of_tree distantDirectory tree
  have compiled : SourceFilter.ofPatterns openSettings.included openSettings.excluded openSettings.sourceExtension =
      .ok ⟨none, [], "py"⟩ := rfl
  have ok : AreNames ["a.py"] := ⟨by simp, by decide⟩
  have valid : ∀ name ∈ ["a.py"], ∃ parts, AreNames parts ∧ name = ofNames parts := by
    intro name member
    exact ⟨["a.py"], ok, List.mem_singleton.mp member⟩
  obtain ⟨whole, all, extracted⟩ := Extraction.whole_extracted blindExtractor found compiled tree
  obtain ⟨part, some, extracted'⟩ := Extraction.part_extracted blindExtractor ["a.py"] found compiled tree valid
  refine ⟨tree, by decide, _, _, by rw [extract, extractWith, ofSettings, all]; rfl,
    by rw [extractFiles, ofSettings, some]; rfl, ?_, ?_⟩
  · have entered := FileSystem.isEntered_singleton tree.stat_root "a.py"
    refine (extracted.mem_scannedModules_iff _).mpr ⟨["a.py"], ⟨by decide, ?_, entered⟩, rfl, ?_⟩
    · rw [FileSystem.contentBelow_flatAt]
      rfl
    · exact Extraction.isSome_info_outcome.mpr ⟨[], rfl⟩
  · intro scanned
    obtain ⟨parts, ⟨-, named, -, isFile⟩, -, -⟩ := (extracted'.mem_scannedModules_iff _).mp scanned
    rw [List.mem_singleton.mp named, isFile_distant] at isFile
    cases isFile

end Pipeline
end ModuleGraph
