import ModuleGraph.Proofs.Extraction.Partial
import ModuleGraph.Proofs.Text.Utf8

/-!
The two ways to enumerate the files of a tree. Walking it gives its accepted files in the order of their bytes, in
whatever order the walk comes by them, and looking names up gives those of the same files that are named
(`SourceFilter.enumerations_agree`). The length of a path is the only difference between them: a directory is entered by
its path and a file is looked up by its own, so a walk goes one name further (`SourceFilter.enumerations_differ_distant`).
-/
namespace ModuleGraph.SourceFilter
open ModuleGraph.Path Text

variable {f : SourceFilter} {fs : FileSystem} {top : Path} {base : Location} {files : List SourceFile}

/-- Files are in the strict order of the bytes of their ids. -/
def ByteAscending (files : List SourceFile) : Prop :=
  files.Pairwise fun a b => utf8Bytes a.moduleId < utf8Bytes b.moduleId

theorem Ascending.byteAscending (ascending : Ascending files) : ByteAscending files := ascending.imp utf8Bytes_lt

/-- A scan does not depend on the order in which a walk comes by the files. -/
theorem collect_of_scan {paths : List Path} (tree : fs.IsTree top base) (found : f.scan? fs top = some files)
    (perm : paths.Perm (fs.filesBelow top)) : f.collect top paths = files := by
  unfold scan? at found
  split at found
  · cases found
    exact collect_perm tree.nodup_moduleIds perm
  · cases found

/-- A scan of a tree gives the accepted files that a walk gets to, each once, in the order of their bytes and whatever the
    order of the walk. A selection gives the files of the scan that are named and whose paths are not too long. -/
theorem enumerations_agree (f : SourceFilter) (tree : fs.IsTree top base) :
    ∃ files, f.scan? fs top = some files ∧ ByteAscending files ∧
      (∀ file, file ∈ files ↔ ∃ parts, fs.IsWalked top base parts ∧ file = .below top (ofNames parts) ∧
        f.accepts (ofNames parts) = true) ∧
      (∀ paths, paths.Perm (fs.filesBelow top) → f.collect top paths = files) ∧
      ∀ names, (∀ name ∈ names, IsInner ⟨name⟩) →
        f.select fs top names = files.filter fun file => isNamed names file && isNear file := by
  obtain ⟨files, scanned, ascending, member⟩ := scan_tree f tree
  refine ⟨files, scanned, ascending.byteAscending, member, fun paths perm => collect_of_scan tree scanned perm, ?_⟩
  exact fun names inner => select_eq_filter tree inner ascending member

theorem enumerations_agree_circle :
    ∃ files, SourceFilter.scan? ⟨none, [], "py"⟩ (.flat Pipeline.circleFiles) ⟨"/p"⟩ = some files ∧
      SourceFilter.select ⟨none, [], "py"⟩ (.flat Pipeline.circleFiles) ⟨"/p"⟩ [".//c.py", "./b.py", "c.py"] =
        files.filter fun file => isNamed [".//c.py", "./b.py", "c.py"] file && isNear file := by
  have tree : (FileSystem.flat Pipeline.circleFiles).IsTree ⟨"/p"⟩ ["p"] := FileSystem.isTree_flat (by decide)
  obtain ⟨files, scanned, -, -, -, selected⟩ := enumerations_agree ⟨none, [], "py"⟩ tree
  exact ⟨files, scanned, selected _ (by decide)⟩

/-! ## Distant files -/

section
open FileSystem (flatAt locationPath)
open Pipeline (distantDirectory singleFile)

private theorem isTree_distant :
    (flatAt distantDirectory singleFile).IsTree (locationPath distantDirectory) distantDirectory :=
  FileSystem.isTree_flatAt Pipeline.isName_distant Pipeline.isName_single (Nat.le_of_eq Pipeline.size_distant)

private theorem isName_beyond :
    ∀ name ∈ "d" :: distantDirectory, IsName name ∧ name.utf8ByteSize ≤ FileSystem.nameLimit := by
  intro name member
  rcases List.mem_cons.mp member with rfl | inside
  · decide
  · exact Pipeline.isName_distant name inside

private theorem entry_beyond :
    FileSystem.entry? (flatAt ("d" :: distantDirectory) singleFile) ("a.py" :: "d" :: distantDirectory) =
      some (.file []) := by
  have content : (flatAt ("d" :: distantDirectory) singleFile).contentBelow ("d" :: distantDirectory) ["a.py"] = some [] := by
    rw [FileSystem.contentBelow_flatAt]
    rfl
  have stands := FileSystem.contentBelow_eq_some_iff.mp content
  rwa [List.reverse_singleton, List.singleton_append] at stands

private theorem isTree_beyond :
    (flatAt ("d" :: distantDirectory) singleFile).IsTree (locationPath distantDirectory) distantDirectory := by
  have free := FileSystem.isLinkFree_flatAt isName_beyond Pipeline.isName_single
  have straight := FileSystem.isStraight_location fun name member => (Pipeline.isName_distant name member).1
  have inner := free.tree.parent _ _ _ List.nil_suffix entry_beyond
  have outer := free.tree.parent _ _ _ List.nil_suffix inner
  exact free.isTree straight (free.stat_location outer (Nat.le_of_eq Pipeline.size_distant))

private theorem isNear_below {id : String} :
    isNear (.below top id) = true ↔ (top.join ⟨id⟩).text.utf8ByteSize ≤ FileSystem.pathLimit := decide_eq_true_iff

private theorem isEntered_pair {outer inner : String} : FileSystem.isEntered top [outer, inner] = true ↔
    (top.join ⟨outer⟩).text.utf8ByteSize ≤ FileSystem.pathLimit := decide_eq_true_iff

/-- Nothing in the last directory that can be entered can be looked up by its path. -/
private theorem too_long {name : String} (named : IsName name) :
    FileSystem.pathLimit < ((locationPath distantDirectory).join ⟨name⟩).text.utf8ByteSize := by
  have deep : distantDirectory ≠ [] := List.cons_ne_nil _ _
  rw [Pipeline.size_join_location (fun name member => (Pipeline.isName_distant name member).1) deep named,
    Pipeline.size_distant]
  generalize FileSystem.pathLimit = limit
  omega

/-- A file in the last directory that can be entered is scanned and cannot be selected. A file in a directory inside it
    is not scanned. -/
theorem enumerations_differ_distant :
    (∃ files, (flatAt distantDirectory singleFile).IsTree (locationPath distantDirectory) distantDirectory ∧
      IsInner ⟨"a.py"⟩ ∧
      SourceFilter.scan? ⟨none, [], "py"⟩ (flatAt distantDirectory singleFile) (locationPath distantDirectory) =
        some files ∧
      SourceFilter.select ⟨none, [], "py"⟩ (flatAt distantDirectory singleFile) (locationPath distantDirectory) ["a.py"] ≠
        files.filter (isNamed ["a.py"])) ∧
    ∃ files, (flatAt ("d" :: distantDirectory) singleFile).IsTree (locationPath distantDirectory) distantDirectory ∧
      ((flatAt ("d" :: distantDirectory) singleFile).contentBelow distantDirectory ["d", "a.py"]).isSome ∧
      accepts ⟨none, [], "py"⟩ (ofNames ["d", "a.py"]) = true ∧
      SourceFilter.scan? ⟨none, [], "py"⟩ (flatAt ("d" :: distantDirectory) singleFile) (locationPath distantDirectory) =
        some files ∧
      .below (locationPath distantDirectory) (ofNames ["d", "a.py"]) ∉ files := by
  obtain ⟨files, scanned, ascending, member⟩ := scan_tree ⟨none, [], "py"⟩ isTree_distant
  obtain ⟨others, scanned', -, member'⟩ := scan_tree ⟨none, [], "py"⟩ isTree_beyond
  refine ⟨⟨files, isTree_distant, by decide, scanned, fun same => ?selected⟩, others, isTree_beyond, ?present, by decide,
    scanned', fun listed => ?entered⟩
  case selected =>
    have content : ((flatAt distantDirectory singleFile).contentBelow distantDirectory ["a.py"]).isSome := by
      rw [FileSystem.contentBelow_flatAt]
      rfl
    have inside : .below (locationPath distantDirectory) (ofNames ["a.py"]) ∈ files :=
      (member _).mpr ⟨["a.py"], ⟨content, FileSystem.isEntered_singleton isTree_distant.stat_root _⟩, rfl, by decide⟩
    have chosen := List.mem_filter.mpr ⟨inside, show isNamed ["a.py"] _ = true from rfl⟩
    rw [← same, mem_select_of_tree isTree_distant (by decide)] at chosen
    have near := isNear_below.mp chosen.2.2
    rw [ofNames_singleton] at near
    exact Nat.not_le.mpr (too_long (show IsName "a.py" by decide)) near
  case present =>
    rw [Option.isSome_iff_exists]
    refine ⟨[], FileSystem.contentBelow_eq_some_iff.mpr ?_⟩
    rw [List.reverse_cons, List.reverse_singleton, List.singleton_append, List.cons_append, List.singleton_append]
    exact entry_beyond
  case entered =>
    obtain ⟨parts, walked, shape, -⟩ := (member' _).mp listed
    have same := congrArg SourceFile.moduleId shape
    cases ofNames_injective ⟨by simp, by decide⟩ (isTree_beyond.areNames_of_isSome walked.present) same
    exact Nat.not_le.mpr (too_long (show IsName "d" by decide)) (isEntered_pair.mp walked.entered)

end
end ModuleGraph.SourceFilter
