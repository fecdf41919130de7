import ModuleGraph.Extraction.Run
import ModuleGraph.Proofs.FileSystem.Location
import ModuleGraph.Proofs.Path.Ids
import ModuleGraph.Proofs.SourceFilter

/-!
How the files of a project are written. Where all names are proper, the root of a project and the files that are
scanned or selected below it have paths in normal form, links or not
(`Extraction.exists_location_of_canonicalRoot`, `SourceFilter.Lists.exists_steps`). So two of those files are on the
same path if their paths have the same components, and no two of them have the same id
(`SourceFilter.Lists.ascending`).
-/
namespace ModuleGraph
open ModuleGraph.Path Text

theorem FileSystem.WellNamed.areNames {fs : FileSystem} {base : Location} {names : List String} {bytes : List UInt8}
    (named : fs.WellNamed) (filled : names ≠ []) (content : fs.contentBelow base names = some bytes) :
    AreNames names := by
  refine ⟨filled, fun name inside => ?_⟩
  exact named.entry _ _ (FileSystem.contentBelow_eq_some_iff.mp content) name (by simp [inside])

theorem FileSystem.exists_stat_of_isDirectory {fs : FileSystem} {path : Path} (directory : fs.isDirectory path = true) :
    ∃ loc, fs.stat path = .ok (loc, .directory) := by
  unfold isDirectory at directory
  split at directory
  · rename_i loc stands
    exact ⟨loc, stands⟩
  · cases directory

/-- A tree whose root is written as its location has that root. -/
theorem Extraction.canonicalRoot_of_tree {fs : FileSystem} (loc : Location)
    (tree : fs.IsTree (FileSystem.locationPath loc) loc) :
    canonicalRoot fs (FileSystem.locationPath loc) = .ok (FileSystem.locationPath loc) := by
  simp only [canonicalRoot, FileSystem.canonical, FileSystem.isDirectory, tree.stat_root, Except.map, if_true]

theorem Extraction.exists_location_of_canonicalRoot {fs : FileSystem} {root top : Path} (named : fs.WellNamed)
    (found : canonicalRoot fs root = .ok top) :
    ∃ loc, (∀ name ∈ loc, IsName name) ∧ top = FileSystem.locationPath loc ∧ fs.isDirectory top = true := by
  unfold canonicalRoot at found
  split at found
  · rename_i path known
    split at found
    · rename_i directory
      cases found
      obtain ⟨loc, isName, shape⟩ := named.canonical known
      exact ⟨loc, isName, shape, directory⟩
    · cases found
  · cases found

namespace SourceFilter
variable {fs : FileSystem} {f : SourceFilter} {top : Path} {steps : List (List Char)} {files : List SourceFile}
  {names : List String} {file : SourceFile} {name : String}

/-- The files of a project: all of its source files, or those among given names. -/
inductive Lists (f : SourceFilter) (fs : FileSystem) (top : Path) : List SourceFile → Prop
  | scanned {files : List SourceFile} (found : f.scan? fs top = some files) : Lists f fs top files
  | selected (names : List String) : Lists f fs top (f.select fs top names)

/-- The files that are scanned lie at names below the root. -/
theorem exists_names_of_scan (named : fs.WellNamed) (start : top.text ≠ "") (found : f.scan? fs top = some files)
    (member : file ∈ files) : ∃ names, AreNames names ∧ file = .below top (ofNames names) := by
  obtain ⟨path, inside, rfl, -⟩ := exists_path_of_scan found member
  unfold FileSystem.filesBelow at inside
  split at inside
  · rename_i base _
    obtain ⟨⟨loc, entry⟩, there, below⟩ := List.mem_filterMap.mp inside
    cases entry with
    | directory => cases below
    | link target => cases below
    | file bytes =>
      obtain ⟨names, -, -, ok, -, rfl⟩ :=
        FileSystem.path_of_entry start (fun _ _ filled content => named.areNames filled content) there below
      exact ⟨names, ok, by rw [moduleId_join_ofNames start ok]; rfl⟩
  · cases inside

/-- A scan gives files in the strict order of their ids, links or not. -/
theorem ascending_scan (named : fs.WellNamed) (found : f.scan? fs top = some files) : Ascending files := by
  unfold scan? at found
  split at found
  · rename_i directory
    cases found
    obtain ⟨base, stands⟩ := FileSystem.exists_stat_of_isDirectory directory
    exact ascending_collect (FileSystem.nodup_moduleIds stands fun _ _ filled content => named.areNames filled content)
  · cases found

theorem accepts_empty (f : SourceFilter) : f.accepts "" = false := by
  have none : f.hasSourceExtension "" = false := rfl
  rw [accepts, none]
  rfl

/-- A name that is read as a module id leads from a path in normal form to one in normal form. -/
theorem exists_steps_join_normalised (ok : AreSteps steps) (accepted : f.accepts (normalised name) = true) :
    ∃ more, AreSteps more ∧ (absolute steps).join ⟨normalised name⟩ = absolute more := by
  have cut := areSteps_pieces ⟨name⟩
  rw [normalised_eq_idOf] at accepted ⊢
  generalize (Path.mk name).isAbsolute = fromRoot at accepted ⊢
  cases fromRoot with
  | true => exact ⟨_, cut, if_pos isAbsolute_absolute⟩
  | false =>
    refine ⟨_, areSteps_append_iff.mpr ⟨ok, cut⟩, join_absolute ok cut fun none => ?_⟩
    have empty : f.accepts (idOf false []) = false := f.accepts_empty
    rw [none, empty] at accepted
    cases accepted

/-- The files of a project have paths in normal form. -/
theorem Lists.exists_steps (named : fs.WellNamed) (ok : AreSteps steps) (listed : f.Lists fs (absolute steps) files)
    (member : file ∈ files) : ∃ more, AreSteps more ∧ file.path = absolute more := by
  have start : (absolute steps).text ≠ "" := ne_empty_of_isAbsolute isAbsolute_absolute
  cases listed with
  | scanned found =>
    obtain ⟨names, areNames, rfl⟩ := exists_names_of_scan named start found member
    have cut := areSteps_names areNames.isName
    exact ⟨_, areSteps_append_iff.mpr ⟨ok, cut⟩, join_absolute ok cut (by simpa using areNames.ne_nil)⟩
  | selected names =>
    obtain ⟨shape, ⟨name, -, same⟩, accepted, -⟩ := mem_select.mp member
    rw [← same] at shape accepted
    obtain ⟨more, ok', joined⟩ := exists_steps_join_normalised ok accepted
    rw [shape]
    exact ⟨more, ok', joined⟩

/-- The files of a project are listed in the strict order of their ids. -/
theorem Lists.ascending (named : fs.WellNamed) (listed : f.Lists fs top files) : Ascending files := by
  cases listed with
  | scanned found => exact ascending_scan named found
  | selected names => exact ascending_select

end SourceFilter
end ModuleGraph
