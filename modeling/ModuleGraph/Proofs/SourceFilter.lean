import ModuleGraph.SourceFilter
import ModuleGraph.SortedSet
import ModuleGraph.Proofs.FileSystem.Tree
import ModuleGraph.Proofs.Sorting

/-!
The two ways to enumerate source files. A scan of a tree gives the accepted files of the tree
(`scan_tree`), a selection gives the accepted ones among the files that are asked for (`mem_select`), and
either gives them in the strict order of their ids.
-/
namespace ModuleGraph

/-- The source file with an id below a root. -/
def SourceFile.below (root : Path) (id : String) : SourceFile := ⟨root.join ⟨id⟩, id⟩

namespace SourceFilter
open ModuleGraph.Path Text

/-- Files are in the strict order of their ids. -/
def Ascending (files : List SourceFile) : Prop := files.Pairwise fun a b => a.moduleId < b.moduleId

variable {f : SourceFilter} {fs : FileSystem} {root : Path} {base : Location}
  {files : List SourceFile} {file : SourceFile} {names : List String}

theorem Ascending.nodup (ascending : Ascending files) : (files.map (·.moduleId)).Nodup := by
  refine List.pairwise_map.mpr (ascending.imp fun {a b} less same => ?_)
  rw [same] at less
  exact String.lt_irrefl _ less

/-- Files in strict order are the same list if they are the same files. -/
theorem Ascending.ext {others : List SourceFile} (ascending : Ascending files) (ascending' : Ascending others)
    (same : ∀ file, file ∈ files ↔ file ∈ others) : files = others :=
  eq_of_strict (fun _ _ less greater => String.lt_irrefl _ (String.lt_trans less greater)) ascending
    ascending' same

/-! ## Sorting -/

theorem sortById_perm (files : List SourceFile) : (sortById files).Perm files := List.mergeSort_perm _ _

theorem sortById_pairwise (files : List SourceFile) :
    (sortById files).Pairwise fun a b => a.moduleId ≤ b.moduleId := by
  have sorted : (sortById files).Pairwise fun a b => (!(b.moduleId < a.moduleId)) = true :=
    List.pairwise_mergeSort
      (fun a b c front back => by
        simp only [Bool.not_eq_true', decide_eq_false_iff_not, String.not_lt] at front back ⊢
        exact String.le_trans front back)
      (fun a b => by
        simp only [Bool.or_eq_true, Bool.not_eq_true', decide_eq_false_iff_not, String.not_lt]
        exact String.le_total _ _) files
  refine sorted.imp fun {a b} ordered => ?_
  simp only [Bool.not_eq_true', decide_eq_false_iff_not, String.not_lt] at ordered
  exact ordered

private theorem lt_of_le_of_ne {a b : String} (less : a ≤ b) (differ : a ≠ b) : a < b :=
  SortedSet.lt_of_not_lt_of_ne (String.not_lt.mpr less) differ.symm

/-- Sorted files are in strict order if their ids differ. -/
theorem ascending_sortById (distinct : (files.map (·.moduleId)).Nodup) : Ascending (sortById files) := by
  have differ : (sortById files).Pairwise fun a b => a.moduleId ≠ b.moduleId :=
    List.pairwise_map.mp (((sortById_perm files).map _).nodup_iff.mpr distinct)
  exact ((sortById_pairwise files).and differ).imp fun both => lt_of_le_of_ne both.1 both.2

theorem dropRepeated_subset (files : List SourceFile) : dropRepeated files ⊆ files := by
  fun_induction dropRepeated files with
  | case1 a b rest same ih =>
    intro file kept
    rcases List.mem_cons.mp (ih kept) with here | later
    · simp [here]
    · simp [later]
  | case2 a b rest differ ih => exact List.cons_subset_cons a ih
  | case3 files short => exact fun _ => id

/-- Of files with the same id one is kept. -/
theorem exists_mem_dropRepeated (member : file ∈ files) :
    ∃ kept ∈ dropRepeated files, kept.moduleId = file.moduleId := by
  fun_induction dropRepeated files generalizing file with
  | case1 a b rest same ih =>
    rcases List.mem_cons.mp member with rfl | later
    · exact ih (by simp)
    rcases List.mem_cons.mp later with rfl | later
    · have first : a ∈ a :: rest := by simp
      obtain ⟨kept, inside, equal⟩ := ih first
      exact ⟨kept, inside, equal.trans same⟩
    · exact ih (by simp [later])
  | case2 a b rest differ ih =>
    rcases List.mem_cons.mp member with rfl | later
    · exact ⟨file, by simp, rfl⟩
    · obtain ⟨kept, inside, equal⟩ := ih later
      exact ⟨kept, by simp [inside], equal⟩
  | case3 files short => exact ⟨file, member, rfl⟩

theorem ascending_dropRepeated (sorted : files.Pairwise fun a b => a.moduleId ≤ b.moduleId) :
    Ascending (dropRepeated files) := by
  fun_induction dropRepeated files with
  | case1 a b rest same ih =>
    exact ih (sorted.sublist ((List.sublist_cons_self b rest).cons_cons a))
  | case2 a b rest differ ih =>
    obtain ⟨least, later⟩ := List.pairwise_cons.mp sorted
    refine List.pairwise_cons.mpr ⟨fun file kept => ?_, ih later⟩
    have first := lt_of_le_of_ne (least b (by simp)) differ
    rcases List.mem_cons.mp (dropRepeated_subset _ kept) with rfl | behind
    · exact first
    · by_cases equal : b.moduleId = file.moduleId
      · rwa [← equal]
      · exact String.lt_trans first
          (lt_of_le_of_ne ((List.pairwise_cons.mp later).1 file behind) equal)
  | case3 files short =>
    match files with
    | [] => exact .nil
    | [a] => exact List.pairwise_singleton _ a
    | a :: b :: rest => exact (short a b rest rfl).elim

/-! ## Selections -/

/-- A selection holds the accepted files among those that are asked for. -/
theorem mem_select :
    file ∈ f.select fs root names ↔
      file = .below root file.moduleId ∧ (∃ name ∈ names, normalised name = file.moduleId) ∧
        f.accepts file.moduleId = true ∧ fs.isFile file.path = true := by
  have listed {file : SourceFile} : file ∈ (names.map fun name =>
      (⟨root.join ⟨normalised name⟩, normalised name⟩ : SourceFile)).filter
        (fun file => f.accepts file.moduleId && fs.isFile file.path) ↔
      file = .below root file.moduleId ∧ (∃ name ∈ names, normalised name = file.moduleId) ∧
        f.accepts file.moduleId = true ∧ fs.isFile file.path = true := by
    rw [List.mem_filter, List.mem_map, Bool.and_eq_true]
    constructor
    · rintro ⟨⟨name, member, rfl⟩, accepted, present⟩
      exact ⟨rfl, ⟨name, member, rfl⟩, accepted, present⟩
    · rintro ⟨shape, ⟨name, member, same⟩, accepted, present⟩
      refine ⟨⟨name, member, ?_⟩, accepted, present⟩
      rw [same]
      exact shape.symm
  constructor
  · intro kept
    exact listed.mp ((sortById_perm _).mem_iff.mp (dropRepeated_subset _ kept))
  · intro wanted
    obtain ⟨kept, inside, same⟩ := exists_mem_dropRepeated
      ((sortById_perm _).mem_iff.mpr (listed.mpr wanted))
    have shape := (listed.mp ((sortById_perm _).mem_iff.mp (dropRepeated_subset _ inside))).1
    rw [same, ← wanted.1] at shape
    rw [← shape]
    exact inside

theorem ascending_select : Ascending (f.select fs root names) :=
  ascending_dropRepeated (sortById_pairwise _)

/-! ## Scans -/

theorem mem_collect {paths : List Path} : file ∈ f.collect root paths ↔
    ∃ path ∈ paths, file = ⟨path, moduleId root path⟩ ∧ f.accepts file.moduleId = true := by
  rw [collect, (sortById_perm _).mem_iff, List.mem_filter, List.mem_map]
  constructor
  · rintro ⟨⟨path, inside, rfl⟩, accepted⟩
    exact ⟨path, inside, rfl, accepted⟩
  · rintro ⟨path, inside, rfl, accepted⟩
    exact ⟨⟨path, inside, rfl⟩, accepted⟩

theorem ascending_collect {paths : List Path} (distinct : (paths.map (moduleId root)).Nodup) :
    Ascending (f.collect root paths) := by
  refine ascending_sortById (List.Nodup.sublist (List.filter_sublist.map _) ?_)
  rwa [List.map_map]

/-- The files are the same in whatever order a walk comes by them. -/
theorem collect_perm {paths others : List Path} (distinct : (paths.map (moduleId root)).Nodup)
    (perm : others.Perm paths) : f.collect root others = f.collect root paths := by
  have distinct' := (perm.map _).nodup_iff.mpr distinct
  refine (ascending_collect distinct').ext (ascending_collect distinct) fun file => ?_
  simp only [mem_collect, perm.mem_iff]

/-- What is scanned are accepted files that a walk finds, each with the id of its path. -/
theorem exists_path_of_scan (found : f.scan? fs root = some files) (member : file ∈ files) :
    ∃ path ∈ fs.filesBelow root, file = ⟨path, moduleId root path⟩ ∧ f.accepts file.moduleId = true := by
  unfold scan? at found
  split at found
  · cases found
    exact mem_collect.mp member
  · cases found

theorem accepts_of_scan (found : f.scan? fs root = some files) (member : file ∈ files) :
    f.accepts file.moduleId = true := by
  obtain ⟨path, -, -, accepted⟩ := exists_path_of_scan found member
  exact accepted

/-- A tree is scanned, and what is found are the accepted files that a walk gets to. -/
theorem scan_tree (f : SourceFilter) (tree : fs.IsTree root base) :
    ∃ files, f.scan? fs root = some files ∧ Ascending files ∧ ∀ file, file ∈ files ↔
      ∃ names, fs.IsWalked root base names ∧ file = .below root (ofNames names) ∧
        f.accepts (ofNames names) = true := by
  have directory : fs.isDirectory root = true := by simp [FileSystem.isDirectory, tree.stat_root]
  refine ⟨_, by rw [scan?, if_pos directory], ascending_collect tree.nodup_moduleIds, fun file => ?_⟩
  rw [mem_collect]
  constructor
  · rintro ⟨path, member, rfl, accepted⟩
    obtain ⟨names, walked, rfl⟩ := tree.mem_filesBelow.mp member
    simp only [moduleId_join_ofNames tree.named (tree.areNames_of_isSome walked.present)] at accepted ⊢
    exact ⟨names, walked, rfl, accepted⟩
  · rintro ⟨names, walked, rfl, accepted⟩
    refine ⟨_, tree.mem_filesBelow.mpr ⟨names, walked, rfl⟩, ?_, accepted⟩
    rw [moduleId_join_ofNames tree.named (tree.areNames_of_isSome walked.present)]
    rfl

/-! ## Extensions -/

theorem extension_ofPatterns {included excluded : List String} {extension : String}
    (made : ofPatterns included excluded extension = .ok f) : f.extension = dropLeadingDots extension := by
  unfold ofPatterns at made
  cases first : compileAll included with
  | error e => simp [first, bind, Except.bind] at made
  | ok included' =>
    cases second : compileAll excluded with
    | error e => simp [first, second, bind, Except.bind] at made
    | ok excluded' =>
      simp only [first, second, bind, Except.bind, Except.ok.injEq] at made
      rw [← made]

end SourceFilter
end ModuleGraph
