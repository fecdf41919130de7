import Mathlib.Data.Finset.Card
import ModuleGraph.Change.Basic
import ModuleGraph.Proofs.Path.Ids
import ModuleGraph.Proofs.SourceFilter

/-!
What changed between two trees. A change set that is exact (`ChangeSet.Between`) names each file whose
content differs, and leaving out the files without the source extension leaves no source file out
(`endsInExtension_of_accepts`).
-/
namespace ModuleGraph
open ModuleGraph.Path Text

namespace SortedSet
variable {s t : SortedSet} {x : String}

private theorem mem_foldl_insert (xs : List String) : x ∈ xs.foldl insert s ↔ x ∈ s ∨ x ∈ xs := by
  induction xs generalizing s with
  | nil => simp
  | cons y rest ih =>
    rw [List.foldl_cons, ih, mem_insert, List.mem_cons]
    grind

theorem not_mem_empty : x ∉ empty := List.not_mem_nil

theorem mem_union : x ∈ s.union t ↔ x ∈ s ∨ x ∈ t := mem_foldl_insert t.toList

theorem mem_ofList {xs : List String} : x ∈ ofList xs ↔ x ∈ xs := by
  rw [ofList, mem_foldl_insert]
  exact or_iff_right not_mem_empty

theorem mem_toList : x ∈ s.toList ↔ x ∈ s := Iff.rfl

theorem nodup (s : SortedSet) : s.toList.Nodup := by
  refine s.ascending.imp fun {x y} less => ?_
  rintro rfl
  exact String.lt_irrefl x less

theorem ext_mem (same : ∀ x, x ∈ s ↔ x ∈ t) : s = t := by
  have perm : s.toList.Perm t.toList := (List.perm_ext_iff_of_nodup s.nodup t.nodup).mpr same
  refine ext (perm.eq_of_pairwise ?_ s.ascending t.ascending)
  intro x y _ _ less more
  exact absurd (String.lt_trans less more) (String.lt_irrefl x)

theorem isEmpty_iff : s.isEmpty = true ↔ ∀ x, x ∉ s := by
  rw [isEmpty, List.isEmpty_iff, List.eq_nil_iff_forall_not_mem]
  rfl

end SortedSet

namespace ChangeSet
variable {c : ChangeSet} {extension path : String} {names : List String}
  {old new : List String → Option (List UInt8)}

/-- A change set names exactly the files that differ between two trees, each given by what its files
    hold, and says how they differ. -/
structure Between (c : ChangeSet) (old new : List String → Option (List UInt8)) : Prop where
  mem_added_iff : ∀ path, path ∈ c.added ↔
    ∃ names, path = ofNames names ∧ old names = none ∧ (new names).isSome
  mem_modified_iff : ∀ path, path ∈ c.modified ↔
    ∃ names, path = ofNames names ∧ (old names).isSome ∧ (new names).isSome ∧ old names ≠ new names
  mem_deleted_iff : ∀ path, path ∈ c.deleted ↔
    ∃ names, path = ofNames names ∧ (old names).isSome ∧ new names = none

/-- The paths of a change set, each once, however they changed. -/
def paths (c : ChangeSet) : Finset String :=
  (c.added.toList ++ c.modified.toList ++ c.deleted.toList).toFinset

theorem size_allFiles (c : ChangeSet) : c.allFiles.size = c.paths.card := by
  have same : c.paths = c.allFiles.toList.toFinset := by
    ext path
    simp only [paths, List.mem_toFinset, List.mem_append, SortedSet.mem_toList, allFiles, changedFiles,
      SortedSet.mem_union]
  rw [same, List.toFinset_card_of_nodup c.allFiles.nodup]
  rfl

theorem mem_changedFiles_filtered : path ∈ (c.filtered extension).changedFiles ↔
    endsInExtension extension path = true ∧ (path ∈ c.added ∨ path ∈ c.modified) := by
  rw [changedFiles, SortedSet.mem_union, filtered, SortedSet.mem_filter, SortedSet.mem_filter]
  grind

theorem mem_deleted_filtered : path ∈ (c.filtered extension).deleted ↔
    endsInExtension extension path = true ∧ path ∈ c.deleted := by
  rw [filtered, SortedSet.mem_filter, and_comm]

/-- The changed files are those whose content is new. -/
theorem Between.mem_changed_iff (precise : c.Between old new) :
    path ∈ (c.filtered extension).changedFiles ↔ endsInExtension extension path = true ∧
      ∃ names, path = ofNames names ∧ (new names).isSome ∧ old names ≠ new names := by
  rw [mem_changedFiles_filtered, precise.mem_added_iff, precise.mem_modified_iff]
  refine and_congr_right fun _ => ?_
  constructor
  · rintro (⟨names, same, fresh, present⟩ | ⟨names, same, _, present, differ⟩)
    · refine ⟨names, same, present, fun equal => ?_⟩
      rw [← equal, fresh] at present
      cases present
    · exact ⟨names, same, present, differ⟩
  · rintro ⟨names, same, present, differ⟩
    cases before : old names with
    | none => exact .inl ⟨names, same, before, present⟩
    | some bytes => exact .inr ⟨names, same, by simp [before], present, differ⟩

/-- The ids of the changed files, where names are those that files can have. -/
theorem Between.exists_changed_iff {id : String} (precise : c.Between old new)
    (valid : ∀ names, (new names).isSome → AreNames names) :
    (∃ path ∈ (c.filtered extension).changedFiles, normalised path = id) ↔
      endsInExtension extension id = true ∧
        ∃ names, AreNames names ∧ id = ofNames names ∧ (new names).isSome ∧ old names ≠ new names := by
  constructor
  · rintro ⟨path, member, rfl⟩
    obtain ⟨ends, names, rfl, present, differ⟩ := precise.mem_changed_iff.mp member
    have ok := valid names present
    rw [normalised_ofNames ok]
    exact ⟨ends, names, ok, rfl, present, differ⟩
  · rintro ⟨ends, names, ok, rfl, present, differ⟩
    exact ⟨_, precise.mem_changed_iff.mpr ⟨ends, names, rfl, present, differ⟩, normalised_ofNames ok⟩

/-- The ids of the deleted files, where names are those that files can have. -/
theorem Between.exists_deleted_iff {id : String} (precise : c.Between old new)
    (valid : ∀ names, (old names).isSome → AreNames names) :
    (∃ path ∈ (c.filtered extension).deleted, normalised path = id) ↔
      endsInExtension extension id = true ∧
        ∃ names, AreNames names ∧ id = ofNames names ∧ (old names).isSome ∧ new names = none := by
  simp only [mem_deleted_filtered, precise.mem_deleted_iff]
  constructor
  · rintro ⟨path, ⟨ends, names, rfl, present, gone⟩, rfl⟩
    have ok := valid names present
    rw [normalised_ofNames ok]
    exact ⟨ends, names, ok, rfl, present, gone⟩
  · rintro ⟨ends, names, ok, rfl, present, gone⟩
    exact ⟨_, ⟨ends, names, rfl, present, gone⟩, normalised_ofNames ok⟩

private theorem exists_names_iff {P : List String → Prop} (ok : AreNames names) :
    (∃ others, AreNames others ∧ ofNames names = ofNames others ∧ P others) ↔ P names := by
  constructor
  · rintro ⟨others, valid, same, holds⟩
    rwa [ofNames_injective ok valid same]
  · exact fun holds => ⟨names, ok, rfl, holds⟩

theorem Between.changed_names_iff (precise : c.Between old new) (extension : String)
    (valid : ∀ names, (new names).isSome → AreNames names) (ok : AreNames names) :
    (∃ path ∈ (c.filtered extension).changedFiles, normalised path = ofNames names) ↔
      endsInExtension extension (ofNames names) = true ∧ (new names).isSome ∧
        old names ≠ new names := by
  rw [precise.exists_changed_iff valid, exists_names_iff ok]

theorem Between.deleted_names_iff (precise : c.Between old new) (extension : String)
    (valid : ∀ names, (old names).isSome → AreNames names) (ok : AreNames names) :
    (∃ path ∈ (c.filtered extension).deleted, normalised path = ofNames names) ↔
      endsInExtension extension (ofNames names) = true ∧ (old names).isSome ∧ new names = none := by
  rw [precise.exists_deleted_iff valid, exists_names_iff ok]

end ChangeSet

/-! ## Extensions -/

private theorem ends_of_extension {name extension : String} {path : Path}
    (named : path.fileName? = some name) (extended : path.extension? = some extension) :
    ∃ stem, name.toList = stem ++ '.' :: extension.toList := by
  rw [extension?, named] at extended
  simp only at extended
  have whole := List.takeWhile_append_dropWhile (p := (· != '.')) (l := name.toList.reverse)
  cases cut : name.toList.reverse.dropWhile (· != '.') with
  | nil => simp [cut] at extended
  | cons dot stem =>
    cases stem with
    | nil => simp [cut] at extended
    | cons c rest =>
      have isDot : dot = '.' := by
        have head := List.head?_dropWhile_not (· != '.') name.toList.reverse
        simpa [cut] using head
      simp only [cut, Option.some.injEq] at extended
      subst isDot
      rw [cut] at whole
      refine ⟨(c :: rest).reverse, ?_⟩
      rw [← extended, String.toList_ofList]
      have back := congrArg List.reverse whole
      simpa using back.symm

/-- A module id with the source extension ends in it. -/
theorem SourceFilter.endsInExtension_of_hasSourceExtension {f : SourceFilter} {included excluded : List String}
    {extension id : String} (made : ofPatterns included excluded extension = .ok f) (isId : IsId id)
    (source : f.hasSourceExtension id = true) : ChangeSet.endsInExtension extension id = true := by
  have extended : extension? ⟨id⟩ = some f.extension := by simpa [hasSourceExtension] using source
  obtain ⟨name, named⟩ : ∃ name, fileName? ⟨id⟩ = some name := by
    refine Option.ne_none_iff_exists'.mp fun none => ?_
    rw [extension?, none] at extended
    cases extended
  obtain ⟨stem, tail⟩ := ends_of_extension named extended
  obtain ⟨start, whole⟩ := isId.toList_eq_append named
  rw [ChangeSet.endsInExtension, ← extension_ofPatterns made, whole, tail, ← List.append_assoc]
  exact List.isSuffixOf_iff_suffix.mpr (List.suffix_append _ _)

theorem SourceFilter.hasSourceExtension_of_accepts {f : SourceFilter} {id : String} (accepted : f.accepts id = true) :
    f.hasSourceExtension id = true := by
  simp only [accepts, Bool.and_eq_true] at accepted
  exact accepted.1.1

/-- No source file is left out with the files that lack the extension. -/
theorem SourceFilter.endsInExtension_of_accepts {f : SourceFilter} {included excluded : List String}
    {extension : String} {names : List String}
    (made : ofPatterns included excluded extension = .ok f) (ok : AreNames names)
    (accepted : f.accepts (ofNames names) = true) :
    ChangeSet.endsInExtension extension (ofNames names) = true :=
  endsInExtension_of_hasSourceExtension made (isId_iff.mpr (normalised_ofNames ok))
    (hasSourceExtension_of_accepts accepted)

/-- A path is left in each part of a change set that it is in. -/
structure ChangeSet.Keeps (c filtered : ChangeSet) (path : String) : Prop where
  added : path ∈ c.added → path ∈ filtered.added
  modified : path ∈ c.modified → path ∈ filtered.modified
  deleted : path ∈ c.deleted → path ∈ filtered.deleted

theorem ChangeSet.keeps_filtered {c : ChangeSet} {extension path : String}
    (ends : endsInExtension extension path = true) : c.Keeps (c.filtered extension) path where
  added member := SortedSet.mem_filter.mpr ⟨member, ends⟩
  modified member := SortedSet.mem_filter.mpr ⟨member, ends⟩
  deleted member := SortedSet.mem_filter.mpr ⟨member, ends⟩

/-- No change to a source file is left out, be the file known by a path in normal form with the source extension or by
    a scan. -/
theorem ChangeSet.filtered_keeps_sources {f : SourceFilter} {included excluded : List String} {extension : String}
    (made : SourceFilter.ofPatterns included excluded extension = .ok f) (c : ChangeSet) :
    (∀ path, normalised path = path → f.hasSourceExtension path = true → c.Keeps (c.filtered extension) path) ∧
    ∀ fs root files, f.scan? fs root = some files → ∀ file ∈ files, c.Keeps (c.filtered extension) file.moduleId := by
  refine ⟨fun path normal source => ?_, fun fs root files scanned file member => ?_⟩
  · exact keeps_filtered (SourceFilter.endsInExtension_of_hasSourceExtension made (isId_iff.mpr normal) source)
  · obtain ⟨path, -, rfl, accepted⟩ := SourceFilter.exists_path_of_scan scanned member
    exact keeps_filtered (SourceFilter.endsInExtension_of_hasSourceExtension made (isId_moduleId root path)
      (SourceFilter.hasSourceExtension_of_accepts accepted))

theorem ChangeSet.filtered_keeps_sources_hidden :
    (⟨.ofList ["/lib/.x..py"], .empty, .ofList ["/lib/.x..py", ".py"]⟩ : ChangeSet).Keeps
      ((⟨.ofList ["/lib/.x..py"], .empty, .ofList ["/lib/.x..py", ".py"]⟩ : ChangeSet).filtered "..py")
      "/lib/.x..py" := by
  have made : SourceFilter.ofPatterns [] [] "..py" = .ok ⟨none, [], "py"⟩ := rfl
  exact (filtered_keeps_sources made _).1 _ (by decide) (by decide)

end ModuleGraph
