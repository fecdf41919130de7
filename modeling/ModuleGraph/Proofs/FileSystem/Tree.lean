import ModuleGraph.Proofs.FileSystem.Lookup
import ModuleGraph.Proofs.OrderedMap
import Mathlib.Data.List.Induction

/-!
Source trees. Below a directory without links, names lead to a file exactly where there is one
(`IsTree.walk_names`), so the files that are found there are those that the tree holds
(`mem_filesBelow`) and each is read as it is, unless its path is too long (`read_join_iff`).
-/
namespace ModuleGraph.FileSystem
open Text ModuleGraph.Path

/-- The bytes of the file that names lead to from a location, the outermost name first. -/
def contentBelow (fs : FileSystem) (base : Location) (names : List String) : Option (List UInt8) :=
  match fs.entry? (names.reverse ++ base) with
  | some (.file bytes) => some bytes
  | _ => none

/-- Names lead to a file that a walk from a directory gets to. -/
structure IsWalked (fs : FileSystem) (root : Path) (base : Location) (names : List String) : Prop where
  present : (fs.contentBelow base names).isSome
  entered : isEntered root names = true

/-- A path leads to a directory without links in it. What is in it has a name that can be looked up and
    stands in a directory. -/
structure IsTree (fs : FileSystem) (root : Path) (base : Location) : Prop where
  stat_root : fs.stat root = .ok (base, .directory)
  directory : fs.entry? base = some .directory
  isName : ∀ name loc entry, base <:+ loc → fs.entry? (name :: loc) = some entry →
    IsName name ∧ name.utf8ByteSize ≤ nameLimit
  parent : ∀ name loc entry, base <:+ loc → fs.entry? (name :: loc) = some entry →
    fs.entry? loc = some .directory
  no_link : ∀ loc target, base <:+ loc → fs.entry? loc ≠ some (.link target)

variable {fs : FileSystem} {follow : Bool} {links : Nat} {found base loc : Location} {entry : Entry}
  {names : List String} {bytes : List UInt8} {root path : Path}

theorem IsTree.named (tree : fs.IsTree root base) : root.text ≠ "" := (leads_of_stat tree.stat_root).2.1

/-! ## Names that lead somewhere -/

theorem contentBelow_eq_some_iff :
    fs.contentBelow base names = some bytes ↔ fs.entry? (names.reverse ++ base) = some (.file bytes) := by
  unfold contentBelow
  split
  · rename_i there stands
    simp [stands]
  · rename_i other
    simpa using fun stands => other bytes stands

theorem IsTree.ne_of_file (tree : fs.IsTree root base) (there : fs.entry? loc = some (.file bytes)) :
    loc ≠ base := by
  rintro rfl
  have directory := tree.directory
  rw [there] at directory
  cases directory

/-- What has something below it is a directory. -/
theorem IsTree.directory_above (tree : fs.IsTree root base) {front : Location} (inside : base <:+ loc)
    (below : front ≠ []) (stands : fs.entry? (front ++ loc) = some entry) :
    fs.entry? loc = some .directory := by
  induction front generalizing entry with
  | nil => exact absurd rfl below
  | cons name rest ih =>
    have above := tree.parent name (rest ++ loc) entry (inside.trans (List.suffix_append _ _)) stands
    cases rest with
    | nil => exact above
    | cons second others => exact ih (by simp) above

theorem IsTree.areNames (tree : fs.IsTree root base)
    (content : fs.contentBelow base names = some bytes) : AreNames names := by
  have stands := contentBelow_eq_some_iff.mp content
  refine ⟨fun none => ?_, fun name member => ?_⟩
  · have other := tree.directory
    simp [none, other] at stands
  · obtain ⟨front, back, rfl⟩ := List.append_of_mem member
    have deep : (front ++ name :: back).reverse ++ base = back.reverse ++ name :: (front.reverse ++ base) := by
      simp
    rw [deep] at stands
    have inside : base <:+ front.reverse ++ base := List.suffix_append _ _
    cases back with
    | nil => exact (tree.isName name _ _ inside stands).1
    | cons second others =>
      have above := tree.directory_above (inside.trans (List.suffix_cons name _)) (by simp) stands
      exact (tree.isName name _ _ inside above).1

private theorem entry_below_iff (tree : fs.IsTree root base) (inside : base <:+ loc)
    (differ : fs.entry? loc ≠ some .directory) {front : Location} :
    found = front ++ loc ∧ fs.entry? found = some entry ↔
      front = [] ∧ found = loc ∧ fs.entry? loc = some entry := by
  constructor
  · rintro ⟨rfl, stands⟩
    by_cases last : front = []
    · subst last
      exact ⟨rfl, rfl, stands⟩
    · exact absurd (tree.directory_above inside last stands) differ
  · rintro ⟨rfl, rfl, stands⟩
    exact ⟨rfl, stands⟩

/-- Names lead to what stands at them, and nowhere else. -/
theorem IsTree.walk_names (tree : fs.IsTree root base) (inside : base <:+ loc)
    (start : fs.entry? loc = some .directory) (isName : ∀ name ∈ names, IsName name) :
    fs.walk follow links loc (names.map (·.toList)) = .ok (.present found entry) ↔
      found = names.reverse ++ loc ∧ fs.entry? found = some entry := by
  induction names generalizing loc with
  | nil =>
    simp only [List.map_nil, walk_nil, List.reverse_nil, List.nil_append, Except.ok.injEq,
      Found.present.injEq]
    constructor
    · rintro ⟨rfl, rfl⟩
      exact ⟨rfl, start⟩
    · rintro ⟨rfl, stands⟩
      exact ⟨rfl, Option.some.inj (start.symm.trans stands)⟩
  | cons name rest ih =>
    have deep : (name :: rest).reverse ++ loc = rest.reverse ++ (name :: loc) := by simp
    have within : base <:+ name :: loc := inside.trans (List.suffix_cons _ _)
    have named := isName name (by simp)
    rw [deep, List.map_cons]
    by_cases long : nameLimit < name.utf8ByteSize
    · have missing : fs.entry? (name :: loc) = none := by
        refine Option.eq_none_iff_forall_ne_some.mpr fun there stands => ?_
        exact absurd (tree.isName name loc there inside stands).2 (Nat.not_le.mpr long)
      rw [entry_below_iff tree within (by simp [missing]), missing, walk_long named.not_idle named.ne_up (by simpa using long)]
      simp
    have entryName : IsEntryName name.toList := isEntryName_toList named (Nat.not_lt.mp long)
    cases stands : fs.entry? (name :: loc) with
    | none =>
      rw [entry_below_iff tree within (by simp [stands]), stands,
        walk_none entryName (by simpa using stands)]
      split <;> simp
    | some there =>
      cases there with
      | directory =>
        rw [walk_directory entryName (by simpa using stands), String.ofList_toList]
        exact ih within stands fun other member => isName other (by simp [member])
      | file content =>
        rw [entry_below_iff tree within (by simp [stands]), stands,
          walk_file entryName (by simpa using stands)]
        by_cases last : rest = []
        · simp [last, eq_comm]
        · simp [last]
      | link target => exact absurd stands (tree.no_link _ target within)

/-! ## Files of a tree -/

theorem read_eq_ok_iff :
    fs.read path = .ok bytes ↔ ∃ found, fs.locate true path = .ok (.present found (.file bytes)) := by
  unfold read stat
  cases fs.locate true path with
  | error e => simp
  | ok end_ =>
    cases end_ with
    | absent loc => simp
    | present loc there => cases there <;> simp

theorem isFile_iff : fs.isFile path = true ↔ ∃ bytes, fs.read path = .ok bytes := by
  unfold isFile read
  cases fs.stat path with
  | error e => simp
  | ok end_ =>
    obtain ⟨loc, there⟩ := end_
    cases there <;> simp

/-- A file of a tree is read as it is, unless its path is too long; nothing else is read. -/
theorem IsTree.read_join_iff (tree : fs.IsTree root base) (ok : AreNames names) :
    fs.read (root.join ⟨ofNames names⟩) = .ok bytes ↔
      (root.join ⟨ofNames names⟩).text.utf8ByteSize ≤ pathLimit ∧
        fs.contentBelow base names = some bytes := by
  obtain ⟨left, located⟩ := locate_join tree.stat_root ok.relative ok.no_nul
  rw [read_eq_ok_iff, located, contentBelow_eq_some_iff]
  by_cases long : pathLimit < (root.join ⟨ofNames names⟩).text.utf8ByteSize
  · simp [long, Nat.not_le.mpr long]
  · rw [if_neg long, ok.pieces]
    simp only [tree.walk_names List.suffix_rfl tree.directory ok.isName, Nat.not_lt.mp long,
      true_and, exists_eq_left]

/-- How a file of a tree is read depends on its path and its content only. -/
theorem IsTree.read_join (tree : fs.IsTree root base) (content : fs.contentBelow base names = some bytes) :
    fs.read (root.join ⟨ofNames names⟩) =
      if pathLimit < (root.join ⟨ofNames names⟩).text.utf8ByteSize then .error .nameTooLong
      else .ok bytes := by
  have ok := tree.areNames content
  by_cases long : pathLimit < (root.join ⟨ofNames names⟩).text.utf8ByteSize
  · obtain ⟨left, located⟩ := locate_join tree.stat_root ok.relative ok.no_nul
    rw [read, stat, located, if_pos long, if_pos long]
  · rw [if_neg long]
    exact (tree.read_join_iff ok).mpr ⟨Nat.not_lt.mp long, content⟩

theorem IsTree.isFile_join_iff (tree : fs.IsTree root base) (ok : AreNames names) :
    fs.isFile (root.join ⟨ofNames names⟩) = true ↔
      (root.join ⟨ofNames names⟩).text.utf8ByteSize ≤ pathLimit ∧
        (fs.contentBelow base names).isSome := by
  simp only [isFile_iff, tree.read_join_iff ok, exists_and_left, Option.isSome_iff_exists]

theorem IsTree.areNames_of_isSome (tree : fs.IsTree root base)
    (present : (fs.contentBelow base names).isSome) : AreNames names := by
  obtain ⟨bytes, content⟩ := Option.isSome_iff_exists.mp present
  exact tree.areNames content

theorem namesBelow?_eq_some_iff :
    namesBelow? base loc = some names ↔ names ≠ [] ∧ loc = names.reverse ++ base := by
  unfold namesBelow?
  constructor
  · intro below
    split at below
    · rename_i inside
      obtain ⟨within, longer⟩ := inside
      obtain ⟨front, rfl⟩ := List.isSuffixOf_iff_suffix.mp within
      have length : (front ++ base).length - base.length = front.length := by simp
      rw [length, List.take_left] at below
      cases below
      refine ⟨fun none => ?_, by simp⟩
      simp [List.reverse_eq_nil_iff.mp none] at longer
    · cases below
  · rintro ⟨nonempty, rfl⟩
    have longer : 0 < names.length := List.length_pos_iff.mpr nonempty
    simp [longer]

theorem joinNames_eq (named : root.text ≠ "") (ok : AreNames names) :
    joinNames root names = root.join ⟨ofNames names⟩ := by
  obtain ⟨nonempty, isName⟩ := ok
  induction names using List.reverseRecOn with
  | nil => exact absurd rfl nonempty
  | append_singleton front name ih =>
    have last := isName name (by simp)
    cases front with
    | nil => rw [List.nil_append, ofNames_singleton]; rfl
    | cons first rest =>
      have above : ∀ other ∈ first :: rest, IsName other := fun other member =>
        isName other (List.mem_append_left _ member)
      have outer := ih (by simp) above
      rw [joinNames] at outer ⊢
      rw [List.foldl_append, outer]
      exact join_join_name named ⟨by simp, above⟩ last

/-- A walk gets to whatever can be looked up. -/
theorem isEntered_of_near (named : root.text ≠ "") (ok : AreNames names)
    (near : (root.join ⟨ofNames names⟩).text.utf8ByteSize ≤ pathLimit) : isEntered root names = true := by
  obtain ⟨front, name, rfl, nameOk⟩ := ok.exists_concat
  have joined : joinNames root (front ++ [name]) = (joinNames root front).join ⟨name⟩ := by
    rw [joinNames, joinNames, List.foldl_append]
    rfl
  rw [← joinNames_eq named ok, joined] at near
  rw [isEntered, List.dropLast_concat, decide_eq_true_iff]
  exact Nat.le_trans (utf8ByteSize_le_join nameOk.relative) near

/-- A walk from a directory gets to the names in it. -/
theorem isEntered_singleton (stands : fs.stat root = .ok (base, .directory)) (name : String) :
    isEntered root [name] = true := by
  obtain ⟨-, -, fits, -⟩ := leads_of_stat stands
  exact decide_eq_true fits

/-- An entry that is listed below a root stands at names below its location. -/
theorem path_of_entry (start : root.text ≠ "")
    (areNames : ∀ names bytes, names ≠ [] → fs.contentBelow base names = some bytes → AreNames names)
    (member : (loc, Entry.file bytes) ∈ fs.entries.entries)
    (below : ((namesBelow? base loc).filter (isEntered root)).map (joinNames root) = some path) :
    ∃ names, loc = names.reverse ++ base ∧ fs.contentBelow base names = some bytes ∧ AreNames names ∧
      isEntered root names = true ∧ path = root.join ⟨ofNames names⟩ := by
  obtain ⟨names, cut, rfl⟩ := Option.map_eq_some_iff.mp below
  obtain ⟨cut, entered⟩ := Option.filter_eq_some_iff.mp cut
  obtain ⟨nonempty, rfl⟩ := namesBelow?_eq_some_iff.mp cut
  have content : fs.contentBelow base names = some bytes := by
    rw [contentBelow_eq_some_iff]
    unfold entry?
    rw [if_neg (by simp [nonempty])]
    exact OrderedMap.mem_entries_iff.mp member
  have ok := areNames names bytes nonempty content
  exact ⟨names, rfl, content, ok, entered, joinNames_eq start ok⟩

/-- The files found below a root are those of its tree that a walk gets to. -/
theorem IsTree.mem_filesBelow (tree : fs.IsTree root base) :
    path ∈ fs.filesBelow root ↔ ∃ names, fs.IsWalked root base names ∧ path = root.join ⟨ofNames names⟩ := by
  rw [filesBelow, tree.stat_root]
  simp only [List.mem_filterMap, Prod.exists]
  constructor
  · rintro ⟨loc, there, member, below⟩
    cases there with
    | file bytes =>
      obtain ⟨names, _, content, -, entered, rfl⟩ :=
        path_of_entry tree.named (fun _ _ _ content => tree.areNames content) member below
      exact ⟨names, ⟨by simp [content], entered⟩, rfl⟩
    | directory => cases below
    | link target => cases below
  · rintro ⟨names, ⟨present, entered⟩, rfl⟩
    obtain ⟨bytes, content⟩ := Option.isSome_iff_exists.mp present
    have ok := tree.areNames content
    have stands := contentBelow_eq_some_iff.mp content
    unfold entry? at stands
    rw [if_neg (by simp [ok.ne_nil])] at stands
    refine ⟨_, _, OrderedMap.mem_entries_iff.mpr stands, ?_⟩
    have cut : (namesBelow? base (names.reverse ++ base)).filter (isEntered root) = some names :=
      Option.filter_eq_some_iff.mpr ⟨namesBelow?_eq_some_iff.mpr ⟨ok.ne_nil, rfl⟩, entered⟩
    simp only [cut, Option.map_some, joinNames_eq tree.named ok]

/-- Files with proper names have different ids if they are different. -/
theorem nodup_moduleIds (stands : fs.stat root = .ok (base, .directory))
    (areNames : ∀ names bytes, names ≠ [] → fs.contentBelow base names = some bytes → AreNames names) :
    ((fs.filesBelow root).map (moduleId root)).Nodup := by
  have start : root.text ≠ "" := (leads_of_stat stands).2.1
  rw [filesBelow, stands, List.Nodup, List.pairwise_map, List.pairwise_filterMap]
  have distinct : fs.entries.entries.Pairwise fun a b => a.1 ≠ b.1 :=
    List.pairwise_map.mp fs.entries.nodup
  refine distinct.imp_of_mem ?_
  rintro ⟨loc, there⟩ ⟨loc', there'⟩ member member' differ path found path' found' same
  cases there with
  | directory => cases found
  | link target => cases found
  | file bytes =>
    cases there' with
    | directory => cases found'
    | link target => cases found'
    | file bytes' =>
      obtain ⟨names, rfl, content, ok, -, rfl⟩ := path_of_entry start areNames member found
      obtain ⟨names', rfl, content', ok', -, rfl⟩ := path_of_entry start areNames member' found'
      rw [moduleId_join_ofNames start ok, moduleId_join_ofNames start ok'] at same
      exact differ (by rw [ofNames_injective ok ok' same])

theorem IsTree.nodup_moduleIds (tree : fs.IsTree root base) : ((fs.filesBelow root).map (moduleId root)).Nodup :=
  FileSystem.nodup_moduleIds tree.stat_root fun _ _ _ content => tree.areNames content

end ModuleGraph.FileSystem
