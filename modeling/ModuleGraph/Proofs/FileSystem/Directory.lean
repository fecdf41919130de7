import ModuleGraph.Proofs.FileSystem.Tree

/-!
Directories without links in them (`IsPlainDirectory`). What stands at a name there says how every operation on the
path of that name ends: what is read (`read_iff`), whether a file can be written (`write_iff`) and whether one can be
removed (`removeFile_eq`), which a directory at the name prevents. A change of a file leaves all other names alone and
the directory plain (`AltersFile`, `IsPlainDirectory.of_altersFile`).
-/
namespace ModuleGraph.FileSystem
open Text ModuleGraph.Path

variable {fs fs' : FileSystem} {path : Path} {loc other : Location} {entry : Entry} {name : String}
  {bytes : List UInt8}

/-! ## Entries -/

theorem entry?_setEntry : entry? (fs.setEntry (name :: loc) entry) other =
    if name :: loc = other then some entry else fs.entry? other := by
  unfold entry? setEntry
  rw [OrderedMap.get?_insert]
  by_cases root : other = []
  · simp [root]
  · simp [root]

theorem entry?_dropTree : entry? (fs.dropTree loc) other =
    if loc <:+ other ∧ other ≠ [] then none else fs.entry? other := by
  unfold entry? dropTree
  rw [OrderedMap.get?_filter]
  by_cases root : other = []
  · simp [root]
  by_cases below : loc <:+ other
  · have holds : loc.isSuffixOf other = true := List.isSuffixOf_iff_suffix.mpr below
    simp [root, below, holds]
  · have off : loc.isSuffixOf other = false := by simpa [← List.isSuffixOf_iff_suffix] using below
    simp only [root, below, off, false_and, if_false, Bool.not_false]
    cases fs.entries.get? other <;> rfl

/-! ## Names in a directory -/

theorem endsWithSlash_join (front : Path) (named : IsName name) : endsWithSlash (front.join ⟨name⟩) = false := by
  have last : (front.join ⟨name⟩).text.toList.getLast? = name.toList.getLast? := by
    rcases toList_join front named.relative with joined | joined
    · rw [joined, List.getLast?_append_of_ne_nil _ named.ne_nil]
    · rw [joined, List.getLast?_append_of_ne_nil _ (by simp), List.getLast?_cons_of_ne_nil named.ne_nil]
  rw [endsWithSlash, last, beq_eq_false_iff_ne]
  exact fun slash => named.no_slash (List.mem_of_getLast? slash)

theorem isDots_name (named : IsName name) : isDots name.toList = false := by
  simp [isDots, named.ne_here, named.ne_up]

/-- Where the path of a directory leaves room for a name, paths in it can be looked up. -/
theorem utf8ByteSize_join_le_pathLimit (room : path.text.utf8ByteSize + nameLimit < pathLimit)
    (short : name.utf8ByteSize ≤ nameLimit) : (path.join ⟨name⟩).text.utf8ByteSize ≤ pathLimit := by
  have size := utf8ByteSize_join_le path ⟨name⟩
  simp only at size
  omega

/-- The last name of a path that is joined to that of a directory is looked up in the directory. -/
theorem slot?_join (stands : fs.stat path = .ok (loc, .directory)) (named : IsName name) :
    fs.slot? (path.join ⟨name⟩) =
      if pathLimit < (path.join ⟨name⟩).text.utf8ByteSize then .error .nameTooLong
      else .ok (some ⟨loc, name.toList⟩) := by
  obtain ⟨clean, some, _, leads⟩ := leads_of_stat stands
  obtain ⟨front, _, cut, joined⟩ := pieces_join some named.relative
  have passed : fs.Leads true linkLimit (if path.isAbsolute then [] else fs.here)
      (front.filter (· ≠ [])) loc .directory := by
    have short := leads.filter_ne_nil
    rcases cut with cut | cut
    · rwa [cut] at short
    · simpa [cut] using short
  have last : Path.pieces ⟨name⟩ = [name.toList] := piecesAt_of_not_mem named.no_slash
  have shape : (path.join ⟨name⟩).pieces.filter (· ≠ []) = front.filter (· ≠ []) ++ [name.toList] := by
    rw [joined, last, List.filter_append]
    simp [named.ne_nil]
  rw [slot?, if_neg (not_mem_toList_join named.relative (by decide) clean named.no_nul),
    if_neg (join_ne_empty some named.relative)]
  simp only [shape, List.getLast?_concat, List.dropLast_concat, isAbsolute_join some named.relative,
    passed.walk]

/-- A path leads to a directory in which there is no link, and nothing stands below its files. -/
structure IsPlainDirectory (fs : FileSystem) (path : Path) (loc : Location) : Prop where
  stat : fs.stat path = .ok (loc, .directory)
  no_link : ∀ name target, fs.entry? (name :: loc) ≠ some (.link target)
  leaf : ∀ name, fs.entry? (name :: loc) ≠ some .directory →
    ∀ names, names ≠ [] → fs.entry? (names ++ name :: loc) = none

/-- One name in a directory, where there is no directory, gets a file or loses what it has. All else stays. -/
structure AltersFile (fs : FileSystem) (loc : Location) (name : String) (held : Option (List UInt8))
    (fs' : FileSystem) : Prop where
  here : fs'.here = fs.here
  solid : fs.entry? (name :: loc) ≠ some .directory
  entry : ∀ other, fs'.entry? other = if name :: loc = other then held.map .file else fs.entry? other

theorem altersFile_setEntry (solid : fs.entry? (name :: loc) ≠ some .directory) :
    AltersFile fs loc name (some bytes) (fs.setEntry (name :: loc) (.file bytes)) :=
  ⟨rfl, solid, fun _ => entry?_setEntry⟩

/-- Nothing need be done where there is nothing. -/
theorem altersFile_refl (nothing : fs.entry? (name :: loc) = none) : AltersFile fs loc name none fs := by
  refine ⟨rfl, by simp [nothing], fun other => ?_⟩
  split
  · rename_i same
    rw [← same, nothing]
    rfl
  · rfl

/-- A change of a file neither makes nor removes a directory. -/
theorem AltersFile.directory_iff {held : Option (List UInt8)} (changed : AltersFile fs loc name held fs')
    (inner : String) : fs'.entry? (inner :: loc) = some .directory ↔ fs.entry? (inner :: loc) = some .directory := by
  rw [changed.entry]
  split
  · rename_i same
    have before := same ▸ changed.solid
    cases held <;> simp [before]
  · exact Iff.rfl

namespace IsPlainDirectory

theorem locate_name (plain : fs.IsPlainDirectory path loc) (named : IsName name)
    (short : name.utf8ByteSize ≤ nameLimit) : fs.locate true (path.join ⟨name⟩) =
      if pathLimit < (path.join ⟨name⟩).text.utf8ByteSize then .error .nameTooLong
      else match fs.entry? (name :: loc) with
        | some entry => .ok (.present (name :: loc) entry)
        | none => .ok (.absent (name :: loc)) := by
  obtain ⟨left, located⟩ := locate_join plain.stat named.relative named.no_nul
  have pieces : Path.pieces ⟨name⟩ = [name.toList] := piecesAt_of_not_mem named.no_slash
  have entryName := isEntryName_toList named short
  rw [located, pieces]
  cases stands : fs.entry? (name :: loc) with
  | none => rw [walk_none entryName (by simpa using stands), if_pos rfl, String.ofList_toList]
  | some entry =>
    cases entry with
    | file bytes => rw [walk_file entryName (by simpa using stands), if_pos rfl, String.ofList_toList]
    | directory => rw [walk_directory entryName (by simpa using stands), walk_nil, String.ofList_toList]
    | link target => exact absurd stands (plain.no_link name target)

/-- What is read is the file at the name, unless its path is too long. -/
theorem read_iff (plain : fs.IsPlainDirectory path loc) (named : IsName name)
    (short : name.utf8ByteSize ≤ nameLimit) : fs.read (path.join ⟨name⟩) = .ok bytes ↔
      (path.join ⟨name⟩).text.utf8ByteSize ≤ pathLimit ∧ fs.entry? (name :: loc) = some (.file bytes) := by
  rw [read_eq_ok_iff, plain.locate_name named short]
  by_cases long : pathLimit < (path.join ⟨name⟩).text.utf8ByteSize
  · simp [long, Nat.not_le.mpr long]
  · rw [if_neg long]
    cases stands : fs.entry? (name :: loc) <;> simp [Nat.not_lt.mp long]

/-- A file can be written unless there is a directory at the name, or the path is too long. -/
theorem write_iff (plain : fs.IsPlainDirectory path loc) (named : IsName name)
    (short : name.utf8ByteSize ≤ nameLimit) : fs.write (path.join ⟨name⟩) bytes = .ok fs' ↔
      (path.join ⟨name⟩).text.utf8ByteSize ≤ pathLimit ∧ fs.entry? (name :: loc) ≠ some .directory ∧
        fs' = fs.setEntry (name :: loc) (.file bytes) := by
  rw [write, plain.locate_name named short, endsWithSlash_join path named]
  by_cases long : pathLimit < (path.join ⟨name⟩).text.utf8ByteSize
  · simp [long, Nat.not_le.mpr long]
  · rw [if_neg long]
    rcases stands : fs.entry? (name :: loc) with _ | bytes | _ | target
    · simp [Nat.not_lt.mp long, eq_comm]
    · simp [Nat.not_lt.mp long, eq_comm]
    · simp [Nat.not_lt.mp long]
    · exact absurd stands (plain.no_link name target)

theorem write_ok (plain : fs.IsPlainDirectory path loc) (bytes : List UInt8) (named : IsName name)
    (short : name.utf8ByteSize ≤ nameLimit) (fits : (path.join ⟨name⟩).text.utf8ByteSize ≤ pathLimit)
    (solid : fs.entry? (name :: loc) ≠ some .directory) : ∃ fs', fs.write (path.join ⟨name⟩) bytes = .ok fs' :=
  ⟨_, (plain.write_iff named short).mpr ⟨fits, solid, rfl⟩⟩

theorem removeFile_eq (plain : fs.IsPlainDirectory path loc) (named : IsName name)
    (short : name.utf8ByteSize ≤ nameLimit) : fs.removeFile (path.join ⟨name⟩) =
      if pathLimit < (path.join ⟨name⟩).text.utf8ByteSize then .error .nameTooLong
      else match fs.entry? (name :: loc) with
        | none => .error .notFound
        | some .directory => .error .isDirectory
        | some _ => .ok (fs.dropTree (name :: loc)) := by
  rw [removeFile, slot?_join plain.stat named]
  by_cases long : pathLimit < (path.join ⟨name⟩).text.utf8ByteSize
  · simp [long]
  · rcases stands : fs.entry? (name :: loc) with _ | bytes | _ | target <;>
      simp [long, isDots_name named, Nat.not_lt.mpr short, stands, endsWithSlash_join path named]

/-- Removing what has nothing below it changes nothing else. -/
theorem altersFile_dropTree (plain : fs.IsPlainDirectory path loc) (solid : fs.entry? (name :: loc) ≠ some .directory) :
    AltersFile fs loc name none (fs.dropTree (name :: loc)) where
  here := rfl
  solid := solid
  entry other := by
    rw [entry?_dropTree]
    by_cases same : name :: loc = other
    · rw [if_pos same, ← same, if_pos ⟨List.suffix_rfl, by simp⟩]
      rfl
    · rw [if_neg same]
      split
      · rename_i below
        obtain ⟨⟨front, rfl⟩, -⟩ := below
        have further : front ≠ [] := fun none => same (by rw [none, List.nil_append])
        exact (plain.leaf name solid front further).symm
      · rfl

private theorem cons_ne_append_cons {outer name : String} {names : List String} (further : names ≠ []) :
    outer :: loc ≠ names ++ name :: loc := by
  intro same
  have lengths := congrArg List.length same
  rw [List.length_cons, List.length_append, List.length_cons] at lengths
  exact further (List.length_eq_zero_iff.mp (by omega))

/-- The path of a directory leads there if no directory and no link is taken away. -/
private theorem stat_of_kept (plain : fs.IsPlainDirectory path loc) (here : fs'.here = fs.here)
    (kept : ∀ other entry, (∀ bytes, entry ≠ .file bytes) → fs.entry? other = some entry →
      fs'.entry? other = some entry) : fs'.stat path = .ok (loc, .directory) := by
  obtain ⟨clean, some, fits, leads⟩ := leads_of_stat plain.stat
  exact stat_eq_ok_iff.mpr (locate_eq_present_iff.mpr ⟨clean, some, fits, here ▸ leads.of_kept kept⟩)

/-- A directory stays plain when a file in it is changed. -/
theorem of_altersFile {held : Option (List UInt8)} (plain : fs.IsPlainDirectory path loc)
    (changed : AltersFile fs loc name held fs') : fs'.IsPlainDirectory path loc where
  stat := by
    refine plain.stat_of_kept changed.here fun other there notFile stands => ?_
    rw [changed.entry, if_neg, stands]
    -- What was at the name is neither a file nor a directory nor a link.
    rintro rfl
    cases there with
    | file bytes => exact notFile bytes rfl
    | directory => exact changed.solid stands
    | link target => exact plain.no_link name target stands
  no_link other target := by
    rw [changed.entry]
    split
    · cases held <;> simp
    · exact plain.no_link other target
  leaf other notDirectory names further := by
    rw [changed.entry, if_neg (cons_ne_append_cons further)]
    refine plain.leaf other (fun directory => notDirectory ?_) names further
    rw [changed.entry, if_neg, directory]
    intro same
    exact changed.solid (same ▸ directory)

/-- A directory stays plain when another one is made in it. -/
theorem with_directory (plain : fs.IsPlainDirectory path loc) (free : fs.entry? (name :: loc) = none) :
    (fs.setEntry (name :: loc) .directory).IsPlainDirectory path loc where
  stat := by
    refine plain.stat_of_kept rfl fun other there _ stands => ?_
    rw [entry?_setEntry, if_neg, stands]
    rintro rfl
    rw [free] at stands
    cases stands
  no_link other target := by
    rw [entry?_setEntry]
    split
    · nofun
    · exact plain.no_link other target
  leaf other notDirectory names further := by
    rw [entry?_setEntry] at notDirectory ⊢
    split at notDirectory
    · exact absurd rfl notDirectory
    · rw [if_neg (cons_ne_append_cons further), plain.leaf other notDirectory names further]

end IsPlainDirectory
end ModuleGraph.FileSystem
