import ModuleGraph.Proofs.Change
import ModuleGraph.Proofs.FileSystem.Folder
import ModuleGraph.Proofs.FileSystem.LinkFree

/-!
Flat projects: one directory with files in it and nothing else, at any location (`flatAt`) or at `/p` (`flat`). They
are the smallest source trees (`isTree_flatAt`) and directories of files (`isFolder_flat`), and of any two of them it
can be computed how they differ (`between_flat`).
-/
namespace ModuleGraph
open ModuleGraph.Path Text

namespace FileSystem
variable {files old new : OrderedMap String (List UInt8)} {names : List String} {base : Location}

/-- The directories from a location up to the root. -/
def directoriesTo : Location → List (Location × Entry)
  | [] => []
  | name :: outer => (name :: outer, .directory) :: directoriesTo outer

/-- The file system with files in a directory. -/
def flatAt (base : Location) (files : OrderedMap String (List UInt8)) : FileSystem where
  entries := .ofList (directoriesTo base ++ files.entries.map fun (name, bytes) => (name :: base, .file bytes))
  here := []

/-- The file system with files in the directory `/p`. -/
def flat (files : OrderedMap String (List UInt8)) : FileSystem where
  entries := .ofList ((["p"], .directory) ::
    files.entries.map fun (name, bytes) => ([name, "p"], .file bytes))
  here := []

private theorem mem_directoriesTo {loc : Location} {entry : Entry} :
    (loc, entry) ∈ directoriesTo base ↔ loc ≠ [] ∧ loc <:+ base ∧ entry = .directory := by
  induction base with
  | nil =>
    rw [directoriesTo, List.suffix_nil]
    simp only [List.not_mem_nil, false_iff, not_and]
    exact fun deep none => absurd none deep
  | cons name outer ih =>
    rw [directoriesTo, List.mem_cons, ih, Prod.mk.injEq, List.suffix_cons_iff]
    constructor
    · rintro (⟨rfl, rfl⟩ | ⟨deep, inside, rfl⟩)
      · exact ⟨List.cons_ne_nil name outer, .inl rfl, rfl⟩
      · exact ⟨deep, .inr inside, rfl⟩
    · rintro ⟨deep, rfl | inside, rfl⟩
      · exact .inl ⟨rfl, rfl⟩
      · exact .inr ⟨deep, inside, rfl⟩

private theorem nodup_directoriesTo : ((directoriesTo base).map Prod.fst).Nodup := by
  induction base with
  | nil => exact .nil
  | cons name outer ih =>
    refine List.nodup_cons.mpr ⟨fun member => ?_, ih⟩
    obtain ⟨⟨loc, entry⟩, inside, rfl⟩ := List.mem_map.mp member
    have shorter := (mem_directoriesTo.mp inside).2.1.length_le
    exact absurd shorter (Nat.not_succ_le_self outer.length)

private theorem entries_flatAt : (flatAt base files).entries.entries =
    directoriesTo base ++ files.entries.map fun (name, bytes) => (name :: base, .file bytes) := by
  refine OrderedMap.entries_ofList ?_
  rw [List.map_append, List.nodup_append]
  refine ⟨nodup_directoriesTo, ?_, ?_⟩
  · have distinct := List.pairwise_map.mp files.nodup
    rw [List.map_map, List.Nodup, List.pairwise_map]
    exact distinct.imp fun differ same => differ (by simpa using same)
  · rintro loc directory loc' file rfl
    obtain ⟨⟨loc, entry⟩, inside, rfl⟩ := List.mem_map.mp directory
    have shorter := (mem_directoriesTo.mp inside).2.1.length_le
    simp only [List.map_map, List.mem_map, Function.comp_apply] at file
    obtain ⟨⟨name, bytes⟩, -, rfl⟩ := file
    exact absurd shorter (Nat.not_succ_le_self base.length)

private theorem entry?_flatAt {loc : Location} {entry : Entry} (deep : loc ≠ []) :
    entry? (flatAt base files) loc = some entry ↔ loc <:+ base ∧ entry = .directory ∨
      ∃ name bytes, loc = name :: base ∧ entry = .file bytes ∧ files.get? name = some bytes := by
  unfold entry?
  rw [if_neg deep, ← OrderedMap.mem_entries_iff, entries_flatAt, List.mem_append, mem_directoriesTo]
  simp only [List.mem_map, Prod.mk.injEq, Prod.exists, OrderedMap.mem_entries_iff]
  grind

private theorem entry?_base : entry? (flatAt base files) base = some .directory := by
  by_cases top : base = []
  · rw [top]
    rfl
  · exact (entry?_flatAt top).mpr (.inl ⟨List.suffix_rfl, rfl⟩)

/-- Files in a directory stand in a file system without links, if all names can be looked up. -/
theorem isLinkFree_flatAt (base_ok : ∀ name ∈ base, IsName name ∧ name.utf8ByteSize ≤ nameLimit)
    (named : ∀ name ∈ files.keys, IsName name ∧ name.utf8ByteSize ≤ nameLimit) :
    (flatAt base files).IsLinkFree where
  here := nofun
  tree := by
    refine ⟨stat_of_idle (by decide) (by decide) (by decide) (by decide), rfl, ?_, ?_, ?_⟩
    · intro name loc entry _ stands
      rcases (entry?_flatAt (List.cons_ne_nil name loc)).mp stands with
        ⟨inside, _⟩ | ⟨other, _, shape, _, found⟩
      · exact base_ok name (inside.subset (by simp))
      · cases shape
        exact named name (OrderedMap.mem_keys_of_get? found)
    · intro name loc entry _ stands
      rcases (entry?_flatAt (List.cons_ne_nil name loc)).mp stands with ⟨inside, _⟩ | ⟨other, _, shape, _, _⟩
      · by_cases top : loc = []
        · rw [top]
          rfl
        · exact (entry?_flatAt top).mpr (.inl ⟨(List.suffix_cons name loc).trans inside, rfl⟩)
      · cases shape
        exact entry?_base
    · intro loc target _ stands
      by_cases top : loc = []
      · rw [top] at stands
        cases stands
      · rcases (entry?_flatAt top).mp stands with ⟨_, other⟩ | ⟨_, _, _, other, _⟩ <;> cases other

/-- A directory with files in it is a tree, if its path is not too long. -/
theorem isTree_flatAt (base_ok : ∀ name ∈ base, IsName name ∧ name.utf8ByteSize ≤ nameLimit)
    (named : ∀ name ∈ files.keys, IsName name ∧ name.utf8ByteSize ≤ nameLimit)
    (fits : (locationPath base).text.utf8ByteSize ≤ pathLimit) :
    (flatAt base files).IsTree (locationPath base) base := by
  have free := isLinkFree_flatAt base_ok named
  have straight := isStraight_location fun name member => (base_ok name member).1
  exact free.isTree straight (free.stat_location entry?_base fits)

/-- What a flat project holds at names. -/
def flatContent (files : OrderedMap String (List UInt8)) : List String → Option (List UInt8)
  | [name] => files.get? name
  | _ => none

private theorem entry?_below {loc : Location} {entry : Entry} (below : base <:+ loc) :
    entry? (flatAt base files) loc = some entry ↔ loc = base ∧ entry = .directory ∨
      ∃ name bytes, loc = name :: base ∧ entry = .file bytes ∧ files.get? name = some bytes := by
  by_cases top : loc = []
  · subst top
    rw [List.suffix_nil.mp below, entry?, if_pos rfl, Option.some.injEq]
    simp [eq_comm]
  · have same : loc <:+ base ↔ loc = base :=
      ⟨fun inside => inside.eq_of_length_le below.length_le, fun equal => equal ▸ List.suffix_rfl⟩
    rw [entry?_flatAt top, same]

theorem contentBelow_flatAt : (flatAt base files).contentBelow base = flatContent files := by
  funext names
  refine Option.ext fun bytes => ?_
  rw [contentBelow_eq_some_iff, entry?_below (List.suffix_append _ _)]
  constructor
  · rintro (⟨_, other⟩ | ⟨name, content, shape, same, found⟩)
    · cases other
    · cases same
      have single : names = [name] := by
        have front : names.reverse = [name] := List.append_cancel_right (shape.trans (by rfl))
        simpa using congrArg List.reverse front
      rw [single]
      exact found
  · intro found
    match names with
    | [] => cases found
    | [name] => exact .inr ⟨name, bytes, rfl, rfl, found⟩
    | _ :: _ :: _ => cases found

/-! ## Files in `/p` -/

theorem contentBelow_flat : (flat files).contentBelow ["p"] = flatContent files := contentBelow_flatAt

private theorem entry?_flat {loc : Location} {entry : Entry} (below : ["p"] <:+ loc) :
    entry? (flat files) loc = some entry ↔ loc = ["p"] ∧ entry = .directory ∨
      ∃ name bytes, loc = [name, "p"] ∧ entry = .file bytes ∧ files.get? name = some bytes := entry?_below below

private theorem locate_flat {follow : Bool} :
    (flat files).locate follow ⟨"/p"⟩ = .ok (.present ["p"] .directory) := by
  have stands : entry? (flat files) ["p"] = some .directory :=
    (entry?_flat List.suffix_rfl).mpr (.inl ⟨rfl, rfl⟩)
  have leads : (flat files).Leads follow linkLimit [] [[], ['p']] ["p"] .directory :=
    .idle rfl (.directory ⟨rfl, by decide, by decide⟩ stands .here)
  exact (locate_eq (by decide) (by decide) (by decide)).trans leads.walk

private theorem isName_p : ∀ name ∈ ["p"], IsName name ∧ name.utf8ByteSize ≤ nameLimit := by decide

/-- A flat project stands in a file system without links, if its files have names that can be looked up. -/
theorem isLinkFree_flat (named : ∀ name ∈ files.keys, IsName name ∧ name.utf8ByteSize ≤ nameLimit) :
    (flat files).IsLinkFree := isLinkFree_flatAt isName_p named

/-- A flat project is a tree, if its files have names that can be looked up. -/
theorem isTree_flat (named : ∀ name ∈ files.keys, IsName name ∧ name.utf8ByteSize ≤ nameLimit) :
    (flat files).IsTree ⟨"/p"⟩ ["p"] := isTree_flatAt isName_p named (by decide)

/-- The files of a flat project are read as they are. -/
theorem read_flat (name : String) {bytes : List UInt8}
    (named : ∀ name ∈ files.keys, IsName name ∧ name.utf8ByteSize ≤ nameLimit)
    (found : files.get? name = some bytes) (short : (Path.join ⟨"/p"⟩ ⟨name⟩).text.utf8ByteSize ≤ pathLimit) :
    (flat files).read (Path.join ⟨"/p"⟩ ⟨name⟩) = .ok bytes := by
  have isName : IsName name := (named name (OrderedMap.mem_keys_of_get? found)).1
  have single : AreNames [name] := ⟨List.cons_ne_nil name [], List.forall_mem_singleton.mpr isName⟩
  have content : (flat files).contentBelow ["p"] [name] = some bytes := by
    rw [contentBelow_flat]
    exact found
  have path : ofNames [name] = name := ofNames_singleton
  rw [← path] at short ⊢
  exact ((isTree_flat named).read_join_iff single).mpr ⟨short, content⟩

/-- A flat project is a directory of files, if their names are not too long. -/
theorem isFolder_flat (short : ∀ name ∈ files.keys, name.utf8ByteSize ≤ nameLimit) :
    (flat files).IsFolder ⟨"/p"⟩ ["p"] files.get? where
  leads := locate_flat
  directory entry stands := by
    rcases (entry?_flat List.suffix_rfl).mp stands with ⟨_, same⟩ | ⟨_, _, shape, _⟩
    · exact same
    · cases shape
  inside names some := by
    refine Option.ext fun entry => ?_
    rw [entry?_flat (List.suffix_append _ _)]
    match names with
    | [] => exact absurd rfl some
    | [name] =>
      rw [folderEntry, Option.map_eq_some_iff]
      simp [and_comm, eq_comm]
    | _ :: _ :: _ => simp [folderEntry]
  fits name present := by
    have size := utf8ByteSize_join_le ⟨"/p"⟩ ⟨name⟩
    have named := short name (OrderedMap.contains_iff.mp present)
    have top : "/p".utf8ByteSize = 2 := rfl
    simp only [top, nameLimit, pathLimit] at *
    omega

end FileSystem

namespace ChangeSet
open FileSystem
variable {old new : OrderedMap String (List UInt8)}

/-- How two flat projects differ. -/
def ofFlat (old new : OrderedMap String (List UInt8)) : ChangeSet where
  added := .ofList (new.keys.filter fun name => (old.get? name).isNone)
  modified := .ofList (old.keys.filter fun name =>
    (new.get? name).isSome && old.get? name != new.get? name)
  deleted := .ofList (old.keys.filter fun name => (new.get? name).isNone)

private theorem mem_ofKeys_iff {files : OrderedMap String (List UInt8)} {keep : String → Bool}
    {path : String} : path ∈ SortedSet.ofList (files.keys.filter keep) ↔
      ∃ name, path = ofNames [name] ∧ (flatContent files [name]).isSome ∧ keep name = true := by
  rw [SortedSet.mem_ofList, List.mem_filter, OrderedMap.mem_keys_iff, ← Option.isSome_iff_exists]
  simp only [ofNames_singleton, exists_eq_left', flatContent]

private theorem exists_flat_iff {files : OrderedMap String (List UInt8)} {path : String}
    {P : List String → Prop} :
    (∃ names, path = ofNames names ∧ (flatContent files names).isSome ∧ P names) ↔
      ∃ name, path = ofNames [name] ∧ (flatContent files [name]).isSome ∧ P [name] := by
  constructor
  · rintro ⟨names, same, present, holds⟩
    match names with
    | [] => cases present
    | [name] => exact ⟨name, same, present, holds⟩
    | _ :: _ :: _ => cases present
  · rintro ⟨name, same, present, holds⟩
    exact ⟨[name], same, present, holds⟩

/-- The difference between two flat projects is computed. -/
theorem between_flat : (ofFlat old new).Between (flatContent old) (flatContent new) where
  mem_added_iff path := by
    have turn (names : List String) : path = ofNames names ∧ flatContent old names = none ∧
        (flatContent new names).isSome ↔
          path = ofNames names ∧ (flatContent new names).isSome ∧ flatContent old names = none :=
      and_congr_right fun _ => and_comm
    rw [exists_congr turn, exists_flat_iff]
    simp only [ofFlat, mem_ofKeys_iff, Option.isNone_iff_eq_none]
    rfl
  mem_modified_iff path := by
    rw [exists_flat_iff]
    simp only [ofFlat, mem_ofKeys_iff, Bool.and_eq_true, bne_iff_ne]
    rfl
  mem_deleted_iff path := by
    rw [exists_flat_iff]
    simp only [ofFlat, mem_ofKeys_iff, Option.isNone_iff_eq_none]
    rfl

end ChangeSet
end ModuleGraph
