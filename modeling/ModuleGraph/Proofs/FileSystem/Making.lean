import ModuleGraph.Proofs.FileSystem.Folder
import ModuleGraph.Proofs.Path.Parent

/-!
Making directories. One that is there is left alone (`makeDirectories_of_stat`). One that was removed with
all that it held is made anew, empty and where it was (`IsFolder.remake`): the paths above it lead where
they led, so nothing else can be missing.
-/
namespace ModuleGraph.FileSystem
open Text ModuleGraph.Path

variable {fs fs' fs'' : FileSystem} {path q : Path} {loc found : Location} {entry : Entry}
  {files : String → Option (List UInt8)}

/-- The pieces of a path lead to a directory, whatever its length and its characters. -/
def Passes (fs : FileSystem) (path : Path) (found : Location) : Prop :=
  fs.Leads true linkLimit (if path.isAbsolute then [] else fs.here) path.pieces found .directory

/-! ## Last names -/

/-- Where a path passes, its last name stands in the directory that is passed before it. -/
theorem Passes.last {front : List (List Char)} {name : List Char} (passes : fs.Passes path found)
    (cut : path.pieces.filter (· ≠ []) = front ++ [name]) : ∃ left mid,
      fs.Leads true linkLimit (if path.isAbsolute then [] else fs.here) front mid .directory ∧
        fs.Leads true left mid [name] found .directory := by
  have short := Leads.filter_ne_nil passes
  rw [cut] at short
  exact short.split (by simp)

theorem slot?_eq_some {slot : Slot} (done : fs.slot? path = .ok (some slot)) : ∃ front,
    path.pieces.filter (· ≠ []) = front ++ [slot.name] ∧
      fs.Leads true linkLimit (if path.isAbsolute then [] else fs.here) front slot.directory .directory := by
  rw [slot?] at done
  split at done
  · cases done
  split at done
  · cases done
  split at done
  · cases done
  simp only at done
  split at done
  · cases done
  rename_i name last
  split at done
  · rename_i directory walked
    cases done
    obtain ⟨front, cut⟩ := List.getLast?_eq_some_iff.mp last
    refine ⟨front, cut, leads_iff.mpr ?_⟩
    rw [cut, List.dropLast_concat] at walked
    exact walked
  all_goals cases done

theorem slot?_name_ne_nil {slot : Slot} (done : fs.slot? path = .ok (some slot)) : slot.name ≠ [] := by
  obtain ⟨front, cut, _⟩ := slot?_eq_some done
  have member : slot.name ∈ path.pieces.filter (· ≠ []) := by rw [cut]; simp
  simpa using (List.mem_filter.mp member).2

theorem makeDirectory_eq_ok (done : fs.makeDirectory path = .ok fs') : ∃ mid name,
    fs.slot? path = .ok (some ⟨mid, name⟩) ∧ isDots name = false ∧
      fs.entry? (String.ofList name :: mid) = none ∧
      fs' = fs.setEntry (String.ofList name :: mid) .directory := by
  unfold makeDirectory vacancy at done
  cases slot : fs.slot? path with
  | error e => simp [slot, Except.map] at done
  | ok last =>
    cases last with
    | none => simp [slot, Except.map] at done
    | some last =>
      simp only [slot] at done
      split at done
      · cases done
      rename_i dots
      split at done
      · cases done
      split at done
      · cases done
      rename_i vacant
      cases done
      exact ⟨_, _, rfl, by simpa using dots, by simpa using vacant, rfl⟩

theorem Passes.slot? (passes : fs.Passes path found) (clean : '\x00' ∉ path.text.toList)
    (named : path.text ≠ "") (fits : path.text.utf8ByteSize ≤ pathLimit) : fs.slot? path = .ok none ∨
      ∃ left mid name, fs.slot? path = .ok (some ⟨mid, name⟩) ∧
        fs.Leads true left mid [name] found .directory := by
  cases last : (path.pieces.filter (· ≠ [])).getLast? with
  | none =>
    left
    rw [FileSystem.slot?, if_neg clean, if_neg named, if_neg (Nat.not_lt.mpr fits)]
    simp only [last]
  | some name =>
    right
    obtain ⟨front, cut⟩ := List.getLast?_eq_some_iff.mp last
    obtain ⟨left, mid, before, behind⟩ := passes.last cut
    refine ⟨left, mid, name, ?_, behind⟩
    rw [FileSystem.slot?, if_neg clean, if_neg named, if_neg (Nat.not_lt.mpr fits)]
    simp only [last]
    rw [cut, List.dropLast_concat, before.walk]

/-- A name that leads to a directory is a dot or two, or it is the name of a directory or a link. -/
theorem entry?_of_leads {left : Nat} {mid : Location} {name : List Char}
    (leads : fs.Leads true left mid [name] found .directory) (solid : name ≠ []) (dots : isDots name = false) :
    IsEntryName name ∧ ∃ entry, fs.entry? (String.ofList name :: mid) = some entry ∧
      ∀ bytes, entry ≠ .file bytes := by
  have plain : isIdle name = false ∧ name ≠ ['.', '.'] := by
    simp only [isDots, Bool.or_eq_false_iff, beq_eq_false_iff_ne] at dots
    simp [isIdle, solid, dots]
  cases leads with
  | idle idle => rw [plain.1] at idle; cases idle
  | up => exact absurd rfl plain.2
  | directory named stands =>
    refine ⟨named, _, stands, fun bytes same => ?_⟩
    cases same
  | link named stands =>
    refine ⟨named, _, stands, fun bytes same => ?_⟩
    cases same

/-! ## Directories that are there -/

private theorem makeDirectory_of_stat (stands : fs.stat path = .ok (found, .directory)) :
    fs.makeDirectory path = .error .exists := by
  obtain ⟨clean, named, fits, leads⟩ := leads_of_stat stands
  rw [makeDirectory, vacancy]
  rcases Passes.slot? leads clean named fits with root | ⟨left, mid, name, slot, last⟩
  · rw [root]
    rfl
  rw [slot]
  by_cases dots : isDots name = true
  · simp [dots, Except.map]
  obtain ⟨entryName, entry, there, _⟩ := entry?_of_leads last (slot?_name_ne_nil slot) (by simpa using dots)
  simp [dots, Nat.not_lt.mpr entryName.fits, there, Except.map]

private theorem ancestors_succ (named : path.text ≠ "") (count : Nat) :
    ∃ above, ancestors (count + 1) path = path :: above := by
  rw [ancestors, if_neg named]
  split
  · exact ⟨[], rfl⟩
  · exact ⟨_, rfl⟩

/-- A directory that is there is left alone. -/
theorem makeDirectories_of_stat (stands : fs.stat path = .ok (found, .directory)) :
    fs.makeDirectories path = (none, fs) := by
  obtain ⟨_, named, _, _⟩ := leads_of_stat stands
  obtain ⟨above, chain⟩ := ancestors_succ named path.pieces.length
  rw [makeDirectories, chain, makeChain, makeDirectory_of_stat stands]
  simp [isDirectory, stands]

/-! ## Directories that were removed -/

private theorem Passes.parent? (passes : fs.Passes path found) (above : path.parent? = some q)
    (named : q.text ≠ "") : ∃ found, fs.Passes q found := by
  obtain ⟨start, front, before, cut⟩ := pieces_parent? above named
  obtain ⟨mid, leads⟩ := Leads.of_prefix before passes
  refine ⟨mid, ?_⟩
  rw [Passes, start]
  rcases cut with cut | cut
  · rwa [cut]
  · rw [cut]
    exact .idle rfl leads

private theorem passes_of_mem_ancestors {count : Nat} (passes : fs.Passes path found)
    (member : q ∈ ancestors count path) : ∃ found, fs.Passes q found := by
  induction count generalizing path found with
  | zero => cases member
  | succ count ih =>
    rw [ancestors] at member
    split at member
    · cases member
    split at member
    · rw [List.mem_singleton.mp member]
      exact ⟨found, passes⟩
    · rename_i above up
      rcases List.mem_cons.mp member with rfl | later
      · exact ⟨found, passes⟩
      · have named : above.text ≠ "" := by
          rintro none
          cases count with
          | zero => cases later
          | succ count => simp [ancestors, none] at later
        obtain ⟨_, passes'⟩ := passes.parent? up named
        exact ih passes' later

/-- What is left of a file system when everything at a location and below it is gone, apart from a directory
    at that location, which may have been made anew. -/
structure Cleared (fs : FileSystem) (loc : Location) (fs' : FileSystem) : Prop where
  here : fs'.here = fs.here
  outside : ∀ other, ¬ loc <:+ other → fs'.entry? other = fs.entry? other
  below : ∀ names, names ≠ [] → fs'.entry? (names ++ loc) = none
  directory : fs'.entry? loc = none ∨ fs'.entry? loc = some .directory

theorem cleared_dropTree (fs : FileSystem) (loc : Location) : fs.Cleared loc (fs.dropTree loc) where
  here := rfl
  outside other off := by rw [entry?_dropTree, if_neg fun below => off below.1]
  below names some := by
    rw [entry?_dropTree, if_pos ⟨List.suffix_append _ _, by simp [some]⟩]
  directory := by
    rw [entry?_dropTree]
    by_cases root : loc = []
    · simp [root, entry?]
    · simp [root]

private theorem Cleared.isFolder (cleared : fs.Cleared loc fs')
    (leads : fs'.locate false path = .ok (.present loc .directory)) :
    fs'.IsFolder path loc fun _ => none where
  leads := leads
  directory entry stands := by
    rcases cleared.directory with gone | there
    · rw [gone] at stands; cases stands
    · rw [there] at stands; cases stands; rfl
  inside names some := by
    rw [cleared.below names some]
    match names with
    | [] => rfl
    | [_] => rfl
    | _ :: _ :: _ => rfl
  fits name present := by cases present

/-- At or below the directory nothing but a file stands, apart from itself. -/
private theorem IsFolder.eq_of_not_file (folder : fs.IsFolder path loc files) {other : Location}
    (below : loc <:+ other) (stands : fs.entry? other = some entry) (notFile : ∀ bytes, entry ≠ .file bytes) :
    other = loc := by
  obtain ⟨names, rfl⟩ := below
  by_cases none : names = []
  · rw [none, List.nil_append]
  rw [folder.inside names none] at stands
  match names with
  | [name] =>
    obtain ⟨bytes, _, file⟩ := Option.map_eq_some_iff.mp stands
    exact absurd file.symm (notFile bytes)
  | [] => cases stands
  | _ :: _ :: _ => cases stands

section
variable (folder : fs.IsFolder path loc files) (cleared : fs.Cleared loc fs')
include folder cleared

private theorem Cleared.lost (other : Location) (entry : Entry) (stands : fs.entry? other = some entry) :
    fs'.entry? other = some entry ∨ fs'.entry? other = none := by
  by_cases below : loc <:+ other
  · obtain ⟨names, rfl⟩ := below
    by_cases same : names = []
    · subst same
      cases folder.directory entry stands
      exact cleared.directory.symm
    · exact .inr (cleared.below names same)
  · exact .inl (cleared.outside other below ▸ stands)

/-- A directory that can be made is the one that was removed. -/
private theorem Cleared.makeDirectory (passes : fs.Passes q found) (done : fs'.makeDirectory q = .ok fs'') :
    fs.Cleared loc fs'' ∧ fs''.entry? loc = some .directory := by
  obtain ⟨mid, name, slot, dots, gone, rfl⟩ := makeDirectory_eq_ok done
  obtain ⟨front, cut, leads'⟩ := slot?_eq_some slot
  obtain ⟨left, mid', before, behind⟩ := passes.last cut
  -- What is left leads to the directory of the last name as before.
  have same : mid' = mid := by
    have leads := before.of_lost (cleared.lost folder) (cleared.here ▸ leads'.walk)
    rw [← cleared.here] at leads
    simpa using leads.walk.symm.trans leads'.walk
  subst same
  obtain ⟨_, entry, there, notFile⟩ := entry?_of_leads behind (slot?_name_ne_nil slot) dots
  have here : String.ofList name :: mid' = loc := by
    by_cases below : loc <:+ String.ofList name :: mid'
    · exact folder.eq_of_not_file below there notFile
    · rw [cleared.outside _ below, there] at gone
      cases gone
  subst here
  refine ⟨⟨cleared.here, fun other off => ?_, fun names some => ?_, ?_⟩, ?_⟩
  · rw [entry?_setEntry, if_neg, cleared.outside other off]
    rintro rfl
    exact off List.suffix_rfl
  · rw [entry?_setEntry, if_neg, cleared.below names some]
    simpa using some
  · rw [entry?_setEntry, if_pos rfl]
    exact .inr rfl
  · rw [entry?_setEntry, if_pos rfl]

/-- The directory is where it was if it was made, or if the path leads to a directory. -/
private theorem Cleared.leads (settled : fs'.entry? loc = some .directory ∨ fs'.isDirectory path = true) :
    fs'.locate false path = .ok (.present loc .directory) := by
  obtain ⟨clean, named, fits, leads⟩ := locate_eq_present_iff.mp folder.leads
  refine locate_eq_present_iff.mpr ⟨clean, named, fits, ?_⟩
  rw [cleared.here]
  rcases settled with made | isDirectory
  · refine leads.of_kept fun other entry notFile stands => ?_
    by_cases below : loc <:+ other
    · cases folder.eq_of_not_file below stands notFile
      rw [made, folder.directory entry stands]
    · rw [cleared.outside other below, stands]
  · unfold FileSystem.isDirectory at isDirectory
    split at isDirectory
    · rename_i found stands
      have walked := (leads_of_stat stands).2.2.2.walk
      rw [cleared.here] at walked
      exact leads.of_lost (cleared.lost folder) walked
    · cases isDirectory

end

/-- What the making of directories leaves, with the last of them made or there if all went well. -/
private def Settles (fs : FileSystem) (loc : Location) (q : Path) : Option FileError × FileSystem → Prop
  | (failed, fs') => fs.Cleared loc fs' ∧
      (failed = none → fs'.entry? loc = some .directory ∨ fs'.isDirectory q = true)

private theorem settles_if (cleared : fs.Cleared loc fs') (e : FileError) :
    fs.Settles loc q (if fs'.isDirectory q then none else some e, fs') := by
  refine ⟨cleared, fun settled => .inr ?_⟩
  split at settled
  · assumption
  · cases settled

private theorem settles_makeDirectory (folder : fs.IsFolder path loc files)
    (passes : ∃ found, fs.Passes q found) (cleared : fs.Cleared loc fs')
    (done : fs'.makeDirectory q = .ok fs'') : fs.Settles loc q (none, fs'') := by
  obtain ⟨_, leads⟩ := passes
  obtain ⟨cleared', directory⟩ := cleared.makeDirectory folder leads done
  exact ⟨cleared', fun _ => .inl directory⟩

private theorem settles_makeChain {q : Path} {above : List Path} (folder : fs.IsFolder path loc files)
    (passes : ∀ q' ∈ q :: above, ∃ found, fs.Passes q' found) (cleared : fs.Cleared loc fs') :
    fs.Settles loc q (fs'.makeChain (q :: above)) := by
  have here := passes q List.mem_cons_self
  -- The directories above are made first, if at all.
  have cleared' : fs.Cleared loc (fs'.makeChain above).2 := by
    match above with
    | [] => exact cleared
    | next :: rest =>
      have later : ∀ q' ∈ next :: rest, ∃ found, fs.Passes q' found := fun q' member =>
        passes q' (List.mem_cons_of_mem _ member)
      exact (settles_makeChain folder later cleared).1
  rw [makeChain]
  split
  · rename_i done
    exact settles_makeDirectory folder here cleared done
  · split
    · rename_i chain
      rw [chain] at cleared'
      exact ⟨cleared', nofun⟩
    · rename_i chain
      rw [chain] at cleared'
      split
      · rename_i done
        exact settles_makeDirectory folder here cleared' done
      · exact settles_if cleared' _
  · exact settles_if cleared _

/-- A directory with files that is removed and made anew is empty, and the path leads to it. -/
theorem IsFolder.remake (folder : fs.IsFolder path loc files) (removed : fs.removeTree path = .ok fs')
    (made : fs'.makeDirectories path = (none, fs'')) : fs''.IsFolder path loc fun _ => none := by
  have dropped : fs' = fs.dropTree loc := by
    rw [removeTree, folder.leads] at removed
    exact (Except.ok.inj removed).symm
  subst dropped
  obtain ⟨_, named, _, leads⟩ := leads_of_stat folder.stat
  obtain ⟨above, chain⟩ := ancestors_succ named path.pieces.length
  have passes : ∀ q ∈ path :: above, ∃ found, fs.Passes q found :=
    fun q member => passes_of_mem_ancestors leads (chain ▸ member)
  have settles := settles_makeChain folder passes (cleared_dropTree fs loc)
  rw [makeDirectories, chain] at made
  rw [made] at settles
  exact settles.1.isFolder (settles.1.leads folder (settles.2 rfl))

end ModuleGraph.FileSystem
