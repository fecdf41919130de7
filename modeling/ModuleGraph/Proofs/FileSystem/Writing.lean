import ModuleGraph.Proofs.FileSystem.Directory
import ModuleGraph.Proofs.FileSystem.Making

/-!
What a write leaves, whatever the path and the links on its way. The look-up that found the place of a file finds it
again once there is a file (`leads_of_filePlace`), so what was written is read back (`read_of_write`). And a path
leads to a directory if a file is read at a name that is joined to it (`makeDirectories_of_read`).
-/
namespace ModuleGraph.FileSystem
open Text ModuleGraph.Path

variable {fs fs' : FileSystem} {links : Nat} {loc place : Location} {path : Path} {name : String} {bytes : List UInt8}

/-- The place of a file that is found, or of one that could be made. -/
def Found.filePlace? : Found → Option Location
  | .present loc (.file _) => some loc
  | .present _ _ => none
  | .absent loc => some loc

theorem write_eq_ok (done : fs.write path bytes = .ok fs') : ∃ found place,
    fs.locate true path = .ok found ∧ found.filePlace? = some place ∧ fs' = fs.setEntry place (.file bytes) := by
  rw [write] at done
  split at done
  · rename_i located
    cases done
    exact ⟨_, _, located, rfl, rfl⟩
  · cases done
  · rename_i located
    cases done
    exact ⟨_, _, located, rfl, rfl⟩
  · split at done <;> cases done

/-- There is a file at the place of a file, or nothing. With a file there, and nothing else changed, the look-up goes
    the same way and finds it. -/
theorem leads_of_filePlace {pieces : List (List Char)} {found : Found}
    (walked : fs.walk true links loc pieces = .ok found) (there : found.filePlace? = some place) :
    (∀ entry, fs.entry? place = some entry → ∃ old, entry = .file old) ∧
      ∀ (fs' : FileSystem) (bytes : List UInt8),
        (∀ other, fs'.entry? other = if place = other then some (.file bytes) else fs.entry? other) →
          fs'.Leads true links loc pieces place (.file bytes) := by
  -- A directory or a link on the way does not stand at the place of the file.
  have kept {fs' : FileSystem} {bytes : List UInt8} {other : Location} {entry : Entry}
      (free : ∀ entry, fs.entry? place = some entry → ∃ old, entry = .file old)
      (changed : ∀ other, fs'.entry? other = if place = other then some (.file bytes) else fs.entry? other)
      (stands : fs.entry? other = some entry) (solid : ∀ old, entry ≠ .file old) : fs'.entry? other = some entry := by
    rw [changed, if_neg, stands]
    rintro rfl
    obtain ⟨old, file⟩ := free entry stands
    exact solid old file
  fun_induction FileSystem.walk fs true links loc pieces with
  | case1 =>
    cases walked
    cases there
  | case2 links loc piece rest idle ih =>
    obtain ⟨free, leads⟩ := ih walked
    exact ⟨free, fun fs' bytes changed => .idle idle (leads fs' bytes changed)⟩
  | case3 links loc rest _ ih =>
    obtain ⟨free, leads⟩ := ih walked
    exact ⟨free, fun fs' bytes changed => .up (leads fs' bytes changed)⟩
  | case5 links loc piece solid notUp name inner short vacant =>
    cases walked
    obtain rfl : inner = place := Option.some.inj there
    refine ⟨fun entry stands => ?_, fun fs' bytes changed => ?_⟩
    · rw [vacant] at stands
      cases stands
    · exact .file ⟨by simpa using solid, notUp, Nat.not_lt.mp short⟩ (by rw [changed, if_pos rfl])
  | case7 links loc piece rest solid notUp name inner short stands ih =>
    obtain ⟨free, leads⟩ := ih walked
    exact ⟨free, fun fs' bytes changed =>
      .directory ⟨by simpa using solid, notUp, Nat.not_lt.mp short⟩ (kept free changed stands nofun)
        (leads fs' bytes changed)⟩
  | case8 links loc piece solid notUp name inner short old stands =>
    cases walked
    obtain rfl : inner = place := Option.some.inj there
    refine ⟨fun entry stands' => ⟨old, Option.some.inj (stands'.symm.trans stands)⟩, fun fs' bytes changed => ?_⟩
    exact .file ⟨by simpa using solid, notUp, Nat.not_lt.mp short⟩ (by rw [changed, if_pos rfl])
  | case12 loc piece rest solid notUp name inner short target stands _ links ih =>
    obtain ⟨free, leads⟩ := ih walked
    exact ⟨free, fun fs' bytes changed =>
      .link ⟨by simpa using solid, notUp, Nat.not_lt.mp short⟩ (kept free changed stands nofun) (.inr rfl)
        (leads fs' bytes changed)⟩
  | case10 =>
    cases walked
    cases there
  | _ => cases walked

/-- A file that was written is read back. -/
theorem read_of_write (done : fs.write path bytes = .ok fs') : fs'.read path = .ok bytes := by
  obtain ⟨found, place, located, there, rfl⟩ := write_eq_ok done
  obtain ⟨clean, named, fits, walked⟩ := locate_eq_ok_iff.mp located
  obtain ⟨free, leads⟩ := leads_of_filePlace walked there
  have place_ne_nil : place ≠ [] := by
    rintro rfl
    obtain ⟨old, file⟩ := free .directory rfl
    cases file
  obtain ⟨name, outer, rfl⟩ := List.exists_cons_of_ne_nil place_ne_nil
  have again := leads (fs.setEntry (name :: outer) (.file bytes)) bytes fun other => entry?_setEntry
  exact read_eq_ok_iff.mpr ⟨_, locate_eq_present_iff.mpr ⟨clean, named, fits, again⟩⟩

/-- The path of a directory leads there if a file is read at a name in it. -/
theorem stat_of_read (some : path.text ≠ "") (named : IsName name) (content : fs.read (path.join ⟨name⟩) = .ok bytes) :
    ∃ loc, fs.stat path = .ok (loc, .directory) := by
  obtain ⟨found, located⟩ := read_eq_ok_iff.mp content
  obtain ⟨clean, -, fits, leads⟩ := locate_eq_present_iff.mp located
  obtain ⟨front, -, cut, joined⟩ := pieces_join some named.relative
  rw [isAbsolute_join some named.relative, joined] at leads
  obtain ⟨left, loc, passed, -⟩ := leads.split (piecesAt_ne_nil _ _)
  have whole : fs.Leads true linkLimit (if path.isAbsolute then [] else fs.here) path.pieces loc .directory := by
    rcases cut with cut | cut
    · rwa [cut]
    · obtain ⟨left, on⟩ := passed.append
      rw [cut, leads_iff, on true [[]] (List.cons_ne_nil [] []), walk_idle (by decide), walk_nil]
  refine ⟨loc, stat_eq_ok_iff.mpr (locate_eq_present_iff.mpr ⟨fun nul => clean ?_, some, ?_, whole⟩)⟩
  · rcases toList_join path named.relative with text | text <;> simp [text, nul]
  · exact Nat.le_trans (utf8ByteSize_le_join named.relative) fits

/-- Where a file is read at a name in a directory, nothing need be made for the directory to be there. -/
theorem makeDirectories_of_read (named : IsName name) (content : fs.read (path.join ⟨name⟩) = .ok bytes) :
    fs.makeDirectories path = (none, fs) := by
  by_cases empty : path.text = ""
  · rw [makeDirectories, ancestors, if_pos empty]
    rfl
  · obtain ⟨loc, stands⟩ := stat_of_read empty named content
    exact makeDirectories_of_stat stands

end ModuleGraph.FileSystem
