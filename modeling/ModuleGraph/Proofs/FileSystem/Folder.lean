import ModuleGraph.Proofs.FileSystem.Directory
import Mathlib.Logic.Function.Basic

/-!
Directories that hold files and nothing else (`IsFolder`). Reading a file there gives what the directory
holds (`IsFolder.read`), and writing or removing one changes what it holds at that name and leaves the
rest (`IsFolder.write`, `IsFolder.removeFile`).
-/
namespace ModuleGraph.FileSystem
open Text ModuleGraph.Path

/-- What stands at names below a directory that holds files and nothing else, the innermost name first. -/
def folderEntry (files : String → Option (List UInt8)) : List String → Option Entry
  | [name] => (files name).map .file
  | _ => none

/-- A path leads to a directory itself, not to a link to it. In it there are given files, whose paths can be
    looked up, and nothing else. -/
structure IsFolder (fs : FileSystem) (path : Path) (loc : Location)
    (files : String → Option (List UInt8)) : Prop where
  leads : fs.locate false path = .ok (.present loc .directory)
  directory : ∀ entry, fs.entry? loc = some entry → entry = .directory
  inside : ∀ names, names ≠ [] → fs.entry? (names ++ loc) = folderEntry files names
  fits : ∀ name, (files name).isSome → (path.join ⟨name⟩).text.utf8ByteSize ≤ pathLimit

variable {fs fs' : FileSystem} {path : Path} {loc other : Location} {entry : Entry}
  {files : String → Option (List UInt8)} {name : String} {bytes : List UInt8}

namespace IsFolder

theorem entry?_name (folder : fs.IsFolder path loc files) :
    fs.entry? (name :: loc) = (files name).map .file := folder.inside [name] (by simp)

theorem stat (folder : fs.IsFolder path loc files) : fs.stat path = .ok (loc, .directory) := by
  obtain ⟨clean, named, fits, leads⟩ := locate_eq_present_iff.mp folder.leads
  exact stat_eq_ok_iff.mpr (locate_eq_present_iff.mpr ⟨clean, named, fits, leads.through nofun⟩)

theorem not_directory (folder : fs.IsFolder path loc files) : fs.entry? (name :: loc) ≠ some .directory := by
  rw [folder.entry?_name]
  cases files name <;> simp

theorem plain (folder : fs.IsFolder path loc files) : fs.IsPlainDirectory path loc where
  stat := folder.stat
  no_link name target := by
    rw [folder.entry?_name]
    cases files name <;> simp
  leaf name _ names further := by
    have nothing := folder.inside (names ++ [name]) (by simp)
    rw [List.append_assoc, List.singleton_append] at nothing
    rw [nothing]
    match names with
    | [_] => rfl
    | _ :: _ :: _ => rfl

/-! ## Reading -/

/-- What is read in the directory is what it holds. -/
theorem read_iff (folder : fs.IsFolder path loc files) (named : IsName name)
    (short : name.utf8ByteSize ≤ nameLimit) :
    fs.read (path.join ⟨name⟩) = .ok bytes ↔ files name = some bytes := by
  rw [folder.plain.read_iff named short, folder.entry?_name]
  constructor
  · rintro ⟨-, stands⟩
    simpa using stands
  · intro held
    exact ⟨folder.fits name (by simp [held]), by simp [held]⟩

theorem isFile_iff (folder : fs.IsFolder path loc files) (named : IsName name)
    (short : name.utf8ByteSize ≤ nameLimit) :
    fs.isFile (path.join ⟨name⟩) = true ↔ (files name).isSome := by
  rw [FileSystem.isFile_iff, Option.isSome_iff_exists]
  exact exists_congr fun bytes => folder.read_iff named short

/-! ## Writing and removing -/

private theorem of_altersFile {held : Option (List UInt8)} (folder : fs.IsFolder path loc files)
    (changed : AltersFile fs loc name held fs')
    (fits : held.isSome → (path.join ⟨name⟩).text.utf8ByteSize ≤ pathLimit) :
    fs'.IsFolder path loc (Function.update files name held) where
  leads := by
    obtain ⟨clean, some, short, leads⟩ := locate_eq_present_iff.mp folder.leads
    refine locate_eq_present_iff.mpr
      ⟨clean, some, short, changed.here ▸ leads.of_kept fun other there solid stands => ?_⟩
    rw [changed.entry, if_neg, stands]
    rintro rfl
    rw [folder.entry?_name, Option.map_eq_some_iff] at stands
    obtain ⟨content, _, rfl⟩ := stands
    exact solid content rfl
  directory entry stands := by
    rw [changed.entry, if_neg (by simp)] at stands
    exact folder.directory entry stands
  inside names below := by
    rw [changed.entry]
    by_cases same : names = [name]
    · simp [same, folderEntry]
    · have differ : name :: loc ≠ names ++ loc := by
        intro equal
        have whole : [name] ++ loc = names ++ loc := equal
        exact same (List.append_cancel_right whole).symm
      rw [if_neg differ, folder.inside names below]
      match names with
      | [] => rfl
      | [other] =>
        have apart : other ≠ name := by simpa using same
        simp [folderEntry, Function.update_of_ne apart]
      | _ :: _ :: _ => rfl
  fits other present := by
    by_cases same : other = name
    · subst same
      exact fits (by simpa using present)
    · rw [Function.update_of_ne same] at present
      exact folder.fits other present

/-- A file that is written is held from then on. -/
theorem write (folder : fs.IsFolder path loc files) (named : IsName name)
    (short : name.utf8ByteSize ≤ nameLimit) (done : fs.write (path.join ⟨name⟩) bytes = .ok fs') :
    fs'.IsFolder path loc (Function.update files name (some bytes)) := by
  obtain ⟨fits, -, rfl⟩ := (folder.plain.write_iff named short).mp done
  exact folder.of_altersFile (altersFile_setEntry folder.not_directory) fun _ => fits

theorem write_ok (folder : fs.IsFolder path loc files) (bytes : List UInt8) (named : IsName name)
    (short : name.utf8ByteSize ≤ nameLimit) (fits : (path.join ⟨name⟩).text.utf8ByteSize ≤ pathLimit) :
    ∃ fs', fs.write (path.join ⟨name⟩) bytes = .ok fs' :=
  folder.plain.write_ok bytes named short fits folder.not_directory

private theorem removeFile_eq (folder : fs.IsFolder path loc files) (named : IsName name)
    (short : name.utf8ByteSize ≤ nameLimit) : fs.removeFile (path.join ⟨name⟩) =
      if pathLimit < (path.join ⟨name⟩).text.utf8ByteSize then .error .nameTooLong
      else if (files name).isSome then .ok (fs.dropTree (name :: loc)) else .error .notFound := by
  rw [folder.plain.removeFile_eq named short, folder.entry?_name]
  cases files name <;> rfl

/-- A file that is removed is not held any more. -/
theorem removeFile (folder : fs.IsFolder path loc files) (named : IsName name)
    (short : name.utf8ByteSize ≤ nameLimit) (done : fs.removeFile (path.join ⟨name⟩) = .ok fs') :
    fs'.IsFolder path loc (Function.update files name none) := by
  rw [folder.removeFile_eq named short] at done
  split at done
  · cases done
  split at done
  · cases done
    exact folder.of_altersFile (folder.plain.altersFile_dropTree folder.not_directory) nofun
  · cases done

theorem not_held (folder : fs.IsFolder path loc files) (named : IsName name)
    (short : name.utf8ByteSize ≤ nameLimit)
    (missing : fs.removeFile (path.join ⟨name⟩) = .error .notFound) : files name = none := by
  rw [folder.removeFile_eq named short] at missing
  split at missing
  · cases missing
  split at missing
  · cases missing
  · rename_i unheld
    simpa using unheld

theorem removeFile_ok (folder : fs.IsFolder path loc files) (named : IsName name)
    (short : name.utf8ByteSize ≤ nameLimit) (fits : (path.join ⟨name⟩).text.utf8ByteSize ≤ pathLimit) :
    (∃ fs', fs.removeFile (path.join ⟨name⟩) = .ok fs') ∨
      fs.removeFile (path.join ⟨name⟩) = .error .notFound := by
  rw [folder.removeFile_eq named short, if_neg (Nat.not_lt.mpr fits)]
  split
  · exact .inl ⟨_, rfl⟩
  · exact .inr rfl

end IsFolder
end ModuleGraph.FileSystem
