import ModuleGraph.CommandLine.Run

/-!
The command line. The files that a run may read are named on standard input, one a line; a run sees
these and nothing else, and neither Git nor a grammar of Python is at hand. Afterwards the files that
changed are written.
-/
namespace ModuleGraph.Main

/-- The location that stands for the working directory. -/
def workingDirectory : Location := ["working-directory"]

/-- The file system that holds only the working directory. -/
def noFiles : FileSystem :=
  { FileSystem.empty.setEntry workingDirectory .directory with here := workingDirectory }

/-- The files with one more. -/
def place (files : FileSystem) (path : Path) (bytes : List UInt8) : FileSystem :=
  let files := (files.makeDirectories (path.parent?.getD ⟨""⟩)).2
  (files.write path bytes).toOption.getD files

/-- The path of a location outside the program. -/
def outsidePath (loc : Location) : String :=
  match FileSystem.namesBelow? workingDirectory loc with
  | some names => "/".intercalate names
  | none => (FileSystem.locationPath loc).text

/-- A Git that does not start and no grammar. Workers are not missed, since a run does its work alone. -/
def tools : CommandLine.Tools Unit where
  git s _ := (.error "not at hand", s)
  grammar := .error "not at hand"
  workers := .ready

/-- The entries that one file system has and another has not. -/
def changedEntries (old new : FileSystem) : List (Location × Entry) :=
  new.entries.entries.filter fun (loc, entry) => old.entries.get? loc ≠ some entry

/-- Reads lines up to the end of a stream. -/
partial def readLines (stream : IO.FS.Stream) (lines : List String) : IO (List String) := do
  let line ← stream.getLine
  if line.isEmpty then return lines.reverse
  readLines stream ((if line.endsWith "\n" then (line.dropEnd 1).toString else line) :: lines)

/-- Reads the named files. Those that cannot be read are left out. -/
def load (names : List String) : IO FileSystem :=
  names.foldlM (fun files (name : String) => do
    try
      let bytes ← IO.FS.readBinFile name
      return place files ⟨name⟩ bytes.data.toList
    catch _ => return files) noFiles

/-- Writes the entries that changed, and removes the files that are gone. -/
def store (old new : FileSystem) : IO Unit := do
  for (loc, entry) in changedEntries old new do
    match entry with
    | .directory => IO.FS.createDirAll (outsidePath loc)
    | .file bytes => IO.FS.writeBinFile (outsidePath loc) ⟨bytes.toArray⟩
    | .link _ => pure ()
  for (loc, entry) in old.entries.entries do
    if (new.entries.get? loc).isNone && entry ≠ .directory then
      IO.FS.removeFile (outsidePath loc)

/-- The time since a start, in seconds with two places. -/
def secondsSince (start stop : Nat) : String :=
  let hundredths := (stop - start + 5) / 10
  let places := toString (hundredths % 100)
  toString (hundredths / 100) ++ "." ++ (if places.length = 1 then "0" else "") ++ places

end ModuleGraph.Main

open ModuleGraph in
/-- Runs the program on the files that are named on standard input. -/
def main (args : List String) : IO UInt32 := do
  let start ← IO.monoMsNow
  let files ← Main.load (← Main.readLines (← IO.getStdin) [])
  let transcript := CommandLine.run Main.tools files () args
  Main.store files transcript.files
  for line in transcript.output do IO.println line
  for line in transcript.errors do IO.eprintln line
  if transcript.exitCode = 0 then
    match CommandLine.Invocation.parse args with
    | some (.notice _) => pure ()
    | _ =>
      IO.println ("Analysis completed in " ++ Main.secondsSince start (← IO.monoMsNow) ++ "s")
  return transcript.exitCode.toUInt32
