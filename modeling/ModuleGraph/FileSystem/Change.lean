import ModuleGraph.FileSystem.Basic

/-!
Changes to a file system. Each gives the changed file system or says why nothing was changed; only
the making of several directories may stop half way.
-/
namespace ModuleGraph.FileSystem
open Text

/-- The file system with an entry at a location. -/
def setEntry (fs : FileSystem) (loc : Location) (entry : Entry) : FileSystem :=
  { fs with entries := fs.entries.insert loc entry }

/-- The file system without a location and everything below it. -/
def dropTree (fs : FileSystem) (loc : Location) : FileSystem :=
  { fs with entries := fs.entries.filter fun (key, _) => !loc.isSuffixOf key }

/-- Whether a path ends with a slash, and so can only lead to a directory. -/
def endsWithSlash (path : Path) : Bool := path.text.toList.getLast? == some '/'

/-! ## Last names -/

/-- A directory and a name in it, which may be a dot or two. -/
structure Slot where
  directory : Location
  name : List Char

/-- The directory that the last name of a path is looked up in, and that name; none for the root. -/
def slot? (fs : FileSystem) (path : Path) : Except FileError (Option Slot) :=
  if '\x00' ∈ path.text.toList then .error .nulInPath
  else if path.text = "" then .error .notFound
  else if pathLimit < path.text.utf8ByteSize then .error .nameTooLong
  else
    let named := path.pieces.filter (· ≠ [])
    match named.getLast? with
    | none => .ok none
    | some name =>
      match fs.walk true linkLimit (if path.isAbsolute then [] else fs.here) named.dropLast with
      | .ok (.present directory .directory) => .ok (some ⟨directory, name⟩)
      | .ok (.present _ _) => .error .notDirectory
      | .ok (.absent _) => .error .notFound
      | .error e => .error e

/-- Whether a name is a dot or two, which every directory has. -/
def isDots (name : List Char) : Bool := name == ['.'] || name == ['.', '.']

/-- The location of the last name of a path, if nothing is there yet. -/
def vacancy (fs : FileSystem) (path : Path) : Except FileError Location :=
  match fs.slot? path with
  | .error e => .error e
  | .ok none => .error .exists
  | .ok (some slot) =>
    let name := String.ofList slot.name
    let loc := name :: slot.directory
    if isDots slot.name then .error .exists
    else if nameLimit < name.utf8ByteSize then .error .nameTooLong
    else if (fs.entry? loc).isSome then .error .exists
    else .ok loc

/-! ## Making -/

/-- Writes a file, new or over an old one, behind links. A path with a slash at its end is never
    that of a file. -/
def write (fs : FileSystem) (path : Path) (bytes : List UInt8) : Except FileError FileSystem :=
  match fs.locate true path with
  | .ok (.present loc (.file _)) => .ok (fs.setEntry loc (.file bytes))
  | .ok (.present _ _) => .error .isDirectory
  | .ok (.absent loc) => .ok (fs.setEntry loc (.file bytes))
  | .error e =>
    match endsWithSlash path, fs.slot? path with
    | true, .ok _ => .error .isDirectory
    | true, .error e => .error e
    | false, _ => .error e

/-- Makes a directory. -/
def makeDirectory (fs : FileSystem) (path : Path) : Except FileError FileSystem :=
  (fs.vacancy path).map fun loc => fs.setEntry loc .directory

/-- A path and those above it, at most a given number, without the empty one. -/
def ancestors : Nat → Path → List Path
  | 0, _ => []
  | count + 1, path =>
    if path.text = "" then []
    else
      match path.parent? with
      | none => [path]
      | some above => path :: ancestors count above

/-- Makes a directory, after those above it if they are missing. A directory that is there will
    do. -/
def makeChain (fs : FileSystem) : List Path → Option FileError × FileSystem
  | [] => (none, fs)
  | path :: above =>
    let settle (fs : FileSystem) (e : FileError) : Option FileError × FileSystem :=
      (if fs.isDirectory path then none else some e, fs)
    match fs.makeDirectory path with
    | .ok fs => (none, fs)
    | .error .notFound =>
      match makeChain fs above with
      | (some e, fs) => (some e, fs)
      | (none, fs) =>
        match fs.makeDirectory path with
        | .ok fs => (none, fs)
        | .error e => settle fs e
    | .error e => settle fs e

/-- Makes a directory and all directories above it that are missing. -/
def makeDirectories (fs : FileSystem) (path : Path) : Option FileError × FileSystem :=
  makeChain fs (ancestors (path.pieces.length + 1) path)

/-- Makes a symbolic link. -/
def makeLink (fs : FileSystem) (path : Path) (target : String) : Except FileError FileSystem :=
  match fs.vacancy path with
  | .error e => .error e
  | .ok loc =>
    if endsWithSlash path then .error .notFound else .ok (fs.setEntry loc (.link target))

/-! ## Removing -/

/-- Removes a file or a link. -/
def removeFile (fs : FileSystem) (path : Path) : Except FileError FileSystem :=
  match fs.slot? path with
  | .error e => .error e
  | .ok none => .error .isDirectory
  | .ok (some slot) =>
    let name := String.ofList slot.name
    let loc := name :: slot.directory
    if isDots slot.name then .error .isDirectory
    else if nameLimit < name.utf8ByteSize then .error .nameTooLong
    else
      match fs.entry? loc with
      | none => .error .notFound
      | some .directory => .error .isDirectory
      | some _ => if endsWithSlash path then .error .notDirectory else .ok (fs.dropTree loc)

/-- Removes a directory with everything in it, or a link. -/
def removeTree (fs : FileSystem) (path : Path) : Except FileError FileSystem :=
  match fs.locate false path with
  | .ok (.present _ (.file _)) => .error .notDirectory
  | .ok (.present loc _) => .ok (fs.dropTree loc)
  | .ok (.absent _) => .error .notFound
  | .error e => .error e

end ModuleGraph.FileSystem
