import ModuleGraph.OrderedMap
import ModuleGraph.Path
import ModuleGraph.Text.Utf8

/-!
A file system as a value: what stands at each location, and the directory that relative paths start
from. Looking a path up goes from piece to piece, through symbolic links, and either ends at a
location or says what stopped it.
-/
namespace ModuleGraph
open Text

/-- The names from a file or directory up to the root, the innermost name first. -/
abbrev Location : Type := List String

/-- What stands at a location. -/
inductive Entry where
  | file (bytes : List UInt8)
  | directory
  | link (target : String)
  deriving DecidableEq

/-- What stands where, the root aside, which is always a directory. -/
structure FileSystem where
  entries : OrderedMap Location Entry
  /-- Where relative paths start. -/
  here : Location

/-- Why a file operation fails. -/
inductive FileError where
  | notFound
  | exists
  | notDirectory
  | isDirectory
  | nameTooLong
  | tooManyLinks
  /-- The path holds a character that no path may hold. -/
  | nulInPath
  | notUtf8
  deriving DecidableEq

namespace FileError

/-- The wording of an error. -/
def message : FileError → String
  | .notFound => "No such file or directory (os error 2)"
  | .exists => "File exists (os error 17)"
  | .notDirectory => "Not a directory (os error 20)"
  | .isDirectory => "Is a directory (os error 21)"
  | .nameTooLong => "File name too long (os error 36)"
  | .tooManyLinks => "Too many levels of symbolic links (os error 40)"
  | .nulInPath => "file name contained an unexpected NUL byte"
  | .notUtf8 => "stream did not contain valid UTF-8"

end FileError

namespace FileSystem

/-- The file system without files. -/
def empty : FileSystem := ⟨.empty, []⟩

instance : Inhabited FileSystem := ⟨empty⟩

/-- What stands at a location. -/
def entry? (fs : FileSystem) (loc : Location) : Option Entry :=
  if loc = [] then some .directory else fs.entries.get? loc

/-- The number of symbolic links that one look-up may go through. -/
def linkLimit : Nat := 40

/-- The longest name in bytes. -/
def nameLimit : Nat := 255

/-- The longest path in bytes. -/
def pathLimit : Nat := 4095

/-- Where a look-up ends. -/
inductive Found where
  | present (loc : Location) (entry : Entry)
  /-- Nothing is there, but its directory is. -/
  | absent (loc : Location)
  deriving DecidableEq

/-- The location that a link's target is looked up from. -/
def linkStart (loc : Location) (target : Path) : Location :=
  if target.isAbsolute then [] else loc

/-- Looks up the pieces of a path from a directory. `links` more links may be gone through, and
    `follow` says whether to go through a link that comes last. -/
def walk (fs : FileSystem) (follow : Bool) (links : Nat) (loc : Location)
    (pieces : List (List Char)) : Except FileError Found :=
  match pieces with
  | [] => .ok (.present loc .directory)
  | piece :: rest =>
    if Path.isIdle piece then fs.walk follow links loc rest
    else if piece = ['.', '.'] then fs.walk follow links loc.tail rest
    else
      let name := String.ofList piece
      let inner := name :: loc
      if nameLimit < name.utf8ByteSize then .error .nameTooLong
      else
        match fs.entry? inner with
        | none => if rest = [] then .ok (.absent inner) else .error .notFound
        | some .directory => fs.walk follow links inner rest
        | some (.file bytes) =>
          if rest = [] then .ok (.present inner (.file bytes)) else .error .notDirectory
        | some (.link target) =>
          if rest = [] ∧ follow = false then .ok (.present inner (.link target))
          else
            match links with
            | 0 => .error .tooManyLinks
            | links + 1 =>
              fs.walk follow links (linkStart loc ⟨target⟩) (Path.pieces ⟨target⟩ ++ rest)
termination_by (links, pieces.length)

/-- Looks up a path. -/
def locate (fs : FileSystem) (follow : Bool) (path : Path) : Except FileError Found :=
  if '\x00' ∈ path.text.toList then .error .nulInPath
  else if path.text = "" then .error .notFound
  else if pathLimit < path.text.utf8ByteSize then .error .nameTooLong
  else fs.walk follow linkLimit (if path.isAbsolute then [] else fs.here) path.pieces

/-- The location and entry at a path, behind links. -/
def stat (fs : FileSystem) (path : Path) : Except FileError (Location × Entry) :=
  match fs.locate true path with
  | .ok (.present loc entry) => .ok (loc, entry)
  | .ok (.absent _) => .error .notFound
  | .error e => .error e

/-- Whether a path leads to a file. -/
def isFile (fs : FileSystem) (path : Path) : Bool :=
  match fs.stat path with
  | .ok (_, .file _) => true
  | _ => false

/-- Whether a path leads to a directory. -/
def isDirectory (fs : FileSystem) (path : Path) : Bool :=
  match fs.stat path with
  | .ok (_, .directory) => true
  | _ => false

/-- Whether a path leads anywhere. -/
def pathExists (fs : FileSystem) (path : Path) : Bool := (fs.stat path).isOk

/-- The path of a location without links, dots and repeated slashes. -/
def locationPath (loc : Location) : Path :=
  ⟨String.ofList ('/' :: joinWith '/' (loc.reverse.map (·.toList)))⟩

/-- The path of what a path leads to without links, dots and repeated slashes. -/
def canonical (fs : FileSystem) (path : Path) : Except FileError Path :=
  (fs.stat path).map fun (loc, _) => locationPath loc

/-- The bytes of a file. -/
def read (fs : FileSystem) (path : Path) : Except FileError (List UInt8) :=
  match fs.stat path with
  | .ok (_, .file bytes) => .ok bytes
  | .ok _ => .error .isDirectory
  | .error e => .error e

/-- The text of a file. -/
def readText (fs : FileSystem) (path : Path) : Except FileError String :=
  match fs.read path with
  | .error e => .error e
  | .ok bytes =>
    match ofUtf8? bytes with
    | some text => .ok text
    | none => .error .notUtf8

theorem readText_of_read {fs : FileSystem} {path : Path} {text : String} (read : fs.read path = .ok (utf8Bytes text)) :
    fs.readText path = .ok text := by
  simp only [readText, read, ofUtf8?_utf8Bytes]

/-! ## Trees -/

/-- The names between a location and one below it, outermost first. -/
def namesBelow? (base loc : Location) : Option (List String) :=
  if base.isSuffixOf loc ∧ base.length < loc.length then
    some (loc.take (loc.length - base.length)).reverse
  else none

/-- The path with names behind it. -/
def joinNames (base : Path) (names : List String) : Path :=
  names.foldl (fun path name => path.join ⟨name⟩) base

/-- Whether a walk from a directory gets to names below it: a directory is entered by its path, which may be too long
    for that. -/
def isEntered (root : Path) (names : List String) : Bool :=
  (joinNames root names.dropLast).text.utf8ByteSize ≤ pathLimit

/-- The files below a directory that a walk gets to, written from the path that leads to it. Links below it are not
    files. -/
def filesBelow (fs : FileSystem) (root : Path) : List Path :=
  match fs.stat root with
  | .ok (base, .directory) =>
    fs.entries.entries.filterMap fun (loc, entry) =>
      match entry with
      | .file _ => ((namesBelow? base loc).filter (isEntered root)).map (joinNames root)
      | _ => none
  | _ => []

end FileSystem
end ModuleGraph
