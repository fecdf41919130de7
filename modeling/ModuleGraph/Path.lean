import ModuleGraph.Text.Split

/-!
Paths. A path is a text; what it names are its components, and two texts with the same components
name the same thing. A module is known by its path relative to the project, components joined by
slashes (`moduleId`).
-/
namespace ModuleGraph
open Text

/-- A path as it is written. -/
structure Path where
  text : String
  deriving DecidableEq, Inhabited

namespace Path

/-- One step of a path. -/
inductive Component where
  | root
  | here
  | up
  | name (text : String)
  deriving DecidableEq

/-- Whether a piece between slashes adds nothing to the pieces before it. -/
def isIdle (piece : List Char) : Bool := piece == [] || piece == ['.']

/-- The step that a piece between slashes stands for. -/
def Component.ofPiece (piece : List Char) : Component :=
  if piece = ['.', '.'] then .up else .name (String.ofList piece)

/-- The pieces of a path between its slashes. -/
def pieces (p : Path) : List (List Char) := piecesAt '/' p.text.toList

/-- Whether a path starts at the root of the file system. -/
def isAbsolute (p : Path) : Bool := p.text.toList.head? == some '/'

/-- The steps after the first piece. -/
def laterComponents (pieces : List (List Char)) : List Component :=
  (pieces.filter (!isIdle ·)).map .ofPiece

/-- The steps of a path: repeated slashes, slashes at the end and dots count for nothing, except
    for a dot at the start of a relative path. -/
def components (p : Path) : List Component :=
  match p.pieces with
  | [] => []
  | first :: rest =>
    if p.isAbsolute then .root :: laterComponents rest
    else if first = [] then laterComponents rest
    else if first = ['.'] then .here :: laterComponents rest
    else .ofPiece first :: laterComponents rest

/-- A path seen from another one. An absolute path is seen from everywhere alike. -/
def join (base tail : Path) : Path :=
  if tail.isAbsolute then tail
  else if base.text = "" || base.text.toList.getLast? == some '/' then ⟨base.text ++ tail.text⟩
  else ⟨base.text ++ "/" ++ tail.text⟩

/-- The pieces left when the last step and everything idle around it is cut off. -/
def withoutLast (pieces : List (List Char)) : List (List Char) :=
  dropEndWhile isIdle (dropEndWhile isIdle pieces).dropLast

/-- The path one step up, as the start of the text; the root and the empty path have none. -/
def parent? (p : Path) : Option Path :=
  match p.pieces with
  | [] => none
  | first :: rest =>
    let steps := dropEndWhile isIdle rest
    if p.isAbsolute then
      if steps = [] then none
      else some ⟨String.ofList ('/' :: joinWith '/' (withoutLast rest))⟩
    else if steps ≠ [] then some ⟨String.ofList (joinWith '/' (first :: withoutLast rest))⟩
    else if first = [] then none
    else some ⟨""⟩

/-- The last step of a path, if it is a name. -/
def fileName? (p : Path) : Option String :=
  match p.components.getLast? with
  | some (.name text) => some text
  | _ => none

/-- What follows the last dot of the last name, if anything stands before that dot. -/
def extension? (p : Path) : Option String :=
  match p.fileName? with
  | none => none
  | some name =>
    let reversed := name.toList.reverse
    match reversed.dropWhile (· != '.') with
    | [] => none
    | [_] => none
    | _ :: _ :: _ => some (String.ofList (reversed.takeWhile (· != '.')).reverse)

/-- The text of a step inside a module id. -/
def Component.idPart? : Component → Option (List Char)
  | .root => none
  | .here => none
  | .up => some ['.', '.']
  | .name text => some text.toList

/-- The steps of a path inside a root, or all its steps when it is outside. -/
def stepsWithin (root path : List Component) : List Component :=
  if root.isPrefixOf path then path.drop root.length else path

/-- The text of a list of steps, without dots. -/
def idText (steps : List Component) : String :=
  let parts := joinWith '/' (steps.filterMap Component.idPart?)
  String.ofList (if steps.head? = some .root then '/' :: parts else parts)

/-- The id of the module at a path: its path inside the root, or the whole path outside it. -/
def moduleId (root path : Path) : String :=
  idText (stepsWithin root.components path.components)

/-- A path relative to the project, written as a module id. -/
def normalised (text : String) : String := moduleId ⟨""⟩ ⟨text⟩

end Path
end ModuleGraph
