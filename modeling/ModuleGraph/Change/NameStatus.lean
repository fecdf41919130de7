import ModuleGraph.Change.Basic
import ModuleGraph.Text.Blank
import ModuleGraph.Text.Split

/-!
Changes as a list of fields, each ended by a NUL: a status and then one path, or two for a move or a
copy. Paths are taken verbatim, so a path may hold anything else. The first letter of a status says
what happened; what follows it, such as a degree of likeness, says nothing more.
-/
namespace ModuleGraph
open Text

/-- What happened to one file. -/
inductive FileChange where
  | added (path : String)
  | modified (path : String)
  | deleted (path : String)
  | moved (source target : String)
  | copied (source target : String)
  deriving DecidableEq

/-- Adds one change. A moved file is deleted at one path and added at the other; a copy is added. -/
def ChangeSet.record (c : ChangeSet) : FileChange → ChangeSet
  | .added path => { c with added := c.added.insert path }
  | .modified path => { c with modified := c.modified.insert path }
  | .deleted path => { c with deleted := c.deleted.insert path }
  | .moved source target =>
    { c with deleted := c.deleted.insert source, added := c.added.insert target }
  | .copied _ target => { c with added := c.added.insert target }

/-- The changes of a list. -/
def ChangeSet.ofChanges (changes : List FileChange) : ChangeSet := changes.foldl record empty

namespace NameStatus

/-- Why a list of fields is no list of changes. -/
inductive Fault where
  | unknownStatus (status : String)
  | missingPath (status : String)
  deriving DecidableEq

/-- The wording of a fault. -/
def Fault.message : Fault → String
  | .unknownStatus status => status
  | .missingPath status => status ++ " without a path"

/-- How a status is followed up: by one path or by two. -/
inductive Shape where
  | one (change : String → FileChange)
  | two (change : String → String → FileChange)

/-- What a trimmed status stands for. -/
def shape? (status : List Char) : Option Shape :=
  match status with
  | 'A' :: _ => some (.one .added)
  | 'M' :: _ => some (.one .modified)
  | 'T' :: _ => some (.one .modified)
  | 'D' :: _ => some (.one .deleted)
  | 'R' :: _ => some (.two .moved)
  | 'C' :: _ => some (.two .copied)
  | _ => none

/-- The fields of an output, without the empty ones. -/
def fields (output : List Char) : List (List Char) :=
  (piecesAt '\x00' output).filter (· ≠ [])

/-- Puts fields together to changes. -/
def changes : List (List Char) → Except Fault (List FileChange)
  | [] => .ok []
  | status :: rest =>
    let status := trim status
    match shape? status with
    | none => .error (.unknownStatus (.ofList status))
    | some (.one change) =>
      match rest with
      | [] => .error (.missingPath (.ofList status))
      | path :: rest => (changes rest).map (change (.ofList path) :: ·)
    | some (.two change) =>
      match rest with
      | source :: target :: rest =>
        (changes rest).map (change (.ofList source) (.ofList target) :: ·)
      | _ => .error (.missingPath (.ofList status))

/-- Reads an output. -/
def parse (output : String) : Except Fault ChangeSet :=
  (changes (fields output.toList)).map ChangeSet.ofChanges

end NameStatus
end ModuleGraph
