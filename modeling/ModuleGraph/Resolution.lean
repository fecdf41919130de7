import ModuleGraph.FileSystem.Basic
import ModuleGraph.Import.Basic
import ModuleGraph.SourceFilter

/-!
Where imports lead. Candidates are probed in a fixed order; the first that is a file decides, and so
does the first that cannot be examined. An import that leads nowhere is external unless its dotted
name says that it belongs to the project. Answers are remembered; errors are not.
-/
namespace ModuleGraph

/-- Where an import leads. -/
inductive Resolution where
  | resolved (path : Path)
  /-- A module from outside the project. -/
  | external
  /-- It looks like a module of the project, but there is no file. -/
  | unresolved
  deriving DecidableEq

/-- Why an import cannot be resolved. -/
inductive ResolutionError where
  /-- A relative import does not say where it stands. -/
  | missingSource (specifier : String)
  | unexaminable (path : Path) (cause : FileError)
  deriving DecidableEq

namespace ResolutionError

/-- The wording of an error. -/
def message : ResolutionError → String
  | .missingSource specifier =>
    "relative import '" ++ specifier ++ "' has no source file context"
  | .unexaminable path cause => "failed to stat " ++ path.text ++ ": " ++ cause.message

end ResolutionError

/-- What is asked about an import: its module, the file it stands in and its leading dots. -/
structure Query where
  modulePath : String
  source : Option Path
  level : Nat
  deriving DecidableEq

/-- What to search for modules. -/
structure SearchPath where
  /-- The project root and then the extra roots. -/
  roots : List Path
  /-- The extension of source files. -/
  extension : String
  deriving DecidableEq

/-- Whether two paths have the same steps. -/
def Path.same (p q : Path) : Bool := p.components == q.components

namespace SearchPath

/-- The search path of a project with extra roots, each root once. -/
def ofRoots (project : Path) (extra : List Path) (extension : String) : SearchPath where
  roots := extra.foldl (fun roots root => if roots.any (·.same root) then roots else roots ++ [root])
    [project]
  extension := dropLeadingDots extension

end SearchPath

namespace Query

/-- The import as written. -/
def specifier (q : Query) : String := ModuleGraph.specifier q.modulePath q.level

/-- Whether an import that leads nowhere is external: it has no dot, or it starts with one. -/
def isExternal (q : Query) : Bool :=
  let text := q.specifier.toList
  !text.contains '.' || text.head? == some '.'

end Query

namespace Resolution

/-- The extensions of compiled modules. -/
def binaryExtensions : List String := ["pyd", "so", "pyc"]

/-- A path with a dot and an extension behind it. -/
def withExtension (base : Path) (extension : String) : Path := ⟨base.text ++ "." ++ extension⟩

/-- The candidates for a module at a path: the source file, the file of the package, and the
    compiled modules. -/
def candidates (extension : String) (base : Path) : List Path :=
  withExtension base extension :: base.join ⟨"__init__." ++ extension⟩ ::
    binaryExtensions.map (withExtension base)

/-- The parts of a dotted name. -/
def moduleParts (modulePath : String) : List String :=
  ((Text.piecesAt '.' modulePath.toList).filter (· ≠ [])).map String.ofList

/-- The path of a module below a directory. -/
def joinModule (base : Path) (modulePath : String) : Path :=
  (moduleParts modulePath).foldl (fun path part => path.join ⟨part⟩) base

/-- The path some steps up, as far as there are steps. -/
def ancestor (base : Path) : Nat → Path
  | 0 => base
  | steps + 1 =>
    match base.parent? with
    | none => base
    | some parent => ancestor parent steps

/-- The directory that a relative import starts from. -/
def relativeBase (source : Path) (level : Nat) : Path :=
  ancestor (source.parent?.getD ⟨""⟩) (level - 1)

/-- What a look at a candidate says. -/
inductive Probe where
  | file
  | nothing
  | failed (cause : FileError)
  deriving DecidableEq

/-- Looks at a candidate. What is missing or no file is no error. -/
def probe (fs : FileSystem) (path : Path) : Probe :=
  match fs.stat path with
  | .ok (_, .file _) => .file
  | .ok _ => .nothing
  | .error .notFound => .nothing
  | .error .notDirectory => .nothing
  | .error cause => .failed cause

/-- The first decisive candidate. -/
def firstFile (fs : FileSystem) : List Path → Except ResolutionError (Option Path)
  | [] => .ok none
  | path :: rest =>
    match probe fs path with
    | .file => .ok (some path)
    | .nothing => firstFile fs rest
    | .failed cause => .error (.unexaminable path cause)

/-- All candidates of a query, in order. -/
def candidatesOf (search : SearchPath) (q : Query) : Except ResolutionError (List Path) :=
  if q.level = 0 then
    if q.modulePath = "" then .ok []
    else .ok (search.roots.flatMap fun root =>
      candidates search.extension (joinModule root q.modulePath))
  else
    match q.source with
    | none => .error (.missingSource q.specifier)
    | some source =>
      .ok (candidates search.extension (joinModule (relativeBase source q.level) q.modulePath))

/-- Where an import leads, without memory. -/
def resolve (fs : FileSystem) (search : SearchPath) (q : Query) : Except ResolutionError Resolution := do
  match ← firstFile fs (← candidatesOf search q) with
  | some path => .ok (.resolved path)
  | none => .ok (if q.isExternal then .external else .unresolved)

end Resolution

/-! ## Memory -/

/-- Answers that have been given. -/
abbrev Memo : Type := List (Query × Resolution)

namespace Memo

/-- Whether two queries ask the same: the paths of their files may be written differently. -/
def sameQuery (a b : Query) : Bool :=
  a.modulePath == b.modulePath && a.level == b.level &&
    a.source.map Path.components == b.source.map Path.components

/-- The remembered answer to a query. -/
def find? (memo : Memo) (q : Query) : Option Resolution :=
  (List.find? (fun entry => sameQuery entry.1 q) memo).map (·.2)

/-- Answers a query from memory or by looking, and remembers what was found. -/
def resolve (fs : FileSystem) (search : SearchPath) (memo : Memo) (q : Query) :
    Except ResolutionError Resolution × Memo :=
  match memo.find? q with
  | some known => (.ok known, memo)
  | none =>
    match Resolution.resolve fs search q with
    | .ok found => (.ok found, (q, found) :: memo)
    | .error e => (.error e, memo)

end Memo
end ModuleGraph
