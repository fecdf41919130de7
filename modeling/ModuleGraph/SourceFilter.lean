import ModuleGraph.FileSystem.Basic
import ModuleGraph.Glob.Matching

/-!
Which files are source files: those with the source extension that an include pattern takes in and
no exclude pattern takes out. The files of a project are enumerated by walking its tree or by going
through a list of names.
-/
namespace ModuleGraph

/-- A source file and the id of its module. -/
structure SourceFile where
  path : Path
  moduleId : String
  deriving DecidableEq

/-- A test for source files. -/
structure SourceFilter where
  /-- The patterns of which one has to match, or none if every path will do. -/
  include_ : Option (List Glob.Matcher)
  exclude : List Glob.Matcher
  extension : String

/-- A pattern that cannot be read. -/
structure GlobError where
  pattern : String
  cause : Glob.PatternError
  deriving DecidableEq

/-- A text without the dots at its start. -/
def dropLeadingDots (text : String) : String := String.ofList (text.toList.dropWhile (· == '.'))

namespace SourceFilter

/-- Compiles patterns in order, up to the first that cannot be read. -/
def compileAll : List String → Except GlobError (List Glob.Matcher)
  | [] => .ok []
  | pattern :: rest =>
    match Glob.compile pattern with
    | .error cause => .error ⟨pattern, cause⟩
    | .ok matcher => (compileAll rest).map (matcher :: ·)

/-- The test with the given patterns and extension; dots in front of the extension do not count.
    Without include patterns every path is included. -/
def ofPatterns (included excluded : List String) (extension : String) :
    Except GlobError SourceFilter := do
  let include_ ← compileAll included
  let exclude ← compileAll excluded
  .ok ⟨if included.isEmpty then none else some include_, exclude, dropLeadingDots extension⟩

/-- Whether a path has the source extension. -/
def hasSourceExtension (f : SourceFilter) (relative : String) : Bool :=
  Path.extension? ⟨relative⟩ == some f.extension

/-- Whether an include pattern takes a path in. -/
def includes (f : SourceFilter) (relative : String) : Bool :=
  match f.include_ with
  | none => true
  | some matchers => matchers.any (·.accepts relative)

/-- Whether the path of a file relative to the project makes it a source file. -/
def accepts (f : SourceFilter) (relative : String) : Bool :=
  f.hasSourceExtension relative && f.includes relative &&
    !f.exclude.any (·.accepts relative)

/-- Files in the order of their ids. -/
def sortById (files : List SourceFile) : List SourceFile :=
  files.mergeSort fun a b => !(b.moduleId < a.moduleId)

/-- The source files among files below a directory, in the order of their ids. -/
def collect (f : SourceFilter) (root : Path) (paths : List Path) : List SourceFile :=
  sortById ((paths.map fun path => ⟨path, Path.moduleId root path⟩).filter (f.accepts ·.moduleId))

/-- The source files below a directory, in the order of their ids; none if there is no such
    directory. -/
def scan? (f : SourceFilter) (fs : FileSystem) (root : Path) : Option (List SourceFile) :=
  if fs.isDirectory root then some (f.collect root (fs.filesBelow root)) else none

/-- Leaves out each file with the same id as the file before it. -/
def dropRepeated : List SourceFile → List SourceFile
  | a :: b :: rest =>
    if a.moduleId = b.moduleId then dropRepeated (a :: rest) else a :: dropRepeated (b :: rest)
  | files => files
termination_by files => files.length

/-- The source files among names relative to a directory, in the order of their ids and each once.
    Names that lead to no file are passed over. -/
def select (f : SourceFilter) (fs : FileSystem) (root : Path) (names : List String) :
    List SourceFile :=
  dropRepeated (sortById ((names.map fun name =>
    let id := Path.normalised name
    ⟨root.join ⟨id⟩, id⟩).filter fun file => f.accepts file.moduleId && fs.isFile file.path))

end SourceFilter
end ModuleGraph
