import ModuleGraph.FileSystem.Basic
import ModuleGraph.Import.Python
import ModuleGraph.LineMetrics

/-!
What is read off one source file: its imports and its line counts.
-/
namespace ModuleGraph

/-- Why a source file gives nothing. -/
inductive SourceError where
  | unreadable (path : Path) (cause : String)
  /-- The language of the file is not at hand. -/
  | grammar (cause : String)
  | unparsed (path : Path)
  deriving DecidableEq

namespace SourceError

/-- The wording of an error. -/
def message : SourceError → String
  | .unreadable path cause => "failed to read " ++ path.text ++ ": " ++ cause
  | .grammar cause => "failed to load grammar: " ++ cause
  | .unparsed path => "failed to parse " ++ path.text

end SourceError

/-- A way to read the imports of a source file. -/
abbrev Extractor : Type := FileSystem → Path → Except SourceError (List Import)

/-- The text of a source file. -/
def sourceText (fs : FileSystem) (path : Path) : Except SourceError String :=
  match fs.readText path with
  | .ok text => .ok text
  | .error e => .error (.unreadable path e.message)

/-- Reads the imports of Python source with a grammar of that language, or says why it has none. -/
def Python.extractor (grammar : Except String Grammar) : Extractor := fun fs path =>
  match grammar with
  | .error cause => .error (.grammar cause)
  | .ok parse => do
    let source ← sourceText fs path
    match parse source with
    | some tree => .ok (collectImports source tree)
    | none => .error (.unparsed path)

/-- Counts the lines of a source file. -/
def LineMetrics.ofFile (fs : FileSystem) (path : Path) : Except SourceError LineMetrics :=
  (sourceText fs path).map fun text => LineMetrics.ofSource text.toList

end ModuleGraph
