import ModuleGraph.Extraction.Inquiry
import ModuleGraph.Graph.Basic
import ModuleGraph.Import.Source

/-!
What one file contributes to the graph. Of `from X import a, b` each name is first looked up as a
module inside `X`; `X` itself is looked up only if there are no names or some name is no such module.
-/
namespace ModuleGraph

/-- What went wrong with a file. -/
inductive FileErrorKind where
  | extraction
  | resolution
  deriving DecidableEq

/-- A failure that concerns one file alone. -/
structure FileFailure where
  file : String
  kind : FileErrorKind
  message : String
  deriving DecidableEq

/-- What one file contributes. -/
structure Outcome where
  moduleId : String
  /-- What is known of the module, or none if its imports could not be read. -/
  info : Option ModuleInfo
  edges : List (String × EdgeLabel)
  unresolved : List String
  external : List String
  failures : List FileFailure
  deriving DecidableEq

namespace Outcome

/-- Nothing yet. -/
def start (moduleId : String) : Outcome := ⟨moduleId, none, [], [], [], []⟩

/-- The outcome with one more failure. -/
def fail (o : Outcome) (kind : FileErrorKind) (message : String) : Outcome :=
  { o with failures := o.failures ++ [⟨o.moduleId, kind, message⟩] }

/-- The outcome with one more edge, to the module at a path. -/
def addEdge (o : Outcome) (root path : Path) (i : Import) (modulePath : String) : Outcome :=
  let label : EdgeLabel := ⟨specifier modulePath i.level, i.kind, i.line⟩
  { o with edges := o.edges ++ [(Path.moduleId root path, label)] }

/-- The name of a module inside another one. -/
def submodule (modulePath name : String) : String :=
  if modulePath = "" then name else modulePath ++ "." ++ name

/-- Looks up names as modules inside the module of an import. Gives the outcome and whether the
    module itself is needed. -/
def resolveNames (root source : Path) (i : Import) :
    List String → Outcome → Bool → Inquiry (Outcome × Bool)
  | [], o, needed => .done (o, needed)
  | name :: names, o, needed =>
    let modulePath := submodule i.modulePath name
    .ask ⟨modulePath, some source, i.level⟩ fun answer =>
      match answer with
      | .ok (.resolved path) => resolveNames root source i names (o.addEdge root path i modulePath) needed
      | .ok _ => resolveNames root source i names o true
      | .error e => resolveNames root source i names (o.fail .resolution e.message) needed

/-- Looks up the module of an import. -/
def resolveModule (root source : Path) (i : Import) (o : Outcome) : Inquiry Outcome :=
  .ask ⟨i.modulePath, some source, i.level⟩ fun answer =>
    let name := specifier i.modulePath i.level
    .done <|
      match answer with
      | .ok (.resolved path) => o.addEdge root path i i.modulePath
      | .ok .external => { o with external := o.external ++ [name] }
      | .ok .unresolved => { o with unresolved := o.unresolved ++ [name] }
      | .error e => o.fail .resolution e.message

/-- Looks up an import. -/
def resolveImport (root source : Path) (i : Import) (o : Outcome) : Inquiry Outcome :=
  (resolveNames root source i i.names o i.names.isEmpty).bind fun (o, needed) =>
    if needed then resolveModule root source i o else .done o

/-- Looks up imports, in order. -/
def resolveImports (root source : Path) : List Import → Outcome → Inquiry Outcome
  | [], o => .done o
  | i :: rest, o => (resolveImport root source i o).bind (resolveImports root source rest)

/-- The outcome of a file, given the imports that were read from it. -/
def ofImports (root : Path) (file : SourceFile) : Except SourceError (List Import) → Inquiry Outcome
  | .error e => .done ((start file.moduleId).fail .extraction e.message)
  | .ok imports =>
    (resolveImports root file.path imports (start file.moduleId)).bind fun o =>
      .done { o with info := some (.scanned imports) }

end Outcome
end ModuleGraph
