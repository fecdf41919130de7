import ModuleGraph.Import.Basic
import ModuleGraph.Import.Tree
import ModuleGraph.Text.Blank

/-!
The imports of Python source, read off its syntax tree. Import statements are taken from every depth, in
the order of the source, and nothing is searched for inside of them.
-/
namespace ModuleGraph.Python
open Text

/-- The text of a dotted name without the blanks and the joined lines that may stand around its dots. -/
def normaliseDotted (text : String) : String :=
  String.ofList (text.toList.filter fun c => !isBlank c && c != '\\')

/-- The dotted name that a node gives: its own, or the one that an alias stands for. -/
def dottedName? (source : Array UInt8) (n : Node) : Option String :=
  let target? :=
    if n.kind = "aliased_import" then n.childByField? "name"
    else if n.kind = "dotted_name" ∨ n.kind = "identifier" then some n
    else none
  target?.bind fun target =>
    let name := normaliseDotted (target.text source)
    if name = "" then none else some name

/-- The names that a statement imports. -/
def importedNames (source : Array UInt8) (n : Node) : List String :=
  (n.childrenByField "name").filterMap (dottedName? source)

/-- The imports of `import a.b, c as d`, one for each module. -/
def plainImports (source : Array UInt8) (n : Node) : List Import :=
  (importedNames source n).map fun modulePath => ⟨.absolute, modulePath, 0, n.line, []⟩

/-- The number of dots in front of a relative module, one if they are missing. -/
def relativeLevel (source : Array UInt8) (module : Node) : Nat :=
  match module.childOfKind? "import_prefix" with
  | some dots => (dots.text source).toList.count '.'
  | none => 1

/-- The dotted name behind the dots of a relative module, empty if there is none. -/
def relativePath (source : Array UInt8) (module : Node) : String :=
  match module.childOfKind? "dotted_name" with
  | some dotted => normaliseDotted (dotted.text source)
  | none => ""

/-- The import of `from a.b import c, d` or `from .. import c`, missing if the statement names no module. -/
def importFrom? (source : Array UInt8) (n : Node) : Option Import :=
  (n.childByField? "module_name").map fun module =>
    let names := importedNames source n
    if module.kind = "relative_import" then
      ⟨.relative, relativePath source module, relativeLevel source module, n.line, names⟩
    else ⟨.absolute, normaliseDotted (module.text source), 0, n.line, names⟩

/-- The import of `from __future__ import a, b`. -/
def futureImport (source : Array UInt8) (n : Node) : Import :=
  ⟨.absolute, "__future__", 0, n.line, importedNames source n⟩

/-- The imports of a node if it is an import statement, and whether to search below it. -/
def visit (source : Array UInt8) (n : Node) : List Import × Bool :=
  match n.kind with
  | "import_statement" => (plainImports source n, false)
  | "import_from_statement" => ((importFrom? source n).toList, false)
  | "future_import_statement" => ([futureImport source n], false)
  | _ => ([], true)

/-- The imports from a cursor on, behind those that were found before. -/
def collect (source : Array UInt8) (c : Cursor) (found : List Import) : List Import :=
  let visited := visit source c.node
  match _moved : c.advance? visited.2 with
  | some next => collect source next (found ++ visited.1)
  | none => found ++ visited.1
termination_by c.ahead.length
decreasing_by exact Cursor.length_ahead_advance _moved

/-- The imports of a source, in order, given its syntax tree. -/
def collectImports (source : String) (tree : Node) : List Import := collect source.toUTF8.data tree.walk []

end ModuleGraph.Python
