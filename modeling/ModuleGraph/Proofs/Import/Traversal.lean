import Mathlib.Data.List.Flatten
import ModuleGraph.Import.Source

/-!
The walk through a syntax tree. The cursor visits the import statements at every depth from left to right
and nothing inside of them (`Python.collect_eq`), so the imports of a source are those of its statements,
statement by statement (`Python.collectImports_eq`).
-/
namespace ModuleGraph

/-- To prove something of all trees, prove it of a node whose children have it. -/
@[elab_as_elim]
theorem Node.induction {motive : Node → Prop} (step : ∀ n, (∀ child ∈ n.children, motive child) → motive n)
    (n : Node) : motive n := by
  induction size : n.nodes.length using Nat.strongRecOn generalizing n with
  | ind size ih =>
    subst size
    refine step n fun child below => ih _ ?_ child rfl
    have inside : child.nodes.length ≤ (n.children.flatMap Node.nodes).length :=
      (List.sublist_flatten_of_mem (List.mem_map_of_mem below)).length_le
    rw [n.nodes_eq, List.length_cons]
    omega

namespace Python

/-- The kinds of import statements. -/
def importKinds : List String := ["import_statement", "import_from_statement", "future_import_statement"]

mutual

/-- The import statements of a tree, from left to right. -/
def statements : Node → List Node
  | ⟨kind, field, row, start, stop, children⟩ =>
    if kind ∈ importKinds then [⟨kind, field, row, start, stop, children⟩] else allStatements children

/-- The import statements of some trees, tree by tree. -/
def allStatements : List Node → List Node
  | [] => []
  | n :: rest => statements n ++ allStatements rest

end

theorem allStatements_eq (ns : List Node) : allStatements ns = ns.flatMap statements := by
  induction ns with
  | nil => simp only [allStatements, List.flatMap_nil]
  | cons n rest ih => rw [allStatements, ih, List.flatMap_cons]

theorem statements_eq (n : Node) :
    statements n = if n.kind ∈ importKinds then [n] else n.children.flatMap statements := by
  cases n
  rw [statements, allStatements_eq]

theorem isImport_of_mem_statements {n m : Node} (member : m ∈ statements n) : m.kind ∈ importKinds := by
  induction n using Node.induction with
  | step n ih =>
    rw [statements_eq] at member
    split at member
    · rename_i here
      rwa [List.mem_singleton.mp member]
    · obtain ⟨child, below, inside⟩ := List.mem_flatMap.mp member
      exact ih child below inside

/-- Statements come in the order of the nodes. -/
theorem statements_sublist (n : Node) : List.Sublist (statements n) n.nodes := by
  induction n using Node.induction with
  | step n ih =>
    rw [statements_eq, n.nodes_eq]
    split
    · exact List.singleton_sublist.mpr List.mem_cons_self
    · exact (List.Sublist.flatMap_right n.children ih).cons n

/-! ## Visits -/

/-- A node that is no import statement has no imports of its own, and is searched. -/
theorem visit_of_not_mem {n : Node} (other : n.kind ∉ importKinds) (source : Array UInt8) :
    visit source n = ([], true) := by
  simp only [importKinds, List.mem_cons, List.not_mem_nil, or_false, not_or] at other
  unfold visit
  split
  · exact absurd ‹_› other.1
  · exact absurd ‹_› other.2.1
  · exact absurd ‹_› other.2.2
  · rfl

/-- An import statement is not searched. -/
theorem visit_of_mem {n : Node} (isImport : n.kind ∈ importKinds) (source : Array UInt8) :
    (visit source n).2 = false := by
  simp only [importKinds, List.mem_cons, List.not_mem_nil, or_false] at isImport
  rcases isImport with kind | kind | kind <;> simp only [visit, kind]

/-- The imports of the statements in a tree, from left to right. -/
def importsIn (source : Array UInt8) (n : Node) : List Import := (statements n).flatMap fun m => (visit source m).1

theorem importsIn_eq (source : Array UInt8) (n : Node) : importsIn source n =
    (visit source n).1 ++ (if (visit source n).2 then n.children else []).flatMap (importsIn source) := by
  rw [importsIn, statements_eq]
  split
  · rename_i isImport
    simp [visit_of_mem isImport]
  · rename_i other
    rw [visit_of_not_mem other, List.flatMap_assoc, List.nil_append, if_pos rfl]
    rfl

/-- From a cursor on, the imports are those of the statements that it would come to. The induction is over
    the moves of the cursor, each of which leaves behind what one visit yields. -/
theorem collect_eq (source : Array UInt8) (c : Cursor) (found : List Import) :
    collect source c found = found ++ c.gather (importsIn source) := by
  have onward (c : Cursor) : c.gather (importsIn source) =
      (visit source c.node).1 ++ (c.advance? (visit source c.node).2).elim [] (·.gather (importsIn source)) := by
    rw [Cursor.gather_leave, Cursor.gather_advance, importsIn_eq, List.append_assoc]
    cases (visit source c.node).2 <;> rfl
  fun_induction collect source c found with
  | case1 c found visited next moved ih =>
    rw [ih, onward c, moved, List.append_assoc]
    rfl
  | case2 c found visited ended =>
    rw [onward c, ended, Option.elim_none, List.append_nil]

/-- The imports of a source are those of its statements, from left to right, at whatever depth they stand. -/
theorem collectImports_eq (source : String) (tree : Node) :
    collectImports source tree = importsIn source.toUTF8.data tree := by
  rw [collectImports, collect_eq]
  simp [Cursor.gather, Node.walk]

theorem extractor_of_read {grammar : Grammar} {tree : Node} {fs : FileSystem} {path : Path} {source : String}
    (read : fs.readText path = .ok source) (parsed : grammar source = some tree) :
    extractor (.ok grammar) fs path = .ok (importsIn source.toUTF8.data tree) := by
  simp only [extractor, sourceText, read, bind, Except.bind, parsed, collectImports_eq]

/-- The syntax tree of a source that is one line long and imports one module, or none. -/
def lineTree (source : String) : Node :=
  let stop := source.utf8ByteSize - 1
  let name : Node := ⟨"dotted_name", some "name", 0, 7, stop, [⟨"identifier", none, 0, 7, stop, []⟩]⟩
  let statement : Node := ⟨"import_statement", none, 0, 0, stop, [⟨"import", none, 0, 0, 6, []⟩, name]⟩
  ⟨"module", none, 0, 0, stop + 1, if "import ".toList.isPrefixOf source.toList then [statement] else []⟩

/-- What reads such sources. -/
def lineExtractor : Extractor := extractor (.ok fun source => some (lineTree source))

theorem lineExtractor_of_read {fs : FileSystem} {path : Path} {source : String} (read : fs.readText path = .ok source) :
    lineExtractor fs path = .ok (importsIn source.toUTF8.data (lineTree source)) := extractor_of_read read rfl

example : importsIn "import b\n".toUTF8.data (lineTree "import b\n") = [⟨.absolute, "b", 0, 1, []⟩] := by
  decide

theorem lineExtractor_of_not_text {fs : FileSystem} {path : Path} {bytes : List UInt8} (read : fs.read path = .ok bytes)
    (noText : Text.ofUtf8? bytes = none) :
    lineExtractor fs path = .error (.unreadable path FileError.notUtf8.message) := by
  simp only [lineExtractor, extractor, sourceText, FileSystem.readText, read, noText, bind, Except.bind]

end Python
end ModuleGraph
