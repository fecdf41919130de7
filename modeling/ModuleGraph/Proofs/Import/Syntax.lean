import ModuleGraph.Proofs.Import.Rendering
import ModuleGraph.Proofs.Import.Span
import ModuleGraph.Proofs.Import.Traversal

/-!
The syntax tree of a written program, as a grammar of Python documents it (`Block.IsTree`): which nodes stand
for names, statements and bodies, in which fields, and which texts they span. Nothing is said of the nodes of
strings, conditions and parameters but that none of them is an import statement.
-/
namespace ModuleGraph
open Text

/-- No import statement stands in the tree below a node, nor is it one. -/
def Node.IsQuiet (n : Node) : Prop := ∀ m ∈ n.nodes, m.kind ∉ Python.importKinds

instance (n : Node) : Decidable n.IsQuiet := inferInstanceAs (Decidable (∀ m ∈ n.nodes, m.kind ∉ Python.importKinds))

/-- A comment or a joined line. These may stand among the children of any node. -/
structure Node.IsExtra (n : Node) : Prop where
  kind : n.kind = "comment" ∨ n.kind = "line_continuation"
  leaf : n.children = []

namespace Python
variable {wide : Bool} (source : String)

/-! ## Names -/

/-- The node of a dotted name behind a text. -/
structure Dotted.IsNode (d : Dotted) (front : List Char) (n : Node) : Prop where
  kind : n.kind = "dotted_name"
  spans : n.Spans source front d.text

/-- The node of an imported thing behind a text. -/
inductive Item.IsNode (i : Item wide) (front : List Char) (n : Node) : Prop where
  | plain (bare : i.goesBy = none) (named : i.name.IsNode source front n)
  | aliased {a : Alias wide} {name : Node} (goesBy : i.goesBy = some a) (kind : n.kind = "aliased_import")
    (first : n.childByField? "name" = some name) (named : i.name.IsNode source front name)

/-- Things in a row, each with the text in front of it. -/
def placed (front : List Char) (first : Item wide) :
    List (Gap wide × Gap wide × Item wide) → List (List Char × Item wide)
  | [] => [(front, first)]
  | (before, after, next) :: rest =>
    (front, first) :: placed (front ++ first.text ++ comma before after) next rest

/-- The nodes of imported things of which the first stands behind a text. -/
def Items.AreNodes (items : Items wide) (front : List Char) (ns : List Node) : Prop :=
  List.Forall₂ (fun (at' : List Char × Item wide) n => at'.2.IsNode source at'.1 n)
    (placed front items.first items.more) ns

/-! ## Statements -/

/-- The node of the module from which names are imported. -/
inductive Origin.IsNode (front : List Char) : Origin → Node → Prop where
  | absolute {before : Space false} {name : Dotted} {after : Space false} {n : Node}
    (named : name.IsNode source (front ++ before.text) n) : IsNode front (.absolute before name after) n
  | dots {first : Gap false} {more : List (Gap false)} {last : Gap false} {n level : Node}
    (kind : n.kind = "relative_import") (first? : n.childOfKind? "import_prefix" = some level)
    (spans : level.Spans source (front ++ fill first) (dots more)) (bare : n.childOfKind? "dotted_name" = none) :
    IsNode front (.relative first more last none) n
  | dotsAndName {first : Gap false} {more : List (Gap false)} {last : Gap false} {name : Dotted} {after : Space false}
    {n level dotted : Node} (kind : n.kind = "relative_import") (first? : n.childOfKind? "import_prefix" = some level)
    (spans : level.Spans source (front ++ fill first) (Python.dots more))
    (second? : n.childOfKind? "dotted_name" = some dotted)
    (named : name.IsNode source (front ++ fill first ++ Python.dots more ++ fill last) dotted) :
    IsNode front (.relative first more last (some (name, after))) n

/-- The nodes of the names that are taken out of a module. -/
def Taken.AreNodes (front : List Char) : Taken → List Node → Prop
  | .star _, ns => ns = []
  | .bare before items, ns => items.AreNodes source (front ++ before.text) ns
  | .enclosed before first items _ _, ns => items.AreNodes source (front ++ fill before ++ '(' :: fill first) ns

/-- Whether names are imported from the module that stands for features of the language. -/
def Origin.IsFuture (origin : Origin) : Prop := origin.level = 0 ∧ origin.path = "__future__"

instance (origin : Origin) : Decidable origin.IsFuture := inferInstanceAs (Decidable (_ ∧ _))

/-- The node of a simple statement behind a text. -/
inductive Statement.IsNode (front : List Char) : Statement → Node → Prop where
  | pass {n : Node} (kind : n.kind = "pass_statement") (quiet : n.IsQuiet) : IsNode front .pass n
  | string {l : Literal} {n : Node} (kind : n.kind = "expression_statement") (quiet : n.IsQuiet) :
    IsNode front (.string l) n
  | imports {before : Space false} {items : Items false} {n : Node} (kind : n.kind = "import_statement")
    (spans : n.Spans source front (Statement.imports before items).text)
    (names : items.AreNodes source (front ++ "import".toList ++ before.text) (n.childrenByField "name")) :
    IsNode front (.imports before items) n
  | future {origin : Origin} {taken : Taken} {n : Node} (isFuture : origin.IsFuture)
    (kind : n.kind = "future_import_statement") (spans : n.Spans source front (Statement.importsFrom origin taken).text)
    (names : taken.AreNodes source (front ++ "from".toList ++ origin.text ++ "import".toList)
      (n.childrenByField "name")) :
    IsNode front (.importsFrom origin taken) n
  | importsFrom {origin : Origin} {taken : Taken} {n module : Node} (other : ¬origin.IsFuture)
    (kind : n.kind = "import_from_statement") (spans : n.Spans source front (Statement.importsFrom origin taken).text)
    (first : n.childByField? "module_name" = some module)
    (ofModule : origin.IsNode source (front ++ "from".toList) module)
    (names : taken.AreNodes source (front ++ "from".toList ++ origin.text ++ "import".toList)
      (n.childrenByField "name")) :
    IsNode front (.importsFrom origin taken) n

/-! ## Blocks -/

/-- The kind of a compound statement. -/
def Opening.kind : Opening → String
  | .definition => "function_definition"
  | .classDefinition => "class_definition"
  | .condition => "if_statement"
  | .attempt => "try_statement"

/-- The kind of a clause. -/
def Branch.kind : Branch → String
  | .otherCondition => "elif_clause"
  | .otherwise => "else_clause"
  | .handler => "except_clause"
  | .cleanup => "finally_clause"

/-- The nodes of a row of statements or clauses behind a text. The body of a compound statement and of a
    clause is a node of its own, behind those of the header. -/
inductive Block.AreNodes : {role : Role} → List Char → List Bool → Block role → List Node → Prop where
  | nil {role : Role} {front : List Char} {indent : List Bool} : AreNodes front indent (.nil : Block role) []
  | extra {role : Role} {front : List Char} {indent : List Bool} {b : Block role} {n : Node} {ns : List Node}
    (extra : n.IsExtra) (more : AreNodes front indent b ns) : AreNodes front indent b (n :: ns)
  | nothing {front : List Char} {indent : List Bool} {ending : Ending} {rest : Block .statements} {ns : List Node}
    (more : AreNodes (front ++ indentation indent ++ Statement.nothing.text ++ ending.text) indent rest ns) :
    AreNodes front indent (.line .nothing ending rest) ns
  | line {front : List Char} {indent : List Bool} {statement : Statement} {ending : Ending} {rest : Block .statements}
    {n : Node} {ns : List Node} (first : statement.IsNode source (front ++ indentation indent) n)
    (more : AreNodes (front ++ indentation indent ++ statement.text ++ ending.text) indent rest ns) :
    AreNodes front indent (.line statement ending rest) (n :: ns)
  | compound {front before behind : List Char} {indent deeper : List Bool} {opening : Opening} {header : Header}
    {body rest : Block .statements} {clauses : Block .clauses} {n block : Node} {heads tails ns : List Node}
    (kind : n.kind = opening.kind) (children : n.children = heads ++ block :: tails) (quiet : ∀ h ∈ heads, h.IsQuiet)
    (isBlock : block.kind = "block") (start : before = front ++ indentation indent ++ header.text opening.keyword)
    (inside : AreNodes before (indent ++ deeper) body block.children)
    (stop : behind = before ++ body.text (indent ++ deeper)) (branches : AreNodes behind indent clauses tails)
    (more : AreNodes (behind ++ clauses.text indent) indent rest ns) :
    AreNodes front indent (.compound opening header deeper body clauses rest) (n :: ns)
  | clause {front before : List Char} {indent deeper : List Bool} {branch : Branch} {header : Header}
    {body : Block .statements} {rest : Block .clauses} {n block : Node} {heads tails ns : List Node}
    (kind : n.kind = branch.kind) (children : n.children = heads ++ block :: tails) (quiet : ∀ h ∈ heads, h.IsQuiet)
    (isBlock : block.kind = "block") (start : before = front ++ indentation indent ++ header.text branch.keyword)
    (inside : AreNodes before (indent ++ deeper) body block.children) (extras : ∀ t ∈ tails, t.IsExtra)
    (more : AreNodes (before ++ body.text (indent ++ deeper)) indent rest ns) :
    AreNodes front indent (.clause branch header deeper body rest) (n :: ns)

/-- The syntax tree of a program. -/
structure Block.IsTree (b : Block .statements) (tree : Node) : Prop where
  kind : tree.kind = "module"
  children : b.AreNodes b.source [] [] tree.children

end Python
end ModuleGraph
