import ModuleGraph.Proofs.Import.Spelling
import ModuleGraph.Text.Split

/-!
Python programs as far as imports go: blocks of statements nested to any depth, the imports that they
hold, and how they are written. Everything a writer is free in is part of the syntax: the blanks around
dots and commas, the lines over which names in brackets go, comments, indentation.
-/
namespace ModuleGraph.Python
open Text

/-! ## Names -/

/-- What is written between two tokens. Inside brackets, which is what `wide` says, it may go over
    several lines and hold comments. -/
inductive Filler : (wide : Bool) → Type where
  | blank {wide : Bool} (tab : Bool) : Filler wide
  /-- A backslash that joins a line to the next one. -/
  | joint {wide : Bool} : Filler wide
  | lineFeed : Filler true
  | comment (text : List Char) (inLine : '\n' ∉ text) : Filler true

/-- What may stand between two tokens. -/
abbrev Gap (wide : Bool) : Type := List (Filler wide)

/-- What must stand between two words. -/
structure Space (wide : Bool) where
  first : Filler wide
  more : Gap wide

/-- The keywords, and behind them the words that are keywords in some places only. -/
def keywords : List (List Char) :=
  ["False", "None", "True", "and", "as", "assert", "async", "await", "break", "class", "continue", "def",
    "del", "elif", "else", "except", "finally", "for", "from", "global", "if", "import", "in", "is",
    "lambda", "nonlocal", "not", "or", "pass", "raise", "return", "try", "while", "with", "yield",
    "match", "case", "type", "_"].map String.toList

/-- A name that is no keyword. -/
structure Identifier where
  text : List Char
  begins : ∃ c ∈ text.head?, IsNameStart c
  nameChars : ∀ c ∈ text, IsNameChar c
  noKeyword : text ∉ keywords

/-- Names with dots between them, and gaps around the dots. -/
structure Dotted where
  first : Identifier
  more : List (Gap false × Gap false × Identifier)

/-- The name that an import goes by. -/
structure Alias (wide : Bool) where
  before : Space wide
  after : Space wide
  name : Identifier

/-- One thing that is imported. -/
structure Item (wide : Bool) where
  name : Dotted
  goesBy : Option (Alias wide)

/-- Things that are imported, with commas between them and gaps around the commas. -/
structure Items (wide : Bool) where
  first : Item wide
  more : List (Gap wide × Gap wide × Item wide)

/-! ## Statements -/

/-- What names are imported from: a module named from the top, or one looked up from where the import
    stands, with a dot for each level and perhaps no name behind the dots. -/
inductive Origin where
  | absolute (before : Space false) (name : Dotted) (after : Space false)
  | relative (first : Gap false) (more : List (Gap false)) (last : Gap false) (name : Option (Dotted × Space false))

/-- The names that are taken out of a module. In brackets they may go over several lines, and a comma may
    stand behind the last one. -/
inductive Taken where
  | star (before : Gap false)
  | bare (before : Space false) (items : Items false)
  | enclosed (before : Gap false) (first : Gap true) (items : Items true) (comma : Option (Gap true))
    (last : Gap true)

/-- A character inside a string: one that says itself, or any one behind a backslash. -/
inductive Inner (quote : Char) where
  | plain (c : Char) (inside : c ≠ quote ∧ c ≠ '\\')
  | escaped (c : Char)

/-- The text of a character inside a string. -/
def Inner.text {quote : Char} : Inner quote → List Char
  | .plain c _ => [c]
  | .escaped c => ['\\', c]

/-- The inside of a string: on one line between two quotes, or between three and three, where up to two
    quotes in a row say themselves. -/
inductive Content (quote : Char) where
  | short (items : List (Inner quote)) (inLine : '\n' ∉ items.flatMap (·.text))
  | long (items : List (Fin 3 × Inner quote))

/-- The letters in front of a string. -/
def labels : List (List Char) :=
  ["", "r", "R", "u", "U", "b", "B", "f", "F", "br", "bR", "Br", "BR", "rb", "rB", "Rb", "RB",
    "fr", "fR", "Fr", "FR", "rf", "rF", "Rf", "RF"].map String.toList

/-- A string. -/
structure Literal where
  label : List Char
  known : label ∈ labels
  quote : Char
  isQuote : quote = '"' ∨ quote = '\''
  content : Content quote

/-- A simple statement, or none where a line is blank or holds only a comment. -/
inductive Statement where
  | nothing
  | pass
  | string (l : Literal)
  | imports (before : Space false) (items : Items false)
  | importsFrom (origin : Origin) (taken : Taken)

/-- The end of a line, perhaps with a comment in front of it. -/
structure Ending where
  gap : Gap false
  comment : Option { text : List Char // '\n' ∉ text }

/-! ## Blocks -/

/-- What begins a compound statement. -/
inductive Opening where
  | definition
  | classDefinition
  | condition
  | attempt

/-- What begins a clause behind the body of a compound statement. -/
inductive Branch where
  | otherCondition
  | otherwise
  | handler
  | cleanup

/-- What stands behind the keyword in front of a body, up to the colon: a name and parameters, bases, a
    condition, exceptions. -/
structure Header where
  details : List Char
  ending : Ending

/-- What stands in a row: statements, or the clauses behind a body. -/
inductive Role where
  | statements
  | clauses

/-- A row of statements or of clauses. A body is indented by more blanks than the keyword in front of it;
    of these `true` is a tab. -/
inductive Block : Role → Type where
  | nil {role : Role} : Block role
  | line (statement : Statement) (ending : Ending) (rest : Block .statements) : Block .statements
  | compound (opening : Opening) (header : Header) (deeper : List Bool) (body : Block .statements)
    (clauses : Block .clauses) (rest : Block .statements) : Block .statements
  | clause (branch : Branch) (header : Header) (deeper : List Bool) (body : Block .statements)
    (rest : Block .clauses) : Block .clauses

/-! ## Writing -/

/-- The text of a filler. -/
def Filler.text {wide : Bool} : Filler wide → List Char
  | .blank tab => [if tab then '\t' else ' ']
  | .joint => ['\\', '\n']
  | .lineFeed => ['\n']
  | .comment text _ => '#' :: text ++ ['\n']

/-- The text of a gap. -/
def fill {wide : Bool} (gap : Gap wide) : List Char := gap.flatMap (·.text)

def Space.text {wide : Bool} (s : Space wide) : List Char := fill (s.first :: s.more)

def Dotted.text (d : Dotted) : List Char :=
  d.first.text ++ d.more.flatMap fun (before, after, name) => fill before ++ '.' :: fill after ++ name.text

def Alias.text {wide : Bool} (a : Alias wide) : List Char :=
  a.before.text ++ "as".toList ++ a.after.text ++ a.name.text

def Item.text {wide : Bool} (i : Item wide) : List Char := i.name.text ++ i.goesBy.elim [] (·.text)

/-- A comma with gaps around it. -/
def comma {wide : Bool} (before after : Gap wide) : List Char := fill before ++ ',' :: fill after

def Items.text {wide : Bool} (items : Items wide) : List Char :=
  items.first.text ++ items.more.flatMap fun (before, after, item) => comma before after ++ item.text

/-- The dots in front of a relative module. -/
def dots (more : List (Gap false)) : List Char := '.' :: more.flatMap fun gap => fill gap ++ ['.']

def Origin.text : Origin → List Char
  | .absolute before name after => before.text ++ name.text ++ after.text
  | .relative first more last name =>
    fill first ++ dots more ++ fill last ++ name.elim [] fun named => named.1.text ++ named.2.text

def Taken.text : Taken → List Char
  | .star before => fill before ++ ['*']
  | .bare before items => before.text ++ items.text
  | .enclosed before first items comma last =>
    fill before ++ '(' :: fill first ++ items.text ++ comma.elim [] (fun gap => fill gap ++ [',']) ++ fill last ++ [')']

/-- The text of the inside of a string, with the quotes around it. -/
def Content.text {quote : Char} : Content quote → List Char
  | .short items _ => quote :: items.flatMap (·.text) ++ [quote]
  | .long items =>
    [quote, quote, quote] ++ items.flatMap (fun (quotes, item) => List.replicate quotes quote ++ item.text) ++
      [quote, quote, quote]

def Statement.text : Statement → List Char
  | .nothing => []
  | .pass => "pass".toList
  | .string l => l.label ++ l.content.text
  | .imports before items => "import".toList ++ before.text ++ items.text
  | .importsFrom origin taken => "from".toList ++ origin.text ++ "import".toList ++ taken.text

def Ending.text (e : Ending) : List Char := fill e.gap ++ e.comment.elim [] (fun text => '#' :: text.1) ++ ['\n']

/-- The keyword of a compound statement. -/
def Opening.keyword : Opening → String
  | .definition => "def"
  | .classDefinition => "class"
  | .condition => "if"
  | .attempt => "try"

/-- The keyword of a clause. -/
def Branch.keyword : Branch → String
  | .otherCondition => "elif"
  | .otherwise => "else"
  | .handler => "except"
  | .cleanup => "finally"

/-- The line, or the lines, in front of a body. -/
def Header.text (h : Header) (keyword : String) : List Char := keyword.toList ++ h.details ++ ':' :: h.ending.text

/-- The blanks in front of a line. -/
def indentation (indent : List Bool) : List Char := indent.map fun tab => if tab then '\t' else ' '

/-- The text of a block that stands at an indentation. -/
def Block.text (indent : List Bool) {role : Role} : Block role → List Char
  | .nil => []
  | .line statement ending rest => indentation indent ++ statement.text ++ ending.text ++ rest.text indent
  | .compound opening header deeper body clauses rest =>
    indentation indent ++ header.text opening.keyword ++ body.text (indent ++ deeper) ++ clauses.text indent ++
      rest.text indent
  | .clause branch header deeper body rest =>
    indentation indent ++ header.text branch.keyword ++ body.text (indent ++ deeper) ++ rest.text indent

/-- A program as it is written. -/
def Block.source (b : Block .statements) : String := String.ofList (b.text [])

/-! ## What is imported -/

/-- The names of a dotted name. -/
def Dotted.parts (d : Dotted) : List (List Char) := d.first.text :: d.more.map fun (_, _, name) => name.text

/-- The dotted name without anything around its dots. -/
def Dotted.path (d : Dotted) : String := .ofList (joinWith '.' d.parts)

/-- The imported things in order. -/
def Items.toList {wide : Bool} (items : Items wide) : List (Item wide) :=
  items.first :: items.more.map fun (_, _, item) => item

/-- The dotted names of imported things, without the names that they go by. -/
def Items.paths {wide : Bool} (items : Items wide) : List String := items.toList.map (·.name.path)

/-- The number of dots in front of a module. -/
def Origin.level : Origin → Nat
  | .absolute .. => 0
  | .relative _ more _ _ => more.length + 1

/-- The dotted name behind the dots. -/
def Origin.path : Origin → String
  | .absolute _ name _ => name.path
  | .relative _ _ _ name => (name.map (·.1.path)).getD ""

/-- The names taken out of a module. -/
def Taken.names : Taken → List String
  | .star _ => []
  | .bare _ items => items.paths
  | .enclosed _ _ items _ _ => items.paths

/-- The imports of a statement whose first token stands on a line. -/
def Statement.found (line : Nat) : Statement → List Import
  | .nothing | .pass | .string _ => []
  | .imports _ items => items.paths.map fun modulePath => ⟨.absolute, modulePath, 0, line, []⟩
  | .importsFrom origin taken =>
    [⟨if origin.level = 0 then .absolute else .relative, origin.path, origin.level, line, taken.names⟩]

/-- The line on which stands what is written behind a text, counted from one. -/
def lineBehind (front : List Char) : Nat := front.count '\n' + 1

/-- The imports of a block that stands behind a text, from top to bottom, each with the line on which its
    first token stands. -/
def Block.found (front : List Char) (indent : List Bool) {role : Role} : Block role → List Import
  | .nil => []
  | .line statement ending rest =>
    let before := front ++ indentation indent
    statement.found (lineBehind before) ++ rest.found (before ++ statement.text ++ ending.text) indent
  | .compound opening header deeper body clauses rest =>
    let before := front ++ indentation indent ++ header.text opening.keyword
    let behind := before ++ body.text (indent ++ deeper)
    body.found before (indent ++ deeper) ++ clauses.found behind indent ++
      rest.found (behind ++ clauses.text indent) indent
  | .clause branch header deeper body rest =>
    let before := front ++ indentation indent ++ header.text branch.keyword
    body.found before (indent ++ deeper) ++ rest.found (before ++ body.text (indent ++ deeper)) indent

/-- The imports of a program. -/
def Block.imports (b : Block .statements) : List Import := b.found [] []

end ModuleGraph.Python
