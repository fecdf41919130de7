import ModuleGraph.Text.Blank
import ModuleGraph.Text.WordChar

/-!
Line metrics. Every line is blank, a comment or code; a line of code may open the definition of a
function or of a class, which is read off that line alone.
-/
namespace ModuleGraph
open Text

/-- The counts of one source file. -/
structure LineMetrics where
  lines : Nat
  codeLines : Nat
  commentLines : Nat
  blankLines : Nat
  functions : Nat
  classes : Nat
  deriving DecidableEq, Inhabited

namespace LineMetrics

/-- What a line of code defines. -/
inductive Definition where
  | function
  | type
  deriving DecidableEq

/-- What a line is. -/
inductive LineKind where
  | blank
  | comment
  | code (defines : Option Definition)
  deriving DecidableEq

/-- What follows a keyword at the start of a text, if anything but a blank stands between them. -/
def afterKeyword (keyword : List Char) (cs : List Char) : Option (List Char) :=
  if keyword.isPrefixOf cs then
    match cs.drop keyword.length with
    | c :: rest => if isBlank c then some (rest.dropWhile isBlank) else none
    | [] => none
  else none

/-- What follows a name at the start of a text and the blanks after it. The first character of a
    name is an ASCII letter or an underscore. -/
def afterName : List Char → Option (List Char)
  | [] => none
  | c :: rest =>
    if c.isAlpha || c == '_' then some ((rest.dropWhile isWordChar).dropWhile isBlank) else none

/-- Whether a name and then one of some characters follow a keyword at the start of a text. -/
def definesWith (keyword closers cs : List Char) : Bool :=
  match (afterKeyword keyword cs).bind afterName with
  | some (c :: _) => closers.contains c
  | _ => false

/-- Whether a line opens a function. -/
def opensFunction (line : List Char) : Bool :=
  let inner := line.dropWhile isBlank
  definesWith ['d', 'e', 'f'] ['('] ((afterKeyword ['a', 's', 'y', 'n', 'c'] inner).getD inner)

/-- Whether a line opens a class. -/
def opensClass (line : List Char) : Bool :=
  definesWith ['c', 'l', 'a', 's', 's'] ['(', ':'] (line.dropWhile isBlank)

/-- What a line is. -/
def LineKind.of (line : List Char) : LineKind :=
  match trim line with
  | [] => .blank
  | c :: _ =>
    if c = '#' then .comment
    else if opensFunction line then .code (some .function)
    else if opensClass line then .code (some .type)
    else .code none

/-- The counts of no line. -/
def zero : LineMetrics := ⟨0, 0, 0, 0, 0, 0⟩

/-- The counts with one more line. -/
def count (m : LineMetrics) (kind : LineKind) : LineMetrics :=
  let m := { m with lines := m.lines + 1 }
  match kind with
  | .blank => { m with blankLines := m.blankLines + 1 }
  | .comment => { m with commentLines := m.commentLines + 1 }
  | .code none => { m with codeLines := m.codeLines + 1 }
  | .code (some .function) =>
    { m with codeLines := m.codeLines + 1, functions := m.functions + 1 }
  | .code (some .type) => { m with codeLines := m.codeLines + 1, classes := m.classes + 1 }

/-- The counts of a source text. -/
def ofSource (source : List Char) : LineMetrics :=
  ((Text.lines source).map LineKind.of).foldl count zero

end LineMetrics
end ModuleGraph
