import ModuleGraph.Text.Split

/-!
White space and lines. A line ends at a line feed, and the carriage return right before that line
feed belongs to the ending. Every character that separates words in some script is blank.
-/
namespace ModuleGraph.Text

/-- The characters with the property White_Space. -/
def isBlank (c : Char) : Bool :=
  let n := c.toNat
  (0x9 ≤ n && n ≤ 0xD) || n == 0x20 || n == 0x85 || n == 0xA0 || n == 0x1680 ||
    (0x2000 ≤ n && n ≤ 0x200A) || n == 0x2028 || n == 0x2029 || n == 0x202F || n == 0x205F ||
    n == 0x3000

/-- A text without the blanks at its end. -/
def trimEnd (cs : List Char) : List Char :=
  dropEndWhile isBlank cs

/-- A text without the blanks at both ends. -/
def trim (cs : List Char) : List Char :=
  trimEnd (cs.dropWhile isBlank)

/-- The line that a line feed ends, from its characters in reverse. -/
def endedLine : List Char → List Char
  | '\r' :: line => line.reverse
  | line => line.reverse

/-- The lines of a text after the characters `line` of its first line, in reverse. -/
def linesAfter (line : List Char) : List Char → List (List Char)
  | [] => if line.isEmpty then [] else [line.reverse]
  | c :: rest =>
    if c = '\n' then endedLine line :: linesAfter [] rest else linesAfter (c :: line) rest

/-- The lines of a text, without their endings. A text that ends with a line feed has no further
    line after it. -/
def lines (cs : List Char) : List (List Char) :=
  linesAfter [] cs

end ModuleGraph.Text
