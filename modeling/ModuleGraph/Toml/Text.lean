import ModuleGraph.Toml.Reader

/-!
The lexical parts of a TOML document: blanks, comments and line ends, strings and keys.
-/
namespace ModuleGraph.Toml.Reader

/-- Whether a character may stand in a comment or a string: no control character but the tab. -/
def isPlain (c : Char) : Bool := c == '\t' || (0x20 ≤ c.toNat && c.toNat ≠ 0x7F)

/-- Whether a character is a blank within a line. -/
def isSpace (c : Char) : Bool := c == ' ' || c == '\t'

/-- Reads the blanks up to something else. -/
def spaces : Reader Unit := (span isSpace).map fun _ => ()

/-- Reads the end of a line. -/
def newline : Reader Unit := (expect ['\n']).orElse (expect ['\r', '\n'])

/-- Reads a comment, without the end of its line. -/
def comment : Reader Unit := (expect ['#']).skipping ((span isPlain).map fun _ => ())

/-- Reads nothing at the end of the text. -/
def endOfText : Reader Unit
  | [] => some ((), [])
  | _ => none

/-- Reads what may stand behind a statement, with the end of the line. -/
def lineEnd : Reader Unit :=
  (spaces.skipping comment.optional).skipping (newline.orElse endOfText)

/-- Reads blanks, line ends and comments, as they may stand in an array. -/
def filler : Reader Unit :=
  spaces.skipping
    ((((comment.optional.skipping newline).followedBy spaces).many).map fun _ => ())

/-! ## Strings -/

/-- The value of a hexadecimal digit. -/
def hexDigit? (c : Char) : Option Nat :=
  if '0' ≤ c && c ≤ '9' then some (c.toNat - '0'.toNat)
  else if 'a' ≤ c && c ≤ 'f' then some (c.toNat - 'a'.toNat + 10)
  else if 'A' ≤ c && c ≤ 'F' then some (c.toNat - 'A'.toNat + 10)
  else none

/-- The number that digits in some base stand for. -/
def ofDigits (base : Nat) (digits : List Nat) : Nat :=
  digits.foldl (fun n d => n * base + d) 0

/-- Reads a character by its number in a fixed count of hexadecimal digits. -/
def numberedChar (count : Nat) : Reader Char := fun cs => do
  let digits ← (cs.take count).mapM hexDigit?
  let n := ofDigits 16 digits
  if digits.length = count ∧ n.isValidChar then some (Char.ofNat n, cs.drop count) else none

/-- Reads an escaped character. -/
def escape : Reader Char
  | '\\' :: 'b' :: rest => some ('\x08', rest)
  | '\\' :: 't' :: rest => some ('\t', rest)
  | '\\' :: 'n' :: rest => some ('\n', rest)
  | '\\' :: 'f' :: rest => some ('\x0c', rest)
  | '\\' :: 'r' :: rest => some ('\r', rest)
  | '\\' :: '"' :: rest => some ('"', rest)
  | '\\' :: '\\' :: rest => some ('\\', rest)
  | '\\' :: 'u' :: rest => numberedChar 4 rest
  | '\\' :: 'U' :: rest => numberedChar 8 rest
  | _ => none

/-- Reads a string between quotes on one line, with escapes. -/
def basicString : Reader (List Char) :=
  ((expect ['"']).skipping
    ((satisfy fun c => isPlain c && c ≠ '"' && c ≠ '\\').orElse escape).many).followedBy
    (expect ['"'])

/-- Reads a string between apostrophes on one line, taken verbatim. -/
def literalString : Reader (List Char) :=
  ((expect ['\'']).skipping (satisfy fun c => isPlain c && c ≠ '\'').many).followedBy
    (expect ['\''])

/-- Reads one quote or two that do not end a string of several lines. -/
def innerQuotes (quote : Char) : Reader (List Char) :=
  (span1 (· == quote)).mapOption fun run => if run.length < 3 then some run else none

/-- Reads the quotes that end a string of several lines; of more than three, up to two in front
    belong to the string. -/
def closingQuotes (quote : Char) : Reader (List Char) := fun cs =>
  let count := (cs.takeWhile (· == quote)).length
  if count < 3 then none
  else
    let own := min (count - 3) 2
    some (List.replicate own quote, cs.drop (own + 3))

/-- Reads a line end that is escaped, with all blanks and line ends behind it. -/
def escapedNewline : Reader (List Char) :=
  (((expect ['\\']).skipping spaces).skipping newline).skipping
    ((((satisfy isSpace).map fun _ => ()).orElse newline).many.map fun _ => [])

/-- Reads a string of several lines. A line end right behind the opening quotes does not count, and
    all others count as one character. -/
def stringOfLines (quote : Char) (part : Reader (List Char)) : Reader (List Char) :=
  ((((expect [quote, quote, quote]).skipping newline.optional).skipping
    ((part.orElse (newline.map fun _ => ['\n'])).orElse (innerQuotes quote)).many).before
    (closingQuotes quote)).map fun (parts, own) => parts.flatten ++ own

/-- Reads a string of several lines between triple quotes, with escapes. -/
def basicLines : Reader (List Char) :=
  stringOfLines '"'
    ((((satisfy fun c => isPlain c && c ≠ '"' && c ≠ '\\').map fun c => [c]).orElse
      escapedNewline).orElse (escape.map fun c => [c]))

/-- Reads a string of several lines between triple apostrophes, taken verbatim. -/
def literalLines : Reader (List Char) :=
  stringOfLines '\'' ((satisfy fun c => isPlain c && c ≠ '\'').map fun c => [c])

/-- Reads a string. -/
def string : Reader String :=
  (((basicLines.orElse literalLines).orElse basicString).orElse literalString).map .ofList

/-! ## Keys -/

/-- Whether a character may stand in a key without quotes. -/
def isBareKeyChar (c : Char) : Bool := c.isAlphanum || c == '_' || c == '-'

/-- Reads one part of a key. -/
def simpleKey : Reader String :=
  (((span1 isBareKeyChar).orElse basicString).orElse literalString).map .ofList

/-- The parts that a key may have, less one. -/
def keyLimit : Nat := 79

/-- Reads a key: its parts with dots between them and blanks anywhere between these. -/
def key : Reader (List String) :=
  (separated ((spaces.skipping simpleKey).followedBy spaces) (expect ['.'])).mapOption fun parts =>
    if parts.length ≤ keyLimit then some parts else none

end ModuleGraph.Toml.Reader
