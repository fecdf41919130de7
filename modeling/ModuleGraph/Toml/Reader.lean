/-!
Readers of the front of a text. A reader gives a value and the rest of the text, or nothing.
-/
namespace ModuleGraph.Toml

/-- A way to read a value off the front of a text. -/
abbrev Reader (α : Type) : Type := List Char → Option (α × List Char)

namespace Reader
variable {α β : Type}

/-- Reads as often as it can, as long as something is read each time. -/
def manyFrom (read : Reader α) (cs : List Char) : List α × List Char :=
  match read cs with
  | none => ([], cs)
  | some (a, rest) =>
    if _shorter : rest.length < cs.length then
      let (as, rest) := manyFrom read rest
      (a :: as, rest)
    else ([], cs)
termination_by cs.length

/-- Reads values as often as it can. -/
def many (read : Reader α) : Reader (List α) := fun cs => some (manyFrom read cs)

/-- Reads a given text. -/
def expect (text : List Char) : Reader Unit := fun cs =>
  if text.isPrefixOf cs then some ((), cs.drop text.length) else none

/-- Reads a character that satisfies a condition. -/
def satisfy (p : Char → Bool) : Reader Char
  | c :: rest => if p c then some (c, rest) else none
  | [] => none

/-- Reads with the first of two readers that can. -/
def orElse (first second : Reader α) : Reader α := fun cs => (first cs).or (second cs)

/-- Reads one value and then another. -/
def before (first : Reader α) (second : Reader β) : Reader (α × β) := fun cs => do
  let (a, rest) ← first cs
  let (b, rest) ← second rest
  some ((a, b), rest)

/-- Reads something of no interest and then a value. -/
def skipping (first : Reader β) (second : Reader α) : Reader α := fun cs => do
  let (_, rest) ← first cs
  second rest

/-- Reads a value and then something of no interest. -/
def followedBy (first : Reader α) (second : Reader β) : Reader α := fun cs => do
  let (a, rest) ← first cs
  let (_, rest) ← second rest
  some (a, rest)

/-- Reads a value if it can. -/
def optional (read : Reader α) : Reader (Option α) := fun cs =>
  match read cs with
  | some (a, rest) => some (some a, rest)
  | none => some (none, cs)

/-- Changes what is read. -/
def map (f : α → β) (read : Reader α) : Reader β := fun cs =>
  (read cs).map fun (a, rest) => (f a, rest)

/-- Changes what is read, or refuses it. -/
def mapOption (f : α → Option β) (read : Reader α) : Reader β := fun cs => do
  let (a, rest) ← read cs
  let b ← f a
  some (b, rest)

/-- Reads one value or more with a separator between each two. -/
def separated (read : Reader α) (separator : Reader Unit) : Reader (List α) :=
  (read.before (separator.skipping read).many).map fun (a, as) => a :: as

/-- Reads the characters that satisfy a condition, up to the first that does not. -/
def span (p : Char → Bool) : Reader (List Char) := fun cs =>
  some (cs.takeWhile p, cs.dropWhile p)

/-- Reads the characters that satisfy a condition, at least one. -/
def span1 (p : Char → Bool) : Reader (List Char) :=
  (span p).mapOption fun run => if run = [] then none else some run

end Reader
end ModuleGraph.Toml
