import ModuleGraph.Glob.Pattern
import ModuleGraph.Text.Utf8

/-!
Matching of paths, byte by byte. The places that the parts read so far can end at are marked on the
text; each part moves the marks, and the whole pattern matches if the end of the text is marked.
-/
namespace ModuleGraph.Glob
open Text

/-- Marks on the places between the bytes of a text, its start and its end included. -/
abbrev Marks : Type := List Bool

namespace Marks

/-- The start of a text alone. -/
def start (text : List UInt8) : Marks := true :: text.map fun _ => false

/-- The places that are marked in one of two ways. -/
def union (a b : Marks) : Marks := List.zipWith (· || ·) a b

/-- The places one byte behind marked ones, if that byte satisfies a condition. -/
def advance (text : List UInt8) (p : UInt8 → Bool) (marks : Marks) : Marks :=
  false :: List.zipWith (fun here b => here && p b) marks text

/-- The places at or behind a marked one. -/
def spread (seen : Bool) : Marks → Marks
  | [] => []
  | here :: rest => (seen || here) :: spread (seen || here) rest

/-- The places behind marked ones where given bytes stand. -/
def along (text : List UInt8) (bytes : List UInt8) (marks : Marks) : Marks :=
  bytes.foldl (fun marks b => marks.advance text (· == b)) marks

end Marks

/-- The byte of a slash. -/
def slash : UInt8 := 47

/-- The bytes of a character. -/
def bytesOf (c : Char) : List UInt8 := utf8Bytes c.toString

/-- The ranges of bytes that a range of characters stands for. Of characters with several bytes the
    range goes from the last byte of the first to the first byte of the last, and all other bytes
    stand for themselves. -/
def byteRanges (range : Char × Char) : List (UInt8 × UInt8) :=
  let single (b : UInt8) : UInt8 × UInt8 := (b, b)
  if range.1 = range.2 then (bytesOf range.1).map single
  else
    match (bytesOf range.1).reverse, bytesOf range.2 with
    | low :: before, high :: behind => before.map single ++ (low, high) :: behind.map single
    | _, _ => []

/-- Whether a byte is in a class. -/
def inClass (negated : Bool) (ranges : List (Char × Char)) (b : UInt8) : Bool :=
  ((ranges.flatMap byteRanges).any fun (low, high) => low ≤ b && b ≤ high) != negated

mutual

/-- Whether a part stands for nothing at all: a choice without a branch that says anything. -/
def Part.isVoid : Part → Bool
  | .choice branches => allVoid branches
  | _ => false

/-- Whether all parts of a branch are void. -/
def branchVoid : List Part → Bool
  | [] => true
  | part :: parts => part.isVoid && branchVoid parts

/-- Whether all branches are void. -/
def allVoid : List (List Part) → Bool
  | [] => true
  | branch :: branches => branchVoid branch && allVoid branches

end

mutual

/-- Moves the marks over what a part stands for. Branches that say nothing count for nothing. -/
def Part.move (text : List UInt8) (marks : Marks) : Part → Marks
  | .char c => marks.along text (bytesOf c)
  | .anyByte => marks.advance text fun _ => true
  | .anything => marks.spread false
  | .leadingDirectories => marks.union ((marks.spread false).advance text (· == slash))
  | .trailingPath => (marks.advance text (· == slash)).spread false
  | .innerDirectories =>
    let inside := marks.advance text (· == slash)
    inside.union ((inside.spread false).advance text (· == slash))
  | .oneOf negated ranges => marks.advance text (inClass negated ranges)
  | .choice branches =>
    if allVoid branches then marks else moveAny text marks (marks.map fun _ => false) branches

/-- Moves the marks over the parts of a branch. -/
def moveAll (text : List UInt8) (marks : Marks) : List Part → Marks
  | [] => marks
  | part :: parts => moveAll text (part.move text marks) parts

/-- The places that one of several branches moves the marks to, added to given ones. -/
def moveAny (text : List UInt8) (marks reached : Marks) : List (List Part) → Marks
  | [] => reached
  | branch :: branches =>
    if branchVoid branch then moveAny text marks reached branches
    else moveAny text marks (reached.union (moveAll text marks branch)) branches

end

/-- Whether a part is a given character. -/
def Part.isChar (c : Char) : Part → Bool
  | .char d => c == d
  | _ => false

/-- Whether a part is a character. -/
def Part.isAnyChar : Part → Bool
  | .char _ => true
  | _ => false

/-- Whether a pattern asks for the name of a file or for its extension as such: a bare name behind
    `**/`, or a dot and characters without a slash at the end, unless the pattern is plain text or
    text that ends the path wherever it starts. -/
def asksForName (parts : List Part) : Bool :=
  let plain (part : Part) : Bool := part.isAnyChar && !part.isChar '/'
  let isName :=
    match parts with
    | .leadingDirectories :: rest => !rest.isEmpty && rest.all plain
    | _ => false
  let afterDirectories :=
    match parts with
    | .leadingDirectories :: rest => rest
    | _ => parts
  let isExtension :=
    match afterDirectories with
    | .anything :: .char '.' :: rest => rest.all fun part => plain part && !part.isChar '.'
    | _ => false
  let isTail :=
    match afterDirectories with
    | .anything :: rest => rest.all Part.isAnyChar && !rest.isEmpty
    | rest => rest.all Part.isAnyChar && !rest.isEmpty
  let hasExtension :=
    let tail := (parts.reverse.takeWhile plain).takeWhile (!Part.isChar '.' ·)
    (parts.reverse.drop tail.length).head?.any (Part.isChar '.')
  isName || isExtension || (hasExtension && !isTail)

/-- A pattern that can be matched. -/
structure Matcher where
  parts : List Part

/-- Whether a path matches a pattern. Two stars alone match everything. A path that ends with a dot
    has no name, so a pattern that asks for the name does not match it. -/
def Matcher.accepts (m : Matcher) (path : String) : Bool :=
  match m.parts with
  | [.leadingDirectories] => true
  | parts =>
    if path.toList.getLast? == some '.' && asksForName parts then false
    else
      let text := utf8Bytes path
      (moveAll text (.start text) parts).getLast? == some true

/-- The matcher of a pattern. -/
def compile (pattern : String) : Except PatternError Matcher := (parse pattern).map Matcher.mk

end ModuleGraph.Glob
