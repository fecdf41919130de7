/-!
Glob patterns. A star stands for any text, slashes included; two stars in the place of whole
directories stand for any number of them; `[..]` is a class of characters and `{..,..}` a choice.
-/
namespace ModuleGraph.Glob

/-- The parts of a pattern. -/
inductive Part where
  | char (c : Char)
  /-- `?` -/
  | anyByte
  /-- `*` -/
  | anything
  /-- `**/` at the start: any number of directories. -/
  | leadingDirectories
  /-- `/**` at the end: something in a directory. -/
  | trailingPath
  /-- `/**/`: any number of directories in between. -/
  | innerDirectories
  | oneOf (negated : Bool) (ranges : List (Char × Char))
  | choice (branches : List (List Part))

/-- What is wrong with a pattern. -/
inductive PatternError where
  | unclosedClass
  | invalidRange (first last : Char)
  | unopenedChoice
  | unclosedChoice
  | danglingEscape
  deriving DecidableEq

namespace PatternError

/-- The wording of an error in a pattern. -/
def message (pattern : String) (e : PatternError) : String :=
  "error parsing glob '" ++ pattern ++ "': " ++
    match e with
    | .unclosedClass => "unclosed character class; missing ']'"
    | .invalidRange first last =>
      "invalid range; '" ++ first.toString ++ "' > '" ++ last.toString ++ "'"
    | .unopenedChoice =>
      "unopened alternate group; missing '\x7b' (maybe escape '\x7d' with '[\x7d]'?)"
    | .unclosedChoice =>
      "unclosed alternate group; missing '\x7d' (maybe escape '\x7b' with '[\x7b]'?)"
    | .danglingEscape => "dangling '\\'"

end PatternError

/-! ## Reading -/

/-- A class as far as it is read. -/
structure ClassText where
  negated : Bool
  /-- The ranges so far, the last one first. -/
  ranges : List (Char × Char)
  /-- Whether a hyphen waits for the end of its range. -/
  pending : Bool
  deriving DecidableEq

namespace ClassText

/-- The class with one more character. A bracket or a hyphen at the start stands for itself. -/
def push (k : ClassText) (c : Char) : Except PatternError ClassText :=
  match k.pending, k.ranges with
  | true, (first, _) :: rest =>
    if c < first then .error (.invalidRange first c)
    else .ok { k with ranges := (first, c) :: rest, pending := false }
  | _, ranges =>
    if c = '-' ∧ ranges.isEmpty = false then .ok { k with pending := true }
    else .ok { k with ranges := (c, c) :: ranges }

/-- The part that a closed class is. A hyphen before the bracket stands for itself. -/
def part (k : ClassText) : Part :=
  .oneOf k.negated (if k.pending then ('-', '-') :: k.ranges else k.ranges).reverse

end ClassText

/-- Where the reader of a pattern stands. -/
inductive Mode where
  | plain
  /-- After a backslash. -/
  | escape
  /-- After a star. -/
  | star
  /-- After two stars. -/
  | stars
  /-- After the bracket that opens a class. -/
  | bracket
  | inClass (k : ClassText)
  deriving DecidableEq

/-- A pattern as far as it is read. -/
structure PatternText where
  /-- The parts of the current branch, the last one first. -/
  branch : List Part
  /-- The finished branches of the innermost open choice, the last one first. -/
  finished : List (List Part)
  /-- The branches around the open choices, with the finished branches beside them. -/
  outer : List (List Part × List (List Part))
  /-- The last character read. -/
  last : Option Char
  mode : Mode

namespace PatternText

/-- The pattern in front of its first character. -/
def start : PatternText := ⟨[], [], [], none, .plain⟩

/-- The pattern with one more part. -/
def push (p : PatternText) (part : Part) : PatternText := { p with branch := part :: p.branch }

/-- The pattern with two stars that stand for any text. -/
def pushStars (p : PatternText) : PatternText := (p.push .anything).push .anything

/-- The pattern with its last part changed into directories or what is inside them, where stars at
    the start and at the end stay what they are. -/
def replaceLast (p : PatternText) (part : Part) : PatternText :=
  match p.branch with
  | .leadingDirectories :: _ => p
  | .trailingPath :: _ => p
  | _ :: rest => { p with branch := part :: rest }
  | [] => p

/-- The pattern after two stars in front of a character or of the end, and whether they take that
    character, a slash, with them. -/
def doubleStar (p : PatternText) (next : Option Char) : PatternText × Bool :=
  if p.branch.isEmpty then
    if next = some '/' then (p.push .leadingDirectories, true)
    else if next = none then (p.push .leadingDirectories, false)
    else (p.pushStars, false)
  else if p.last ≠ some '/' ∧ (p.outer.isEmpty ∨ (p.last ≠ some ',' ∧ p.last ≠ some '{')) then
    (p.pushStars, false)
  else if next = none ∨ (p.outer.isEmpty = false ∧ (next = some ',' ∨ next = some '}')) then
    (p.replaceLast .trailingPath, false)
  else if next = some '/' then (p.replaceLast .innerDirectories, true)
  else (p.pushStars, false)

/-- The pattern inside a new choice. -/
def openChoice (p : PatternText) : PatternText :=
  { p with branch := [], finished := [], outer := (p.branch, p.finished) :: p.outer }

/-- The pattern after its innermost choice. -/
def closeChoice (p : PatternText) : Except PatternError PatternText :=
  match p.outer with
  | [] => .error .unopenedChoice
  | (branch, finished) :: outer =>
    let branches := ((p.branch :: p.finished).map List.reverse).reverse
    .ok { p with branch := .choice branches :: branch, finished, outer }

/-- The pattern after a comma, which parts the branches of a choice. -/
def comma (p : PatternText) : PatternText :=
  if p.outer.isEmpty then p.push (.char ',')
  else { p with branch := [], finished := p.branch :: p.finished }

/-- The pattern in another mode after a character. -/
def goTo (p : PatternText) (c : Char) (mode : Mode) : PatternText := { p with last := some c, mode }

/-- The pattern in another mode, the last character staying the same. -/
def await (p : PatternText) (mode : Mode) : PatternText := { p with mode }

/-- Reads one character that stands for itself or opens something. -/
def stepPlain (p : PatternText) (c : Char) : Except PatternError PatternText :=
  if c = '?' then .ok ((p.push .anyByte).goTo c .plain)
  else if c = '*' then .ok (p.await .star)
  else if c = '[' then .ok (p.goTo c .bracket)
  else if c = '{' then .ok (p.openChoice.goTo c .plain)
  else if c = '}' then p.closeChoice.map (·.goTo c .plain)
  else if c = ',' then .ok (p.comma.goTo c .plain)
  else if c = '\\' then .ok (p.goTo c .escape)
  else .ok ((p.push (.char c)).goTo c .plain)

/-- Reads one character of a class. -/
def stepClass (p : PatternText) (k : ClassText) (c : Char) : Except PatternError PatternText :=
  if c = ']' ∧ k.ranges.isEmpty = false then .ok ((p.push k.part).goTo c .plain)
  else (k.push c).map fun k => p.goTo c (.inClass k)

/-- Reads one character. -/
def step (p : PatternText) (c : Char) : Except PatternError PatternText :=
  match p.mode with
  | .plain => p.stepPlain c
  | .escape => .ok ((p.push (.char c)).goTo c .plain)
  | .star => if c = '*' then .ok (p.await .stars) else ((p.push .anything).goTo '*' .plain).stepPlain c
  | .stars =>
    match p.doubleStar (some c) with
    | (p, true) => .ok (p.goTo c .plain)
    | (p, false) => (p.goTo '*' .plain).stepPlain c
  | .bracket =>
    if c = '!' ∨ c = '^' then .ok (p.goTo c (.inClass ⟨true, [], false⟩))
    else p.stepClass ⟨false, [], false⟩ c
  | .inClass k => p.stepClass k c

/-- The pattern at its end. -/
def finish (p : PatternText) : Except PatternError PatternText :=
  match p.mode with
  | .plain => .ok p
  | .escape => .error .danglingEscape
  | .star => .ok (p.push .anything)
  | .stars => .ok (p.doubleStar none).1
  | .bracket | .inClass _ => .error .unclosedClass

/-- The parts of a pattern that is read to its end. -/
def parts (p : PatternText) : Except PatternError (List Part) :=
  if p.outer.isEmpty then .ok p.branch.reverse else .error .unclosedChoice

end PatternText

/-- The parts of a pattern. -/
def parse (pattern : String) : Except PatternError (List Part) := do
  (← (← pattern.toList.foldlM PatternText.step .start).finish).parts

end ModuleGraph.Glob
