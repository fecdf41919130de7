/-!
Cutting a list at separators and at its end. There is always one piece more than there are
separators, so the pieces and the separators together give the list back.
-/
namespace ModuleGraph.Text

/-- Puts an element in front of the first piece. -/
def consFirst {α : Type} (x : α) : List (List α) → List (List α)
  | [] => [[x]]
  | piece :: pieces => (x :: piece) :: pieces

/-- The pieces of a list between the elements that are separators. -/
def pieces {α : Type} (isSeparator : α → Bool) : List α → List (List α)
  | [] => [[]]
  | x :: rest =>
    if isSeparator x then [] :: pieces isSeparator rest
    else consFirst x (pieces isSeparator rest)

/-- The pieces of a text between the occurrences of a character. -/
def piecesAt (separator : Char) (cs : List Char) : List (List Char) :=
  pieces (· == separator) cs

/-- Texts in a row with a separator between each two. -/
def joinWith (separator : Char) : List (List Char) → List Char
  | [] => []
  | [piece] => piece
  | piece :: rest => piece ++ separator :: joinWith separator rest

/-- A list without the elements at its end that satisfy a condition. -/
def dropEndWhile {α : Type} (p : α → Bool) (xs : List α) : List α :=
  (xs.reverse.dropWhile p).reverse

end ModuleGraph.Text
