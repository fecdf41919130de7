import ModuleGraph.Binary64.Basic

/-!
The decimal text of a positive number in binary floating point: the fewest digits that read back as
the same number, and of those the ones nearest to it. There is always a digit behind the point
unless there is an exponent.
-/
namespace ModuleGraph.Binary64

/-- A normal positive number as a ratio. -/
def toRatio (x : Binary64) : Nat × Nat :=
  let exponent := (x.bits.toNat / Nat.pow 2 52) % Nat.pow 2 11
  let significand := Nat.pow 2 52 + x.bits.toNat % Nat.pow 2 52
  (significand * Nat.pow 2 (exponent - 1075), Nat.pow 2 (1075 - exponent))

/-- A decimal number: `digits` times ten to the power `up - down`. -/
structure Decimal where
  digits : Nat
  up : Nat
  down : Nat

namespace Decimal

/-- A decimal number as a ratio. -/
def toRatio (d : Decimal) : Nat × Nat := (d.digits * Nat.pow 10 d.up, Nat.pow 10 d.down)

/-- The multiple of a power of ten next to a number that reads back as the number, the nearer one
    if both do. -/
def near? (x : Binary64) (up down : Nat) : Option Decimal :=
  let (num, den) := x.toRatio
  let below := num * Nat.pow 10 down / (den * Nat.pow 10 up)
  let readsBack (digits : Nat) : Bool :=
    let (n, d) := Decimal.toRatio ⟨digits, up, down⟩
    ofRatio n d == x
  let nearest := roundRatio (num * Nat.pow 10 down) (den * Nat.pow 10 up)
  ([nearest, below, below + 1].find? readsBack).map (⟨·, up, down⟩)

/-- The powers of ten from a place before the point down to the last one that 53 bits can need. -/
def grids (top : Nat) : List (Nat × Nat) :=
  (List.range (top + 1)).reverse.map (·, 0) ++ (List.range 400).map (0, · + 1)

end Decimal

/-- The decimal digits of a natural number. -/
def digitsOf (n : Nat) : List Char := (toString n).toList

/-- A positive number with its shortest digits: the digits and the place of the point after the
    first of them. -/
def shortest (x : Binary64) : List Char × Int :=
  let top := (digitsOf (x.toRatio.1 / x.toRatio.2)).length
  match (Decimal.grids top).findSome? fun (up, down) => Decimal.near? x up down with
  | none => (['0'], 1)
  | some found =>
    let digits := digitsOf found.digits
    let place := (digits.length : Int) + found.up - found.down
    let kept := (digits.reverse.dropWhile (· == '0')).reverse
    (kept, place)

/-- The text of digits with a point at a place. Between `10 ^ -5` and `10 ^ 16` it is written out. -/
def placed (digits : List Char) (place : Int) : List Char :=
  if 0 < place ∧ place ≤ 16 then
    let whole := digits.take place.toNat
    let whole := whole ++ List.replicate (place.toNat - whole.length) '0'
    let fraction := digits.drop place.toNat
    whole ++ '.' :: (if fraction = [] then ['0'] else fraction)
  else if -5 < place ∧ place ≤ 0 then
    '0' :: '.' :: List.replicate (-place).toNat '0' ++ digits
  else
    let exponent := (toString (place - 1)).toList
    match digits with
    | [] => []
    | first :: [] => first :: 'e' :: exponent
    | first :: rest => first :: '.' :: rest ++ 'e' :: exponent

/-- The decimal text of a number that is zero or positive and normal. -/
def decimalText (x : Binary64) : String :=
  if x = zero then "0.0"
  else
    let (digits, place) := x.shortest
    String.ofList (placed digits place)

end ModuleGraph.Binary64
