/-!
Numbers of 64 bits in binary floating point, kept as their bits. A ratio of two naturals becomes
the nearest such number, and of two that are equally near the one with an even last bit.
-/
namespace ModuleGraph

/-- A number by its sign, exponent and fraction bits. -/
structure Binary64 where
  bits : UInt64
  deriving DecidableEq

namespace Binary64

/-- Positive zero. -/
def zero : Binary64 := ⟨0⟩

instance : Inhabited Binary64 := ⟨zero⟩

/-- The natural number nearest to a ratio, the even one of two. -/
def roundRatio (num den : Nat) : Nat :=
  let down := num / den
  let twice := 2 * (num % den)
  if den < twice ∨ den = twice ∧ down % 2 = 1 then down + 1 else down

/-- The nearest natural number that needs no more than 53 bits between its first and last one. -/
def roundNat (n : Nat) : Nat :=
  let unit := Nat.pow 2 (n.log2 - 52)
  roundRatio n unit * unit

/-- The number nearest to a ratio, zero for a ratio with nothing below the line. The ratio is taken
    to be neither too large nor too small for 53 bits of precision. -/
def ofRatio (num den : Nat) : Binary64 :=
  if num = 0 ∨ den = 0 then zero
  else
    let scale := den.log2 + 64
    let drop := (num * Nat.pow 2 scale / den).log2 - 52
    let significand := roundRatio (num * Nat.pow 2 scale) (den * Nat.pow 2 drop)
    ⟨UInt64.ofNat ((drop + 1075 - scale) * Nat.pow 2 52 + (significand - Nat.pow 2 52))⟩

/-- The quotient of two counts, each first rounded to 53 bits; zero if there is nothing to share. -/
def average (total count : Nat) : Binary64 := ofRatio (roundNat total) (roundNat count)

end Binary64
end ModuleGraph
