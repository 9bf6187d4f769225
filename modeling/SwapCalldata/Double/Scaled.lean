import SwapCalldata.Double.Shortest

/-!
Decimals scaled in double precision. The coefficient is rounded to a number, and that is multiplied
or divided by the number nearest to a power of ten. Each step rounds, so the outcome can be a
neighbour of the number nearest to the decimal; `Double.nearestDecimal` rounds once.
-/
namespace SwapCalldata.Double

/-- The rounded product of two finite magnitudes. -/
def product (a b : Nat) : Nat := nearest (units a * units b) (1 <<< 1074)

/-- The rounded quotient of two finite magnitudes, the second not zero. -/
def quotient (a b : Nat) : Nat := nearest (units a <<< 1074) (units b)

/-- The magnitude nearest to a power of ten. -/
def powerOfTen (exponent : Nat) : Nat := nearestDecimal 1 exponent

/-- The exponent of the largest power of ten that has a finite magnitude. -/
def largestPower : Int := 308

/-- The magnitude that a decimal is scaled to. A division takes at most `largestPower` places, and
what is left after two divisions is zero. -/
def scaled (coefficient : Nat) (exponent : Int) : Nat :=
  let start := nearest (coefficient <<< 1074) 1
  if coefficient = 0 then 0
  else if largestPower < exponent then infinity
  else if 0 ≤ exponent then product start (powerOfTen exponent.toNat)
  else if -largestPower ≤ exponent then quotient start (powerOfTen (-exponent).toNat)
  else if -2 * largestPower ≤ exponent then
    quotient (quotient start (powerOfTen largestPower.toNat))
      (powerOfTen (-exponent - largestPower).toNat)
  else 0

end SwapCalldata.Double
