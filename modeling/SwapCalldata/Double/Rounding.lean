import SwapCalldata.Double.Basic

/-!
Rounding to double precision. An exact value is a quotient of naturals counted in units of 2^-1074;
it goes to the nearest magnitude, a tie to the even one, and from halfway beyond the largest finite
number on to infinity. Scaling by a natural rounds its exact result once.
-/
namespace SwapCalldata.Double

/-- The quotient to the nearest natural, a half to the even one. -/
def roundHalfEven (num den : Nat) : Nat :=
  let quotient := num / den
  let rest := num % den
  if 2 * rest < den then quotient
  else if den < 2 * rest then quotient + 1
  else quotient + quotient % 2

/-- The magnitude nearest to `num / den` units. -/
def nearest (num den : Nat) : Nat :=
  let doublings := (num / den).log2 - 52
  min (roundHalfEven num (den <<< doublings) + doublings * binade) infinity

/-- The product with a positive natural. -/
def mulNat (x : Double) (factor : Nat) : Double :=
  if x.isFinite then ofMagnitude x.isNegative (nearest (units x.magnitude * factor) 1) else x

/-- The quotient by a positive natural. -/
def divNat (x : Double) (divisor : Nat) : Double :=
  if x.isFinite then ofMagnitude x.isNegative (nearest (units x.magnitude) divisor) else x

/-- The natural nearest to a finite magnitude, a half upwards. -/
def nearestWhole (magnitude : Nat) : Nat := (units magnitude + 1 <<< 1073) >>> 1074

/-- The nearest whole number, a half away from zero. The sign is kept, also of zero. -/
def round (x : Double) : Double :=
  if x.isFinite then
    ofMagnitude x.isNegative (nearest (nearestWhole x.magnitude <<< 1074) 1)
  else x

end SwapCalldata.Double
