/-!
Decimals: a coefficient times a power of ten, in a normal form without trailing zeros, and their
positional text.
-/
namespace SwapCalldata

/-- The value `coefficient * 10 ^ exponent`. -/
structure Decimal where
  coefficient : Nat
  exponent : Int
deriving DecidableEq

namespace Decimal

/-- A power of ten. -/
def tenPow (exponent : Nat) : Nat := Nat.pow 10 exponent

/-- The same value without trailing zeros in the coefficient; zero has exponent 0. -/
def normal (coefficient : Nat) (exponent : Int) : Decimal :=
  if coefficient = 0 then ⟨0, 0⟩
  else if coefficient % 10 = 0 then normal (coefficient / 10) (exponent + 1)
  else ⟨coefficient, exponent⟩
  termination_by coefficient
  decreasing_by omega

/-- The digits of the coefficient. -/
def digits (d : Decimal) : List Char := Nat.toDigits 10 d.coefficient

/-- The power of ten of the first digit. -/
def leading (d : Decimal) : Int := (d.digits.length : Int) - 1 + d.exponent

/-- The positional text: zeros fill the places up to the point, and a whole number has none. -/
def positional (d : Decimal) : List Char :=
  match d.exponent with
  | .ofNat trailing => d.digits ++ List.replicate trailing '0'
  | .negSucc k =>
    let places := k + 1
    let padded := List.replicate (places + 1 - d.digits.length) '0' ++ d.digits
    padded.take (padded.length - places) ++ '.' :: padded.drop (padded.length - places)

end Decimal

end SwapCalldata
