import SwapCalldata.Decimal
import SwapCalldata.Double.Rounding

/-!
Decimals of double-precision numbers. A number is written as a decimal that it is the nearest number
to: with the fewest digits, and of these with the ones nearest to it. The text of a number for people
is positional throughout.
-/
namespace SwapCalldata.Double

/-- The magnitude nearest to a decimal. A power of ten far outside the range of finite numbers is
not computed. -/
def nearestDecimal (coefficient : Nat) (exponent : Int) : Nat :=
  if coefficient = 0 then 0
  else if 400 < exponent then infinity
  else if exponent + coefficient.log2 < -400 then 0
  else match exponent with
    | .ofNat k => nearest ((coefficient * Decimal.tenPow k) <<< 1074) 1
    | .negSucc k => nearest (coefficient <<< 1074) (Decimal.tenPow (k + 1))

/-- Which of two decimals is taken when the number is halfway between them. -/
inductive Tie where
  | up
  | even
deriving DecidableEq

/-- The two multiples of `10 ^ exponent` around a magnitude, the nearer one first. -/
def neighbours (tie : Tie) (magnitude : Nat) (exponent : Int) : List Nat :=
  let num := units magnitude * Decimal.tenPow (-exponent).toNat
  let den := Decimal.tenPow exponent.toNat <<< 1074
  let below := num / den
  let twice := 2 * (num % den)
  let above := den < twice || (twice == den && (tie == .up || below % 2 == 1))
  if above then [below + 1, below] else [below, below + 1]

/-- The multiple of `10 ^ exponent` that a magnitude is nearest to: of its two neighbours on this
grid, the nearer one of which that holds. -/
def onGrid? (tie : Tie) (magnitude : Nat) (exponent : Int) : Option Nat :=
  (neighbours tie magnitude exponent).find? fun coefficient =>
    nearestDecimal coefficient exponent == magnitude

/-- A power of ten whose grid is coarser than the magnitude. -/
def coarsest (magnitude : Nat) : Int :=
  (((units magnitude).log2 : Int) - 1074) * 30103 / 100000 + 2

/-- The decimal of a magnitude on the coarsest of twenty grids that has one. -/
def onCoarsest? (tie : Tie) (magnitude : Nat) : Option Decimal :=
  let grids := (List.range 20).map fun (step : Nat) => coarsest magnitude - Int.ofNat step
  grids.findSome? fun exponent =>
    (onGrid? tie magnitude exponent).map fun coefficient => ⟨coefficient, exponent⟩

/-- The exact value of a finite magnitude. -/
def exactValue (magnitude : Nat) : Decimal := ⟨units magnitude * Nat.pow 5 1074, -1074⟩

/-- The decimal of a finite magnitude: on the coarsest grid that has one, and else the exact
value. -/
def shortest (tie : Tie) (magnitude : Nat) : Decimal :=
  let decimal := (onCoarsest? tie magnitude).getD (exactValue magnitude)
  Decimal.normal decimal.coefficient decimal.exponent

/-- The text for people: never an exponent, and no point in a whole number. -/
def text (x : Double) : String :=
  if x.isNaN then "NaN"
  else
    let sign := if x.isNegative then "-" else ""
    if x.isFinite then sign ++ String.ofList (shortest .up x.magnitude).positional
    else sign ++ "inf"

end SwapCalldata.Double
