/-!
Double-precision numbers as their 64 bits: a sign and a magnitude. The magnitudes below that of
infinity are the finite numbers in ascending order, and those above it are no numbers. A finite
magnitude stands for a whole number of units of 2^-1074, so its exact value is a natural.
-/
namespace SwapCalldata

structure Double where
  bits : UInt64
deriving DecidableEq

namespace Double

/-- The bits of a negative zero. -/
def signBit : Nat := 0x8000000000000000

/-- The magnitude of infinity. -/
def infinity : Nat := 0x7FF0000000000000

/-- How many magnitudes there are between neighbouring powers of two. -/
def binade : Nat := 0x10000000000000

def isNegative (x : Double) : Bool := decide (signBit ≤ x.bits.toNat)

/-- The bits without the sign. -/
def magnitude (x : Double) : Nat := x.bits.toNat % signBit

def ofMagnitude (negative : Bool) (magnitude : Nat) : Double :=
  ⟨UInt64.ofNat ((if negative then signBit else 0) + magnitude)⟩

def zero : Double := ⟨0⟩

def one : Double := ⟨0x3FF0000000000000⟩

def isNaN (x : Double) : Bool := decide (infinity < x.magnitude)

def isFinite (x : Double) : Bool := decide (x.magnitude < infinity)

/-- The place of a number in the order of all numbers. Both zeros have place 0. -/
def rank (x : Double) : Int := if x.isNegative then -(x.magnitude : Int) else x.magnitude

/-- Numeric equality: the two zeros are equal, and what is no number equals nothing. -/
def eq (x y : Double) : Bool := !x.isNaN && !y.isNaN && x.rank == y.rank

def lt (x y : Double) : Bool := !x.isNaN && !y.isNaN && decide (x.rank < y.rank)

def le (x y : Double) : Bool := !x.isNaN && !y.isNaN && decide (x.rank ≤ y.rank)

/-- The number of units of 2^-1074 in a finite magnitude. Each binade above the first two doubles
the distance of neighbours. -/
def units (magnitude : Nat) : Nat :=
  let doublings := magnitude / binade - 1
  (magnitude - doublings * binade) <<< doublings

theorem eq_comm (x y : Double) : x.eq y = y.eq x := by
  simp only [eq, Bool.and_comm, BEq.comm]

theorem eq_self_iff (x : Double) : x.eq x = true ↔ x.isNaN = false := by
  simp [eq]

end Double

end SwapCalldata
