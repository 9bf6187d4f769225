/-!
Big-endian byte strings of naturals, and checked slices. The main statements are that a natural that
fits its width reads back from its bytes, and that a slice of joined parts gives the part back.
-/
namespace SwapCalldata.Bytes

/-- The `width` low bytes of a natural, the most significant first. -/
def bigEndian : (width n : Nat) → List UInt8
  | 0, _ => []
  | width + 1, n => UInt8.ofNat (n >>> (8 * width)) :: bigEndian width n

/-- The natural that bytes spell, the most significant first. -/
def toNat : List UInt8 → Nat
  | [] => 0
  | byte :: rest => byte.toNat <<< (8 * rest.length) + toNat rest

/-- The number of bits of a natural; zero has none. -/
def bitLength (n : Nat) : Nat := if n = 0 then 0 else n.log2 + 1

/-- The bytes of a natural without leading zeros, the most significant first. Zero has one byte. -/
def minimal (n : Nat) : List UInt8 :=
  if n < 256 then [UInt8.ofNat n] else minimal (n / 256) ++ [UInt8.ofNat (n % 256)]
  termination_by n
  decreasing_by omega

@[simp] theorem length_bigEndian (width n : Nat) : (bigEndian width n).length = width := by
  induction width with
  | zero => rfl
  | succ width ih => simp [bigEndian, ih]

theorem toNat_bigEndian_mod (width n : Nat) :
    toNat (bigEndian width n) = n % 1 <<< (8 * width) := by
  induction width with
  | zero => simp [bigEndian, toNat, Nat.mod_one]
  | succ width ih =>
    have hbyte : (UInt8.ofNat (n >>> (8 * width))).toNat = n >>> (8 * width) % 256 :=
      UInt8.toNat_ofNat'
    have hwidth : 1 <<< (8 * (width + 1)) = 1 <<< (8 * width) * 256 := by
      rw [Nat.mul_add, Nat.shiftLeft_add]
      exact Nat.shiftLeft_eq _ 8
    rw [bigEndian, toNat, length_bigEndian, ih, hbyte, hwidth, Nat.mod_mul,
      Nat.shiftRight_eq_div_pow, Nat.shiftLeft_eq, Nat.one_shiftLeft, Nat.mul_comm, Nat.add_comm]

/-- A natural that fits its width reads back. -/
theorem toNat_bigEndian {width n : Nat} (h : n < 1 <<< (8 * width)) :
    toNat (bigEndian width n) = n := by
  rw [toNat_bigEndian_mod, Nat.mod_eq_of_lt h]

/-- The part of a byte string from `offset` on with `length` bytes, where it has that many. -/
def slice? (bytes : List UInt8) (offset length : Nat) : Option (List UInt8) :=
  if offset + length ≤ bytes.length then some ((bytes.drop offset).take length) else none

/-- The middle one of three joined parts is the slice at its place. -/
theorem slice?_append (before part after : List UInt8) :
    slice? (before ++ part ++ after) before.length part.length = some part := by
  simp [slice?]

end SwapCalldata.Bytes
