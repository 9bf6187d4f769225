import SwapCalldata.InputError
import SwapCalldata.Proofs.Appending

/-!
Words of 256 bits and the naturals below 2^256. The bound is put on the bytes of a natural without
leading zeros, and the natural is padded with zeros to the bytes of the word; the two ways between
words and naturals are inverse to each other.
-/
namespace SwapCalldata

/-- A natural has no more bytes than it has room for, and no fewer. -/
theorem Bytes.length_minimal_le_iff {n k : Nat} :
    (minimal n).length ≤ k + 1 ↔ n < 2 ^ (8 * (k + 1)) := by
  refine ⟨fun h => ?_, length_minimal_le⟩
  calc n = toNat (minimal n) := (toNat_minimal n).symm
    _ < 2 ^ (8 * (minimal n).length) := toNat_lt _
    _ ≤ 2 ^ (8 * (k + 1)) := Nat.pow_le_pow_right (by decide) (Nat.mul_le_mul_left 8 h)

namespace Amount

variable {amount : Nat} {word : BitVec 256} {error : InputError}

/-- The bytes of an amount fit a word exactly where the amount does. -/
theorem length_minimal_le_iff : (Bytes.minimal amount).length ≤ 32 ↔ amount < 2 ^ 256 :=
  Bytes.length_minimal_le_iff (k := 31)

theorem toWord_of_lt (h : amount < 2 ^ 256) : toWord amount = .ok (BitVec.ofNat 256 amount) := by
  have hlength := length_minimal_le_iff.mpr h
  have hvalue : Bytes.toNat (Bytes.bigEndian 32 amount) = amount :=
    Bytes.toNat_bigEndian (by rwa [Nat.one_shiftLeft])
  unfold toWord
  rw [if_neg (Nat.not_lt.mpr hlength), Bytes.padded_minimal hlength h, hvalue]

theorem toWord_of_not_lt (h : ¬amount < 2 ^ 256) : toWord amount = .error .valueTooLarge :=
  if_pos (Nat.not_le.mp fun hlength => h (length_minimal_le_iff.mp hlength))

theorem toWord_eq_ok_iff : toWord amount = .ok word ↔ amount < 2 ^ 256 ∧ word.toNat = amount := by
  by_cases h : amount < 2 ^ 256
  · rw [toWord_of_lt h, Except.ok.injEq, and_iff_right h]
    constructor
    · rintro rfl
      exact (BitVec.toNat_ofNat amount 256).trans (Nat.mod_eq_of_lt h)
    · rintro rfl
      exact (BitVec.ofNat_toNat 256 word).trans word.setWidth_eq
  · simp only [toWord_of_not_lt h, h, reduceCtorEq, false_and]

theorem toWord_eq_error_iff :
    toWord amount = .error error ↔ 2 ^ 256 ≤ amount ∧ error = .valueTooLarge := by
  by_cases h : amount < 2 ^ 256
  · simp only [toWord_of_lt h, Nat.not_le.mpr h, reduceCtorEq, false_and]
  · rw [toWord_of_not_lt h, Except.error.injEq, and_iff_right (Nat.not_lt.mp h), eq_comm]

theorem ofWord_eq (word : BitVec 256) : ofWord word = word.toNat :=
  Bytes.toNat_bigEndian (by rw [Nat.one_shiftLeft]; exact word.isLt)

theorem toWord_ofWord (word : BitVec 256) : toWord (ofWord word) = .ok word := by
  rw [ofWord_eq]
  exact toWord_eq_ok_iff.mpr ⟨word.isLt, rfl⟩

theorem ofWord_of_toWord (h : toWord amount = .ok word) : ofWord word = amount :=
  (ofWord_eq word).trans (toWord_eq_ok_iff.mp h).2

end Amount

end SwapCalldata
