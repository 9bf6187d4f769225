import Mathlib.Tactic
import SwapCalldata.Buffer
import SwapCalldata.Proofs.Outcome

/-!
Runs of appends to a buffer. A primitive is refused before the first byte of it is written, so a run
leaves the encodings of the primitives that were not refused, in order. A natural is accepted
exactly when it is below the power of two of its width; its bytes without leading zeros are then
not more than the width has, and what is padded with zeros is the natural's big-endian form.
-/
namespace SwapCalldata

namespace Bytes

theorem toNat_cons (byte : UInt8) (rest : List UInt8) :
    toNat (byte :: rest) = byte.toNat * 2 ^ (8 * rest.length) + toNat rest := by
  rw [toNat, Nat.shiftLeft_eq]

theorem toNat_lt (bytes : List UInt8) : toNat bytes < 2 ^ (8 * bytes.length) := by
  induction bytes with
  | nil => decide
  | cons byte rest ih =>
    have hbyte : byte.toNat + 1 ≤ 2 ^ 8 := byte.toNat_lt
    calc toNat (byte :: rest)
        < byte.toNat * 2 ^ (8 * rest.length) + 2 ^ (8 * rest.length) := by
          rw [toNat_cons]
          exact Nat.add_lt_add_left ih _
      _ = (byte.toNat + 1) * 2 ^ (8 * rest.length) := (Nat.succ_mul _ _).symm
      _ ≤ 2 ^ 8 * 2 ^ (8 * rest.length) := Nat.mul_le_mul_right _ hbyte
      _ = 2 ^ (8 * (byte :: rest).length) := by rw [← Nat.pow_add, List.length_cons]; congr 1; ring

theorem toNat_append (front back : List UInt8) :
    toNat (front ++ back) = toNat front * 2 ^ (8 * back.length) + toNat back := by
  induction front with
  | nil => simp [toNat]
  | cons byte front ih =>
    rw [List.cons_append, toNat_cons, toNat_cons, ih, List.length_append, Nat.mul_add, Nat.pow_add]
    ring

theorem toNat_replicate_zero (count : Nat) : toNat (List.replicate count 0) = 0 := by
  induction count with
  | zero => rfl
  | succ count ih =>
    rw [List.replicate_succ, toNat_cons, ih]
    simp

/-- The first byte is what the bytes after it leave of the natural. -/
theorem toNat_cons_div (byte : UInt8) (rest : List UInt8) :
    toNat (byte :: rest) / 2 ^ (8 * rest.length) = byte.toNat := by
  rw [toNat_cons, Nat.mul_comm, Nat.mul_add_div (Nat.two_pow_pos _),
    Nat.div_eq_of_lt (toNat_lt rest), Nat.add_zero]

/-- Byte strings of one length that spell the same natural are equal. -/
theorem toNat_inj {a b : List UInt8} (hlength : a.length = b.length) (h : toNat a = toNat b) :
    a = b := by
  induction a generalizing b with
  | nil => exact (List.eq_nil_of_length_eq_zero hlength.symm).symm
  | cons byte rest ih =>
    cases b with
    | nil => cases hlength
    | cons byte' rest' =>
      have hrest : rest.length = rest'.length := Nat.succ.inj hlength
      have hbyte : byte.toNat = byte'.toNat := by
        rw [← toNat_cons_div byte rest, ← toNat_cons_div byte' rest', h, hrest]
      have htail : toNat rest = toNat rest' := by
        rw [toNat_cons, toNat_cons, hbyte, hrest] at h
        exact Nat.add_left_cancel h
      rw [UInt8.toNat_inj.mp hbyte, ih hrest htail]

theorem bitLength_le_iff {n k : Nat} : bitLength n ≤ k ↔ n < 2 ^ k := by
  unfold bitLength
  split
  next hzero => simp [hzero]
  next hpos => rw [Nat.succ_le_iff, Nat.log2_lt hpos]

theorem toNat_minimal (n : Nat) : toNat (minimal n) = n := by
  fun_induction minimal n with
  | case1 n hsmall => simp [toNat, Nat.mod_eq_of_lt hsmall]
  | case2 n hlarge ih =>
    have hbyte : (UInt8.ofNat (n % 256)).toNat = n % 256 := by simp
    rw [toNat_append, ih, toNat_cons, hbyte]
    simp [toNat]
    omega

/-- A natural that fits a number of bytes has no more without leading zeros. -/
theorem length_minimal_le {n k : Nat} (h : n < 2 ^ (8 * (k + 1))) :
    (minimal n).length ≤ k + 1 := by
  induction k generalizing n with
  | zero =>
    rw [minimal, if_pos (by simpa using h)]
    rfl
  | succ k ih =>
    rw [minimal]
    split
    next => simp
    next =>
      have hrest : n / 256 < 2 ^ (8 * (k + 1)) := by
        apply Nat.div_lt_of_lt_mul
        rw [show 8 * (k + 1 + 1) = 8 + 8 * (k + 1) by ring, Nat.pow_add] at h
        exact h
      rw [List.length_append, List.length_singleton]
      exact Nat.succ_le_succ (ih hrest)

/-- Zeros in front of the bytes of a natural make its big-endian form. -/
theorem padded_minimal {n k : Nat} (hlength : (minimal n).length ≤ k) (h : n < 2 ^ (8 * k)) :
    List.replicate (k - (minimal n).length) 0 ++ minimal n = bigEndian k n := by
  apply toNat_inj
  · simp [Nat.sub_add_cancel hlength]
  · rw [toNat_append, toNat_replicate_zero, toNat_minimal,
      toNat_bigEndian (by rwa [Nat.one_shiftLeft]), Nat.zero_mul, Nat.zero_add]

end Bytes

namespace Width

theorem bytes_pos (width : Width) : 0 < width.bytes := by cases width <;> decide

theorem bits_div (width : Width) : width.bits / 8 = width.bytes :=
  Nat.mul_div_cancel_left width.bytes (by decide)

/-- The padding of a natural that fits its width is not cut off at zero. -/
theorem length_minimal_le (width : Width) {value : Nat} (h : value < 2 ^ width.bits) :
    (Bytes.minimal value).length ≤ width.bytes := by
  obtain ⟨k, hk⟩ := Nat.exists_eq_succ_of_ne_zero width.bytes_pos.ne'
  rw [bits, hk] at h
  rw [hk]
  exact Bytes.length_minimal_le h

end Width

namespace Primitive

/-- The bytes of a primitive. -/
def encode : Primitive → Except EncodingError (List UInt8)
  | uint width value =>
    if value < 1 <<< width.bits then .ok (Bytes.bigEndian width.bytes value)
    else .error (.range width.bits value)
  | address bytes =>
    if bytes.length = 20 then .ok bytes else .error (.invalidAddress (Hex.marked bytes))
  | addressText text =>
    match readAddress? text with
    | some parsed => .ok parsed.bytes
    | none => .error (.invalidAddress text)
  | bool value => .ok [if value then 1 else 0]
  | raw bytes => .ok bytes

theorem encode_uint (width : Width) (value : Nat) : (uint width value).encode =
    if value < 2 ^ width.bits then .ok (Bytes.bigEndian width.bytes value)
    else .error (.range width.bits value) := by
  rw [← Nat.one_shiftLeft]
  rfl

/-- The encodings of the primitives that have one. -/
def encodings (primitives : List Primitive) : List (List UInt8) :=
  primitives.filterMap fun primitive => primitive.encode.toOption

end Primitive

namespace Buffer

variable {buffer after : Buffer} {primitive : Primitive} {error : EncodingError}

theorem run_writeUint (buffer : Buffer) (width : Width) (value : Nat) :
    (writeUint width value).run.run buffer =
      match (Primitive.uint width value).encode with
      | .ok bytes => (.ok (), ⟨buffer.bytes ++ bytes⟩)
      | .error error => (.error error, buffer) := by
  unfold writeUint
  rw [Primitive.encode_uint]
  by_cases hfit : value < 2 ^ width.bits
  · have hbits : ¬width.bits < Bytes.bitLength value :=
      Nat.not_lt.mpr (Bytes.bitLength_le_iff.mpr hfit)
    rw [if_pos hfit, if_neg hbits, ← Bytes.padded_minimal (width.length_minimal_le hfit) hfit]
    show (Except.ok (), Buffer.mk (buffer.bytes ++ _ ++ _)) = _
    rw [List.append_assoc]
  · have hbits : width.bits < Bytes.bitLength value :=
      Nat.not_le.mp fun h => hfit (Bytes.bitLength_le_iff.mp h)
    rw [if_neg hfit, if_pos hbits]
    rfl

theorem run_writeAddress (buffer : Buffer) (bytes : List UInt8) :
    (writeAddress bytes).run.run buffer =
      if bytes.length = 20 then (.ok (), ⟨buffer.bytes ++ bytes⟩)
      else (.error (.invalidAddress (Hex.marked bytes)), buffer) := by
  unfold writeAddress
  by_cases hlength : bytes.length = 20
  · rw [if_pos hlength, if_neg (not_not.mpr hlength)]
    rfl
  · rw [if_neg hlength, if_pos hlength]
    rfl

/-- A primitive is written as a whole or not at all. -/
theorem run_write (buffer : Buffer) (primitive : Primitive) :
    (write primitive).run.run buffer =
      match primitive.encode with
      | .ok bytes => (.ok (), ⟨buffer.bytes ++ bytes⟩)
      | .error error => (.error error, buffer) := by
  cases primitive with
  | uint width value => exact run_writeUint buffer width value
  | address bytes =>
    rw [write, run_writeAddress, Primitive.encode]
    split <;> rfl
  | addressText text =>
    rw [write, Primitive.encode]
    cases Primitive.readAddress? text with
    | none => rfl
    | some address => exact (run_writeAddress buffer address.bytes).trans (if_pos address.length_bytes)
  | bool value => rfl
  | raw bytes => rfl

theorem append_eq (buffer : Buffer) (primitive : Primitive) :
    buffer.append primitive = primitive.encode.map fun bytes => ⟨buffer.bytes ++ bytes⟩ := by
  unfold append
  rw [run_write]
  cases primitive.encode <;> rfl

theorem append_eq_ok_iff : buffer.append primitive = .ok after ↔
    ∃ bytes, primitive.encode = .ok bytes ∧ ⟨buffer.bytes ++ bytes⟩ = after := by
  rw [append_eq, Outcome.map_eq_ok_iff]

theorem append_eq_error_iff :
    buffer.append primitive = .error error ↔ primitive.encode = .error error := by
  rw [append_eq, Outcome.map_eq_error_iff]

theorem step_of_ok (h : buffer.append primitive = .ok after) : buffer.step primitive = after := by
  obtain ⟨bytes, hbytes, rfl⟩ := append_eq_ok_iff.mp h
  unfold step
  rw [run_write, hbytes]

theorem step_of_error (h : buffer.append primitive = .error error) :
    buffer.step primitive = buffer := by
  unfold step
  rw [run_write, append_eq_error_iff.mp h]

end Buffer

end SwapCalldata
