import SwapCalldata.Proofs.Appending
import SwapCalldata.Instruction
import SwapCalldata.Proofs.Outcome

/-!
The bytes of instructions as a code. The first byte tells the layout and with it the length, so the
bytes of one instruction never start those of another, and joined instructions are read back in one
way only.
-/
namespace SwapCalldata

theorem Address.bytes_append_inj {a b : Address} {s t : List UInt8}
    (h : a.bytes ++ s = b.bytes ++ t) : a = b ∧ s = t := by
  obtain ⟨hbytes, hrest⟩ := List.append_inj h (by rw [a.length_bytes, b.length_bytes])
  exact ⟨Address.ext_bytes hbytes, hrest⟩

namespace Instruction

/-- The pool, the orientation and the recipient stand in every layout. -/
def swap : Instruction → Swap
  | legacy swap _ => swap
  | constantProduct swap => swap
  | concentratedLiquidity swap => swap
  | stable swap _ => swap
  | bridge swap _ => swap

def family : Instruction → PoolFamily
  | legacy _ _ => .constantProduct
  | constantProduct _ => .constantProduct
  | concentratedLiquidity _ => .concentratedLiquidity
  | stable _ _ => .stable
  | bridge _ _ => .bridge

variable {i j : Instruction} {s t : List UInt8}

theorem flag_inj {a b : Bool} (h : flag a = flag b) : a = b := by
  cases a <;> cases b <;> first | rfl | exact absurd h (by decide)

/-- Every layout with the pool's address in front of it closes its swap with these bytes. -/
theorem orientation_append_inj {a b : Swap} (hpool : a.pool = b.pool)
    (h : flag a.zeroForOne :: (a.recipient.bytes ++ s) =
      flag b.zeroForOne :: (b.recipient.bytes ++ t)) : a = b ∧ s = t := by
  obtain ⟨hflag, h⟩ := List.cons_eq_cons.mp h
  obtain ⟨hrecipient, hrest⟩ := Address.bytes_append_inj h
  refine ⟨?_, hrest⟩
  obtain ⟨pool, zeroForOne, recipient⟩ := a
  rw [Swap.mk.injEq]
  exact ⟨hpool, flag_inj hflag, hrecipient⟩

theorem header_append_inj {f g : PoolFamily} {a b : Swap}
    (h : header f a ++ s = header g b ++ t) : f = g ∧ a = b ∧ s = t := by
  simp only [header, List.cons_append, List.append_assoc, List.cons.injEq] at h
  obtain ⟨htag, h⟩ := h
  obtain ⟨hpool, h⟩ := Address.bytes_append_inj h
  exact ⟨PoolFamily.tag_inj htag, orientation_append_inj hpool h⟩

theorem legacy_append_inj {a b : Swap} {x y : Address}
    (h : (legacy a x).bytes ++ s = (legacy b y).bytes ++ t) : a = b ∧ x = y ∧ s = t := by
  simp only [bytes, List.cons_append, List.append_assoc, List.cons.injEq, true_and] at h
  obtain ⟨hpool, h⟩ := Address.bytes_append_inj h
  obtain ⟨htoken, h⟩ := Address.bytes_append_inj h
  obtain ⟨hswap, hrest⟩ := orientation_append_inj hpool h
  exact ⟨hswap, htoken, hrest⟩

theorem destination_append_inj {a b : UInt32}
    (h : Bytes.bigEndian 4 a.toNat ++ s = Bytes.bigEndian 4 b.toNat ++ t) : a = b ∧ s = t := by
  obtain ⟨hbytes, hrest⟩ := List.append_inj h (by simp only [Bytes.length_bigEndian])
  have hread := congrArg Bytes.toNat hbytes
  rw [Bytes.toNat_bigEndian a.toNat_lt, Bytes.toNat_bigEndian b.toNat_lt] at hread
  exact ⟨UInt32.toNat_inj.mp hread, hrest⟩

/-- No instruction's bytes start another's. -/
theorem bytes_append_inj (h : i.bytes ++ s = j.bytes ++ t) : i = j ∧ s = t := by
  cases i <;> cases j
  case legacy.legacy =>
    obtain ⟨rfl, rfl, hrest⟩ := legacy_append_inj h
    exact ⟨rfl, hrest⟩
  case constantProduct.constantProduct =>
    obtain ⟨_, rfl, hrest⟩ := header_append_inj h
    exact ⟨rfl, hrest⟩
  case concentratedLiquidity.concentratedLiquidity =>
    obtain ⟨_, rfl, hrest⟩ := header_append_inj h
    exact ⟨rfl, hrest⟩
  case stable.stable =>
    simp only [bytes, List.append_assoc] at h
    obtain ⟨_, rfl, htail⟩ := header_append_inj h
    obtain ⟨rfl, hrest⟩ := List.cons_eq_cons.mp htail
    exact ⟨rfl, hrest⟩
  case bridge.bridge =>
    simp only [bytes, List.append_assoc] at h
    obtain ⟨_, rfl, htail⟩ := header_append_inj h
    obtain ⟨rfl, hrest⟩ := destination_append_inj htail
    exact ⟨rfl, hrest⟩
  -- Different layouts differ in their first bytes.
  all_goals
    have hlead := (List.cons_eq_cons.mp h).1
    exact absurd hlead (by decide)

theorem bytes_ne_nil (i : Instruction) : i.bytes ≠ [] := by
  intro h
  have hlength := i.length_bytes
  rw [h] at hlength
  cases i <;> simp at hlength

theorem flatMap_bytes_prefix {is js : List Instruction}
    (h : is.flatMap bytes <+: js.flatMap bytes) : is <+: js := by
  induction is generalizing js with
  | nil => exact List.nil_prefix
  | cons i is ih =>
    obtain ⟨t, ht⟩ := h
    cases js with
    | nil =>
      rw [List.flatMap_cons, List.append_assoc] at ht
      exact absurd (List.append_eq_nil_iff.mp ht).1 i.bytes_ne_nil
    | cons j js =>
      rw [List.flatMap_cons, List.flatMap_cons, List.append_assoc] at ht
      obtain ⟨rfl, hrest⟩ := bytes_append_inj ht
      exact List.cons_prefix_cons.mpr ⟨rfl, ih ⟨t, hrest⟩⟩

/-- Joined instructions are read back in one way only. -/
theorem flatMap_bytes_inj {is js : List Instruction}
    (h : is.flatMap bytes = js.flatMap bytes) : is = js := by
  have his : is <+: js := flatMap_bytes_prefix (h ▸ List.prefix_refl _)
  have hjs : js <+: is := flatMap_bytes_prefix (h ▸ List.prefix_refl _)
  exact his.eq_of_length (Nat.le_antisymm his.length_le hjs.length_le)

theorem selector_toNat {source target : Nat} (hs : source < 16) (ht : target < 16) :
    (selector source target).toNat = 16 * source + target := by
  have all : ∀ a b : Fin 16, (selector a.val b.val).toNat = 16 * a.val + b.val := by decide
  exact all ⟨source, hs⟩ ⟨target, ht⟩

theorem selector_inj {source target source' target' : Nat} (hs : source < 16) (ht : target < 16)
    (hs' : source' < 16) (ht' : target' < 16)
    (h : selector source target = selector source' target') :
    source = source' ∧ target = target' := by
  have hbyte := congrArg UInt8.toNat h
  rw [selector_toNat hs ht, selector_toNat hs' ht'] at hbyte
  constructor
  · omega
  · omega

/-- The fields of the current header, in order. -/
def headerFields (family : PoolFamily) (swap : Swap) : List Primitive :=
  [.uint .w8 family.tag.toNat, .address swap.pool.bytes, .bool swap.zeroForOne,
    .address swap.recipient.bytes]

def fields : Instruction → List Primitive
  | legacy swap tokenFrom =>
    [.uint .w8 legacyCommand.toNat, .address swap.pool.bytes, .address tokenFrom.bytes,
      .bool swap.zeroForOne, .address swap.recipient.bytes]
  | constantProduct swap => headerFields .constantProduct swap
  | concentratedLiquidity swap => headerFields .concentratedLiquidity swap
  | stable swap selector => headerFields .stable swap ++ [.uint .w8 selector.toNat]
  | bridge swap destination => headerFields .bridge swap ++ [.uint .w32 destination.toNat]

theorem append_byte (buffer : Buffer) (byte : UInt8) :
    buffer.append (.uint .w8 byte.toNat) = .ok ⟨buffer.bytes ++ [byte]⟩ := by
  have hbytes : Bytes.bigEndian 1 byte.toNat = [byte] := by
    simp [Bytes.bigEndian]
  have hfit : byte.toNat < 1 <<< 8 := byte.toNat_lt
  have hencode : (Primitive.uint .w8 byte.toNat).encode = .ok (Bytes.bigEndian 1 byte.toNat) :=
    if_pos hfit
  rw [Buffer.append_eq, hencode, hbytes]
  rfl

theorem append_address (buffer : Buffer) (address : Address) :
    buffer.append (.address address.bytes) = .ok ⟨buffer.bytes ++ address.bytes⟩ := by
  have hencode : (Primitive.address address.bytes).encode = .ok address.bytes :=
    if_pos address.length_bytes
  rw [Buffer.append_eq, hencode]
  rfl

theorem append_flag (buffer : Buffer) (value : Bool) :
    buffer.append (.bool value) = .ok ⟨buffer.bytes ++ [flag value]⟩ := rfl

theorem append_destination (buffer : Buffer) (destination : UInt32) :
    buffer.append (.uint .w32 destination.toNat) =
      .ok ⟨buffer.bytes ++ Bytes.bigEndian 4 destination.toNat⟩ := by
  have hfit : destination.toNat < 1 <<< 32 := destination.toNat_lt
  have hencode : (Primitive.uint .w32 destination.toNat).encode =
      .ok (Bytes.bigEndian 4 destination.toNat) := if_pos hfit
  rw [Buffer.append_eq, hencode]
  rfl

theorem append_headerFields (family : PoolFamily) (swap : Swap) (buffer : Buffer) :
    (headerFields family swap).foldlM Buffer.append buffer =
      .ok ⟨buffer.bytes ++ header family swap⟩ := by
  simp [headerFields, header, append_byte, append_address, append_flag, Outcome.ok_bind,
    Outcome.pure_eq]

/-- No field of an instruction is refused where it is appended, and together they are its bytes. -/
theorem append_fields (instruction : Instruction) (buffer : Buffer) :
    instruction.fields.foldlM Buffer.append buffer =
      .ok ⟨buffer.bytes ++ instruction.bytes⟩ := by
  cases instruction with
  | legacy swap tokenFrom =>
    simp [fields, bytes, append_byte, append_address, append_flag, Outcome.ok_bind,
      Outcome.pure_eq]
  | constantProduct swap => exact append_headerFields .constantProduct swap buffer
  | concentratedLiquidity swap => exact append_headerFields .concentratedLiquidity swap buffer
  | stable swap selector =>
    simp [fields, bytes, append_headerFields, append_byte, Outcome.ok_bind, Outcome.pure_eq]
  | bridge swap destination =>
    simp [fields, bytes, append_headerFields, append_destination, Outcome.ok_bind,
      Outcome.pure_eq]

end Instruction

end SwapCalldata
