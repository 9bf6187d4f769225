import SwapCalldata.Bytes
import SwapCalldata.Family

/-!
Instructions of the route processor and their bytes. The layouts are published: a legacy
constant-product swap has 62 bytes; each current instruction has a header of 42 bytes, which starts
with the tag of its family, and then what its family adds.
-/
namespace SwapCalldata

/-- What every instruction says: the pool, whether its first token is sold, and who receives the
output. -/
structure Swap where
  pool : Address
  zeroForOne : Bool
  recipient : Address
deriving DecidableEq

inductive Instruction where
  | legacy (swap : Swap) (tokenFrom : Address)
  | constantProduct (swap : Swap)
  | concentratedLiquidity (swap : Swap)
  | stable (swap : Swap) (selector : UInt8)
  | bridge (swap : Swap) (destination : UInt32)
deriving DecidableEq

namespace Instruction

/-- The first byte of a legacy constant-product swap. -/
def legacyCommand : UInt8 := 10

def flag (value : Bool) : UInt8 := if value then 1 else 0

/-- The header of the current layouts. -/
def header (family : PoolFamily) (swap : Swap) : List UInt8 :=
  family.tag :: swap.pool.bytes ++ flag swap.zeroForOne :: swap.recipient.bytes

def bytes : Instruction → List UInt8
  | legacy swap tokenFrom =>
    legacyCommand :: swap.pool.bytes ++ tokenFrom.bytes
      ++ flag swap.zeroForOne :: swap.recipient.bytes
  | constantProduct swap => header .constantProduct swap
  | concentratedLiquidity swap => header .concentratedLiquidity swap
  | stable swap selector => header .stable swap ++ [selector]
  | bridge swap destination => header .bridge swap ++ Bytes.bigEndian 4 destination.toNat

/-- Two positions in one byte: the source in the high half, the target in the low half. -/
def selector (source target : Nat) : UInt8 :=
  (UInt8.ofNat source <<< 4) ||| (UInt8.ofNat target &&& 0x0F)

theorem length_header (family : PoolFamily) (swap : Swap) : (header family swap).length = 42 := by
  simp [header, swap.pool.length_bytes, swap.recipient.length_bytes]

theorem length_bytes (instruction : Instruction) : instruction.bytes.length =
    match instruction with
    | legacy _ _ => 62
    | constantProduct _ => 42
    | concentratedLiquidity _ => 42
    | stable _ _ => 43
    | bridge _ _ => 46 := by
  cases instruction with
  | legacy swap tokenFrom =>
    simp [bytes, swap.pool.length_bytes, swap.recipient.length_bytes, tokenFrom.length_bytes]
  | constantProduct swap => simp [bytes, length_header]
  | concentratedLiquidity swap => simp [bytes, length_header]
  | stable swap selector => simp [bytes, length_header]
  | bridge swap destination => simp [bytes, length_header]

end Instruction

end SwapCalldata
