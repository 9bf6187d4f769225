import SwapCalldata.Instruction
import SwapCalldata.Route

/-!
Encoders of pools. An encoder is built for one pool whose shape its family accepts, and turns legs
through that pool into instructions. Only constant-product pools have a layout under the legacy
revision.
-/
namespace SwapCalldata

/-- A pool with the deployment it is used in: the entry point, and the source chain when known. -/
structure PoolDescriptor where
  pool : Pool
  entryPoint : Address
  chainId : Option UInt64
deriving DecidableEq

/-- The layout of a family with its parameters. -/
inductive Layout where
  | constantProduct
  | concentratedLiquidity
  | stable
  | bridge (destination : UInt32)
deriving DecidableEq

structure PoolEncoder where
  descriptor : PoolDescriptor
  layout : Layout
deriving DecidableEq

/-- The largest number of tokens in a pool of a family. Positions in a stable pool have four
bits. -/
def PoolFamily.mostTokens : PoolFamily → Nat
  | stable => 16
  | _ => 2

namespace PoolDescriptor

/-- The layout for a pool, when it belongs to the family and has the family's shape. A bridge leads
to another chain, whose id has at most 32 bits. -/
def layoutFor (descriptor : PoolDescriptor) (family : PoolFamily) : Except ShapeFault Layout :=
  let pool := descriptor.pool
  let count := pool.tokens.length
  if pool.family ≠ family then .error (.otherFamily pool.family)
  else if count < 2 ∨ family.mostTokens < count then
    .error (.tokenCount 2 family.mostTokens count)
  else match pool.kind with
    | .constantProduct _ => .ok .constantProduct
    | .concentratedLiquidity _ => .ok .concentratedLiquidity
    | .stable _ => .ok .stable
    | .bridge destination =>
      if descriptor.chainId = some destination then .error (.destinationIsSource destination)
      else if destination.toNat < UInt32.size then .ok (.bridge destination.toUInt32)
      else .error (.destinationTooWide destination)

/-- The encoder of a family for a pool. -/
def encoder (descriptor : PoolDescriptor) (family : PoolFamily) :
    Except RegistryError PoolEncoder :=
  match descriptor.layoutFor family with
  | .ok layout => .ok ⟨descriptor, layout⟩
  | .error fault =>
    .error (.invalidShape descriptor.pool.family descriptor.pool.address fault)

end PoolDescriptor

/-- A fee as a percentage, rounded to four places. -/
def Double.percent (fee : Double) : Double :=
  ((fee.mulNat 100).mulNat 10000).round.divNat 10000

namespace PoolEncoder

def pool (encoder : PoolEncoder) : Pool := encoder.descriptor.pool

def family (encoder : PoolEncoder) : PoolFamily := encoder.pool.family

/-- The destination chain, for a bridge. -/
def destination? (encoder : PoolEncoder) : Option UInt32 :=
  match encoder.layout with
  | .bridge destination => some destination
  | _ => none

/-- The provider with the fee, or with the family where there is no fee. -/
def name (encoder : PoolEncoder) : String :=
  encoder.pool.provider ++ " " ++ match encoder.pool.fee? with
    | some fee => fee.percent.text ++ "%"
    | none => encoder.family.name

/-- The positions of a leg's tokens in the encoder's pool. A leg through a pool that does not agree
with it is refused, also at the same address. -/
def indices (encoder : PoolEncoder) (leg : Leg) : Except RouteError (Nat × Nat) :=
  if leg.pool.agrees encoder.pool then leg.indicesIn encoder.pool
  else .error (.foreignLegPool encoder.pool.address leg.pool.address)

/-- Whether a leg sells the first token of the encoder's pool. -/
def zeroForOne (encoder : PoolEncoder) (leg : Leg) : Except RouteError Bool :=
  (encoder.indices leg).map fun pair => pair.1 == 0

/-- The instruction of the current layout for a leg between two positions. -/
def instructionAt (encoder : PoolEncoder) (source target : Nat) (recipient : Address) :
    Instruction :=
  let swap : Swap := ⟨encoder.pool.address, source == 0, recipient⟩
  match encoder.layout with
  | .constantProduct => .constantProduct swap
  | .concentratedLiquidity => .concentratedLiquidity swap
  | .stable => .stable swap (Instruction.selector source target)
  | .bridge destination => .bridge swap destination

/-- The instruction for a leg, or none where the family has no layout under the revision. Such a
leg is not looked at further. -/
def instruction? (encoder : PoolEncoder) (revision : Revision) (leg : Leg) (recipient : Address) :
    Except RouteError (Option Instruction) :=
  match revision, encoder.layout with
  | .v1, .constantProduct =>
    (encoder.indices leg).map fun pair =>
      some (.legacy ⟨encoder.pool.address, pair.1 == 0, recipient⟩ leg.tokenFrom.address)
  | .v1, _ => .ok none
  | .v2, _ =>
    (encoder.indices leg).map fun pair =>
      some (encoder.instructionAt pair.1 pair.2 recipient)

/-- The bytes of a leg's instruction. -/
def encode (encoder : PoolEncoder) (revision : Revision) (leg : Leg) (recipient : Address) :
    Except RouteError (Option (List UInt8)) :=
  (encoder.instruction? revision leg recipient).map fun found => found.map Instruction.bytes

end PoolEncoder

/-- What a compiler asks of an encoder. -/
class Encoding (ε : Type) where
  pool : ε → Pool
  family : ε → PoolFamily
  encode : ε → Revision → Leg → Route → Address → Except Failure (Option (List UInt8))

/-- What can be registered for a family: it builds encoders for pools, or refuses them. -/
class Constructor (κ : Type) (ε : outParam Type) where
  construct : PoolDescriptor → κ → Except RegistryError ε

/-- The encoders of the families do not look at the rest of the route. -/
instance : Encoding PoolEncoder where
  pool := PoolEncoder.pool
  family := PoolEncoder.family
  encode encoder revision leg _ recipient :=
    (encoder.encode revision leg recipient).mapError Failure.route

instance : Constructor PoolFamily PoolEncoder := ⟨PoolDescriptor.encoder⟩

end SwapCalldata
