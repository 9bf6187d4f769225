import SwapCalldata.Config
import SwapCalldata.Registry

/-!
The route compiler. Legs are encoded in order and their instructions joined without separators; a
leg whose output is the input of a later one pays the entry point, and any other pays the caller's
recipient. Any refusal ends the compilation, so a payload is complete or not there.
-/
namespace SwapCalldata

/-- Where the instruction of one leg stands in the payload, and what it says. -/
structure EncodedLeg where
  index : Nat
  family : PoolFamily
  pool : Address
  recipient : Address
  offset : Nat
  length : Nat
  share : UInt16
deriving DecidableEq

structure CompiledRoute where
  payload : List UInt8
  entryPoint : Address
  revision : Revision
  tokenIn : Address
  tokenOut : Address
  amountIn : Nat
  amountOutMin : Nat
  legs : List EncodedLeg
deriving DecidableEq

namespace CompiledRoute

/-- The canonical text of the payload. -/
def payloadText (compiled : CompiledRoute) : String := Hex.marked compiled.payload

/-- The instruction bytes of the leg at a position. -/
def legBytes? (compiled : CompiledRoute) (index : Nat) : Option (List UInt8) := do
  let leg ← compiled.legs[index]?
  Bytes.slice? compiled.payload leg.offset leg.length

end CompiledRoute

/-- A compiler: a registry with a slippage of at most 10000 basis points. -/
structure Compiler (κ : Type := PoolFamily) where
  registry : Registry κ
  slippageBps : UInt64
  slippage_le : slippageBps ≤ 10000

namespace Compiler

variable {κ ε : Type}

def ofRegistry (registry : Registry κ) : Compiler κ :=
  ⟨registry, Config.standardSlippage, by decide⟩

def withSlippage (compiler : Compiler κ) (bps : UInt64) : Except Failure (Compiler κ) :=
  if h : bps ≤ 10000 then .ok { compiler with slippageBps := bps, slippage_le := h }
  else .error (.route (.invalidSlippage bps))

/-- The compiler of a deployment, over every family on its chain. -/
def ofConfig (config : Config) : Except Failure Compiler :=
  (ofRegistry ((Registry.standard config.entryPoint).withChain config.chainId)).withSlippage
    config.slippageBps

/-- What the legs encoded so far have produced. -/
structure Progress (ε : Type := PoolEncoder) where
  cache : EncoderCache ε
  payload : List UInt8
  legs : List EncodedLeg

def Progress.start : Progress ε := ⟨.empty, [], []⟩

variable [Constructor κ ε] [Encoding ε]

/-- Encodes one leg of a route for a recipient and appends its instruction. -/
def encodeLeg (registry : Registry κ) (route : Route) (revision : Revision)
    (progress : Progress ε) (leg : Leg) (recipient : Address) : Except Failure (Progress ε) := do
  let (encoder, cache) ← (progress.cache.resolve registry leg.pool).mapError Failure.registry
  let bytes? ← Encoding.encode encoder revision leg route recipient
  let family := Encoding.family encoder
  match bytes? with
  | none => .error (.route (.unsupportedPool family leg.pool.address revision))
  | some bytes =>
    let encoded : EncodedLeg := {
      index := progress.legs.length
      family := family
      pool := leg.pool.address
      recipient := recipient
      offset := progress.payload.length
      length := bytes.length
      share := leg.fraction.share }
    .ok ⟨cache, progress.payload ++ bytes, progress.legs ++ [encoded]⟩

/-- Encodes legs of a route in order. A leg that feeds a later one pays the entry point. -/
def encodeLegs (registry : Registry κ) (route : Route) (revision : Revision)
    (recipient : Address) : Progress ε → List Leg → Except Failure (Progress ε)
  | progress, [] => .ok progress
  | progress, leg :: rest => do
    let receiver := if rest.any leg.feeds then registry.entryPoint else recipient
    let progress ← encodeLeg registry route revision progress leg receiver
    encodeLegs registry route revision recipient progress rest

/-- Compiles a route under a revision, its final output going to a recipient. -/
def compile (compiler : Compiler κ) (route : Route) (revision : Revision) (recipient : Address) :
    Except Failure CompiledRoute :=
  if !route.isViable then .error (.route .noViableRoute)
  else if route.legs.isEmpty then .error (.route .emptyRoute)
  else do
    let done ← encodeLegs compiler.registry route revision recipient Progress.start route.legs
    let amountOutMin ← (route.minAmountOut compiler.slippageBps).mapError Failure.route
    return {
      payload := done.payload
      entryPoint := compiler.registry.entryPoint
      revision := revision
      tokenIn := route.tokenIn.address
      tokenOut := route.tokenOut.address
      amountIn := route.amountIn
      amountOutMin := amountOutMin
      legs := done.legs }

end Compiler

end SwapCalldata
