import SwapCalldata.Compiler
import SwapCalldata.Json.Value

/-!
The JSON form of routes and compiled routes. Addresses are texts, and amounts are decimal texts, so
that large values survive; nothing in this form is checked further. Each form says here how it is
written: its members in a fixed order, a missing symbol left out, other missing members as null.
-/
namespace SwapCalldata

namespace Json

def ofOption {α : Type} (write : α → Json) : Option α → Json
  | some value => write value
  | none => .null

/-- A number that is no integer, with the fewest digits. What is not finite has no number. -/
def ofDouble (x : Double) : Json :=
  if x.isFinite then .number (.real x.isNegative (Double.shortest .even x.magnitude)) else .null

end Json

structure WireToken where
  address : String
  decimals : UInt8
  symbol : Option String
deriving DecidableEq

structure WirePool where
  address : String
  tokens : List WireToken
  provider : String
  family : PoolFamily
  fee : Option Double
  destination : Option UInt64
deriving DecidableEq

/-- A leg names its pool by address. -/
structure WireLeg where
  tokenFrom : WireToken
  tokenTo : WireToken
  pool : String
  fraction : Double
deriving DecidableEq

structure WireRoute where
  status : RouteStatus
  tokenIn : WireToken
  tokenOut : WireToken
  amountIn : String
  amountOut : String
  pools : List WirePool
  legs : List WireLeg
deriving DecidableEq

structure WireEncodedLeg where
  index : UInt64
  family : PoolFamily
  pool : String
  recipient : String
  offset : UInt64
  length : UInt64
  share : UInt16
deriving DecidableEq

structure WireCompiledRoute where
  payload : String
  entryPoint : String
  revision : Revision
  tokenIn : String
  tokenOut : String
  amountIn : String
  amountOutMin : String
  legs : List WireEncodedLeg
deriving DecidableEq

def WireToken.toJson (token : WireToken) : Json :=
  .ofMembers ([("address", .ofString token.address), ("decimals", .ofNat token.decimals.toNat)]
    ++ match token.symbol with
      | some symbol => [("symbol", .ofString symbol)]
      | none => [])

def WirePool.toJson (pool : WirePool) : Json :=
  .ofMembers [("address", .ofString pool.address),
    ("tokens", .array (pool.tokens.map WireToken.toJson)),
    ("provider", .ofString pool.provider), ("family", .ofString pool.family.name),
    ("fee", .ofOption .ofDouble pool.fee),
    ("destinationChainId", .ofOption (fun id => .ofNat id.toNat) pool.destination)]

def WireLeg.toJson (leg : WireLeg) : Json :=
  .ofMembers [("tokenFrom", leg.tokenFrom.toJson), ("tokenTo", leg.tokenTo.toJson),
    ("pool", .ofString leg.pool), ("flowFraction", .ofDouble leg.fraction)]

def WireRoute.toJson (route : WireRoute) : Json :=
  .ofMembers [("status", .ofString route.status.name), ("tokenIn", route.tokenIn.toJson),
    ("tokenOut", route.tokenOut.toJson), ("amountIn", .ofString route.amountIn),
    ("amountOut", .ofString route.amountOut),
    ("pools", .array (route.pools.map WirePool.toJson)),
    ("legs", .array (route.legs.map WireLeg.toJson))]

def WireEncodedLeg.toJson (leg : WireEncodedLeg) : Json :=
  .ofMembers [("index", .ofNat leg.index.toNat), ("family", .ofString leg.family.name),
    ("pool", .ofString leg.pool), ("recipient", .ofString leg.recipient),
    ("offset", .ofNat leg.offset.toNat), ("length", .ofNat leg.length.toNat),
    ("share", .ofNat leg.share.toNat)]

def WireCompiledRoute.toJson (compiled : WireCompiledRoute) : Json :=
  .ofMembers [("payload", .ofString compiled.payload),
    ("entryPoint", .ofString compiled.entryPoint),
    ("revision", .ofString compiled.revision.name), ("tokenIn", .ofString compiled.tokenIn),
    ("tokenOut", .ofString compiled.tokenOut), ("amountIn", .ofString compiled.amountIn),
    ("amountOutMin", .ofString compiled.amountOutMin),
    ("legs", .array (compiled.legs.map WireEncodedLeg.toJson))]

end SwapCalldata
