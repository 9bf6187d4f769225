import SwapCalldata.Error

/-!
Finished swap routes: legs in the order of execution, each through one pool. A leg carries a part of
the flow between 0, exclusive, and 1. Whether it sells the first token of its pool is read off the
token addresses.
-/
namespace SwapCalldata

/-- A part of a flow: above 0 and at most 1. -/
def Double.IsFraction (x : Double) : Prop := Double.zero.lt x = true ∧ x.le Double.one = true

instance (x : Double) : Decidable x.IsFraction := by
  unfold Double.IsFraction
  infer_instance

/-- One hop of a route. -/
structure Leg where
  tokenFrom : Token
  tokenTo : Token
  pool : Pool
  fraction : Double
  isFraction : fraction.IsFraction
deriving DecidableEq

namespace Pool

/-- The positions of two different tokens of a pool, by the addresses of a source and a target. -/
def indices (pool : Pool) (source target : Address) : Except RouteError (Nat × Nat) :=
  match pool.indexOf? source, pool.indexOf? target with
  | none, _ => .error (.legPoolMismatch pool.address source)
  | some _, none => .error (.legPoolMismatch pool.address target)
  | some i, some j =>
    if i = j then .error (.legPoolMismatch pool.address target) else .ok (i, j)

end Pool

namespace Leg

def make (tokenFrom tokenTo : Token) (pool : Pool) (fraction : Double) : Except RouteError Leg :=
  if h : fraction.IsFraction then .ok ⟨tokenFrom, tokenTo, pool, fraction, h⟩
  else .error (.invalidFraction fraction)

/-- Whether the leg shares its input with others. -/
def isPartial (leg : Leg) : Bool := leg.fraction.lt Double.one

/-- The positions of the leg's tokens in a pool. -/
def indicesIn (leg : Leg) (pool : Pool) : Except RouteError (Nat × Nat) :=
  pool.indices leg.tokenFrom.address leg.tokenTo.address

/-- The positions of the leg's tokens in its own pool. -/
def indices (leg : Leg) : Except RouteError (Nat × Nat) := leg.indicesIn leg.pool

/-- Whether the leg sells the first token of its pool. -/
def zeroForOne (leg : Leg) : Except RouteError Bool := leg.indices.map fun pair => pair.1 == 0

/-- Whether a leg's output is the input of another. -/
def feeds (leg later : Leg) : Bool := later.tokenFrom.sameAsset leg.tokenTo

end Leg

/-- How the search for a route ended. -/
inductive RouteStatus where
  | success
  | partialFill
  | noWay
deriving DecidableEq

namespace RouteStatus

def all : List RouteStatus := [success, partialFill, noWay]

def name : RouteStatus → String
  | success => "Success"
  | partialFill => "Partial"
  | noWay => "NoWay"

/-- The status with exactly this name. -/
def ofName? (name : String) : Option RouteStatus := all.find? fun status => status.name == name

@[simp] theorem ofName?_name (status : RouteStatus) : ofName? status.name = some status := by
  cases status <;> decide

end RouteStatus

structure Route where
  status : RouteStatus
  legs : List Leg
  tokenIn : Token
  tokenOut : Token
  amountIn : Nat
  amountOut : Nat
deriving DecidableEq

namespace Route

/-- A route for which no path was found. -/
def noWay (tokenIn tokenOut : Token) (amountIn : Nat) : Route :=
  ⟨.noWay, [], tokenIn, tokenOut, amountIn, 0⟩

def isViable (route : Route) : Bool := route.status != .noWay

/-- Whether the output of the leg at a position is the input of a later one. -/
def feedsLaterLeg (route : Route) (index : Nat) : Bool :=
  match route.legs[index]? with
  | some leg => (route.legs.drop (index + 1)).any leg.feeds
  | none => false

/-- The least output after a slippage in basis points, and at least 1. The deduction is rounded
down. -/
def minAmountOut (route : Route) (bps : UInt64) : Except RouteError Nat :=
  if 10000 < bps then .error (.invalidSlippage bps)
  else
    let deduction := route.amountOut * bps.toNat / 10000
    .ok (if deduction < route.amountOut then route.amountOut - deduction else 1)

end Route

/-- The part of a flow out of 65535, to the nearest natural and a half upwards; 0 below the range
and for what is no number. -/
def Double.share (fraction : Double) : UInt16 :=
  let scaled := fraction.mulNat 65535
  if scaled.isNaN || scaled.isNegative then 0
  else if scaled.isFinite then UInt16.ofNat (min (Double.nearestWhole scaled.magnitude) 65535)
  else 65535

/-- A route in the making: its legs are checked when it is built. -/
structure RouteDraft where
  tokenIn : Token
  tokenOut : Token
  amountIn : Nat := 0
  amountOut : Nat := 0
  status : RouteStatus := .success
  legs : List (Token × Token × Pool × Double) := []

namespace RouteDraft

/-- Adds a leg that carries a part of the flow. -/
def splitLeg (draft : RouteDraft) (tokenFrom tokenTo : Token) (pool : Pool) (fraction : Double) :
    RouteDraft :=
  { draft with legs := draft.legs ++ [(tokenFrom, tokenTo, pool, fraction)] }

/-- Adds a leg that carries the whole flow. -/
def leg (draft : RouteDraft) (tokenFrom tokenTo : Token) (pool : Pool) : RouteDraft :=
  draft.splitLeg tokenFrom tokenTo pool Double.one

/-- The route, unless a fraction is out of range; the first such leg is refused. -/
def build (draft : RouteDraft) : Except Failure Route := do
  let legs ← draft.legs.mapM fun (tokenFrom, tokenTo, pool, fraction) =>
    (Leg.make tokenFrom tokenTo pool fraction).mapError Failure.route
  return ⟨draft.status, legs, draft.tokenIn, draft.tokenOut, draft.amountIn, draft.amountOut⟩

end RouteDraft

end SwapCalldata
