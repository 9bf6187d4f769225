import SwapCalldata.Wire.Form

/-!
From the JSON form to routes, and from compiled routes to the JSON form. Pools are converted first,
then legs, then the tokens and amounts of the route; the first fault in this order is reported. Of
entries at one address, the last describes the pool.
-/
namespace SwapCalldata

def WireToken.toToken (token : WireToken) : Except InputError Token := do
  let address ← Address.parse token.address
  return ⟨address, token.decimals, token.symbol⟩

/-- The kind of a pool. A missing fee is zero; a bridge must have a destination. -/
def WirePool.toKind (pool : WirePool) : Except InputError PoolKind :=
  let fee := pool.fee.getD Double.zero
  match pool.family with
  | .constantProduct => .ok (.constantProduct fee)
  | .concentratedLiquidity => .ok (.concentratedLiquidity fee)
  | .stable => .ok (.stable fee)
  | .bridge =>
    match pool.destination with
    | some destination => .ok (.bridge destination)
    | none => .error (.missingField "destinationChainId")

def WirePool.toPool (pool : WirePool) : Except InputError Pool := do
  let kind ← pool.toKind
  let tokens ← pool.tokens.mapM WireToken.toToken
  let address ← Address.parse pool.address
  return ⟨address, tokens, pool.provider, kind⟩

/-- The last of the pools at an address. -/
def lastPoolAt? (pools : List Pool) (address : Address) : Option Pool :=
  pools.reverse.find? fun pool => pool.address == address

def WireLeg.toLeg (leg : WireLeg) (pools : List Pool) : Except Failure Leg := do
  let address ← (Address.parse leg.pool).mapError Failure.input
  let pool ← match lastPoolAt? pools address with
    | some pool => .ok pool
    | none => .error (Failure.input (.unknownName .pool leg.pool))
  let tokenFrom ← leg.tokenFrom.toToken.mapError Failure.input
  let tokenTo ← leg.tokenTo.toToken.mapError Failure.input
  (Leg.make tokenFrom tokenTo pool leg.fraction).mapError Failure.route

def WireRoute.toRoute (route : WireRoute) : Except Failure Route := do
  let pools ← route.pools.mapM fun pool => pool.toPool.mapError Failure.input
  let legs ← route.legs.mapM fun leg => leg.toLeg pools
  let tokenIn ← route.tokenIn.toToken.mapError Failure.input
  let tokenOut ← route.tokenOut.toToken.mapError Failure.input
  let amountIn ← (Amount.parseWord route.amountIn).mapError Failure.input
  let amountOut ← (Amount.parseWord route.amountOut).mapError Failure.input
  return ⟨route.status, legs, tokenIn, tokenOut, amountIn, amountOut⟩

def WireEncodedLeg.ofLeg (leg : EncodedLeg) : WireEncodedLeg :=
  ⟨UInt64.ofNat leg.index, leg.family, leg.pool.text, leg.recipient.text,
    UInt64.ofNat leg.offset, UInt64.ofNat leg.length, leg.share⟩

def WireCompiledRoute.ofCompiled (compiled : CompiledRoute) : WireCompiledRoute :=
  ⟨compiled.payloadText, compiled.entryPoint.text, compiled.revision, compiled.tokenIn.text,
    compiled.tokenOut.text, Amount.text compiled.amountIn, Amount.text compiled.amountOutMin,
    compiled.legs.map WireEncodedLeg.ofLeg⟩

end SwapCalldata
