import SwapCalldata.Double.Scaled
import SwapCalldata.Json.Reader
import SwapCalldata.Wire.Form

/-!
Reading the JSON form. A record is an object, whose further members are passed over and whose own
members appear at most once, or an array of its fields in order, which may stop early. A field that
is left out is refused unless it has a default. Strings and numbers are refused only where they are
read.
-/
namespace SwapCalldata

namespace Json

/-- The fields of a record by name, those left out as `none`. -/
def fields? (names : List String) : Json → Option (List (Option Json))
  | .array items =>
    if items.length ≤ names.length then
      some (items.map some ++ List.replicate (names.length - items.length) none)
    else none
  | .object members => do
    let members ← members.mapM fun (key, value) => key.map fun key => (key, value)
    if names.all fun name => (members.filter fun entry => entry.1 == name).length ≤ 1 then
      some (names.map fun name => members.lookup name)
    else none
  | _ => none

def asString? : Json → Option String
  | .string content => content
  | _ => none

/-- An integer of at most this many bits. A negative zero is no integer. -/
def asNat? (bits : Nat) : Json → Option Nat
  | .number (.integer false n) => if n < 1 <<< bits then some n else none
  | _ => none

/-- A number, scaled from its digits; what becomes infinite is refused. -/
def asDouble? : Json → Option Double
  | .number (.integer negative n) => finite? negative (Double.scaled n 0)
  | .number (.real negative value) =>
    finite? negative (Double.scaled value.coefficient value.exponent)
  | _ => none
where
  finite? (negative : Bool) (magnitude : Nat) : Option Double :=
    if magnitude < Double.infinity then some (Double.ofMagnitude negative magnitude) else none

/-- A name of a list, alone or as the only key of an object over null. -/
def asName? {α : Type} (ofName? : String → Option α) : Json → Option α
  | .string (some name) => ofName? name
  | .object [(some name, .null)] => ofName? name
  | _ => none

def asList? {α : Type} (read : Json → Option α) : Json → Option (List α)
  | .array items => items.mapM read
  | _ => none

/-- A field that may be null or left out. -/
def optional? {α : Type} (read : Json → Option α) : Option Json → Option (Option α)
  | none => some none
  | some .null => some none
  | some value => (read value).map some

/-- A list that is empty when it is left out. -/
def listOrEmpty? {α : Type} (read : Json → Option α) : Option Json → Option (List α)
  | none => some []
  | some value => asList? read value

end Json

open Json

def WireToken.ofJson? (value : Json) : Option WireToken := do
  let [address, decimals, symbol] ← fields? ["address", "decimals", "symbol"] value | none
  let address ← address.bind asString?
  let decimals ← decimals.bind (asNat? 8)
  let symbol ← optional? asString? symbol
  return ⟨address, UInt8.ofNat decimals, symbol⟩

def WirePool.ofJson? (value : Json) : Option WirePool := do
  let [address, tokens, provider, family, fee, destination] ←
    fields? ["address", "tokens", "provider", "family", "fee", "destinationChainId"] value | none
  let address ← address.bind asString?
  let tokens ← tokens.bind (asList? WireToken.ofJson?)
  let provider ← provider.bind asString?
  let family ← family.bind (asName? PoolFamily.ofName?)
  let fee ← optional? asDouble? fee
  let destination ← optional? (asNat? 64) destination
  return ⟨address, tokens, provider, family, fee, destination.map UInt64.ofNat⟩

def WireLeg.ofJson? (value : Json) : Option WireLeg := do
  let [tokenFrom, tokenTo, pool, fraction] ←
    fields? ["tokenFrom", "tokenTo", "pool", "flowFraction"] value | none
  let tokenFrom ← tokenFrom.bind WireToken.ofJson?
  let tokenTo ← tokenTo.bind WireToken.ofJson?
  let pool ← pool.bind asString?
  let fraction ← fraction.bind asDouble?
  return ⟨tokenFrom, tokenTo, pool, fraction⟩

def WireRoute.ofJson? (value : Json) : Option WireRoute := do
  let [status, tokenIn, tokenOut, amountIn, amountOut, pools, legs] ←
    fields? ["status", "tokenIn", "tokenOut", "amountIn", "amountOut", "pools", "legs"] value
    | none
  let status ← status.bind (asName? RouteStatus.ofName?)
  let tokenIn ← tokenIn.bind WireToken.ofJson?
  let tokenOut ← tokenOut.bind WireToken.ofJson?
  let amountIn ← amountIn.bind asString?
  let amountOut ← amountOut.bind asString?
  let pools ← listOrEmpty? WirePool.ofJson? pools
  let legs ← listOrEmpty? WireLeg.ofJson? legs
  return ⟨status, tokenIn, tokenOut, amountIn, amountOut, pools, legs⟩

def WireEncodedLeg.ofJson? (value : Json) : Option WireEncodedLeg := do
  let [index, family, pool, recipient, offset, length, share] ←
    fields? ["index", "family", "pool", "recipient", "offset", "length", "share"] value | none
  let index ← index.bind (asNat? 64)
  let family ← family.bind (asName? PoolFamily.ofName?)
  let pool ← pool.bind asString?
  let recipient ← recipient.bind asString?
  let offset ← offset.bind (asNat? 64)
  let length ← length.bind (asNat? 64)
  let share ← share.bind (asNat? 16)
  return ⟨UInt64.ofNat index, family, pool, recipient, UInt64.ofNat offset, UInt64.ofNat length,
    UInt16.ofNat share⟩

def WireCompiledRoute.ofJson? (value : Json) : Option WireCompiledRoute := do
  let [payload, entryPoint, revision, tokenIn, tokenOut, amountIn, amountOutMin, legs] ←
    fields? ["payload", "entryPoint", "revision", "tokenIn", "tokenOut", "amountIn",
      "amountOutMin", "legs"] value | none
  let payload ← payload.bind asString?
  let entryPoint ← entryPoint.bind asString?
  let revision ← revision.bind (asName? Revision.ofName?)
  let tokenIn ← tokenIn.bind asString?
  let tokenOut ← tokenOut.bind asString?
  let amountIn ← amountIn.bind asString?
  let amountOutMin ← amountOutMin.bind asString?
  let legs ← legs.bind (asList? WireEncodedLeg.ofJson?)
  return ⟨payload, entryPoint, revision, tokenIn, tokenOut, amountIn, amountOutMin, legs⟩

def WireRoute.parse? (text : String) : Option WireRoute :=
  (Json.parse? text).bind WireRoute.ofJson?

def WireEncodedLeg.parse? (text : String) : Option WireEncodedLeg :=
  (Json.parse? text).bind WireEncodedLeg.ofJson?

def WireCompiledRoute.parse? (text : String) : Option WireCompiledRoute :=
  (Json.parse? text).bind WireCompiledRoute.ofJson?

end SwapCalldata
