import SwapCalldata.Environment
import SwapCalldata.Error

/-!
The configuration of a deployment, read from environment variables. Only the entry point is
required; a variable whose value is no text counts as not set.
-/
namespace SwapCalldata

/-- The settings of one deployment. -/
structure Config where
  entryPoint : Address
  revision : Revision
  slippageBps : UInt64
  chainId : UInt64
deriving DecidableEq

namespace Config

/-- The slippage used when none is named, in basis points. -/
def standardSlippage : UInt64 := 50

/-- The chain used when none is named. -/
def standardChain : String := "ethereum"

/-- Reads a slippage of at most 10000 basis points, blank characters around it ignored. -/
def parseSlippage (text : String) : Except ConfigError UInt64 :=
  match Digits.readWord? (Text.trim text.toList) with
  | some bps => if bps ≤ 10000 then .ok bps else .error (.slippageTooHigh bps)
  | none => .error (.badSlippage text)

/-- The configuration of an environment. Entry point, revision, slippage and chain are checked in
this order, and the first fault is reported. -/
def ofEnvironment (env : Environment) : Except ConfigError Config := do
  let entryPoint ← match env.text? .entryPoint with
    | some value => (Address.parse value).mapError .badEntryPoint
    | none => .error .missingEntryPoint
  let revision ← match env.text? .revision with
    | some value => (Revision.parse value).mapError fun _ => .badRevision value
    | none => .ok Revision.standard
  let slippageBps ← match env.text? .slippage with
    | some value => parseSlippage value
    | none => .ok standardSlippage
  let chain := (env.text? .chain).getD standardChain
  let chainId ← (Chain.idOf chain).mapError fun _ => .badChain chain
  return ⟨entryPoint, revision, slippageBps, chainId⟩

end Config

end SwapCalldata
