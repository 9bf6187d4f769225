import SwapCalldata.Pool

/-!
The refusals of the compiler, by the part that refuses, with their messages. Addresses in messages
are checksummed.
-/
namespace SwapCalldata

/-- Why a value is not appended to a byte buffer. -/
inductive EncodingError where
  | range (width : Nat) (value : Nat)
  | invalidAddress (input : String)
deriving DecidableEq

def EncodingError.message : EncodingError → String
  | range width value =>
    "Value " ++ toString value ++ " does not fit in uint" ++ toString width
  | invalidAddress input => "Invalid address '" ++ input ++ "': expected 20 bytes"

/-- Why a route or one of its legs is refused. -/
inductive RouteError where
  | noViableRoute
  | emptyRoute
  | legPoolMismatch (pool token : Address)
  | foreignLegPool (pool legPool : Address)
  | unsupportedPool (family : PoolFamily) (pool : Address) (revision : Revision)
  | invalidFraction (fraction : Double)
  | invalidSlippage (bps : UInt64)
deriving DecidableEq

def RouteError.message : RouteError → String
  | noViableRoute => "Route has no viable path"
  | emptyRoute => "Route has no legs to encode"
  | legPoolMismatch pool token =>
    "Leg token " ++ token.checksummed ++ " is not traded by pool " ++ pool.checksummed
  | foreignLegPool pool legPool =>
    "Leg trades through pool " ++ legPool.checksummed ++ ", not pool " ++ pool.checksummed
  | unsupportedPool family pool revision =>
    "Pool family " ++ family.name ++ " (pool " ++ pool.checksummed
      ++ ") is not supported under revision " ++ revision.name
  | invalidFraction fraction => "Flow fraction must be in (0, 1], got " ++ fraction.text
  | invalidSlippage bps => "Slippage must be at most 10000 bps, got " ++ toString bps

/-- What is wrong with the shape of a pool; a constructor from elsewhere has words of its own. -/
inductive ShapeFault where
  | otherFamily (family : PoolFamily)
  | tokenCount (least most count : Nat)
  | destinationIsSource (chain : UInt64)
  | destinationTooWide (chain : UInt64)
  | other (reason : String)
deriving DecidableEq

def ShapeFault.message : ShapeFault → String
  | otherFamily family => "pool is a " ++ family.name ++ " pool"
  | tokenCount least most count =>
    "expected " ++ toString least ++ "..=" ++ toString most ++ " tokens, got " ++ toString count
  | destinationIsSource chain => "destination chain " ++ toString chain ++ " is the source chain"
  | destinationTooWide chain =>
    "destination chain " ++ toString chain ++ " does not fit uint32"
  | other reason => reason

/-- Why a family is not registered or a pool not resolved to an encoder. -/
inductive RegistryError where
  | duplicateFamily (family : PoolFamily)
  | unknownFamily (family : PoolFamily) (pool : Address)
  | conflictingPool (pool : Address)
  | invalidShape (family : PoolFamily) (pool : Address) (fault : ShapeFault)
deriving DecidableEq

def RegistryError.message : RegistryError → String
  | duplicateFamily family => "Pool family " ++ family.name ++ " is already registered"
  | unknownFamily family pool =>
    "No encoder registered for pool family " ++ family.name ++ " (pool " ++ pool.checksummed ++ ")"
  | conflictingPool pool =>
    "Pool " ++ pool.checksummed ++ " appears with conflicting metadata in one route"
  | invalidShape family pool fault =>
    "Pool " ++ pool.checksummed ++ " has an invalid shape for family " ++ family.name ++ ": "
      ++ fault.message

/-- Why a deployment is not configured. -/
inductive ConfigError where
  | missingEntryPoint
  | badEntryPoint (cause : InputError)
  | badRevision (value : String)
  | slippageTooHigh (bps : UInt64)
  | badSlippage (value : String)
  | badChain (value : String)
deriving DecidableEq

/-- The top-level refusal of the compiler. -/
inductive Failure where
  | encoding (error : EncodingError)
  | route (error : RouteError)
  | registry (error : RegistryError)
  | input (error : InputError)
  | config (error : ConfigError)
  | json
deriving DecidableEq

/-- The message of a refused input inside a longer message. -/
def InputError.framed (error : InputError) : String := "Utility error: " ++ error.message

def ConfigError.message (error : ConfigError) : String :=
  "Invalid configuration: " ++ match error with
  | missingEntryPoint => "ROUTE_ENTRY_POINT environment variable is required"
  | badEntryPoint cause => "Failed to parse ROUTE_ENTRY_POINT: " ++ cause.framed
  | badRevision value =>
    "Invalid ROUTE_REVISION value: " ++ value ++ ". Must be one of: v1, v2"
  | slippageTooHigh bps =>
    "ROUTE_SLIPPAGE_BPS must be <= 10000 (100%), got: " ++ toString bps
  | badSlippage value =>
    "Invalid ROUTE_SLIPPAGE_BPS value: " ++ value ++ ". Must be a valid integer"
  | badChain value =>
    "Invalid ROUTE_CHAIN value: " ++ value
      ++ ". Must be one of: ethereum, base, unichain, arbitrum, polygon"

def Failure.message : Failure → String
  | encoding error => "Encoding error: " ++ error.message
  | route error => "Route compilation failed: " ++ error.message
  | registry error => "Registry error: " ++ error.message
  | input error => error.framed
  | config error => "Configuration error: " ++ error.message
  | json => "Serialization error: the text is not the JSON of a route"

end SwapCalldata
