import SwapCalldata.Double.Shortest
import SwapCalldata.Family

/-!
Tokens and liquidity pools. Tokens are the same asset when their addresses are equal, whatever their
decimals and symbols. Pools agree when everything but decimals and symbols is equal, fees compared
as numbers: a pool whose fee is no number does not agree with itself.
-/
namespace SwapCalldata

structure Token where
  address : Address
  decimals : UInt8
  symbol : Option String
deriving DecidableEq

namespace Token

/-- Whether two tokens are the same asset. -/
def sameAsset (a b : Token) : Bool := a.address == b.address

/-- The symbol with the checksummed address, or the address alone. -/
def label (token : Token) : String :=
  match token.symbol with
  | some symbol => symbol ++ " (" ++ token.address.checksummed ++ ")"
  | none => token.address.checksummed

/-- The different assets among tokens, by address. -/
def assets (tokens : List Token) : List Address := (tokens.map Token.address).eraseDups

end Token

/-- The family of a pool with its parameters. A fee is a fraction of the input amount; a bridge
delivers on its destination chain. -/
inductive PoolKind where
  | constantProduct (fee : Double)
  | concentratedLiquidity (fee : Double)
  | stable (fee : Double)
  | bridge (destination : UInt64)
deriving DecidableEq

namespace PoolKind

def family : PoolKind → PoolFamily
  | constantProduct _ => .constantProduct
  | concentratedLiquidity _ => .concentratedLiquidity
  | stable _ => .stable
  | bridge _ => .bridge

def fee? : PoolKind → Option Double
  | constantProduct fee => some fee
  | concentratedLiquidity fee => some fee
  | stable fee => some fee
  | bridge _ => none

/-- Whether two kinds have the same family and numerically equal parameters. -/
def agrees : PoolKind → PoolKind → Bool
  | constantProduct a, constantProduct b => a.eq b
  | concentratedLiquidity a, concentratedLiquidity b => a.eq b
  | stable a, stable b => a.eq b
  | bridge a, bridge b => a == b
  | _, _ => false

end PoolKind

/-- A liquidity pool, its tokens in the canonical order. -/
structure Pool where
  address : Address
  tokens : List Token
  provider : String
  kind : PoolKind
deriving DecidableEq

namespace Pool

def family (pool : Pool) : PoolFamily := pool.kind.family

def fee? (pool : Pool) : Option Double := pool.kind.fee?

/-- Whether two descriptions of a pool agree. -/
def agrees (a b : Pool) : Bool :=
  a.address == b.address && a.tokens.map Token.address == b.tokens.map Token.address
    && a.provider == b.provider && a.kind.agrees b.kind

/-- The first position of a token with this address. -/
def indexOf? (pool : Pool) (address : Address) : Option Nat :=
  pool.tokens.findIdx? fun token => token.address == address

end Pool

end SwapCalldata
