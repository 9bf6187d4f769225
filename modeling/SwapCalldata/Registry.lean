import SwapCalldata.Encoder

/-!
The registry of encoders: what builds the encoders for the pools of each family, for one entry
point and at most one source chain. Unless said otherwise that is the encoder of a family, the
pool's own or another. A registered family is never registered again.
-/
namespace SwapCalldata

structure Registry (κ : Type := PoolFamily) where
  entryPoint : Address
  chainId : Option UInt64
  encoderFor : PoolFamily → Option κ

namespace Registry

variable {κ : Type}

/-- No family is registered. -/
def empty (entryPoint : Address) : Registry κ := ⟨entryPoint, none, fun _ => none⟩

/-- Every family is registered with its own encoder. -/
def standard (entryPoint : Address) : Registry := ⟨entryPoint, none, some⟩

def withChain (registry : Registry κ) (chainId : UInt64) : Registry κ :=
  { registry with chainId := some chainId }

def isRegistered (registry : Registry κ) (family : PoolFamily) : Bool :=
  (registry.encoderFor family).isSome

/-- The registered families, in the order of the tags. -/
def families (registry : Registry κ) : List PoolFamily :=
  PoolFamily.all.filter registry.isRegistered

/-- Lets an encoder serve the pools of a family. -/
def register (registry : Registry κ) (family : PoolFamily) (encoder : κ) :
    Except RegistryError (Registry κ) :=
  if registry.isRegistered family then .error (.duplicateFamily family)
  else .ok { registry with
    encoderFor := fun other => if other = family then some encoder else registry.encoderFor other }

/-- A pool with the registry's deployment. -/
def describe (registry : Registry κ) (pool : Pool) : PoolDescriptor :=
  ⟨pool, registry.entryPoint, registry.chainId⟩

/-- Builds the encoder for a pool. -/
def resolve {ε : Type} [Constructor κ ε] (registry : Registry κ) (pool : Pool) :
    Except RegistryError ε :=
  match registry.encoderFor pool.family with
  | some encoder => Constructor.construct (registry.describe pool) encoder
  | none => .error (.unknownFamily pool.family pool.address)

/-- The registry in one line, its entry point in lowercase and its families by their type names. -/
def inspect (registry : Registry) : String :=
  let typeName : PoolFamily → String
    | .constantProduct => "ConstantProduct"
    | .concentratedLiquidity => "ConcentratedLiquidity"
    | .stable => "Stable"
    | .bridge => "Bridge"
  let chain := match registry.chainId with
    | some id => "Some(" ++ toString id ++ ")"
    | none => "None"
  "PoolEncoderRegistry \x7b entry_point: " ++ registry.entryPoint.text ++ ", chain_id: " ++ chain
    ++ ", families: [" ++ ", ".intercalate (registry.families.map typeName) ++ "] \x7d"

end Registry

/-- A registry in the making: families are added in order and checked when it is built. -/
structure RegistryDraft (κ : Type := PoolFamily) where
  entryPoint : Address
  chainId : Option UInt64 := none
  families : List (PoolFamily × κ) := []

namespace RegistryDraft

variable {κ : Type}

def withChain (draft : RegistryDraft κ) (chainId : UInt64) : RegistryDraft κ :=
  { draft with chainId := some chainId }

/-- Adds a family, to be served by an encoder. -/
def family (draft : RegistryDraft κ) (family : PoolFamily) (encoder : κ) : RegistryDraft κ :=
  { draft with families := draft.families ++ [(family, encoder)] }

/-- The registry, unless a family was added twice. -/
def build (draft : RegistryDraft κ) : Except Failure (Registry κ) :=
  let start : Registry κ := { Registry.empty draft.entryPoint with chainId := draft.chainId }
  draft.families.foldlM
    (fun registry entry => (registry.register entry.1 entry.2).mapError Failure.registry) start

end RegistryDraft

/-- The encoders resolved so far in one compilation, by pool address. -/
structure EncoderCache (ε : Type := PoolEncoder) where
  encoders : List (Address × ε)

namespace EncoderCache

variable {κ ε : Type}

def empty : EncoderCache ε := ⟨[]⟩

def size (cache : EncoderCache ε) : Nat := cache.encoders.length

def find? (cache : EncoderCache ε) (address : Address) : Option ε :=
  cache.encoders.lookup address

/-- The encoder for a pool and the cache after it. A pool at a known address must agree with the
one resolved there; at a new address it is resolved by the registry and kept. -/
def resolve [Constructor κ ε] [Encoding ε] (cache : EncoderCache ε) (registry : Registry κ)
    (pool : Pool) : Except RegistryError (ε × EncoderCache ε) :=
  match cache.find? pool.address with
  | some encoder =>
    if (Encoding.pool encoder).agrees pool then .ok (encoder, cache)
    else .error (.conflictingPool pool.address)
  | none =>
    (registry.resolve pool).map fun encoder =>
      (encoder, ⟨(pool.address, encoder) :: cache.encoders⟩)

end EncoderCache

end SwapCalldata
