import SwapCalldata.Proofs.Agreement
import SwapCalldata.Registry

/-!
Resolution of pools. A pool is resolved exactly when its family is registered with its own encoder
and the pool has the family's shape, and pools that agree are resolved alike.
-/
namespace SwapCalldata

theorem PoolFamily.mostTokens_eq (family : PoolFamily) :
    family.mostTokens = if family = .stable then 16 else 2 := by
  cases family <;> rfl

/-- The family has a layout under the revision. -/
def PoolFamily.HasLayout (family : PoolFamily) (revision : Revision) : Prop :=
  revision = .v1 → family = .constantProduct

/-- The layout of the pools of a kind. -/
def PoolKind.layout : PoolKind → Layout
  | constantProduct _ => .constantProduct
  | concentratedLiquidity _ => .concentratedLiquidity
  | stable _ => .stable
  | bridge destination => .bridge destination.toUInt32

theorem PoolKind.layout_eq_of_agrees {a b : PoolKind} (h : a.agrees b = true) :
    a.layout = b.layout := by
  cases a <;> cases b <;> simp [agrees, layout] at h ⊢
  rw [h]

/-- The pool has the shape of its family on a source chain. -/
structure Pool.WellShaped (pool : Pool) (chainId : Option UInt64) : Prop where
  least : 2 ≤ pool.tokens.length
  most : pool.tokens.length ≤ if pool.family = .stable then 16 else 2
  reach : ∀ destination, pool.kind = .bridge destination →
    destination.toNat < 2 ^ 32 ∧ chainId ≠ some destination

theorem Pool.WellShaped.of_agrees {a b : Pool} {chainId : Option UInt64}
    (hshape : a.WellShaped chainId) (h : a.agrees b = true) : b.WellShaped chainId := by
  refine ⟨?_, ?_, fun destination hkind => ?_⟩
  · exact Pool.length_tokens_eq_of_agrees h ▸ hshape.least
  · exact Pool.length_tokens_eq_of_agrees h ▸ Pool.family_eq_of_agrees h ▸ hshape.most
  · have hagree := (Pool.agrees_iff.mp h).2.2.2
    rw [hkind] at hagree
    exact hshape.reach destination (PoolKind.eq_bridge_of_agrees hagree)

theorem Pool.WellShaped.length_tokens_le {pool : Pool} {chainId : Option UInt64}
    (hshape : pool.WellShaped chainId) : pool.tokens.length ≤ 16 := by
  have hmost := hshape.most
  split at hmost
  next => exact hmost
  next => exact hmost.trans (by decide)

/-- A destination that passed the check is not truncated. -/
theorem Pool.WellShaped.toNat_destination {pool : Pool} {chainId : Option UInt64}
    (hshape : pool.WellShaped chainId) {destination : UInt64}
    (hkind : pool.kind = .bridge destination) :
    destination.toUInt32.toNat = destination.toNat := by
  have hfit : destination.toNat < 2 ^ 32 := (hshape.reach destination hkind).1
  rw [UInt64.toNat_toUInt32, Nat.mod_eq_of_lt hfit]

theorem PoolDescriptor.layoutFor_eq_ok_iff {descriptor : PoolDescriptor} {family : PoolFamily}
    {layout : Layout} : descriptor.layoutFor family = .ok layout ↔
      descriptor.pool.family = family ∧ descriptor.pool.WellShaped descriptor.chainId ∧
        layout = descriptor.pool.kind.layout := by
  unfold layoutFor
  by_cases hfamily : descriptor.pool.family = family
  swap
  · simp [hfamily]
  subst hfamily
  by_cases hcount : descriptor.pool.tokens.length < 2 ∨
      descriptor.pool.family.mostTokens < descriptor.pool.tokens.length
  · simp only [ne_eq, not_true, if_false, hcount, if_true, reduceCtorEq, true_and, false_iff]
    rintro ⟨⟨hleast, hmost, _⟩, _⟩
    rw [← PoolFamily.mostTokens_eq] at hmost
    omega
  · have hleast : 2 ≤ descriptor.pool.tokens.length := by omega
    have hmost := PoolFamily.mostTokens_eq descriptor.pool.family ▸
      (show descriptor.pool.tokens.length ≤ descriptor.pool.family.mostTokens by omega)
    have hshape : descriptor.pool.WellShaped descriptor.chainId ↔
        ∀ destination, descriptor.pool.kind = .bridge destination →
          destination.toNat < 2 ^ 32 ∧ descriptor.chainId ≠ some destination :=
      ⟨fun h => h.reach, fun h => ⟨hleast, hmost, h⟩⟩
    simp only [ne_eq, not_true, if_false, hcount, true_and, hshape]
    cases descriptor.pool.kind with
    | constantProduct fee => simp [PoolKind.layout, eq_comm]
    | concentratedLiquidity fee => simp [PoolKind.layout, eq_comm]
    | stable fee => simp [PoolKind.layout, eq_comm]
    | bridge destination =>
      simp only [PoolKind.bridge.injEq, forall_eq', PoolKind.layout]
      split
      · simp_all
      · split <;> simp_all [UInt32.size, eq_comm]

theorem PoolDescriptor.encoder_eq_ok_iff {descriptor : PoolDescriptor} {family : PoolFamily}
    {encoder : PoolEncoder} : descriptor.encoder family = .ok encoder ↔
      descriptor.pool.family = family ∧ descriptor.pool.WellShaped descriptor.chainId ∧
        encoder = ⟨descriptor, descriptor.pool.kind.layout⟩ := by
  unfold PoolDescriptor.encoder
  cases hlayout : descriptor.layoutFor family with
  | error fault =>
    simp only [reduceCtorEq, false_iff]
    rintro ⟨hfamily, hshape, _⟩
    have hok := layoutFor_eq_ok_iff.mpr ⟨hfamily, hshape, rfl⟩
    rw [hlayout] at hok
    cases hok
  | ok layout =>
    obtain ⟨hfamily, hshape, rfl⟩ := layoutFor_eq_ok_iff.mp hlayout
    simp only [Except.ok.injEq, hfamily, hshape, true_and]
    exact eq_comm

namespace Registry

variable {registry : Registry} {pool : Pool} {encoder : PoolEncoder}

/-- The pool's family is registered with its own encoder, and the pool has the family's shape. -/
structure Serves (registry : Registry) (pool : Pool) : Prop where
  own : registry.encoderFor pool.family = some pool.family
  shape : pool.WellShaped registry.chainId

/-- The encoder of a pool that the registry serves. -/
def encoderOf (registry : Registry) (pool : Pool) : PoolEncoder :=
  ⟨registry.describe pool, pool.kind.layout⟩

theorem resolve_eq_ok_iff : registry.resolve pool = .ok encoder ↔
    registry.Serves pool ∧ encoder = registry.encoderOf pool := by
  unfold resolve
  cases hregistered : registry.encoderFor pool.family with
  | none =>
    simp only [reduceCtorEq, false_iff]
    rintro ⟨hserves, _⟩
    rw [hserves.own] at hregistered
    cases hregistered
  | some family =>
    show (registry.describe pool).encoder family = .ok encoder ↔ _
    rw [PoolDescriptor.encoder_eq_ok_iff]
    constructor
    · rintro ⟨rfl, hshape, rfl⟩
      exact ⟨⟨hregistered, hshape⟩, rfl⟩
    · rintro ⟨hserves, rfl⟩
      rw [hserves.own] at hregistered
      exact ⟨Option.some.inj hregistered, hserves.shape, rfl⟩

theorem Serves.of_agrees {a b : Pool} (hserves : registry.Serves a) (h : a.agrees b = true) :
    registry.Serves b :=
  ⟨Pool.family_eq_of_agrees h ▸ hserves.own, hserves.shape.of_agrees h⟩

end Registry

end SwapCalldata
