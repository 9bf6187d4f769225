import SwapCalldata.Proofs.Positions

/-!
Agreement of pools. It is symmetric and transitive, and it is reflexive exactly where the fee is a
number. Pools that agree cannot be told apart by the positions of their tokens, their family or
their destination chain.
-/
namespace SwapCalldata

namespace Double

theorem eq_true_iff {x y : Double} :
    x.eq y = true ↔ x.isNaN = false ∧ y.isNaN = false ∧ x.rank = y.rank := by
  simp [eq, and_assoc]

theorem eq_trans {x y z : Double} (hxy : x.eq y = true) (hyz : y.eq z = true) :
    x.eq z = true := by
  obtain ⟨hx, _, hr⟩ := eq_true_iff.mp hxy
  obtain ⟨_, hz, hs⟩ := eq_true_iff.mp hyz
  exact eq_true_iff.mpr ⟨hx, hz, hr.trans hs⟩

end Double

namespace PoolKind

theorem agrees_comm (a b : PoolKind) : a.agrees b = b.agrees a := by
  cases a <;> cases b <;> simp [agrees, Double.eq_comm, BEq.comm]

theorem agrees_trans {a b c : PoolKind} (hab : a.agrees b = true) (hbc : b.agrees c = true) :
    a.agrees c = true := by
  cases b <;> cases a <;> simp only [agrees, Bool.false_eq_true] at hab <;>
    cases c <;> simp only [agrees, Bool.false_eq_true] at hbc
  case bridge.bridge.bridge =>
    exact beq_iff_eq.mpr ((beq_iff_eq.mp hab).trans (beq_iff_eq.mp hbc))
  all_goals exact Double.eq_trans hab hbc

theorem family_eq_of_agrees {a b : PoolKind} (h : a.agrees b = true) : a.family = b.family := by
  cases a <;> cases b <;> simp [agrees, family] at h ⊢

theorem agrees_self_iff (kind : PoolKind) :
    kind.agrees kind = true ↔ ∀ fee, kind.fee? = some fee → fee.isNaN = false := by
  cases kind <;> simp [agrees, fee?, Double.eq_self_iff]

theorem eq_bridge_of_agrees {kind : PoolKind} {destination : UInt64}
    (h : kind.agrees (bridge destination) = true) : kind = bridge destination := by
  cases kind <;> simp [agrees] at h ⊢
  exact h

end PoolKind

namespace Pool

/-- The fee, where the pool has one, is a number. -/
def FeeIsNumber (pool : Pool) : Prop := ∀ fee, pool.fee? = some fee → fee.isNaN = false

theorem agrees_iff {a b : Pool} : a.agrees b = true ↔
    a.address = b.address ∧ a.tokenAddresses = b.tokenAddresses ∧
      a.provider = b.provider ∧ a.kind.agrees b.kind = true := by
  simp [agrees, tokenAddresses, and_assoc]

theorem agrees_comm (a b : Pool) : a.agrees b = b.agrees a := by
  rw [Bool.eq_iff_iff, agrees_iff, agrees_iff, PoolKind.agrees_comm a.kind,
    eq_comm (a := a.address), eq_comm (a := a.tokenAddresses), eq_comm (a := a.provider)]

theorem agrees_trans {a b c : Pool} (hab : a.agrees b = true) (hbc : b.agrees c = true) :
    a.agrees c = true := by
  obtain ⟨ha, ht, hp, hk⟩ := agrees_iff.mp hab
  obtain ⟨ha', ht', hp', hk'⟩ := agrees_iff.mp hbc
  exact agrees_iff.mpr
    ⟨ha.trans ha', ht.trans ht', hp.trans hp', PoolKind.agrees_trans hk hk'⟩

theorem agrees_self_iff (pool : Pool) : pool.agrees pool = true ↔ pool.FeeIsNumber := by
  rw [agrees_iff]
  simp only [true_and, PoolKind.agrees_self_iff]
  rfl

/-- Pools that agree are interchangeable in a comparison. -/
theorem agrees_congr_right {a b : Pool} (h : a.agrees b = true) (other : Pool) :
    other.agrees a = other.agrees b := by
  rw [Bool.eq_iff_iff]
  exact ⟨fun ha => agrees_trans ha h, fun hb => agrees_trans hb (agrees_comm a b ▸ h)⟩

theorem family_eq_of_agrees {a b : Pool} (h : a.agrees b = true) : a.family = b.family :=
  PoolKind.family_eq_of_agrees (agrees_iff.mp h).2.2.2

theorem length_tokens_eq_of_agrees {a b : Pool} (h : a.agrees b = true) :
    a.tokens.length = b.tokens.length := by
  simpa only [tokenAddresses, List.length_map] using congrArg List.length (agrees_iff.mp h).2.1

/-- Pools that agree place every token alike, and refuse the same ones in the same words. -/
theorem indices_eq_of_agrees {a b : Pool} (h : a.agrees b = true) : a.indices = b.indices := by
  obtain ⟨ha, ht, _, _⟩ := agrees_iff.mp h
  funext source target
  simp only [indices, indexOf?_eq_findIdx?, ha, ht]

/-- The pools have one address and do not agree. -/
def conflicts (a b : Pool) : Bool := a.address == b.address && !a.agrees b

theorem conflicts_eq_false_iff {a b : Pool} :
    a.conflicts b = false ↔ (a.address = b.address → a.agrees b = true) := by
  simp only [conflicts, Bool.and_eq_false_iff, Bool.not_eq_false', beq_eq_false_iff_ne, ne_eq]
  exact or_iff_not_imp_left.trans (by rw [not_not])

end Pool

end SwapCalldata
