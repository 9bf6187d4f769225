import Mathlib.Algebra.Order.Floor.Div
import SwapCalldata.Proofs.Refusal
import SwapCalldata.Proofs.WireMeaning

/-!
Slippage. The least output of a route is the least amount of at least 1 that makes up for what the
slippage leaves of the output, so the deduction is never rounded against the user. A compiler has a
slippage in range, whatever was asked of it, and no compilation fails for its slippage.
-/
namespace SwapCalldata

namespace Slippage

variable {amount amount' bps bps' bound : Nat}

/-- What a slippage in basis points leaves of an amount, rounded up, and at least 1. -/
def leastOf (amount bps : Nat) : Nat := max 1 (amount * (10000 - bps) ⌈/⌉ 10000)

/-- The least positive amount that is worth as much as what is left. -/
theorem leastOf_le_iff :
    leastOf amount bps ≤ bound ↔ 1 ≤ bound ∧ amount * (10000 - bps) ≤ 10000 * bound := by
  rw [leastOf, max_le_iff, ceilDiv_le_iff_le_mul (by decide)]

theorem one_le_leastOf (amount bps : Nat) : 1 ≤ leastOf amount bps :=
  (leastOf_le_iff.mp le_rfl).1

theorem mul_le_leastOf (amount bps : Nat) :
    amount * (10000 - bps) ≤ 10000 * leastOf amount bps :=
  (leastOf_le_iff.mp le_rfl).2

theorem leastOf_le_amount (h : 1 ≤ amount) (bps : Nat) : leastOf amount bps ≤ amount := by
  have hpart : amount * (10000 - bps) ≤ amount * 10000 :=
    Nat.mul_le_mul_left amount (Nat.sub_le 10000 bps)
  exact leastOf_le_iff.mpr ⟨h, hpart.trans_eq (Nat.mul_comm amount 10000)⟩

theorem leastOf_le_of_amount_le (h : amount ≤ amount') (bps : Nat) :
    leastOf amount bps ≤ leastOf amount' bps :=
  leastOf_le_iff.mpr ⟨one_le_leastOf amount' bps,
    (Nat.mul_le_mul_right _ h).trans (mul_le_leastOf amount' bps)⟩

theorem leastOf_le_of_bps_le (amount : Nat) (h : bps ≤ bps') :
    leastOf amount bps' ≤ leastOf amount bps :=
  leastOf_le_iff.mpr ⟨one_le_leastOf amount bps,
    (Nat.mul_le_mul_left amount (Nat.sub_le_sub_left h 10000)).trans (mul_le_leastOf amount bps)⟩

theorem deduction_le (amount : Nat) (h : bps ≤ 10000) : amount * bps / 10000 ≤ amount :=
  Nat.div_le_of_le_mul ((Nat.mul_le_mul_left amount h).trans_eq (Nat.mul_comm amount 10000))

/-- What is left rounded up is what remains after the deduction rounded down. -/
theorem ceilDiv_eq_sub_deduction (amount : Nat) (h : bps ≤ 10000) :
    amount * (10000 - bps) ⌈/⌉ 10000 = amount - amount * bps / 10000 := by
  have hparts : amount * (10000 - bps) + amount * bps = amount * 10000 := by
    rw [← Nat.mul_add, Nat.sub_add_cancel h]
  rw [Nat.ceilDiv_eq_add_pred_div]
  generalize amount * (10000 - bps) = left at hparts ⊢
  generalize amount * bps = taken at hparts ⊢
  omega

/-- The deduction takes all or leaves what is left rounded up. -/
theorem leastOf_eq_ite (amount : Nat) (h : bps ≤ 10000) : leastOf amount bps =
    if amount * bps / 10000 < amount then amount - amount * bps / 10000 else 1 := by
  rw [leastOf, ceilDiv_eq_sub_deduction amount h]
  split
  next hsome => exact max_eq_right (Nat.sub_pos_of_lt hsome)
  next hall => rw [Nat.sub_eq_zero_of_le (Nat.not_lt.mp hall), Nat.max_zero]

end Slippage

namespace Route

variable {route : Route} {bps : UInt64} {least : Nat}

theorem leastOutput_eq (route : Route) (h : bps ≤ 10000) :
    route.leastOutput bps = Slippage.leastOf route.amountOut bps.toNat :=
  (Slippage.leastOf_eq_ite route.amountOut (UInt64.le_iff_toNat_le.mp h)).symm

theorem minAmountOut_eq_ok_iff : route.minAmountOut bps = .ok least ↔
    bps ≤ 10000 ∧ least = Slippage.leastOf route.amountOut bps.toNat := by
  by_cases h : bps ≤ 10000
  · rw [minAmountOut_eq_ok route h, leastOutput_eq route h, Except.ok.injEq, eq_comm,
      and_iff_right h]
  · have hrefused : route.minAmountOut bps = .error (.invalidSlippage bps) :=
      if_pos (UInt64.not_le.mp h)
    simp [hrefused, h]

theorem minAmountOut_eq_error_iff {error : RouteError} :
    route.minAmountOut bps = .error error ↔ 10000 < bps ∧ error = .invalidSlippage bps := by
  unfold minAmountOut
  by_cases h : 10000 < bps
  · rw [if_pos h, Except.error.injEq, eq_comm, and_iff_right h]
  · simp [h]

/-- How the least output of a route depends on its output and on the slippage. -/
structure FollowsSlippage (route : Route) : Prop where
  refused : ∀ bps error, route.minAmountOut bps = .error error ↔
    10000 < bps ∧ error = .invalidSlippage bps
  least : ∀ bps least, route.minAmountOut bps = .ok least ↔
    bps ≤ 10000 ∧ least = max 1 (route.amountOut * (10000 - bps.toNat) ⌈/⌉ 10000)
  /-- The deduction is no larger than the output, and with the least output it makes up all of it
  unless nothing is left. -/
  deducted : ∀ bps least, route.minAmountOut bps = .ok least →
    route.amountOut * bps.toNat / 10000 ≤ route.amountOut ∧
      (least + route.amountOut * bps.toNat / 10000 = route.amountOut ∨
        route.amountOut * bps.toNat / 10000 = route.amountOut ∧ least = 1)
  monotone : ∀ (other : Route) bps least least', route.amountOut ≤ other.amountOut →
    route.minAmountOut bps = .ok least → other.minAmountOut bps = .ok least' → least ≤ least'
  antitone : ∀ bps bps' least least', bps ≤ bps' →
    route.minAmountOut bps = .ok least → route.minAmountOut bps' = .ok least' → least' ≤ least
  positive : ∀ bps least, route.minAmountOut bps = .ok least → 1 ≤ least
  noMore : ∀ bps least, route.minAmountOut bps = .ok least →
    1 ≤ route.amountOut → least ≤ route.amountOut
  favours : ∀ bps least, route.minAmountOut bps = .ok least →
    route.amountOut * (10000 - bps.toNat) ≤ least * 10000

theorem deducted_of_minAmountOut (h : route.minAmountOut bps = .ok least) :
    route.amountOut * bps.toNat / 10000 ≤ route.amountOut ∧
      (least + route.amountOut * bps.toNat / 10000 = route.amountOut ∨
        route.amountOut * bps.toNat / 10000 = route.amountOut ∧ least = 1) := by
  obtain ⟨hbps, rfl⟩ := minAmountOut_eq_ok_iff.mp h
  have hbps := UInt64.le_iff_toNat_le.mp hbps
  have hle := Slippage.deduction_le route.amountOut hbps
  refine ⟨hle, ?_⟩
  rw [Slippage.leastOf_eq_ite route.amountOut hbps]
  split
  next => exact Or.inl (Nat.sub_add_cancel hle)
  next hall => exact Or.inr ⟨Nat.le_antisymm hle (Nat.not_lt.mp hall), rfl⟩

theorem followsSlippage (route : Route) : route.FollowsSlippage := by
  constructor
  case refused => exact fun _ _ => minAmountOut_eq_error_iff
  case least => exact fun _ _ => minAmountOut_eq_ok_iff
  case deducted => exact fun _ _ => deducted_of_minAmountOut
  case monotone =>
    intro other bps least least' hle hleast hleast'
    obtain ⟨_, rfl⟩ := minAmountOut_eq_ok_iff.mp hleast
    obtain ⟨_, rfl⟩ := minAmountOut_eq_ok_iff.mp hleast'
    exact Slippage.leastOf_le_of_amount_le hle bps.toNat
  case antitone =>
    intro bps bps' least least' hle hleast hleast'
    obtain ⟨_, rfl⟩ := minAmountOut_eq_ok_iff.mp hleast
    obtain ⟨_, rfl⟩ := minAmountOut_eq_ok_iff.mp hleast'
    exact Slippage.leastOf_le_of_bps_le route.amountOut (UInt64.le_iff_toNat_le.mp hle)
  case positive =>
    intro bps least hleast
    obtain ⟨_, rfl⟩ := minAmountOut_eq_ok_iff.mp hleast
    exact Slippage.one_le_leastOf route.amountOut bps.toNat
  case noMore =>
    intro bps least hleast hamount
    obtain ⟨_, rfl⟩ := minAmountOut_eq_ok_iff.mp hleast
    exact Slippage.leastOf_le_amount hamount bps.toNat
  case favours =>
    intro bps least hleast
    obtain ⟨_, rfl⟩ := minAmountOut_eq_ok_iff.mp hleast
    rw [Nat.mul_comm _ 10000]
    exact Slippage.mul_le_leastOf route.amountOut bps.toNat

end Route

namespace Compiler

variable {κ ε : Type} {bps : UInt64} {settings : List UInt64} {failure : Failure}

section

variable {compiler next : Compiler κ}

theorem withSlippage_eq_ok_iff : compiler.withSlippage bps = .ok next ↔
    bps ≤ 10000 ∧ next.registry = compiler.registry ∧ next.slippageBps = bps := by
  obtain ⟨registry, slippage, hslippage⟩ := next
  unfold withSlippage
  split
  next h =>
    simp only [Except.ok.injEq, mk.injEq, h, true_and]
    exact and_congr eq_comm eq_comm
  next h => simp [h]

theorem withSlippage_eq_error_iff : compiler.withSlippage bps = .error failure ↔
    10000 < bps ∧ failure = .route (.invalidSlippage bps) := by
  unfold withSlippage
  split
  next h => simp [UInt64.not_lt.mpr h]
  next h => rw [Except.error.injEq, eq_comm, and_iff_right (UInt64.not_le.mp h)]

/-- Sets slippages one after another. The first that is out of range is refused. -/
def withSlippages (compiler : Compiler κ) (settings : List UInt64) :
    Except Failure (Compiler κ) :=
  settings.foldlM withSlippage compiler

theorem withSlippages_eq_ok_iff : compiler.withSlippages settings = .ok next ↔
    (∀ bps ∈ settings, bps ≤ 10000) ∧ next.registry = compiler.registry ∧
      next.slippageBps = settings.getLastD compiler.slippageBps := by
  unfold withSlippages
  induction settings generalizing compiler with
  | nil =>
    obtain ⟨registry, slippage, hslippage⟩ := next
    obtain ⟨registry', slippage', hslippage'⟩ := compiler
    simp [Outcome.pure_eq, eq_comm]
  | cons bps rest ih =>
    rw [List.foldlM_cons, Outcome.bind_eq_ok_iff, List.forall_mem_cons, List.getLastD_cons]
    simp only [withSlippage_eq_ok_iff, ih]
    constructor
    · rintro ⟨middle, ⟨hbps, hregistry, rfl⟩, hrest, hnext, hlast⟩
      exact ⟨⟨hbps, hrest⟩, hnext.trans hregistry, hlast⟩
    · rintro ⟨⟨hbps, hrest⟩, hnext, hlast⟩
      exact ⟨⟨compiler.registry, bps, hbps⟩, ⟨hbps, rfl, rfl⟩, hrest, hnext, hlast⟩

theorem withSlippages_eq_error_iff : compiler.withSlippages settings = .error failure ↔
    ∃ bps, settings.find? (10000 < ·) = some bps ∧ failure = .route (.invalidSlippage bps) := by
  unfold withSlippages
  induction settings generalizing compiler with
  | nil => simp [Outcome.pure_eq]
  | cons bps rest ih =>
    rw [List.foldlM_cons, Outcome.bind_eq_error_iff, withSlippage_eq_error_iff, List.find?_cons]
    simp only [ih, exists_and_right]
    by_cases h : 10000 < bps
    · have hnone : ¬∃ next, compiler.withSlippage bps = .ok next := by
        rintro ⟨next, hnext⟩
        exact UInt64.not_lt.mpr (withSlippage_eq_ok_iff.mp hnext).1 h
      simp [h, hnone]
    · have hle := UInt64.not_lt.mp h
      have hsome : ∃ next, compiler.withSlippage bps = .ok next :=
        ⟨⟨compiler.registry, bps, hle⟩, withSlippage_eq_ok_iff.mpr ⟨hle, rfl, rfl⟩⟩
      simp [h, hsome]

end

section

variable [Constructor κ ε] [Encoding ε] {compiler : Compiler κ} {registry : Registry κ}
  {route : Route} {revision : Revision} {recipient : Address} {compiled : CompiledRoute}

theorem refuses_iff : compiler.compile route revision recipient = .error failure ↔
    route.isViable = false ∧ failure = .route .noViableRoute ∨
    route.isViable = true ∧ route.legs = [] ∧ failure = .route .emptyRoute ∨
    route.isViable = true ∧ route.legs ≠ [] ∧
      encodeLegs compiler.registry route revision recipient Progress.start route.legs =
        .error failure := by
  unfold compile
  rw [route.minAmountOut_eq_ok compiler.slippage_le]
  cases route.isViable with
  | false => simp [eq_comm]
  | true =>
    by_cases hlegs : route.legs = []
    · simp [hlegs, eq_comm]
    · simp [hlegs, Outcome.bind_eq_error_iff, Except.mapError, Outcome.ok_bind, Outcome.pure_eq]

theorem minAmountOut_of_compile (h : compiler.compile route revision recipient = .ok compiled) :
    route.minAmountOut compiler.slippageBps = .ok compiled.amountOutMin := by
  unfold compile at h
  split at h
  · cases h
  split at h
  · cases h
  obtain ⟨done, _, h⟩ := Outcome.bind_eq_ok_iff.mp h
  obtain ⟨least, hleast, h⟩ := Outcome.bind_eq_ok_iff.mp h
  obtain rfl := Except.ok.inj h
  exact Outcome.mapError_eq_ok_iff.mp hleast

/-- A slippage that is refused while legs are encoded is refused by an encoder. -/
theorem exists_encode_of_encodeLegs {legs : List Leg} {progress : Progress ε}
    (h : encodeLegs registry route revision recipient progress legs =
      .error (.route (.invalidSlippage bps))) :
    ∃ (encoder : ε), ∃ leg ∈ legs, ∃ receiver,
      Encoding.encode encoder revision leg route receiver =
        .error (.route (.invalidSlippage bps)) := by
  induction legs generalizing progress with
  | nil => cases h
  | cons leg rest ih =>
    rcases Outcome.bind_eq_error_iff.mp h with hleg | ⟨_, _, hrest⟩
    · unfold encodeLeg at hleg
      rcases Outcome.bind_eq_error_iff.mp hleg with hresolve | ⟨⟨encoder, cache⟩, _, hleg⟩
      · obtain ⟨_, _, hregistry⟩ := Outcome.mapError_eq_error_iff.mp hresolve
        cases hregistry
      · rcases Outcome.bind_eq_error_iff.mp hleg with hencode | ⟨bytes?, _, hleg⟩
        · exact ⟨encoder, leg, List.mem_cons_self, _, hencode⟩
        · cases bytes? <;> cases hleg
    · obtain ⟨encoder, later, hlater, receiver, hencode⟩ := ih hrest
      exact ⟨encoder, later, List.mem_cons_of_mem leg hlater, receiver, hencode⟩

/-- A compiler keeps a slippage in range, and what it compiles has the least output for it. -/
structure KeepsSlippage (compiler : Compiler κ) : Prop where
  inRange : ∀ settings next, compiler.withSlippages settings = .ok next ↔
    (∀ bps ∈ settings, bps ≤ 10000) ∧ next.registry = compiler.registry ∧
      next.slippageBps = settings.getLastD compiler.slippageBps
  outOfRange : ∀ settings failure, compiler.withSlippages settings = .error failure ↔
    ∃ bps, settings.find? (10000 < ·) = some bps ∧ failure = .route (.invalidSlippage bps)
  least : ∀ route revision recipient compiled,
    compiler.compile route revision recipient = .ok compiled →
    compiler.slippageBps ≤ 10000 ∧ compiled.amountOutMin =
      max 1 (route.amountOut * (10000 - compiler.slippageBps.toNat) ⌈/⌉ 10000)
  /-- Once the legs are encoded nothing is refused any more. -/
  refused : ∀ route revision recipient failure,
    compiler.compile route revision recipient = .error failure ↔
      route.isViable = false ∧ failure = .route .noViableRoute ∨
      route.isViable = true ∧ route.legs = [] ∧ failure = .route .emptyRoute ∨
      route.isViable = true ∧ route.legs ≠ [] ∧
        encodeLegs compiler.registry route revision recipient Progress.start route.legs =
          .error failure
  /-- Only a foreign encoder can speak of a slippage that is out of range. -/
  foreign : ∀ route revision recipient bps,
    compiler.compile route revision recipient = .error (.route (.invalidSlippage bps)) →
    ∃ (encoder : ε), ∃ leg ∈ route.legs, ∃ receiver,
      Encoding.encode encoder revision leg route receiver =
        .error (.route (.invalidSlippage bps))
  word : ∀ (wire : WireRoute) route revision recipient compiled, wire.toRoute = .ok route →
    compiler.compile route revision recipient = .ok compiled → compiled.amountOutMin < 2 ^ 256

theorem keepsSlippage (compiler : Compiler κ) : compiler.KeepsSlippage := by
  constructor
  case inRange => exact fun _ _ => withSlippages_eq_ok_iff
  case outOfRange => exact fun _ _ => withSlippages_eq_error_iff
  case least =>
    exact fun _ _ _ _ hcompile => Route.minAmountOut_eq_ok_iff.mp (minAmountOut_of_compile hcompile)
  case refused => exact fun _ _ _ _ => refuses_iff
  case foreign =>
    intro route revision recipient bps hrefused
    rcases refuses_iff.mp hrefused with ⟨_, h⟩ | ⟨_, _, h⟩ | ⟨_, _, hlegs⟩
    · cases h
    · cases h
    · exact exists_encode_of_encodeLegs hlegs
  case word =>
    intro wire route revision recipient compiled hroute hcompile
    have hamount : route.amountOut < 2 ^ 256 := (WireRoute.toRoute_eq_ok_iff.mp hroute).amountOut.2
    obtain ⟨_, hleast⟩ := Route.minAmountOut_eq_ok_iff.mp (minAmountOut_of_compile hcompile)
    rw [hleast]
    rcases Nat.eq_zero_or_pos route.amountOut with hzero | hpositive
    · rw [hzero, Slippage.leastOf, Nat.zero_mul, zero_ceilDiv]
      decide
    · exact (Slippage.leastOf_le_amount hpositive _).trans_lt hamount

end

/-- The encoders of the families never speak of a slippage. -/
theorem compile_ne_invalidSlippage (compiler : Compiler) (route : Route) (revision : Revision)
    (recipient : Address) (bps : UInt64) :
    compiler.compile route revision recipient ≠ .error (.route (.invalidSlippage bps)) := by
  intro hrefused
  rw [compile_eq] at hrefused
  split at hrefused
  · cases hrefused
  split at hrefused
  · cases hrefused
  obtain ⟨_, leg, _, _, hfault⟩ :=
    Registry.instructions_eq_error_iff.mp (Outcome.map_eq_error_iff.mp hrefused)
  exact Failure.isRefusal_of_faultAfter? hfault

theorem ofConfig_eq_ok_iff {config : Config} {compiler : Compiler} :
    ofConfig config = .ok compiler ↔ config.slippageBps ≤ 10000 ∧
      compiler.registry = (Registry.standard config.entryPoint).withChain config.chainId ∧
      compiler.slippageBps = config.slippageBps :=
  withSlippage_eq_ok_iff

/-- The least output of every route follows the slippage, and every compiler, whatever its registry
and however often its slippage was set, compiles with a slippage in range. -/
theorem compile_follows_slippage :
    (∀ route : Route, route.FollowsSlippage) ∧
    (∀ (κ ε : Type) [Constructor κ ε] [Encoding ε] (compiler : Compiler κ),
      compiler.KeepsSlippage) ∧
    (∀ (config : Config) (compiler : Compiler), ofConfig config = .ok compiler ↔
      config.slippageBps ≤ 10000 ∧
        compiler.registry = (Registry.standard config.entryPoint).withChain config.chainId ∧
        compiler.slippageBps = config.slippageBps) ∧
    ∀ (compiler : Compiler) route revision recipient bps,
      compiler.compile route revision recipient ≠ .error (.route (.invalidSlippage bps)) :=
  ⟨Route.followsSlippage, fun _ _ _ _ => keepsSlippage, fun _ _ => ofConfig_eq_ok_iff,
    compile_ne_invalidSlippage⟩

/-- Half a percent of 2000 is deducted, a part of less than 1 is not, and all leaves 1. -/
example : Sample.compiled.amountOutMin = 1990 ∧ Sample.route.minAmountOut 4 = .ok 2000 ∧
    Sample.route.minAmountOut 10000 = .ok 1 := by decide

end Compiler

end SwapCalldata
