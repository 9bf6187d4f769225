import SwapCalldata.Proofs.Refusal

/-!
The checks of a leg by an encoder against those of the leg itself. An encoder refuses every leg
through a pool that does not agree with its own. To any other leg it answers what the leg answers
about itself, and the current layout is written exactly where the leg has positions.
-/
namespace SwapCalldata

namespace Instruction

/-- The orientation stands behind the tag and the pool's address. -/
theorem getElem?_header (family : PoolFamily) (swap : Swap) :
    (header family swap)[21]? = some (flag swap.zeroForOne) := by
  have hpool := swap.pool.length_bytes
  unfold header
  rw [List.cons_append, List.getElem?_cons_succ, List.getElem?_append_right (by omega), hpool]
  rfl

end Instruction

namespace Leg

variable {leg : Leg} {error : RouteError}

/-- A leg without positions names one of its tokens. -/
theorem exists_token_of_indices_eq_error (h : leg.indices = .error error) :
    ∃ token, error = .legPoolMismatch leg.pool.address token := by
  have hmismatch := Pool.indices_eq_error_iff.mp h
  unfold Pool.mismatch? at hmismatch
  split at hmismatch
  · exact ⟨_, (Option.some.inj hmismatch).symm⟩
  · split at hmismatch
    · exact ⟨_, (Option.some.inj hmismatch).symm⟩
    · cases hmismatch

end Leg

namespace PoolEncoder

variable {encoder : PoolEncoder} {leg : Leg}

theorem indices_of_agrees (h : leg.pool.agrees encoder.pool = true) :
    encoder.indices leg = leg.indices := by
  have hplaces : leg.indicesIn encoder.pool = leg.indices := by
    unfold Leg.indices Leg.indicesIn
    rw [Pool.indices_eq_of_agrees h]
  rw [← hplaces]
  exact if_pos h

theorem indices_of_foreign (h : leg.pool.agrees encoder.pool = false) :
    encoder.indices leg = .error (.foreignLegPool encoder.pool.address leg.pool.address) :=
  if_neg (Bool.eq_false_iff.mp h)

theorem encode_v2 (encoder : PoolEncoder) (leg : Leg) (recipient : Address) :
    encoder.encode .v2 leg recipient = (encoder.indices leg).map fun pair =>
      some (encoder.instructionAt pair.1 pair.2 recipient).bytes := by
  unfold encode instruction?
  cases encoder.indices leg <;> rfl

theorem encode_v1_constantProduct (h : encoder.layout = .constantProduct) (leg : Leg)
    (recipient : Address) : encoder.encode .v1 leg recipient =
      (encoder.indices leg).map fun pair =>
        some (Instruction.legacy ⟨encoder.pool.address, pair.1 == 0, recipient⟩
          leg.tokenFrom.address).bytes := by
  unfold encode instruction?
  rw [h]
  cases encoder.indices leg <;> rfl

/-- Without a legacy layout a leg is not looked at. -/
theorem encode_v1_of_ne (h : encoder.layout ≠ .constantProduct) (leg : Leg) (recipient : Address) :
    encoder.encode .v1 leg recipient = .ok none := by
  unfold encode instruction?
  cases hlayout : encoder.layout with
  | constantProduct => exact absurd hlayout h
  | concentratedLiquidity => rfl
  | stable => rfl
  | bridge destination => rfl

theorem getElem?_instructionAt (encoder : PoolEncoder) (source target : Nat)
    (recipient : Address) : (encoder.instructionAt source target recipient).bytes[21]? =
      some (Instruction.flag (source == 0)) := by
  have hheader (family : PoolFamily) := Instruction.getElem?_header family
    ⟨encoder.pool.address, source == 0, recipient⟩
  have hshort (family : PoolFamily) : 21 < (Instruction.header family
      ⟨encoder.pool.address, source == 0, recipient⟩).length := by
    rw [Instruction.length_header]
    decide
  unfold instructionAt Instruction.bytes
  cases encoder.layout with
  | constantProduct => exact hheader .constantProduct
  | concentratedLiquidity => exact hheader .concentratedLiquidity
  | stable => exact (List.getElem?_append_left (hshort .stable)).trans (hheader .stable)
  | bridge destination =>
    exact (List.getElem?_append_left (hshort .bridge)).trans (hheader .bridge)

/-- The encoder refuses the leg for one reason, whatever it is asked. -/
structure Refuses (encoder : PoolEncoder) (leg : Leg) (recipient : Address)
    (error : RouteError) : Prop where
  indices : encoder.indices leg = .error error
  zeroForOne : encoder.zeroForOne leg = .error error
  current : encoder.encode .v2 leg recipient = .error error

/-- The encoder writes the leg in the current layout, its orientation in byte 21. -/
def Writes (encoder : PoolEncoder) (leg : Leg) (recipient : Address) : Prop :=
  ∃ bytes zeroForOne, encoder.encode .v2 leg recipient = .ok (some bytes) ∧
    leg.zeroForOne = .ok zeroForOne ∧ bytes[21]? = some (Instruction.flag zeroForOne)

theorem refuses_of_indices {error : RouteError} (h : encoder.indices leg = .error error)
    (recipient : Address) : encoder.Refuses leg recipient error := by
  constructor
  case indices => exact h
  case zeroForOne => exact Outcome.map_eq_error_iff.mpr h
  case current =>
    rw [encode_v2]
    exact Outcome.map_eq_error_iff.mpr h

theorem writes_of_indices (h : leg.pool.agrees encoder.pool = true) {pair : Nat × Nat}
    (hindices : leg.indices = .ok pair) (recipient : Address) :
    encoder.Writes leg recipient := by
  refine ⟨_, pair.1 == 0, ?_, Leg.zeroForOne_of_indices hindices,
    encoder.getElem?_instructionAt pair.1 pair.2 recipient⟩
  rw [encode_v2, indices_of_agrees h, hindices]
  rfl

/-- What an encoder of a pool answers to a leg, in terms of what the leg answers about itself. -/
structure Checks (encoder : PoolEncoder) (pool : Pool) (leg : Leg) (recipient : Address) :
    Prop where
  foreign : leg.pool.agrees pool = false →
    encoder.Refuses leg recipient (.foreignLegPool pool.address leg.pool.address)
  indices : leg.pool.agrees pool = true → encoder.indices leg = leg.indices
  zeroForOne : leg.pool.agrees pool = true → encoder.zeroForOne leg = leg.zeroForOne
  current : leg.pool.agrees pool = true →
    (∃ token, leg.indices = .error (.legPoolMismatch pool.address token) ∧
      encoder.encode .v2 leg recipient = .error (.legPoolMismatch pool.address token)) ∨
    encoder.Writes leg recipient
  legacy : pool.family = .constantProduct → ∀ error,
    encoder.encode .v1 leg recipient = .error error ↔
      encoder.encode .v2 leg recipient = .error error
  unsupported : pool.family ≠ .constantProduct → encoder.encode .v1 leg recipient = .ok none

theorem layout_eq_constantProduct_iff (kind : PoolKind) :
    kind.layout = .constantProduct ↔ kind.family = .constantProduct := by
  cases kind <;> simp [PoolKind.layout, PoolKind.family]

/-- Every encoder that is built checks every leg like the leg itself, and refuses the legs through
other pools. -/
theorem checks_of_encoder {descriptor : PoolDescriptor} {family : PoolFamily}
    (h : descriptor.encoder family = .ok encoder) (leg : Leg) (recipient : Address) :
    encoder.Checks descriptor.pool leg recipient := by
  obtain ⟨_, _, hencoder⟩ := PoolDescriptor.encoder_eq_ok_iff.mp h
  have hpool : encoder.pool = descriptor.pool := by
    rw [hencoder]
    rfl
  have hlayout : encoder.layout = .constantProduct ↔ descriptor.pool.family = .constantProduct := by
    rw [hencoder]
    exact layout_eq_constantProduct_iff descriptor.pool.kind
  rw [← hpool] at hlayout ⊢
  constructor
  case foreign =>
    intro hforeign
    exact refuses_of_indices (indices_of_foreign hforeign) recipient
  case indices => exact indices_of_agrees
  case zeroForOne =>
    intro hagrees
    unfold PoolEncoder.zeroForOne Leg.zeroForOne
    rw [indices_of_agrees hagrees]
  case current =>
    intro hagrees
    cases hindices : leg.indices with
    | ok pair => exact Or.inr (writes_of_indices hagrees hindices recipient)
    | error error =>
      obtain ⟨token, rfl⟩ := Leg.exists_token_of_indices_eq_error hindices
      rw [(Pool.agrees_iff.mp hagrees).1] at hindices ⊢
      have hrefuses := refuses_of_indices ((indices_of_agrees hagrees).trans hindices) recipient
      exact Or.inl ⟨token, rfl, hrefuses.current⟩
  case legacy =>
    intro hfamily error
    rw [encode_v1_constantProduct (hlayout.mpr hfamily), encode_v2, Outcome.map_eq_error_iff,
      Outcome.map_eq_error_iff]
  case unsupported =>
    intro hfamily
    exact encode_v1_of_ne (fun h => hfamily (hlayout.mp h)) leg recipient

end PoolEncoder

namespace Sample

/-- A stable pool with the fee -0, in a deployment. -/
def stableDescriptor : PoolDescriptor :=
  ⟨stablePool ⟨0x8000000000000000⟩, address 0xEE, some 1⟩

end Sample

/-- A leg through the pool with the fee 0 is checked like the leg; with the fee 1 it is foreign at
the same address. -/
theorem PoolEncoder.checks_of_encoder_stableDescriptor :
    ∃ encoder, Sample.stableDescriptor.encoder .stable = .ok encoder ∧
      encoder.indices (Sample.leg 0xB0 0xC0 (Sample.stablePool Double.zero)) = .ok (1, 2) ∧
      encoder.Refuses (Sample.leg 0xB0 0xC0 (Sample.stablePool Double.one)) (Sample.address 0xAA)
        (.foreignLegPool (Sample.address 0x51) (Sample.address 0x51)) := by
  obtain ⟨encoder, hencoder⟩ : ∃ encoder, Sample.stableDescriptor.encoder .stable = .ok encoder :=
    ⟨_, rfl⟩
  have hown := checks_of_encoder hencoder (Sample.leg 0xB0 0xC0 (Sample.stablePool Double.zero))
    (Sample.address 0xAA)
  have hother := checks_of_encoder hencoder (Sample.leg 0xB0 0xC0 (Sample.stablePool Double.one))
    (Sample.address 0xAA)
  refine ⟨encoder, hencoder, ?_, hother.foreign (by decide)⟩
  rw [hown.indices (by decide)]
  decide

end SwapCalldata
