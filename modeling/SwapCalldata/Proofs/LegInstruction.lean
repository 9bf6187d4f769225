import SwapCalldata.Compiler
import SwapCalldata.Proofs.InstructionCode
import SwapCalldata.Proofs.Outcome
import SwapCalldata.Proofs.Resolution

/-!
The instruction of a leg from an encoder that was resolved for the leg's own pool. It exists exactly
when the registry accepts the leg, and then it is read off the leg and the positions of its tokens.
An encoder of any pool that agrees with the leg's gives the same.
-/
namespace SwapCalldata

instance (family : PoolFamily) (revision : Revision) : Decidable (family.HasLayout revision) := by
  unfold PoolFamily.HasLayout
  infer_instance

theorem Leg.zeroForOne_of_indices {leg : Leg} {source target : Nat}
    (h : leg.indices = .ok (source, target)) : leg.zeroForOne = .ok (source == 0) := by
  unfold zeroForOne
  rw [h]
  rfl

/-- The instruction of a leg between two positions of its pool, whose family has a layout. -/
def Leg.instructionAt (leg : Leg) (revision : Revision) (receiver : Address)
    (source target : Nat) : Instruction :=
  let swap : Swap := ⟨leg.pool.address, source == 0, receiver⟩
  match revision, leg.pool.kind with
  | .v1, _ => .legacy swap leg.tokenFrom.address
  | .v2, .constantProduct _ => .constantProduct swap
  | .v2, .concentratedLiquidity _ => .concentratedLiquidity swap
  | .v2, .stable _ => .stable swap (Instruction.selector source target)
  | .v2, .bridge destination => .bridge swap destination.toUInt32

theorem Leg.swap_instructionAt (leg : Leg) (revision : Revision) (receiver : Address)
    (source target : Nat) : (leg.instructionAt revision receiver source target).swap =
      ⟨leg.pool.address, source == 0, receiver⟩ := by
  unfold instructionAt
  cases revision <;> cases leg.pool.kind <;> rfl

theorem Leg.family_instructionAt {leg : Leg} {revision : Revision}
    (h : leg.pool.family.HasLayout revision) (receiver : Address) (source target : Nat) :
    (leg.instructionAt revision receiver source target).family = leg.pool.family := by
  unfold instructionAt
  cases revision with
  | v1 => exact (h rfl).symm
  | v2 =>
    unfold Pool.family
    cases leg.pool.kind <;> rfl

/-- The instruction of a leg from an encoder, which refuses a family without a layout. -/
def PoolEncoder.instruct (encoder : PoolEncoder) (revision : Revision) (leg : Leg)
    (receiver : Address) : Except Failure Instruction := do
  match ← (encoder.instruction? revision leg receiver).mapError Failure.route with
  | some instruction => .ok instruction
  | none => .error (.route (.unsupportedPool encoder.family leg.pool.address revision))

theorem PoolEncoder.recipient_of_instruction? {encoder : PoolEncoder} {revision : Revision}
    {leg : Leg} {receiver : Address} {instruction : Instruction}
    (h : encoder.instruction? revision leg receiver = .ok (some instruction)) :
    instruction.swap.recipient = receiver := by
  unfold PoolEncoder.instruction? at h
  split at h
  · obtain ⟨pair, _, heq⟩ := Outcome.map_eq_ok_iff.mp h
    rw [← Option.some.inj heq]
    rfl
  · cases h
  · obtain ⟨pair, _, heq⟩ := Outcome.map_eq_ok_iff.mp h
    rw [← Option.some.inj heq]
    unfold PoolEncoder.instructionAt
    cases encoder.layout <;> rfl

namespace Registry

/-- The instruction of a leg from an encoder resolved for the leg's own pool. -/
def instruct (registry : Registry) (revision : Revision) (leg : Leg) (receiver : Address) :
    Except Failure Instruction := do
  let encoder ← (registry.resolve leg.pool).mapError Failure.registry
  encoder.instruct revision leg receiver

/-- What a registry asks of a leg on its own, whatever stands before it in the route. -/
structure Accepts (registry : Registry) (revision : Revision) (leg : Leg) : Prop where
  serves : registry.Serves leg.pool
  fee : leg.pool.FeeIsNumber
  source : leg.tokenFrom.address ∈ leg.pool.tokenAddresses
  target : leg.tokenTo.address ∈ leg.pool.tokenAddresses
  different : leg.tokenFrom.address ≠ leg.tokenTo.address
  layout : leg.pool.family.HasLayout revision

variable {registry : Registry} {revision : Revision} {leg : Leg} {receiver : Address}
  {instruction : Instruction}

theorem indices_encoderOf_eq_of_agrees {a b : Pool} (h : a.agrees b = true) :
    (registry.encoderOf a).indices = (registry.encoderOf b).indices := by
  funext leg
  have haddress : a.address = b.address := (Pool.agrees_iff.mp h).1
  have hindices : leg.indicesIn a = leg.indicesIn b := by
    unfold Leg.indicesIn
    rw [Pool.indices_eq_of_agrees h]
  have hpool (pool : Pool) : (registry.encoderOf pool).pool = pool := rfl
  unfold PoolEncoder.indices
  rw [hpool, hpool, Pool.agrees_congr_right h leg.pool, hindices, haddress]

/-- Encoders of pools that agree cannot be told apart by what they encode or refuse. -/
theorem instruction?_encoderOf_eq_of_agrees {a b : Pool} (h : a.agrees b = true) :
    (registry.encoderOf a).instruction? = (registry.encoderOf b).instruction? := by
  funext revision leg receiver
  have hlayout : (registry.encoderOf a).layout = (registry.encoderOf b).layout :=
    PoolKind.layout_eq_of_agrees (Pool.agrees_iff.mp h).2.2.2
  have haddress : (registry.encoderOf a).pool.address = (registry.encoderOf b).pool.address :=
    (Pool.agrees_iff.mp h).1
  unfold PoolEncoder.instruction? PoolEncoder.instructionAt
  simp only [hlayout, haddress, indices_encoderOf_eq_of_agrees h]

/-- An encoder refuses legs through its own pool where the fee is no number. -/
theorem indices_encoderOf_eq_ok_iff {pair : Nat × Nat} :
    (registry.encoderOf leg.pool).indices leg = .ok pair ↔
      leg.pool.FeeIsNumber ∧ leg.indices = .ok pair := by
  rw [← Pool.agrees_self_iff]
  show (if leg.pool.agrees leg.pool then leg.indices else _) = .ok pair ↔ _
  split <;> simp_all

theorem instruct_encoderOf_eq_of_agrees {a b : Pool} (h : a.agrees b = true) :
    (registry.encoderOf a).instruct = (registry.encoderOf b).instruct := by
  funext revision leg receiver
  have hfamily : (registry.encoderOf a).family = (registry.encoderOf b).family :=
    Pool.family_eq_of_agrees h
  unfold PoolEncoder.instruct
  rw [instruction?_encoderOf_eq_of_agrees h, hfamily]

theorem instruction?_encoderOf (registry : Registry) (revision : Revision) (leg : Leg)
    (receiver : Address) :
    (registry.encoderOf leg.pool).instruction? revision leg receiver =
      if leg.pool.family.HasLayout revision then
        ((registry.encoderOf leg.pool).indices leg).map fun pair =>
          some (leg.instructionAt revision receiver pair.1 pair.2)
      else .ok none := by
  unfold PoolEncoder.instruction? PoolEncoder.instructionAt Leg.instructionAt PoolFamily.HasLayout
    Pool.family
  have hlayout : (registry.encoderOf leg.pool).layout = leg.pool.kind.layout := rfl
  rw [hlayout]
  cases revision <;> cases leg.pool.kind <;> simp [PoolKind.layout, PoolKind.family] <;> rfl

theorem instruct_eq_ok_iff : registry.instruct revision leg receiver = .ok instruction ↔
    registry.Serves leg.pool ∧ leg.pool.FeeIsNumber ∧ leg.pool.family.HasLayout revision ∧
      ∃ source target, leg.indices = .ok (source, target) ∧
        instruction = leg.instructionAt revision receiver source target := by
  unfold instruct PoolEncoder.instruct
  simp only [Outcome.bind_eq_ok_iff, Outcome.mapError_eq_ok_iff, resolve_eq_ok_iff]
  constructor
  · rintro ⟨_, ⟨hserves, rfl⟩, found, hfound, hmatch⟩
    rw [instruction?_encoderOf] at hfound
    split at hfound
    next hlayout =>
      obtain ⟨⟨i, j⟩, hpair, rfl⟩ := Outcome.map_eq_ok_iff.mp hfound
      obtain ⟨hfee, hindices⟩ := indices_encoderOf_eq_ok_iff.mp hpair
      exact ⟨hserves, hfee, hlayout, i, j, hindices, (Except.ok.inj hmatch).symm⟩
    next =>
      cases hfound
      cases hmatch
  · rintro ⟨hserves, hfee, hlayout, i, j, hindices, rfl⟩
    refine ⟨_, ⟨hserves, rfl⟩, some _, ?_, rfl⟩
    rw [instruction?_encoderOf, if_pos hlayout]
    exact Outcome.map_eq_ok_iff.mpr
      ⟨(i, j), indices_encoderOf_eq_ok_iff.mpr ⟨hfee, hindices⟩, rfl⟩

theorem recipient_of_instruct
    (h : registry.instruct revision leg receiver = .ok instruction) :
    instruction.swap.recipient = receiver := by
  obtain ⟨_, _, _, _, _, _, rfl⟩ := instruct_eq_ok_iff.mp h
  rw [Leg.swap_instructionAt]

theorem encode_of_instruct (h : registry.instruct revision leg receiver = .ok instruction) :
    ∃ encoder, registry.resolve leg.pool = .ok encoder ∧
      encoder.encode revision leg instruction.swap.recipient = .ok (some instruction.bytes) := by
  rw [recipient_of_instruct h]
  obtain ⟨encoder, hresolve, hencoder⟩ := Outcome.bind_eq_ok_iff.mp h
  obtain ⟨found, hfound, hmatch⟩ := Outcome.bind_eq_ok_iff.mp hencoder
  refine ⟨encoder, Outcome.mapError_eq_ok_iff.mp hresolve, ?_⟩
  unfold PoolEncoder.encode
  rw [Outcome.mapError_eq_ok_iff.mp hfound]
  cases found with
  | none => cases hmatch
  | some found =>
    obtain rfl := Except.ok.inj hmatch
    rfl

theorem exists_instruct_iff : (∃ instruction, registry.instruct revision leg receiver =
    .ok instruction) ↔ registry.Accepts revision leg := by
  simp only [instruct_eq_ok_iff]
  constructor
  · rintro ⟨_, hserves, hfee, hlayout, i, j, hindices, _⟩
    obtain ⟨hsource, htarget, hne⟩ := Pool.exists_indices_iff.mp ⟨(i, j), hindices⟩
    exact ⟨hserves, hfee, hsource, htarget, hne, hlayout⟩
  · rintro ⟨hserves, hfee, hsource, htarget, hne, hlayout⟩
    obtain ⟨⟨i, j⟩, hindices⟩ := Pool.exists_indices_iff.mpr ⟨hsource, htarget, hne⟩
    exact ⟨_, hserves, hfee, hlayout, i, j, hindices, rfl⟩

end Registry

end SwapCalldata
