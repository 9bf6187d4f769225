import SwapCalldata.Proofs.Compilation

/-!
The published layouts. The bytes of a compiled leg are those of its revision and family, field by
field in terms of the leg and of the recipient its record names, and their lengths add up to the
length of the payload.
-/
namespace SwapCalldata

/-- The published length of the instructions of a family that has a layout under the revision. -/
def PoolFamily.instructionLength (revision : Revision) (family : PoolFamily) : Nat :=
  match revision, family with
  | .v1, _ => 62
  | .v2, .constantProduct => 42
  | .v2, .concentratedLiquidity => 42
  | .v2, .stable => 43
  | .v2, .bridge => 46

namespace Leg

/-- One where the leg sells the first token of its pool, and else zero. -/
def orientation (leg : Leg) : UInt8 :=
  if leg.pool.tokenAddresses.head? = some leg.tokenFrom.address then 1 else 0

/-- The byte names the positions of the leg's tokens in its pool, the source in the high half. -/
structure Selects (leg : Leg) (x : UInt8) : Prop where
  source : leg.pool.FirstAt leg.tokenFrom.address (x.toNat / 16)
  target : leg.pool.FirstAt leg.tokenTo.address (x.toNat % 16)
  different : x.toNat / 16 ≠ x.toNat % 16
  oriented : leg.orientation = 1 ↔ x.toNat / 16 = 0

/-- What the instruction of a leg holds after its header. -/
def Trails (leg : Leg) (trailer : List UInt8) : Prop :=
  match leg.pool.kind with
  | .constantProduct _ => trailer = []
  | .concentratedLiquidity _ => trailer = []
  | .stable _ => ∃ x, trailer = [x] ∧ leg.Selects x
  | .bridge destination => trailer = Bytes.bigEndian 4 destination.toNat ∧
      Bytes.toNat trailer = destination.toNat

/-- The bytes are laid out as published for the leg under the revision. -/
def Published (leg : Leg) (revision : Revision) (receiver : Address) (bytes : List UInt8) : Prop :=
  match revision with
  | .v1 => bytes = 10 :: leg.pool.address.bytes ++ leg.tokenFrom.address.bytes
      ++ leg.orientation :: receiver.bytes
  | .v2 => ∃ trailer, leg.Trails trailer ∧
      bytes = leg.pool.family.tag :: leg.pool.address.bytes
        ++ leg.orientation :: receiver.bytes ++ trailer

variable {leg : Leg} {source target : Nat}

theorem orientation_eq_one_iff : leg.orientation = 1 ↔
    leg.pool.tokenAddresses.head? = some leg.tokenFrom.address := by
  unfold orientation
  split
  next hhead => simp [hhead]
  next hhead => simp [hhead]

theorem flag_eq_orientation (h : leg.pool.FirstAt leg.tokenFrom.address source) :
    Instruction.flag (source == 0) = leg.orientation := by
  unfold Instruction.flag orientation
  simp only [beq_iff_eq, h.eq_zero_iff]

/-- The positions of a pool with at most sixteen tokens fit the halves of a byte. -/
theorem selects_selector (hmost : leg.pool.tokens.length ≤ 16)
    (h : leg.indices = .ok (source, target)) :
    leg.Selects (Instruction.selector source target) := by
  obtain ⟨hsource, htarget, hne⟩ := Pool.indices_eq_ok_iff.mp h
  have hs : source < 16 := Nat.lt_of_lt_of_le hsource.lt_length hmost
  have ht : target < 16 := Nat.lt_of_lt_of_le htarget.lt_length hmost
  have hbyte := Instruction.selector_toNat hs ht
  have hhigh : (Instruction.selector source target).toNat / 16 = source := by omega
  have hlow : (Instruction.selector source target).toNat % 16 = target := by omega
  constructor
  case source => rwa [hhigh]
  case target => rwa [hlow]
  case different =>
    rw [hhigh, hlow]
    intro heq
    exact hne ((hsource.eq_iff htarget).mp heq)
  case oriented => rw [hhigh, orientation_eq_one_iff, hsource.eq_zero_iff]

theorem published_instructionAt {chainId : Option UInt64} {revision : Revision}
    (hshape : leg.pool.WellShaped chainId) (h : leg.indices = .ok (source, target))
    (receiver : Address) :
    leg.Published revision receiver (leg.instructionAt revision receiver source target).bytes := by
  have hflag : Instruction.flag (source == 0) = leg.orientation :=
    flag_eq_orientation (Pool.indices_eq_ok_iff.mp h).1
  cases revision with
  | v1 =>
    unfold Published instructionAt Instruction.bytes
    rw [← hflag]
    rfl
  | v2 =>
    unfold Published Trails instructionAt Pool.family
    rw [← hflag]
    cases hkind : leg.pool.kind with
    | constantProduct fee => exact ⟨[], rfl, (List.append_nil _).symm⟩
    | concentratedLiquidity fee => exact ⟨[], rfl, (List.append_nil _).symm⟩
    | stable fee => exact ⟨_, ⟨_, rfl, selects_selector hshape.length_tokens_le h⟩, rfl⟩
    | bridge destination =>
      have hnarrow := hshape.toNat_destination hkind
      refine ⟨_, ⟨rfl, Bytes.toNat_bigEndian (hshape.reach destination hkind).1⟩, ?_⟩
      show Instruction.header _ _ ++ Bytes.bigEndian 4 destination.toUInt32.toNat = _
      rw [hnarrow]
      rfl

theorem length_bytes_instructionAt (leg : Leg) (revision : Revision) (receiver : Address)
    (source target : Nat) : (leg.instructionAt revision receiver source target).bytes.length =
      leg.pool.family.instructionLength revision := by
  rw [Instruction.length_bytes]
  unfold instructionAt Pool.family
  cases revision with
  | v1 => rfl
  | v2 => cases leg.pool.kind <;> rfl

end Leg

namespace Compiler

variable {compiler : Compiler} {route : Route} {revision : Revision} {recipient : Address}
  {compiled : CompiledRoute}

theorem sum_instructionLength_v1 (legs : List Leg) :
    (legs.map fun leg => leg.pool.family.instructionLength .v1).sum = 62 * legs.length := by
  induction legs with
  | nil => rfl
  | cons leg legs ih =>
    rw [List.map_cons, List.sum_cons, ih, List.length_cons, PoolFamily.instructionLength]
    omega

theorem sum_instructionLength_v2 (legs : List Leg) :
    (legs.map fun leg => leg.pool.family.instructionLength .v2).sum =
      42 * legs.length + legs.countP (fun leg => leg.pool.family = .stable) +
        4 * legs.countP (fun leg => leg.pool.family = .bridge) := by
  induction legs with
  | nil => rfl
  | cons leg legs ih =>
    rw [List.map_cons, List.sum_cons, ih, List.length_cons, List.countP_cons, List.countP_cons]
    cases leg.pool.family <;> simp [PoolFamily.instructionLength] <;> omega

theorem length_payload (h : compiler.compile route revision recipient = .ok compiled) :
    compiled.payload.length =
      (route.legs.map fun leg => leg.pool.family.instructionLength revision).sum := by
  obtain ⟨instructions, rfl, hlength, hlegs⟩ := exists_instructions h
  show (instructions.flatMap Instruction.bytes).length = _
  rw [List.length_flatMap]
  apply congrArg List.sum
  apply List.ext_getElem?
  intro k
  rw [List.getElem?_map, List.getElem?_map]
  cases hleg : route.legs[k]? with
  | none =>
    have hk : instructions.length ≤ k := hlength ▸ List.getElem?_eq_none_iff.mp hleg
    rw [List.getElem?_eq_none hk]
    rfl
  | some leg =>
    obtain ⟨instruction, hinstruction, hinstruct⟩ := hlegs k leg hleg
    obtain ⟨_, _, _, source, target, _, rfl⟩ := Registry.instruct_eq_ok_iff.mp hinstruct
    rw [hinstruction]
    exact congrArg some (leg.length_bytes_instructionAt revision _ source target)

/-- The instruction of each leg has the published layout and length. -/
theorem compile_layout (h : compiler.compile route revision recipient = .ok compiled) :
    (∀ (k : Nat) (leg : Leg), route.legs[k]? = some leg → ∃ entry bytes,
      compiled.legs[k]? = some entry ∧ compiled.legBytes? k = some bytes ∧
      leg.Published revision entry.recipient bytes ∧
      bytes.length = leg.pool.family.instructionLength revision) ∧
    (revision = .v1 → compiled.payload.length = 62 * route.legs.length) ∧
    (revision = .v2 → compiled.payload.length = 42 * route.legs.length +
      route.legs.countP (fun leg => leg.pool.family = .stable) +
      4 * route.legs.countP (fun leg => leg.pool.family = .bridge)) := by
  refine ⟨?_, ?_, ?_⟩
  · intro k leg hleg
    obtain ⟨instructions, rfl, hlength, hlegs⟩ := exists_instructions h
    obtain ⟨instruction, hinstruction, hinstruct⟩ := hlegs k leg hleg
    have hrecipient := Registry.recipient_of_instruct hinstruct
    obtain ⟨hserves, _, _, source, target, hindices, heq⟩ :=
      Registry.instruct_eq_ok_iff.mp hinstruct
    refine ⟨_, instruction.bytes, getElem?_legs_assemble hleg hinstruction, ?_, ?_, ?_⟩
    · rw [legBytes?_assemble hlength, hinstruction]
      rfl
    · show leg.Published revision instruction.swap.recipient instruction.bytes
      rw [hrecipient, heq]
      exact Leg.published_instructionAt hserves.shape hindices _
    · rw [heq]
      exact leg.length_bytes_instructionAt revision _ source target
  · rintro rfl
    rw [length_payload h, sum_instructionLength_v1]
  · rintro rfl
    rw [length_payload h, sum_instructionLength_v2]

theorem compile_layout_route :
    Sample.compiler.compile Sample.route .v2 (Sample.address 0xAA) = .ok Sample.compiled ∧
      (∃ entry bytes, Sample.compiled.legs[2]? = some entry ∧
        Sample.compiled.legBytes? 2 = some bytes ∧
        (Sample.leg 0xC0 0xD0 Sample.bridgePool).Published .v2 entry.recipient bytes ∧
        bytes.length = 46) ∧
      Sample.compiled.payload.length = 42 * 3 + 2 + 4 * 1 := by
  obtain ⟨hlegs, _, hpayload⟩ := compile_layout Sample.compile_route
  exact ⟨Sample.compile_route, hlegs 2 _ rfl, hpayload rfl⟩

end Compiler

end SwapCalldata
