import SwapCalldata.Proofs.Compilation

/-!
The payload is cut into the instructions of the legs, with nothing between, before or after them.
Each part is what an encoder resolved for its leg alone writes, and each record tells its place.
-/
namespace SwapCalldata

/-- The payload consists of these parts, one for each leg, each of them written by an encoder that
the registry resolves for the leg's own pool. -/
structure CompiledRoute.Partition (compiled : CompiledRoute) (registry : Registry)
    (revision : Revision) (legs : List Leg) (parts : List (List UInt8)) : Prop where
  payload : compiled.payload = parts.flatten
  count : compiled.legs.length = legs.length ∧ parts.length = legs.length
  part : ∀ k, compiled.legBytes? k = parts[k]?
  entry : ∀ k leg, legs[k]? = some leg → ∃ entry encoder bytes,
    compiled.legs[k]? = some entry ∧ entry.index = k ∧ entry.family = leg.pool.family ∧
      entry.pool = leg.pool.address ∧ entry.share = leg.fraction.share ∧
      registry.resolve leg.pool = .ok encoder ∧
      encoder.encode revision leg entry.recipient = .ok (some bytes) ∧
      compiled.legBytes? k = some bytes
  start : ∀ entry, compiled.legs.head? = some entry → entry.offset = 0
  next : ∀ k entry following, compiled.legs[k]? = some entry →
    compiled.legs[k + 1]? = some following → following.offset = entry.offset + entry.length
  finish : ∀ entry, compiled.legs.getLast? = some entry →
    entry.offset + entry.length = compiled.payload.length

namespace Compiler

variable {compiler : Compiler} {route : Route} {revision : Revision} {recipient : Address}
  {compiled : CompiledRoute}

theorem compile_partition (h : compiler.compile route revision recipient = .ok compiled) :
    ∃ parts, compiled.Partition compiler.registry revision route.legs parts := by
  obtain ⟨instructions, rfl, hlength, hlegs⟩ := exists_instructions h
  refine ⟨instructions.map Instruction.bytes, ?_⟩
  constructor
  case payload => exact List.flatMap_def ..
  case count =>
    exact ⟨length_legs_assemble hlength, (List.length_map _).trans hlength⟩
  case part =>
    intro k
    rw [legBytes?_assemble hlength, List.getElem?_map]
  case entry =>
    intro k leg hleg
    obtain ⟨instruction, hinstruction, hinstruct⟩ := hlegs k leg hleg
    obtain ⟨encoder, hresolve, hencode⟩ := Registry.encode_of_instruct hinstruct
    refine ⟨_, encoder, instruction.bytes, getElem?_legs_assemble hleg hinstruction, rfl, rfl, rfl,
      rfl, hresolve, ?_, ?_⟩
    · exact hencode
    · rw [legBytes?_assemble hlength, hinstruction]
      rfl
  case start =>
    intro entry hentry
    rw [List.head?_eq_getElem?] at hentry
    obtain ⟨_, _, _, _, rfl⟩ := exists_of_getElem?_legs hlength hentry
    rfl
  case next =>
    intro k entry following hentry hfollowing
    obtain ⟨_, _, _, hinstruction, rfl⟩ := exists_of_getElem?_legs hlength hentry
    obtain ⟨_, _, _, _, rfl⟩ := exists_of_getElem?_legs hlength hfollowing
    exact length_payload_take_succ hinstruction
  case finish =>
    intro entry hentry
    rw [List.getLast?_eq_getElem?, length_legs_assemble hlength, ← hlength] at hentry
    obtain ⟨_, _, _, hinstruction, rfl⟩ := exists_of_getElem?_legs hlength hentry
    obtain ⟨hlt, _⟩ := List.getElem?_eq_some_iff.mp hinstruction
    refine (length_payload_take_succ hinstruction).symm.trans ?_
    rw [Nat.sub_add_cancel (by omega), List.take_length]
    rfl

theorem compile_partition_route :
    Sample.compiler.compile Sample.route .v2 (Sample.address 0xAA) = .ok Sample.compiled ∧
      ∃ parts, Sample.compiled.Partition Sample.compiler.registry .v2 Sample.route.legs parts :=
  ⟨Sample.compile_route, compile_partition Sample.compile_route⟩

end Compiler

end SwapCalldata
