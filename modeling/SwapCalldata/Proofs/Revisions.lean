import SwapCalldata.Proofs.Acceptance

/-!
The legacy revision against the current one. It is the current revision on the routes whose pools
are all constant-product: it accepts just these, and each of its instructions is the current one
with another first byte and the source token in the middle.
-/
namespace SwapCalldata

theorem Registry.accepts_v1_iff {registry : Registry} {leg : Leg} :
    registry.Accepts .v1 leg ↔
      registry.Accepts .v2 leg ∧ leg.pool.family = .constantProduct := by
  constructor
  · intro h
    exact ⟨{ h with layout := fun hv1 => nomatch hv1 }, h.layout rfl⟩
  · rintro ⟨h, hfamily⟩
    exact { h with layout := fun _ => hfamily }

theorem PoolKind.exists_of_family_eq_constantProduct {kind : PoolKind}
    (h : kind.family = .constantProduct) : ∃ fee, kind = .constantProduct fee := by
  cases kind with
  | constantProduct fee => exact ⟨fee, rfl⟩
  | concentratedLiquidity fee => cases h
  | stable fee => cases h
  | bridge destination => cases h

/-- A current instruction is the legacy one with another first byte and without the source token. -/
structure Abridges (legacy current : List UInt8) (source : Address) : Prop where
  legacyLength : legacy.length = 62
  currentLength : current.length = 42
  kept : current = 0 :: legacy.extract 1 21 ++ legacy.extract 41 62
  left : legacy.extract 21 41 = source.bytes

theorem Bytes.extract_eq (before part after : List UInt8) {bytes : List UInt8} {start stop : Nat}
    (h : bytes = before ++ part ++ after) (hstart : start = before.length)
    (hstop : stop = before.length + part.length) : bytes.extract start stop = part := by
  subst h hstart hstop
  simp [List.extract]

theorem Instruction.abridges_legacy (swap : Swap) (source : Address) :
    Abridges (legacy swap source).bytes (constantProduct swap).bytes source := by
  have hpool := swap.pool.length_bytes
  have hsource := source.length_bytes
  have hrecipient := swap.recipient.length_bytes
  let tail := flag swap.zeroForOne :: swap.recipient.bytes
  have hpoolPart : (legacy swap source).bytes.extract 1 21 = swap.pool.bytes :=
    Bytes.extract_eq [legacyCommand] swap.pool.bytes (source.bytes ++ tail)
      (by simp [bytes, tail]) rfl (by simp [hpool])
  have hsourcePart : (legacy swap source).bytes.extract 21 41 = source.bytes :=
    Bytes.extract_eq (legacyCommand :: swap.pool.bytes) source.bytes tail
      (by simp [bytes, tail]) (by simp [hpool]) (by simp [hpool, hsource])
  have htailPart : (legacy swap source).bytes.extract 41 62 = tail :=
    Bytes.extract_eq (legacyCommand :: swap.pool.bytes ++ source.bytes) tail []
      (by simp [bytes, tail]) (by simp [hpool, hsource])
      (by simp [hpool, hsource, hrecipient, tail])
  constructor
  case legacyLength => exact length_bytes _
  case currentLength => exact length_bytes _
  case kept =>
    rw [hpoolPart, htailPart]
    rfl
  case left => exact hsourcePart

theorem Registry.abridges_of_instruct {registry : Registry} {leg : Leg} {receiver : Address}
    {legacy current : Instruction} (h : registry.instruct .v1 leg receiver = .ok legacy)
    (h' : registry.instruct .v2 leg receiver = .ok current) :
    Abridges legacy.bytes current.bytes leg.tokenFrom.address := by
  obtain ⟨_, _, hlayout, i, j, hindices, rfl⟩ := instruct_eq_ok_iff.mp h
  obtain ⟨_, _, _, i', j', hindices', rfl⟩ := instruct_eq_ok_iff.mp h'
  rw [hindices] at hindices'
  obtain ⟨rfl, rfl⟩ := Prod.mk.inj (Except.ok.inj hindices')
  obtain ⟨fee, hkind⟩ := PoolKind.exists_of_family_eq_constantProduct (hlayout rfl)
  unfold Leg.instructionAt
  rw [hkind]
  exact Instruction.abridges_legacy _ _

/-- The results of both revisions say the same, and the current one leaves out the source tokens. -/
structure CompiledRoute.Restates (current legacy : CompiledRoute) (legs : List Leg) : Prop where
  entryPoint : current.entryPoint = legacy.entryPoint
  tokens : current.tokenIn = legacy.tokenIn ∧ current.tokenOut = legacy.tokenOut
  amounts : current.amountIn = legacy.amountIn ∧ current.amountOutMin = legacy.amountOutMin
  count : current.legs.length = legs.length ∧ legacy.legs.length = legs.length
  leg : ∀ (k : Nat) (leg : Leg), legs[k]? = some leg →
    ∃ (entry entry' : EncodedLeg) (b d : List UInt8),
      legacy.legs[k]? = some entry ∧ current.legs[k]? = some entry' ∧
      entry'.index = entry.index ∧ entry'.family = entry.family ∧ entry'.pool = entry.pool ∧
      entry'.recipient = entry.recipient ∧ entry'.share = entry.share ∧
      legacy.legBytes? k = some b ∧ current.legBytes? k = some d ∧
      Abridges b d leg.tokenFrom.address

namespace Compiler

variable {compiler : Compiler} {route : Route} {recipient : Address}
  {instructions instructions' : List Instruction}

theorem exists_compile_v1_iff : (∃ legacy, compiler.compile route .v1 recipient = .ok legacy) ↔
    (∃ current, compiler.compile route .v2 recipient = .ok current) ∧
      ∀ leg ∈ route.legs, leg.pool.family = .constantProduct := by
  simp only [exists_compile_iff_pairwise, Registry.accepts_v1_iff]
  constructor
  · rintro ⟨hviable, hlegs, haccepts, hfree⟩
    exact ⟨⟨hviable, hlegs, fun leg hmem => (haccepts leg hmem).1, hfree⟩,
      fun leg hmem => (haccepts leg hmem).2⟩
  · rintro ⟨⟨hviable, hlegs, haccepts, hfree⟩, hfamily⟩
    exact ⟨hviable, hlegs, fun leg hmem => ⟨haccepts leg hmem, hfamily leg hmem⟩, hfree⟩

theorem restates_of_instructs (h : compiler.Instructs route .v1 recipient instructions)
    (h' : compiler.Instructs route .v2 recipient instructions') :
    (compiler.assemble route .v2 instructions').Restates
      (compiler.assemble route .v1 instructions) route.legs := by
  constructor
  case entryPoint => rfl
  case tokens => exact ⟨rfl, rfl⟩
  case amounts => exact ⟨rfl, rfl⟩
  case count => exact ⟨length_legs_assemble h'.length, length_legs_assemble h.length⟩
  case leg =>
    intro k leg hleg
    obtain ⟨instruction, hinstruction, hinstruct⟩ := h.leg k leg hleg
    obtain ⟨instruction', hinstruction', hinstruct'⟩ := h'.leg k leg hleg
    have hrecipient := Registry.recipient_of_instruct hinstruct
    have hrecipient' := Registry.recipient_of_instruct hinstruct'
    refine ⟨_, _, instruction.bytes, instruction'.bytes, getElem?_legs_assemble hleg hinstruction,
      getElem?_legs_assemble hleg hinstruction', rfl, rfl, rfl, ?_, rfl, ?_, ?_, ?_⟩
    · exact hrecipient'.trans hrecipient.symm
    · exact h.legBytes?_eq hinstruction
    · exact h'.legBytes?_eq hinstruction'
    · exact Registry.abridges_of_instruct hinstruct hinstruct'

/-- The legacy revision accepts the routes that the current one accepts and whose pools are all
constant-product, and says the same of them. -/
theorem compile_v1_restricts_v2 (compiler : Compiler) (route : Route) (recipient : Address) :
    ((∃ legacy, compiler.compile route .v1 recipient = .ok legacy) ↔
      (∃ current, compiler.compile route .v2 recipient = .ok current) ∧
        ∀ leg ∈ route.legs, leg.pool.family = .constantProduct) ∧
    ∀ legacy, compiler.compile route .v1 recipient = .ok legacy →
      ∃ current, compiler.compile route .v2 recipient = .ok current ∧
        current.Restates legacy route.legs := by
  refine ⟨exists_compile_v1_iff, fun legacy h => ?_⟩
  obtain ⟨⟨current, h'⟩, _⟩ := exists_compile_v1_iff.mp ⟨legacy, h⟩
  refine ⟨current, h', ?_⟩
  obtain ⟨_, rfl, hinstructs⟩ := exists_instructions h
  obtain ⟨_, rfl, hinstructs'⟩ := exists_instructions h'
  exact restates_of_instructs hinstructs hinstructs'

end Compiler

namespace Sample

def productPool : Pool :=
  ⟨address 0x53, [token 0xA0, token 0xB0], "sushi", .constantProduct Double.zero⟩

/-- There and back in one constant-product pool. -/
def returnRoute : Route :=
  ⟨.success, [leg 0xA0 0xB0 productPool, leg 0xB0 0xA0 productPool],
    token 0xA0, token 0xA0, 1000, 900⟩

def legacyCompiled : CompiledRoute where
  payload :=
    10 :: (address 0x53).bytes ++ (address 0xA0).bytes ++ 1 :: (address 0xEE).bytes
      ++ 10 :: (address 0x53).bytes ++ (address 0xB0).bytes ++ 0 :: (address 0xAA).bytes
  entryPoint := address 0xEE
  revision := .v1
  tokenIn := address 0xA0
  tokenOut := address 0xA0
  amountIn := 1000
  amountOutMin := 896
  legs := [⟨0, .constantProduct, address 0x53, address 0xEE, 0, 62, 65535⟩,
    ⟨1, .constantProduct, address 0x53, address 0xAA, 62, 62, 65535⟩]

theorem compile_returnRoute :
    compiler.compile returnRoute .v1 (address 0xAA) = .ok legacyCompiled := by
  decide +kernel

end Sample

theorem Compiler.compile_v1_restricts_v2_returnRoute :
    Sample.compiler.compile Sample.returnRoute .v1 (Sample.address 0xAA) =
        .ok Sample.legacyCompiled ∧
      ∃ current,
        Sample.compiler.compile Sample.returnRoute .v2 (Sample.address 0xAA) = .ok current ∧
        current.Restates Sample.legacyCompiled Sample.returnRoute.legs := by
  obtain ⟨_, hrestates⟩ :=
    compile_v1_restricts_v2 Sample.compiler Sample.returnRoute (Sample.address 0xAA)
  exact ⟨Sample.compile_returnRoute, hrestates _ Sample.compile_returnRoute⟩

end SwapCalldata
