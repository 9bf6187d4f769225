import SwapCalldata.Proofs.Compilation

/-!
Payloads are read back in one way only, though nothing separates their instructions. Routes that
compile to the same payload agree on everything an instruction says about its leg; a payload that
starts another has the first instructions of the other.
-/
namespace SwapCalldata

/-- The instructions of all legs, as their records find them. -/
def CompiledRoute.parts (compiled : CompiledRoute) : List (Option (List UInt8)) :=
  (List.range compiled.legs.length).map compiled.legBytes?

/-- Two legs agree on what an instruction of the revision says. -/
structure Leg.SaysSame (revision : Revision) (a b : Leg) : Prop where
  family : a.pool.family = b.pool.family
  pool : a.pool.address = b.pool.address
  orientation : ∃ zeroForOne, a.zeroForOne = .ok zeroForOne ∧ b.zeroForOne = .ok zeroForOne
  source : revision = .v1 → a.tokenFrom.address = b.tokenFrom.address
  pair : revision = .v2 → a.pool.family = .stable →
    ∃ pair, a.indices = .ok pair ∧ b.indices = .ok pair
  destination : revision = .v2 → ∀ destination,
    a.pool.kind = .bridge destination → b.pool.kind = .bridge destination

/-- Wherever both routes have a leg, the legs agree and so do their records. -/
def Route.SaysSame (revision : Revision) (a b : Route) (x y : CompiledRoute) : Prop :=
  ∀ (k : Nat) (leg other : Leg), a.legs[k]? = some leg → b.legs[k]? = some other →
    leg.SaysSame revision other ∧ ∃ entry entry',
      x.legs[k]? = some entry ∧ y.legs[k]? = some entry' ∧
      entry.recipient = entry'.recipient ∧ entry.offset = entry'.offset ∧
      entry.length = entry'.length

namespace Leg

variable {a b : Leg} {x y : Address} {i j i' j' : Nat}

theorem indices_lt {chainId : Option UInt64} (hshape : a.pool.WellShaped chainId)
    (h : a.indices = .ok (i, j)) : i < 16 ∧ j < 16 := by
  obtain ⟨hsource, htarget, _⟩ := Pool.indices_eq_ok_iff.mp h
  have hmost := hshape.length_tokens_le
  exact ⟨hsource.lt_length.trans_le hmost, htarget.lt_length.trans_le hmost⟩

theorem instructionAt_v1_ne_v2 : a.instructionAt .v1 x i j ≠ b.instructionAt .v2 y i' j' := by
  unfold instructionAt
  cases b.pool.kind <;> exact fun h => nomatch h

theorem pair_eq_of_instructionAt {c d : Option UInt64} (ha : a.pool.WellShaped c)
    (hb : b.pool.WellShaped d) (hi : a.indices = .ok (i, j)) (hi' : b.indices = .ok (i', j'))
    (hstable : a.pool.family = .stable)
    (h : a.instructionAt .v2 x i j = b.instructionAt .v2 y i' j') : (i, j) = (i', j') := by
  unfold instructionAt at h
  unfold Pool.family at hstable
  cases hkind : a.pool.kind <;> rw [hkind] at h hstable <;> cases hstable
  cases hkind' : b.pool.kind <;> rw [hkind'] at h <;> injection h
  rename_i hselector
  obtain ⟨hs, ht⟩ := indices_lt ha hi
  obtain ⟨hs', ht'⟩ := indices_lt hb hi'
  obtain ⟨rfl, rfl⟩ := Instruction.selector_inj hs ht hs' ht' hselector
  rfl

theorem destination_eq_of_instructionAt {c d : Option UInt64} (ha : a.pool.WellShaped c)
    (hb : b.pool.WellShaped d) {destination : UInt64} (hbridge : a.pool.kind = .bridge destination)
    (h : a.instructionAt .v2 x i j = b.instructionAt .v2 y i' j') :
    b.pool.kind = .bridge destination := by
  unfold instructionAt at h
  rw [hbridge] at h
  cases hkind : b.pool.kind <;> rw [hkind] at h <;> injection h
  rename_i destination' _ hnarrow
  have hread := congrArg UInt32.toNat hnarrow
  rw [ha.toNat_destination hbridge, hb.toNat_destination hkind] at hread
  rw [UInt64.toNat_inj.mp hread]

end Leg

theorem Registry.saysSame_of_instruct {registry registry' : Registry} {revision : Revision}
    {a b : Leg} {x y : Address} {instruction : Instruction}
    (ha : registry.instruct revision a x = .ok instruction)
    (hb : registry'.instruct revision b y = .ok instruction) : a.SaysSame revision b := by
  obtain ⟨hserves, _, hlayout, i, j, hi, rfl⟩ := instruct_eq_ok_iff.mp ha
  obtain ⟨hserves', _, hlayout', i', j', hi', heq⟩ := instruct_eq_ok_iff.mp hb
  have hfamily := congrArg Instruction.family heq
  rw [Leg.family_instructionAt hlayout, Leg.family_instructionAt hlayout'] at hfamily
  have hswap := congrArg Instruction.swap heq
  rw [Leg.swap_instructionAt, Leg.swap_instructionAt, Swap.mk.injEq] at hswap
  obtain ⟨hpool, hflag, _⟩ := hswap
  constructor
  case family => exact hfamily
  case pool => exact hpool
  case orientation =>
    refine ⟨i == 0, Leg.zeroForOne_of_indices hi, ?_⟩
    rw [Leg.zeroForOne_of_indices hi', hflag]
  case source =>
    rintro rfl
    exact (Instruction.legacy.inj heq).2
  case pair =>
    rintro rfl hstable
    have hpair := Leg.pair_eq_of_instructionAt hserves.shape hserves'.shape hi hi' hstable heq
    exact ⟨(i, j), hi, hpair ▸ hi'⟩
  case destination =>
    rintro rfl destination hbridge
    exact Leg.destination_eq_of_instructionAt hserves.shape hserves'.shape hbridge heq

namespace Compiler

variable {compiler compiler' : Compiler} {route route' : Route} {revision revision' : Revision}
  {recipient recipient' : Address} {compiled compiled' : CompiledRoute}

theorem parts_assemble {instructions : List Instruction}
    (hlength : instructions.length = route.legs.length) :
    (compiler.assemble route revision instructions).parts =
      instructions.map fun instruction => some instruction.bytes := by
  apply List.ext_getElem?
  intro k
  unfold CompiledRoute.parts
  rw [length_legs_assemble hlength, ← hlength, List.getElem?_map, List.getElem?_map]
  by_cases hk : k < instructions.length
  · rw [List.getElem?_range hk, Option.map_some, legBytes?_assemble hlength,
      List.getElem?_eq_getElem hk]
    rfl
  · rw [List.getElem?_eq_none (by simpa using hk), List.getElem?_eq_none (by simpa using hk)]
    rfl

/-- Routes whose instructions start the same have the same instructions in the same places. -/
theorem saysSame_of_prefix {instructions instructions' : List Instruction}
    (hown : compiler.Instructs route revision recipient instructions)
    (hother : compiler'.Instructs route' revision recipient' instructions')
    (h : instructions <+: instructions') :
    route.SaysSame revision route' (compiler.assemble route revision instructions)
      (compiler'.assemble route' revision instructions') := by
  intro k leg leg' hleg hleg'
  obtain ⟨instruction, hinstruction, hinstruct⟩ := hown.leg k leg hleg
  obtain ⟨instruction', hinstruction', hinstruct'⟩ := hother.leg k leg' hleg'
  obtain ⟨hk, _⟩ := List.getElem?_eq_some_iff.mp hinstruction
  obtain ⟨rest, rfl⟩ := h
  have heq : instruction' = instruction := by
    rw [List.getElem?_append_left hk, hinstruction] at hinstruction'
    exact (Option.some.inj hinstruction').symm
  have hbefore : (instructions ++ rest).take k = instructions.take k :=
    List.take_append_of_le_length (Nat.le_of_lt hk)
  subst heq
  refine ⟨Registry.saysSame_of_instruct hinstruct hinstruct', _, _,
    getElem?_legs_assemble hleg hinstruction, getElem?_legs_assemble hleg' hinstruction',
    rfl, ?_, rfl⟩
  show ((instructions.take k).flatMap _).length = (((instructions ++ rest).take k).flatMap _).length
  rw [hbefore]

/-- Equal payloads of one revision come from routes that agree leg by leg, no payload is one of both
revisions, and a payload starts another only with the other's first instructions. -/
theorem compile_decodable (h : compiler.compile route revision recipient = .ok compiled)
    (h' : compiler'.compile route' revision' recipient' = .ok compiled') :
    (revision = revision' → compiled.payload = compiled'.payload →
      route.legs.length = route'.legs.length ∧
        route.SaysSame revision route' compiled compiled') ∧
    (revision = .v1 → revision' = .v2 → compiled.payload ≠ compiled'.payload) ∧
    (revision = .v2 → revision' = .v2 → compiled.payload <+: compiled'.payload →
      compiled.parts <+: compiled'.parts ∧ route.SaysSame .v2 route' compiled compiled') := by
  obtain ⟨instructions, rfl, hown⟩ := exists_instructions h
  obtain ⟨instructions', rfl, hother⟩ := exists_instructions h'
  refine ⟨?_, ?_, ?_⟩
  · rintro rfl hpayload
    obtain rfl := Instruction.flatMap_bytes_inj hpayload
    refine ⟨hown.length.symm.trans hother.length, ?_⟩
    exact saysSame_of_prefix hown hother (List.prefix_refl _)
  · rintro rfl rfl hpayload
    obtain rfl := Instruction.flatMap_bytes_inj hpayload
    -- The first instructions of both would be the same, but the layouts differ.
    obtain ⟨leg, _, hcons⟩ := List.exists_cons_of_ne_nil (compile_eq_ok_iff.mp h).2.1
    obtain ⟨leg', _, hcons'⟩ := List.exists_cons_of_ne_nil (compile_eq_ok_iff.mp h').2.1
    obtain ⟨first, hfirst, hinstruct⟩ := hown.leg 0 leg (hcons ▸ rfl)
    obtain ⟨first', hfirst', hinstruct'⟩ := hother.leg 0 leg' (hcons' ▸ rfl)
    obtain rfl := Option.some.inj (hfirst.symm.trans hfirst')
    obtain ⟨_, _, _, _, _, _, heq⟩ := Registry.instruct_eq_ok_iff.mp hinstruct
    obtain ⟨_, _, _, _, _, _, heq'⟩ := Registry.instruct_eq_ok_iff.mp hinstruct'
    exact Leg.instructionAt_v1_ne_v2 (heq.symm.trans heq')
  · rintro rfl rfl hprefix
    have hstart := Instruction.flatMap_bytes_prefix hprefix
    refine ⟨?_, saysSame_of_prefix hown hother hstart⟩
    rw [parts_assemble hown.length, parts_assemble hother.length]
    exact hstart.map _

end Compiler

namespace Sample

def otherStablePool : Pool :=
  ⟨address 0x51, [token 0xA1, token 0xB1, token 0xC1], "saddle", .stable Double.one⟩

/-- Other tokens in the same places of pools at the same addresses, and other amounts. -/
def otherRoute : Route :=
  ⟨.success, [leg 0xA1 0xB1 otherStablePool, leg 0xB1 0xC1 otherStablePool,
    leg 0xC1 0xD1 ⟨address 0x52, [token 0xC1, token 0xD1], "hop", .bridge 8453⟩],
    token 0xA1, token 0xD1, 10, 500⟩

def otherCompiled : CompiledRoute :=
  { compiled with
    tokenIn := address 0xA1
    tokenOut := address 0xD1
    amountIn := 10
    amountOutMin := 498 }

theorem compile_otherRoute :
    compiler.compile otherRoute .v2 (address 0xAA) = .ok otherCompiled := by
  decide +kernel

end Sample

theorem Compiler.compile_decodable_routes :
    Sample.compiler.compile Sample.route .v2 (Sample.address 0xAA) = .ok Sample.compiled ∧
      Sample.compiler.compile Sample.otherRoute .v2 (Sample.address 0xAA) =
        .ok Sample.otherCompiled ∧
      Sample.route.SaysSame .v2 Sample.otherRoute Sample.compiled Sample.otherCompiled := by
  obtain ⟨hsame, _, _⟩ := compile_decodable Sample.compile_route Sample.compile_otherRoute
  exact ⟨Sample.compile_route, Sample.compile_otherRoute, (hsame rfl rfl).2⟩

end SwapCalldata
