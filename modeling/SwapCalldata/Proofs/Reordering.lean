import SwapCalldata.Proofs.FundRouting

/-!
Routes whose legs stand in another order. Which routes compile does not depend on the order, and
neither does the instruction of a leg, as long as two legs of which one trades on what the other
delivers keep their order.
-/
namespace SwapCalldata

/-- A list read in other places is a permutation. -/
theorem perm_of_places {α : Type} {xs ys : List α} {m n : Nat} (place : Fin m ≃ Fin n)
    (hxs : xs.length = m) (hys : ys.length = n) (h : ∀ k, ys[(place k).val]? = xs[k.val]?) :
    ys.Perm xs := by
  subst hxs hys
  have hindices : (List.finRange ys.length).Perm ((List.finRange xs.length).map place) := by
    rw [List.perm_ext_iff_of_nodup (List.nodup_finRange _)
      ((List.nodup_finRange _).map place.injective)]
    intro j
    simpa using place.surjective j
  have hread : ys.get ∘ place = xs.get := by
    funext k
    have hk := h k
    rw [List.getElem?_eq_getElem (place k).isLt, List.getElem?_eq_getElem k.isLt] at hk
    exact Option.some.inj hk
  rw [← List.map_get_finRange ys, ← List.map_get_finRange xs, ← hread, ← List.map_map]
  exact hindices.map ys.get

theorem Pool.conflicts_comm (a b : Pool) : a.conflicts b = b.conflicts a := by
  unfold conflicts
  rw [agrees_comm, BEq.comm]

theorem Leg.feedsAny_drop_iff {leg : Leg} {legs : List Leg} {k : Nat} :
    leg.FeedsAny (legs.drop (k + 1)) ↔ ∃ j : Fin legs.length, k < j.val ∧
      (legs.get j).tokenFrom.address = leg.tokenTo.address := by
  unfold FeedsAny
  constructor
  · rintro ⟨later, hlater, hfeeds⟩
    obtain ⟨j, hj, rfl⟩ := List.mem_drop_iff_getElem.mp hlater
    exact ⟨⟨k + 1 + j, by omega⟩, by simp; omega, hfeeds⟩
  · rintro ⟨j, hj, hfeeds⟩
    refine ⟨legs.get j, List.mem_drop_iff_getElem.mpr ⟨j.val - (k + 1), by omega, ?_⟩, hfeeds⟩
    have hplace : k + 1 + (j.val - (k + 1)) = j.val := by omega
    simp only [hplace]
    rfl

namespace Route

/-- Two routes with the same legs in other places. Two legs of which one trades on what the other
delivers keep their order. -/
structure Reorders (a b : Route) (place : Fin a.legs.length ≃ Fin b.legs.length) : Prop where
  status : b.status = a.status
  tokenIn : b.tokenIn.address = a.tokenIn.address
  tokenOut : b.tokenOut.address = a.tokenOut.address
  amountIn : b.amountIn = a.amountIn
  amountOut : b.amountOut = a.amountOut
  leg : ∀ k, b.legs.get (place k) = a.legs.get k
  order : ∀ i j, i < j →
    (a.legs.get i).tokenTo.address = (a.legs.get j).tokenFrom.address ∨
      (a.legs.get j).tokenTo.address = (a.legs.get i).tokenFrom.address →
    place i < place j

variable {a b : Route} {place : Fin a.legs.length ≃ Fin b.legs.length}

theorem Reorders.symm (h : a.Reorders b place) : b.Reorders a place.symm := by
  have hleg (k : Fin b.legs.length) : a.legs.get (place.symm k) = b.legs.get k := by
    rw [← h.leg, Equiv.apply_symm_apply]
  constructor
  case status => exact h.status.symm
  case tokenIn => exact h.tokenIn.symm
  case tokenOut => exact h.tokenOut.symm
  case amountIn => exact h.amountIn.symm
  case amountOut => exact h.amountOut.symm
  case leg => exact hleg
  case order =>
    intro i j hij hfeeds
    rw [← hleg i, ← hleg j] at hfeeds
    rcases lt_trichotomy (place.symm i) (place.symm j) with hlt | heq | hgt
    · exact hlt
    · exact absurd (place.symm.injective heq) hij.ne
    · have hback := h.order _ _ hgt hfeeds.symm
      rw [Equiv.apply_symm_apply, Equiv.apply_symm_apply] at hback
      exact absurd hback hij.asymm

theorem Reorders.perm (h : a.Reorders b place) : b.legs.Perm a.legs := by
  apply perm_of_places place rfl rfl
  intro k
  rw [List.getElem?_eq_getElem (place k).isLt, List.getElem?_eq_getElem k.isLt]
  exact congrArg some (h.leg k)

theorem Reorders.feedsAny_of_feedsAny (h : a.Reorders b place) {k : Fin a.legs.length}
    (hfeeds : (a.legs.get k).FeedsAny (a.legs.drop (k + 1))) :
    (b.legs.get (place k)).FeedsAny (b.legs.drop (place k + 1)) := by
  obtain ⟨j, hj, hfeeds⟩ := Leg.feedsAny_drop_iff.mp hfeeds
  refine Leg.feedsAny_drop_iff.mpr ⟨place j, h.order k j hj (Or.inl hfeeds.symm), ?_⟩
  rw [h.leg, h.leg, hfeeds]

/-- A leg feeds a later one wherever it stands. -/
theorem Reorders.feedsAny_iff (h : a.Reorders b place) (k : Fin a.legs.length) :
    (b.legs.get (place k)).FeedsAny (b.legs.drop (place k + 1)) ↔
      (a.legs.get k).FeedsAny (a.legs.drop (k + 1)) := by
  constructor
  · intro hfeeds
    have hback := h.symm.feedsAny_of_feedsAny hfeeds
    rwa [Equiv.symm_apply_apply] at hback
  · exact h.feedsAny_of_feedsAny

end Route

/-- The results say the same of every leg, which stands in another place, and the payloads are the
same instructions in other places. -/
structure CompiledRoute.Rearranges (moved compiled : CompiledRoute) {m n : Nat}
    (place : Fin m ≃ Fin n) : Prop where
  entryPoint : moved.entryPoint = compiled.entryPoint
  tokens : moved.tokenIn = compiled.tokenIn ∧ moved.tokenOut = compiled.tokenOut
  amounts : moved.amountIn = compiled.amountIn ∧ moved.amountOutMin = compiled.amountOutMin
  count : moved.legs.length = n ∧ compiled.legs.length = m
  leg : ∀ k : Fin m, ∃ (entry entry' : EncodedLeg) (block : List UInt8),
    compiled.legs[k.val]? = some entry ∧ moved.legs[(place k).val]? = some entry' ∧
      entry'.recipient = entry.recipient ∧ entry'.family = entry.family ∧
      entry'.pool = entry.pool ∧ entry'.length = entry.length ∧ entry'.share = entry.share ∧
      compiled.legBytes? k = some block ∧ moved.legBytes? (place k) = some block
  payload : ∃ blocks blocks' : List (List UInt8),
    compiled.payload = blocks.flatten ∧ (∀ k, compiled.legBytes? k = blocks[k]?) ∧
      moved.payload = blocks'.flatten ∧ (∀ k, moved.legBytes? k = blocks'[k]?) ∧
      blocks'.Perm blocks
  payloadLength : moved.payload.length = compiled.payload.length

namespace Compiler

variable {compiler : Compiler} {revision : Revision} {recipient : Address} {a b : Route}
  {place : Fin a.legs.length ≃ Fin b.legs.length} {instructions instructions' : List Instruction}

theorem exists_compile_iff_of_reorders (h : a.Reorders b place) :
    (∃ compiled, compiler.compile b revision recipient = .ok compiled) ↔
      ∃ compiled, compiler.compile a revision recipient = .ok compiled := by
  have hviable : b.isViable = a.isViable := by
    unfold Route.isViable
    rw [h.status]
  have hempty : b.legs ≠ [] ↔ a.legs ≠ [] := by
    rw [← List.length_pos_iff, ← List.length_pos_iff, h.perm.length_eq]
  have haccepts : (∀ leg ∈ b.legs, compiler.registry.Accepts revision leg) ↔
      ∀ leg ∈ a.legs, compiler.registry.Accepts revision leg :=
    forall_congr' fun _ => imp_congr_left h.perm.mem_iff
  have hfree : b.legs.Pairwise (fun x y => x.pool.conflicts y.pool = false) ↔
      a.legs.Pairwise fun x y => x.pool.conflicts y.pool = false :=
    h.perm.pairwise_iff fun hxy => (Pool.conflicts_comm _ _).trans hxy
  rw [exists_compile_iff_pairwise, exists_compile_iff_pairwise, hviable, hempty, haccepts, hfree]

/-- A leg gets the same instruction wherever it stands. -/
theorem exists_instruction_of_reorders (h : a.Reorders b place)
    (ha : compiler.Instructs a revision recipient instructions)
    (hb : compiler.Instructs b revision recipient instructions') (k : Fin a.legs.length) :
    ∃ instruction, instructions[k.val]? = some instruction ∧
      instructions'[(place k).val]? = some instruction := by
  obtain ⟨instruction, hinstruction, hinstruct⟩ :=
    ha.leg k _ (List.getElem?_eq_getElem k.isLt)
  obtain ⟨instruction', hinstruction', hinstruct'⟩ :=
    hb.leg (place k) _ (List.getElem?_eq_getElem (place k).isLt)
  have hleg : b.legs[place k] = a.legs[k] := h.leg k
  have hreceiver : compiler.registry.receiver recipient a.legs[k] (b.legs.drop (place k + 1)) =
      compiler.registry.receiver recipient a.legs[k] (a.legs.drop (k + 1)) := by
    have hfeeds := h.feedsAny_iff k
    rw [h.leg] at hfeeds
    rw [Registry.receiver_eq, Registry.receiver_eq]
    exact if_congr hfeeds rfl rfl
  have hsame : instruction' = instruction := by
    simp only [Fin.getElem_fin] at hleg hreceiver
    rw [hleg, hreceiver, hinstruct] at hinstruct'
    exact (Except.ok.inj hinstruct').symm
  exact ⟨instruction, hinstruction, hsame ▸ hinstruction'⟩

theorem rearranges_of_instructs (h : a.Reorders b place)
    (ha : compiler.Instructs a revision recipient instructions)
    (hb : compiler.Instructs b revision recipient instructions') :
    (compiler.assemble b revision instructions').Rearranges
      (compiler.assemble a revision instructions) place := by
  have hperm : instructions'.Perm instructions := by
    apply perm_of_places place ha.length hb.length
    intro k
    obtain ⟨instruction, hinstruction, hinstruction'⟩ :=
      exists_instruction_of_reorders h ha hb k
    exact hinstruction'.trans hinstruction.symm
  constructor
  case entryPoint => rfl
  case tokens => exact ⟨h.tokenIn, h.tokenOut⟩
  case amounts =>
    refine ⟨h.amountIn, ?_⟩
    show b.leastOutput compiler.slippageBps = a.leastOutput compiler.slippageBps
    unfold Route.leastOutput
    rw [h.amountOut]
  case count => exact ⟨length_legs_assemble hb.length, length_legs_assemble ha.length⟩
  case leg =>
    intro k
    obtain ⟨instruction, hinstruction, hinstruction'⟩ :=
      exists_instruction_of_reorders h ha hb k
    have hleg : a.legs[k.val]? = some (a.legs.get k) := List.getElem?_eq_getElem k.isLt
    have hleg' : b.legs[(place k).val]? = some (a.legs.get k) := by
      rw [← h.leg]
      exact List.getElem?_eq_getElem (place k).isLt
    refine ⟨_, _, instruction.bytes, getElem?_legs_assemble hleg hinstruction,
      getElem?_legs_assemble hleg' hinstruction', rfl, rfl, rfl, rfl, rfl, ?_, ?_⟩
    · exact ha.legBytes?_eq hinstruction
    · exact hb.legBytes?_eq hinstruction'
  case payload =>
    refine ⟨instructions.map Instruction.bytes, instructions'.map Instruction.bytes,
      List.flatMap_def .., fun k => ?_, List.flatMap_def .., fun k => ?_, hperm.map _⟩
    · rw [legBytes?_assemble ha.length, List.getElem?_map]
    · rw [legBytes?_assemble hb.length, List.getElem?_map]
  case payloadLength => exact (hperm.flatMap_right Instruction.bytes).length_eq

/-- Of two routes with the same legs in other places, both compile or neither does, and to the same
instructions in other places. -/
theorem compile_reordered (compiler : Compiler) (revision : Revision) (recipient : Address)
    (h : a.Reorders b place) :
    ((∃ compiled, compiler.compile a revision recipient = .ok compiled) ↔
      ∃ moved, compiler.compile b revision recipient = .ok moved) ∧
    ∀ compiled moved, compiler.compile a revision recipient = .ok compiled →
      compiler.compile b revision recipient = .ok moved → moved.Rearranges compiled place := by
  refine ⟨(exists_compile_iff_of_reorders h).symm, fun compiled moved ha hb => ?_⟩
  obtain ⟨_, rfl, hinstructs⟩ := exists_instructions ha
  obtain ⟨_, rfl, hinstructs'⟩ := exists_instructions hb
  exact rearranges_of_instructs h hinstructs hinstructs'

end Compiler

namespace Sample

/-- Two swaps of one token in one pool, and a bridge for what the second delivers. -/
def splitRoute : Route :=
  ⟨.success, [leg 0xA0 0xB0 (stablePool Double.zero),
    leg 0xA0 0xC0 (stablePool ⟨0x8000000000000000⟩), leg 0xC0 0xD0 bridgePool],
    token 0xA0, token 0xD0, 1000, 2000⟩

/-- The first swap comes last. -/
def rotatedRoute : Route := { splitRoute with legs := splitRoute.legs.rotate 1 }

def rotation : Fin splitRoute.legs.length ≃ Fin rotatedRoute.legs.length := (finRotate 3).symm

def splitCompiled : CompiledRoute :=
  { compiled with
    payload :=
      2 :: (address 0x51).bytes ++ 1 :: (address 0xAA).bytes ++ [0x01]
        ++ 2 :: (address 0x51).bytes ++ 1 :: (address 0xEE).bytes ++ [0x02]
        ++ 3 :: (address 0x52).bytes ++ 1 :: (address 0xAA).bytes ++ [0, 0, 0x21, 0x05]
    legs := [⟨0, .stable, address 0x51, address 0xAA, 0, 43, 65535⟩,
      ⟨1, .stable, address 0x51, address 0xEE, 43, 43, 65535⟩,
      ⟨2, .bridge, address 0x52, address 0xAA, 86, 46, 65535⟩] }

theorem compile_splitRoute :
    compiler.compile splitRoute .v2 (address 0xAA) = .ok splitCompiled := by
  decide +kernel

theorem reorders_rotation : splitRoute.Reorders rotatedRoute rotation := by
  constructor
  case status => rfl
  case tokenIn => rfl
  case tokenOut => rfl
  case amountIn => rfl
  case amountOut => rfl
  case leg => decide
  case order => decide

end Sample

theorem Compiler.compile_reordered_rotation :
    Sample.splitRoute.Reorders Sample.rotatedRoute Sample.rotation ∧
      ∃ moved, Sample.compiler.compile Sample.rotatedRoute .v2 (Sample.address 0xAA) = .ok moved ∧
        moved.Rearranges Sample.splitCompiled Sample.rotation := by
  obtain ⟨hiff, hrearranges⟩ :=
    compile_reordered Sample.compiler .v2 (Sample.address 0xAA) Sample.reorders_rotation
  obtain ⟨moved, hmoved⟩ := hiff.mp ⟨_, Sample.compile_splitRoute⟩
  exact ⟨Sample.reorders_rotation, moved, hmoved, hrearranges _ _ Sample.compile_splitRoute hmoved⟩

end SwapCalldata
