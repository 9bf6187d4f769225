import SwapCalldata.Proofs.Compilation

/-!
Which routes compile. The condition is one on each leg: the registry accepts it, and the pools of
the legs before it that have its pool's address agree with its pool.
-/
namespace SwapCalldata

theorem Route.isViable_iff {route : Route} : route.isViable = true ↔ route.status ≠ .noWay := by
  unfold isViable
  rw [bne_iff_ne]

theorem Leg.mem_pools_take_iff {legs : List Leg} {k : Nat} {pool : Pool} :
    pool ∈ (legs.take k).map Leg.pool ↔
      ∃ j earlier, j < k ∧ legs[j]? = some earlier ∧ earlier.pool = pool := by
  rw [List.mem_map]
  simp only [List.mem_iff_getElem?, List.getElem?_take, Option.ite_none_right_eq_some]
  constructor
  · rintro ⟨earlier, ⟨j, hj, hearlier⟩, hpool⟩
    exact ⟨j, earlier, hj, hearlier, hpool⟩
  · rintro ⟨j, earlier, hj, hearlier, hpool⟩
    exact ⟨earlier, ⟨j, hj, hearlier⟩, hpool⟩

/-- Whether a leg is accepted does not depend on the others but for conflicts of pools. -/
theorem Registry.exists_instructions_iff {registry : Registry} {revision : Revision}
    {recipient : Address} {seen : List Pool} {legs : List Leg} :
    (∃ instructions, registry.instructions revision recipient seen legs = .ok instructions) ↔
      ∀ k leg, legs[k]? = some leg → registry.Accepts revision leg ∧
        ∀ other ∈ seen ++ (legs.take k).map Leg.pool, other.conflicts leg.pool = false := by
  constructor
  · rintro ⟨instructions, hok⟩ k leg hleg
    obtain ⟨hfree, instruction, _, hinstruct⟩ := (instructions_eq_ok_iff.mp hok).2 k leg hleg
    exact ⟨exists_instruct_iff.mp ⟨instruction, hinstruct⟩, hfree⟩
  · intro hlegs
    have hinstruct (k : Fin legs.length) : ∃ instruction, registry.instruct revision legs[k]
        (registry.receiver recipient legs[k] (legs.drop (k + 1))) = .ok instruction :=
      exists_instruct_iff.mpr (hlegs k legs[k] (List.getElem?_eq_getElem k.isLt)).1
    choose instruction hinstruction using hinstruct
    refine ⟨List.ofFn instruction, instructions_eq_ok_iff.mpr ⟨List.length_ofFn, ?_⟩⟩
    intro k leg hleg
    obtain ⟨hk, rfl⟩ := List.getElem?_eq_some_iff.mp hleg
    refine ⟨(hlegs k _ hleg).2, instruction ⟨k, hk⟩, ?_, hinstruction ⟨k, hk⟩⟩
    rw [List.getElem?_ofFn, dif_pos hk]

namespace Compiler

theorem exists_compile_iff_instructions {compiler : Compiler} {route : Route} {revision : Revision}
    {recipient : Address} :
    (∃ compiled, compiler.compile route revision recipient = .ok compiled) ↔
      route.isViable = true ∧ route.legs ≠ [] ∧ ∃ instructions,
        compiler.registry.instructions revision recipient [] route.legs = .ok instructions := by
  simp only [compile_eq_ok_iff]
  constructor
  · rintro ⟨_, hviable, hlegs, instructions, hok, _⟩
    exact ⟨hviable, hlegs, instructions, hok⟩
  · rintro ⟨hviable, hlegs, instructions, hok⟩
    exact ⟨_, hviable, hlegs, instructions, hok, rfl⟩

/-- A route compiles exactly when a path was found, it has a leg, and on every leg the pool's family
is served by its own encoder, the pool has the family's shape with a fee that is a number and agrees
with the earlier pools at its address, the tokens are two different ones of the pool, and the family
has a layout under the revision. -/
theorem exists_compile_iff (compiler : Compiler) (route : Route) (revision : Revision)
    (recipient : Address) :
    (∃ compiled, compiler.compile route revision recipient = .ok compiled) ↔
      route.status ≠ .noWay ∧ route.legs ≠ [] ∧
      ∀ (k : Nat) (leg : Leg), route.legs[k]? = some leg →
        compiler.registry.encoderFor leg.pool.family = some leg.pool.family ∧
        2 ≤ leg.pool.tokens.length ∧
        leg.pool.tokens.length ≤ (if leg.pool.family = .stable then 16 else 2) ∧
        (∀ destination, leg.pool.kind = .bridge destination →
          destination.toNat < 2 ^ 32 ∧ compiler.registry.chainId ≠ some destination) ∧
        (∀ fee : Double, leg.pool.fee? = some fee → fee.isNaN = false) ∧
        (∀ (j : Nat) (earlier : Leg), j < k → route.legs[j]? = some earlier →
          earlier.pool.address = leg.pool.address → earlier.pool.agrees leg.pool = true) ∧
        leg.tokenFrom.address ∈ leg.pool.tokens.map Token.address ∧
        leg.tokenTo.address ∈ leg.pool.tokens.map Token.address ∧
        leg.tokenFrom.address ≠ leg.tokenTo.address ∧
        (revision = .v1 → leg.pool.family = .constantProduct) := by
  rw [exists_compile_iff_instructions, Route.isViable_iff, Registry.exists_instructions_iff]
  refine and_congr_right fun _ => and_congr_right fun _ => forall_congr' fun k =>
    forall_congr' fun leg => imp_congr_right fun _ => ?_
  constructor
  · rintro ⟨haccepts, hfree⟩
    refine ⟨haccepts.serves.own, haccepts.serves.shape.least, haccepts.serves.shape.most,
      haccepts.serves.shape.reach, haccepts.fee, ?_, haccepts.source, haccepts.target,
      haccepts.different, haccepts.layout⟩
    intro j earlier hj hearlier
    exact Pool.conflicts_eq_false_iff.mp
      (hfree _ (Leg.mem_pools_take_iff.mpr ⟨j, earlier, hj, hearlier, rfl⟩))
  · rintro ⟨hown, hleast, hmost, hreach, hfee, hagrees, hsource, htarget, hne, hlayout⟩
    refine ⟨⟨⟨hown, hleast, hmost, hreach⟩, hfee, hsource, htarget, hne, hlayout⟩, ?_⟩
    intro other hother
    obtain ⟨j, earlier, hj, hearlier, rfl⟩ := Leg.mem_pools_take_iff.mp hother
    exact Pool.conflicts_eq_false_iff.mpr (hagrees j earlier hj hearlier)

/-- Acceptance in a form that no order of the legs enters. -/
theorem exists_compile_iff_pairwise {compiler : Compiler} {route : Route} {revision : Revision}
    {recipient : Address} :
    (∃ compiled, compiler.compile route revision recipient = .ok compiled) ↔
      route.isViable = true ∧ route.legs ≠ [] ∧
      (∀ leg ∈ route.legs, compiler.registry.Accepts revision leg) ∧
      route.legs.Pairwise fun earlier later => earlier.pool.conflicts later.pool = false := by
  rw [exists_compile_iff_instructions, Registry.exists_instructions_iff, List.pairwise_iff_getElem]
  refine and_congr_right fun _ => and_congr_right fun _ => ?_
  constructor
  · intro h
    constructor
    · intro leg hmem
      obtain ⟨k, hleg⟩ := List.mem_iff_getElem?.mp hmem
      exact (h k leg hleg).1
    · intro i j hi hj hij
      have hearlier := List.getElem?_eq_getElem hi
      have hlater := List.getElem?_eq_getElem hj
      exact (h j _ hlater).2 _ (Leg.mem_pools_take_iff.mpr ⟨i, _, hij, hearlier, rfl⟩)
  · rintro ⟨haccepts, hfree⟩ k leg hleg
    refine ⟨haccepts leg (List.mem_of_getElem? hleg), fun other hother => ?_⟩
    obtain ⟨j, earlier, hj, hearlier, rfl⟩ := Leg.mem_pools_take_iff.mp hother
    obtain ⟨hk, rfl⟩ := List.getElem?_eq_some_iff.mp hleg
    obtain ⟨hj', rfl⟩ := List.getElem?_eq_some_iff.mp hearlier
    exact hfree j k hj' hk hj

end Compiler

end SwapCalldata
