import SwapCalldata.Proofs.Reference

/-!
A compiled route as its list of instructions. Compilation succeeds exactly when no leg conflicts
with an earlier one and each gets an instruction of its own; the payload is these instructions
joined, and the record of a leg tells where its own stands.
-/
namespace SwapCalldata

namespace EncodedLeg

theorem length_records {index offset : Nat} {legs : List Leg} {instructions : List Instruction}
    (hlength : instructions.length = legs.length) :
    (records index offset legs instructions).length = legs.length := by
  induction legs generalizing index offset instructions with
  | nil =>
    rw [List.length_eq_zero_iff.mp hlength]
    rfl
  | cons leg legs ih =>
    cases instructions with
    | nil => simp at hlength
    | cons first others =>
      simp only [records, List.length_cons, ih (Nat.succ.inj hlength)]

/-- The instruction of a leg stands where those before it end. -/
theorem getElem?_records {index offset k : Nat} {legs : List Leg} {instructions : List Instruction}
    {leg : Leg} {instruction : Instruction} (hleg : legs[k]? = some leg)
    (hinstruction : instructions[k]? = some instruction) :
    (records index offset legs instructions)[k]? = some (ofInstruction (index + k)
      (offset + ((instructions.take k).flatMap Instruction.bytes).length) leg instruction) := by
  induction k generalizing index offset legs instructions with
  | zero =>
    cases legs <;> cases instructions <;> simp_all [records]
  | succ k ih =>
    cases legs with
    | nil => simp at hleg
    | cons first legs =>
      cases instructions with
      | nil => simp at hinstruction
      | cons head instructions =>
        rw [List.getElem?_cons_succ] at hleg hinstruction
        rw [records, List.getElem?_cons_succ, ih hleg hinstruction, List.take_succ_cons,
          List.flatMap_cons, List.length_append, Nat.add_assoc, Nat.add_assoc, Nat.add_comm 1]

end EncodedLeg

namespace Registry

variable {registry : Registry} {revision : Revision} {recipient : Address}

theorem instructions_cons_eq_ok_iff {seen : List Pool} {leg : Leg} {rest : List Leg}
    {instructions : List Instruction} :
    registry.instructions revision recipient seen (leg :: rest) = .ok instructions ↔
      (∀ other ∈ seen, other.conflicts leg.pool = false) ∧ ∃ first others,
        instructions = first :: others ∧
        registry.instruct revision leg (registry.receiver recipient leg rest) = .ok first ∧
        registry.instructions revision recipient (leg.pool :: seen) rest = .ok others := by
  by_cases hfree : ∀ other ∈ seen, other.conflicts leg.pool = false
  · rw [instructions_cons hfree]
    simp only [Outcome.bind_eq_ok_iff, Outcome.map_eq_ok_iff]
    constructor
    · rintro ⟨first, hfirst, others, hothers, rfl⟩
      exact ⟨hfree, first, others, rfl, hfirst, hothers⟩
    · rintro ⟨_, first, others, rfl, hfirst, hothers⟩
      exact ⟨first, hfirst, others, hothers, rfl⟩
  · constructor
    · intro hok
      push Not at hfree
      obtain ⟨other, hother, hconflict⟩ := hfree
      rw [instructions_of_conflict hother (Bool.eq_true_of_not_eq_false hconflict)] at hok
      cases hok
    · exact fun h => absurd h.1 hfree

/-- The reference succeeds exactly when every leg is free of conflicts with the pools before it and
has an instruction, and then it gives these instructions. -/
theorem instructions_eq_ok_iff {seen : List Pool} {legs : List Leg}
    {instructions : List Instruction} :
    registry.instructions revision recipient seen legs = .ok instructions ↔
      instructions.length = legs.length ∧ ∀ k leg, legs[k]? = some leg →
        (∀ other ∈ seen ++ (legs.take k).map Leg.pool, other.conflicts leg.pool = false) ∧
        ∃ instruction, instructions[k]? = some instruction ∧
          registry.instruct revision leg
            (registry.receiver recipient leg (legs.drop (k + 1))) = .ok instruction := by
  induction legs generalizing seen instructions with
  | nil =>
    simp only [Registry.instructions, Except.ok.injEq, List.length_nil, List.length_eq_zero_iff,
      List.getElem?_nil, reduceCtorEq, false_implies, implies_true, and_true]
    exact eq_comm
  | cons leg rest ih =>
    -- The pools before a later leg are those seen so far, this leg's and those in between.
    have hbefore (k : Nat) (other : Pool) :
        other ∈ seen ++ ((leg :: rest).take (k + 1)).map Leg.pool ↔
          other ∈ (leg.pool :: seen) ++ (rest.take k).map Leg.pool :=
      List.perm_middle.mem_iff
    rw [instructions_cons_eq_ok_iff]
    constructor
    · rintro ⟨hfree, first, others, rfl, hfirst, hothers⟩
      obtain ⟨hlength, hlegs⟩ := ih.mp hothers
      refine ⟨congrArg (· + 1) hlength, fun k later hlater => ?_⟩
      cases k with
      | zero =>
        obtain rfl := Option.some.inj hlater
        exact ⟨by simpa using hfree, first, rfl, hfirst⟩
      | succ k =>
        obtain ⟨hfree', hinstruct⟩ := hlegs k later hlater
        exact ⟨fun other hother => hfree' other ((hbefore k other).mp hother), hinstruct⟩
    · rintro ⟨hlength, hlegs⟩
      cases instructions with
      | nil => simp at hlength
      | cons first others =>
        obtain ⟨hfree, found, hfound, hfirst⟩ := hlegs 0 leg rfl
        obtain rfl := Option.some.inj hfound
        refine ⟨by simpa using hfree, first, others, rfl, hfirst,
          ih.mpr ⟨Nat.succ.inj hlength, fun k later hlater => ?_⟩⟩
        obtain ⟨hfree', hinstruct⟩ := hlegs (k + 1) later hlater
        exact ⟨fun other hother => hfree' other ((hbefore k other).mpr hother), hinstruct⟩

end Registry

namespace Route

/-- The least output after a slippage that is in range. -/
def leastOutput (route : Route) (bps : UInt64) : Nat :=
  let deduction := route.amountOut * bps.toNat / 10000
  if deduction < route.amountOut then route.amountOut - deduction else 1

theorem minAmountOut_eq_ok (route : Route) {bps : UInt64} (h : bps ≤ 10000) :
    route.minAmountOut bps = .ok (route.leastOutput bps) :=
  if_neg (UInt64.not_lt.mpr h)

end Route

namespace Compiler

/-- The compiled route of a route's instructions. -/
def assemble (compiler : Compiler) (route : Route) (revision : Revision)
    (instructions : List Instruction) : CompiledRoute where
  payload := instructions.flatMap Instruction.bytes
  entryPoint := compiler.registry.entryPoint
  revision := revision
  tokenIn := route.tokenIn.address
  tokenOut := route.tokenOut.address
  amountIn := route.amountIn
  amountOutMin := route.leastOutput compiler.slippageBps
  legs := EncodedLeg.records 0 0 route.legs instructions

variable {compiler : Compiler} {route : Route} {revision : Revision} {recipient : Address}
  {compiled : CompiledRoute}

theorem compile_eq (compiler : Compiler) (route : Route) (revision : Revision)
    (recipient : Address) : compiler.compile route revision recipient =
      if route.isViable = false then .error (.route .noViableRoute)
      else if route.legs = [] then .error (.route .emptyRoute)
      else (compiler.registry.instructions revision recipient [] route.legs).map
        (compiler.assemble route revision) := by
  have hwritten :
      (encodeLegs compiler.registry route revision recipient Progress.start route.legs).map
        Progress.written = _ := encodeLegs_eq (EncoderCache.covers_empty compiler.registry)
  let finish (written : List UInt8 × List EncodedLeg) : CompiledRoute :=
    { compiler.assemble route revision [] with payload := written.1, legs := written.2 }
  have hfinish (run : Except Failure Progress) :
      (run >>= fun done => .ok (finish done.written)) = (run.map Progress.written).map finish := by
    cases run <;> rfl
  unfold compile
  cases hviable : route.isViable with
  | false => rfl
  | true =>
    cases hlegs : route.legs with
    | nil => rfl
    | cons leg rest =>
      rw [route.minAmountOut_eq_ok compiler.slippage_le]
      show (encodeLegs _ _ _ _ _ (leg :: rest) >>= fun done => .ok (finish done.written)) = _
      rw [← hlegs, hfinish, hwritten, if_neg (by simp), if_neg (by simp [hlegs])]
      cases compiler.registry.instructions revision recipient [] route.legs with
      | error error => rfl
      | ok instructions =>
        simp only [Except.map, finish, assemble, Progress.start, List.nil_append, List.length_nil]

theorem compile_eq_ok_iff : compiler.compile route revision recipient = .ok compiled ↔
    route.isViable = true ∧ route.legs ≠ [] ∧ ∃ instructions,
      compiler.registry.instructions revision recipient [] route.legs = .ok instructions ∧
        compiled = compiler.assemble route revision instructions := by
  rw [compile_eq]
  cases hviable : route.isViable with
  | false => simp
  | true =>
    by_cases hempty : route.legs = []
    · simp [hempty]
    · simp only [Bool.true_eq_false, if_false, hempty, Outcome.map_eq_ok_iff, true_and, ne_eq,
        not_false_iff, eq_comm (a := compiled)]

/-- One instruction a leg, each from an encoder that is resolved for the leg alone. -/
structure Instructs (compiler : Compiler) (route : Route) (revision : Revision)
    (recipient : Address) (instructions : List Instruction) : Prop where
  length : instructions.length = route.legs.length
  leg : ∀ k leg, route.legs[k]? = some leg → ∃ instruction, instructions[k]? = some instruction ∧
    compiler.registry.instruct revision leg
      (compiler.registry.receiver recipient leg (route.legs.drop (k + 1))) = .ok instruction

theorem exists_instructions (h : compiler.compile route revision recipient = .ok compiled) :
    ∃ instructions, compiled = compiler.assemble route revision instructions ∧
      compiler.Instructs route revision recipient instructions := by
  obtain ⟨_, _, instructions, hok, rfl⟩ := compile_eq_ok_iff.mp h
  obtain ⟨hlength, hlegs⟩ := Registry.instructions_eq_ok_iff.mp hok
  exact ⟨instructions, rfl, hlength, fun k leg hleg => (hlegs k leg hleg).2⟩

theorem payload_split {instructions : List Instruction} {instruction : Instruction} {k : Nat}
    (h : instructions[k]? = some instruction) : instructions.flatMap Instruction.bytes =
      (instructions.take k).flatMap Instruction.bytes ++ instruction.bytes ++
        (instructions.drop (k + 1)).flatMap Instruction.bytes := by
  obtain ⟨hlt, hget⟩ := List.getElem?_eq_some_iff.mp h
  conv_lhs => rw [← List.take_append_drop k instructions, List.drop_eq_getElem_cons hlt, hget]
  rw [List.flatMap_append, List.flatMap_cons, List.append_assoc]

theorem getElem?_legs_assemble {instructions : List Instruction} {k : Nat} {leg : Leg}
    {instruction : Instruction} (hleg : route.legs[k]? = some leg)
    (hinstruction : instructions[k]? = some instruction) :
    (compiler.assemble route revision instructions).legs[k]? = some (.ofInstruction k
      ((instructions.take k).flatMap Instruction.bytes).length leg instruction) := by
  have hrecord : (EncodedLeg.records 0 0 route.legs instructions)[k]? = _ :=
    EncodedLeg.getElem?_records hleg hinstruction
  rwa [Nat.zero_add, Nat.zero_add] at hrecord

theorem length_legs_assemble {instructions : List Instruction}
    (hlength : instructions.length = route.legs.length) :
    (compiler.assemble route revision instructions).legs.length = route.legs.length :=
  EncodedLeg.length_records hlength

/-- The record of a leg finds the leg's instruction. -/
theorem legBytes?_assemble {instructions : List Instruction}
    (hlength : instructions.length = route.legs.length) (k : Nat) :
    (compiler.assemble route revision instructions).legBytes? k =
      instructions[k]?.map Instruction.bytes := by
  unfold CompiledRoute.legBytes?
  by_cases hk : k < route.legs.length
  · have hleg := List.getElem?_eq_getElem hk
    have hinstruction := List.getElem?_eq_getElem (hlength ▸ hk)
    rw [getElem?_legs_assemble hleg hinstruction, hinstruction]
    show Bytes.slice? (instructions.flatMap Instruction.bytes) _ _ = _
    rw [payload_split hinstruction]
    exact Bytes.slice?_append _ _ _
  · have hrecords : (compiler.assemble route revision instructions).legs.length ≤ k := by
      rw [length_legs_assemble hlength]
      exact Nat.not_lt.mp hk
    rw [List.getElem?_eq_none hrecords, List.getElem?_eq_none (by omega)]
    rfl

theorem Instructs.legBytes?_eq {instructions : List Instruction} {instruction : Instruction}
    {k : Nat} (h : compiler.Instructs route revision recipient instructions)
    (hinstruction : instructions[k]? = some instruction) :
    (compiler.assemble route revision instructions).legBytes? k = some instruction.bytes := by
  rw [legBytes?_assemble h.length, hinstruction]
  rfl

theorem exists_of_getElem?_legs {instructions : List Instruction} {k : Nat} {entry : EncodedLeg}
    (hlength : instructions.length = route.legs.length)
    (hentry : (compiler.assemble route revision instructions).legs[k]? = some entry) :
    ∃ leg instruction, route.legs[k]? = some leg ∧ instructions[k]? = some instruction ∧
      entry = .ofInstruction k ((instructions.take k).flatMap Instruction.bytes).length leg
        instruction := by
  have hk : k < route.legs.length := by
    obtain ⟨hlt, _⟩ := List.getElem?_eq_some_iff.mp hentry
    rwa [length_legs_assemble hlength] at hlt
  have hleg := List.getElem?_eq_getElem hk
  have hinstruction := List.getElem?_eq_getElem (hlength ▸ hk)
  rw [getElem?_legs_assemble hleg hinstruction] at hentry
  exact ⟨_, _, hleg, hinstruction, (Option.some.inj hentry).symm⟩

/-- An instruction ends where the next one starts. -/
theorem length_payload_take_succ {instructions : List Instruction} {instruction : Instruction}
    {k : Nat} (h : instructions[k]? = some instruction) :
    ((instructions.take (k + 1)).flatMap Instruction.bytes).length =
      ((instructions.take k).flatMap Instruction.bytes).length + instruction.bytes.length := by
  rw [List.take_add_one, h, List.flatMap_append, List.length_append]
  simp

end Compiler

namespace Sample

def address (byte : UInt8) : Address := ⟨List.replicate 20 byte, List.length_replicate⟩

def token (byte : UInt8) : Token := ⟨address byte, 18, none⟩

def leg (source target : UInt8) (pool : Pool) : Leg :=
  ⟨token source, token target, pool, Double.one, by decide⟩

def stablePool (fee : Double) : Pool :=
  ⟨address 0x51, [token 0xA0, token 0xB0, token 0xC0], "curve", .stable fee⟩

def bridgePool : Pool := ⟨address 0x52, [token 0xC0, token 0xD0], "hop", .bridge 8453⟩

/-- Two swaps in one stable pool, whose fee is 0 in one leg and -0 in the next, then a bridge. -/
def route : Route :=
  ⟨.success, [leg 0xA0 0xB0 (stablePool Double.zero),
    leg 0xB0 0xC0 (stablePool ⟨0x8000000000000000⟩), leg 0xC0 0xD0 bridgePool],
    token 0xA0, token 0xD0, 1000, 2000⟩

def compiler : Compiler := .ofRegistry ((Registry.standard (address 0xEE)).withChain 1)

def compiled : CompiledRoute where
  payload :=
    2 :: (address 0x51).bytes ++ 1 :: (address 0xEE).bytes ++ [0x01]
      ++ 2 :: (address 0x51).bytes ++ 0 :: (address 0xEE).bytes ++ [0x12]
      ++ 3 :: (address 0x52).bytes ++ 1 :: (address 0xAA).bytes ++ [0, 0, 0x21, 0x05]
  entryPoint := address 0xEE
  revision := .v2
  tokenIn := address 0xA0
  tokenOut := address 0xD0
  amountIn := 1000
  amountOutMin := 1990
  legs := [⟨0, .stable, address 0x51, address 0xEE, 0, 43, 65535⟩,
    ⟨1, .stable, address 0x51, address 0xEE, 43, 43, 65535⟩,
    ⟨2, .bridge, address 0x52, address 0xAA, 86, 46, 65535⟩]

theorem compile_route : compiler.compile route .v2 (address 0xAA) = .ok compiled := by
  decide +kernel

end Sample

end SwapCalldata
