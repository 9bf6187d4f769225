import SwapCalldata.Proofs.Refusal

/-!
What cannot reach the payload. Two runs on routes that trade the same assets in the same pools end
alike, whatever the decimals, symbols, amounts and flow fractions. Providers and fees decide whether
a route compiles and nothing else: no byte of the payload comes from them.
-/
namespace SwapCalldata

theorem any_eq_of_forall₂ {α β : Type} {r : α → β → Prop} {p : α → Bool} {q : β → Bool}
    {xs : List α} {ys : List β} (h : List.Forall₂ r xs ys)
    (heq : ∀ x y, r x y → p x = q y) : xs.any p = ys.any q := by
  induction h with
  | nil => rfl
  | cons hhead _ ih => rw [List.any_cons, List.any_cons, heq _ _ hhead, ih]

namespace Pool

/-- The pools have one address, the same assets in the same places, and one layout. -/
structure Alike (a b : Pool) : Prop where
  address : a.address = b.address
  tokens : a.tokenAddresses = b.tokenAddresses
  layout : a.kind.layout = b.kind.layout

/-- The pools differ in the decimals and symbols of their tokens at most. -/
structure Relabels (a b : Pool) : Prop where
  address : a.address = b.address
  tokens : a.tokenAddresses = b.tokenAddresses
  provider : a.provider = b.provider
  kind : a.kind = b.kind

variable {a b c d : Pool}

theorem Alike.indices (h : a.Alike b) : a.indices = b.indices := by
  funext source target
  simp only [Pool.indices, indexOf?_eq_findIdx?, h.address, h.tokens]

theorem Relabels.alike (h : a.Relabels b) : a.Alike b :=
  ⟨h.address, h.tokens, congrArg PoolKind.layout h.kind⟩

theorem Relabels.family (h : a.Relabels b) : a.family = b.family :=
  congrArg PoolKind.family h.kind

theorem Relabels.length_tokens (h : a.Relabels b) : a.tokens.length = b.tokens.length := by
  simpa only [tokenAddresses, List.length_map] using congrArg List.length h.tokens

theorem Relabels.feeIsNumber_iff (h : a.Relabels b) : a.FeeIsNumber ↔ b.FeeIsNumber := by
  unfold FeeIsNumber Pool.fee?
  rw [h.kind]

theorem Relabels.agrees (h : a.Relabels b) (h' : c.Relabels d) : a.agrees c = b.agrees d := by
  rw [Bool.eq_iff_iff, agrees_iff, agrees_iff, h.address, h.tokens, h.provider, h.kind,
    h'.address, h'.tokens, h'.provider, h'.kind]

theorem Relabels.conflicts (h : a.Relabels b) (h' : c.Relabels d) :
    a.conflicts c = b.conflicts d := by
  unfold Pool.conflicts
  rw [h.address, h'.address, h.agrees h']

theorem Relabels.mismatch? (h : a.Relabels b) : a.mismatch? = b.mismatch? := by
  funext source target
  simp only [Pool.mismatch?, h.address, h.tokens]

end Pool

namespace Leg

/-- The legs trade the same assets in the same places of pools with one layout. -/
structure Alike (a b : Leg) : Prop where
  source : a.tokenFrom.address = b.tokenFrom.address
  target : a.tokenTo.address = b.tokenTo.address
  pool : a.pool.Alike b.pool

/-- The legs trade the same assets, in pools that differ in decimals and symbols at most. -/
structure SameTrade (a b : Leg) : Prop where
  source : a.tokenFrom.address = b.tokenFrom.address
  target : a.tokenTo.address = b.tokenTo.address
  pool : a.pool.Relabels b.pool

variable {a b c d : Leg}

theorem SameTrade.alike (h : a.SameTrade b) : a.Alike b := ⟨h.source, h.target, h.pool.alike⟩

theorem Alike.indices (h : a.Alike b) : a.indices = b.indices := by
  unfold Leg.indices indicesIn
  rw [h.pool.indices, h.source, h.target]

theorem Alike.feeds (h : a.Alike b) (h' : c.Alike d) : a.feeds c = b.feeds d := by
  unfold Leg.feeds Token.sameAsset
  rw [h.target, h'.source]

theorem instructionAt_eq_of_layout {leg : Leg} {revision : Revision} {receiver : Address}
    {i j : Nat} : leg.instructionAt revision receiver i j =
      let swap : Swap := ⟨leg.pool.address, i == 0, receiver⟩
      match revision, leg.pool.kind.layout with
      | .v1, _ => .legacy swap leg.tokenFrom.address
      | .v2, .constantProduct => .constantProduct swap
      | .v2, .concentratedLiquidity => .concentratedLiquidity swap
      | .v2, .stable => .stable swap (Instruction.selector i j)
      | .v2, .bridge destination => .bridge swap destination := by
  unfold instructionAt
  cases revision <;> cases leg.pool.kind <;> rfl

theorem Alike.instructionAt (h : a.Alike b) : a.instructionAt = b.instructionAt := by
  funext revision receiver i j
  rw [instructionAt_eq_of_layout, instructionAt_eq_of_layout, h.pool.address, h.pool.layout,
    h.source]

theorem SameTrade.fault? (h : a.SameTrade b) (revision : Revision) :
    a.fault? revision = b.fault? revision := by
  unfold Leg.fault?
  simp only [h.pool.family, h.pool.address, h.pool.feeIsNumber_iff, h.pool.mismatch?, h.source,
    h.target]

end Leg

namespace Registry

variable {registry : Registry} {revision : Revision} {recipient receiver : Address}
  {a b : Leg} {legs legs' : List Leg}

theorem receiver_eq_of_alike (registry : Registry) (recipient : Address) (h : a.Alike b)
    (hrest : List.Forall₂ Leg.Alike legs legs') :
    registry.receiver recipient a legs = registry.receiver recipient b legs' := by
  have hany : legs.any a.feeds = legs'.any b.feeds :=
    any_eq_of_forall₂ hrest fun _ _ hlater => h.feeds hlater
  unfold receiver
  rw [hany]

/-- What alike legs get, if both get an instruction, is the same. -/
theorem instruct_inj_of_alike (h : a.Alike b) {instruction instruction' : Instruction}
    (ha : registry.instruct revision a receiver = .ok instruction)
    (hb : registry.instruct revision b receiver = .ok instruction') :
    instruction = instruction' := by
  obtain ⟨_, _, _, i, j, hindices, rfl⟩ := instruct_eq_ok_iff.mp ha
  obtain ⟨_, _, _, i', j', hindices', rfl⟩ := instruct_eq_ok_iff.mp hb
  rw [h.indices, hindices'] at hindices
  obtain ⟨rfl, rfl⟩ := Prod.mk.inj (Except.ok.inj hindices)
  rw [h.instructionAt]

theorem poolFault?_of_relabels {pool pool' : Pool} (h : pool.Relabels pool') :
    registry.poolFault? pool = registry.poolFault? pool' := by
  have hlayout : (registry.describe pool).layoutFor = (registry.describe pool').layoutFor := by
    funext family
    unfold describe PoolDescriptor.layoutFor
    dsimp only
    rw [h.family, h.length_tokens, h.kind]
  unfold poolFault?
  rw [h.family, h.address, hlayout]

theorem fault?_of_sameTrade (h : a.SameTrade b) :
    registry.fault? revision a = registry.fault? revision b := by
  unfold fault?
  rw [poolFault?_of_relabels h.pool, h.fault?]

theorem instruct_of_sameTrade (h : a.SameTrade b) :
    registry.instruct revision a receiver = registry.instruct revision b receiver := by
  -- The legs have one fault or none, so both are refused with it or both get an instruction.
  have hfault : registry.fault? revision a = registry.fault? revision b := fault?_of_sameTrade h
  cases ha : registry.instruct revision a receiver with
  | error failure =>
    rw [instruct_eq_error_iff, hfault] at ha
    exact (instruct_eq_error_iff.mpr ha).symm
  | ok instruction =>
    have hnone := (registry.exists_instruct_iff_fault? revision a receiver).mp ⟨_, ha⟩
    rw [hfault, ← registry.exists_instruct_iff_fault? revision b receiver] at hnone
    obtain ⟨instruction', hb⟩ := hnone
    rw [hb, instruct_inj_of_alike h.alike ha hb]

/-- The reference cannot tell routes apart that make the same trades. -/
theorem instructions_of_sameTrade {seen seen' : List Pool}
    (hseen : List.Forall₂ Pool.Relabels seen seen')
    (h : List.Forall₂ Leg.SameTrade legs legs') :
    registry.instructions revision recipient seen legs =
      registry.instructions revision recipient seen' legs' := by
  induction h generalizing seen seen' with
  | nil => rfl
  | @cons leg leg' rest rest' hleg hrest ih =>
    -- The pools seen so far go on to correspond, so conflicts arise in the same places.
    have hconflict : (seen.any fun other => other.conflicts leg.pool) =
        seen'.any fun other => other.conflicts leg'.pool :=
      any_eq_of_forall₂ hseen fun _ _ hother => hother.conflicts hleg.pool
    have hreceiver : registry.receiver recipient leg rest =
        registry.receiver recipient leg' rest' :=
      registry.receiver_eq_of_alike recipient hleg.alike
        (hrest.imp fun _ _ hlater => hlater.alike)
    rw [instructions, instructions, hconflict, hreceiver, instruct_of_sameTrade hleg,
      hleg.pool.address, ih (.cons hleg.pool hseen)]

end Registry

/-- The records agree in all but the share. -/
def EncodedLeg.SameButShare (a b : EncodedLeg) : Prop := b = { a with share := b.share }

theorem EncodedLeg.sameButShare_records {legs legs' : List Leg}
    (h : List.Forall₂ Leg.SameTrade legs legs') (index offset : Nat)
    (instructions : List Instruction) :
    List.Forall₂ SameButShare (records index offset legs instructions)
      (records index offset legs' instructions) := by
  induction h generalizing index offset instructions with
  | nil => exact .nil
  | cons hleg _ ih =>
    cases instructions with
    | nil => exact .nil
    | cons instruction others =>
      refine .cons ?_ (ih _ _ others)
      unfold SameButShare ofInstruction
      rw [hleg.pool.family, hleg.pool.address]

/-- The results have one payload, and their records agree in all but the shares. -/
structure CompiledRoute.Mirrors (other compiled : CompiledRoute) : Prop where
  payload : other.payload = compiled.payload
  entryPoint : other.entryPoint = compiled.entryPoint
  revision : other.revision = compiled.revision
  legs : List.Forall₂ EncodedLeg.SameButShare compiled.legs other.legs

/-- The kind with another fee, where it has one. -/
def PoolKind.withFee (kind : PoolKind) (fee : Double) : PoolKind :=
  match kind with
  | constantProduct _ => constantProduct fee
  | concentratedLiquidity _ => concentratedLiquidity fee
  | stable _ => stable fee
  | bridge destination => bridge destination

/-- A change of providers and fees, one and the same for all legs through a pool. -/
structure Rebranding where
  provider : Pool → String
  fee : Pool → Double

namespace Rebranding

def pool (change : Rebranding) (pool : Pool) : Pool :=
  { pool with provider := change.provider pool, kind := pool.kind.withFee (change.fee pool) }

def leg (change : Rebranding) (leg : Leg) : Leg := { leg with pool := change.pool leg.pool }

def route (change : Rebranding) (route : Route) : Route :=
  { route with legs := route.legs.map change.leg }

/-- On the pools of a route, every new fee is a number and pools that agree go on to agree. -/
structure Consistent (change : Rebranding) (route : Route) : Prop where
  fee : ∀ leg ∈ route.legs, (change.pool leg.pool).FeeIsNumber
  agrees : ∀ leg ∈ route.legs, ∀ other ∈ route.legs, leg.pool.agrees other.pool = true →
    (change.pool leg.pool).agrees (change.pool other.pool) = true

variable {change : Rebranding} {registry : Registry} {revision : Revision}

theorem family_pool (change : Rebranding) (pool : Pool) :
    (change.pool pool).family = pool.family := by
  unfold Rebranding.pool Pool.family
  cases pool.kind <;> rfl

theorem kind_eq_bridge_iff {pool : Pool} {destination : UInt64} :
    (change.pool pool).kind = .bridge destination ↔ pool.kind = .bridge destination := by
  unfold Rebranding.pool
  cases pool.kind <;> simp [PoolKind.withFee]

theorem alike_pool (change : Rebranding) (pool : Pool) : pool.Alike (change.pool pool) := by
  refine ⟨rfl, rfl, ?_⟩
  unfold Rebranding.pool
  cases pool.kind <;> rfl

theorem alike_leg (change : Rebranding) (leg : Leg) : leg.Alike (change.leg leg) :=
  ⟨rfl, rfl, change.alike_pool leg.pool⟩

theorem alike_legs (change : Rebranding) (legs : List Leg) :
    List.Forall₂ Leg.Alike legs (legs.map change.leg) := by
  rw [List.forall₂_map_right_iff]
  exact List.forall₂_same.mpr fun leg _ => change.alike_leg leg

theorem accepts_leg {leg : Leg} (hfee : (change.pool leg.pool).FeeIsNumber)
    (h : registry.Accepts revision leg) : registry.Accepts revision (change.leg leg) := by
  have hfamily : (change.leg leg).pool.family = leg.pool.family := change.family_pool leg.pool
  constructor
  case serves =>
    constructor
    case own => rw [hfamily, h.serves.own]
    case shape =>
      refine ⟨h.serves.shape.least, ?_, fun destination hkind => ?_⟩
      · rw [hfamily]
        exact h.serves.shape.most
      · exact h.serves.shape.reach destination (kind_eq_bridge_iff.mp hkind)
  case fee => exact hfee
  case source => exact h.source
  case target => exact h.target
  case different => exact h.different
  case layout =>
    rw [hfamily]
    exact h.layout

end Rebranding

namespace Compiler

variable {compiler compiler' : Compiler} {route route' : Route} {revision : Revision}
  {recipient : Address} {change : Rebranding} {instructions instructions' : List Instruction}

theorem mirrors_assemble (hregistry : compiler'.registry = compiler.registry)
    (h : List.Forall₂ Leg.SameTrade route.legs route'.legs) (instructions : List Instruction) :
    (compiler'.assemble route' revision instructions).Mirrors
      (compiler.assemble route revision instructions) := by
  constructor
  case payload => rfl
  case entryPoint => exact congrArg Registry.entryPoint hregistry
  case revision => rfl
  case legs => exact EncodedLeg.sameButShare_records h 0 0 instructions

/-- Routes that make the same trades get the same refusal, or results that mirror each other. -/
theorem compile_of_sameTrade (hregistry : compiler'.registry = compiler.registry)
    (hviable : route'.isViable = route.isViable)
    (h : List.Forall₂ Leg.SameTrade route.legs route'.legs) :
    (∃ failure, compiler.compile route revision recipient = .error failure ∧
      compiler'.compile route' revision recipient = .error failure) ∨
    ∃ compiled compiled', compiler.compile route revision recipient = .ok compiled ∧
      compiler'.compile route' revision recipient = .ok compiled' ∧
      compiled'.Mirrors compiled := by
  have hinstructions : compiler.registry.instructions revision recipient [] route.legs =
      compiler.registry.instructions revision recipient [] route'.legs :=
    Registry.instructions_of_sameTrade .nil h
  have hempty : route'.legs = [] ↔ route.legs = [] := by
    rw [← List.length_eq_zero_iff, ← List.length_eq_zero_iff, h.length_eq]
  simp only [compile_eq, hregistry, hviable, hempty, ← hinstructions]
  by_cases hnoWay : route.isViable = false
  · exact Or.inl ⟨_, if_pos hnoWay, if_pos hnoWay⟩
  by_cases hnone : route.legs = []
  · simp only [if_neg hnoWay, if_pos hnone]
    exact Or.inl ⟨_, rfl, rfl⟩
  simp only [if_neg hnoWay, if_neg hnone]
  cases compiler.registry.instructions revision recipient [] route.legs with
  | error failure => exact Or.inl ⟨failure, rfl, rfl⟩
  | ok instructions => exact Or.inr ⟨_, _, rfl, rfl, mirrors_assemble hregistry h instructions⟩

/-- A change of providers and fees leaves the instructions of a route as they were. -/
theorem instructions_eq_of_rebranding (hregistry : compiler'.registry = compiler.registry)
    (h : compiler.Instructs route revision recipient instructions)
    (h' : compiler'.Instructs (change.route route) revision recipient instructions') :
    instructions' = instructions := by
  apply List.ext_getElem?
  intro k
  by_cases hk : k < route.legs.length
  · -- The two legs need not have the same faults, but both got an instruction.
    have hleg := List.getElem?_eq_getElem hk
    have hleg' : (change.route route).legs[k]? = some (change.leg route.legs[k]) := by
      show (route.legs.map change.leg)[k]? = _
      rw [List.getElem?_map, hleg]
      rfl
    obtain ⟨instruction, hinstruction, hinstruct⟩ := h.leg k _ hleg
    obtain ⟨instruction', hinstruction', hinstruct'⟩ := h'.leg k _ hleg'
    have hdrop : (change.route route).legs.drop (k + 1) =
        (route.legs.drop (k + 1)).map change.leg := List.map_drop.symm
    have halike := change.alike_leg route.legs[k]
    have hreceiver := compiler.registry.receiver_eq_of_alike recipient halike
      (change.alike_legs (route.legs.drop (k + 1)))
    rw [hregistry, hdrop, ← hreceiver] at hinstruct'
    rw [hinstruction, hinstruction', Registry.instruct_inj_of_alike halike hinstruct hinstruct']
  · have hlength : (change.route route).legs.length = route.legs.length := List.length_map _
    rw [List.getElem?_eq_none (by rw [h'.length, hlength]; omega),
      List.getElem?_eq_none (by rw [h.length]; omega)]

theorem exists_compile_of_rebranding (hregistry : compiler'.registry = compiler.registry)
    (hchange : change.Consistent route)
    (h : ∃ compiled, compiler.compile route revision recipient = .ok compiled) :
    ∃ compiled', compiler'.compile (change.route route) revision recipient = .ok compiled' := by
  rw [exists_compile_iff_pairwise] at h ⊢
  obtain ⟨hviable, hlegs, haccepts, hfree⟩ := h
  refine ⟨hviable, fun hnil => hlegs (List.map_eq_nil_iff.mp hnil), ?_, ?_⟩
  · intro leg' hmem
    obtain ⟨leg, hleg, rfl⟩ := List.mem_map.mp hmem
    rw [hregistry]
    exact Rebranding.accepts_leg (hchange.fee leg hleg) (haccepts leg hleg)
  · show (route.legs.map change.leg).Pairwise _
    rw [List.pairwise_map]
    refine hfree.imp_of_mem fun {leg other} hleg hother hpair => ?_
    rw [Pool.conflicts_eq_false_iff] at hpair ⊢
    intro haddress
    exact hchange.agrees leg hleg other hother (hpair haddress)

/-- Compilers over one registry refuse routes that make the same trades alike or give them results
that mirror each other, and a change of providers and fees moves no byte of a payload; where it is
consistent, what compiled goes on to compile. -/
theorem compile_noninterference (compiler compiler' : Compiler)
    (hregistry : compiler'.registry = compiler.registry) (revision : Revision)
    (recipient : Address) :
    (∀ route route' : Route, route'.isViable = route.isViable →
      List.Forall₂ Leg.SameTrade route.legs route'.legs →
      (∃ failure, compiler.compile route revision recipient = .error failure ∧
        compiler'.compile route' revision recipient = .error failure) ∨
      ∃ compiled compiled', compiler.compile route revision recipient = .ok compiled ∧
        compiler'.compile route' revision recipient = .ok compiled' ∧
        compiled'.Mirrors compiled) ∧
    (∀ (change : Rebranding) (route : Route) (compiled : CompiledRoute),
      compiler.compile route revision recipient = .ok compiled →
      (∀ compiled', compiler'.compile (change.route route) revision recipient = .ok compiled' →
        compiled'.payload = compiled.payload) ∧
      (change.Consistent route → ∃ compiled',
        compiler'.compile (change.route route) revision recipient = .ok compiled')) := by
  constructor
  · intro route route' hviable h
    exact compile_of_sameTrade hregistry hviable h
  · intro change route compiled h
    refine ⟨fun compiled' h' => ?_, fun hchange => ?_⟩
    · obtain ⟨_, rfl, hinstructs⟩ := exists_instructions h
      obtain ⟨_, rfl, hinstructs'⟩ := exists_instructions h'
      rw [instructions_eq_of_rebranding hregistry hinstructs hinstructs']
      rfl
    · exact exists_compile_of_rebranding hregistry hchange ⟨compiled, h⟩

end Compiler

namespace Sample

def labelled (token : Token) : Token := { token with decimals := 6, symbol := some "LP" }

/-- The leg with other labels, and half of the flow. -/
def labelledLeg (leg : Leg) : Leg where
  tokenFrom := labelled leg.tokenFrom
  tokenTo := labelled leg.tokenTo
  pool := { leg.pool with tokens := leg.pool.tokens.map labelled }
  fraction := ⟨0x3FE0000000000000⟩
  isFraction := by decide

/-- The route with all that cannot reach its payload changed. -/
def labelledRoute : Route :=
  ⟨.partialFill, route.legs.map labelledLeg, token 0xD0, token 0xA0, 7, 9⟩

def carefulCompiler : Compiler :=
  { compiler with slippageBps := 10, slippage_le := by decide }

def rebranding : Rebranding := ⟨fun pool => pool.provider ++ " v2", fun _ => Double.one⟩

theorem sameTrade_labelledLeg (leg : Leg) : leg.SameTrade (labelledLeg leg) := by
  refine ⟨rfl, rfl, rfl, ?_, rfl, rfl⟩
  show leg.pool.tokens.map Token.address = (leg.pool.tokens.map labelled).map Token.address
  rw [List.map_map]
  rfl

theorem consistent_rebranding : rebranding.Consistent route := by
  constructor
  case fee => decide
  case agrees => decide

end Sample

theorem Compiler.compile_noninterference_labelledRoute :
    Sample.carefulCompiler.registry = Sample.compiler.registry ∧
      (∃ compiled', Sample.carefulCompiler.compile Sample.labelledRoute .v2
        (Sample.address 0xAA) = .ok compiled' ∧ compiled'.Mirrors Sample.compiled) ∧
      ∃ compiled', Sample.carefulCompiler.compile (Sample.rebranding.route Sample.route) .v2
        (Sample.address 0xAA) = .ok compiled' ∧
        compiled'.payload = Sample.compiled.payload := by
  obtain ⟨hsame, hchange⟩ := compile_noninterference Sample.compiler Sample.carefulCompiler rfl
    .v2 (Sample.address 0xAA)
  refine ⟨rfl, ?_, ?_⟩
  · have hlegs : List.Forall₂ Leg.SameTrade Sample.route.legs Sample.labelledRoute.legs := by
      rw [Sample.labelledRoute, List.forall₂_map_right_iff]
      exact List.forall₂_same.mpr fun leg _ => Sample.sameTrade_labelledLeg leg
    obtain ⟨failure, hfailure, _⟩ | ⟨compiled, compiled', hcompiled, hcompiled', hmirrors⟩ :=
      hsame Sample.route Sample.labelledRoute rfl hlegs
    · rw [Sample.compile_route] at hfailure
      cases hfailure
    · obtain rfl := Except.ok.inj (Sample.compile_route.symm.trans hcompiled)
      exact ⟨compiled', hcompiled', hmirrors⟩
  · obtain ⟨hpayload, hcompiles⟩ := hchange Sample.rebranding Sample.route _ Sample.compile_route
    obtain ⟨compiled', hcompiled'⟩ := hcompiles Sample.consistent_rebranding
    exact ⟨compiled', hcompiled', hpayload compiled' hcompiled'⟩

end SwapCalldata
