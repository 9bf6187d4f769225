import SwapCalldata.Proofs.Acceptance
import SwapCalldata.Proofs.InstructionCode
import SwapCalldata.Proofs.Registration

/-!
What a compiler keeps when its registry changes. A further family takes no compiled route away and
is of no account to routes without its pools. A chain takes away the routes that bridge to it and
leaves the others as they were.
-/
namespace SwapCalldata

namespace Registry

variable {κ ε : Type} [Constructor κ ε] {registry next : Registry κ} {family : PoolFamily}
  {encoder : κ} {pool : Pool}

/-- A registry resolves all that another resolves, and to the same encoders. -/
structure Extends (next registry : Registry κ) : Prop where
  entryPoint : next.entryPoint = registry.entryPoint
  resolve : ∀ pool found, registry.resolve pool = .ok found → next.resolve pool = .ok found

theorem mem_families_of_resolve {found : ε} (h : registry.resolve pool = .ok found) :
    pool.family ∈ registry.families := by
  rw [mem_families_iff]
  intro hnone
  unfold resolve at h
  rw [hnone] at h
  cases h

theorem resolve_of_register (h : registry.register family encoder = .ok next)
    (hfamily : pool.family ≠ family) : next.resolve pool = registry.resolve pool := by
  obtain ⟨hnew, rfl⟩ := register_eq_ok_iff.mp h
  rw [resolve_extend_singleton hnew, if_neg hfamily]

theorem entryPoint_of_register (h : registry.register family encoder = .ok next) :
    next.entryPoint = registry.entryPoint := by
  obtain ⟨_, rfl⟩ := register_eq_ok_iff.mp h
  rfl

/-- What resolves is of a known family, so a new one does not touch it. -/
theorem extends_of_register (h : registry.register family encoder = .ok next) :
    next.Extends registry := by
  refine ⟨entryPoint_of_register h, fun pool found hresolve => ?_⟩
  have hnew := (register_eq_ok_iff.mp h).1
  have hknown := mem_families_of_resolve hresolve
  rwa [resolve_of_register h fun hfamily => hnew (hfamily ▸ hknown)]

end Registry

namespace EncoderCache

variable {κ ε : Type} [Constructor κ ε] [Encoding ε] {cache : EncoderCache ε}
  {registry next : Registry κ} {pool : Pool}

theorem resolve_congr (h : next.resolve pool = registry.resolve pool) :
    cache.resolve next pool = cache.resolve registry pool := by
  unfold resolve
  rw [h]

/-- A cache that finds a pool does not ask the registry, and else the registry resolves it. -/
theorem resolve_of_extends (h : next.Extends registry) {result : ε × EncoderCache ε}
    (hresolve : cache.resolve registry pool = .ok result) :
    cache.resolve next pool = .ok result := by
  unfold resolve at hresolve ⊢
  cases hfind : cache.find? pool.address with
  | some encoder =>
    -- Neither registry is asked.
    rw [hfind] at hresolve
    exact hresolve
  | none =>
    rw [hfind] at hresolve
    obtain ⟨found, hfound, rfl⟩ := Outcome.map_eq_ok_iff.mp hresolve
    exact Outcome.map_eq_ok_iff.mpr ⟨found, h.resolve pool found hfound, rfl⟩

end EncoderCache

namespace Compiler

/-- The compiler with another registry and the same slippage. -/
def withRegistry {κ : Type} (compiler : Compiler κ) (registry : Registry κ) : Compiler κ :=
  { compiler with registry := registry }

section

variable {κ ε : Type} [Constructor κ ε] [Encoding ε] {registry next : Registry κ}
  {compiler : Compiler κ} {route : Route} {revision : Revision} {recipient receiver : Address}
  {progress done : Progress ε} {leg : Leg} {legs : List Leg} {compiled : CompiledRoute}

/-- A step asks the registry for nothing but the encoder of its leg's pool. -/
theorem encodeLeg_congr (h : progress.cache.resolve next leg.pool =
    progress.cache.resolve registry leg.pool) :
    encodeLeg next route revision progress leg receiver =
      encodeLeg registry route revision progress leg receiver := by
  unfold encodeLeg
  rw [h]

theorem encodeLeg_of_extends (h : next.Extends registry)
    (hok : encodeLeg registry route revision progress leg receiver = .ok done) :
    encodeLeg next route revision progress leg receiver = .ok done := by
  obtain ⟨result, hresult, _⟩ := Outcome.bind_eq_ok_iff.mp hok
  have hresolve := Outcome.mapError_eq_ok_iff.mp hresult
  rw [encodeLeg_congr ((EncoderCache.resolve_of_extends h hresolve).trans hresolve.symm), hok]

theorem receiver_congr (h : next.entryPoint = registry.entryPoint) (rest : List Leg) :
    next.receiver recipient leg rest = registry.receiver recipient leg rest := by
  unfold Registry.receiver
  rw [h]

/-- Registries that resolve the pools of all legs alike lead to the same outcome. -/
theorem encodeLegs_congr (hentryPoint : next.entryPoint = registry.entryPoint)
    (h : ∀ leg ∈ legs, next.resolve leg.pool = registry.resolve leg.pool) :
    encodeLegs next route revision recipient progress legs =
      encodeLegs registry route revision recipient progress legs := by
  induction legs generalizing progress with
  | nil => rfl
  | cons leg rest ih =>
    obtain ⟨hleg, hrest⟩ := List.forall_mem_cons.mp h
    rw [encodeLegs_cons, encodeLegs_cons, receiver_congr hentryPoint,
      encodeLeg_congr (EncoderCache.resolve_congr hleg)]
    exact bind_congr fun _ => ih hrest

/-- In a run that succeeds every step had its encoder, and the larger registry has it as well. -/
theorem encodeLegs_of_extends (h : next.Extends registry)
    (hok : encodeLegs registry route revision recipient progress legs = .ok done) :
    encodeLegs next route revision recipient progress legs = .ok done := by
  induction legs generalizing progress with
  | nil => exact hok
  | cons leg rest ih =>
    rw [encodeLegs_cons, Outcome.bind_eq_ok_iff] at hok ⊢
    obtain ⟨first, hfirst, hrest⟩ := hok
    refine ⟨first, ?_, ih hrest⟩
    rw [receiver_congr h.entryPoint]
    exact encodeLeg_of_extends h hfirst

theorem compile_withRegistry_congr (hentryPoint : next.entryPoint = compiler.registry.entryPoint)
    (h : encodeLegs next route revision recipient Progress.start route.legs =
      encodeLegs compiler.registry route revision recipient Progress.start route.legs) :
    (compiler.withRegistry next).compile route revision recipient =
      compiler.compile route revision recipient := by
  unfold compile withRegistry
  rw [h, hentryPoint]

theorem exists_encodeLegs_of_compile
    (h : compiler.compile route revision recipient = .ok compiled) :
    ∃ done, encodeLegs compiler.registry route revision recipient Progress.start route.legs =
      .ok done := by
  unfold compile at h
  split at h
  · cases h
  split at h
  · cases h
  obtain ⟨done, hdone, _⟩ := Outcome.bind_eq_ok_iff.mp h
  exact ⟨done, hdone⟩

theorem compile_withRegistry_of_extends (hextends : next.Extends compiler.registry)
    (h : compiler.compile route revision recipient = .ok compiled) :
    (compiler.withRegistry next).compile route revision recipient = .ok compiled := by
  obtain ⟨done, hdone⟩ := exists_encodeLegs_of_compile h
  rw [compile_withRegistry_congr hextends.entryPoint
    ((encodeLegs_of_extends hextends hdone).trans hdone.symm), h]

theorem compile_withRegistry_of_register {family : PoolFamily} {encoder : κ}
    (h : compiler.registry.register family encoder = .ok next)
    (helsewhere : ∀ leg ∈ route.legs, leg.pool.family ≠ family) :
    (compiler.withRegistry next).compile route revision recipient =
      compiler.compile route revision recipient :=
  compile_withRegistry_congr (Registry.entryPoint_of_register h)
    (encodeLegs_congr (Registry.entryPoint_of_register h) fun leg hleg =>
      Registry.resolve_of_register h (helsewhere leg hleg))

end

end Compiler

theorem Leg.exists_of_instructionAt_eq_bridge {leg : Leg} {revision : Revision} {receiver : Address}
    {source target : Nat} {swap : Swap} {destination : UInt32}
    (h : leg.instructionAt revision receiver source target = .bridge swap destination) :
    ∃ chainId, leg.pool.kind = .bridge chainId ∧ destination = chainId.toUInt32 := by
  unfold instructionAt at h
  split at h
  case h_5 chainId hkind =>
    cases h
    exact ⟨chainId, hkind, rfl⟩
  all_goals cases h

namespace Registry

variable {registry : Registry} {revision : Revision} {recipient : Address} {chainId : UInt64}

/-- A chain excludes the bridges to it, and no other pool. -/
theorem serves_withChain_iff (hfree : registry.chainId = none) {pool : Pool} :
    (registry.withChain chainId).Serves pool ↔
      registry.Serves pool ∧ pool.kind ≠ .bridge chainId := by
  constructor
  · rintro ⟨hown, hleast, hmost, hreach⟩
    refine ⟨⟨hown, hleast, hmost, fun destination hkind => ⟨(hreach destination hkind).1, ?_⟩⟩, ?_⟩
    · rw [hfree]
      exact (Option.some_ne_none destination).symm
    · intro hkind
      exact (hreach chainId hkind).2 rfl
  · rintro ⟨⟨hown, hleast, hmost, hreach⟩, hother⟩
    refine ⟨hown, hleast, hmost, fun destination hkind => ⟨(hreach destination hkind).1, ?_⟩⟩
    intro hsame
    exact hother (hkind.trans (congrArg PoolKind.bridge (Option.some.inj hsame).symm))

theorem instruct_withChain_eq_ok_iff (hfree : registry.chainId = none) {leg : Leg}
    {receiver : Address} {instruction : Instruction} :
    (registry.withChain chainId).instruct revision leg receiver = .ok instruction ↔
      registry.instruct revision leg receiver = .ok instruction ∧
        leg.pool.kind ≠ .bridge chainId := by
  rw [instruct_eq_ok_iff, instruct_eq_ok_iff, serves_withChain_iff hfree]
  tauto

theorem instructions_withChain_eq_ok_iff (hfree : registry.chainId = none) {seen : List Pool}
    {legs : List Leg} {instructions : List Instruction} :
    (registry.withChain chainId).instructions revision recipient seen legs = .ok instructions ↔
      registry.instructions revision recipient seen legs = .ok instructions ∧
        ∀ leg ∈ legs, leg.pool.kind ≠ .bridge chainId := by
  induction legs generalizing seen instructions with
  | nil => simp [Registry.instructions]
  | cons leg rest ih =>
    rw [instructions_cons_eq_ok_iff, instructions_cons_eq_ok_iff, List.forall_mem_cons]
    have hreceiver : (registry.withChain chainId).receiver recipient leg rest =
        registry.receiver recipient leg rest := rfl
    simp only [hreceiver, instruct_withChain_eq_ok_iff hfree, ih]
    tauto

end Registry

namespace Compiler

variable {compiler : Compiler} {route : Route} {revision : Revision} {recipient : Address}
  {compiled : CompiledRoute} {chainId : UInt64}

/-- A compiler bound to a chain compiles what it compiled before but for the routes that bridge to
the chain, and to the same. -/
theorem compile_withChain_eq_ok_iff (hfree : compiler.registry.chainId = none) :
    (compiler.withRegistry (compiler.registry.withChain chainId)).compile route revision recipient =
        .ok compiled ↔
      compiler.compile route revision recipient = .ok compiled ∧
        ∀ leg ∈ route.legs, leg.pool.kind ≠ .bridge chainId := by
  rw [compile_eq_ok_iff, compile_eq_ok_iff]
  constructor
  · rintro ⟨hviable, hlegs, instructions, hok, rfl⟩
    obtain ⟨hunbound, hother⟩ := (Registry.instructions_withChain_eq_ok_iff hfree).mp hok
    exact ⟨⟨hviable, hlegs, instructions, hunbound, rfl⟩, hother⟩
  · rintro ⟨⟨hviable, hlegs, instructions, hok, rfl⟩, hother⟩
    exact ⟨hviable, hlegs, instructions,
      (Registry.instructions_withChain_eq_ok_iff hfree).mpr ⟨hok, hother⟩, rfl⟩

/-- A bridge instruction in a payload comes from a leg through a bridge, and not to the chain that
the compiler is bound to. -/
theorem exists_of_legBytes?_eq_bridge {k : Nat} {swap : Swap} {destination : UInt32}
    (h : compiler.compile route revision recipient = .ok compiled)
    (hbytes : compiled.legBytes? k = some (Instruction.bridge swap destination).bytes) :
    ∃ leg target, route.legs[k]? = some leg ∧ leg.pool.kind = .bridge target ∧
      destination.toNat = target.toNat ∧ compiler.registry.chainId ≠ some target := by
  obtain ⟨instructions, rfl, hlength, hlegs⟩ := exists_instructions h
  rw [legBytes?_assemble hlength, Option.map_eq_some_iff] at hbytes
  obtain ⟨instruction, hinstruction, hsame⟩ := hbytes
  obtain ⟨rfl, _⟩ := Instruction.bytes_append_inj (congrArg (· ++ []) hsame)
  obtain ⟨hk, _⟩ := List.getElem?_eq_some_iff.mp hinstruction
  have hleg := List.getElem?_eq_getElem (hlength ▸ hk)
  obtain ⟨found, hfound, hinstruct⟩ := hlegs k _ hleg
  obtain rfl := Option.some.inj (hfound.symm.trans hinstruction)
  obtain ⟨hserves, _, _, i, j, _, heq⟩ := Registry.instruct_eq_ok_iff.mp hinstruct
  obtain ⟨target, hkind, rfl⟩ := Leg.exists_of_instructionAt_eq_bridge heq.symm
  exact ⟨_, target, hleg, hkind, hserves.shape.toNat_destination hkind,
    (hserves.shape.reach target hkind).2⟩

theorem kind_ne_bridge_of_compile (hchain : compiler.registry.chainId = some chainId)
    (h : compiler.compile route revision recipient = .ok compiled) :
    ∀ leg ∈ route.legs, leg.pool.kind ≠ .bridge chainId := by
  intro leg hleg hkind
  obtain ⟨_, _, haccepts, _⟩ := exists_compile_iff_pairwise.mp ⟨compiled, h⟩
  exact ((haccepts leg hleg).serves.shape.reach chainId hkind).2 hchain

theorem chainId_of_ofConfig {config : Config} (h : ofConfig config = .ok compiler) :
    compiler.registry.chainId = some config.chainId := by
  unfold ofConfig withSlippage at h
  split at h
  · obtain rfl := Except.ok.inj h
    rfl
  · cases h

/-- What a compiler keeps when its registry grows by a family. -/
structure Keeps {κ ε : Type} [Constructor κ ε] [Encoding ε] (compiler : Compiler κ)
    (family : PoolFamily) (next : Registry κ) : Prop where
  compiled : ∀ route revision recipient compiled,
    compiler.compile route revision recipient = .ok compiled →
    (compiler.withRegistry next).compile route revision recipient = .ok compiled
  elsewhere : ∀ route revision recipient, (∀ leg ∈ route.legs, leg.pool.family ≠ family) →
    (compiler.withRegistry next).compile route revision recipient =
      compiler.compile route revision recipient

/-- Growing is conservative. A new family can be registered with any constructor at all, compiled
routes stay as they are, and so does the outcome of every route without a pool of the family. A
chain for an unbound compiler refuses exactly the routes that bridge to it and changes no other, so
the compiler of a deployment emits no bridge instruction to its own chain. -/
theorem compile_conservative :
    (∀ (κ ε : Type) [Constructor κ ε] [Encoding ε] (compiler : Compiler κ) (family : PoolFamily)
      (encoder : κ), family ∉ compiler.registry.families →
      ∃ next, compiler.registry.register family encoder = .ok next ∧
        compiler.Keeps family next) ∧
    (∀ (compiler : Compiler) (chainId : UInt64), compiler.registry.chainId = none →
      ∀ route revision recipient compiled,
        (compiler.withRegistry (compiler.registry.withChain chainId)).compile route revision
            recipient = .ok compiled ↔
          compiler.compile route revision recipient = .ok compiled ∧
            ∀ leg ∈ route.legs, leg.pool.kind ≠ .bridge chainId) ∧
    (∀ config compiler, ofConfig config = .ok compiler →
      ∀ route revision recipient compiled,
        compiler.compile route revision recipient = .ok compiled →
        (∀ leg ∈ route.legs, leg.pool.kind ≠ .bridge config.chainId) ∧
        ∀ k swap destination,
          compiled.legBytes? k = some (Instruction.bridge swap destination).bytes →
          destination.toNat ≠ config.chainId.toNat) := by
  refine ⟨?_, fun _ _ hfree _ _ _ _ => compile_withChain_eq_ok_iff hfree, ?_⟩
  · intro κ ε _ _ compiler family encoder hnew
    have hregister := Registry.register_of_notMem hnew encoder
    refine ⟨_, hregister, ?_, ?_⟩
    · exact fun _ _ _ _ => compile_withRegistry_of_extends (Registry.extends_of_register hregister)
    · exact fun _ _ _ => compile_withRegistry_of_register hregister
  · intro config compiler hconfig route revision recipient compiled hcompile
    have hchain := chainId_of_ofConfig hconfig
    refine ⟨kind_ne_bridge_of_compile hchain hcompile, ?_⟩
    intro k swap destination hbytes hsame
    obtain ⟨leg, target, _, _, hdestination, hother⟩ :=
      exists_of_legBytes?_eq_bridge hcompile hbytes
    rw [hchain] at hother
    exact hother (congrArg some (UInt64.toNat_inj.mp (hsame.symm.trans hdestination)))

end Compiler

namespace Sample

/-- A compiler that serves no constant-product pools. -/
def narrowCompiler : Compiler := .ofRegistry
  ⟨address 0xEE, some 1, fun family => if family = .constantProduct then none else some family⟩

theorem compile_narrowCompiler :
    narrowCompiler.compile route .v2 (address 0xAA) = .ok compiled := by
  decide +kernel

def config : Config := ⟨address 0xEE, .v2, 50, 1⟩

end Sample

theorem Compiler.compile_conservative_route :
    (∃ next, Sample.narrowCompiler.registry.register .constantProduct .constantProduct = .ok next ∧
      (Sample.narrowCompiler.withRegistry next).compile Sample.route .v2 (Sample.address 0xAA) =
        .ok Sample.compiled) ∧
    (Compiler.ofRegistry (Registry.standard (Sample.address 0xEE))).compile Sample.route .v2
      (Sample.address 0xAA) = .ok Sample.compiled ∧
    Compiler.ofConfig Sample.config = .ok Sample.compiler ∧
    ∀ leg ∈ Sample.route.legs, leg.pool.kind ≠ .bridge Sample.config.chainId := by
  obtain ⟨hgrow, hbind, hconfig⟩ := compile_conservative
  have hnew : PoolFamily.constantProduct ∉ Sample.narrowCompiler.registry.families := by decide
  obtain ⟨next, hnext, hkeeps⟩ := hgrow _ _ _ _ .constantProduct hnew
  have hbound := (hbind (.ofRegistry (Registry.standard (Sample.address 0xEE))) 1 rfl _ _ _ _).mp
    Sample.compile_route
  have hown : Compiler.ofConfig Sample.config = .ok Sample.compiler := rfl
  exact ⟨⟨next, hnext, hkeeps.compiled _ _ _ _ Sample.compile_narrowCompiler⟩, hbound.1, hown,
    (hconfig _ _ hown _ _ _ _ Sample.compile_route).1⟩

end SwapCalldata
