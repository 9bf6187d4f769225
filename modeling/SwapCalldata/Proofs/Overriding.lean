import SwapCalldata.Proofs.Refusal
import SwapCalldata.Proofs.WireFaults

/-!
Entries of a route form that describe one pool. Of the entries at an address only the last is heard,
so the legs at an address all trade through one pool, and a route that comes from a form is never
refused for conflicting descriptions of a pool.
-/
namespace SwapCalldata

instance (a b : String) : Decidable (Address.SameSpelling a b) :=
  inferInstanceAs (Decidable ((Address.parse a).toOption = (Address.parse b).toOption))

theorem Address.SameSpelling.parse_eq_ok {a b : String} {address : Address}
    (h : Address.SameSpelling a b) (hb : parse b = .ok address) : parse a = .ok address := by
  unfold SameSpelling at h
  rw [hb] at h
  cases ha : parse a with
  | error fault =>
    rw [ha] at h
    cases h
  | ok other =>
    rw [ha] at h
    exact congrArg Except.ok (Option.some.inj h)

namespace WirePool

/-- The entries without those that a later one at the same address overrides. -/
def lastEntries : List WirePool → List WirePool
  | [] => []
  | entry :: rest =>
    if ∃ later ∈ rest, Address.SameSpelling later.address entry.address then lastEntries rest
    else entry :: lastEntries rest

theorem lastEntries_subset (entries : List WirePool) : lastEntries entries ⊆ entries := by
  induction entries with
  | nil => exact List.Subset.refl []
  | cons entry rest ih =>
    unfold lastEntries
    split
    · exact List.subset_cons_of_subset entry ih
    · exact List.cons_subset_cons entry ih

/-- Every address is kept. -/
theorem exists_mem_lastEntries {entries : List WirePool} {entry : WirePool}
    (h : entry ∈ entries) :
    ∃ kept ∈ lastEntries entries, Address.SameSpelling kept.address entry.address := by
  induction entries generalizing entry with
  | nil => cases h
  | cons first rest ih =>
    unfold lastEntries
    split
    next hoverridden =>
      rcases List.mem_cons.mp h with rfl | hrest
      · obtain ⟨later, hlater, hsame⟩ := hoverridden
        obtain ⟨kept, hkept, hkept'⟩ := ih hlater
        exact ⟨kept, hkept, hkept'.trans hsame⟩
      · exact ih hrest
    next =>
      rcases List.mem_cons.mp h with rfl | hrest
      · exact ⟨entry, List.mem_cons_self, rfl⟩
      · obtain ⟨kept, hkept, hsame⟩ := ih hrest
        exact ⟨kept, List.mem_cons_of_mem first hkept, hsame⟩

theorem pairwise_lastEntries (entries : List WirePool) : (lastEntries entries).Pairwise
    fun earlier later => ¬Address.SameSpelling later.address earlier.address := by
  induction entries with
  | nil => exact List.Pairwise.nil
  | cons entry rest ih =>
    unfold lastEntries
    split
    next => exact ih
    next hlast =>
      refine List.pairwise_cons.mpr ⟨fun later hlater hsame => ?_, ih⟩
      exact hlast ⟨later, lastEntries_subset rest hlater, hsame⟩

theorem lastAt_cons_iff {entry first : WirePool} {rest : List WirePool} {address : Address} :
    entry.LastAt (first :: rest) address ↔ entry.LastAt rest address ∨
      entry = first ∧ Address.parse entry.address = .ok address ∧
        ∀ later ∈ rest, Address.parse later.address ≠ .ok address := by
  unfold LastAt
  constructor
  · rintro ⟨before, after, hsplit, hentry⟩
    rcases List.cons_eq_append_iff.mp hsplit with ⟨rfl, hcons⟩ | ⟨before', rfl, hrest⟩
    · obtain ⟨rfl, rfl⟩ := List.cons.inj hcons
      exact Or.inr ⟨rfl, hentry⟩
    · exact Or.inl ⟨before', after, hrest, hentry⟩
  · rintro (⟨before, after, rfl, hentry⟩ | ⟨rfl, hentry⟩)
    · exact ⟨first :: before, after, rfl, hentry⟩
    · exact ⟨[], rest, rfl, hentry⟩

/-- The entries that are left out are not the last ones at any address. -/
theorem lastAt_lastEntries_iff {entry : WirePool} {entries : List WirePool} {address : Address} :
    entry.LastAt (lastEntries entries) address ↔ entry.LastAt entries address := by
  induction entries with
  | nil => rfl
  | cons first rest ih =>
    unfold lastEntries
    rw [lastAt_cons_iff]
    split
    next hoverridden =>
      rw [ih]
      refine (or_iff_left ?_).symm
      rintro ⟨rfl, haddress, hlast⟩
      obtain ⟨later, hlater, hsame⟩ := hoverridden
      exact hlast later hlater (hsame.parse_eq_ok haddress)
    next =>
      have hlater : (∀ later ∈ lastEntries rest, Address.parse later.address ≠ .ok address) ↔
          ∀ later ∈ rest, Address.parse later.address ≠ .ok address := by
        constructor
        · intro hkept later hmem hat
          obtain ⟨kept, hkept', hsame⟩ := exists_mem_lastEntries hmem
          exact hkept kept hkept' (hsame.parse_eq_ok hat)
        · exact fun hrest later hmem => hrest later (lastEntries_subset rest hmem)
      rw [lastAt_cons_iff, ih, hlater]

theorem wellFormed_iff {entry : WirePool} : entry.WellFormed ↔ ∃ pool, entry.Means pool := by
  rw [← faults_eq_nil_iff, ← entry.reports_toPool.exists_ok_iff]
  exact exists_congr fun _ => toPool_eq_ok_iff

end WirePool

namespace WireRoute

/-- The form with the last entry at each address only. -/
def lastOnly (wire : WireRoute) : WireRoute :=
  { wire with pools := WirePool.lastEntries wire.pools }

/-- Compiles the route that a form stands for. -/
def compile (wire : WireRoute) (compiler : Compiler) (revision : Revision) (recipient : Address) :
    Except Failure CompiledRoute := do
  let route ← wire.toRoute
  compiler.compile route revision recipient

variable {wire : WireRoute} {route : Route}

theorem means_lastOnly_iff : wire.Means route ↔
    (∀ entry ∈ wire.pools, entry.WellFormed) ∧ wire.lastOnly.Means route := by
  have hlegs : List.Forall₂ (fun leg converted => leg.Means wire.pools converted)
        wire.legs route.legs ↔
      List.Forall₂ (fun leg converted => leg.Means wire.lastOnly.pools converted)
        wire.legs route.legs := by
    have hpool (leg : WireLeg) (converted : Leg) : leg.Means wire.pools converted ↔
        leg.Means wire.lastOnly.pools converted := by
      constructor
      · rintro ⟨⟨address, haddress, entry, hlast, hmeans⟩, hfrom, hto, hpart⟩
        exact ⟨⟨address, haddress, entry, WirePool.lastAt_lastEntries_iff.mpr hlast, hmeans⟩,
          hfrom, hto, hpart⟩
      · rintro ⟨⟨address, haddress, entry, hlast, hmeans⟩, hfrom, hto, hpart⟩
        exact ⟨⟨address, haddress, entry, WirePool.lastAt_lastEntries_iff.mp hlast, hmeans⟩,
          hfrom, hto, hpart⟩
    simp only [hpool]
  constructor
  · rintro ⟨hpools, hstatus, hlegs', hin, hout, hamountIn, hamountOut⟩
    refine ⟨fun entry hentry => WirePool.wellFormed_iff.mpr (hpools entry hentry), ?_⟩
    exact ⟨fun entry hentry => hpools entry (WirePool.lastEntries_subset _ hentry), hstatus,
      hlegs.mp hlegs', hin, hout, hamountIn, hamountOut⟩
  · rintro ⟨hformed, _, hstatus, hlegs', hin, hout, hamountIn, hamountOut⟩
    exact ⟨fun entry hentry => WirePool.wellFormed_iff.mp (hformed entry hentry), hstatus,
      hlegs.mpr hlegs', hin, hout, hamountIn, hamountOut⟩

/-- Legs at one address trade through one pool. -/
theorem Means.pool_eq_of_address_eq (h : wire.Means route) {a b : Leg} (ha : a ∈ route.legs)
    (hb : b ∈ route.legs) (haddress : a.pool.address = b.pool.address) : a.pool = b.pool := by
  obtain ⟨pools, hpools⟩ := Outcome.exists_forall₂_iff.mpr h.pools
  have hlookup {leg : Leg} (hleg : leg ∈ route.legs) :
      lastPoolAt? pools leg.pool.address = some leg.pool := by
    obtain ⟨form, _, hform⟩ := Outcome.exists_of_forall₂_mem h.legs.flip hleg
    obtain ⟨address, _, entry, hlast, hmeans⟩ := hform.pool
    have hat : leg.pool.address = address := by
      obtain ⟨_, _, _, hparse, _⟩ := hlast
      exact Except.ok.inj (hmeans.address.symm.trans hparse)
    exact (lastPoolAt?_eq_some_iff_of_means hpools).mpr ⟨entry, hat ▸ hlast, hmeans⟩
  have hboth := hlookup ha
  rw [haddress, hlookup hb] at hboth
  exact (Option.some.inj hboth).symm

theorem ne_registry_of_mem_faults {failure : Failure} (h : failure ∈ wire.faults)
    (error : RegistryError) : failure ≠ .registry error := by
  rintro rfl
  have hleg (leg : WireLeg) : Failure.registry error ∉ leg.faults wire.pools := by
    unfold WireLeg.faults WireLeg.nameFaults
    intro hmem
    simp only [List.mem_append, List.mem_map, reduceCtorEq, and_false, exists_false,
      false_or] at hmem
    rcases hmem with hname | hfraction
    · split at hname <;> try split at hname
      all_goals simp at hname
    · split at hfraction <;> simp at hfraction
  unfold faults at h
  simp only [List.mem_append, List.mem_flatMap, List.mem_map, reduceCtorEq, and_false,
    exists_false, or_false, false_or] at h
  obtain ⟨leg, _, hfault⟩ := h
  exact hleg leg hfault

end WireRoute

namespace Registry

variable {registry : Registry} {revision : Revision} {recipient : Address}

theorem fault?_ne_conflictingPool {leg : Leg} {address : Address} :
    registry.fault? revision leg ≠ some (.registry (.conflictingPool address)) := by
  unfold fault? poolFault?
  intro h
  split at h
  next hfault =>
    obtain rfl := Failure.registry.inj (Option.some.inj h)
    split at hfault
    · cases hfault
    · split at hfault <;> cases hfault
  next =>
    obtain ⟨_, _, hmatch⟩ := Option.map_eq_some_iff.mp h
    cases hmatch

/-- Legs that share the pool at an address are not refused for conflicting descriptions of it. A
pool whose fee is no number is refused at its first leg. -/
theorem instructions_ne_conflictingPool {legs : List Leg} {address : Address}
    (hsame : ∀ a ∈ legs, ∀ b ∈ legs, a.pool.address = b.pool.address → a.pool = b.pool) :
    registry.instructions revision recipient [] legs ≠
      .error (.registry (.conflictingPool address)) := by
  intro herror
  obtain ⟨k, leg, hleg, ⟨instructions, hok⟩, hfault⟩ := instructions_eq_error_iff.mp herror
  have hfree (other : Pool) (hother : other ∈ [] ++ (legs.take k).map Leg.pool) :
      other.conflicts leg.pool = false := by
    rw [List.nil_append] at hother
    obtain ⟨earlier, hearlier, rfl⟩ := List.mem_map.mp hother
    rw [Pool.conflicts_eq_false_iff]
    intro haddress
    obtain ⟨i, hi⟩ := List.getElem?_of_mem hearlier
    obtain ⟨haccepts, _⟩ := exists_instructions_iff.mp ⟨instructions, hok⟩ i earlier hi
    rw [← hsame earlier (List.mem_of_mem_take hearlier) leg (List.mem_of_getElem? hleg) haddress]
    exact earlier.pool.agrees_self_iff.mpr haccepts.fee
  rw [faultAfter?_of_free hfree] at hfault
  exact fault?_ne_conflictingPool hfault

end Registry

/-- Compiling a form does not see the entries that a later one at the same address overrides, as
long as they are well-formed. Descriptions of one pool that differ are therefore never refused. -/
theorem WireRoute.compile_overridden (wire : WireRoute) (compiler : Compiler) (revision : Revision)
    (recipient : Address) :
    (wire.lastOnly.pools.Pairwise fun earlier later =>
      ¬Address.SameSpelling later.address earlier.address) ∧
    (∀ compiled, wire.compile compiler revision recipient = .ok compiled ↔
      (∀ entry ∈ wire.pools, entry.WellFormed) ∧
        wire.lastOnly.compile compiler revision recipient = .ok compiled) ∧
    (∀ address, wire.compile compiler revision recipient ≠
      .error (.registry (.conflictingPool address))) := by
  refine ⟨WirePool.pairwise_lastEntries wire.pools, fun compiled => ?_, fun address herror => ?_⟩
  · unfold compile
    simp only [Outcome.bind_eq_ok_iff, toRoute_eq_ok_iff]
    constructor
    · rintro ⟨route, hmeans, hcompiled⟩
      obtain ⟨hformed, hlast⟩ := means_lastOnly_iff.mp hmeans
      exact ⟨hformed, route, hlast, hcompiled⟩
    · rintro ⟨hformed, route, hlast, hcompiled⟩
      exact ⟨route, means_lastOnly_iff.mpr ⟨hformed, hlast⟩, hcompiled⟩
  · rcases Outcome.bind_eq_error_iff.mp herror with hfault | ⟨route, hroute, hrefused⟩
    · have hhead := (wire.reports_toRoute _).mp hfault
      exact ne_registry_of_mem_faults (List.mem_of_head? hhead) _ rfl
    · have hmeans := toRoute_eq_ok_iff.mp hroute
      rw [Compiler.compile_eq] at hrefused
      split at hrefused
      · cases hrefused
      · split at hrefused
        · cases hrefused
        · refine Registry.instructions_ne_conflictingPool (fun a ha b hb => ?_)
            (Outcome.map_eq_error_iff.mp hrefused)
          exact hmeans.pool_eq_of_address_eq ha hb

namespace Sample

theorem toPool_stableEntry : (stableEntry (some Double.one)).toPool = .ok (stablePool Double.one) ∧
    (stableEntry none).toPool = .ok (stablePool Double.zero) := by
  decide +kernel

theorem exists_compile_convertedRoute :
    ∃ compiled, compiler.compile convertedRoute .v2 (address 0xAA) = .ok compiled := by
  have hok : (compiler.compile convertedRoute .v2 (address 0xAA)).isOk = true := by
    decide +kernel
  cases hresult : compiler.compile convertedRoute .v2 (address 0xAA) with
  | error failure =>
    rw [hresult] at hok
    cases hok
  | ok compiled => exact ⟨compiled, rfl⟩

end Sample

/-- The first and the last entry of this form describe one pool with different fees, its first leg
names this pool, and the form compiles. -/
theorem WireRoute.compile_wireRoute_conflicting :
    ∃ first last compiled,
      Sample.wireRoute.pools[0]? = some first ∧ Sample.wireRoute.pools[2]? = some last ∧
      first.toPool = .ok (Sample.stablePool Double.one) ∧
      last.toPool = .ok (Sample.stablePool Double.zero) ∧
      (Sample.stablePool Double.one).agrees (Sample.stablePool Double.zero) = false ∧
      (Sample.wireRoute.legs[0]?.map fun leg => Address.parse leg.pool) =
        some (.ok (Sample.address 0x51)) ∧
      Sample.wireRoute.compile Sample.compiler .v2 (Sample.address 0xAA) = .ok compiled := by
  obtain ⟨hfirst, hlast⟩ := Sample.toPool_stableEntry
  obtain ⟨compiled, hcompiled⟩ := Sample.exists_compile_convertedRoute
  refine ⟨_, _, compiled, rfl, rfl, hfirst, hlast, by decide, by decide +kernel, ?_⟩
  exact Outcome.bind_eq_ok_iff.mpr ⟨_, Sample.toRoute_wireRoute, hcompiled⟩

end SwapCalldata
