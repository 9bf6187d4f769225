import SwapCalldata.Proofs.LegInstruction

/-!
The encoder cache against the pools that were resolved through it. A hit serves a pool that agrees
with the one at its address, a miss resolves the pool afresh, and either way a leg gets the
instruction that an encoder resolved for its own pool gives.
-/
namespace SwapCalldata

namespace EncoderCache

variable {registry : Registry} {cache : EncoderCache} {seen : List Pool} {pool : Pool}

/-- The cache after a pool was asked for, unchanged where the pool is refused. -/
def after (cache : EncoderCache) (registry : Registry) (pool : Pool) : EncoderCache :=
  match cache.resolve registry pool with
  | .ok (_, next) => next
  | .error _ => cache

/-- Every encoder was resolved for a pool seen at its address, and it serves all seen there. -/
structure Covers (cache : EncoderCache) (registry : Registry) (seen : List Pool) : Prop where
  origin : ∀ address encoder, cache.find? address = some encoder →
    ∃ pool ∈ seen, pool.address = address ∧ registry.resolve pool = .ok encoder
  known : ∀ pool ∈ seen, ∃ encoder, cache.find? pool.address = some encoder ∧
    encoder.pool.agrees pool = true

theorem covers_empty (registry : Registry) : empty.Covers registry [] :=
  ⟨fun _ _ h => (by cases h), fun _ h => (by cases h)⟩

theorem pool_of_resolve {encoder : PoolEncoder} (h : registry.resolve pool = .ok encoder) :
    encoder.pool = pool := by
  obtain ⟨_, rfl⟩ := Registry.resolve_eq_ok_iff.mp h
  rfl

/-- A pool at a known address agrees with the encoder there or conflicts with a pool seen before. -/
theorem Covers.agrees_iff (h : cache.Covers registry seen) {encoder : PoolEncoder}
    (hhit : cache.find? pool.address = some encoder) :
    encoder.pool.agrees pool = true ↔ ∀ other ∈ seen, other.conflicts pool = false := by
  obtain ⟨origin, horigin, haddress, hresolve⟩ := h.origin _ _ hhit
  rw [pool_of_resolve hresolve]
  constructor
  · intro hagrees other hother
    rw [Pool.conflicts_eq_false_iff]
    intro hsame
    obtain ⟨found, hfound, hserves⟩ := h.known other hother
    rw [hsame, hhit, Option.some.injEq] at hfound
    rw [← hfound, pool_of_resolve hresolve, Pool.agrees_comm] at hserves
    exact Pool.agrees_trans hserves hagrees
  · intro hfree
    exact Pool.conflicts_eq_false_iff.mp (hfree origin horigin) haddress

/-- No pool seen before stands at an address that the cache does not know. -/
theorem Covers.conflicts_eq_false_of_miss (h : cache.Covers registry seen)
    (hmiss : cache.find? pool.address = none) :
    ∀ other ∈ seen, other.conflicts pool = false := by
  intro other hother
  rw [Pool.conflicts_eq_false_iff]
  intro hsame
  obtain ⟨encoder, hfound, _⟩ := h.known other hother
  rw [hsame, hmiss] at hfound
  cases hfound

theorem resolve_of_hit {encoder : PoolEncoder} (hhit : cache.find? pool.address = some encoder)
    (hagrees : encoder.pool.agrees pool = true) :
    cache.resolve registry pool = .ok (encoder, cache) := by
  unfold resolve
  rw [hhit]
  exact if_pos hagrees

theorem resolve_of_mismatch {encoder : PoolEncoder}
    (hhit : cache.find? pool.address = some encoder)
    (hdisagrees : ¬encoder.pool.agrees pool = true) :
    cache.resolve registry pool = .error (.conflictingPool pool.address) := by
  unfold resolve
  rw [hhit]
  exact if_neg hdisagrees

theorem resolve_of_conflict (h : cache.Covers registry seen) {other : Pool} (hother : other ∈ seen)
    (hconflict : other.conflicts pool = true) :
    cache.resolve registry pool = .error (.conflictingPool pool.address) := by
  cases hfind : cache.find? pool.address with
  | none =>
    have hfree := h.conflicts_eq_false_of_miss hfind other hother
    rw [hconflict] at hfree
    cases hfree
  | some encoder =>
    refine resolve_of_mismatch hfind fun hagrees => ?_
    have hfree := (h.agrees_iff hfind).mp hagrees other hother
    rw [hconflict] at hfree
    cases hfree

/-- The cache with one more encoder. -/
def learn (cache : EncoderCache) (address : Address) (encoder : PoolEncoder) : EncoderCache :=
  ⟨(address, encoder) :: cache.encoders⟩

theorem find?_learn (cache : EncoderCache) (address other : Address) (encoder : PoolEncoder) :
    (cache.learn address encoder).find? other =
      if other = address then some encoder else cache.find? other := by
  unfold find? learn
  rw [List.lookup_cons]
  split <;> simp_all

theorem resolve_of_miss (hmiss : cache.find? pool.address = none) :
    cache.resolve registry pool = (registry.resolve pool).map fun encoder =>
      (encoder, cache.learn pool.address encoder) := by
  unfold resolve
  rw [hmiss]
  rfl

theorem Covers.learn (h : cache.Covers registry seen) (hmiss : cache.find? pool.address = none)
    (hserves : registry.Serves pool) (hfee : pool.FeeIsNumber) :
    (cache.learn pool.address (registry.encoderOf pool)).Covers registry (pool :: seen) := by
  constructor
  · intro address found hfound
    rw [find?_learn] at hfound
    split at hfound
    next heq =>
      cases hfound
      exact ⟨pool, List.mem_cons_self, heq.symm, Registry.resolve_eq_ok_iff.mpr ⟨hserves, rfl⟩⟩
    next =>
      obtain ⟨origin, horigin, heq⟩ := h.origin address found hfound
      exact ⟨origin, List.mem_cons_of_mem _ horigin, heq⟩
  · intro other hother
    rw [find?_learn]
    rcases List.mem_cons.mp hother with rfl | hother
    · exact ⟨_, if_pos rfl, (Pool.agrees_self_iff other).mpr hfee⟩
    · obtain ⟨encoder, hfound, hserved⟩ := h.known other hother
      have hne : other.address ≠ pool.address := by
        intro heq
        rw [heq, hmiss] at hfound
        cases hfound
      exact ⟨encoder, (if_neg hne).trans hfound, hserved⟩

theorem Covers.hit (h : cache.Covers registry seen) {encoder : PoolEncoder}
    (hhit : cache.find? pool.address = some encoder) (hagrees : encoder.pool.agrees pool = true) :
    cache.Covers registry (pool :: seen) := by
  constructor
  · intro address found hfound
    obtain ⟨origin, horigin, heq⟩ := h.origin address found hfound
    exact ⟨origin, List.mem_cons_of_mem _ horigin, heq⟩
  · intro other hother
    rcases List.mem_cons.mp hother with rfl | hother
    · exact ⟨encoder, hhit, hagrees⟩
    · exact h.known other hother

/-- What a compilation knows grows by a pool that is served, conflicts with none and has a fee that
is a number. -/
theorem Covers.after (h : cache.Covers registry seen) (hserves : registry.Serves pool)
    (hfee : pool.FeeIsNumber) (hfree : ∀ other ∈ seen, other.conflicts pool = false) :
    (cache.after registry pool).Covers registry (pool :: seen) := by
  unfold EncoderCache.after
  cases hfind : cache.find? pool.address with
  | some encoder =>
    have hagrees := (h.agrees_iff hfind).mpr hfree
    rw [resolve_of_hit hfind hagrees]
    exact h.hit hfind hagrees
  | none =>
    rw [resolve_of_miss hfind, Registry.resolve_eq_ok_iff.mpr ⟨hserves, rfl⟩]
    exact h.learn hfind hserves hfee

end EncoderCache

end SwapCalldata
