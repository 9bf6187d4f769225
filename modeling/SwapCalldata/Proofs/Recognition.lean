import SwapCalldata.Proofs.CacheRun
import SwapCalldata.Proofs.LegChecks

/-!
Pools that are met again. A pool is recognised, by the cache that served it and by its encoder,
exactly where its fee is a number. A pool whose fee is no number is resolved like any other, but it
agrees with nothing: asked for again it conflicts with itself, and its own legs are foreign to it.
-/
namespace SwapCalldata

namespace EncoderCache

variable {cache : EncoderCache} {registry : Registry} {pool : Pool} {encoder : PoolEncoder}

/-- A pool that got an encoder is known by this encoder from then on. -/
theorem find?_after_of_served (h : cache.answer registry pool = .ok encoder) :
    (cache.after registry pool).find? pool.address = some encoder := by
  have hrequest := request cache registry pool
  rw [h] at hrequest
  generalize hanswer : Except.ok encoder = answer at hrequest
  generalize cache.after registry pool = next at hrequest
  cases hrequest with
  | hit other known =>
    split at hanswer
    next => rw [known, Except.ok.inj hanswer]
    next => cases hanswer
  | refused error unknown fault => cases hanswer
  | learnt other unknown resolved =>
    rw [find?_learn, if_pos rfl, Except.ok.inj hanswer]

/-- The encoder that a pool got serves it again where the fee of the pool is a number. On a hit the
pool agreed with another one, so its fee is a number; on a miss the encoder has the pool itself. -/
theorem agrees_of_served (h : cache.answer registry pool = .ok encoder) :
    encoder.pool.agrees pool = true ↔ pool.FeeIsNumber := by
  rw [← Pool.agrees_self_iff]
  cases hfind : cache.find? pool.address with
  | some known =>
    have hanswer := (request cache registry pool).answer_of_hit hfind
    rw [h] at hanswer
    split at hanswer
    next hagrees =>
      obtain rfl := Except.ok.inj hanswer
      have hself := Pool.agrees_trans ((Pool.agrees_comm pool encoder.pool).trans hagrees) hagrees
      exact iff_of_true hagrees hself
    next => cases hanswer
  | none =>
    have hresolve := (request cache registry pool).answer_of_miss hfind
    rw [pool_of_resolve (hresolve.symm.trans h)]

/-- What a pool gets that was served before, whatever was asked for in between. -/
theorem answer_again (h : cache.answer registry pool = .ok encoder) (others : List Pool) :
    ((cache.after registry pool).afterAll registry others).answer registry pool =
      if encoder.pool.agrees pool then .ok encoder
      else .error (.conflictingPool pool.address) := by
  apply (request _ registry pool).answer_of_hit
  rw [find?_afterAll, find?_after_of_served h, Option.some_or]

end EncoderCache

/-- A leg through a pool between two different tokens of it. -/
structure Leg.Crosses (leg : Leg) (pool : Pool) : Prop where
  through : leg.pool = pool
  source : leg.tokenFrom.address ∈ pool.tokenAddresses
  target : leg.tokenTo.address ∈ pool.tokenAddresses
  different : leg.tokenFrom.address ≠ leg.tokenTo.address

namespace PoolEncoder

variable {encoder : PoolEncoder} {leg : Leg}

theorem accepts_of_crosses (h : leg.Crosses encoder.pool) (hfee : encoder.pool.FeeIsNumber)
    (recipient : Address) :
    (∃ pair, encoder.indices leg = .ok pair) ∧
      ∃ bytes, encoder.encode .v2 leg recipient = .ok (some bytes) := by
  have hagrees : leg.pool.agrees encoder.pool = true := by
    rw [h.through]
    exact encoder.pool.agrees_self_iff.mpr hfee
  obtain ⟨pair, hpair⟩ : ∃ pair, encoder.indices leg = .ok pair := by
    rw [indices_of_agrees hagrees]
    unfold Leg.indices Leg.indicesIn
    rw [h.through]
    exact Pool.exists_indices_iff.mpr ⟨h.source, h.target, h.different⟩
  have hwritten := encoder.encode_v2 leg recipient
  rw [hpair] at hwritten
  exact ⟨⟨pair, hpair⟩, _, hwritten⟩

theorem refuses_own_leg (hpool : leg.pool = encoder.pool) (hfee : ¬encoder.pool.FeeIsNumber)
    (recipient : Address) : encoder.Refuses leg recipient
      (.foreignLegPool encoder.pool.address encoder.pool.address) := by
  have hforeign : leg.pool.agrees encoder.pool = false := by
    rw [hpool, Bool.eq_false_iff, ne_eq, Pool.agrees_self_iff]
    exact hfee
  have hrefuses := refuses_of_indices (indices_of_foreign hforeign) recipient
  rwa [hpool] at hrefuses

end PoolEncoder

namespace Registry

/-- How a pool and its encoder are met again: the pool gets the encoder it got before, and the
encoder takes the legs through it. -/
structure Recognizes (registry : Registry) (pool : Pool) (encoder : PoolEncoder) : Prop where
  again : ∀ (cache : EncoderCache) (others : List Pool) (first : PoolEncoder),
    cache.answer registry pool = .ok first →
      ((cache.after registry pool).afterAll registry others).answer registry pool = .ok first
  legs : ∀ (leg : Leg) (recipient : Address), leg.Crosses pool →
    (∃ pair, encoder.indices leg = .ok pair) ∧
      ∃ bytes, encoder.encode .v2 leg recipient = .ok (some bytes)

/-- The pool conflicts with itself once it got an encoder, and its legs are foreign to it. -/
structure Disowns (registry : Registry) (pool : Pool) (encoder : PoolEncoder) : Prop where
  again : ∀ (cache : EncoderCache) (others : List Pool) (first : PoolEncoder),
    cache.answer registry pool = .ok first →
      ((cache.after registry pool).afterAll registry others).answer registry pool =
        .error (.conflictingPool pool.address)
  legs : ∀ (leg : Leg) (recipient : Address), leg.pool = pool →
    encoder.Refuses leg recipient (.foreignLegPool pool.address pool.address)

/-- A pool that is resolved is recognised if its fee is a number, and disowned if not. -/
theorem recognizes_or_disowns {registry : Registry} {pool : Pool} {encoder : PoolEncoder}
    (h : registry.resolve pool = .ok encoder) :
    (pool.FeeIsNumber → registry.Recognizes pool encoder) ∧
      (¬pool.FeeIsNumber → registry.Disowns pool encoder) := by
  obtain rfl : encoder.pool = pool := EncoderCache.pool_of_resolve h
  constructor
  · intro hfee
    constructor
    case again =>
      intro cache others first hfirst
      rw [EncoderCache.answer_again hfirst,
        if_pos ((EncoderCache.agrees_of_served hfirst).mpr hfee)]
    case legs =>
      intro leg recipient hcrosses
      exact PoolEncoder.accepts_of_crosses hcrosses hfee recipient
  · intro hfee
    constructor
    case again =>
      intro cache others first hfirst
      rw [EncoderCache.answer_again hfirst,
        if_neg fun hagrees => hfee ((EncoderCache.agrees_of_served hfirst).mp hagrees)]
    case legs =>
      intro leg recipient hpool
      exact PoolEncoder.refuses_own_leg hpool hfee recipient

end Registry

namespace Sample

/-- A fee that is no number. -/
def noNumber : Double := ⟨0x7FF8000000000000⟩

theorem exists_resolve_stablePool (fee : Double) :
    ∃ encoder, compiler.registry.resolve (stablePool fee) = .ok encoder := ⟨_, rfl⟩

end Sample

/-- With the fee 0 a pool is recognised, its legs from the second to the third token included. -/
theorem Registry.recognizes_stablePool :
    ∃ encoder, Sample.compiler.registry.resolve (Sample.stablePool Double.zero) = .ok encoder ∧
      (∃ pair, encoder.indices (Sample.leg 0xB0 0xC0 (Sample.stablePool Double.zero)) = .ok pair) ∧
      Sample.compiler.registry.Disowns (Sample.stablePool Sample.noNumber)
        (Sample.compiler.registry.encoderOf (Sample.stablePool Sample.noNumber)) := by
  obtain ⟨encoder, hencoder⟩ := Sample.exists_resolve_stablePool Double.zero
  have hnumber : (Sample.stablePool Double.zero).FeeIsNumber :=
    (Pool.agrees_self_iff _).mp (by decide)
  have hcrosses : (Sample.leg 0xB0 0xC0 (Sample.stablePool Double.zero)).Crosses
      (Sample.stablePool Double.zero) :=
    ⟨rfl, by decide, by decide, by decide⟩
  have hlegs := ((recognizes_or_disowns hencoder).1 hnumber).legs _ (Sample.address 0xAA) hcrosses
  have hnone : ¬(Sample.stablePool Sample.noNumber).FeeIsNumber := fun hfee =>
    absurd ((Pool.agrees_self_iff _).mpr hfee) (by decide)
  exact ⟨encoder, hencoder, hlegs.1, (recognizes_or_disowns rfl).2 hnone⟩

/-- A pool whose fee is no number is resolved, conflicts with itself when it is asked for again, and
its encoder finds its leg foreign. -/
theorem EncoderCache.stablePool_conflicts_with_itself :
    ∃ encoder, Sample.compiler.registry.resolve (Sample.stablePool Sample.noNumber) = .ok encoder ∧
      EncoderCache.empty.answer Sample.compiler.registry (Sample.stablePool Sample.noNumber) =
        .ok encoder ∧
      (EncoderCache.empty.after Sample.compiler.registry
        (Sample.stablePool Sample.noNumber)).answer Sample.compiler.registry
          (Sample.stablePool Sample.noNumber) = .error (.conflictingPool (Sample.address 0x51)) ∧
      encoder.indices (Sample.leg 0xA0 0xB0 (Sample.stablePool Sample.noNumber)) =
        .error (.foreignLegPool (Sample.address 0x51) (Sample.address 0x51)) :=
  ⟨_, rfl, rfl, by decide, by decide⟩

end SwapCalldata
