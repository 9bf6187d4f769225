import SwapCalldata.Proofs.Words
import SwapCalldata.Wire.Conversion

/-!
What the JSON form of a route stands for. Every entry of its pool list stands for a pool, whether
a leg uses it or not; a leg trades through the pool of the last entry at the address it names. A
conversion succeeds with a route exactly when the form stands for this route.
-/
namespace SwapCalldata

/-- The text spells an amount that fits a 256-bit word. -/
def Amount.Spells (text : String) (amount : Nat) : Prop :=
  Amount.parse text = .ok amount ∧ amount < 2 ^ 256

theorem Amount.eq_badAmount_of_parse {text : String} {error : InputError}
    (h : parse text = .error error) : error = .badAmount text := by
  unfold parse at h
  split at h
  · cases h
  · exact (Except.error.inj h).symm

theorem Amount.exists_toWord_iff {amount : Nat} :
    (∃ word, toWord amount = .ok word) ↔ amount < 2 ^ 256 := by
  constructor
  · rintro ⟨word, hword⟩
    exact (toWord_eq_ok_iff.mp hword).1
  · intro h
    exact ⟨_, toWord_of_lt h⟩

theorem Amount.parseWord_eq_ok_iff {text : String} {amount : Nat} :
    Amount.parseWord text = .ok amount ↔ Amount.Spells text amount := by
  unfold parseWord Spells
  simp only [Outcome.bind_eq_ok_iff, Outcome.pure_eq, Except.ok.injEq, ← exists_toWord_iff]
  constructor
  · rintro ⟨n, hparse, word, hword, rfl⟩
    exact ⟨hparse, word, hword⟩
  · rintro ⟨hparse, word, hword⟩
    exact ⟨amount, hparse, word, hword, rfl⟩

/-- The token has the address that the text spells, and the decimals and symbol as they came. -/
structure WireToken.Means (wire : WireToken) (token : Token) : Prop where
  address : Address.parse wire.address = .ok token.address
  decimals : token.decimals = wire.decimals
  symbol : token.symbol = wire.symbol

theorem WireToken.toToken_eq_ok_iff {wire : WireToken} {token : Token} :
    wire.toToken = .ok token ↔ wire.Means token := by
  unfold toToken
  simp only [Outcome.bind_eq_ok_iff, Outcome.pure_eq, Except.ok.injEq]
  constructor
  · rintro ⟨address, haddress, rfl⟩
    exact ⟨haddress, rfl, rfl⟩
  · rintro ⟨haddress, hdecimals, hsymbol⟩
    refine ⟨token.address, haddress, ?_⟩
    rw [← hdecimals, ← hsymbol]

/-- A fee that is missing is zero; a destination is looked at for a bridge only. -/
structure WirePool.HasKind (wire : WirePool) (kind : PoolKind) : Prop where
  family : kind.family = wire.family
  fee : ∀ fee, kind.fee? = some fee → fee = wire.fee.getD Double.zero
  destination : ∀ destination, kind = .bridge destination → wire.destination = some destination

theorem WirePool.toKind_eq_ok_iff {wire : WirePool} {kind : PoolKind} :
    wire.toKind = .ok kind ↔ wire.HasKind kind := by
  have hfields : wire.HasKind kind ↔ kind.family = wire.family ∧
      (∀ fee, kind.fee? = some fee → fee = wire.fee.getD Double.zero) ∧
      ∀ destination, kind = .bridge destination → wire.destination = some destination :=
    ⟨fun h => ⟨h.family, h.fee, h.destination⟩, fun h => ⟨h.1, h.2.1, h.2.2⟩⟩
  rw [hfields]
  unfold toKind
  cases hfamily : wire.family with
  | bridge =>
    cases hdestination : wire.destination <;> cases kind <;>
      simp [PoolKind.family, PoolKind.fee?, eq_comm]
  | constantProduct => cases kind <;> simp [PoolKind.family, PoolKind.fee?, eq_comm]
  | concentratedLiquidity => cases kind <;> simp [PoolKind.family, PoolKind.fee?, eq_comm]
  | stable => cases kind <;> simp [PoolKind.family, PoolKind.fee?, eq_comm]

structure WirePool.Means (wire : WirePool) (pool : Pool) : Prop where
  kind : wire.HasKind pool.kind
  tokens : List.Forall₂ WireToken.Means wire.tokens pool.tokens
  address : Address.parse wire.address = .ok pool.address
  provider : pool.provider = wire.provider

theorem WirePool.toPool_eq_ok_iff {wire : WirePool} {pool : Pool} :
    wire.toPool = .ok pool ↔ wire.Means pool := by
  unfold toPool
  simp only [Outcome.bind_eq_ok_iff, Outcome.mapM_eq_ok_iff, Outcome.pure_eq, Except.ok.injEq,
    toKind_eq_ok_iff, WireToken.toToken_eq_ok_iff]
  constructor
  · rintro ⟨kind, hkind, tokens, htokens, address, haddress, rfl⟩
    exact ⟨hkind, htokens, haddress, rfl⟩
  · rintro ⟨hkind, htokens, haddress, hprovider⟩
    refine ⟨pool.kind, hkind, pool.tokens, htokens, pool.address, haddress, ?_⟩
    rw [← hprovider]

/-- The entry stands at the address, and no entry after it does. -/
def WirePool.LastAt (entry : WirePool) (entries : List WirePool) (address : Address) : Prop :=
  ∃ before after, entries = before ++ entry :: after ∧
    Address.parse entry.address = .ok address ∧
    ∀ later ∈ after, Address.parse later.address ≠ .ok address

theorem lastPoolAt?_eq_some_iff {pools : List Pool} {address : Address} {pool : Pool} :
    lastPoolAt? pools address = some pool ↔ ∃ before after, pools = before ++ pool :: after ∧
      pool.address = address ∧ ∀ later ∈ after, later.address ≠ address := by
  unfold lastPoolAt?
  rw [List.find?_eq_some_iff_append]
  simp only [beq_iff_eq, Bool.not_eq_true', beq_eq_false_iff_ne, ne_eq]
  constructor
  · rintro ⟨hhere, after, before, hsplit, hlater⟩
    refine ⟨before.reverse, after.reverse, ?_, hhere, fun later hmem => ?_⟩
    · simpa using congrArg List.reverse hsplit
    · exact hlater later (List.mem_reverse.mp hmem)
  · rintro ⟨before, after, rfl, hhere, hlater⟩
    refine ⟨hhere, after.reverse, before.reverse, by simp, fun later hmem => ?_⟩
    exact hlater later (List.mem_reverse.mp hmem)

/-- The last of the pools at an address is the pool of the last entry there. -/
theorem lastPoolAt?_eq_some_iff_of_means {entries : List WirePool} {pools : List Pool}
    (h : List.Forall₂ WirePool.Means entries pools) {address : Address} {pool : Pool} :
    lastPoolAt? pools address = some pool ↔
      ∃ entry : WirePool, entry.LastAt entries address ∧ entry.Means pool := by
  rw [lastPoolAt?_eq_some_iff]
  constructor
  · rintro ⟨before, after, rfl, rfl, hlater⟩
    obtain ⟨before', entry, after', rfl, hentry, hafter⟩ := Outcome.exists_of_forall₂_append h.flip
    refine ⟨entry, ⟨before', after', rfl, hentry.address, fun later hmem hsame => ?_⟩, hentry⟩
    obtain ⟨other, hother, hmeans⟩ := Outcome.exists_of_forall₂_mem hafter.flip hmem
    exact hlater other hother (Except.ok.inj (hmeans.address.symm.trans hsame))
  · rintro ⟨entry, ⟨before, after, rfl, haddress, hlater⟩, hmeans⟩
    obtain ⟨before', pool', after', rfl, hentry, hafter⟩ := Outcome.exists_of_forall₂_append h
    have hpool : pool' = pool := Except.ok.inj
      ((WirePool.toPool_eq_ok_iff.mpr hentry).symm.trans (WirePool.toPool_eq_ok_iff.mpr hmeans))
    refine ⟨before', after', hpool ▸ rfl,
      Except.ok.inj (hmeans.address.symm.trans haddress), fun later hmem hsame => ?_⟩
    obtain ⟨other, hother, hother'⟩ := Outcome.exists_of_forall₂_mem hafter.flip hmem
    exact hlater other hother (hsame ▸ hother'.address)

theorem lastPoolAt?_eq_none_iff {entries : List WirePool} {pools : List Pool}
    (h : List.Forall₂ WirePool.Means entries pools) {address : Address} :
    lastPoolAt? pools address = none ↔
      ¬∃ entry ∈ entries, Address.parse entry.address = .ok address := by
  unfold lastPoolAt?
  simp only [List.find?_eq_none, List.mem_reverse, beq_iff_eq, not_exists, not_and]
  constructor
  · intro hnone entry hentry hsame
    obtain ⟨pool, hpool, hmeans⟩ := Outcome.exists_of_forall₂_mem h hentry
    exact hnone pool hpool (Except.ok.inj (hmeans.address.symm.trans hsame))
  · intro hnone pool hpool hsame
    obtain ⟨entry, hentry, hmeans⟩ := Outcome.exists_of_forall₂_mem h.flip hpool
    exact hnone entry hentry (hsame ▸ hmeans.address)

structure WireLeg.Means (wire : WireLeg) (entries : List WirePool) (leg : Leg) : Prop where
  pool : ∃ address, Address.parse wire.pool = .ok address ∧
    ∃ entry : WirePool, entry.LastAt entries address ∧ entry.Means leg.pool
  tokenFrom : wire.tokenFrom.Means leg.tokenFrom
  tokenTo : wire.tokenTo.Means leg.tokenTo
  fraction : leg.fraction = wire.fraction

theorem Leg.make_eq_ok_iff {tokenFrom tokenTo : Token} {pool : Pool} {fraction : Double}
    {leg : Leg} : Leg.make tokenFrom tokenTo pool fraction = .ok leg ↔
      leg.tokenFrom = tokenFrom ∧ leg.tokenTo = tokenTo ∧ leg.pool = pool ∧
        leg.fraction = fraction := by
  obtain ⟨tokenFrom', tokenTo', pool', fraction', hfraction'⟩ := leg
  unfold make
  split
  next =>
    rw [Except.ok.injEq, Leg.mk.injEq]
    tauto
  next hnot =>
    simp only [reduceCtorEq, false_iff]
    rintro ⟨_, _, _, rfl⟩
    exact hnot hfraction'

/-- The pool that a leg names. -/
def WireLeg.namedPool (wire : WireLeg) (pools : List Pool) : Except Failure Pool := do
  let address ← (Address.parse wire.pool).mapError Failure.input
  match lastPoolAt? pools address with
  | some pool => .ok pool
  | none => .error (.input (.unknownName .pool wire.pool))

theorem WireLeg.toLeg_eq (wire : WireLeg) (pools : List Pool) : wire.toLeg pools = (do
    let pool ← wire.namedPool pools
    let tokenFrom ← wire.tokenFrom.toToken.mapError Failure.input
    let tokenTo ← wire.tokenTo.toToken.mapError Failure.input
    (Leg.make tokenFrom tokenTo pool wire.fraction).mapError Failure.route) := by
  unfold toLeg namedPool
  rw [bind_assoc]
  congr 1
  funext address
  cases lastPoolAt? pools address with
  | none => rfl
  | some pool => rfl

theorem WireLeg.namedPool_eq_ok_iff {entries : List WirePool} {pools : List Pool}
    (h : List.Forall₂ WirePool.Means entries pools) {wire : WireLeg} {pool : Pool} :
    wire.namedPool pools = .ok pool ↔ ∃ address, Address.parse wire.pool = .ok address ∧
      ∃ entry : WirePool, entry.LastAt entries address ∧ entry.Means pool := by
  unfold namedPool
  simp only [Outcome.bind_eq_ok_iff, Outcome.mapError_eq_ok_iff,
    ← lastPoolAt?_eq_some_iff_of_means h]
  refine exists_congr fun address => and_congr_right fun _ => ?_
  cases lastPoolAt? pools address <;> simp

theorem WireLeg.toLeg_eq_ok_iff {entries : List WirePool} {pools : List Pool}
    (h : List.Forall₂ WirePool.Means entries pools) {wire : WireLeg} {leg : Leg} :
    wire.toLeg pools = .ok leg ↔ wire.Means entries leg := by
  rw [toLeg_eq]
  simp only [Outcome.bind_eq_ok_iff, Outcome.mapError_eq_ok_iff, namedPool_eq_ok_iff h,
    WireToken.toToken_eq_ok_iff, Leg.make_eq_ok_iff]
  constructor
  · rintro ⟨_, hpool, _, hfrom, _, hto, rfl, rfl, rfl, hpart⟩
    exact ⟨hpool, hfrom, hto, hpart⟩
  · rintro ⟨hpool, hfrom, hto, hpart⟩
    exact ⟨_, hpool, _, hfrom, _, hto, rfl, rfl, rfl, hpart⟩

structure WireRoute.Means (wire : WireRoute) (route : Route) : Prop where
  pools : ∀ entry ∈ wire.pools, ∃ pool, entry.Means pool
  status : route.status = wire.status
  legs : List.Forall₂ (fun leg converted => leg.Means wire.pools converted) wire.legs route.legs
  tokenIn : wire.tokenIn.Means route.tokenIn
  tokenOut : wire.tokenOut.Means route.tokenOut
  amountIn : Amount.Spells wire.amountIn route.amountIn
  amountOut : Amount.Spells wire.amountOut route.amountOut

theorem WireRoute.toRoute_eq_ok_iff {wire : WireRoute} {route : Route} :
    wire.toRoute = .ok route ↔ wire.Means route := by
  unfold toRoute
  simp only [Outcome.bind_eq_ok_iff, Outcome.mapM_eq_ok_iff, Outcome.mapError_eq_ok_iff,
    Outcome.pure_eq, Except.ok.injEq, WirePool.toPool_eq_ok_iff, WireToken.toToken_eq_ok_iff,
    Amount.parseWord_eq_ok_iff]
  constructor
  · rintro ⟨pools, hpools, legs, hlegs, tokenIn, hin, tokenOut, hout, amountIn, hamountIn,
      amountOut, hamountOut, rfl⟩
    refine ⟨Outcome.exists_forall₂_iff.mp ⟨pools, hpools⟩, rfl, ?_, hin, hout, hamountIn, hamountOut⟩
    exact hlegs.imp fun _ _ => (WireLeg.toLeg_eq_ok_iff hpools).mp
  · rintro ⟨hentries, hstatus, hlegs, hin, hout, hamountIn, hamountOut⟩
    obtain ⟨pools, hpools⟩ := Outcome.exists_forall₂_iff.mpr hentries
    refine ⟨pools, hpools, route.legs, ?_, _, hin, _, hout, _, hamountIn, _, hamountOut, ?_⟩
    · exact hlegs.imp fun _ _ => (WireLeg.toLeg_eq_ok_iff hpools).mpr
    · rw [← hstatus]

end SwapCalldata
