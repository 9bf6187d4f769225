import SwapCalldata.Proofs.Compilation
import SwapCalldata.Proofs.WireMeaning

/-!
The faults of the JSON form of a route, in the order in which they are looked for. A conversion is
refused with the first of them, and the forms without a fault are the well-formed ones. A text
counts only through what it spells.
-/
namespace SwapCalldata

open Outcome (Reports)

namespace Address

/-- The text spells an address. -/
def IsSpelled (text : String) : Prop := ∃ address, parse text = .ok address

def faults (text : String) : List InputError :=
  match ofText text with
  | .ok _ => []
  | .error fault => [.badAddress text fault]

theorem reports_parse (text : String) : Reports (parse text) (faults text) := by
  unfold parse faults
  cases ofText text with
  | ok address => exact Reports.ok address
  | error fault => exact Reports.error _

theorem faults_eq_nil_iff {text : String} : faults text = [] ↔ IsSpelled text :=
  (reports_parse text).exists_ok_iff.symm

end Address

namespace Amount

def faults (text : String) : List InputError :=
  match parse text with
  | .error _ => [.badAmount text]
  | .ok amount => if amount < 2 ^ 256 then [] else [.valueTooLarge]

theorem reports_toWord (amount : Nat) :
    Reports (toWord amount) (if amount < 2 ^ 256 then [] else [.valueTooLarge]) := by
  split
  next h =>
    rw [toWord_of_lt h]
    exact Reports.ok _
  next h =>
    rw [toWord_of_not_lt h]
    exact Reports.error _

theorem reports_parseWord (text : String) : Reports (parseWord text) (faults text) := by
  unfold parseWord faults
  cases hparse : parse text with
  | error error =>
    rw [eq_badAmount_of_parse hparse]
    exact Reports.error _
  | ok amount => exact (reports_toWord amount).bind_pure _

theorem faults_eq_nil_iff {text : String} :
    faults text = [] ↔ ∃ amount, Amount.Spells text amount := by
  simp only [← parseWord_eq_ok_iff]
  exact (reports_parseWord text).exists_ok_iff.symm

end Amount

theorem WireToken.reports_toToken (wire : WireToken) :
    Reports wire.toToken (Address.faults wire.address) := by
  unfold toToken
  exact (Address.reports_parse wire.address).bind_pure _

namespace WirePool

/-- The destination of a bridge comes first, then the tokens in order, then the pool's address. -/
def faults (wire : WirePool) : List InputError :=
  (if wire.family = .bridge ∧ wire.destination = none then
    [.missingField "destinationChainId"] else []) ++
  (wire.tokens.flatMap (fun token => Address.faults token.address) ++
    Address.faults wire.address)

structure WellFormed (wire : WirePool) : Prop where
  destination : wire.family = .bridge → wire.destination ≠ none
  tokens : ∀ token ∈ wire.tokens, Address.IsSpelled token.address
  address : Address.IsSpelled wire.address

theorem reports_toKind (wire : WirePool) : Reports wire.toKind
    (if wire.family = .bridge ∧ wire.destination = none then
      [.missingField "destinationChainId"] else []) := by
  unfold toKind
  cases hfamily : wire.family with
  | constantProduct => exact Reports.ok _
  | concentratedLiquidity => exact Reports.ok _
  | stable => exact Reports.ok _
  | bridge =>
    cases hdestination : wire.destination with
    | none => exact Reports.error _
    | some destination => exact Reports.ok _

theorem reports_toPool (wire : WirePool) : Reports wire.toPool wire.faults := by
  have htokens : Reports (wire.tokens.mapM WireToken.toToken)
      (wire.tokens.flatMap fun token => Address.faults token.address) :=
    Reports.mapM fun token _ => token.reports_toToken
  unfold toPool
  apply (reports_toKind wire).bind
  intro kind _
  apply htokens.bind
  intro tokens _
  exact (Address.reports_parse wire.address).bind_pure _

theorem faults_eq_nil_iff {wire : WirePool} : wire.faults = [] ↔ wire.WellFormed := by
  unfold faults
  simp only [List.append_eq_nil_iff, List.flatMap_eq_nil_iff, Address.faults_eq_nil_iff]
  constructor
  · rintro ⟨hkind, htokens, haddress⟩
    refine ⟨fun hfamily hnone => ?_, htokens, haddress⟩
    rw [if_pos ⟨hfamily, hnone⟩] at hkind
    cases hkind
  · rintro ⟨hdestination, htokens, haddress⟩
    exact ⟨if_neg fun h => hdestination h.1 h.2, htokens, haddress⟩

end WirePool

namespace WireLeg

/-- The faults of the name of a leg's pool: it must spell the address of an entry. -/
def nameFaults (wire : WireLeg) (entries : List WirePool) : List Failure :=
  match Address.parse wire.pool with
  | .error fault => [.input fault]
  | .ok address =>
    if ∃ entry ∈ entries, Address.parse entry.address = .ok address then []
    else [.input (.unknownName .pool wire.pool)]

/-- The name of the pool comes first, then the tokens, then the fraction. -/
def faults (wire : WireLeg) (entries : List WirePool) : List Failure :=
  wire.nameFaults entries ++
    ((Address.faults wire.tokenFrom.address).map Failure.input ++
      ((Address.faults wire.tokenTo.address).map Failure.input ++
        if wire.fraction.IsFraction then [] else [.route (.invalidFraction wire.fraction)]))

structure WellFormed (wire : WireLeg) (entries : List WirePool) : Prop where
  pool : ∃ address, Address.parse wire.pool = .ok address ∧
    ∃ entry ∈ entries, Address.parse entry.address = .ok address
  tokenFrom : Address.IsSpelled wire.tokenFrom.address
  tokenTo : Address.IsSpelled wire.tokenTo.address
  fraction : wire.fraction.IsFraction

theorem reports_namedPool {entries : List WirePool} {pools : List Pool}
    (h : List.Forall₂ WirePool.Means entries pools) (wire : WireLeg) :
    Reports (wire.namedPool pools) (wire.nameFaults entries) := by
  unfold namedPool nameFaults
  cases Address.parse wire.pool with
  | error fault => exact Reports.error _
  | ok address =>
    simp only [Except.mapError, Outcome.ok_bind]
    cases hlookup : lastPoolAt? pools address with
    | none =>
      rw [if_neg ((lastPoolAt?_eq_none_iff h).mp hlookup)]
      exact Reports.error _
    | some pool =>
      have hknown : ∃ entry ∈ entries, Address.parse entry.address = .ok address := by
        by_contra hnone
        rw [(lastPoolAt?_eq_none_iff h).mpr hnone] at hlookup
        cases hlookup
      rw [if_pos hknown]
      exact Reports.ok pool

theorem reports_make (tokenFrom tokenTo : Token) (pool : Pool) (fraction : Double) :
    Reports ((Leg.make tokenFrom tokenTo pool fraction).mapError Failure.route)
      (if fraction.IsFraction then [] else [.route (.invalidFraction fraction)]) := by
  unfold Leg.make
  split
  next => exact Reports.ok _
  next => exact Reports.error _

theorem reports_toLeg {entries : List WirePool} {pools : List Pool}
    (h : List.Forall₂ WirePool.Means entries pools) (wire : WireLeg) :
    Reports (wire.toLeg pools) (wire.faults entries) := by
  rw [toLeg_eq]
  apply (reports_namedPool h wire).bind
  intro pool _
  apply (wire.tokenFrom.reports_toToken.mapError Failure.input).bind
  intro tokenFrom _
  apply (wire.tokenTo.reports_toToken.mapError Failure.input).bind
  intro tokenTo _
  exact reports_make tokenFrom tokenTo pool wire.fraction

theorem nameFaults_eq_nil_iff {wire : WireLeg} {entries : List WirePool} :
    wire.nameFaults entries = [] ↔ ∃ address, Address.parse wire.pool = .ok address ∧
      ∃ entry ∈ entries, Address.parse entry.address = .ok address := by
  unfold nameFaults
  cases Address.parse wire.pool with
  | error fault => simp
  | ok address => simp

theorem faults_eq_nil_iff {wire : WireLeg} {entries : List WirePool} :
    wire.faults entries = [] ↔ wire.WellFormed entries := by
  unfold faults
  simp only [List.append_eq_nil_iff, List.map_eq_nil_iff, nameFaults_eq_nil_iff,
    Address.faults_eq_nil_iff, ite_eq_left_iff, reduceCtorEq, imp_false, not_not]
  constructor
  · rintro ⟨hpool, hfrom, hto, hfraction⟩
    exact ⟨hpool, hfrom, hto, hfraction⟩
  · rintro ⟨hpool, hfrom, hto, hfraction⟩
    exact ⟨hpool, hfrom, hto, hfraction⟩

end WireLeg

namespace WireRoute

/-- The pools come first, then the legs, then the tokens and amounts of the route. -/
def faults (wire : WireRoute) : List Failure :=
  wire.pools.flatMap (fun entry => entry.faults.map Failure.input) ++
    (wire.legs.flatMap (fun leg => leg.faults wire.pools) ++
      (Address.faults wire.tokenIn.address ++ (Address.faults wire.tokenOut.address ++
        (Amount.faults wire.amountIn ++ Amount.faults wire.amountOut))).map Failure.input)

structure WellFormed (wire : WireRoute) : Prop where
  pools : ∀ entry ∈ wire.pools, entry.WellFormed
  legs : ∀ leg ∈ wire.legs, leg.WellFormed wire.pools
  tokenIn : Address.IsSpelled wire.tokenIn.address
  tokenOut : Address.IsSpelled wire.tokenOut.address
  amountIn : ∃ amount, Amount.Spells wire.amountIn amount
  amountOut : ∃ amount, Amount.Spells wire.amountOut amount

theorem reports_toRoute (wire : WireRoute) : Reports wire.toRoute wire.faults := by
  have hpools : Reports (wire.pools.mapM fun entry => entry.toPool.mapError Failure.input)
      (wire.pools.flatMap fun entry => entry.faults.map Failure.input) :=
    Reports.mapM fun entry _ => entry.reports_toPool.mapError Failure.input
  unfold toRoute faults
  simp only [List.map_append]
  apply hpools.bind
  intro pools hconverted
  simp only [Outcome.mapM_eq_ok_iff, Outcome.mapError_eq_ok_iff,
    WirePool.toPool_eq_ok_iff] at hconverted
  have hlegs : Reports (wire.legs.mapM fun leg => leg.toLeg pools)
      (wire.legs.flatMap fun leg => leg.faults wire.pools) :=
    Reports.mapM fun leg _ => leg.reports_toLeg hconverted
  apply hlegs.bind
  intro legs _
  apply (wire.tokenIn.reports_toToken.mapError Failure.input).bind
  intro tokenIn _
  apply (wire.tokenOut.reports_toToken.mapError Failure.input).bind
  intro tokenOut _
  apply ((Amount.reports_parseWord wire.amountIn).mapError Failure.input).bind
  intro amountIn _
  exact ((Amount.reports_parseWord wire.amountOut).mapError Failure.input).bind_pure _

theorem faults_eq_nil_iff {wire : WireRoute} : wire.faults = [] ↔ wire.WellFormed := by
  unfold faults
  simp only [List.append_eq_nil_iff, List.flatMap_eq_nil_iff, List.map_eq_nil_iff,
    WirePool.faults_eq_nil_iff, WireLeg.faults_eq_nil_iff, Address.faults_eq_nil_iff,
    Amount.faults_eq_nil_iff]
  constructor
  · rintro ⟨hpools, hlegs, hin, hout, hamountIn, hamountOut⟩
    exact ⟨hpools, hlegs, hin, hout, hamountIn, hamountOut⟩
  · rintro ⟨hpools, hlegs, hin, hout, hamountIn, hamountOut⟩
    exact ⟨hpools, hlegs, hin, hout, hamountIn, hamountOut⟩

end WireRoute

/-- The texts spell the same address, or neither spells one. -/
def Address.SameSpelling (a b : String) : Prop := (parse a).toOption = (parse b).toOption

/-- The texts spell the same amount, or neither spells one. -/
def Amount.SameSpelling (a b : String) : Prop := (parse a).toOption = (parse b).toOption

/-- The token with its address spelled another way. -/
structure WireToken.Respells (a b : WireToken) : Prop where
  address : Address.SameSpelling a.address b.address
  decimals : a.decimals = b.decimals
  symbol : a.symbol = b.symbol

structure WirePool.Respells (a b : WirePool) : Prop where
  address : Address.SameSpelling a.address b.address
  tokens : List.Forall₂ WireToken.Respells a.tokens b.tokens
  provider : a.provider = b.provider
  family : a.family = b.family
  fee : a.fee = b.fee
  destination : a.destination = b.destination

structure WireLeg.Respells (a b : WireLeg) : Prop where
  tokenFrom : a.tokenFrom.Respells b.tokenFrom
  tokenTo : a.tokenTo.Respells b.tokenTo
  pool : Address.SameSpelling a.pool b.pool
  fraction : a.fraction = b.fraction

structure WireRoute.Respells (a b : WireRoute) : Prop where
  status : a.status = b.status
  tokenIn : a.tokenIn.Respells b.tokenIn
  tokenOut : a.tokenOut.Respells b.tokenOut
  amountIn : Amount.SameSpelling a.amountIn b.amountIn
  amountOut : Amount.SameSpelling a.amountOut b.amountOut
  pools : List.Forall₂ WirePool.Respells a.pools b.pools
  legs : List.Forall₂ WireLeg.Respells a.legs b.legs

namespace WireToken.Respells

variable {a b : WireToken}

theorem toOption_toToken (h : a.Respells b) : a.toToken.toOption = b.toToken.toOption := by
  apply Outcome.toOption_bind_congr h.address
  intro address
  rw [h.decimals, h.symbol]

/-- The same with a refusal seen as the failure of an input. -/
theorem toOption_mapError (h : a.Respells b) : (a.toToken.mapError Failure.input).toOption =
    (b.toToken.mapError Failure.input).toOption := by
  rw [Outcome.toOption_mapError, Outcome.toOption_mapError, h.toOption_toToken]

end WireToken.Respells

theorem WirePool.Respells.toOption_toPool {a b : WirePool} (h : a.Respells b) :
    a.toPool.toOption = b.toPool.toOption := by
  have hkind : a.toKind = b.toKind := by
    unfold toKind
    rw [h.family, h.fee, h.destination]
  unfold toPool
  rw [hkind]
  apply Outcome.toOption_bind_congr rfl
  intro kind
  apply Outcome.toOption_bind_congr (Outcome.toOption_mapM_congr
    (h.tokens.imp fun _ _ => WireToken.Respells.toOption_toToken))
  intro tokens
  apply Outcome.toOption_bind_congr h.address
  intro address
  rw [h.provider]

theorem WireLeg.Respells.toOption_toLeg {a b : WireLeg} (h : a.Respells b) (pools : List Pool) :
    (a.toLeg pools).toOption = (b.toLeg pools).toOption := by
  have hnamed : (a.namedPool pools).toOption = (b.namedPool pools).toOption := by
    apply Outcome.toOption_bind_congr
    · rw [Outcome.toOption_mapError, Outcome.toOption_mapError, h.pool]
    · intro address
      cases lastPoolAt? pools address <;> rfl
  rw [toLeg_eq, toLeg_eq]
  apply Outcome.toOption_bind_congr hnamed
  intro pool
  apply Outcome.toOption_bind_congr h.tokenFrom.toOption_mapError
  intro tokenFrom
  apply Outcome.toOption_bind_congr h.tokenTo.toOption_mapError
  intro tokenTo
  rw [h.fraction]

theorem Amount.SameSpelling.toOption_parseWord {a b : String} (h : Amount.SameSpelling a b) :
    ((Amount.parseWord a).mapError Failure.input).toOption =
      ((Amount.parseWord b).mapError Failure.input).toOption := by
  rw [Outcome.toOption_mapError, Outcome.toOption_mapError]
  exact Outcome.toOption_bind_congr h fun _ => rfl

theorem WireRoute.Respells.toOption_toRoute {a b : WireRoute} (h : a.Respells b) :
    a.toRoute.toOption = b.toRoute.toOption := by
  apply Outcome.toOption_bind_congr (Outcome.toOption_mapM_congr (h.pools.imp fun _ _ hentry => ?_))
  · intro pools
    apply Outcome.toOption_bind_congr (Outcome.toOption_mapM_congr
      (h.legs.imp fun _ _ hleg => hleg.toOption_toLeg pools))
    intro legs
    apply Outcome.toOption_bind_congr h.tokenIn.toOption_mapError
    intro tokenIn
    apply Outcome.toOption_bind_congr h.tokenOut.toOption_mapError
    intro tokenOut
    apply Outcome.toOption_bind_congr h.amountIn.toOption_parseWord
    intro amountIn
    apply Outcome.toOption_bind_congr h.amountOut.toOption_parseWord
    intro amountOut
    rw [h.status]
  · rw [Outcome.toOption_mapError, Outcome.toOption_mapError, hentry.toOption_toPool]

/-- A form is converted exactly when it is well-formed, to the route that it stands for and to no
other, and else it is refused with its first fault. Two forms that differ in the spelling of
addresses and amounts are converted alike. -/
theorem WireRoute.toRoute_exact (wire : WireRoute) :
    ((∃ route, wire.toRoute = .ok route) ↔ wire.WellFormed) ∧
    (∀ route, wire.toRoute = .ok route ↔ wire.Means route) ∧
    (∀ failure, wire.toRoute = .error failure ↔ wire.faults.head? = some failure) ∧
    (∀ other, wire.Respells other → wire.toRoute.toOption = other.toRoute.toOption) := by
  refine ⟨?_, fun route => toRoute_eq_ok_iff, wire.reports_toRoute,
    fun other => Respells.toOption_toRoute⟩
  rw [← faults_eq_nil_iff]
  exact wire.reports_toRoute.exists_ok_iff

namespace Sample

def wireToken (byte : UInt8) : WireToken := ⟨(address byte).text, 18, none⟩

/-- An entry of the stable pool, with a destination that nothing looks at. -/
def stableEntry (fee : Option Double) : WirePool :=
  ⟨(address 0x51).text, [wireToken 0xA0, wireToken 0xB0, wireToken 0xC0], "curve", .stable, fee,
    some 7⟩

def bridgeEntry : WirePool :=
  ⟨(address 0x52).text, [wireToken 0xC0, wireToken 0xD0], "hop", .bridge, none, some 8453⟩

def wireLeg (source target pool : UInt8) : WireLeg :=
  ⟨wireToken source, wireToken target, (address pool).text, Double.one⟩

/-- The stable pool is described twice, the second time without a fee. -/
def wireRoute : WireRoute :=
  ⟨.success, wireToken 0xA0, wireToken 0xD0, "1000", "2000",
    [stableEntry (some Double.one), bridgeEntry, stableEntry none],
    [wireLeg 0xA0 0xC0 0x51, wireLeg 0xC0 0xD0 0x52]⟩

def convertedRoute : Route :=
  ⟨.success, [leg 0xA0 0xC0 (stablePool Double.zero), leg 0xC0 0xD0 bridgePool], token 0xA0,
    token 0xD0, 1000, 2000⟩

/-- The route with an address in other letter cases and an amount with grouped digits. -/
def respelledRoute : WireRoute :=
  { wireRoute with
    tokenIn := { wireToken 0xA0 with address := "0XA0a0A0a0A0a0A0a0A0a0A0a0A0a0A0a0A0a0A0a0" }
    amountIn := "+1_000" }

theorem toRoute_wireRoute : wireRoute.toRoute = .ok convertedRoute := by
  decide +kernel

theorem respells_respelledRoute : wireRoute.Respells respelledRoute := by
  have htoken (token : WireToken) : token.Respells token := ⟨rfl, rfl, rfl⟩
  have hentry (entry : WirePool) : entry.Respells entry :=
    ⟨rfl, List.forall₂_same.mpr fun token _ => htoken token, rfl, rfl, rfl, rfl⟩
  have hleg (leg : WireLeg) : leg.Respells leg := ⟨htoken _, htoken _, rfl, rfl⟩
  have hcanonical : Address.parse wireRoute.tokenIn.address = .ok (address 0xA0) := by
    decide +kernel
  have hmixed : Address.parse respelledRoute.tokenIn.address = .ok (address 0xA0) := by
    decide +kernel
  have haddress : Address.SameSpelling wireRoute.tokenIn.address respelledRoute.tokenIn.address :=
    congrArg Except.toOption (hcanonical.trans hmixed.symm)
  have hplain : Amount.parse wireRoute.amountIn = .ok 1000 := by decide +kernel
  have hgrouped : Amount.parse respelledRoute.amountIn = .ok 1000 := by decide +kernel
  have hamount : Amount.SameSpelling wireRoute.amountIn respelledRoute.amountIn :=
    congrArg Except.toOption (hplain.trans hgrouped.symm)
  have hsame (text : String) : Amount.SameSpelling text text := rfl
  exact ⟨rfl, ⟨haddress, rfl, rfl⟩, htoken (wireToken 0xD0), hamount, hsame "2000",
    List.forall₂_same.mpr fun entry _ => hentry entry,
    List.forall₂_same.mpr fun leg _ => hleg leg⟩

end Sample

theorem WireRoute.toRoute_exact_wireRoute :
    Sample.wireRoute.WellFormed ∧ Sample.wireRoute.Means Sample.convertedRoute ∧
      Sample.wireRoute.Respells Sample.respelledRoute ∧
      Sample.respelledRoute.toRoute.toOption = some Sample.convertedRoute := by
  obtain ⟨hformed, hmeans, _, hspelling⟩ := toRoute_exact Sample.wireRoute
  have hsame := hspelling Sample.respelledRoute Sample.respells_respelledRoute
  refine ⟨hformed.mp ⟨_, Sample.toRoute_wireRoute⟩, (hmeans _).mp Sample.toRoute_wireRoute,
    Sample.respells_respelledRoute, ?_⟩
  rw [← hsame, Sample.toRoute_wireRoute]
  rfl

end SwapCalldata
