import SwapCalldata.Proofs.Outcome
import SwapCalldata.Proofs.Rereading

/-!
The texts of routes and compiled routes, read again. A compiled route is found again in either of
its texts. So is a route, but for its numbers: each of them is read by itself, and may come out as a
number nearby.
-/
namespace SwapCalldata

namespace Json

/-- What is written for a value is read as this value. -/
def Recovers {α : Type} (written : Json) (read : Json → Option α) (value : α) : Prop :=
  ∃ found, ReadsAs written found ∧ read found = some value

theorem recovers_double {x : Double} (h : x.isFinite = true) :
    Recovers (ofDouble x) asDouble? x.reread := by
  refine ⟨_, Double.readsAs_ofDouble h, ?_⟩
  rw [← Double.reread?_eq h, (Double.rereads h).read]

theorem recovers_list {α : Type} {write : α → Json} {read : Json → Option α} {change : α → α}
    {values : List α} (h : ∀ a ∈ values, Recovers (write a) read (change a)) :
    Recovers (.array (values.map write)) (asList? read) (values.map change) := by
  have hsome : Nonempty Json := ⟨.null⟩
  choose! found hreads hread using h
  refine ⟨.array (values.map found), ReadsAs.array ?_, ?_⟩
  · rw [List.forall₂_map_left_iff, List.forall₂_map_right_iff]
    exact List.forall₂_same.mpr hreads
  · clear hreads
    simp only [asList?]
    induction values with
    | nil => rfl
    | cons a rest ih =>
      rw [List.forall_mem_cons] at hread
      rw [List.map_cons, List.mapM_cons, hread.1, ih hread.2]
      rfl

theorem recovers_fee {fee : Option Double} (h : ∀ x ∈ fee.toList, x.isFinite = true) :
    Recovers (ofOption ofDouble fee) (fun value => optional? asDouble? (some value))
      (fee.map Double.reread) := by
  cases fee with
  | none => exact ⟨.null, ReadsAs.null, rfl⟩
  | some x =>
    obtain ⟨found, hreads, hfound⟩ := recovers_double (h x (List.mem_singleton_self x))
    refine ⟨found, hreads, ?_⟩
    have hnull : asDouble? .null = none := rfl
    cases found with
    | null => exact absurd (hnull.symm.trans hfound) (by simp)
    | _ => simp [optional?, hfound]

/-- Every member is found under its own key, and nothing under another. -/
theorem fields?_ofMembers {members : List (String × Json)}
    (h : (members.map Prod.fst).Nodup) (names : List String) :
    fields? names (.ofMembers members) = some (names.map fun name => members.lookup name) := by
  have hkeys : (members.map fun entry => (some entry.1, entry.2)).mapM
      (fun member : Option String × Json => member.1.map fun key => (key, member.2)) =
        some members := by
    clear h
    induction members with
    | nil => rfl
    | cons member rest ih =>
      rw [List.map_cons, List.mapM_cons, ih]
      rfl
  have hsingle : (names.all fun name =>
      (members.filter fun entry => entry.1 == name).length ≤ 1) = true := by
    rw [List.all_eq_true]
    intro name _
    have hcount := List.nodup_iff_count_le_one.mp h name
    rw [List.count_eq_countP, List.countP_map, List.countP_eq_length_filter] at hcount
    exact decide_eq_true hcount
  unfold fields? ofMembers
  show Option.bind (List.mapM _ _) _ = _
  refine (congrArg (Option.bind · _) hkeys).trans ?_
  rw [Option.bind_some, if_pos hsingle]

/-- An object with all members of a record, in the order of its fields. -/
theorem fields?_all {members : List (String × Json)} {names : List String}
    (hnames : members.map Prod.fst = names) (h : names.Nodup) :
    fields? names (.ofMembers members) = some (members.map fun member => some member.2) := by
  subst hnames
  rw [fields?_ofMembers h, List.map_map, Option.some.injEq]
  exact List.map_congr_left fun member hmem => (Outcome.lookup_eq_some_iff h).mpr hmem

theorem asString?_ofString (s : String) : asString? (.ofString s) = some s := rfl

theorem asName?_ofString {α : Type} (ofName? : String → Option α) (name : String) :
    asName? ofName? (.ofString name) = ofName? name := rfl

theorem optional?_ofString {α : Type} (read : Json → Option α) (s : String) :
    optional? read (some (.ofString s)) = (read (.ofString s)).map some := rfl

theorem optional?_ofNat {α : Type} (read : Json → Option α) (n : Nat) :
    optional? read (some (.ofNat n)) = (read (.ofNat n)).map some := rfl

theorem asNat?_ofNat {bits n : Nat} (h : n < 1 <<< bits) : asNat? bits (.ofNat n) = some n :=
  if_pos h

theorem exists_readsAs_destination (destination : Option UInt64) :
    ∃ found, ReadsAs (ofOption (fun id => .ofNat id.toNat) destination) found ∧
      ∃ id, optional? (asNat? 64) (some found) = some id ∧ id.map UInt64.ofNat = destination := by
  cases destination with
  | none => exact ⟨.null, ReadsAs.null, none, rfl, rfl⟩
  | some id =>
    have hid : asNat? 64 (.ofNat id.toNat) = some id.toNat := asNat?_ofNat id.toNat_lt
    refine ⟨.ofNat id.toNat, ReadsAs.nat id.toNat_lt, some id.toNat, ?_, by simp⟩
    rw [optional?_ofNat, hid, Option.map_some]

end Json

open Json

theorem WireToken.recovers (token : WireToken) : Recovers token.toJson ofJson? token := by
  obtain ⟨address, decimals, symbol⟩ := token
  have hword : decimals.toNat < UInt64.size := Nat.lt_trans decimals.toNat_lt (by decide)
  have hdecimals : asNat? 8 (.ofNat decimals.toNat) = some decimals.toNat :=
    asNat?_ofNat decimals.toNat_lt
  cases symbol with
  | none =>
    refine ⟨_, .members <| .cons "address" (.string address) <| .cons "decimals" (.nat hword) .nil,
      ?_⟩
    unfold ofJson?
    rw [fields?_ofMembers (by simp)]
    simp [asString?_ofString, hdecimals, List.lookup_cons, optional?]
  | some symbol =>
    refine ⟨_, .members <| .cons "address" (.string address) <| .cons "decimals" (.nat hword) <|
      .cons "symbol" (.string symbol) .nil, ?_⟩
    unfold ofJson?
    rw [fields?_all]
    · simp [asString?_ofString, hdecimals, optional?_ofString]
    · rfl
    · decide

/-- The numbers of a pool that are not integers. -/
def WirePool.doubles (pool : WirePool) : List Double := pool.fee.toList

/-- The pool with its fee changed. -/
def WirePool.mapDoubles (change : Double → Double) (pool : WirePool) : WirePool :=
  { pool with fee := pool.fee.map change }

theorem WirePool.mapDoubles_eq_self_iff {change : Double → Double} {pool : WirePool} :
    pool.mapDoubles change = pool ↔ ∀ x ∈ pool.doubles, change x = x := by
  obtain ⟨address, tokens, provider, family, fee, destination⟩ := pool
  cases fee <;> simp [mapDoubles, doubles]

theorem WirePool.recovers {pool : WirePool} (h : ∀ x ∈ pool.doubles, x.isFinite = true) :
    Recovers pool.toJson ofJson? (pool.mapDoubles Double.reread) := by
  obtain ⟨address, tokens, provider, family, fee, destination⟩ := pool
  obtain ⟨tokensFound, htokens, hreadTokens⟩ :=
    recovers_list fun token (_ : token ∈ tokens) => token.recovers
  obtain ⟨feeFound, hfee, hreadFee⟩ := recovers_fee h
  obtain ⟨idFound, hid, id, hreadId, hsame⟩ := exists_readsAs_destination destination
  refine ⟨_, .members <| .cons "address" (.string address) <| .cons "tokens" htokens <|
    .cons "provider" (.string provider) <| .cons "family" (.string family.name) <|
    .cons "fee" hfee <| .cons "destinationChainId" hid .nil, ?_⟩
  unfold ofJson? mapDoubles
  rw [fields?_all]
  · simp [asString?_ofString, asName?_ofString, hreadTokens, hreadFee, hreadId, hsame]
  · rfl
  · decide

/-- The leg with its fraction changed. -/
def WireLeg.mapDoubles (change : Double → Double) (leg : WireLeg) : WireLeg :=
  { leg with fraction := change leg.fraction }

theorem WireLeg.mapDoubles_eq_self_iff {change : Double → Double} {leg : WireLeg} :
    leg.mapDoubles change = leg ↔ change leg.fraction = leg.fraction := by
  obtain ⟨tokenFrom, tokenTo, pool, fraction⟩ := leg
  simp [mapDoubles]

theorem WireLeg.recovers {leg : WireLeg} (h : leg.fraction.isFinite = true) :
    Recovers leg.toJson ofJson? (leg.mapDoubles Double.reread) := by
  obtain ⟨tokenFrom, tokenTo, pool, fraction⟩ := leg
  obtain ⟨fromFound, hfrom, hreadFrom⟩ := tokenFrom.recovers
  obtain ⟨toFound, hto, hreadTo⟩ := tokenTo.recovers
  obtain ⟨fractionFound, hfraction, hreadFraction⟩ := recovers_double h
  refine ⟨_, .members <| .cons "tokenFrom" hfrom <| .cons "tokenTo" hto <|
    .cons "pool" (.string pool) <| .cons "flowFraction" hfraction .nil, ?_⟩
  unfold ofJson? mapDoubles
  rw [fields?_all]
  · simp [asString?_ofString, hreadFrom, hreadTo, hreadFraction]
  · rfl
  · decide

namespace WireRoute

/-- The numbers of a route that are not integers: the fees of its pools and the fractions of its
legs. -/
def doubles (route : WireRoute) : List Double :=
  route.pools.flatMap WirePool.doubles ++ route.legs.map WireLeg.fraction

/-- The route with its fees and fractions changed. -/
def mapDoubles (change : Double → Double) (route : WireRoute) : WireRoute :=
  { route with
    pools := route.pools.map (WirePool.mapDoubles change)
    legs := route.legs.map (WireLeg.mapDoubles change) }

variable {route : WireRoute}

theorem forall_mem_doubles {p : Double → Prop} : (∀ x ∈ route.doubles, p x) ↔
    (∀ pool ∈ route.pools, ∀ x ∈ pool.doubles, p x) ∧ ∀ leg ∈ route.legs, p leg.fraction := by
  rw [doubles, List.forall_mem_append, List.forall_mem_flatMap, List.forall_mem_map]

theorem mapDoubles_eq_self_iff {change : Double → Double} :
    route.mapDoubles change = route ↔ ∀ x ∈ route.doubles, change x = x := by
  have hlist {α : Type} (f : α → α) (values : List α) :
      values.map f = values ↔ ∀ a ∈ values, f a = a := by
    have hinj := List.map_inj_left (l := values) (f := f) (g := id)
    rwa [List.map_id] at hinj
  obtain ⟨status, tokenIn, tokenOut, amountIn, amountOut, pools, legs⟩ := route
  rw [forall_mem_doubles]
  simp [mapDoubles, hlist, WirePool.mapDoubles_eq_self_iff, WireLeg.mapDoubles_eq_self_iff]

theorem recovers (h : ∀ x ∈ route.doubles, x.isFinite = true) :
    Recovers route.toJson ofJson? (route.mapDoubles Double.reread) := by
  obtain ⟨hpools, hlegs⟩ := forall_mem_doubles.mp h
  obtain ⟨status, tokenIn, tokenOut, amountIn, amountOut, pools, legs⟩ := route
  obtain ⟨inFound, hin, hreadIn⟩ := tokenIn.recovers
  obtain ⟨outFound, hout, hreadOut⟩ := tokenOut.recovers
  obtain ⟨poolsFound, hpools, hreadPools⟩ :=
    recovers_list fun pool hmem => WirePool.recovers (hpools pool hmem)
  obtain ⟨legsFound, hlegs, hreadLegs⟩ :=
    recovers_list fun leg hmem => WireLeg.recovers (hlegs leg hmem)
  refine ⟨_, .members <| .cons "status" (.string status.name) <| .cons "tokenIn" hin <|
    .cons "tokenOut" hout <| .cons "amountIn" (.string amountIn) <|
    .cons "amountOut" (.string amountOut) <| .cons "pools" hpools <| .cons "legs" hlegs .nil, ?_⟩
  unfold ofJson? mapDoubles
  rw [fields?_all]
  · simp [asString?_ofString, asName?_ofString, hreadIn, hreadOut, hreadPools, hreadLegs,
      listOrEmpty?]
  · rfl
  · decide

theorem parse?_both (h : ∀ x ∈ route.doubles, x.isFinite = true) :
    parse? route.toJson.compactText = some (route.mapDoubles Double.reread) ∧
      parse? route.toJson.prettyText = some (route.mapDoubles Double.reread) := by
  obtain ⟨found, hreads, hfound⟩ := recovers h
  unfold parse?
  rw [hreads.parse?_compactText, hreads.parse?_prettyText]
  exact ⟨hfound, hfound⟩

/-- What the texts of a route are read as: the route with each of its numbers as the text of this
one is read by itself. It is the route itself exactly where each of its numbers is found again, and
so where these are short. -/
structure RoundTrips (route : WireRoute) : Prop where
  compact : parse? route.toJson.compactText = some (route.mapDoubles Double.reread)
  pretty : parse? route.toJson.prettyText = some (route.mapDoubles Double.reread)
  doubles : ∀ x ∈ route.doubles, x.Rereads
  compactExact : parse? route.toJson.compactText = some route ↔ ∀ x ∈ route.doubles, x.reread = x
  prettyExact : parse? route.toJson.prettyText = some route ↔ ∀ x ∈ route.doubles, x.reread = x
  short : (∀ x ∈ route.doubles, Double.IsShort x.magnitude) →
    parse? route.toJson.compactText = some route ∧ parse? route.toJson.prettyText = some route

theorem roundTrips (h : ∀ x ∈ route.doubles, x.isFinite = true) : route.RoundTrips := by
  obtain ⟨hcompact, hpretty⟩ := parse?_both h
  have hrereads : ∀ x ∈ route.doubles, x.Rereads := fun x hx => Double.rereads (h x hx)
  have hexact {text : String} (htext : parse? text = some (route.mapDoubles Double.reread)) :
      parse? text = some route ↔ ∀ x ∈ route.doubles, x.reread = x := by
    rw [htext, Option.some.injEq, mapDoubles_eq_self_iff]
  constructor
  case compact => exact hcompact
  case pretty => exact hpretty
  case doubles => exact hrereads
  case compactExact => exact hexact hcompact
  case prettyExact => exact hexact hpretty
  case short =>
    intro hshort
    have hsame : ∀ x ∈ route.doubles, x.reread = x := fun x hx =>
      (hrereads x hx).short (hshort x hx)
    exact ⟨(hexact hcompact).mpr hsame, (hexact hpretty).mpr hsame⟩

end WireRoute

theorem WireEncodedLeg.recovers (leg : WireEncodedLeg) : Recovers leg.toJson ofJson? leg := by
  obtain ⟨index, family, pool, recipient, offset, length, share⟩ := leg
  have hword (n : UInt64) : asNat? 64 (.ofNat n.toNat) = some n.toNat := asNat?_ofNat n.toNat_lt
  have hshare : asNat? 16 (.ofNat share.toNat) = some share.toNat := asNat?_ofNat share.toNat_lt
  refine ⟨_, .members <| .cons "index" (.nat index.toNat_lt) <|
    .cons "family" (.string family.name) <| .cons "pool" (.string pool) <|
    .cons "recipient" (.string recipient) <| .cons "offset" (.nat offset.toNat_lt) <|
    .cons "length" (.nat length.toNat_lt) <|
    .cons "share" (.nat (Nat.lt_trans share.toNat_lt (by decide))) .nil, ?_⟩
  unfold ofJson?
  rw [fields?_all]
  · simp [asString?_ofString, asName?_ofString, hword, hshare]
  · rfl
  · decide

theorem WireCompiledRoute.recovers (compiled : WireCompiledRoute) :
    Recovers compiled.toJson ofJson? compiled := by
  obtain ⟨payload, entryPoint, revision, tokenIn, tokenOut, amountIn, amountOutMin, legs⟩ :=
    compiled
  obtain ⟨legsFound, hlegs, hreadLegs⟩ :=
    recovers_list fun leg (_ : leg ∈ legs) => leg.recovers
  refine ⟨_, .members <| .cons "payload" (.string payload) <|
    .cons "entryPoint" (.string entryPoint) <| .cons "revision" (.string revision.name) <|
    .cons "tokenIn" (.string tokenIn) <| .cons "tokenOut" (.string tokenOut) <|
    .cons "amountIn" (.string amountIn) <| .cons "amountOutMin" (.string amountOutMin) <|
    .cons "legs" hlegs .nil, ?_⟩
  unfold ofJson?
  rw [fields?_all]
  · simp [asString?_ofString, asName?_ofString, hreadLegs]
  · rfl
  · decide

theorem WireCompiledRoute.parse?_both (compiled : WireCompiledRoute) :
    parse? compiled.toJson.compactText = some compiled ∧
      parse? compiled.toJson.prettyText = some compiled := by
  obtain ⟨found, hreads, hfound⟩ := compiled.recovers
  unfold parse?
  rw [hreads.parse?_compactText, hreads.parse?_prettyText]
  exact ⟨hfound, hfound⟩

/-- The texts of a route with finite numbers are read as this route, up to what its numbers are read
as. The texts of a compiled route are read as this compiled route. -/
theorem WireRoute.parse?_text :
    (∀ route : WireRoute, (∀ x ∈ route.doubles, x.isFinite = true) → route.RoundTrips) ∧
    (∀ compiled : WireCompiledRoute,
      WireCompiledRoute.parse? compiled.toJson.compactText = some compiled ∧
      WireCompiledRoute.parse? compiled.toJson.prettyText = some compiled) :=
  ⟨fun _ => roundTrips, WireCompiledRoute.parse?_both⟩

namespace Sample

def pricedToken (address : String) (symbol : Option String) : WireToken := ⟨address, 18, symbol⟩

/-- A leg through a pool with a fee. -/
def pricedRoute (fee fraction : Double) : WireRoute :=
  let first := pricedToken "0xa0a0a0a0a0a0a0a0a0a0a0a0a0a0a0a0a0a0a0a0" (some "USD\"0\"")
  let second := pricedToken "0xb0b0b0b0b0b0b0b0b0b0b0b0b0b0b0b0b0b0b0b0" none
  let pool := "0x5151515151515151515151515151515151515151"
  ⟨.success, first, second, "1000", "2000",
    [⟨pool, [first, second], "curve", .stable, some fee, none⟩], [⟨first, second, pool, fraction⟩]⟩

/-- The number 0.0005. -/
def lowFee : Double := ⟨0x3F40624DD2F1A9FC⟩

/-- The number 0.35. -/
def plainFraction : Double := ⟨0x3FD6666666666666⟩

/-- The number nearest to 1 / 11. -/
def eleventh : Double := ⟨0x3FB745D1745D1746⟩

/-- The number after `eleventh`. -/
def afterEleventh : Double := ⟨0x3FB745D1745D1747⟩

theorem isShort_lowFee : Double.IsShort lowFee.magnitude :=
  ⟨5, -4, by decide +kernel, by decide, by decide⟩

theorem isShort_plainFraction : Double.IsShort plainFraction.magnitude :=
  ⟨35, -2, by decide +kernel, by decide, by decide⟩

theorem reread_eleventh : eleventh.reread = afterEleventh := by
  have hread : Json.asDouble? (.number eleventh.numeral.reread) = some afterEleventh := by
    decide +kernel
  rw [Double.reread, Double.reread?_eq (by decide), hread, Option.getD_some]

end Sample

open Sample

theorem WireRoute.parse?_text_pricedRoute :
    (pricedRoute lowFee plainFraction).doubles = [lowFee, plainFraction] ∧
      (∀ x ∈ [lowFee, plainFraction], x.isFinite = true) ∧
      parse? (pricedRoute lowFee plainFraction).toJson.compactText =
        some (pricedRoute lowFee plainFraction) ∧
      parse? (pricedRoute lowFee plainFraction).toJson.prettyText =
        some (pricedRoute lowFee plainFraction) := by
  have hdoubles : (pricedRoute lowFee plainFraction).doubles = [lowFee, plainFraction] := rfl
  have hfinite : ∀ x ∈ [lowFee, plainFraction], x.isFinite = true := by decide
  have hshort : ∀ x ∈ [lowFee, plainFraction], Double.IsShort x.magnitude := by
    rw [List.forall_mem_cons, List.forall_mem_singleton]
    exact ⟨isShort_lowFee, isShort_plainFraction⟩
  have htrips := parse?_text.1 (pricedRoute lowFee plainFraction) (hdoubles ▸ hfinite)
  exact ⟨hdoubles, hfinite, htrips.short (hdoubles ▸ hshort)⟩

/-- The fraction 1 / 11 is written as 0.09090909090909091, and that is read as the number after
it. -/
theorem WireRoute.parse?_eleventh :
    (∀ x ∈ (pricedRoute lowFee eleventh).doubles, x.isFinite = true) ∧
      parse? (pricedRoute lowFee eleventh).toJson.compactText =
        some (pricedRoute lowFee afterEleventh) ∧
      parse? (pricedRoute lowFee eleventh).toJson.compactText ≠
        some (pricedRoute lowFee eleventh) := by
  have hfinite : ∀ x ∈ (pricedRoute lowFee eleventh).doubles, x.isFinite = true := by decide
  have hfee : lowFee.reread = lowFee := (Double.rereads (by decide)).short isShort_lowFee
  have hchanged : (pricedRoute lowFee eleventh).mapDoubles Double.reread =
      pricedRoute lowFee afterEleventh := by
    have hmap : (pricedRoute lowFee eleventh).mapDoubles Double.reread =
        pricedRoute lowFee.reread eleventh.reread := rfl
    rw [hmap, hfee, reread_eleventh]
  have hread := (parse?_both hfinite).1
  rw [hchanged] at hread
  have hother : pricedRoute lowFee afterEleventh ≠ pricedRoute lowFee eleventh := by decide
  exact ⟨hfinite, hread, fun hsame => hother (Option.some.inj (hread.symm.trans hsame))⟩

end SwapCalldata
