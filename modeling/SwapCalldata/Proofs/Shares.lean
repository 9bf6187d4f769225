import SwapCalldata.Proofs.Compilation
import SwapCalldata.Proofs.ExactValue
import SwapCalldata.Proofs.WireMeaning

/-!
Shares of a flow. A fraction is multiplied in double precision and the product goes to the nearest
whole number, so the share is rounded twice. It still keeps the order of fractions, and it is off
the exact share by no more than a half and the error of the product; for several legs these add up.
-/
namespace SwapCalldata

namespace Double

variable {x y : Double} {m : Nat}

/-- The share of a magnitude. Infinity and what is rounded to it have the whole flow. -/
def shareOf (magnitude : Nat) : Nat :=
  min (nearestWhole (nearest (units magnitude * 65535) 1)) 65535

theorem shareOf_zero : shareOf 0 = 0 := rfl

theorem shareOf_mono : Monotone shareOf := by
  intro m m' h
  have hproduct := Nat.mul_le_mul_right 65535 (units_strictMono.monotone h)
  exact min_le_min_right _ (nearestWhole_mono (nearest_mono hproduct))

theorem whole_le_nearestWhole_infinity : 65535 ≤ nearestWhole infinity := by
  decide +kernel

theorem shareOf_of_infinity_le (h : infinity ≤ nearest (units m * 65535) 1) :
    shareOf m = 65535 := by
  have hlarge := whole_le_nearestWhole_infinity.trans (nearestWhole_mono h)
  exact Nat.min_eq_right hlarge

/-- Beyond the finite numbers the product is infinite and the share is the whole flow. -/
theorem shareOf_of_infinity_le_magnitude (h : infinity ≤ m) : shareOf m = 65535 := by
  apply shareOf_of_infinity_le
  have hunits : units infinity ≤ units m * 65535 :=
    (units_strictMono.monotone h).trans (Nat.le_mul_of_pos_right _ (by decide))
  have hmono := nearest_mono hunits
  rwa [nearest_eq_min (units infinity), unbounded_units, Nat.min_self] at hmono

theorem toNat_share (x : Double) : x.share.toNat =
    if x.isNaN || x.isNegative then 0 else shareOf x.magnitude := by
  unfold share
  simp only [isNegative_mulNat]
  by_cases hfinite : x.isFinite = true
  · rw [not_isNaN_mulNat hfinite, not_isNaN_of_isFinite hfinite, Bool.false_or]
    split
    · rfl
    · by_cases hproduct : (x.mulNat 65535).isFinite = true
      · rw [if_pos hproduct, magnitude_mulNat hfinite, UInt16.toNat_ofNat']
        exact Nat.mod_eq_of_lt ((Nat.min_le_right _ _).trans_lt (by decide))
      · have hlarge : infinity ≤ nearest (units x.magnitude * 65535) 1 := by
          rw [← magnitude_mulNat hfinite]
          simpa [isFinite] using hproduct
        rw [if_neg hproduct, shareOf_of_infinity_le hlarge]
        rfl
  · have hlarge : infinity ≤ x.magnitude := by simpa [isFinite] using hfinite
    have hsame : x.mulNat 65535 = x := if_neg hfinite
    rw [hsame, if_neg hfinite, shareOf_of_infinity_le_magnitude hlarge]
    split <;> rfl

/-- A larger number has no smaller share. -/
theorem share_le_share (h : x.le y = true) : x.share ≤ y.share := by
  simp only [le, Bool.and_eq_true, Bool.not_eq_true', decide_eq_true_eq] at h
  obtain ⟨⟨hx, hy⟩, hrank⟩ := h
  rw [UInt16.le_iff_toNat_le, toNat_share, toNat_share, hx, hy, Bool.false_or, Bool.false_or]
  cases hxsign : x.isNegative <;> cases hysign : y.isNegative
  · rw [rank_of_not_isNegative hxsign, rank_of_not_isNegative hysign, Int.ofNat_le] at hrank
    simp only [Bool.false_eq_true, if_false]
    exact shareOf_mono hrank
  -- A number that is not below zero and at most a negative one is a zero.
  · rw [rank_of_not_isNegative hxsign, rank_of_isNegative hysign] at hrank
    have hzero : x.magnitude = 0 := by omega
    simp only [hzero, shareOf_zero, if_true, Bool.false_eq_true, if_false, Nat.le_refl]
  · simp only [if_true, Nat.zero_le]
  · simp only [if_true, Nat.le_refl]

theorem unitsOfOne_mul : unitsOfOne * 2 ^ 16 = 2 ^ (53 + 1037) := by decide +kernel

theorem unitsOfOne_eq_mul : unitsOfOne = 2 ^ 37 * 2 ^ 1037 := by decide +kernel

/-- A bound that the exact value obeys can be put in force without going further away from it. -/
theorem dist_min_mul_le {bound unit exact : Nat} (h : exact ≤ bound * unit) (whole : Nat) :
    Nat.dist (min whole bound * unit) exact ≤ Nat.dist (whole * unit) exact := by
  rcases Nat.le_total whole bound with hle | hge
  · rw [Nat.min_eq_left hle]
  · have hmul := Nat.mul_le_mul_right unit hge
    rw [Nat.min_eq_right hge]
    unfold Nat.dist
    omega

/-- The share of a fraction is off by half of one and by what the product is off. -/
theorem dist_shareOf_le (h : m ≤ one.magnitude) :
    2 ^ 38 * Nat.dist (shareOf m * unitsOfOne) (units m * 65535) ≤ (2 ^ 37 + 1) * unitsOfOne := by
  have hunits : units m ≤ unitsOfOne := units_one ▸ units_strictMono.monotone h
  have hexact : units m * 65535 ≤ 65535 * unitsOfOne := by omega
  have hbits : units m * 65535 < 2 ^ (53 + 1037) := by
    have hpos := unitsOfOne_pos
    rw [← unitsOfOne_mul]
    omega
  have hproduct : nearest (units m * 65535) 1 = unbounded (units m * 65535) 1 := by
    rw [← Nat.div_one (units m * 65535)] at hbits
    rw [nearest_eq_min, Nat.min_eq_left (unbounded_lt_infinity hbits (by decide)).le]
  have hrounded := two_mul_dist_unbounded_le hbits
  have hwhole := two_mul_dist_nearestWhole_le (unbounded (units m * 65535) 1)
  have htriangle := Nat.dist.triangle_inequality
    (nearestWhole (unbounded (units m * 65535) 1) * unitsOfOne)
    (units (unbounded (units m * 65535) 1)) (units m * 65535)
  have hclamp := dist_min_mul_le hexact (nearestWhole (unbounded (units m * 65535) 1))
  have hhalf := unitsOfOne_eq_mul
  unfold shareOf
  rw [hproduct]
  omega

/-- How far a share can be from the exact one: a half, and 2^-38 from the rounded product. -/
def shareError : ℚ := 1 / 2 + 1 / 2 ^ 38

/-- A distance that is counted in units, as a distance of quotients. -/
theorem abs_sub_le_shareError {share unit exact : Nat} (hunit : 0 < unit)
    (h : 2 ^ 38 * Nat.dist (share * unit) (exact * 65535) ≤ (2 ^ 37 + 1) * unit) :
    |(share : ℚ) - 65535 * (exact / unit)| ≤ shareError := by
  have hpos : (0 : ℚ) < unit := by exact_mod_cast hunit
  have hbound : ((2 ^ 38 * Nat.dist (share * unit) (exact * 65535) : Nat) : ℚ) ≤
      ((2 ^ 37 + 1) * unit : Nat) := by exact_mod_cast h
  rw [Nat.cast_mul, cast_dist] at hbound
  have hscaled : (share : ℚ) - 65535 * (exact / unit) = (share * unit - exact * 65535) / unit := by
    field_simp
  rw [hscaled, abs_div, abs_of_pos hpos, div_le_iff₀ hpos, shareError]
  push_cast at hbound
  linarith

theorem IsFraction.abs_share_sub_le (h : x.IsFraction) :
    |(x.share.toNat : ℚ) - 65535 * x.value| ≤ shareError := by
  obtain ⟨hsign, -, hmagnitude⟩ := isFraction_iff.mp h
  have hnumber : x.isNaN = false :=
    decide_eq_false (Nat.not_lt.mpr (hmagnitude.trans (by decide)))
  have hshare : x.share.toNat = shareOf x.magnitude := by
    simp only [toNat_share, hnumber, hsign, Bool.or_false, Bool.false_eq_true, if_false]
  rw [hshare, value_of_not_isNegative hsign]
  exact abs_sub_le_shareError unitsOfOne_pos (dist_shareOf_le hmagnitude)

/-- Errors of several terms add up. -/
theorem abs_sum_sub_le {α : Type} {terms : List α} {rounded exact : α → ℚ} {factor error : ℚ}
    (h : ∀ a ∈ terms, |rounded a - factor * exact a| ≤ error) :
    |(terms.map rounded).sum - factor * (terms.map exact).sum| ≤ terms.length * error := by
  induction terms with
  | nil => simp
  | cons a rest ih =>
    obtain ⟨hfirst, hrest⟩ := List.forall_mem_cons.mp h
    have hothers := ih hrest
    rw [abs_le] at hfirst hothers ⊢
    simp only [List.map_cons, List.sum_cons, List.length_cons, Nat.cast_add, Nat.cast_one]
    constructor <;> linarith

theorem toNat_share_of_isFinite (h : (x.mulNat 65535).isFinite = true) :
    (x.share.toNat : ℤ) = max 0 (min ⌊(x.mulNat 65535).value + 1 / 2⌋ 65535) := by
  have hfinite : x.isFinite = true := by
    by_contra hinfinite
    rw [mulNat, if_neg hinfinite] at h
    exact hinfinite h
  rw [toNat_share, not_isNaN_of_isFinite hfinite, Bool.false_or]
  cases hsign : x.isNegative with
  | true =>
    have hfloor : ⌊(x.mulNat 65535).value + 1 / 2⌋ ≤ 0 := by
      have hnonneg := units_div_nonneg (x.mulNat 65535).magnitude
      rw [value_of_isNegative ((isNegative_mulNat x 65535).trans hsign)]
      apply Int.floor_le_iff.mpr
      push_cast
      linarith
    rw [if_pos rfl]
    omega
  | false =>
    rw [value_of_not_isNegative ((isNegative_mulNat x 65535).trans hsign),
      floor_add_half_eq_nearestWhole, magnitude_mulNat hfinite]
    simp [shareOf]

theorem share_of_not_isFinite (hnumber : x.isNaN = false)
    (h : (x.mulNat 65535).isFinite = false) : x.share = if x.isNegative then 0 else 65535 := by
  have hproduct : (x.mulNat 65535).isNaN = false := by
    by_cases hfinite : x.isFinite = true
    · exact not_isNaN_mulNat hfinite 65535
    · rwa [mulNat, if_neg hfinite]
  unfold share
  simp only [hproduct, isNegative_mulNat, h, Bool.false_or, Bool.false_eq_true, if_false]

/-- How a number is taken as a share: the product is rounded to nearest even, and from there to the
nearest whole number, a half upwards, between 0 and 65535. -/
structure RoundsTwice (x : Double) : Prop where
  product : x.isFinite = true → (x.mulNat 65535).isNegative = x.isNegative ∧
    ∃ m, IsNearest (units x.magnitude * 65535) m ∧ (x.mulNat 65535).magnitude = min m infinity
  whole : (x.mulNat 65535).isFinite = true →
    (x.share.toNat : ℤ) = max 0 (min ⌊(x.mulNat 65535).value + 1 / 2⌋ 65535)
  infinite : x.isNaN = false → (x.mulNat 65535).isFinite = false →
    x.share = if x.isNegative then 0 else 65535
  noNumber : x.isNaN = true → x.share = 0
  range : x.share.toNat ≤ 65535

theorem roundsTwice (x : Double) : x.RoundsTwice := by
  constructor
  case product =>
    intro hfinite
    refine ⟨isNegative_mulNat x 65535, unbounded (units x.magnitude * 65535) 1,
      isNearest_unbounded _, ?_⟩
    rw [magnitude_mulNat hfinite, nearest_eq_min]
  case whole => exact toNat_share_of_isFinite
  case infinite => exact share_of_not_isFinite
  case noNumber =>
    intro hnumber
    apply UInt16.toNat_inj.mp
    rw [toNat_share, hnumber, Bool.true_or, if_pos rfl]
    rfl
  case range => exact Nat.lt_succ_iff.mp x.share.toNat_lt

end Double

/-- The legs' shares, added up, are near the exact share of their fractions. -/
theorem Leg.abs_sum_share_sub_le (legs : List Leg) :
    |(legs.map fun leg => (leg.fraction.share.toNat : ℚ)).sum -
        65535 * (legs.map fun leg => leg.fraction.value).sum| ≤ legs.length * Double.shareError :=
  Double.abs_sum_sub_le fun leg _ => leg.isFraction.abs_share_sub_le

namespace Compiler

section

variable {κ ε : Type} [Constructor κ ε] [Encoding ε] {registry : Registry κ}
  {compiler : Compiler κ} {route : Route} {revision : Revision} {recipient : Address}
  {compiled : CompiledRoute}

theorem shares_encodeLeg {progress done : Progress ε} {leg : Leg}
    (h : encodeLeg registry route revision progress leg recipient = .ok done) :
    done.legs.map EncodedLeg.share =
      progress.legs.map EncodedLeg.share ++ [leg.fraction.share] := by
  unfold encodeLeg at h
  obtain ⟨⟨encoder, cache⟩, _, h⟩ := Outcome.bind_eq_ok_iff.mp h
  obtain ⟨bytes?, _, h⟩ := Outcome.bind_eq_ok_iff.mp h
  cases bytes? with
  | none => cases h
  | some bytes =>
    obtain rfl := Except.ok.inj h
    rw [List.map_append]
    rfl

theorem shares_encodeLegs {progress done : Progress ε} {legs : List Leg}
    (h : encodeLegs registry route revision recipient progress legs = .ok done) :
    done.legs.map EncodedLeg.share =
      progress.legs.map EncodedLeg.share ++ legs.map fun leg => leg.fraction.share := by
  induction legs generalizing progress with
  | nil =>
    obtain rfl := Except.ok.inj h
    rw [List.map_nil, List.append_nil]
  | cons leg rest ih =>
    rw [encodeLegs_cons, Outcome.bind_eq_ok_iff] at h
    obtain ⟨next, hleg, hrest⟩ := h
    rw [ih hrest, shares_encodeLeg hleg, List.map_cons, List.append_assoc, List.singleton_append]

theorem shares_compile (h : compiler.compile route revision recipient = .ok compiled) :
    compiled.legs.map EncodedLeg.share = route.legs.map fun leg => leg.fraction.share := by
  unfold compile at h
  split at h
  · cases h
  split at h
  · cases h
  obtain ⟨done, hdone, h⟩ := Outcome.bind_eq_ok_iff.mp h
  obtain ⟨_, _, h⟩ := Outcome.bind_eq_ok_iff.mp h
  obtain rfl := Except.ok.inj h
  exact shares_encodeLegs hdone

/-- The shares of a compiled route are those of its legs. -/
theorem abs_sum_share_compile_sub_le
    (h : compiler.compile route revision recipient = .ok compiled) :
    |(compiled.legs.map fun entry => (entry.share.toNat : ℚ)).sum -
        65535 * (route.legs.map fun leg => leg.fraction.value).sum| ≤
      route.legs.length * Double.shareError := by
  have hshares := congrArg (List.map fun share => (share.toNat : ℚ)) (shares_compile h)
  rw [List.map_map, List.map_map] at hshares
  have hsame : (compiled.legs.map fun entry => (entry.share.toNat : ℚ)) =
      route.legs.map fun leg => (leg.fraction.share.toNat : ℚ) := hshares
  rw [hsame]
  exact Leg.abs_sum_share_sub_le route.legs

end

end Compiler

/-- Where a part of the flow is taken for a leg, and how near its share is. -/
structure Double.GivesShare (x : Double) : Prop where
  taken : ∀ (source target : Token) (pool : Pool),
    (∃ leg, Leg.make source target pool x = .ok leg) ↔
      x.isFinite = true ∧ 0 < x.value ∧ x.value ≤ 1
  near : ∀ (source target : Token) (pool : Pool) leg, Leg.make source target pool x = .ok leg →
    leg.fraction = x ∧ |(x.share.toNat : ℚ) - 65535 * x.value| ≤ 1 / 2 + 1 / 2 ^ 38

theorem Double.givesShare (x : Double) : x.GivesShare := by
  constructor
  case taken =>
    intro source target pool
    rw [← isFraction_iff_value]
    constructor
    · rintro ⟨leg, hleg⟩
      obtain ⟨-, -, -, rfl⟩ := Leg.make_eq_ok_iff.mp hleg
      exact leg.isFraction
    · intro h
      exact ⟨⟨source, target, pool, x, h⟩, dif_pos h⟩
  case near =>
    intro source target pool leg hleg
    obtain ⟨-, -, -, rfl⟩ := Leg.make_eq_ok_iff.mp hleg
    exact ⟨rfl, leg.isFraction.abs_share_sub_le⟩

/-- Shares keep the order of numbers and are near the exact shares of fractions, one by one and
added up over the legs of a list and over those of a compiled route. -/
theorem Double.shares_proportional :
    (∀ x : Double, x.RoundsTwice ∧ x.GivesShare) ∧
    (∀ x y : Double, x.le y = true → x.share ≤ y.share) ∧
    (∀ x y : Double, x.isFinite = true → y.isFinite = true →
      (x.le y = true ↔ x.value ≤ y.value)) ∧
    (∀ legs : List Leg, |(legs.map fun leg => (leg.fraction.share.toNat : ℚ)).sum -
      65535 * (legs.map fun leg => leg.fraction.value).sum| ≤ legs.length * (1 / 2 + 1 / 2 ^ 38)) ∧
    ∀ (κ ε : Type) [Constructor κ ε] [Encoding ε] (compiler : Compiler κ) route revision recipient
      compiled, compiler.compile route revision recipient = .ok compiled →
      |(compiled.legs.map fun entry => (entry.share.toNat : ℚ)).sum -
        65535 * (route.legs.map fun leg => leg.fraction.value).sum| ≤
          route.legs.length * (1 / 2 + 1 / 2 ^ 38) :=
  ⟨fun x => ⟨roundsTwice x, givesShare x⟩, fun _ _ => share_le_share,
    fun _ _ => le_iff_value_le, Leg.abs_sum_share_sub_le,
    fun _ _ _ _ _ _ _ _ _ => Compiler.abs_sum_share_compile_sub_le⟩

/-- The exact share of this fraction is 2^-53 below 34815.5. Its product is rounded up to that half,
so the share is off by more than a half. -/
example : Double.share ⟨0x3FE1000100010001⟩ = 34816 ∧
    (Double.units 0x3FE1000100010001 * 65535 + Double.unitsOfOne / 2 ^ 53) * 2 =
      69631 * Double.unitsOfOne := by
  decide +kernel

end SwapCalldata
