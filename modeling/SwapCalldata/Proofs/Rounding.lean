import Mathlib.Tactic
import SwapCalldata.Double.Scaled

/-!
Exactness of rounding. A finite magnitude is the nearest one to the value it stands for, and a value
that needs at most 53 bits is not changed by rounding. A decimal therefore has one nearest
magnitude, however it is written, and scaling a short one gives it.
-/
namespace SwapCalldata.Double

theorem binade_eq : binade = 2 ^ 52 := rfl

theorem infinity_eq : infinity = 2047 * binade := rfl

theorem roundHalfEven_mul {k : Nat} (hk : 0 < k) (num den : Nat) :
    roundHalfEven (num * k) (den * k) = roundHalfEven num den := by
  have hbelow : 2 * (num % den * k) < den * k ↔ 2 * (num % den) < den := by
    rw [← Nat.mul_assoc]
    exact Nat.mul_lt_mul_right hk
  have habove : den * k < 2 * (num % den * k) ↔ den < 2 * (num % den) := by
    rw [← Nat.mul_assoc]
    exact Nat.mul_lt_mul_right hk
  simp only [roundHalfEven, Nat.mul_div_mul_right num den hk, Nat.mul_mod_mul_right, hbelow,
    habove]

theorem roundHalfEven_exact {den : Nat} (hden : 0 < den) (quotient : Nat) :
    roundHalfEven (quotient * den) den = quotient := by
  have hrest : 2 * (quotient * den % den) < den := by
    rw [Nat.mul_mod_left]
    exact hden
  rw [roundHalfEven, if_pos hrest, Nat.mul_div_cancel _ hden]

/-- Rounding depends on the value of a quotient only. -/
theorem nearest_mul {k : Nat} (hk : 0 < k) (num den : Nat) :
    nearest (num * k) (den * k) = nearest num den := by
  have hden (shift : Nat) : (den * k) <<< shift = den <<< shift * k := by
    rw [Nat.shiftLeft_eq, Nat.shiftLeft_eq, Nat.mul_right_comm]
  simp only [nearest, Nat.mul_div_mul_right num den hk, hden, roundHalfEven_mul hk]

theorem nearest_of_lt {n : Nat} (h : n < 2 ^ 53) : nearest n 1 = n := by
  have hlog : n.log2 ≤ 52 := by
    by_cases hzero : n = 0
    · simp [hzero]
    · exact Nat.lt_succ_iff.mp ((Nat.log2_lt hzero).mpr h)
  have hexact := roundHalfEven_exact Nat.one_pos n
  rw [Nat.mul_one] at hexact
  have hfinite : n ≤ infinity := by
    rw [infinity_eq, binade_eq]
    omega
  simp only [nearest, Nat.div_one, Nat.sub_eq_zero_of_le hlog, Nat.shiftLeft_zero, hexact,
    Nat.zero_mul, Nat.add_zero, Nat.min_eq_left hfinite]

/-- A significand of 53 bits with a shift goes that many binades up. -/
theorem nearest_mul_two_pow {significand : Nat} (hlow : 2 ^ 52 ≤ significand)
    (hhigh : significand < 2 ^ 53) (shift : Nat) :
    nearest (significand * 2 ^ shift) 1 = min (significand + shift * binade) infinity := by
  have hpow := Nat.two_pow_pos shift
  have hlog : (significand * 2 ^ shift).log2 = 52 + shift := by
    rw [Nat.log2_eq_iff (Nat.mul_pos (by omega) hpow).ne']
    have hl := Nat.mul_le_mul_right (2 ^ shift) hlow
    have hh := Nat.mul_lt_mul_of_pos_right hhigh hpow
    rw [← Nat.pow_add] at hl hh
    exact ⟨hl, by rwa [show 52 + shift + 1 = 53 + shift by omega]⟩
  simp only [nearest, Nat.div_one, hlog, Nat.add_sub_cancel_left, Nat.one_shiftLeft,
    roundHalfEven_exact hpow]

theorem units_of_lt {magnitude : Nat} (h : magnitude < 2 ^ 53) : units magnitude = magnitude := by
  have hnone : magnitude / binade - 1 = 0 := by
    rw [binade_eq]
    omega
  simp [units, hnone]

theorem units_add_binades {significand : Nat} (hlow : 2 ^ 52 ≤ significand)
    (hhigh : significand < 2 ^ 53) (shift : Nat) :
    units (significand + shift * binade) = significand * 2 ^ shift := by
  have hdoublings : (significand + shift * binade) / binade - 1 = shift := by
    rw [Nat.add_mul_div_right _ _ (by decide), binade_eq]
    omega
  simp only [units, hdoublings, Nat.add_sub_cancel, Nat.shiftLeft_eq]

/-- A magnitude of at least two binades as a significand of 53 bits and a shift. -/
theorem exists_significand {magnitude : Nat} (h : 2 ^ 53 ≤ magnitude) :
    ∃ significand shift, 2 ^ 52 ≤ significand ∧ significand < 2 ^ 53 ∧
      magnitude = significand + shift * binade := by
  refine ⟨2 ^ 52 + magnitude % 2 ^ 52, magnitude / 2 ^ 52 - 1, by omega, by omega, ?_⟩
  rw [binade_eq]
  omega

/-- A finite magnitude is the nearest one to its own value. -/
theorem nearest_units {magnitude : Nat} (h : magnitude < infinity) :
    nearest (units magnitude) 1 = magnitude := by
  by_cases hsmall : magnitude < 2 ^ 53
  · rw [units_of_lt hsmall, nearest_of_lt hsmall]
  · obtain ⟨significand, shift, hlow, hhigh, rfl⟩ := exists_significand (Nat.not_lt.mp hsmall)
    rw [units_add_binades hlow hhigh, nearest_mul_two_pow hlow hhigh,
      Nat.min_eq_left (Nat.le_of_lt h)]

/-- The value is at most 53 bits with a shift, in the range of finite numbers. -/
def Exact (n : Nat) : Prop := ∃ significand shift, significand < 2 ^ 53 ∧ shift ≤ 2000 ∧
  n = significand * 2 ^ shift

/-- Where the significand has fewer than 53 bits, part of the shift fills them up. -/
theorem Exact.cases {n : Nat} (h : Exact n) : n < 2 ^ 53 ∨ ∃ significand shift,
    2 ^ 52 ≤ significand ∧ significand < 2 ^ 53 ∧ shift ≤ 2000 ∧ n = significand * 2 ^ shift := by
  obtain ⟨significand, shift, hbits, hrange, rfl⟩ := h
  induction shift generalizing significand with
  | zero => exact Or.inl (by simpa using hbits)
  | succ shift ih =>
    by_cases hfull : 2 ^ 52 ≤ significand
    · exact Or.inr ⟨significand, shift + 1, hfull, hbits, hrange, rfl⟩
    · have hdouble := ih (significand * 2) (by omega) (by omega)
      rwa [Nat.mul_assoc, ← Nat.pow_succ'] at hdouble

/-- A value that is exact is kept. -/
theorem Exact.units_nearest {n : Nat} (h : Exact n) : units (nearest n 1) = n := by
  rcases h.cases with hsmall | ⟨significand, shift, hlow, hhigh, hrange, rfl⟩
  · rw [nearest_of_lt hsmall, units_of_lt hsmall]
  · have hfinite : significand + shift * binade ≤ infinity := by
      rw [infinity_eq, binade_eq]
      omega
    rw [nearest_mul_two_pow hlow hhigh, Nat.min_eq_left hfinite, units_add_binades hlow hhigh]

theorem div_le_roundHalfEven (num den : Nat) : num / den ≤ roundHalfEven num den := by
  simp only [roundHalfEven]
  split
  · exact Nat.le_refl _
  · split
    · exact Nat.le_succ _
    · exact Nat.le_add_right _ _

theorem nearest_eq_infinity {num den k : Nat} (hk : 2098 ≤ k) (h : 2 ^ k ≤ num / den) :
    nearest num den = infinity := by
  have hpos : num / den ≠ 0 := (Nat.lt_of_lt_of_le (Nat.two_pow_pos k) h).ne'
  have hlog : k ≤ (num / den).log2 := (Nat.le_log2 hpos).mpr h
  obtain ⟨doublings, hdoublings⟩ : ∃ doublings, (num / den).log2 = doublings + 52 :=
    ⟨(num / den).log2 - 52, by omega⟩
  have hsignificand : 2 ^ 52 ≤ num / (den * 2 ^ doublings) := by
    rw [← Nat.div_div_eq_div_mul, Nat.le_div_iff_mul_le (Nat.two_pow_pos doublings), ← Nat.pow_add,
      Nat.add_comm, ← hdoublings]
    exact Nat.log2_self_le hpos
  have hrounded := hsignificand.trans (div_le_roundHalfEven num (den * 2 ^ doublings))
  have hlarge : infinity ≤ roundHalfEven num (den * 2 ^ doublings) + doublings * binade := by
    rw [infinity_eq, binade_eq]
    omega
  simp only [nearest, hdoublings, Nat.add_sub_cancel, Nat.shiftLeft_eq, Nat.min_eq_right hlarge]

theorem nearest_eq_zero {num den : Nat} (h : 2 * num < den) : nearest num den = 0 := by
  have hlt : num < den := by omega
  have hquotient : num / den = 0 := Nat.div_eq_of_lt hlt
  simp [nearest, roundHalfEven, hquotient, Nat.mod_eq_of_lt hlt, h]

theorem two_pow_le_ten_pow (k : Nat) : 2 ^ (3 * k) ≤ 10 ^ k := by
  rw [Nat.pow_mul]
  exact Nat.pow_le_pow_left (by decide) k

theorem two_pow_le_shiftLeft {n k : Nat} (h : 2 ^ k ≤ n) (scale : Nat) :
    2 ^ (k + scale) ≤ n <<< scale := by
  rw [Nat.shiftLeft_eq, Nat.pow_add]
  exact Nat.mul_le_mul_right _ h

theorem shiftLeft_lt_two_pow {n k : Nat} (h : n < 2 ^ k) (scale : Nat) :
    n <<< scale < 2 ^ (k + scale) := by
  rw [Nat.shiftLeft_eq, Nat.pow_add]
  exact Nat.mul_lt_mul_of_pos_right h (Nat.two_pow_pos scale)

theorem tenPow_eq (k : Nat) : Decimal.tenPow k = 10 ^ k := rfl

/-- The cut-offs far outside the range of finite numbers agree with rounding. -/
theorem nearestDecimal_eq {coefficient : Nat} (hpos : coefficient ≠ 0) (exponent : Int) :
    nearestDecimal coefficient exponent =
      nearest ((coefficient * 10 ^ exponent.toNat) <<< 1074) (10 ^ (-exponent).toNat) := by
  unfold nearestDecimal
  rw [if_neg hpos]
  split
  next hhigh =>
    have hnone : (-exponent).toNat = 0 := by omega
    have hten : 2 ^ (3 * exponent.toNat) ≤ coefficient * 10 ^ exponent.toNat :=
      (two_pow_le_ten_pow _).trans (Nat.le_mul_of_pos_left _ (Nat.pos_of_ne_zero hpos))
    have hlarge := two_pow_le_shiftLeft hten 1074
    rw [hnone, Nat.pow_zero, nearest_eq_infinity _ (by rwa [Nat.div_one])]
    omega
  next =>
    split
    next hlow =>
      have hnone : exponent.toNat = 0 := by omega
      have hsmall := shiftLeft_lt_two_pow coefficient.lt_log2_self 1074
      have hten : 2 ^ (coefficient.log2 + 1 + 1074 + 1) ≤ 10 ^ (-exponent).toNat :=
        (Nat.pow_le_pow_right (by decide) (by omega)).trans (two_pow_le_ten_pow _)
      rw [hnone, Nat.pow_zero, Nat.mul_one, nearest_eq_zero]
      have hdouble := Nat.mul_lt_mul_of_pos_left hsmall Nat.two_pos
      rw [← Nat.pow_succ'] at hdouble
      exact Nat.lt_of_lt_of_le hdouble hten
    next =>
      cases exponent with
      | ofNat k =>
        have hnone : (-(k : Int)).toNat = 0 := by omega
        rw [Int.ofNat_eq_natCast, hnone, Nat.pow_zero, Int.toNat_natCast, ← tenPow_eq]
      | negSucc k =>
        have hnone : (Int.negSucc k).toNat = 0 := by omega
        have hplaces : (-Int.negSucc k).toNat = k + 1 := by omega
        rw [hnone, hplaces, Nat.pow_zero, Nat.mul_one, ← tenPow_eq]

theorem nearestDecimal_zero (exponent : Int) : nearestDecimal 0 exponent = 0 := rfl

/-- Zeros that are moved from the exponent to the coefficient do not change the magnitude. -/
theorem nearestDecimal_mul_ten_pow (coefficient : Nat) (exponent : Int) (zeros : Nat) :
    nearestDecimal (coefficient * 10 ^ zeros) (exponent - zeros) =
      nearestDecimal coefficient exponent := by
  by_cases hpos : coefficient = 0
  · rw [hpos, Nat.zero_mul, nearestDecimal_zero, nearestDecimal_zero]
  have hshift (a b : Nat) : a <<< 1074 * b = (a * b) <<< 1074 := by
    rw [Nat.shiftLeft_eq, Nat.shiftLeft_eq, Nat.mul_right_comm]
  have hten (k : Nat) : 0 < 10 ^ k := Nat.pow_pos (by decide)
  have hplaces : zeros + (exponent - zeros).toNat + (-exponent).toNat =
      exponent.toNat + (-(exponent - zeros)).toNat := by omega
  rw [nearestDecimal_eq hpos, nearestDecimal_eq (Nat.mul_ne_zero hpos (hten zeros).ne'),
    ← nearest_mul (hten (-exponent).toNat), ← nearest_mul (hten (-(exponent - zeros)).toNat)
      ((coefficient * 10 ^ exponent.toNat) <<< 1074), hshift, hshift, Nat.mul_comm (10 ^ _)]
  simp only [Nat.mul_assoc, ← Nat.pow_add, hplaces]

theorem nearestDecimal_normal (coefficient : Nat) (exponent : Int) :
    nearestDecimal (Decimal.normal coefficient exponent).coefficient
        (Decimal.normal coefficient exponent).exponent =
      nearestDecimal coefficient exponent := by
  fun_induction Decimal.normal coefficient exponent with
  | case1 => rfl
  | case2 coefficient exponent _ hzero ih =>
    have hscale := nearestDecimal_mul_ten_pow (coefficient / 10) (exponent + 1) 1
    rw [Nat.pow_one, Nat.div_mul_cancel (Nat.dvd_of_mod_eq_zero hzero), Nat.cast_one,
      add_sub_cancel_right] at hscale
    rw [ih, hscale]
  | case3 => rfl

theorem nearest_mul_five_pow (n k : Nat) : nearest ((n * 5 ^ k) <<< k) (10 ^ k) = nearest n 1 := by
  have hten : (n * 5 ^ k) <<< k = n * 10 ^ k := by
    rw [Nat.shiftLeft_eq, Nat.mul_assoc, ← Nat.mul_pow]
  have hpos : 0 < 10 ^ k := Nat.pow_pos (by decide)
  have hscale := nearest_mul hpos n 1
  rwa [Nat.one_mul, ← hten] at hscale

theorem nearestDecimal_of_onGrid? {tie : Tie} {magnitude coefficient : Nat} {exponent : Int}
    (h : onGrid? tie magnitude exponent = some coefficient) :
    nearestDecimal coefficient exponent = magnitude := by
  unfold onGrid? at h
  have hfound := List.find?_some h
  exact beq_iff_eq.mp hfound

theorem nearestDecimal_of_onCoarsest? {tie : Tie} {magnitude : Nat} {decimal : Decimal}
    (h : onCoarsest? tie magnitude = some decimal) :
    nearestDecimal decimal.coefficient decimal.exponent = magnitude := by
  unfold onCoarsest? at h
  obtain ⟨exponent, _, hgrid⟩ := List.exists_of_findSome?_eq_some h
  obtain ⟨coefficient, hcoefficient, rfl⟩ := Option.map_eq_some_iff.mp hgrid
  exact nearestDecimal_of_onGrid? hcoefficient

theorem nearestDecimal_mul_five_pow (n : Nat) {k : Nat} (hk : 1074 = k) :
    nearestDecimal (n * 5 ^ k) (-k) = nearest n 1 := by
  by_cases hpos : n = 0
  · rw [hpos, Nat.zero_mul, nearestDecimal_zero, nearest_of_lt (by decide)]
  · have hfive : n * 5 ^ k ≠ 0 := Nat.mul_ne_zero hpos (Nat.pow_pos (by decide)).ne'
    have hnone : (-(k : Int)).toNat = 0 := by omega
    have hplaces : (-(-(k : Int))).toNat = k := by omega
    rw [nearestDecimal_eq hfive, hnone, hplaces, Nat.pow_zero, Nat.mul_one, hk,
      nearest_mul_five_pow]

theorem exactValue_eq (magnitude : Nat) {k : Nat} (hk : 1074 = k) :
    exactValue magnitude = ⟨units magnitude * 5 ^ k, -k⟩ := by
  have hcast : (-1074 : Int) = -((1074 : Nat) : Int) := rfl
  unfold exactValue
  rw [hcast, hk]
  rfl

theorem nearestDecimal_exactValue {magnitude : Nat} (h : magnitude < infinity) :
    nearestDecimal (exactValue magnitude).coefficient (exactValue magnitude).exponent =
      magnitude := by
  obtain ⟨k, hk⟩ : ∃ k : Nat, 1074 = k := ⟨_, rfl⟩
  rw [exactValue_eq magnitude hk, nearestDecimal_mul_five_pow _ hk, nearest_units h]

/-- A finite magnitude is the nearest one to the decimal it is written as. -/
theorem nearestDecimal_shortest (tie : Tie) {magnitude : Nat} (h : magnitude < infinity) :
    nearestDecimal (shortest tie magnitude).coefficient (shortest tie magnitude).exponent =
      magnitude := by
  have hdecimal : nearestDecimal ((onCoarsest? tie magnitude).getD (exactValue magnitude)).coefficient
      ((onCoarsest? tie magnitude).getD (exactValue magnitude)).exponent = magnitude := by
    cases hgrid : onCoarsest? tie magnitude with
    | none => rw [Option.getD_none, nearestDecimal_exactValue h]
    | some decimal => rw [Option.getD_some, nearestDecimal_of_onCoarsest? hgrid]
  simp only [shortest, nearestDecimal_normal, hdecimal]

theorem units_nearest_shiftLeft {n scale : Nat} (hbits : n < 2 ^ 53) (hrange : scale ≤ 2000) :
    units (nearest (n <<< scale) 1) = n <<< scale :=
  Exact.units_nearest ⟨n, scale, hbits, hrange, Nat.shiftLeft_eq n scale⟩

/-- A power of ten whose odd part has at most 53 bits is exact. -/
theorem units_powerOfTen {k : Nat} (h : k ≤ 22) : units (powerOfTen k) = (10 ^ k) <<< 1074 := by
  have hfive : 5 ^ k < 2 ^ 53 := Nat.lt_of_le_of_lt (Nat.pow_le_pow_right (by decide) h) (by decide)
  have hten (scale : Nat) : (10 ^ k) <<< scale = (5 ^ k) <<< (k + scale) := by
    rw [Nat.shiftLeft_eq, Nat.shiftLeft_eq, Nat.pow_add, ← Nat.mul_assoc, ← Nat.mul_pow]
  have hnone : (-(k : Int)).toNat = 0 := by omega
  rw [powerOfTen, nearestDecimal_eq (by decide), hnone, Int.toNat_natCast, Nat.one_mul, hten,
    Nat.pow_zero, units_nearest_shiftLeft hfive (by omega)]

theorem nearest_product (x y scale : Nat) :
    nearest (x <<< scale * y <<< scale) (1 <<< scale) = nearest ((x * y) <<< scale) 1 := by
  have hscale := nearest_mul (Nat.two_pow_pos scale) (x * y * 2 ^ scale) 1
  rw [Nat.shiftLeft_eq, Nat.shiftLeft_eq, Nat.shiftLeft_eq, Nat.shiftLeft_eq, ← hscale,
    Nat.mul_mul_mul_comm, ← Nat.mul_assoc]

theorem nearest_quotient (x y scale : Nat) :
    nearest ((x <<< scale) <<< scale) (y <<< scale) = nearest (x <<< scale) y := by
  rw [Nat.shiftLeft_eq _ scale, Nat.shiftLeft_eq y, nearest_mul (Nat.two_pow_pos scale)]

/-- A decimal with a coefficient of 53 bits and an exact power of ten is scaled by one rounding. -/
theorem scaled_eq_nearestDecimal {coefficient : Nat} {exponent : Int}
    (hbits : coefficient < 2 ^ 53) (hlow : -22 ≤ exponent) (hhigh : exponent ≤ 22) :
    scaled coefficient exponent = nearestDecimal coefficient exponent := by
  have hstart := units_nearest_shiftLeft hbits (show 1074 ≤ 2000 by decide)
  unfold scaled largestPower
  by_cases hpos : coefficient = 0
  · rw [if_pos hpos, hpos, nearestDecimal_zero]
  rw [if_neg hpos, if_neg (by omega), nearestDecimal_eq hpos]
  by_cases hsign : 0 ≤ exponent
  · have hnone : (-exponent).toNat = 0 := by omega
    rw [if_pos hsign, product, hstart, units_powerOfTen (by omega), nearest_product, hnone,
      Nat.pow_zero]
  · have hnone : exponent.toNat = 0 := by omega
    rw [if_neg hsign, if_pos (by omega), quotient, hstart, units_powerOfTen (by omega),
      nearest_quotient, hnone, Nat.pow_zero, Nat.mul_one]

end SwapCalldata.Double
