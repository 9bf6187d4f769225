import SwapCalldata.Proofs.ExactValue

/-!
How far scaling a decimal in steps moves it. Each rounding moves a value by half a place at most: by
half a unit, or by half of the last of 53 bits. The coefficient, the power of ten and each division
add their own error, and all of them together stay within six neighbours of the magnitude that is
nearest to the decimal.
-/
namespace SwapCalldata.Double

variable {num den m k : Nat}

/-- The least distance of neighbours around an exact value: one unit, or one in the last of 53
bits. -/
def place (q : ℚ) : ℚ := max 1 (q / 2 ^ 53)

/-- The most that rounding moves an exact value. -/
def roundingError (q : ℚ) : ℚ := max (1 / 2) (q / 2 ^ 53)

theorem two_pow_doublings_le (num den : Nat) :
    (2 : ℚ) ^ doublings (num / den) ≤ max 1 ((num : ℚ) / den / 2 ^ 52) := by
  rcases le_div_doublings (num / den) with hlow | hnone
  · apply le_max_of_le_right
    rw [Nat.le_div_iff_mul_le (Nat.two_pow_pos _)] at hlow
    have hcast : (2 : ℚ) ^ 52 * 2 ^ doublings (num / den) ≤ (num / den : Nat) := by
      exact_mod_cast hlow
    rw [le_div_iff₀ (by positivity), mul_comm]
    exact hcast.trans Nat.cast_div_le
  · rw [hnone, pow_zero]
    exact le_max_left _ _

theorem abs_units_unbounded_sub_le (num : Nat) (hden : 0 < den) :
    |(units (unbounded num den) : ℚ) - num / den| ≤ roundingError (num / den) := by
  obtain ⟨below, hbetween⟩ := exists_between num hden
  have hpos : (0 : ℚ) < den := by exact_mod_cast hden
  have herror : (2 : ℚ) * Nat.dist (units (unbounded num den) * den) num ≤
      2 ^ doublings (num / den) * den := by exact_mod_cast hbetween.two_mul_dist_le
  have hgap := mul_le_mul_of_nonneg_right (two_pow_doublings_le num den) hpos.le
  have hscaled : (units (unbounded num den) : ℚ) - num / den =
      ((units (unbounded num den) * den : Nat) - num) / den := by
    push_cast
    field_simp
  have hhalf : roundingError (num / den) = max 1 ((num : ℚ) / den / 2 ^ 52) / 2 := by
    have hlast : (num : ℚ) / den / 2 ^ 53 = num / den / 2 ^ 52 / 2 := by ring
    rw [roundingError, hlast, max_div_div_right (by norm_num : (0 : ℚ) ≤ 2)]
  rw [hscaled, abs_div, abs_of_pos hpos, div_le_iff₀ hpos, ← cast_dist, hhalf]
  linarith

theorem units_succ_le (m : Nat) : units (m + 1) + 2 ^ 53 * units m ≤ 2 ^ 53 * units (m + 1) := by
  obtain ⟨significand, shift, hhigh, hlow, rfl⟩ := exists_grid m
  have hnext : significand + shift * binade + 1 = significand + 1 + shift * binade := by omega
  have hbits := Nat.mul_le_mul_right (2 ^ shift) hhigh
  rw [hnext, units_grid hhigh.le hlow, units_grid hhigh (by omega)]
  rw [Nat.succ_mul] at hbits ⊢
  omega

/-- Places add up. -/
theorem mul_place_le (m j : Nat) : j * place (units m) ≤ units (m + j) - units m := by
  induction j with
  | zero => simp
  | succ j ih =>
    have hmono : (units m : ℚ) ≤ units (m + j) := by
      exact_mod_cast units_strictMono.monotone (Nat.le_add_right m j)
    have hstrict : (units (m + j) : ℚ) + 1 ≤ units (m + j + 1) := by
      exact_mod_cast units_strictMono (Nat.lt_succ_self (m + j))
    have hgap : (units (m + j + 1) : ℚ) + 2 ^ 53 * units (m + j) ≤ 2 ^ 53 * units (m + j + 1) := by
      exact_mod_cast units_succ_le (m + j)
    have hplace : place (units m) ≤ units (m + j + 1) - units (m + j) := by
      unfold place
      apply max_le
      · linarith
      · rw [div_le_iff₀ (by norm_num)]
        linarith
    rw [← Nat.add_assoc]
    push_cast
    linarith

/-- Magnitudes whose values are less than seven places apart are at most six neighbours apart. -/
theorem le_add_six {a b : Nat} {q : ℚ} (hlow : q - 8 * place q ≤ units a)
    (h : (units b : ℚ) - units a ≤ 27 / 4 * place q) : b ≤ a + 6 := by
  by_contra hfar
  have hmono : (units (a + 7) : ℚ) ≤ units b := by
    exact_mod_cast units_strictMono.monotone (Nat.succ_le_of_lt (Nat.not_le.mp hfar))
  have hseven := mul_place_le a 7
  have hone : (1 : ℚ) ≤ place (units a) := le_max_left _ _
  have hlast : (units a : ℚ) / 2 ^ 53 ≤ place (units a) := le_max_right _ _
  push_cast at hseven
  rcases max_cases 1 (q / 2 ^ 53) with ⟨hplace, -⟩ | ⟨hplace, -⟩
  · rw [place, hplace] at h hlow
    linarith
  · rw [place, hplace] at h hlow
    linarith

theorem roundingError_of_le {q : ℚ} (h : 2 ^ 52 ≤ q) :
    roundingError q = q / 2 ^ 53 := by
  apply max_eq_right
  rw [le_div_iff₀ (by norm_num)]
  linarith

theorem roundingError_le_place (q : ℚ) : roundingError q ≤ place q :=
  max_le_max_right _ (by norm_num)

/-- A step that is off by less than five places is rounded to a magnitude near the exact one. -/
theorem dist_unbounded_le_six (hden : 0 < den) {q : ℚ}
    (hm : |(units m : ℚ) - q| ≤ roundingError q)
    (h : |(num / den : ℚ) - q| ≤ 9 / 2 * (q / 2 ^ 53) + 3 / 50) :
    Nat.dist (unbounded num den) m ≤ 6 := by
  have hround := abs_units_unbounded_sub_le num hden
  have hlast : q / 2 ^ 53 ≤ place q := le_max_right _ _
  have hone : (1 : ℚ) ≤ place q := le_max_left _ _
  have hsecond : roundingError (num / den) ≤ 101 / 100 * place q := by
    rw [abs_le] at h
    apply max_le
    · linarith
    · rw [div_le_iff₀ (by norm_num)]
      linarith
  have hfirst := hm.trans (roundingError_le_place q)
  rw [abs_le] at hround h hfirst
  have hle : m ≤ unbounded num den + 6 := le_add_six (q := q) (by linarith) (by linarith)
  have hge : unbounded num den ≤ m + 6 := le_add_six (q := q) (by linarith) (by linarith)
  unfold Nat.dist
  omega

theorem nearest_eq_unbounded (h : nearest num den < infinity) :
    nearest num den = unbounded num den := by
  rw [nearest_eq_min] at h ⊢
  omega

theorem dist_nearest_le (hm : m ≤ infinity) :
    Nat.dist (nearest num den) m ≤ Nat.dist (unbounded num den) m := by
  rw [nearest_eq_min]
  unfold Nat.dist
  omega

theorem shiftLeft_eq_mul_unitsOfOne (n : Nat) : n <<< 1074 = n * unitsOfOne :=
  Nat.shiftLeft_eq n halvings

theorem two_pow_le_unitsOfOne : 2 ^ 52 ≤ unitsOfOne :=
  Nat.pow_le_pow_right (by decide) (by decide)

/-- A value that is not small, rounded. -/
theorem abs_units_nearest_sub_le {q : ℚ} (hden : 0 < den) (hfinite : nearest num den < infinity)
    (hexact : (num / den : ℚ) = q) (hlow : 2 ^ 52 ≤ q) :
    |(units (nearest num den) : ℚ) - q| ≤ q / 2 ^ 53 := by
  have herror := abs_units_unbounded_sub_le num hden
  rwa [← nearest_eq_unbounded hfinite, hexact, roundingError_of_le hlow] at herror

theorem two_pow_le_mul_unitsOfOne {a : ℚ} (h : 1 ≤ a) : 2 ^ 52 ≤ a * unitsOfOne := by
  have hone : (2 : ℚ) ^ 52 ≤ unitsOfOne := by exact_mod_cast two_pow_le_unitsOfOne
  nlinarith

theorem abs_units_whole_sub_le {coefficient : Nat} (hpos : coefficient ≠ 0)
    (hword : coefficient < 2 ^ 64) :
    |(units (nearest (coefficient <<< 1074) 1) : ℚ) - coefficient * unitsOfOne| ≤
      coefficient * unitsOfOne / 2 ^ 53 := by
  have hbits := shiftLeft_lt_two_pow hword 1074
  have hsame : 64 + 1074 = 53 + 1085 := rfl
  rw [← Nat.div_one (coefficient <<< 1074), hsame] at hbits
  have hlarge : (1 : ℚ) ≤ coefficient := by exact_mod_cast Nat.one_le_iff_ne_zero.mpr hpos
  apply abs_units_nearest_sub_le Nat.one_pos
  · rw [nearest_eq_min, min_lt_iff]
    exact Or.inl (unbounded_lt_infinity hbits (by decide))
  · rw [shiftLeft_eq_mul_unitsOfOne, Nat.cast_one, div_one, Nat.cast_mul]
  · exact two_pow_le_mul_unitsOfOne hlarge

theorem powerOfTen_eq (k : Nat) : powerOfTen k = nearest (10 ^ k <<< 1074) 1 := by
  have hnone : (-(k : Int)).toNat = 0 := by omega
  rw [powerOfTen, nearestDecimal_eq (by decide), hnone, Int.toNat_natCast, Nat.one_mul,
    Nat.pow_zero]

theorem powerOfTen_mono : Monotone powerOfTen := by
  intro k k' h
  rw [powerOfTen_eq, powerOfTen_eq, Nat.shiftLeft_eq, Nat.shiftLeft_eq]
  exact nearest_mono (Nat.mul_le_mul_right _ (Nat.pow_le_pow_right (by decide) h))

theorem abs_units_powerOfTen_sub_le (h : k ≤ 308) :
    |(units (powerOfTen k) : ℚ) - 10 ^ k * unitsOfOne| ≤ 10 ^ k * unitsOfOne / 2 ^ 53 := by
  have hlast : powerOfTen 308 < infinity := by decide +kernel
  have hfinite := (powerOfTen_mono h).trans_lt hlast
  rw [powerOfTen_eq] at hfinite ⊢
  apply abs_units_nearest_sub_le Nat.one_pos hfinite
  · rw [shiftLeft_eq_mul_unitsOfOne, Nat.cast_one, div_one, Nat.cast_mul]
    push_cast
    rfl
  · exact two_pow_le_mul_unitsOfOne (one_le_pow₀ (by norm_num))

theorem abs_mul_sub_le {x y a b : ℚ} (ha : 0 ≤ a) (hb : 0 ≤ b) (hx : |x - a| ≤ a / 2 ^ 53)
    (hy : |y - b| ≤ b / 2 ^ 53) : |x * y - a * b| ≤ 5 / 2 * (a * b / 2 ^ 53) := by
  have hsplit : x * y - a * b = (x - a) * (y - b) + ((x - a) * b + a * (y - b)) := by ring
  have hboth : |(x - a) * (y - b)| ≤ a / 2 ^ 53 * (b / 2 ^ 53) := by
    rw [abs_mul]
    exact mul_le_mul hx hy (abs_nonneg _) (by positivity)
  have hfirst : |(x - a) * b| ≤ a / 2 ^ 53 * b := by
    rw [abs_mul, abs_of_nonneg hb]
    exact mul_le_mul_of_nonneg_right hx hb
  have hsecond : |a * (y - b)| ≤ a * (b / 2 ^ 53) := by
    rw [abs_mul, abs_of_nonneg ha]
    exact mul_le_mul_of_nonneg_left hy ha
  have hpos : 0 ≤ a * b := mul_nonneg ha hb
  rw [hsplit]
  calc |(x - a) * (y - b) + ((x - a) * b + a * (y - b))|
      ≤ |(x - a) * (y - b)| + (|(x - a) * b| + |a * (y - b)|) :=
        (abs_add_le _ _).trans (add_le_add_right (abs_add_le _ _) _)
    _ ≤ a / 2 ^ 53 * (b / 2 ^ 53) + (a / 2 ^ 53 * b + a * (b / 2 ^ 53)) :=
        add_le_add hboth (add_le_add hfirst hsecond)
    _ = (1 / 2 ^ 53 + 2) * (a * b / 2 ^ 53) := by ring
    _ ≤ 5 / 2 * (a * b / 2 ^ 53) := by
        apply mul_le_mul_of_nonneg_right (by norm_num)
        positivity

theorem abs_div_sub_le {x y a b error : ℚ} (ha : 0 ≤ a) (hb : 0 < b) (hx : |x - a| ≤ error)
    (hy : |y - b| ≤ b / 2 ^ 53) :
    |x / y - a / b| ≤ 101 / 100 * (error / b + a / b / 2 ^ 53) := by
  have hlow : 100 / 101 * b ≤ y := by
    rw [abs_le] at hy
    linarith
  have hpos : 0 < y := by linarith
  have hsplit : x / y - a / b = ((x - a) - a / b * (y - b)) / y := by
    field_simp
    ring
  have hratio : 0 ≤ a / b := by positivity
  have hsum : |(x - a) - a / b * (y - b)| ≤ error + a / 2 ^ 53 := by
    have hsecond : |a / b * (y - b)| ≤ a / 2 ^ 53 := by
      rw [abs_mul, abs_of_nonneg hratio]
      calc a / b * |y - b| ≤ a / b * (b / 2 ^ 53) := mul_le_mul_of_nonneg_left hy hratio
        _ = a / 2 ^ 53 := by field_simp
    exact (abs_sub _ _).trans (add_le_add hx hsecond)
  have herror : 0 ≤ error + a / 2 ^ 53 := (abs_nonneg _).trans hsum
  rw [hsplit, abs_div, abs_of_pos hpos, div_le_iff₀ hpos]
  calc |(x - a) - a / b * (y - b)| ≤ error + a / 2 ^ 53 := hsum
    _ = 101 / 100 * (error / b + a / b / 2 ^ 53) * (100 / 101 * b) := by field_simp
    _ ≤ 101 / 100 * (error / b + a / b / 2 ^ 53) * y := by
        apply mul_le_mul_of_nonneg_left hlow
        have hscaled : error / b + a / b / 2 ^ 53 = (error + a / 2 ^ 53) / b := by field_simp
        rw [hscaled]
        positivity

/-- The exact value of a decimal, in units of 2^-1074. -/
def decimalUnits (coefficient : Nat) (exponent : Int) : ℚ :=
  coefficient * 10 ^ exponent * unitsOfOne

theorem ten_zpow_eq (exponent : Int) :
    (10 : ℚ) ^ exponent = 10 ^ exponent.toNat / 10 ^ (-exponent).toNat := by
  rcases Int.le_total 0 exponent with hpos | hneg
  · have hnone : (-exponent).toNat = 0 := by omega
    rw [hnone, pow_zero, div_one, ← zpow_natCast, Int.toNat_of_nonneg hpos]
  · have hnone : exponent.toNat = 0 := by omega
    have hsize : ((-exponent).toNat : Int) = -exponent := Int.toNat_of_nonneg (by omega)
    rw [hnone, pow_zero, one_div, ← zpow_natCast, hsize, zpow_neg, inv_inv]

theorem decimalUnits_eq_div (coefficient : Nat) (exponent : Int) :
    decimalUnits coefficient exponent =
      ((coefficient * 10 ^ exponent.toNat) <<< 1074 : Nat) / (10 ^ (-exponent).toNat : Nat) := by
  rw [decimalUnits, ten_zpow_eq, shiftLeft_eq_mul_unitsOfOne]
  push_cast
  ring

section

variable {coefficient : Nat} {exponent : Int}

theorem abs_units_nearestDecimal_sub_le (hpos : coefficient ≠ 0)
    (hfinite : nearestDecimal coefficient exponent < infinity) :
    |(units (nearestDecimal coefficient exponent) : ℚ) - decimalUnits coefficient exponent| ≤
      roundingError (decimalUnits coefficient exponent) := by
  rw [nearestDecimal_eq hpos] at hfinite ⊢
  rw [nearest_eq_unbounded hfinite, decimalUnits_eq_div]
  exact abs_units_unbounded_sub_le _ (Nat.pow_pos (by decide))

theorem nearestDecimal_eq_infinity (hpos : coefficient ≠ 0) (h : largestPower < exponent) :
    nearestDecimal coefficient exponent = infinity := by
  unfold largestPower at h
  have hnone : (-exponent).toNat = 0 := by omega
  have hten : 2 ^ 1026 ≤ coefficient * 10 ^ exponent.toNat := by
    calc 2 ^ 1026 ≤ 10 ^ 309 := by decide +kernel
      _ ≤ 10 ^ exponent.toNat := Nat.pow_le_pow_right (by decide) (by omega)
      _ ≤ coefficient * 10 ^ exponent.toNat :=
        Nat.le_mul_of_pos_left _ (Nat.pos_of_ne_zero hpos)
  have hlarge := two_pow_le_shiftLeft hten 1074
  rw [nearestDecimal_eq hpos, hnone, Nat.pow_zero]
  exact nearest_eq_infinity (k := 1026 + 1074) (by decide) (by rwa [Nat.div_one])

theorem two_mul_lt_two_pow {n k : Nat} (h : n < 2 ^ k) : 2 * n < 2 ^ (k + 1) := by
  rw [Nat.pow_succ]
  omega

theorem nearestDecimal_eq_zero (hword : coefficient < 2 ^ 64)
    (h : exponent < -2 * largestPower) : nearestDecimal coefficient exponent = 0 := by
  by_cases hpos : coefficient = 0
  · rw [hpos, nearestDecimal_zero]
  unfold largestPower at h
  have hnone : exponent.toNat = 0 := by omega
  have hsmall := two_mul_lt_two_pow (shiftLeft_lt_two_pow hword 1074)
  have hten (k : Nat) (hk : k ≤ 3 * (-exponent).toNat) : 2 ^ k ≤ 10 ^ (-exponent).toNat :=
    (Nat.pow_le_pow_right (by decide) hk).trans (two_pow_le_ten_pow _)
  rw [nearestDecimal_eq hpos, hnone, Nat.pow_zero, Nat.mul_one]
  exact nearest_eq_zero (hsmall.trans_le (hten _ (by omega)))

theorem dist_nearest_le_six (hden : 0 < den) {q : ℚ} (hfinite : m < infinity)
    (hm : |(units m : ℚ) - q| ≤ roundingError q)
    (h : |(num / den : ℚ) - q| ≤ 9 / 2 * (q / 2 ^ 53) + 3 / 50) :
    Nat.dist (nearest num den) m ≤ 6 :=
  (dist_nearest_le hfinite.le).trans (dist_unbounded_le_six hden hm h)

theorem product_eq (a b : Nat) : product a b = nearest (units a * units b) unitsOfOne := by
  rw [product, shiftLeft_eq_mul_unitsOfOne, Nat.one_mul]

theorem quotient_eq (a b : Nat) : quotient a b = nearest (units a * unitsOfOne) (units b) := by
  rw [quotient, shiftLeft_eq_mul_unitsOfOne]

theorem cast_unitsOfOne_pos : (0 : ℚ) < unitsOfOne := by exact_mod_cast unitsOfOne_pos

theorem units_powerOfTen_pos (h : k ≤ 308) : 0 < units (powerOfTen k) := by
  have herror := abs_units_powerOfTen_sub_le h
  have hpower : (0 : ℚ) < 10 ^ k * unitsOfOne := mul_pos (by positivity) cast_unitsOfOne_pos
  have hpos : (0 : ℚ) < units (powerOfTen k) := by
    rw [abs_le] at herror
    linarith
  exact_mod_cast hpos

theorem decimalUnits_natCast (coefficient k : Nat) :
    decimalUnits coefficient k = coefficient * unitsOfOne * (10 ^ k * unitsOfOne) / unitsOfOne := by
  have hone := cast_unitsOfOne_pos.ne'
  rw [decimalUnits, zpow_natCast]
  field_simp

theorem decimalUnits_neg (coefficient k : Nat) : decimalUnits coefficient (-k) =
    coefficient * unitsOfOne * unitsOfOne / (10 ^ k * unitsOfOne) := by
  have hone := cast_unitsOfOne_pos.ne'
  rw [decimalUnits, zpow_neg, zpow_natCast]
  field_simp

theorem abs_mul_div_sub_le {x y a b unit : ℚ} (hunit : 0 < unit) (ha : 0 ≤ a) (hb : 0 ≤ b)
    (hx : |x - a| ≤ a / 2 ^ 53) (hy : |y - b| ≤ b / 2 ^ 53) :
    |x * y / unit - a * b / unit| ≤ 9 / 2 * (a * b / unit / 2 ^ 53) + 3 / 50 := by
  have herror := abs_mul_sub_le ha hb hx hy
  have hproduct : 0 ≤ a * b / unit / 2 ^ 53 := by positivity
  rw [← sub_div, abs_div, abs_of_pos hunit]
  calc |x * y - a * b| / unit ≤ 5 / 2 * (a * b / 2 ^ 53) / unit :=
        div_le_div_of_nonneg_right herror hunit.le
    _ = 5 / 2 * (a * b / unit / 2 ^ 53) := by ring
    _ ≤ 9 / 2 * (a * b / unit / 2 ^ 53) + 3 / 50 := by linarith

theorem abs_mul_div_sub_le_of_error {x y a b unit error : ℚ} (hunit : 0 < unit) (ha : 0 ≤ a)
    (hb : 0 < b) (hx : |x - a| ≤ error) (hy : |y - b| ≤ b / 2 ^ 53) :
    |x * unit / y - a * unit / b| ≤
      101 / 100 * (error * unit / b + a * unit / b / 2 ^ 53) := by
  have hsplit : x * unit / y - a * unit / b = (x / y - a / b) * unit := by ring
  rw [hsplit, abs_mul, abs_of_pos hunit]
  calc |x / y - a / b| * unit ≤ 101 / 100 * (error / b + a / b / 2 ^ 53) * unit :=
        mul_le_mul_of_nonneg_right (abs_div_sub_le ha hb hx hy) hunit.le
    _ = 101 / 100 * (error * unit / b + a * unit / b / 2 ^ 53) := by ring

/-- A division by at least ten makes an error of half a unit small. -/
theorem abs_mul_div_div_sub_le {x y a b unit : ℚ} (hunit : 0 < unit) (ha : 0 ≤ a)
    (hb : 10 * unit ≤ b) (hx : |x - a| ≤ 1 / 2 + 33 / 10 * (a / 2 ^ 53))
    (hy : |y - b| ≤ b / 2 ^ 53) :
    |x * unit / y - a * unit / b| ≤ 9 / 2 * (a * unit / b / 2 ^ 53) + 3 / 50 := by
  have hpos : 0 < b := by linarith
  have hhalf : unit / b ≤ 1 / 10 := by
    rw [div_le_iff₀ hpos]
    linarith
  have hexact : 0 ≤ a * unit / b / 2 ^ 53 := by positivity
  calc |x * unit / y - a * unit / b|
      ≤ 101 / 100 * ((1 / 2 + 33 / 10 * (a / 2 ^ 53)) * unit / b + a * unit / b / 2 ^ 53) :=
        abs_mul_div_sub_le_of_error hunit ha hpos hx hy
    _ = 101 / 200 * (unit / b) + 4343 / 1000 * (a * unit / b / 2 ^ 53) := by ring
    _ ≤ 9 / 2 * (a * unit / b / 2 ^ 53) + 3 / 50 := by linarith

theorem dist_product_le (hpos : coefficient ≠ 0) (hword : coefficient < 2 ^ 64) (hk : k ≤ 308)
    (hfinite : nearestDecimal coefficient k < infinity) :
    Nat.dist (product (nearest (coefficient <<< 1074) 1) (powerOfTen k))
      (nearestDecimal coefficient k) ≤ 6 := by
  have hone := cast_unitsOfOne_pos
  rw [product_eq]
  apply dist_nearest_le_six unitsOfOne_pos hfinite (abs_units_nearestDecimal_sub_le hpos hfinite)
  rw [decimalUnits_natCast, Nat.cast_mul]
  exact abs_mul_div_sub_le hone (mul_nonneg (Nat.cast_nonneg _) hone.le)
    (mul_nonneg (by positivity) hone.le) (abs_units_whole_sub_le hpos hword)
    (abs_units_powerOfTen_sub_le hk)

theorem ten_mul_unitsOfOne_le (hk : k ≠ 0) : (10 : ℚ) * unitsOfOne ≤ 10 ^ k * unitsOfOne :=
  mul_le_mul_of_nonneg_right (le_self_pow₀ (by norm_num) hk) cast_unitsOfOne_pos.le

theorem dist_quotient_le (hpos : coefficient ≠ 0) (hword : coefficient < 2 ^ 64) (hk : k ≤ 308)
    (hsome : k ≠ 0) (hfinite : nearestDecimal coefficient (-k) < infinity) :
    Nat.dist (quotient (nearest (coefficient <<< 1074) 1) (powerOfTen k))
      (nearestDecimal coefficient (-k)) ≤ 6 := by
  have hone := cast_unitsOfOne_pos
  have hwhole : (0 : ℚ) ≤ coefficient * unitsOfOne := mul_nonneg (Nat.cast_nonneg _) hone.le
  rw [quotient_eq]
  apply dist_nearest_le_six (units_powerOfTen_pos hk) hfinite
    (abs_units_nearestDecimal_sub_le hpos hfinite)
  rw [decimalUnits_neg, Nat.cast_mul]
  apply abs_mul_div_div_sub_le hone hwhole (ten_mul_unitsOfOne_le hsome) _
    (abs_units_powerOfTen_sub_le hk)
  refine (abs_units_whole_sub_le hpos hword).trans ?_
  linarith

theorem decimalUnits_nonneg (coefficient : Nat) (exponent : Int) :
    0 ≤ decimalUnits coefficient exponent :=
  mul_nonneg (mul_nonneg (Nat.cast_nonneg _) (by positivity)) cast_unitsOfOne_pos.le

theorem decimalUnits_neg_le (hword : coefficient < 2 ^ 64) (hk : 20 ≤ k) :
    decimalUnits coefficient (-k) ≤ unitsOfOne := by
  have hone := cast_unitsOfOne_pos
  have hten : (coefficient : ℚ) ≤ 10 ^ k := by
    have hle : 2 ^ 64 ≤ 10 ^ k := (by decide : 2 ^ 64 ≤ 10 ^ 20).trans
      (Nat.pow_le_pow_right (by decide) hk)
    exact_mod_cast hword.le.trans hle
  rw [decimalUnits_neg, div_le_iff₀ (mul_pos (by positivity) hone), mul_comm (unitsOfOne : ℚ),
    mul_assoc, mul_assoc]
  exact mul_le_mul_of_nonneg_right hten (mul_nonneg hone.le hone.le)

theorem lt_infinity_of_units_le (h : (units m : ℚ) ≤ 3 * unitsOfOne) : m < infinity := by
  have hlarge : 3 * unitsOfOne < units infinity := by decide +kernel
  rw [← units_strictMono.lt_iff_lt]
  exact lt_of_le_of_lt (by exact_mod_cast h) hlarge

/-- A step with three roundings behind it, rounded once more. -/
theorem abs_sub_le_of_step {step rounded q : ℚ} (hexact : 0 ≤ q)
    (hstep : |step - q| ≤ 101 / 100 * (q / 2 ^ 53 + q / 2 ^ 53))
    (hround : |rounded - step| ≤ roundingError step) :
    |rounded - q| ≤ 1 / 2 + 33 / 10 * (q / 2 ^ 53) := by
  have hmax : roundingError step ≤ 1 / 2 + 101 / 100 * (q / 2 ^ 53) := by
    rw [abs_le] at hstep
    apply max_le
    · linarith
    · rw [div_le_iff₀ (by norm_num)]
      linarith
  rw [abs_le] at *
  constructor <;> linarith

/-- The first of two divisions may leave the normal numbers, and then makes an error of up to half
a unit. -/
theorem abs_units_quotient_sub_le (hpos : coefficient ≠ 0) (hword : coefficient < 2 ^ 64)
    (hk : k = 308) :
    |(units (quotient (nearest (coefficient <<< 1074) 1) (powerOfTen k)) : ℚ) -
      decimalUnits coefficient (-k)| ≤
        1 / 2 + 33 / 10 * (decimalUnits coefficient (-k) / 2 ^ 53) := by
  have hone := cast_unitsOfOne_pos
  have hwhole : (0 : ℚ) ≤ coefficient * unitsOfOne := mul_nonneg (Nat.cast_nonneg _) hone.le
  have hpower : (0 : ℚ) < 10 ^ k * unitsOfOne := mul_pos (by positivity) hone
  have hstep := abs_mul_div_sub_le_of_error hone hwhole hpower (abs_units_whole_sub_le hpos hword)
    (abs_units_powerOfTen_sub_le hk.le)
  have hsame : (coefficient : ℚ) * unitsOfOne / 2 ^ 53 * unitsOfOne / (10 ^ k * unitsOfOne) =
      decimalUnits coefficient (-k) / 2 ^ 53 := by
    rw [decimalUnits_neg]
    ring
  rw [hsame, ← decimalUnits_neg, ← Nat.cast_mul] at hstep
  have hround := abs_units_unbounded_sub_le
    (units (nearest (coefficient <<< 1074) 1) * unitsOfOne) (units_powerOfTen_pos hk.le)
  have hexact := decimalUnits_nonneg coefficient (-k)
  have hnear := abs_sub_le_of_step hexact hstep hround
  rw [quotient_eq, nearest_eq_min, Nat.min_eq_left (le_of_lt _)]
  · exact hnear
  · apply lt_infinity_of_units_le
    have hsmall := decimalUnits_neg_le hword (show 20 ≤ k by omega)
    have hunit : (1 : ℚ) ≤ unitsOfOne := by exact_mod_cast unitsOfOne_pos
    generalize decimalUnits coefficient (-k) = q at *
    rw [abs_le] at hnear
    linarith

theorem dist_quotient_quotient_le (hpos : coefficient ≠ 0) (hword : coefficient < 2 ^ 64)
    {first : Nat} (hfirst : first = 308) (hk : k ≤ 308) (hsome : k ≠ 0)
    (hfinite : nearestDecimal coefficient (-(first + k : Nat)) < infinity) :
    Nat.dist (quotient (quotient (nearest (coefficient <<< 1074) 1) (powerOfTen first))
      (powerOfTen k)) (nearestDecimal coefficient (-(first + k : Nat))) ≤ 6 := by
  have hone := cast_unitsOfOne_pos
  have hsplit : decimalUnits coefficient (-(first + k : Nat)) =
      decimalUnits coefficient (-first) * unitsOfOne / (10 ^ k * unitsOfOne) := by
    rw [decimalUnits_neg, decimalUnits_neg, pow_add]
    field_simp
  rw [quotient_eq]
  apply dist_nearest_le_six (units_powerOfTen_pos hk) hfinite
    (abs_units_nearestDecimal_sub_le hpos hfinite)
  rw [hsplit, Nat.cast_mul]
  exact abs_mul_div_div_sub_le hone (decimalUnits_nonneg _ _) (ten_mul_unitsOfOne_le hsome)
    (abs_units_quotient_sub_le hpos hword hfirst) (abs_units_powerOfTen_sub_le hk)

/-- Scaling in steps ends at most six neighbours away from the number nearest to the decimal. -/
theorem dist_scaled_le (hword : coefficient < 2 ^ 64)
    (hfinite : nearestDecimal coefficient exponent < infinity) :
    Nat.dist (scaled coefficient exponent) (nearestDecimal coefficient exponent) ≤ 6 := by
  by_cases hpos : coefficient = 0
  · rw [hpos, nearestDecimal_zero, scaled, if_pos rfl]
    decide
  unfold scaled
  simp only [if_neg hpos]
  split_ifs with hhigh hsign hlow hlowest
  · exact absurd (nearestDecimal_eq_infinity hpos hhigh) hfinite.ne
  · obtain ⟨k, rfl⟩ := Int.eq_ofNat_of_zero_le hsign
    exact dist_product_le hpos hword (by unfold largestPower at hhigh; omega) hfinite
  · obtain ⟨k, hk⟩ := Int.eq_ofNat_of_zero_le (show 0 ≤ -exponent by omega)
    obtain rfl : exponent = -k := by omega
    rw [neg_neg, Int.toNat_natCast]
    exact dist_quotient_le hpos hword (by unfold largestPower at hlow; omega) (by omega) hfinite
  · obtain ⟨first, hfirst⟩ := Int.eq_ofNat_of_zero_le (show 0 ≤ largestPower by decide)
    obtain ⟨k, hk⟩ := Int.eq_ofNat_of_zero_le (show 0 ≤ -exponent - largestPower by omega)
    obtain rfl : exponent = -(first + k : Nat) := by omega
    rw [hk, hfirst, Int.toNat_natCast, Int.toNat_natCast]
    unfold largestPower at hfirst hlow hlowest
    exact dist_quotient_quotient_le hpos hword (by omega) (by omega) (by omega) hfinite
  · rw [nearestDecimal_eq_zero hword (by unfold largestPower at *; omega)]
    decide

end

end SwapCalldata.Double
