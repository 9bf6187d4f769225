import SwapCalldata.Proofs.NearestEven
import SwapCalldata.Route

/-!
Exact values of numbers. Finite numbers compare as their exact values do, a product with a natural
is the exact product rounded once, and the nearest whole number is that of the exact value.
-/
namespace SwapCalldata.Double

variable {x y : Double} {m : Nat}

/-- A unit is one halved so many times. -/
def halvings : Nat := 1074

/-- One, in units of 2^-1074. -/
def unitsOfOne : Nat := 2 ^ halvings

/-- The exact value of a finite number. -/
def value (x : Double) : ℚ :=
  (if x.isNegative then -1 else 1) * (units x.magnitude / unitsOfOne)

theorem unitsOfOne_pos : 0 < unitsOfOne := by
  unfold unitsOfOne
  positivity

theorem signBit_eq : signBit = 2 ^ 63 := rfl

theorem toNat_bits_ofMagnitude (negative : Bool) (h : m < signBit) :
    (ofMagnitude negative m).bits.toNat = (if negative then signBit else 0) + m := by
  unfold ofMagnitude
  rw [UInt64.toNat_ofNat']
  apply Nat.mod_eq_of_lt
  rw [signBit_eq] at *
  split <;> omega

theorem isNegative_ofMagnitude (negative : Bool) (h : m < signBit) :
    (ofMagnitude negative m).isNegative = negative := by
  unfold isNegative
  rw [toNat_bits_ofMagnitude negative h]
  cases negative
  · simpa using h
  · simp

theorem magnitude_ofMagnitude (negative : Bool) (h : m < signBit) :
    (ofMagnitude negative m).magnitude = m := by
  unfold magnitude
  rw [toNat_bits_ofMagnitude negative h]
  cases negative
  · simpa using Nat.mod_eq_of_lt h
  · simpa using Nat.mod_eq_of_lt h

theorem nearest_le_infinity (num den : Nat) : nearest num den ≤ infinity := by
  simp only [nearest]
  exact Nat.min_le_right _ _

theorem nearest_lt_signBit (num den : Nat) : nearest num den < signBit :=
  (nearest_le_infinity num den).trans_lt (by decide)

theorem isNegative_mulNat (x : Double) (factor : Nat) :
    (x.mulNat factor).isNegative = x.isNegative := by
  unfold mulNat
  split
  · exact isNegative_ofMagnitude _ (nearest_lt_signBit _ _)
  · rfl

theorem magnitude_mulNat (h : x.isFinite = true) (factor : Nat) :
    (x.mulNat factor).magnitude = nearest (units x.magnitude * factor) 1 := by
  unfold mulNat
  rw [if_pos h, magnitude_ofMagnitude _ (nearest_lt_signBit _ _)]

theorem unbounded_units (m : Nat) : unbounded (units m) 1 = m := by
  have hle := (isNearest_unbounded (units m)).le m
  rw [Nat.dist_self, Nat.le_zero] at hle
  exact units_strictMono.injective (Nat.eq_of_dist_eq_zero hle)

theorem not_isNaN_of_isFinite (h : x.isFinite = true) : x.isNaN = false := by
  unfold isFinite at h
  unfold isNaN
  exact decide_eq_false (Nat.not_lt.mpr (of_decide_eq_true h).le)

theorem not_isNaN_mulNat (h : x.isFinite = true) (factor : Nat) :
    (x.mulNat factor).isNaN = false := by
  unfold isNaN
  rw [magnitude_mulNat h]
  exact decide_eq_false (Nat.not_lt.mpr (nearest_le_infinity _ _))

theorem nearestWhole_mono : Monotone nearestWhole := by
  intro m m' h
  unfold nearestWhole
  rw [Nat.shiftRight_eq_div_pow, Nat.shiftRight_eq_div_pow]
  exact Nat.div_le_div_right (Nat.add_le_add_right (units_strictMono.monotone h) _)

theorem unitsOfOne_eq_double : unitsOfOne = 2 * (1 <<< 1073) := by decide +kernel

theorem units_one : units one.magnitude = unitsOfOne := by decide +kernel

theorem shiftRight_eq_div_unitsOfOne (n : Nat) : n >>> 1074 = n / unitsOfOne :=
  Nat.shiftRight_eq_div_pow n halvings

/-- The nearest whole number, by one division. -/
theorem nearestWhole_eq (m : Nat) :
    nearestWhole m = (2 * units m + unitsOfOne) / (2 * unitsOfOne) := by
  unfold nearestWhole
  rw [shiftRight_eq_div_unitsOfOne, ← Nat.mul_div_mul_left _ _ Nat.two_pos, Nat.mul_add,
    ← unitsOfOne_eq_double]

theorem cast_dist (a b : Nat) : ((Nat.dist a b : Nat) : ℚ) = |(a : ℚ) - b| := by
  rcases Nat.le_total a b with hle | hge
  · have hcast : (a : ℚ) ≤ b := by exact_mod_cast hle
    rw [Nat.dist_eq_sub_of_le hle, Nat.cast_sub hle, abs_sub_comm, abs_of_nonneg (by linarith)]
  · have hcast : (b : ℚ) ≤ a := by exact_mod_cast hge
    rw [Nat.dist_eq_sub_of_le_right hge, Nat.cast_sub hge, abs_of_nonneg (by linarith)]

theorem two_mul_dist_nearestWhole_le (m : Nat) :
    2 * Nat.dist (nearestWhole m * unitsOfOne) (units m) ≤ unitsOfOne := by
  have hpos := unitsOfOne_pos
  have hsplit := Nat.div_add_mod' (2 * units m + unitsOfOne) (2 * unitsOfOne)
  have hrest := Nat.mod_lt (2 * units m + unitsOfOne) (Nat.mul_pos Nat.two_pos hpos)
  rw [← nearestWhole_eq, Nat.mul_left_comm] at hsplit
  unfold Nat.dist
  omega

theorem value_of_not_isNegative (h : x.isNegative = false) :
    x.value = units x.magnitude / unitsOfOne := by
  rw [value, h, if_neg Bool.false_ne_true, one_mul]

theorem value_of_isNegative (h : x.isNegative = true) :
    x.value = -(units x.magnitude / unitsOfOne) := by
  rw [value, h, if_pos rfl, neg_one_mul]

theorem value_one : one.value = 1 := by
  have hone : (unitsOfOne : ℚ) ≠ 0 := by exact_mod_cast unitsOfOne_pos.ne'
  rw [value_of_not_isNegative (by decide), units_one, div_self hone]

theorem units_div_nonneg (m : Nat) : (0 : ℚ) ≤ units m / unitsOfOne :=
  div_nonneg (Nat.cast_nonneg _) (Nat.cast_nonneg _)

theorem units_div_le_units_div_iff {m' : Nat} :
    (units m : ℚ) / unitsOfOne ≤ units m' / unitsOfOne ↔ m ≤ m' := by
  have hone : (0 : ℚ) < unitsOfOne := by exact_mod_cast unitsOfOne_pos
  rw [div_le_div_iff_of_pos_right hone, Nat.cast_le, units_strictMono.le_iff_le]

theorem units_div_nonpos_iff : (units m : ℚ) / unitsOfOne ≤ 0 ↔ m = 0 := by
  have hle := @units_div_le_units_div_iff m 0
  rwa [units_zero, Nat.cast_zero, zero_div, Nat.le_zero] at hle

theorem rank_of_not_isNegative (h : x.isNegative = false) : x.rank = x.magnitude := by
  rw [rank, h, if_neg Bool.false_ne_true]

theorem rank_of_isNegative (h : x.isNegative = true) : x.rank = -x.magnitude := by
  rw [rank, h, if_pos rfl]

/-- The order of finite numbers is that of their exact values. -/
theorem value_le_value_iff (x y : Double) : x.value ≤ y.value ↔ x.rank ≤ y.rank := by
  cases hx : x.isNegative <;> cases hy : y.isNegative
  · rw [value_of_not_isNegative hx, value_of_not_isNegative hy, rank_of_not_isNegative hx,
      rank_of_not_isNegative hy, units_div_le_units_div_iff, Int.ofNat_le]
  -- A number that is not below zero is at most a negative one only where both are zero.
  · have hxpos := units_div_nonneg x.magnitude
    have hypos := units_div_nonneg y.magnitude
    have hsides : (units x.magnitude : ℚ) / unitsOfOne ≤ -(units y.magnitude / unitsOfOne) ↔
        x.magnitude = 0 ∧ y.magnitude = 0 := by
      rw [← units_div_nonpos_iff, ← units_div_nonpos_iff]
      constructor
      · exact fun hle => ⟨by linarith, by linarith⟩
      · exact fun ⟨hxzero, hyzero⟩ => by linarith
    rw [value_of_not_isNegative hx, value_of_isNegative hy, hsides, rank_of_not_isNegative hx,
      rank_of_isNegative hy]
    omega
  · have hle := (neg_nonpos.mpr (units_div_nonneg x.magnitude)).trans
      (units_div_nonneg y.magnitude)
    rw [value_of_isNegative hx, value_of_not_isNegative hy, rank_of_isNegative hx,
      rank_of_not_isNegative hy, iff_true_left hle]
    omega
  · rw [value_of_isNegative hx, value_of_isNegative hy, rank_of_isNegative hx,
      rank_of_isNegative hy, neg_le_neg_iff, units_div_le_units_div_iff, neg_le_neg_iff,
      Int.ofNat_le]

theorem le_iff_value_le (hx : x.isFinite = true) (hy : y.isFinite = true) :
    x.le y = true ↔ x.value ≤ y.value := by
  rw [value_le_value_iff]
  simp [le, not_isNaN_of_isFinite hx, not_isNaN_of_isFinite hy]

theorem lt_iff_value_lt (hx : x.isFinite = true) (hy : y.isFinite = true) :
    x.lt y = true ↔ x.value < y.value := by
  rw [← not_le, value_le_value_iff]
  simp [lt, not_isNaN_of_isFinite hx, not_isNaN_of_isFinite hy]

theorem value_zero : zero.value = 0 := by
  have hmagnitude : zero.magnitude = 0 := by decide
  rw [value_of_not_isNegative (by decide), hmagnitude, units_zero, Nat.cast_zero, zero_div]

theorem isFraction_iff : x.IsFraction ↔
    x.isNegative = false ∧ 0 < x.magnitude ∧ x.magnitude ≤ one.magnitude := by
  have hzero : zero.isNaN = false ∧ zero.rank = 0 := by decide
  have hone : one.isNaN = false ∧ one.rank = one.magnitude := by decide
  have hfinite : one.magnitude < infinity := by decide
  unfold IsFraction
  simp only [lt, le, hzero, hone, Bool.and_eq_true, Bool.not_eq_true', decide_eq_true_eq,
    true_and, and_true]
  cases hsign : x.isNegative
  · rw [rank_of_not_isNegative hsign, isNaN, decide_eq_false_iff_not, eq_self_iff_true, true_and]
    omega
  · rw [rank_of_isNegative hsign]
    simp

theorem IsFraction.isFinite (h : x.IsFraction) : x.isFinite = true := by
  obtain ⟨-, -, hmagnitude⟩ := isFraction_iff.mp h
  exact decide_eq_true (hmagnitude.trans_lt (by decide))

/-- A fraction is a finite number above 0 and at most 1. -/
theorem isFraction_iff_value : x.IsFraction ↔ x.isFinite = true ∧ 0 < x.value ∧ x.value ≤ 1 := by
  have hzero : zero.isFinite = true := by decide
  have hone : one.isFinite = true := by decide
  rw [← value_zero, ← value_one]
  constructor
  · intro h
    exact ⟨h.isFinite, (lt_iff_value_lt hzero h.isFinite).mp h.1,
      (le_iff_value_le h.isFinite hone).mp h.2⟩
  · rintro ⟨hfinite, hpos, hle⟩
    exact ⟨(lt_iff_value_lt hzero hfinite).mpr hpos, (le_iff_value_le hfinite hone).mpr hle⟩

/-- The nearest whole number to an exact value, a half upwards. -/
theorem floor_add_half_eq_nearestWhole (m : Nat) :
    ⌊(units m : ℚ) / unitsOfOne + 1 / 2⌋ = (nearestWhole m : ℤ) := by
  have hone : (unitsOfOne : ℚ) ≠ 0 := by exact_mod_cast unitsOfOne_pos.ne'
  have hsum : (units m : ℚ) / unitsOfOne + 1 / 2 =
      ((2 * units m + unitsOfOne : Nat) : ℚ) / (2 * unitsOfOne : Nat) := by
    push_cast
    field_simp
  rw [hsum, Rat.floor_natCast_div_natCast, nearestWhole_eq, Int.natCast_div]

end SwapCalldata.Double
