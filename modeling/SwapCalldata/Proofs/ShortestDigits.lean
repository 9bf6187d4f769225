import SwapCalldata.Proofs.StepwiseScaling

/-!
The shortest decimal of a finite magnitude. The finest of the twenty grids that are searched has
neighbouring magnitudes far more than its own distance apart, so the search finds a decimal there at
the latest, and every grid is coarse enough for the coefficient to fit 64 bits.
-/
namespace SwapCalldata

namespace Decimal

theorem normal_zero (exponent : Int) : normal 0 exponent = ⟨0, 0⟩ := by
  rw [normal, if_pos rfl]

theorem normal_mul_ten_pow (coefficient : Nat) (exponent : Int) (zeros : Nat) :
    normal (coefficient * 10 ^ zeros) (exponent - zeros) =
      normal coefficient exponent := by
  by_cases hpos : coefficient = 0
  · rw [hpos, Nat.zero_mul, normal_zero, normal_zero]
  induction zeros with
  | zero => rw [Nat.pow_zero, Nat.mul_one, Int.natCast_zero, Int.sub_zero]
  | succ zeros ih =>
    have hsome : coefficient * 10 ^ (zeros + 1) ≠ 0 := Nat.mul_ne_zero hpos (by simp)
    have hten : coefficient * 10 ^ (zeros + 1) = coefficient * 10 ^ zeros * 10 := by
      rw [Nat.pow_succ, Nat.mul_assoc]
    have hplaces : exponent - (zeros + 1 : Nat) + 1 = exponent - zeros := by omega
    rw [normal, if_neg hsome, hten, if_pos (Nat.mul_mod_left _ _),
      Nat.mul_div_cancel _ (by decide), hplaces, ih]

theorem exponent_normal {coefficient : Nat} {exponent : Int}
    (h : (normal coefficient exponent).coefficient = 0) :
    (normal coefficient exponent).exponent = 0 := by
  fun_induction normal coefficient exponent with
  | case1 => rfl
  | case2 _ _ _ _ ih => exact ih h
  | case3 coefficient exponent hpos _ => exact absurd h hpos

theorem coefficient_normal_le (coefficient : Nat) (exponent : Int) :
    (normal coefficient exponent).coefficient ≤ coefficient := by
  fun_induction normal coefficient exponent with
  | case1 => exact Nat.zero_le _
  | case2 coefficient exponent _ _ ih => exact ih.trans (Nat.div_le_self _ _)
  | case3 => exact Nat.le_refl _

theorem le_exponent_normal {coefficient : Nat} (hpos : coefficient ≠ 0) (exponent : Int) :
    exponent ≤ (normal coefficient exponent).exponent := by
  fun_induction normal coefficient exponent with
  | case1 => contradiction
  | case2 coefficient exponent _ hzero ih =>
    have hnext := ih (by omega)
    omega
  | case3 => exact le_rfl

/-- Zeros that leave the coefficient come back as places before the point. -/
theorem coefficient_normal_mul_le (coefficient : Nat) (exponent : Int) :
    (normal coefficient exponent).coefficient *
        10 ^ ((normal coefficient exponent).exponent + 1).toNat ≤
      coefficient * 10 ^ (exponent + 1).toNat := by
  fun_induction normal coefficient exponent with
  | case1 => exact Nat.zero_le _
  | case2 coefficient exponent _ hzero ih =>
    have hten : coefficient = coefficient / 10 * 10 := by omega
    have hplaces : (exponent + 1 + 1).toNat ≤ (exponent + 1).toNat + 1 := by omega
    calc _ ≤ coefficient / 10 * 10 ^ (exponent + 1 + 1).toNat := ih
      _ ≤ coefficient / 10 * 10 ^ ((exponent + 1).toNat + 1) :=
        Nat.mul_le_mul_left _ (Nat.pow_le_pow_right (by decide) hplaces)
      _ = coefficient / 10 * 10 * 10 ^ (exponent + 1).toNat := by
        rw [Nat.pow_succ', Nat.mul_assoc]
      _ = coefficient * 10 ^ (exponent + 1).toNat := by rw [← hten]
  | case3 => exact Nat.le_refl _

end Decimal

namespace Double

open Decimal

/-- For values of each bit length, the finest of the twenty grids is fine enough to tell neighbours
apart, and coarse enough for coefficients of 64 bits. -/
theorem finest_grid : ∀ a < (21 : Nat), ∀ b < (100 : Nat),
    let log : Nat := 100 * a + b
    let exponent := ((log : Int) - 1074) * 30103 / 100000 + 2 - 19
    tenPow exponent.toNat * 2 ^ (1074 + 56) ≤ 2 ^ log * tenPow (-exponent).toNat ∧
      2 ^ (log + 1) * tenPow (-exponent).toNat < 2 ^ (1074 + 63) * tenPow exponent.toNat := by
  decide +kernel

/-- The distance of the multiples of a power of ten, in units. -/
def gridUnits (exponent : Int) : ℚ := 10 ^ exponent * unitsOfOne

variable {m : Nat}

theorem gridUnits_pos (exponent : Int) : 0 < gridUnits exponent :=
  mul_pos (by positivity) cast_unitsOfOne_pos

theorem decimalUnits_eq_mul_gridUnits (coefficient : Nat) (exponent : Int) :
    decimalUnits coefficient exponent = coefficient * gridUnits exponent :=
  mul_assoc _ _ _

theorem gridUnits_mono {exponent exponent' : Int} (h : exponent ≤ exponent') :
    gridUnits exponent ≤ gridUnits exponent' :=
  mul_le_mul_of_nonneg_right (zpow_le_zpow_right₀ (by norm_num) h) cast_unitsOfOne_pos.le

theorem finest_gridUnits {log : Nat} (h : log < 2100) :
    gridUnits (((log : Int) - 1074) * 30103 / 100000 + 2 - 19) * 2 ^ 56 ≤ 2 ^ log ∧
      (2 : ℚ) ^ (log + 1) <
        2 ^ 63 * gridUnits (((log : Int) - 1074) * 30103 / 100000 + 2 - 19) := by
  have hsplit : 100 * (log / 100) + log % 100 = log := Nat.div_add_mod log 100
  obtain ⟨hfine, hcoarse⟩ := finest_grid (log / 100) (by omega) (log % 100) (by omega)
  rw [hsplit] at hfine hcoarse
  generalize ((log : Int) - 1074) * 30103 / 100000 + 2 - 19 = exponent at *
  have hone : (unitsOfOne : ℚ) = 2 ^ halvings := by rw [unitsOfOne, Nat.cast_pow, Nat.cast_ofNat]
  have hscale : 1074 = halvings := rfl
  have hden : (0 : ℚ) < 10 ^ (-exponent).toNat := by positivity
  simp only [tenPow_eq, hscale, Nat.pow_add] at hfine hcoarse
  rw [gridUnits, ten_zpow_eq, hone]
  generalize halvings = scale at *
  have hfine' : (10 : ℚ) ^ exponent.toNat * (2 ^ scale * 2 ^ 56) ≤
      2 ^ log * 10 ^ (-exponent).toNat := by exact_mod_cast hfine
  have hcoarse' : (2 : ℚ) ^ log * 2 ^ 1 * 10 ^ (-exponent).toNat <
      2 ^ scale * 2 ^ 63 * 10 ^ exponent.toNat := by exact_mod_cast hcoarse
  constructor
  · rw [div_mul_eq_mul_div, div_mul_eq_mul_div, div_le_iff₀ hden]
    linarith
  · rw [div_mul_eq_mul_div, mul_div_assoc', lt_div_iff₀ hden, pow_succ]
    linarith

theorem abs_unbounded_sub_le (num : Nat) {den : Nat} (hden : 0 < den) (other : Nat) :
    |(units (unbounded num den) : ℚ) - num / den| ≤ |(units other : ℚ) - num / den| := by
  have hpos : (0 : ℚ) < den := by exact_mod_cast hden
  have hscaled (n : Nat) : |(units n : ℚ) - num / den| * den = Nat.dist (units n * den) num := by
    rw [cast_dist, ← abs_of_pos hpos, ← abs_mul, abs_of_pos hpos, Nat.cast_mul, sub_mul,
      div_mul_cancel₀ _ hpos.ne']
  apply le_of_mul_le_mul_right _ hpos
  rw [hscaled, hscaled]
  exact_mod_cast dist_unbounded_le num hden other

theorem add_place_le {a b : Nat} (h : a < b) : (units a : ℚ) + place (units a) ≤ units b := by
  have hnext := mul_place_le a 1
  have hmono : (units (a + 1) : ℚ) ≤ units b := by exact_mod_cast units_strictMono.monotone h
  rw [Nat.cast_one, one_mul] at hnext
  linarith

/-- A decimal that is very close to a magnitude has this one as the nearest. -/
theorem nearestDecimal_of_close {coefficient : Nat} {exponent : Int} (hpos : 0 < units m)
    (hm : m < infinity)
    (h : |decimalUnits coefficient exponent - units m| ≤ units m / 2 ^ 57) :
    nearestDecimal coefficient exponent = m := by
  have hunits : (0 : ℚ) < units m := by exact_mod_cast hpos
  have hsome : coefficient ≠ 0 := by
    rintro rfl
    rw [decimalUnits, Nat.cast_zero, zero_mul, zero_mul, zero_sub, abs_neg,
      abs_of_pos hunits] at h
    linarith
  have hden : 0 < 10 ^ (-exponent).toNat := Nat.pow_pos (by decide)
  rw [decimalUnits_eq_div] at h
  rw [nearestDecimal_eq hsome, nearest_eq_min]
  generalize (coefficient * 10 ^ exponent.toNat) <<< 1074 = num at *
  generalize 10 ^ (-exponent).toNat = den at *
  have hnearest := abs_unbounded_sub_le num hden m
  rw [abs_sub_comm] at h
  have hfar := hnearest.trans h
  rw [abs_le] at h hfar
  have hsame : unbounded num den = m := by
    rcases Nat.lt_trichotomy (unbounded num den) m with hlt | heq | hgt
    · have hgap := add_place_le hlt
      have hlast : (units (unbounded num den) : ℚ) / 2 ^ 53 ≤ place (units (unbounded num den)) :=
        le_max_right _ _
      linarith
    · exact heq
    · have hgap := add_place_le hgt
      have hlast : (units m : ℚ) / 2 ^ 53 ≤ place (units m) := le_max_right _ _
      linarith
  rw [hsame, Nat.min_eq_left hm.le]

theorem exists_neighbours_of_eq (tie : Tie) {exponent : Int} {num den : Nat} (hden : 0 < den)
    (hnum : units m * tenPow (-exponent).toNat = num)
    (hgrid : tenPow exponent.toNat <<< 1074 = den) : ∃ first second,
      neighbours tie m exponent = [first, second] ∧ 2 * Nat.dist (first * den) num ≤ den ∧
        ∀ coefficient ∈ [first, second], coefficient * den ≤ num + den := by
  have hsplit := Nat.div_add_mod' num den
  have hrest := Nat.mod_lt num hden
  have hnext : (num / den + 1) * den = num / den * den + den := Nat.succ_mul _ _
  unfold neighbours Nat.dist
  simp only [hnum, hgrid]
  clear hnum hgrid
  split
  next habove =>
    simp only [Bool.or_eq_true, decide_eq_true_eq, Bool.and_eq_true, beq_iff_eq] at habove
    refine ⟨num / den + 1, num / den, rfl, by omega, ?_⟩
    simp only [List.mem_cons, List.not_mem_nil, or_false, forall_eq_or_imp, forall_eq]
    omega
  next hbelow =>
    simp only [Bool.or_eq_true, decide_eq_true_eq, not_or, not_lt] at hbelow
    refine ⟨num / den, num / den + 1, rfl, by omega, ?_⟩
    simp only [List.mem_cons, List.not_mem_nil, or_false, forall_eq_or_imp, forall_eq]
    omega

/-- The multiples of a power of ten around a magnitude: the first is the nearer one, and neither is
beyond the next. -/
theorem exists_neighbours (tie : Tie) (m : Nat) (exponent : Int) : ∃ first second,
    neighbours tie m exponent = [first, second] ∧
      |decimalUnits first exponent - units m| ≤ gridUnits exponent / 2 ∧
      ∀ coefficient ∈ [first, second],
        decimalUnits coefficient exponent ≤ units m + gridUnits exponent := by
  obtain ⟨den, hden⟩ : ∃ den, tenPow exponent.toNat <<< 1074 = den := ⟨_, rfl⟩
  obtain ⟨num, hnum⟩ : ∃ num, units m * tenPow (-exponent).toNat = num := ⟨_, rfl⟩
  have hone := cast_unitsOfOne_pos
  have hscale : (0 : ℚ) < tenPow (-exponent).toNat := by
    rw [tenPow_eq, Nat.cast_pow]
    positivity
  have hgrid : gridUnits exponent * tenPow (-exponent).toNat = den := by
    have hnone := hone.ne'
    rw [← hden, gridUnits, ten_zpow_eq, shiftLeft_eq_mul_unitsOfOne, tenPow_eq, tenPow_eq]
    push_cast
    field_simp
  have hpos : 0 < den := by
    have hcast : (0 : ℚ) < den := hgrid ▸ mul_pos (gridUnits_pos exponent) hscale
    exact_mod_cast hcast
  have hvalue : (units m : ℚ) * tenPow (-exponent).toNat = num := by exact_mod_cast hnum
  have hdecimal (coefficient : Nat) : decimalUnits coefficient exponent *
      tenPow (-exponent).toNat = (coefficient * den : Nat) := by
    rw [Nat.cast_mul, ← hgrid, decimalUnits, gridUnits]
    ring
  obtain ⟨first, second, hneighbours, hnear, hupper⟩ := exists_neighbours_of_eq tie hpos hnum hden
  refine ⟨first, second, hneighbours, ?_, fun coefficient hmem => ?_⟩
  · have hcast : (2 : ℚ) * |(first * den : Nat) - (num : ℚ)| ≤ den := by
      rw [← cast_dist]
      exact_mod_cast hnear
    rw [← hdecimal, ← hvalue, ← sub_mul, abs_mul, abs_of_pos hscale, ← hgrid] at hcast
    have hcancel : 2 * |decimalUnits first exponent - units m| ≤ gridUnits exponent :=
      le_of_mul_le_mul_right (by linarith) hscale
    linarith
  · have hcast : ((coefficient * den : Nat) : ℚ) ≤ num + den := by
      exact_mod_cast hupper coefficient hmem
    rw [← hdecimal, ← hvalue, ← hgrid, ← add_mul] at hcast
    exact le_of_mul_le_mul_right hcast hscale

theorem exists_onGrid? (tie : Tie) {exponent : Int} (hpos : 0 < units m) (hm : m < infinity)
    (h : gridUnits exponent * 2 ^ 56 ≤ units m) :
    ∃ coefficient, onGrid? tie m exponent = some coefficient := by
  obtain ⟨first, second, hneighbours, hfirst, -⟩ := exists_neighbours tie m exponent
  have hclose : nearestDecimal first exponent = m := by
    apply nearestDecimal_of_close hpos hm
    refine hfirst.trans ?_
    linarith
  refine ⟨first, ?_⟩
  rw [onGrid?, hneighbours, List.find?_cons_of_pos (by rw [hclose, beq_self_eq_true])]

theorem coefficient_lt_of_onGrid? {tie : Tie} {coefficient : Nat} {exponent : Int}
    (h : onGrid? tie m exponent = some coefficient)
    (hgrid : (units m : ℚ) < 2 ^ 63 * gridUnits exponent) : coefficient < 2 ^ 64 := by
  obtain ⟨first, second, hneighbours, -, hle⟩ := exists_neighbours tie m exponent
  have hmem := List.mem_of_find?_eq_some h
  rw [hneighbours] at hmem
  have hcoefficient := hle coefficient hmem
  have hpos := gridUnits_pos exponent
  rw [decimalUnits_eq_mul_gridUnits] at hcoefficient
  have hsmall : (coefficient : ℚ) * gridUnits exponent < 2 ^ 64 * gridUnits exponent := by linarith
  have hcast : (coefficient : ℚ) < (2 ^ 64 : Nat) := by
    rw [Nat.cast_pow, Nat.cast_ofNat]
    exact lt_of_mul_lt_mul_right hsmall hpos.le
  exact_mod_cast hcast

/-- The finest of the twenty grids, measured by a magnitude. -/
theorem finest_gridUnits_le (hpos : 0 < units m) (hm : m < infinity) :
    gridUnits (coarsest m - 19) * 2 ^ 56 ≤ units m ∧
      (units m : ℚ) < 2 ^ 63 * gridUnits (coarsest m - 19) := by
  have hbits : (units m).log2 < 2100 := by
    have hlast : (units infinity).log2 < 2100 := by decide +kernel
    rw [Nat.log2_eq_log_two] at hlast ⊢
    exact (Nat.log_mono_right (units_strictMono hm).le).trans_lt hlast
  obtain ⟨hfine, hcoarse⟩ := finest_gridUnits hbits
  have hlow : (2 : ℚ) ^ (units m).log2 ≤ units m := by
    exact_mod_cast Nat.log2_self_le hpos.ne'
  have hhigh : (units m : ℚ) < 2 ^ ((units m).log2 + 1) := by
    exact_mod_cast Nat.lt_log2_self
  exact ⟨hfine.trans hlow, hhigh.trans hcoarse⟩

theorem mem_grids_iff {exponent : Int} :
    exponent ∈ (List.range 20).map (fun (step : Nat) => coarsest m - Int.ofNat step) ↔
      coarsest m - 19 ≤ exponent ∧ exponent ≤ coarsest m := by
  simp only [List.mem_map, List.mem_range, Int.ofNat_eq_natCast]
  constructor
  · rintro ⟨step, hstep, rfl⟩
    omega
  · rintro ⟨hlow, hhigh⟩
    exact ⟨(coarsest m - exponent).toNat, by omega, by omega⟩

/-- One of the twenty grids has a decimal of the magnitude, with a coefficient of 64 bits. -/
theorem exists_onCoarsest? (tie : Tie) (hpos : 0 < units m) (hm : m < infinity) :
    ∃ decimal, onCoarsest? tie m = some decimal ∧ decimal.coefficient < 2 ^ 64 := by
  obtain ⟨hfine, hcoarse⟩ := finest_gridUnits_le hpos hm
  obtain ⟨coefficient, hcoefficient⟩ := exists_onGrid? tie hpos hm hfine
  have hsome : (onCoarsest? tie m).isSome = true := by
    unfold onCoarsest?
    rw [List.findSome?_isSome_iff]
    refine ⟨coarsest m - 19, mem_grids_iff.mpr ⟨le_rfl, by omega⟩, ?_⟩
    rw [hcoefficient]
    rfl
  obtain ⟨decimal, hdecimal⟩ := Option.isSome_iff_exists.mp hsome
  refine ⟨decimal, hdecimal, ?_⟩
  unfold onCoarsest? at hdecimal
  obtain ⟨exponent, hexponent, hgrid⟩ := List.exists_of_findSome?_eq_some hdecimal
  obtain ⟨found, hfound, rfl⟩ := Option.map_eq_some_iff.mp hgrid
  have hle := gridUnits_mono (mem_grids_iff.mp hexponent).1
  exact coefficient_lt_of_onGrid? hfound (by linarith)

theorem shortest_zero (tie : Tie) : shortest tie 0 = ⟨0, 0⟩ := by
  cases tie <;> decide +kernel

theorem shortest_of_onCoarsest? {tie : Tie} {decimal : Decimal}
    (h : onCoarsest? tie m = some decimal) :
    shortest tie m = normal decimal.coefficient decimal.exponent := by
  simp only [shortest, h, Option.getD_some]

/-- The shortest decimal of a finite magnitude has a coefficient of 64 bits. -/
theorem coefficient_shortest_lt (tie : Tie) (hm : m < infinity) :
    (shortest tie m).coefficient < 2 ^ 64 := by
  by_cases hzero : m = 0
  · rw [hzero, shortest_zero]
    decide
  · have hpos := units_strictMono (Nat.pos_of_ne_zero hzero)
    rw [units_zero] at hpos
    obtain ⟨decimal, hdecimal, hword⟩ := exists_onCoarsest? tie hpos hm
    rw [shortest_of_onCoarsest? hdecimal]
    exact (coefficient_normal_le decimal.coefficient decimal.exponent).trans_lt hword

end Double

end SwapCalldata
