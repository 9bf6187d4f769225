import SwapCalldata.Proofs.ShortestDigits

/-!
Decimals with few digits. The number nearest to such a decimal has no other one with as few digits,
so it is written as this decimal, and scaling that by a small power of ten rounds once.
-/
namespace SwapCalldata.Double

open Decimal

variable {m coefficient other : Nat} {exponent : Int} {tie : Tie}

theorem two_pow_le_decimalUnits (hpos : coefficient ≠ 0) (hlow : -22 ≤ exponent) :
    2 ^ 52 ≤ decimalUnits coefficient exponent := by
  have hunits : 2 ^ 52 * 10 ^ 22 ≤ unitsOfOne := by decide +kernel
  have hcast : (2 : ℚ) ^ 52 * 10 ^ 22 ≤ unitsOfOne := by exact_mod_cast hunits
  have hone : (1 : ℚ) ≤ coefficient := by exact_mod_cast Nat.one_le_iff_ne_zero.mpr hpos
  have hten : (10 : ℚ) ^ (-22 : Int) ≤ 10 ^ exponent := zpow_le_zpow_right₀ (by norm_num) hlow
  calc (2 : ℚ) ^ 52 = (1 : ℚ) * 10 ^ (-22 : Int) * (2 ^ 52 * 10 ^ 22) := by norm_num
    _ ≤ (coefficient : ℚ) * 10 ^ exponent * unitsOfOne := by gcongr

theorem abs_decimalUnits_sub_decimalUnits (first second : Nat) (exponent : Int) :
    |decimalUnits first exponent - decimalUnits second exponent| =
      Nat.dist first second * gridUnits exponent := by
  rw [decimalUnits_eq_mul_gridUnits, decimalUnits_eq_mul_gridUnits, ← sub_mul, abs_mul,
    abs_of_pos (gridUnits_pos exponent), cast_dist]

theorem gridUnits_add (exponent : Int) (places : Nat) :
    gridUnits (exponent + places) = 10 ^ places * gridUnits exponent := by
  rw [gridUnits, gridUnits, zpow_add₀ (by norm_num), zpow_natCast]
  ring

/-- The search stops on no finer grid than one that has a decimal of the magnitude. -/
theorem le_exponent_onCoarsest? {decimal : Decimal} (hrange : coarsest m - 19 ≤ exponent)
    (hle : exponent ≤ coarsest m) (h : onGrid? tie m exponent = some coefficient)
    (hdecimal : onCoarsest? tie m = some decimal) : exponent ≤ decimal.exponent := by
  unfold onCoarsest? at hdecimal
  obtain ⟨coarser, found, finer, hgrids, hfound, hnone⟩ := List.findSome?_eq_some_iff.mp hdecimal
  obtain ⟨_, _, rfl⟩ := Option.map_eq_some_iff.mp hfound
  have hmem : exponent ∈ coarser ++ found :: finer := hgrids ▸ mem_grids_iff.mpr ⟨hrange, hle⟩
  have hsorted : (coarser ++ found :: finer).Pairwise (· > ·) := by
    rw [← hgrids, List.pairwise_map]
    refine List.pairwise_lt_range.imp fun hlt => ?_
    simp only [Int.ofNat_eq_natCast]
    omega
  rcases List.mem_append.mp hmem with hcoarser | hrest
  · have habsent := hnone exponent hcoarser
    rw [h, Option.map_some] at habsent
    contradiction
  · rcases List.mem_cons.mp hrest with rfl | hfiner
    · exact Int.le_refl _
    · have hrest := (List.pairwise_append.mp hsorted).2.1
      exact ((List.pairwise_cons.mp hrest).1 exponent hfiner).le

section

variable (hpos : coefficient ≠ 0) (hlow : -22 ≤ exponent) (hm : m < infinity)
  (h : nearestDecimal coefficient exponent = m)

include hpos hlow hm h

/-- The decimal is near the magnitude, measured on its grid. -/
theorem abs_decimalUnits_sub_le :
    |decimalUnits coefficient exponent - units m| ≤ coefficient * gridUnits exponent / 2 ^ 53 := by
  have herror := abs_units_nearestDecimal_sub_le hpos (h.trans_lt hm)
  rw [h, roundingError_of_le (two_pow_le_decimalUnits hpos hlow), abs_sub_comm] at herror
  rwa [← decimalUnits_eq_mul_gridUnits]

theorem units_pos_of_nearestDecimal : 0 < units m := by
  have hnear := abs_decimalUnits_sub_le hpos hlow hm h
  have hlarge := two_pow_le_decimalUnits hpos hlow
  rw [← decimalUnits_eq_mul_gridUnits, abs_le] at hnear
  have hcast : (0 : ℚ) < units m := by linarith
  exact_mod_cast hcast

variable (hbits : coefficient < 2 ^ 52)

include hbits

/-- No other decimal with these places has the same nearest magnitude. -/
theorem eq_of_nearestDecimal_eq (hother : other ≠ 0)
    (h' : nearestDecimal other exponent = m) : other = coefficient := by
  have hnear := abs_decimalUnits_sub_le hpos hlow hm h
  have hnear' := abs_decimalUnits_sub_le hother hlow hm h'
  have hgrid := gridUnits_pos exponent
  have hsum := (abs_sub_le _ (units m : ℚ) _).trans
    (add_le_add hnear' ((abs_sub_comm _ _).trans_le hnear))
  rw [abs_decimalUnits_sub_decimalUnits, ← add_div, ← add_mul, mul_div_right_comm] at hsum
  have hdist := le_of_mul_le_mul_right hsum hgrid
  rw [le_div_iff₀ (by norm_num)] at hdist
  have hcast : Nat.dist other coefficient * 2 ^ 53 ≤ other + coefficient := by
    exact_mod_cast hdist
  unfold Nat.dist at hcast
  omega

theorem onGrid?_eq_some : onGrid? tie m exponent = some coefficient := by
  obtain ⟨first, second, hneighbours, hfirst, -⟩ := exists_neighbours tie m exponent
  have hnear := abs_decimalUnits_sub_le hpos hlow hm h
  have hgrid := gridUnits_pos exponent
  have hhalf : coefficient * gridUnits exponent / 2 ^ 53 < gridUnits exponent / 2 := by
    have hcast : (coefficient : ℚ) < 2 ^ 52 := by exact_mod_cast hbits
    have hscaled := mul_lt_mul_of_pos_right hcast hgrid
    linarith
  have hsum := (abs_sub_le _ (units m : ℚ) _).trans_lt
    (add_lt_add_of_le_of_lt hfirst (((abs_sub_comm _ _).trans_le hnear).trans_lt hhalf))
  rw [abs_decimalUnits_sub_decimalUnits, add_halves, mul_lt_iff_lt_one_left hgrid] at hsum
  have hcast : Nat.dist first coefficient < 1 := by exact_mod_cast hsum
  have hsame : first = coefficient := Nat.eq_of_dist_eq_zero (Nat.lt_one_iff.mp hcast)
  rw [onGrid?, hneighbours, hsame, List.find?_cons_of_pos (by rw [h, beq_self_eq_true])]

/-- The grid of the decimal is one of the twenty. -/
theorem exponent_mem_grids : coarsest m - 19 ≤ exponent ∧ exponent ≤ coarsest m := by
  have hnear := abs_decimalUnits_sub_le hpos hlow hm h
  obtain ⟨hfine, hcoarse⟩ :=
    finest_gridUnits_le (units_pos_of_nearestDecimal hpos hlow hm h) hm
  have hgrid := gridUnits_pos exponent
  have hfinest := gridUnits_pos (coarsest m - 19)
  have hone : (1 : ℚ) ≤ coefficient := by exact_mod_cast Nat.one_le_iff_ne_zero.mpr hpos
  have hword : (coefficient : ℚ) < 2 ^ 52 := by exact_mod_cast hbits
  have hleast := mul_le_mul_of_nonneg_right hone hgrid.le
  have hmost := mul_lt_mul_of_pos_right hword hgrid
  rw [decimalUnits_eq_mul_gridUnits, abs_le] at hnear
  constructor
  · by_contra hsmall
    have hstep := gridUnits_mono (show exponent + (1 : Nat) ≤ coarsest m - 19 by omega)
    rw [gridUnits_add, pow_one] at hstep
    linarith
  · by_contra hlarge
    have hstep := gridUnits_mono (show coarsest m - 19 + (20 : Nat) ≤ exponent by omega)
    rw [gridUnits_add] at hstep
    linarith

end

/-- A decimal with few digits is the shortest one of the magnitude that it is nearest to. -/
theorem shortest_eq_normal (hlow : -22 ≤ exponent) (hm : m < infinity)
    (h : nearestDecimal coefficient exponent = m) (hbits : coefficient < 2 ^ 52) :
    shortest tie m = normal coefficient exponent := by
  by_cases hpos : coefficient = 0
  · rw [← h, hpos, nearestDecimal_zero, shortest_zero, normal_zero]
  have hunits := units_pos_of_nearestDecimal hpos hlow hm h
  obtain ⟨decimal, hdecimal, _⟩ := exists_onCoarsest? tie hunits hm
  obtain ⟨hrange, hle⟩ := exponent_mem_grids hpos hlow hm h hbits
  have hcoarser := le_exponent_onCoarsest? hrange hle
    (onGrid?_eq_some hpos hlow hm h hbits) hdecimal
  obtain ⟨zeros, hzeros⟩ := Int.eq_ofNat_of_zero_le (Int.sub_nonneg_of_le hcoarser)
  have hplaces : decimal.exponent - zeros = exponent := by omega
  have hnearest := nearestDecimal_of_onCoarsest? hdecimal
  have hsame := nearestDecimal_mul_ten_pow decimal.coefficient decimal.exponent zeros
  rw [hnearest, hplaces] at hsame
  have hsome : decimal.coefficient * 10 ^ zeros ≠ 0 := by
    intro hnone
    rw [hnone, nearestDecimal_zero] at hsame
    rw [← hsame, units_zero] at hunits
    exact Nat.lt_irrefl 0 hunits
  have hvalue := eq_of_nearestDecimal_eq hpos hlow hm h hbits hsome hsame
  have hnormal := normal_mul_ten_pow decimal.coefficient decimal.exponent zeros
  rw [hvalue, hplaces] at hnormal
  rw [hnormal, shortest_of_onCoarsest? hdecimal]

theorem exponent_shortest {tie : Tie} {magnitude : Nat}
    (h : (shortest tie magnitude).coefficient = 0) : (shortest tie magnitude).exponent = 0 :=
  Decimal.exponent_normal h

/-- The magnitude is the nearest one to a decimal that has 52 bits, also with a zero after the
point, and at most 22 places. -/
def IsShort (m : Nat) : Prop := ∃ coefficient exponent,
  nearestDecimal coefficient exponent = m ∧ coefficient * 10 ^ (exponent + 1).toNat < 2 ^ 52 ∧
    -22 ≤ exponent

/-- The digits that are written for a short number are few as well. -/
theorem IsShort.bits_places (h : IsShort m) (hm : m < infinity) :
    (shortest .even m).coefficient * 10 ^ ((shortest .even m).exponent + 1).toNat < 2 ^ 52 ∧
      -22 ≤ (shortest .even m).exponent := by
  obtain ⟨coefficient, exponent, hnearest, hbits, hplaces⟩ := h
  have hfits : coefficient < 2 ^ 52 :=
    (Nat.le_mul_of_pos_right _ (Nat.pow_pos (by decide))).trans_lt hbits
  rw [shortest_eq_normal hplaces hm hnearest hfits]
  refine ⟨(coefficient_normal_mul_le coefficient exponent).trans_lt hbits, ?_⟩
  by_cases hpos : coefficient = 0
  · rw [hpos, normal_zero]
    decide
  · exact hplaces.trans (le_exponent_normal hpos exponent)

theorem IsShort.scaled_eq (h : IsShort m) (hm : m < infinity) {zeros : Nat}
    (hzeros : zeros ≤ ((shortest .even m).exponent + 1).toNat) :
    scaled ((shortest .even m).coefficient * 10 ^ zeros) ((shortest .even m).exponent - zeros) =
      m := by
  obtain ⟨hbits, hplaces⟩ := h.bits_places hm
  have hzero := @exponent_shortest .even m
  have hshortest := nearestDecimal_shortest .even hm
  generalize shortest .even m = decimal at *
  obtain ⟨coefficient, exponent⟩ := decimal
  simp only at hbits hplaces hzero hshortest hzeros ⊢
  have hfits : coefficient * 10 ^ zeros < 2 ^ 53 :=
    ((Nat.mul_le_mul_left _ (Nat.pow_le_pow_right (by decide) hzeros)).trans_lt hbits).trans
      (by decide)
  have hhigh : exponent ≤ 22 := by
    by_cases hpos : coefficient = 0
    · rw [hzero hpos]
      decide
    · have hten : 10 ^ (exponent + 1).toNat < 10 ^ 16 := by
        calc 10 ^ (exponent + 1).toNat
            ≤ coefficient * 10 ^ (exponent + 1).toNat :=
              Nat.le_mul_of_pos_left _ (Nat.pos_of_ne_zero hpos)
          _ < 2 ^ 52 := hbits
          _ ≤ 10 ^ 16 := by decide
      have hlt := (Nat.pow_lt_pow_iff_right (by decide)).mp hten
      omega
  rw [scaled_eq_nearestDecimal hfits (by omega) (by omega), nearestDecimal_mul_ten_pow, hshortest]

end SwapCalldata.Double
