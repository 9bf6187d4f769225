import Mathlib.Data.Nat.Dist
import SwapCalldata.Proofs.Rounding

/-!
What rounding picks. The values of magnitudes grow strictly, rounding takes a quotient to the
magnitude nearest to it, of two equally near ones to the even one, and beyond the finite numbers to
infinity. It follows that rounding keeps the order of values, and how far it can move one.
-/
namespace SwapCalldata.Double

variable {significand shift : Nat}

/-- The value of a magnitude as a significand with a shift. A significand of fewer than 53 bits
comes without a shift, and one that is rounded up to 54 bits is at the start of the next binade. -/
theorem units_grid (hhigh : significand ≤ 2 ^ 53) (hlow : 2 ^ 52 ≤ significand ∨ shift = 0) :
    units (significand + shift * binade) = significand * 2 ^ shift := by
  by_cases hbits : significand < 2 ^ 53
  · rcases hlow with hlow | rfl
    · exact units_add_binades hlow hbits shift
    · rw [Nat.zero_mul, Nat.add_zero, units_of_lt hbits, Nat.pow_zero, Nat.mul_one]
  · have hfull : significand = 2 ^ 52 * 2 := by omega
    have hcarry : significand + shift * binade = 2 ^ 52 + (shift + 1) * binade := by
      rw [binade_eq]
      omega
    rw [hcarry, units_add_binades (Nat.le_refl _) (by decide), hfull]
    ring

theorem exists_grid (m : Nat) : ∃ significand shift, significand < 2 ^ 53 ∧
    (2 ^ 52 ≤ significand ∨ shift = 0) ∧ m = significand + shift * binade := by
  by_cases hsmall : m < 2 ^ 53
  · exact ⟨m, 0, hsmall, Or.inr rfl, by omega⟩
  · obtain ⟨significand, shift, hlow, hhigh, hm⟩ := exists_significand (Nat.not_lt.mp hsmall)
    exact ⟨significand, shift, hhigh, Or.inl hlow, hm⟩

theorem units_strictMono : StrictMono units := by
  apply strictMono_nat_of_lt_succ
  intro m
  obtain ⟨significand, shift, hhigh, hlow, rfl⟩ := exists_grid m
  have hnext : significand + shift * binade + 1 = significand + 1 + shift * binade := by omega
  rw [hnext, units_grid hhigh.le hlow, units_grid hhigh (by omega)]
  exact Nat.mul_lt_mul_of_pos_right (Nat.lt_succ_self _) (Nat.two_pow_pos shift)

theorem units_zero : units 0 = 0 := rfl

/-- How many binades a value is rounded in above the first two. -/
def doublings (n : Nat) : Nat := n.log2 - 52

/-- The magnitude nearest to `num / den` units where the finite numbers are taken to go on beyond
infinity. -/
def unbounded (num den : Nat) : Nat :=
  roundHalfEven num (den * 2 ^ doublings (num / den)) + doublings (num / den) * binade

theorem nearest_eq_min (num den : Nat) : nearest num den = min (unbounded num den) infinity := by
  simp only [nearest, unbounded, doublings, Nat.shiftLeft_eq]

/-- What is left of a value before it is rounded has at most 53 bits. -/
theorem div_doublings_lt (n : Nat) : n / 2 ^ doublings n < 2 ^ 53 := by
  rw [Nat.div_lt_iff_lt_mul (Nat.two_pow_pos _), ← Nat.pow_add]
  exact n.lt_log2_self.trans_le (Nat.pow_le_pow_right (by decide) (by unfold doublings; omega))

/-- It has no fewer, unless nothing is cut off. -/
theorem le_div_doublings (n : Nat) : 2 ^ 52 ≤ n / 2 ^ doublings n ∨ doublings n = 0 := by
  by_cases hnone : doublings n = 0
  · exact Or.inr hnone
  · have hlog : n.log2 = 52 + doublings n := by
      unfold doublings at hnone ⊢
      omega
    have hpos : n ≠ 0 := by
      rintro rfl
      exact hnone rfl
    left
    rw [Nat.le_div_iff_mul_le (Nat.two_pow_pos _), ← Nat.pow_add, ← hlog]
    exact Nat.log2_self_le hpos

/-- The magnitudes around a quotient, and which of them it is rounded to. -/
structure Between (num den below nearest : Nat) : Prop where
  below_le : units below * den ≤ num
  lt_above : num < units (below + 1) * den
  gap : units (below + 1) = units below + 2 ^ doublings (num / den)
  nearest :
    num - units below * den < units (below + 1) * den - num ∧ nearest = below ∨
    units (below + 1) * den - num < num - units below * den ∧ nearest = below + 1 ∨
    num - units below * den = units (below + 1) * den - num ∧ nearest % 2 = 0 ∧
      (nearest = below ∨ nearest = below + 1)

theorem roundHalfEven_cases (num den : Nat) :
    2 * (num % den) < den ∧ roundHalfEven num den = num / den ∨
      den < 2 * (num % den) ∧ roundHalfEven num den = num / den + 1 ∨
      2 * (num % den) = den ∧ roundHalfEven num den = num / den + num / den % 2 := by
  simp only [roundHalfEven]
  split_ifs <;> omega

theorem exists_between (num : Nat) {den : Nat} (hden : 0 < den) :
    ∃ below, Between num den below (unbounded num den) := by
  have hlt := div_doublings_lt (num / den)
  have hle := le_div_doublings (num / den)
  rw [Nat.div_div_eq_div_mul] at hlt hle
  unfold unbounded
  generalize hshift : doublings (num / den) = shift at hlt hle ⊢
  have hpos : 0 < den * 2 ^ shift := Nat.mul_pos hden (Nat.two_pow_pos shift)
  have hsplit := Nat.div_add_mod' num (den * 2 ^ shift)
  have hrest := Nat.mod_lt num hpos
  have hround := roundHalfEven_cases num (den * 2 ^ shift)
  generalize num / (den * 2 ^ shift) = quotient at hlt hle hsplit hround ⊢
  have hbelow := units_grid hlt.le hle
  have habove := units_grid (Nat.succ_le_of_lt hlt) (hle.imp_left Nat.le_succ_of_le)
  have hnext : quotient.succ + shift * binade = quotient + shift * binade + 1 := by omega
  have hunit (n : Nat) : n * 2 ^ shift * den = n * (den * 2 ^ shift) := by
    rw [Nat.mul_assoc, Nat.mul_comm den]
  rw [hnext] at habove
  refine ⟨quotient + shift * binade, ?_, ?_, ?_, ?_⟩
  · rw [hbelow, hunit]
    omega
  · rw [habove, hunit, Nat.succ_mul]
    omega
  · rw [hbelow, habove, hshift, Nat.succ_mul]
  · rw [hbelow, habove, hunit, hunit, Nat.succ_mul, binade_eq]
    omega

/-- No magnitude is nearer to a value, and of two that are equally near this is the even one. -/
structure IsNearest (n m : Nat) : Prop where
  le : ∀ other, Nat.dist (units m) n ≤ Nat.dist (units other) n
  even : ∀ other, other ≠ m → Nat.dist (units other) n = Nat.dist (units m) n → m % 2 = 0

/-- A magnitude other than two neighbours has a value beyond one of them. -/
theorem units_mul_cases {den : Nat} (hden : 0 < den) (below other : Nat) :
    units other * den < units below * den ∨ other = below ∨ other = below + 1 ∨
      units (below + 1) * den < units other * den := by
  rcases Nat.lt_trichotomy other below with hlt | heq | hgt
  · exact Or.inl (Nat.mul_lt_mul_of_pos_right (units_strictMono hlt) hden)
  · exact Or.inr (Or.inl heq)
  · rcases Nat.lt_or_eq_of_le (Nat.succ_le_of_lt hgt) with habove | habove
    · exact Or.inr (Or.inr (Or.inr (Nat.mul_lt_mul_of_pos_right (units_strictMono habove) hden)))
    · exact Or.inr (Or.inr (Or.inl habove.symm))

namespace Between

variable {num den below nearest : Nat}

theorem dist_nearest (h : Between num den below nearest) :
    Nat.dist (units nearest * den) num =
      min (num - units below * den) (units (below + 1) * den - num) := by
  obtain ⟨hbelow, habove, -, hnearest⟩ := h
  unfold Nat.dist
  rcases hnearest with ⟨hlt, rfl⟩ | ⟨hlt, rfl⟩ | ⟨heq, -, rfl | rfl⟩ <;> omega

theorem le_dist (h : Between num den below nearest) (hden : 0 < den) (other : Nat) :
    min (num - units below * den) (units (below + 1) * den - num) ≤
      Nat.dist (units other * den) num := by
  have hbelow := h.below_le
  have habove := h.lt_above
  unfold Nat.dist
  rcases units_mul_cases hden below other with hlt | rfl | rfl | hgt <;> omega

/-- Another magnitude is as near only where the value is halfway between its neighbours. -/
theorem even_of_tie (h : Between num den below nearest) (hden : 0 < den) {other : Nat}
    (hother : other ≠ nearest) (hdist : Nat.dist (units other * den) num =
      min (num - units below * den) (units (below + 1) * den - num)) : nearest % 2 = 0 := by
  obtain ⟨hbelow, habove, -, hnearest⟩ := h
  unfold Nat.dist at hdist
  rcases hnearest with ⟨hlt, rfl⟩ | ⟨hlt, rfl⟩ | ⟨-, heven, -⟩
  · rcases units_mul_cases hden nearest other with hbeyond | rfl | rfl | hbeyond <;> omega
  · rcases units_mul_cases hden below other with hbeyond | rfl | rfl | hbeyond <;> omega
  · exact heven

/-- The error of rounding is at most half the distance of the neighbours. -/
theorem two_mul_dist_le (h : Between num den below nearest) :
    2 * Nat.dist (units nearest * den) num ≤ 2 ^ doublings (num / den) * den := by
  have hbelow := h.below_le
  have habove := h.lt_above
  have hgap := congrArg (· * den) h.gap
  simp only [Nat.add_mul] at hgap
  rw [h.dist_nearest]
  omega

end Between

theorem dist_unbounded_le (num : Nat) {den : Nat} (hden : 0 < den) (other : Nat) :
    Nat.dist (units (unbounded num den) * den) num ≤ Nat.dist (units other * den) num := by
  obtain ⟨below, h⟩ := exists_between num hden
  rw [h.dist_nearest]
  exact h.le_dist hden other

theorem isNearest_unbounded (n : Nat) : IsNearest n (unbounded n 1) := by
  obtain ⟨below, h⟩ := exists_between n Nat.one_pos
  have hnearest := h.dist_nearest
  rw [Nat.mul_one (units (unbounded n 1))] at hnearest
  constructor
  case le =>
    intro other
    have hle := h.le_dist Nat.one_pos other
    rwa [← hnearest, Nat.mul_one] at hle
  case even =>
    intro other hother hdist
    rw [hnearest, ← Nat.mul_one (units other)] at hdist
    exact h.even_of_tie Nat.one_pos hother hdist

/-- A larger value is not rounded to a smaller magnitude. If it were, each of the two would have to
be on its own side of the middle between the magnitudes, which leaves only the middle itself. -/
theorem unbounded_mono {n n' : Nat} (h : n ≤ n') : unbounded n 1 ≤ unbounded n' 1 := by
  by_contra hlt
  have hunits := units_strictMono (Nat.not_le.mp hlt)
  have hsmall := (isNearest_unbounded n).le (unbounded n' 1)
  have hlarge := (isNearest_unbounded n').le (unbounded n 1)
  unfold Nat.dist at hsmall hlarge
  have hsame : n = n' := by omega
  exact hlt (hsame ▸ Nat.le_refl _)

theorem nearest_mono {n n' : Nat} (h : n ≤ n') : nearest n 1 ≤ nearest n' 1 := by
  rw [nearest_eq_min, nearest_eq_min]
  exact min_le_min_right _ (unbounded_mono h)

theorem doublings_le {n k : Nat} (h : n < 2 ^ (53 + k)) : doublings n ≤ k := by
  by_cases hzero : n = 0
  · subst hzero
    exact Nat.zero_le _
  · have hlog := (Nat.log2_lt hzero).mpr h
    unfold doublings
    omega

/-- A value of `53 + k` bits loses at most half of a unit of its last place. -/
theorem two_mul_dist_unbounded_le {n k : Nat} (h : n < 2 ^ (53 + k)) :
    2 * Nat.dist (units (unbounded n 1)) n ≤ 2 ^ k := by
  obtain ⟨below, hbetween⟩ := exists_between n Nat.one_pos
  have herror := hbetween.two_mul_dist_le
  rw [Nat.mul_one, Nat.mul_one, Nat.div_one] at herror
  exact herror.trans (Nat.pow_le_pow_right (by decide) (doublings_le h))

/-- A value far below the largest finite number stays finite. -/
theorem unbounded_lt_infinity {num den k : Nat} (h : num / den < 2 ^ (53 + k)) (hk : k ≤ 2000) :
    unbounded num den < infinity := by
  have hdoublings := doublings_le h
  have hquotient := div_doublings_lt (num / den)
  rw [Nat.div_div_eq_div_mul] at hquotient
  have hround := roundHalfEven_cases num (den * 2 ^ doublings (num / den))
  unfold unbounded
  rw [infinity_eq, binade_eq]
  omega

end SwapCalldata.Double
