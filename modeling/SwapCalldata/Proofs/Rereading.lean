import SwapCalldata.Proofs.JsonRoundTrip
import SwapCalldata.Proofs.ShortDecimals
import SwapCalldata.Wire.Reading

/-!
Numbers as they are written, read again. A reader keeps all digits of the shortest decimal and
scales them in steps that each round, so it finds the number or a neighbour that is not far from it.
Where the decimal is short, one rounding is all there is, and it finds the number itself: fees and
fractions are of this kind unless they come out of a computation.
-/
namespace SwapCalldata

namespace Json

/-- Digits that fit 64 bits are all kept. -/
theorem numeralOfDigits_of_lt {whole fraction : List Char} {exponent : Option Int}
    (hreal : fraction ≠ [] ∨ exponent ≠ none)
    (h : Digits.value (whole ++ fraction) < UInt64.size) (negative : Bool) :
    numeralOfDigits negative whole fraction exponent =
      .real negative ⟨Digits.value (whole ++ fraction), exponent.getD 0 - fraction.length⟩ := by
  unfold Digits.value at h ⊢
  rw [Nat.ofDigitChars_append] at h ⊢
  have hwhole := Digits.extendWord_of_lt (Nat.lt_of_le_of_lt (Digits.le_ofDigitChars fraction _) h)
  have hfraction := Digits.extendWord_of_lt h
  unfold numeralOfDigits
  simp only [hwhole, hfraction]
  rw [if_neg (by rcases hreal with hsome | hsome <;> simp [hsome])]
  simp

theorem value_digits (value : Decimal) : Digits.value value.digits = value.coefficient :=
  Digits.value_ofNat value.coefficient

theorem value_append_zeros (digits : List Char) (zeros : Nat) :
    Digits.value (digits ++ List.replicate zeros '0') = Digits.value digits * 10 ^ zeros := by
  rw [Digits.value, Nat.ofDigitChars_append, Nat.ofDigitChars_replicate_zero, Nat.mul_comm]
  rfl

theorem value_zeros_append (zeros : Nat) (digits : List Char) :
    Digits.value (List.replicate zeros '0' ++ digits) = Digits.value digits := by
  rw [Digits.value, Nat.ofDigitChars_append, Nat.ofDigitChars_replicate_zero, Nat.mul_zero]
  rfl

theorem numeral_scientificParts {value : Decimal} (h : value.coefficient < UInt64.size)
    (negative : Bool) : (scientificParts value).numeral negative = .real negative value := by
  have hlength : 0 < value.digits.length := Nat.length_toDigits_pos
  have hvalue : Digits.value (value.digits.take 1 ++ value.digits.drop 1) = value.coefficient := by
    rw [List.take_append_drop, value_digits]
  have hexponent : NumberParts.exponentValue
      (decide (value.leading < 0), Nat.toDigits 10 value.leading.natAbs) = value.leading := by
    have habs : Digits.value (Nat.toDigits 10 value.leading.natAbs) = value.leading.natAbs :=
      Digits.value_ofNat _
    simp only [NumberParts.exponentValue, habs, decide_eq_true_eq]
    split <;> omega
  have hplaces : value.leading - ((value.digits.drop 1).length : Int) = value.exponent := by
    rw [List.length_drop, Decimal.leading]
    omega
  unfold scientificParts NumberParts.numeral
  simp only [Option.map_some, hexponent]
  rw [numeralOfDigits_of_lt (.inr (by simp)) (hvalue.symm ▸ h), hvalue, Option.getD_some, hplaces]

theorem numeral_positionalParts {value : Decimal}
    (h : value.coefficient * 10 ^ (value.exponent + 1).toNat < UInt64.size) (negative : Bool) :
    (positionalParts value).numeral negative =
      .real negative ⟨value.coefficient * 10 ^ (value.exponent + 1).toNat,
        value.exponent - (value.exponent + 1).toNat⟩ := by
  have hlength : 0 < value.digits.length := Nat.length_toDigits_pos
  unfold positionalParts NumberParts.numeral
  cases hexponent : value.exponent with
  | ofNat trailing =>
    have hzeros : (Int.ofNat trailing + 1).toNat = trailing + 1 := rfl
    have hvalue : Digits.value (value.digits ++ List.replicate trailing '0' ++ ['0']) =
        value.coefficient * 10 ^ (trailing + 1) := by
      rw [List.append_assoc, ← List.replicate_succ', value_append_zeros, value_digits]
    rw [hexponent, hzeros] at h
    simp only [Option.map_none]
    rw [numeralOfDigits_of_lt (.inl (List.cons_ne_nil _ _)) (hvalue.symm ▸ h), hvalue, hzeros]
    simp
  | negSucc k =>
    have hzeros : (Int.negSucc k + 1).toNat = 0 := by omega
    rw [hexponent, hzeros, Nat.pow_zero, Nat.mul_one] at h
    set padded := List.replicate (k + 2 - value.digits.length) '0' ++ value.digits with hpadded
    have hvalue : Digits.value (padded.take (padded.length - (k + 1)) ++
        padded.drop (padded.length - (k + 1))) = value.coefficient := by
      rw [List.take_append_drop, hpadded, value_zeros_append, value_digits]
    have hplaces : (padded.drop (padded.length - (k + 1))).length = k + 1 := by
      simp only [hpadded, List.length_drop, List.length_append, List.length_replicate]
      omega
    have hsome : padded.drop (padded.length - (k + 1)) ≠ [] :=
      List.ne_nil_of_length_eq_add_one hplaces
    simp only [Option.map_none]
    rw [numeralOfDigits_of_lt (.inl hsome) (hvalue.symm ▸ h), hvalue, hplaces, hzeros]
    simp
    omega

/-- A decimal of 64 bits that is written without an exponent fits 64 bits with all its zeros. -/
theorem coefficient_mul_ten_pow_lt {value : Decimal} (h : value.coefficient < UInt64.size)
    (hleading : value.leading ≤ 15) :
    value.coefficient * 10 ^ (value.exponent + 1).toNat < UInt64.size := by
  by_cases hnone : value.exponent + 1 ≤ 0
  · rwa [Int.toNat_of_nonpos hnone, Nat.pow_zero, Nat.mul_one]
  · have hdigits : value.coefficient < 10 ^ value.digits.length :=
      (Nat.length_toDigits_le_iff (by decide) Nat.length_toDigits_pos).mp le_rfl
    have hplaces : value.digits.length + (value.exponent + 1).toNat ≤ 17 := by
      unfold Decimal.leading at hleading
      omega
    calc value.coefficient * 10 ^ (value.exponent + 1).toNat
        < 10 ^ value.digits.length * 10 ^ (value.exponent + 1).toNat :=
          Nat.mul_lt_mul_of_pos_right hdigits (Nat.pow_pos (by decide))
      _ = 10 ^ (value.digits.length + (value.exponent + 1).toNat) := (Nat.pow_add _ _ _).symm
      _ ≤ 10 ^ 17 := Nat.pow_le_pow_right (by decide) hplaces
      _ ≤ UInt64.size := by decide

/-- The text of a decimal is read as this decimal, with some of its zeros in the coefficient. -/
theorem exists_numeral_realParts {value : Decimal} (h : value.coefficient < UInt64.size) :
    ∃ zeros : Nat, zeros ≤ (value.exponent + 1).toNat ∧
      value.coefficient * 10 ^ zeros < UInt64.size ∧
      ∀ negative, (realParts value).numeral negative =
        .real negative ⟨value.coefficient * 10 ^ zeros, value.exponent - zeros⟩ := by
  unfold realParts
  split
  next hleading =>
    have hfits := coefficient_mul_ten_pow_lt h hleading.2
    exact ⟨_, Nat.le_refl _, hfits, numeral_positionalParts hfits⟩
  next =>
    refine ⟨0, Nat.zero_le _, ?_, fun negative => ?_⟩
    · rwa [Nat.pow_zero, Nat.mul_one]
    · rw [numeral_scientificParts h, Nat.pow_zero, Nat.mul_one, Int.natCast_zero, Int.sub_zero]

end Json

namespace Double

theorem ofMagnitude_magnitude (x : Double) : ofMagnitude x.isNegative x.magnitude = x := by
  obtain ⟨bits⟩ := x
  have hbits := bits.toNat_lt
  have hsame : (if decide (signBit ≤ bits.toNat) = true then signBit else 0) +
      bits.toNat % signBit = bits.toNat := by
    unfold signBit
    by_cases hsign : 0x8000000000000000 ≤ bits.toNat
    · rw [if_pos (decide_eq_true hsign)]
      omega
    · rw [if_neg (mt of_decide_eq_true hsign)]
      omega
  unfold ofMagnitude isNegative magnitude
  rw [hsame, UInt64.ofNat_toNat]

/-- The numeral that is written for a finite number. -/
def numeral (x : Double) : Numeral := .real x.isNegative (shortest .even x.magnitude)

theorem writable_numeral (x : Double) : x.numeral.Writable := fun h => (exponent_shortest h).le

/-- What the text that is written for a number is read as. -/
def reread? (x : Double) : Option Double :=
  (Json.parse? (Json.ofDouble x).compactText).bind Json.asDouble?

/-- The number that the text written for a finite number is read as. -/
def reread (x : Double) : Double := x.reread?.getD x

variable {x : Double}

theorem readsAs_ofDouble (h : x.isFinite = true) :
    Json.ReadsAs (Json.ofDouble x) (.number x.numeral.reread) := by
  have hwritten : Json.ofDouble x = .number x.numeral := if_pos h
  rw [hwritten]
  exact .number x.writable_numeral

theorem reread?_eq (h : x.isFinite = true) :
    x.reread? = Json.asDouble? (.number x.numeral.reread) := by
  rw [reread?, (readsAs_ofDouble h).parse?_compactText, Option.bind_some]

/-- A finite magnitude is read from its digits as one nearby. -/
theorem exists_reread_real {m : Nat} (h : m < infinity) : ∃ coefficient exponent,
    (∀ negative, (Numeral.real negative (shortest .even m)).reread =
      .real negative ⟨coefficient, exponent⟩) ∧
      Nat.dist (scaled coefficient exponent) m ≤ 6 ∧
      (IsShort m → scaled coefficient exponent = m) := by
  obtain ⟨zeros, hzeros, hword, hread⟩ :=
    Json.exists_numeral_realParts (coefficient_shortest_lt .even h)
  have hnearest := nearestDecimal_shortest .even h
  rw [← nearestDecimal_mul_ten_pow _ _ zeros] at hnearest
  refine ⟨_, _, hread, ?_, fun hshort => hshort.scaled_eq h hzeros⟩
  have hdist := dist_scaled_le hword (hnearest.trans_lt h)
  rwa [hnearest] at hdist

/-- The six largest finite magnitudes are not read as infinite. -/
theorem isSome_asDouble?_largest : ∀ below < 6, (Json.asDouble? (.number
    (Numeral.real false (shortest .even (infinity - 1 - below))).reread)).isSome = true := by
  decide +kernel

/-- Reading never makes a finite number infinite: the largest ones are each read, and the others are
too far below. -/
theorem scaled_lt_infinity {m coefficient : Nat} {exponent : Int} (h : m < infinity)
    (hread : ∀ negative, (Numeral.real negative (shortest .even m)).reread =
      .real negative ⟨coefficient, exponent⟩)
    (hnear : Nat.dist (scaled coefficient exponent) m ≤ 6) :
    scaled coefficient exponent < infinity := by
  by_cases hlarge : infinity ≤ m + 6
  · have hbelow : infinity - 1 - (infinity - 1 - m) = m := by omega
    have hsome := isSome_asDouble?_largest (infinity - 1 - m) (by omega)
    rw [hbelow, hread, Json.asDouble?, Json.asDouble?.finite?] at hsome
    by_contra hinfinite
    rw [if_neg hinfinite] at hsome
    exact Bool.false_ne_true hsome
  · unfold Nat.dist at hnear
    omega

theorem exists_reread?_eq (h : x.isFinite = true) : ∃ m,
    x.reread? = some (ofMagnitude x.isNegative m) ∧ m < infinity ∧
      Nat.dist m x.magnitude ≤ 6 ∧ (IsShort x.magnitude → m = x.magnitude) := by
  have hfinite : x.magnitude < infinity := of_decide_eq_true h
  obtain ⟨coefficient, exponent, hread, hnear, hshort⟩ := exists_reread_real hfinite
  have hscaled := scaled_lt_infinity hfinite hread hnear
  refine ⟨scaled coefficient exponent, ?_, hscaled, hnear, hshort⟩
  rw [reread?_eq h, numeral, hread, Json.asDouble?, Json.asDouble?.finite?, if_pos hscaled]

/-- What the text of a finite number is read as: a finite number of the same sign, at most six
neighbours away, and the number itself where its decimal is short. -/
structure Rereads (x : Double) : Prop where
  read : x.reread? = some x.reread
  finite : x.reread.isFinite = true
  sign : x.reread.isNegative = x.isNegative
  near : Nat.dist x.reread.magnitude x.magnitude ≤ 6
  short : IsShort x.magnitude → x.reread = x

theorem rereads (h : x.isFinite = true) : x.Rereads := by
  obtain ⟨m, hread, hfinite, hnear, hshort⟩ := exists_reread?_eq h
  have hsize : m < signBit := hfinite.trans (by decide)
  have hreread : x.reread = ofMagnitude x.isNegative m := by
    rw [reread, hread, Option.getD_some]
  constructor
  case read => rw [hread, hreread]
  case finite =>
    rw [hreread, isFinite, magnitude_ofMagnitude _ hsize]
    exact decide_eq_true hfinite
  case sign => rw [hreread, isNegative_ofMagnitude _ hsize]
  case near => rwa [hreread, magnitude_ofMagnitude _ hsize]
  case short =>
    intro h
    rw [hreread, hshort h, ofMagnitude_magnitude]

end Double

end SwapCalldata
