import SwapCalldata.Proofs.Appending
import SwapCalldata.Proofs.CanonicalText

/-!
What hexadecimal digits spell. Digits are read as bytes exactly where there are two for each byte and
both are the same number, and these bytes are written with the same digits in lower case.
-/
namespace SwapCalldata.Hex

variable {digits : List Char} {bytes : List UInt8}

/-- The number that digits spell in base sixteen. -/
def value (digits : List Char) : Nat := digits.foldl (fun n c => 16 * n + (digit? c).getD 0) 0

/-- The digits spell the bytes: there are two for each byte, and both are the same number. -/
structure Spells (digits : List Char) (bytes : List UInt8) : Prop where
  length : digits.length = 2 * bytes.length
  isDigit : ∀ c ∈ digits, isDigit c = true
  value : Hex.value digits = Bytes.toNat bytes

/-- Every digit there is, of either case. -/
def alphabet : List Char := lowercase ++ ['A', 'B', 'C', 'D', 'E', 'F']

theorem mem_alphabet_of_isDigit {c : Char} (h : isDigit c = true) : c ∈ alphabet := by
  have all : ∀ n : Fin 103, isDigit (Char.ofNat n) = true → Char.ofNat n ∈ alphabet := by decide
  have hsmall : c.toNat < 103 := by
    unfold isDigit digit? at h
    simp only [Char.le_def, UInt32.le_iff_toNat_le] at h
    split at h
    next hdecimal => exact Nat.lt_of_le_of_lt hdecimal.2 (by decide)
    split at h
    next hlower => exact Nat.lt_of_le_of_lt hlower.2 (by decide)
    split at h
    next hupper => exact Nat.lt_of_le_of_lt hupper.2 (by decide)
    next => cases h
  have hc := all ⟨c.toNat, hsmall⟩
  rw [Char.ofNat_toNat] at hc
  exact hc h

/-- A property that the digits are seen to have one by one. -/
theorem of_isDigit {P : Char → Bool} (hall : alphabet.all P = true) {c : Char}
    (h : isDigit c = true) : P c = true :=
  List.all_eq_true.mp hall c (mem_alphabet_of_isDigit h)

theorem exists_digit? {c : Char} (h : isDigit c = true) :
    ∃ n, digit? c = some n ∧ n < 16 ∧ Nat.digitChar n = c.toLower := by
  obtain ⟨n, hn⟩ := Option.isSome_iff_exists.mp h
  have hboth := of_isDigit (P := fun c => (digit? c).all fun n =>
    n < 16 && Nat.digitChar n == c.toLower) (by decide) h
  rw [hn] at hboth
  simpa [hn] using hboth

theorem value_cons (c : Char) (rest : List Char) :
    value (c :: rest) = (digit? c).getD 0 * 16 ^ rest.length + value rest := by
  have hstart : ∀ (digits : List Char) (n : Nat),
      digits.foldl (fun n c => 16 * n + (digit? c).getD 0) n =
        n * 16 ^ digits.length + value digits := by
    intro digits
    induction digits with
    | nil => simp [value]
    | cons c rest ih =>
      intro n
      unfold value
      rw [List.foldl_cons, List.foldl_cons, ih, ih, List.length_cons]
      ring
  unfold value
  rw [List.foldl_cons, hstart]
  simp [value]

section

variable {high low : Char} {rest : List Char} {h l : Nat}

theorem toNat_byte (hh : h < 16) (hl : l < 16) : (UInt8.ofNat (16 * h + l)).toNat = 16 * h + l :=
  UInt8.toNat_ofNat_of_lt' (show 16 * h + l < 256 by omega)

/-- A pair of digits in front spells a byte in front. -/
theorem Spells.cons (hhigh : digit? high = some h) (hlow : digit? low = some l) (hh : h < 16)
    (hl : l < 16) (hrest : Spells rest bytes) :
    Spells (high :: low :: rest) (UInt8.ofNat (16 * h + l) :: bytes) := by
  constructor
  case length => simp [hrest.length, Nat.mul_succ]
  case isDigit =>
    simp only [List.forall_mem_cons]
    exact ⟨Option.isSome_iff_exists.mpr ⟨h, hhigh⟩, Option.isSome_iff_exists.mpr ⟨l, hlow⟩,
      hrest.isDigit⟩
  case value =>
    have hpower : 16 ^ rest.length = 2 ^ (8 * bytes.length) := by
      rw [hrest.length, Nat.pow_mul, Nat.pow_mul]
    rw [value_cons, value_cons, Bytes.toNat_cons, toNat_byte hh hl, hhigh, hlow, hrest.value,
      List.length_cons, Nat.pow_succ, ← hpower, Option.getD_some, Option.getD_some]
    ring

theorem decode?_cons_cons (hhigh : digit? high = some h) (hlow : digit? low = some l) :
    decode? (high :: low :: rest) = (decode? rest).map (UInt8.ofNat (16 * h + l) :: ·) := by
  rw [decode?, hhigh, hlow]
  cases decode? rest <;> rfl

theorem encode_cons (hh : h < 16) (hl : l < 16) : encode (UInt8.ofNat (16 * h + l) :: bytes) =
    Nat.digitChar h :: Nat.digitChar l :: encode bytes := by
  rw [encode, toNat_byte hh hl, show (16 * h + l) / 16 = h by omega,
    show (16 * h + l) % 16 = l by omega]

end

/-- An even number of digits spells bytes, and these are written with the same digits in lower
case. -/
theorem exists_decode? {count : Nat} (hlength : digits.length = 2 * count)
    (hdigits : ∀ c ∈ digits, isDigit c = true) :
    ∃ bytes, decode? digits = some bytes ∧ Spells digits bytes ∧
      encode bytes = digits.map Char.toLower := by
  induction count generalizing digits with
  | zero =>
    obtain rfl := List.eq_nil_of_length_eq_zero hlength
    exact ⟨[], rfl, ⟨rfl, hdigits, rfl⟩, rfl⟩
  | succ count ih =>
    match digits with
    | high :: low :: rest =>
      simp only [List.forall_mem_cons] at hdigits
      obtain ⟨hhigh, hlow, hrest⟩ := hdigits
      obtain ⟨h, hh, hh16, hhlower⟩ := exists_digit? hhigh
      obtain ⟨l, hl, hl16, hllower⟩ := exists_digit? hlow
      obtain ⟨bytes, hbytes, hspells, hlower⟩ := ih (by simpa [Nat.mul_succ] using hlength) hrest
      refine ⟨UInt8.ofNat (16 * h + l) :: bytes, ?_, hspells.cons hh hl hh16 hl16, ?_⟩
      · rw [decode?_cons_cons hh hl, hbytes, Option.map_some]
      · rw [encode_cons hh16 hl16, hlower, hhlower, hllower, List.map_cons, List.map_cons]

theorem Spells.unique {other : List UInt8} (h : Spells digits bytes) (h' : Spells digits other) :
    bytes = other :=
  Bytes.toNat_inj (by have := h.length.symm.trans h'.length; omega)
    (h.value.symm.trans h'.value)

theorem isDigit_of_decode? (h : decode? digits = some bytes) :
    digits.length = 2 * bytes.length ∧ ∀ c ∈ digits, isDigit c = true := by
  fun_induction decode? digits generalizing bytes with
  | case1 =>
    obtain rfl := Option.some.inj h
    simp
  | case2 c => cases h
  | case3 high low rest ih =>
    simp only [Option.bind_eq_bind, Option.bind_eq_some_iff, Option.pure_def,
      Option.some.injEq] at h
    obtain ⟨value, hhigh, value', hlow, bytes', hbytes, rfl⟩ := h
    obtain ⟨hlength, hrest⟩ := ih hbytes
    simp only [List.forall_mem_cons]
    exact ⟨by simp [hlength, Nat.mul_succ], Option.isSome_iff_exists.mpr ⟨value, hhigh⟩,
      Option.isSome_iff_exists.mpr ⟨value', hlow⟩, hrest⟩

theorem decode?_eq_some_iff : decode? digits = some bytes ↔ Spells digits bytes := by
  constructor
  · intro h
    obtain ⟨hlength, hdigits⟩ := isDigit_of_decode? h
    obtain ⟨bytes', hbytes, hspells, _⟩ := exists_decode? hlength hdigits
    rwa [Option.some.inj (h.symm.trans hbytes)]
  · intro h
    obtain ⟨bytes', hbytes, hspells, _⟩ := exists_decode? h.length h.isDigit
    rwa [h.unique hspells]

theorem encode_of_spells (h : Spells digits bytes) : encode bytes = digits.map Char.toLower := by
  obtain ⟨bytes', _, hspells, hlower⟩ := exists_decode? h.length h.isDigit
  rwa [h.unique hspells]

end SwapCalldata.Hex
