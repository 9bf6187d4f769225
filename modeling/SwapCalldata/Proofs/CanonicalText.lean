import SwapCalldata.InputError
import SwapCalldata.Proofs.JsonText

/-!
The canonical texts of bytes, addresses and amounts, read back. A reader that drops markers drops
exactly the one that was written: no digit of an address is taken for a part of a marker, whatever
the address starts with.
-/
namespace SwapCalldata

namespace Hex

/-- The digits that bytes are written with. -/
def lowercase : List Char :=
  ['0', '1', '2', '3', '4', '5', '6', '7', '8', '9', 'a', 'b', 'c', 'd', 'e', 'f']

theorem digitChar_mem_lowercase {n : Nat} (h : n < 16) : Nat.digitChar n ∈ lowercase := by
  have all : ∀ k : Fin 16, Nat.digitChar k ∈ lowercase := by decide
  exact all ⟨n, h⟩

theorem mem_lowercase_of_mem_encode {bytes : List UInt8} :
    ∀ c ∈ encode bytes, c ∈ lowercase := by
  induction bytes with
  | nil => simp [encode]
  | cons byte rest ih =>
    have hbyte := byte.toNat_lt
    simp only [encode, List.forall_mem_cons]
    exact ⟨digitChar_mem_lowercase (by omega), digitChar_mem_lowercase (by omega), ih⟩

/-- The text is the marker with lowercase digits after it, and these spell the bytes. -/
def Canonical (text : String) (bytes : List UInt8) : Prop :=
  ∃ digits, text.toList = '0' :: 'x' :: digits ∧ decode? digits = some bytes ∧
    ∀ c ∈ digits, c ∈ lowercase

theorem canonical_marked (bytes : List UInt8) : Canonical (marked bytes) bytes :=
  ⟨encode bytes, String.toList_ofList, decode?_encode bytes, mem_lowercase_of_mem_encode⟩

theorem Canonical.unique {text : String} {a b : List UInt8} (ha : Canonical text a)
    (hb : Canonical text b) : a = b := by
  obtain ⟨digits, htext, hdecode, _⟩ := ha
  obtain ⟨digits', htext', hdecode', _⟩ := hb
  obtain rfl : digits = digits' := by
    rw [htext] at htext'
    exact (List.cons.inj (List.cons.inj htext').2).2
  exact Option.some.inj (hdecode.symm.trans hdecode')

end Hex

namespace Text

theorem not_isBlank_of_mem_lowercase {c : Char} (h : c ∈ Hex.lowercase) : isBlank c = false := by
  have hall : Hex.lowercase.all (fun c => !isBlank c) = true := by decide
  simpa using List.all_eq_true.mp hall c h

/-- No range of blank characters reaches into the decimal digits. -/
theorem not_isBlank_of_isDigit {c : Char} (h : c.isDigit = true) : isBlank c = false := by
  have hranges : ∀ range ∈ blankRanges, range.2 < 48 ∨ 57 < range.1 := by decide
  have hdigit : 48 ≤ c.toNat ∧ c.toNat ≤ 57 := by
    simpa [Char.isDigit, UInt32.le_iff_toNat_le] using h
  refine List.any_eq_false.mpr fun range hrange hblank => ?_
  rw [Bool.and_eq_true, decide_eq_true_eq, decide_eq_true_eq] at hblank
  have hrange := hranges range hrange
  omega

/-- A text without a blank character has nothing to trim. -/
theorem trim_of_not_blank {text : List Char} (h : ∀ c ∈ text, isBlank c = false) :
    trim text = text :=
  trim_eq_self (fun c hc => h c (List.mem_of_mem_head? hc))
    (fun c hc => h c (List.mem_of_mem_getLast? hc))

end Text

namespace Address

variable {text : List Char}

theorem dropMarkers_of_notMem (h : 'x' ∉ text) : dropMarkers text = text := by
  unfold dropMarkers
  split
  · exact absurd (List.mem_cons_of_mem _ List.mem_cons_self) h
  · rfl

theorem dropMarker_of_notMem (hlower : 'x' ∉ text) (hupper : 'X' ∉ text) :
    dropMarker text = text := by
  unfold dropMarker
  split
  · exact absurd (List.mem_cons_of_mem _ List.mem_cons_self) hlower
  · exact absurd (List.mem_cons_of_mem _ List.mem_cons_self) hupper
  · rfl

/-- Characters of one byte each are as many as their bytes. -/
theorem utf8Length_eq_length (h : ∀ c ∈ text, (String.utf8EncodeChar c).length = 1) :
    utf8Length text = text.length := by
  unfold utf8Length
  induction text with
  | nil => rfl
  | cons c rest ih =>
    obtain ⟨hc, hrest⟩ := List.forall_mem_cons.mp h
    rw [List.flatMap_cons, List.length_append, hc, ih hrest, List.length_cons, Nat.add_comm]

theorem utf8Length_of_mem_lowercase (h : ∀ c ∈ text, c ∈ Hex.lowercase) :
    utf8Length text = text.length := by
  have hall : Hex.lowercase.all (fun c => (String.utf8EncodeChar c).length == 1) = true := by decide
  exact utf8Length_eq_length fun c hc => beq_iff_eq.mp (List.all_eq_true.mp hall c (h c hc))

theorem ofBytes?_bytes (address : Address) : ofBytes? address.bytes = some address :=
  dif_pos address.length_bytes

/-- The lowercase digits of an address are an address without any marker. -/
theorem ofMarked_encode (address : Address) : ofMarked (Hex.encode address.bytes) = .ok address := by
  have hdigits : ∀ c ∈ Hex.encode address.bytes, c ∈ Hex.lowercase :=
    Hex.mem_lowercase_of_mem_encode
  have hlength : utf8Length (Hex.encode address.bytes) = 40 := by
    rw [utf8Length_of_mem_lowercase hdigits, Hex.length_encode, address.length_bytes]
  have hdrop : dropMarker (Hex.encode address.bytes) = Hex.encode address.bytes :=
    dropMarker_of_notMem (fun hx => absurd (hdigits _ hx) (by decide))
      fun hx => absurd (hdigits _ hx) (by decide)
  have hspelled : ofDigits? (Hex.encode address.bytes) = some address := by
    unfold ofDigits?
    rw [Hex.decode?_encode, Option.bind_some, ofBytes?_bytes]
  unfold ofMarked
  rw [hlength, if_neg (by decide), hdrop, hspelled]

theorem parse_text (address : Address) : Address.parse address.text = .ok address := by
  have hdigits : ∀ c ∈ Hex.encode address.bytes, c ∈ Hex.lowercase :=
    Hex.mem_lowercase_of_mem_encode
  have htrim : Text.trim ('0' :: 'x' :: Hex.encode address.bytes) =
      '0' :: 'x' :: Hex.encode address.bytes := by
    apply Text.trim_of_not_blank
    simp only [List.forall_mem_cons]
    exact ⟨by decide, by decide,
      fun c hc => Text.not_isBlank_of_mem_lowercase (hdigits c hc)⟩
  have hdrop : dropMarkers ('0' :: 'x' :: Hex.encode address.bytes) =
      Hex.encode address.bytes := by
    rw [dropMarkers]
    exact dropMarkers_of_notMem fun hx => absurd (hdigits _ hx) (by decide)
  unfold Address.parse ofText Address.text Hex.marked
  rw [String.toList_ofList, htrim, hdrop, ofMarked_encode]
  rfl

end Address

namespace Amount

/-- The text is decimal digits, and zero is only written in front of others when it is alone. -/
structure Canonical (text : String) : Prop where
  nonempty : text.toList ≠ []
  digits : ∀ c ∈ text.toList, c.isDigit = true
  leading : text.toList.head? = some '0' → text = "0"

theorem canonical_text (amount : Nat) : Canonical (Amount.text amount) := by
  have htext : (Amount.text amount).toList = Nat.toDigits 10 amount := String.toList_ofList
  constructor
  case nonempty =>
    rw [htext]
    exact Nat.toDigits_ne_nil
  case digits =>
    rw [htext]
    exact Json.isDigit_of_mem_toDigits
  case leading =>
    rw [htext]
    intro hhead
    rw [Json.eq_zero_of_head?_toDigits hhead]
    rfl

theorem readAmount?_of_digits {digits : List Char} (hnonempty : digits ≠ [])
    (hdigits : ∀ c ∈ digits, c.isDigit = true) :
    Digits.readAmount? digits = some (Digits.value digits) := by
  cases digits with
  | nil => exact absurd rfl hnonempty
  | cons first rest =>
    have hplus : first ≠ '+' := by
      rintro rfl
      exact absurd (hdigits _ List.mem_cons_self) (by decide)
    have hread : Digits.readAmount? (first :: rest) = Digits.readGrouped? (first :: rest) := by
      unfold Digits.readAmount?
      split
      next heq => exact absurd (List.cons.inj heq).1 hplus
      next => rfl
    obtain ⟨hfirst, hrest⟩ := List.forall_mem_cons.mp hdigits
    have hall : rest.all (fun c => c.isDigit || c == '_') = true :=
      List.all_eq_true.mpr fun c hc => by rw [hrest c hc, Bool.true_or]
    rw [hread, Digits.readGrouped?, hfirst, hall, List.filter_eq_self.mpr hdigits]
    rfl

theorem parse_text (amount : Nat) : Amount.parse (Amount.text amount) = .ok amount := by
  have hnonempty : Digits.ofNat amount ≠ [] := Nat.toDigits_ne_nil
  have hdigits : ∀ c ∈ Digits.ofNat amount, c.isDigit = true := Json.isDigit_of_mem_toDigits
  unfold Amount.parse Amount.text
  rw [String.toList_ofList,
    Text.trim_of_not_blank fun c hc => Text.not_isBlank_of_isDigit (hdigits c hc),
    readAmount?_of_digits hnonempty hdigits, Digits.value_ofNat]

end Amount

end SwapCalldata
