import SwapCalldata.Proofs.AppendRun
import SwapCalldata.Proofs.HexSpelling
import SwapCalldata.Proofs.Trimming

/-!
The grammar of address texts. An address is forty digits of either case behind any number of
markers, of which only the one next to the digits may be in upper case. Blank characters around are
not part of it. The digits alone say which address it is, and their case says nothing.
-/
namespace SwapCalldata

namespace Address

variable {markers markers' : Nat} {text digits digits' : List Char} {address : Address}

def FortyDigits (digits : List Char) : Prop :=
  digits.length = 40 ∧ ∀ c ∈ digits, Hex.isDigit c = true

/-- The text is a number of markers and forty digits. -/
inductive Spelling : (markers : Nat) → (text digits : List Char) → Prop
  | plain {digits : List Char} : FortyDigits digits → Spelling 0 digits digits
  | upper {digits : List Char} : FortyDigits digits → Spelling 1 ('0' :: 'X' :: digits) digits
  | lower {markers : Nat} {text digits : List Char} :
    Spelling markers text digits → Spelling (markers + 1) ('0' :: 'x' :: text) digits

/-- The text is a number of markers and forty digits, with blank characters around them. -/
def Written (markers : Nat) (digits : List Char) (text : String) : Prop :=
  Text.Wrapped (fun core => Spelling markers core digits) text.toList

theorem FortyDigits.notMem_x (h : FortyDigits digits) : 'x' ∉ digits ∧ 'X' ∉ digits :=
  ⟨fun hx => absurd (h.2 _ hx) (by decide), fun hx => absurd (h.2 _ hx) (by decide)⟩

theorem fortyDigits_of_spells (h : Hex.Spells digits address.bytes) : FortyDigits digits :=
  ⟨by rw [h.length, address.length_bytes], h.isDigit⟩

namespace Spelling

theorem fortyDigits (h : Spelling markers text digits) : FortyDigits digits := by
  induction h with
  | plain hforty => exact hforty
  | upper hforty => exact hforty
  | lower _ ih => exact ih

theorem length (h : Spelling markers text digits) : text.length = 2 * markers + 40 := by
  induction h with
  | plain hforty => simp [hforty.1]
  | upper hforty => simp [hforty.1]
  | lower _ ih => simp [ih]; omega

/-- What holds of every digit and of the letters of the markers holds of the text. -/
theorem forall_of_all {P : Char → Bool} (h : Spelling markers text digits)
    (hall : ('x' :: 'X' :: Hex.alphabet).all P = true) : ∀ c ∈ text, P c = true := by
  simp only [List.all_cons, Bool.and_eq_true] at hall
  obtain ⟨hlower, hupper, hdigits⟩ := hall
  have hdigit : ∀ c, Hex.isDigit c = true → P c = true := fun c hc => Hex.of_isDigit hdigits hc
  have hzero : P '0' = true := hdigit '0' (by decide)
  induction h with
  | plain hforty => exact fun c hc => hdigit c (hforty.2 c hc)
  | upper hforty =>
    simp only [List.forall_mem_cons]
    exact ⟨hzero, hupper, fun c hc => hdigit c (hforty.2 c hc)⟩
  | lower _ ih =>
    simp only [List.forall_mem_cons]
    exact ⟨hzero, hlower, ih⟩

theorem tight (h : Spelling markers text digits) : Text.Tight text := by
  have hchars := h.forall_of_all (P := fun c => !Text.isBlank c) (by decide)
  exact Text.Tight.of_not_blank fun c hc => by simpa using hchars c hc

theorem utf8Length_eq (h : Spelling markers text digits) :
    utf8Length text = 2 * markers + 40 := by
  have hchars := h.forall_of_all (P := fun c => (String.utf8EncodeChar c).length == 1) (by decide)
  rw [utf8Length_eq_length fun c hc => beq_iff_eq.mp (hchars c hc), h.length]

/-- A text has its markers and digits in one way only. -/
theorem unique (h : Spelling markers text digits) (h' : Spelling markers' text digits') :
    markers = markers' ∧ digits = digits' := by
  have hdrop : ∀ {markers text digits}, Spelling markers text digits →
      digits = text.drop (2 * markers) := by
    intro markers text digits h
    induction h with
    | plain _ => rfl
    | upper _ => rfl
    | lower _ ih => exact ih
  obtain rfl : markers = markers' := by
    have hlength := h.length.symm.trans h'.length
    omega
  exact ⟨rfl, (hdrop h).trans (hdrop h').symm⟩

end Spelling

theorem written_iff {text : String} :
    Written markers digits text ↔ Spelling markers (Text.trim text.toList) digits :=
  Text.wrapped_iff fun _ h => h.tight

/-- Dropping one marker leaves the digits of the texts with at most one. -/
theorem dropMarker_eq_iff (h : FortyDigits digits) :
    dropMarker text = digits ↔ ∃ markers ≤ 1, Spelling markers text digits := by
  constructor
  · rintro rfl
    unfold dropMarker at h ⊢
    split at h
    · exact ⟨1, le_rfl, .lower (.plain h)⟩
    · exact ⟨1, le_rfl, .upper h⟩
    · exact ⟨0, Nat.zero_le 1, .plain h⟩
  · rintro ⟨markers, hone, hspelling⟩
    cases hspelling with
    | plain hforty => exact dropMarker_of_notMem hforty.notMem_x.1 hforty.notMem_x.2
    | upper _ => rfl
    | @lower more _ _ hrest =>
      obtain rfl : more = 0 := by omega
      cases hrest
      rfl

/-- Dropping the lowercase markers leaves at most the last one. -/
theorem exists_spelling_dropMarkers_iff :
    (∃ markers ≤ 1, Spelling markers (dropMarkers text) digits) ↔
      ∃ markers, Spelling markers text digits := by
  fun_induction dropMarkers text with
  | case1 rest ih =>
    rw [ih]
    constructor
    · rintro ⟨markers, h⟩
      exact ⟨markers + 1, .lower h⟩
    · rintro ⟨markers, h⟩
      cases h with
      | plain hforty => exact absurd (by simp) hforty.notMem_x.1
      | lower h => exact ⟨_, h⟩
  | case2 text hnone =>
    constructor
    · rintro ⟨markers, _, h⟩
      exact ⟨markers, h⟩
    · rintro ⟨markers, h⟩
      cases h with
      | plain hforty => exact ⟨0, Nat.zero_le 1, .plain hforty⟩
      | upper hforty => exact ⟨1, le_rfl, .upper hforty⟩
      | lower h => exact absurd rfl (hnone _)

theorem ofDigits?_eq_some_iff :
    ofDigits? digits = some address ↔ Hex.Spells digits address.bytes := by
  unfold ofDigits?
  rw [Option.bind_eq_some_iff]
  simp only [Hex.decode?_eq_some_iff]
  constructor
  · rintro ⟨bytes, hspells, hbytes⟩
    unfold ofBytes? at hbytes
    split at hbytes
    next =>
      obtain rfl := Option.some.inj hbytes
      exact hspells
    next => cases hbytes
  · intro hspells
    exact ⟨address.bytes, hspells, ofBytes?_bytes address⟩

/-- Reading after at most one marker. -/
theorem ofDigits?_dropMarker_eq_some_iff : ofDigits? (dropMarker text) = some address ↔
    ∃ markers ≤ 1, ∃ digits, Spelling markers text digits ∧ Hex.Spells digits address.bytes := by
  rw [ofDigits?_eq_some_iff]
  constructor
  · intro hspells
    obtain ⟨markers, hone, hspelling⟩ := (dropMarker_eq_iff (fortyDigits_of_spells hspells)).mp rfl
    exact ⟨markers, hone, _, hspelling, hspells⟩
  · rintro ⟨markers, hone, digits, hspelling, hspells⟩
    rwa [(dropMarker_eq_iff hspelling.fortyDigits).mpr ⟨markers, hone, hspelling⟩]

/-- No text that is read has an odd length. -/
theorem ofMarked_eq_ok_iff :
    ofMarked text = .ok address ↔ ofDigits? (dropMarker text) = some address := by
  unfold ofMarked
  split
  next hodd =>
    refine iff_of_false (by simp) fun hread => ?_
    obtain ⟨markers, _, digits, hspelling, _⟩ := ofDigits?_dropMarker_eq_some_iff.mp hread
    rw [hspelling.utf8Length_eq] at hodd
    omega
  next => cases ofDigits? (dropMarker text) <;> simp

/-- An address is read exactly from the texts that spell it, with any number of markers. -/
theorem parse_eq_ok_iff {text : String} : Address.parse text = .ok address ↔
    ∃ markers digits, Written markers digits text ∧ Hex.Spells digits address.bytes := by
  unfold Address.parse ofText
  rw [Outcome.mapError_eq_ok_iff, ofMarked_eq_ok_iff, ofDigits?_dropMarker_eq_some_iff]
  simp only [written_iff]
  constructor
  · rintro ⟨markers, hone, digits, hspelling, hspells⟩
    obtain ⟨all, hall⟩ := exists_spelling_dropMarkers_iff.mp ⟨markers, hone, hspelling⟩
    exact ⟨all, digits, hall, hspells⟩
  · rintro ⟨all, digits, hall, hspells⟩
    obtain ⟨markers, hone, hspelling⟩ := exists_spelling_dropMarkers_iff.mpr ⟨all, hall⟩
    exact ⟨markers, hone, digits, hspelling, hspells⟩

/-- Forty digits always are an address. -/
theorem exists_parse_of_written {text : String} (h : Written markers digits text) :
    ∃ address, Address.parse text = .ok address ∧ Hex.Spells digits address.bytes := by
  have hforty := (written_iff.mp h).fortyDigits
  have htwenty : digits.length = 2 * 20 := hforty.1
  obtain ⟨bytes, _, hspells, _⟩ := Hex.exists_decode? htwenty hforty.2
  have hlength : bytes.length = 20 := by
    have htwo := hspells.length
    omega
  exact ⟨⟨bytes, hlength⟩, parse_eq_ok_iff.mpr ⟨markers, digits, h, hspells⟩, hspells⟩

theorem text_of_spells (h : Hex.Spells digits address.bytes) :
    address.text.toList = '0' :: 'x' :: digits.map Char.toLower := by
  unfold Address.text Hex.marked
  rw [String.toList_ofList, Hex.encode_of_spells h]

/-- How a text is read as an address: by its digits alone, whatever markers and blank characters
stand before and after them. -/
structure ReadsDigits (text : String) : Prop where
  accepted : (∃ address, Address.parse text = .ok address) ↔
    ∃ markers digits, Written markers digits text
  trimmed : ∀ markers digits,
    Written markers digits text ↔ Spelling markers (Text.trim text.toList) digits
  spelled : ∀ address, Address.parse text = .ok address ↔
    ∃ markers digits, Written markers digits text ∧ Hex.Spells digits address.bytes
  /-- A refusal quotes the text as it came. -/
  refused : ∀ error, Address.parse text = .error error → ∃ fault, error = .badAddress text fault
  canonical : ∀ markers digits address, Written markers digits text →
    Address.parse text = .ok address →
      address.text.toList = '0' :: 'x' :: digits.map Char.toLower
  /-- Two texts are of one address if their digits are the same but for their case. -/
  alike : ∀ other markers markers' digits digits', Written markers digits text →
    Written markers' digits' other →
      (Address.parse text = Address.parse other ↔
        digits.map Char.toLower = digits'.map Char.toLower)

theorem readsDigits (text : String) : ReadsDigits text := by
  constructor
  case accepted =>
    constructor
    · rintro ⟨address, haddress⟩
      obtain ⟨markers, digits, hwritten, _⟩ := parse_eq_ok_iff.mp haddress
      exact ⟨markers, digits, hwritten⟩
    · rintro ⟨markers, digits, hwritten⟩
      obtain ⟨address, haddress, _⟩ := exists_parse_of_written hwritten
      exact ⟨address, haddress⟩
  case trimmed => exact fun markers digits => written_iff
  case spelled => exact fun address => parse_eq_ok_iff
  case refused =>
    intro error herror
    obtain ⟨fault, _, hquoted⟩ := Outcome.mapError_eq_error_iff.mp herror
    exact ⟨fault, hquoted.symm⟩
  case canonical =>
    intro markers digits address hwritten haddress
    obtain ⟨other, hother, hspells⟩ := exists_parse_of_written hwritten
    obtain rfl : other = address := Except.ok.inj (hother.symm.trans haddress)
    exact text_of_spells hspells
  case alike =>
    intro other markers markers' digits digits' hwritten hwritten'
    obtain ⟨address, haddress, hspells⟩ := exists_parse_of_written hwritten
    obtain ⟨address', haddress', hspells'⟩ := exists_parse_of_written hwritten'
    rw [haddress, haddress', Except.ok.injEq, ← Hex.encode_of_spells hspells,
      ← Hex.encode_of_spells hspells']
    exact ⟨fun h => h ▸ rfl, fun h => ext_bytes (Hex.encode_inj h)⟩

/-- Every text is read by the grammar, and what is written for an address is read as this
address. -/
theorem parse_grammar :
    (∀ text : String, ReadsDigits text) ∧
      ∀ address : Address, Address.parse address.text = .ok address :=
  ⟨readsDigits, parse_text⟩

/-- A lowercase marker, then an uppercase one, and blank characters around; but not the other way
round. -/
example : (Address.parse "\u2003 0x0XaBABABABABABABABABABABABABABABABABABABAB\n").toOption.map
      Address.text = some "0xabababababababababababababababababababab" ∧
    Address.parse "0X0xabababababababababababababababababababab" =
      .error (.badAddress "0X0xabababababababababababababababababababab" .wrongLength) := by
  decide +kernel

end Address

end SwapCalldata
