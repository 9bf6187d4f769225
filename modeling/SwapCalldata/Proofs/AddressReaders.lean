import SwapCalldata.Proofs.AddressGrammar

/-!
The two readers of address texts. A buffer takes an address behind at most one marker, and an
address that is parsed may stand behind any number. They agree on every text but those with more
than one marker: these are parsed, and a buffer refuses them.
-/
namespace SwapCalldata

/-- The text is an address behind more than one marker. -/
def Address.Repeats (text : String) : Prop :=
  ∃ markers digits, 2 ≤ markers ∧ Written markers digits text

theorem Address.Written.unique {markers markers' : Nat} {digits digits' : List Char}
    {text : String} (h : Written markers digits text) (h' : Written markers' digits' text) :
    markers = markers' ∧ digits = digits' :=
  (written_iff.mp h).unique (written_iff.mp h')

namespace Primitive

variable {text : String} {address : Address}

theorem readAddress?_eq_some_iff : readAddress? text = some address ↔
    ∃ markers ≤ 1, ∃ digits, Address.Written markers digits text ∧
      Hex.Spells digits address.bytes := by
  unfold readAddress?
  simp only [Address.ofDigits?_dropMarker_eq_some_iff, Address.written_iff]

/-- What a buffer reads is what is parsed, unless there is more than one marker. -/
theorem readAddress?_eq_some_iff_parse : readAddress? text = some address ↔
    Address.parse text = .ok address ∧ ¬Address.Repeats text := by
  rw [readAddress?_eq_some_iff, Address.parse_eq_ok_iff]
  constructor
  · rintro ⟨markers, hone, digits, hwritten, hspells⟩
    refine ⟨⟨markers, digits, hwritten, hspells⟩, ?_⟩
    rintro ⟨more, digits', htwo, hwritten'⟩
    obtain ⟨rfl, _⟩ := hwritten.unique hwritten'
    omega
  · rintro ⟨⟨markers, digits, hwritten, hspells⟩, honce⟩
    refine ⟨markers, ?_, digits, hwritten, hspells⟩
    by_contra hmore
    exact honce ⟨markers, digits, by omega, hwritten⟩

end Primitive

namespace Buffer

variable {buffer after : Buffer} {text : String}

theorem append_addressText_eq_ok_iff : buffer.append (.addressText text) = .ok after ↔
    ∃ address, Address.parse text = .ok address ∧ ¬Address.Repeats text ∧
      after.bytes = buffer.bytes ++ address.bytes := by
  rw [append_eq_ok_iff, Primitive.encode]
  simp only [← and_assoc, ← Primitive.readAddress?_eq_some_iff_parse]
  cases Primitive.readAddress? text with
  | none => simp
  | some address =>
    simp only [Except.ok.injEq, Option.some.injEq, exists_eq_left']
    constructor
    · rintro rfl
      rfl
    · intro hbytes
      exact congrArg Buffer.mk hbytes.symm

theorem append_addressText_eq_error_iff :
    buffer.append (.addressText text) = .error (.invalidAddress text) ↔
      ∀ after, buffer.append (.addressText text) ≠ .ok after := by
  simp only [append_eq, Primitive.encode]
  cases Primitive.readAddress? text <;> simp [Except.map]

/-- A text is appended as an address exactly if it is parsed and has at most one marker, and then the
bytes of the parsed address are appended. The texts on which the two readers disagree are those with
more markers. -/
theorem append_addressText_exact (buffer : Buffer) (text : String) :
    ((∃ after, buffer.append (.addressText text) = .ok after) ↔
      (∃ address, Address.parse text = .ok address) ∧ ¬Address.Repeats text) ∧
    (∀ address after, Address.parse text = .ok address →
      buffer.append (.addressText text) = .ok after →
        after.bytes = buffer.bytes ++ address.bytes) ∧
    ((∃ address, Address.parse text = .ok address) ∧
      buffer.append (.addressText text) = .error (.invalidAddress text) ↔
        Address.Repeats text) := by
  have haccepted : (∃ after, buffer.append (.addressText text) = .ok after) ↔
      (∃ address, Address.parse text = .ok address) ∧ ¬Address.Repeats text := by
    simp only [append_addressText_eq_ok_iff]
    constructor
    · rintro ⟨_, address, haddress, honce, _⟩
      exact ⟨⟨address, haddress⟩, honce⟩
    · rintro ⟨⟨address, haddress⟩, honce⟩
      exact ⟨⟨buffer.bytes ++ address.bytes⟩, address, haddress, honce, rfl⟩
  refine ⟨haccepted, fun address after haddress hafter => ?_, ?_⟩
  · obtain ⟨other, hother, _, hbytes⟩ := append_addressText_eq_ok_iff.mp hafter
    rwa [Except.ok.inj (haddress.symm.trans hother)]
  · rw [append_addressText_eq_error_iff, ← not_exists, haccepted]
    constructor
    · rintro ⟨hparsed, hrefused⟩
      by_contra honce
      exact hrefused ⟨hparsed, honce⟩
    · intro hrepeats
      have ⟨_, _, _, hwritten⟩ := hrepeats
      obtain ⟨address, haddress, _⟩ := Address.exists_parse_of_written hwritten
      exact ⟨⟨address, haddress⟩, fun h => h.2 hrepeats⟩

/-- An address behind two markers is parsed, and a buffer refuses it. -/
theorem append_twiceMarked :
    ∃ address, Address.parse "0x0x1111111111111111111111111111111111111111" = .ok address ∧
      empty.append (.addressText "0x0x1111111111111111111111111111111111111111") =
        .error (.invalidAddress "0x0x1111111111111111111111111111111111111111") := by
  refine ⟨⟨List.replicate 20 0x11, rfl⟩, ?_, ?_⟩
  · decide +kernel
  · decide +kernel

/-- Behind one marker an address is appended, behind an uppercase one after a lowercase one it is
not. -/
theorem append_addressText_exact_marked :
    (∃ address after, Address.parse "0X1111111111111111111111111111111111111111" = .ok address ∧
      empty.append (.addressText "0X1111111111111111111111111111111111111111") = .ok after ∧
        after.bytes = empty.bytes ++ address.bytes) ∧
    Address.Repeats "0x0X1111111111111111111111111111111111111111" := by
  have hparse : Address.parse "0X1111111111111111111111111111111111111111" =
      .ok ⟨List.replicate 20 0x11, rfl⟩ := by decide +kernel
  have happend : empty.append (.addressText "0X1111111111111111111111111111111111111111") =
      .ok ⟨List.replicate 20 0x11⟩ := by decide +kernel
  have htwice : Address.parse "0x0X1111111111111111111111111111111111111111" =
      .ok ⟨List.replicate 20 0x11, rfl⟩ := by decide +kernel
  have hrefused : empty.append (.addressText "0x0X1111111111111111111111111111111111111111") =
      .error (.invalidAddress "0x0X1111111111111111111111111111111111111111") := by decide +kernel
  obtain ⟨_, hbytes, _⟩ :=
    append_addressText_exact empty "0X1111111111111111111111111111111111111111"
  obtain ⟨_, _, hrepeats⟩ :=
    append_addressText_exact empty "0x0X1111111111111111111111111111111111111111"
  exact ⟨⟨_, _, hparse, happend, hbytes _ _ hparse happend⟩, hrepeats.mp ⟨⟨_, htwice⟩, hrefused⟩⟩

end Buffer

end SwapCalldata
