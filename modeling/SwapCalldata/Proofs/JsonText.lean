import Mathlib.Tactic
import SwapCalldata.Json.Reader
import SwapCalldata.Json.Writer

/-!
Strings and numbers of JSON as they are written, read as lexemes. A string is read back as it was.
A number is read up to the first character that cannot belong to it, so what it is read as does not
depend on what stands after it.
-/
namespace SwapCalldata.Json

theorem spell?_unit {unit : Nat} (hhigh : isHighSurrogate unit = false)
    (hlow : isLowSurrogate unit = false) (pieces : List Piece) :
    spell? (.unit unit :: pieces) = (spell? pieces).map (Char.ofNat unit :: ·) := by
  cases pieces with
  | nil => simp [spell?, hhigh, hlow]
  | cons piece rest =>
    cases piece with
    | char c => simp [spell?, hhigh, hlow]
    | unit next => simp [spell?, hhigh, hlow]

theorem unit?_control {n : Nat} (h : n < 0x20) :
    unit? '0' '0' (Nat.digitChar (n / 16)) (Nat.digitChar (n % 16)) = some n := by
  have hhigh : Hex.digit? (Nat.digitChar (n / 16)) = some (n / 16) :=
    Hex.digit?_digitChar (by omega)
  have hlow : Hex.digit? (Nat.digitChar (n % 16)) = some (n % 16) :=
    Hex.digit?_digitChar (by omega)
  have hzero : Hex.digit? '0' = some 0 := rfl
  have hsplit : 16 * (n / 16) + n % 16 = n := by omega
  simp [unit?, hhigh, hlow, hzero, hsplit]

/-- The pieces of a text with one more in front. -/
def afterPiece (piece : Piece) (found : List Piece × List Char) : List Piece × List Char :=
  (piece :: found.1, found.2)

theorem pieces?_shortEscape {letter c : Char} (h : shortEscape? letter = some c)
    (rest : List Char) :
    pieces? ('\\' :: letter :: rest) = (pieces? rest).map (afterPiece (.char c)) := by
  have hletter : letter ≠ 'u' := by
    rintro rfl
    cases h
  rw [pieces?, h]
  · cases pieces? rest <;> rfl
  · exact fun _ _ _ _ _ hu => absurd hu hletter

theorem pieces?_control {n : Nat} (h : n < 0x20) (rest : List Char) :
    pieces? ('\\' :: 'u' :: '0' :: '0' :: Nat.digitChar (n / 16) :: Nat.digitChar (n % 16) ::
      rest) = (pieces? rest).map (afterPiece (.unit n)) := by
  rw [pieces?, unit?_control h]
  cases pieces? rest <;> rfl

theorem pieces?_plain {c : Char} (hquote : c ≠ '"') (hbackslash : c ≠ '\\')
    (hcontrol : ¬c.toNat < 0x20) (rest : List Char) :
    pieces? (c :: rest) = (pieces? rest).map (afterPiece (.char c)) := by
  rw [pieces?, if_neg hcontrol]
  · cases pieces? rest <;> rfl
  · exact fun h => hquote h
  · exact fun _ _ _ _ _ h => absurd h hbackslash
  · exact fun _ _ h => absurd h hbackslash

/-- What is written for a character is one piece, which spells this character. -/
theorem exists_piece_escape (c : Char) : ∃ piece : Piece,
    (∀ rest, pieces? (escape c ++ rest) = (pieces? rest).map (afterPiece piece)) ∧
    ∀ pieces, spell? (piece :: pieces) = (spell? pieces).map (c :: ·) := by
  unfold escape
  split
  case h_8 hquote hbackslash _ _ _ _ _ =>
    split
    next hcontrol =>
      have hhigh : isHighSurrogate c.toNat = false := by
        simp only [isHighSurrogate, Bool.and_eq_false_iff, decide_eq_false_iff_not]
        omega
      have hlow : isLowSurrogate c.toNat = false := by
        simp only [isLowSurrogate, Bool.and_eq_false_iff, decide_eq_false_iff_not]
        omega
      refine ⟨.unit c.toNat, pieces?_control hcontrol, fun pieces => ?_⟩
      rw [spell?_unit hhigh hlow, Char.ofNat_toNat]
    next hcontrol =>
      exact ⟨.char c, pieces?_plain hquote hbackslash hcontrol, fun pieces => rfl⟩
  all_goals exact ⟨.char _, pieces?_shortEscape rfl, fun pieces => rfl⟩

theorem exists_pieces_escape (content rest : List Char) : ∃ pieces,
    pieces? (content.flatMap escape ++ '"' :: rest) = some (pieces, rest) ∧
      spell? pieces = some content := by
  induction content with
  | nil => exact ⟨[], by simp [pieces?], rfl⟩
  | cons c content ih =>
    obtain ⟨pieces, hread, hspell⟩ := ih
    obtain ⟨piece, hpiece, hchar⟩ := exists_piece_escape c
    refine ⟨piece :: pieces, ?_, ?_⟩
    · rw [List.flatMap_cons, List.append_assoc, hpiece, hread]
      rfl
    · rw [hchar, hspell]
      rfl

theorem lexeme?_quote (s : String) (rest : List Char) :
    lexeme? '"' (s.toList.flatMap escape ++ '"' :: rest) = some (.string (some s), rest) := by
  obtain ⟨pieces, hread, hspell⟩ := exists_pieces_escape s.toList rest
  simp [lexeme?, hread, hspell]

/-- The first character, if there is one, cannot continue a number. -/
def Delimited (rest : List Char) : Prop :=
  ∀ c ∈ rest.head?, c.isDigit = false ∧ c ≠ '.' ∧ c ≠ 'e' ∧ c ≠ 'E'

theorem takeWhile_digits {digits rest : List Char} (hdigits : ∀ c ∈ digits, c.isDigit = true)
    (hrest : ∀ c ∈ rest.head?, c.isDigit = false) :
    (digits ++ rest).takeWhile Char.isDigit = digits ∧
      (digits ++ rest).dropWhile Char.isDigit = rest := by
  rw [List.takeWhile_append_of_pos hdigits, List.dropWhile_append_of_pos hdigits]
  cases rest with
  | nil => simp
  | cons c rest => simp [hrest c rfl]

/-- The parts of the text of a number after its sign. The exponent has a sign of its own. -/
structure NumberParts where
  whole : List Char
  fraction : List Char
  exponent : Option (Bool × List Char)

namespace NumberParts

def fractionText (parts : NumberParts) : List Char :=
  if parts.fraction = [] then [] else '.' :: parts.fraction

def exponentText (parts : NumberParts) : List Char :=
  match parts.exponent with
  | none => []
  | some (negative, digits) => 'e' :: (if negative then '-' else '+') :: digits

def text (parts : NumberParts) : List Char :=
  parts.whole ++ (parts.fractionText ++ parts.exponentText)

def exponentValue (exponent : Bool × List Char) : Int :=
  if exponent.1 then -(Digits.value exponent.2 : Int) else Digits.value exponent.2

/-- The number that the parts spell. -/
def numeral (parts : NumberParts) (negative : Bool) : Numeral :=
  numeralOfDigits negative parts.whole parts.fraction (parts.exponent.map exponentValue)

structure Valid (parts : NumberParts) : Prop where
  whole : parts.whole ≠ []
  leading : parts.whole.head? = some '0' → parts.whole.length = 1
  wholeDigits : ∀ c ∈ parts.whole, c.isDigit = true
  fractionDigits : ∀ c ∈ parts.fraction, c.isDigit = true
  exponentDigits : ∀ below digits, parts.exponent = some (below, digits) →
    digits ≠ [] ∧ ∀ c ∈ digits, c.isDigit = true

variable {parts : NumberParts} {rest : List Char}

theorem fraction?_fractionText (h : parts.Valid)
    (hrest : ∀ c ∈ rest.head?, c.isDigit = false ∧ c ≠ '.') :
    fraction? (parts.fractionText ++ rest) = some (parts.fraction, rest) := by
  unfold fractionText
  split
  next hnone =>
    rw [hnone, List.nil_append]
    cases rest with
    | nil => rfl
    | cons c rest =>
      have hpoint := (hrest c rfl).2
      rw [fraction?]
      exact fun _ heq => hpoint (List.cons.inj heq).1
  next hsome =>
    obtain ⟨htake, hdrop⟩ := takeWhile_digits h.fractionDigits fun c hc => (hrest c hc).1
    simp [fraction?, htake, hdrop, hsome]

theorem exponentDigits?_digits {digits : List Char} (hsome : digits ≠ [])
    (hdigits : ∀ c ∈ digits, c.isDigit = true) (hrest : Delimited rest) (below : Bool) :
    exponentDigits? below (digits ++ rest) =
      some (exponentValue (below, digits), rest) := by
  obtain ⟨htake, hdrop⟩ := takeWhile_digits hdigits fun c hc => (hrest c hc).1
  simp [exponentDigits?, exponentValue, htake, hdrop, hsome]

theorem exponent?_exponentText (h : parts.Valid) (hrest : Delimited rest) :
    exponent? (parts.exponentText ++ rest) = some (parts.exponent.map exponentValue, rest) := by
  unfold exponentText
  cases hexponent : parts.exponent with
  | none =>
    cases rest with
    | nil => rfl
    | cons c rest =>
      obtain ⟨_, _, hlower, hupper⟩ := hrest c rfl
      simp [exponent?, hlower, hupper]
  | some exponent =>
    obtain ⟨below, digits⟩ := exponent
    obtain ⟨hsome, hdigits⟩ := h.exponentDigits below digits hexponent
    have hread := exponentDigits?_digits hsome hdigits hrest below
    cases below <;> simp_all [exponent?]

theorem delimited_exponentText (parts : NumberParts) (hrest : Delimited rest) :
    ∀ c ∈ (parts.exponentText ++ rest).head?, c.isDigit = false ∧ c ≠ '.' := by
  unfold exponentText
  cases parts.exponent with
  | none => exact fun c hc => ⟨(hrest c hc).1, (hrest c hc).2.1⟩
  | some exponent =>
    intro c hc
    obtain rfl := Option.some.inj hc
    decide

theorem delimited_fractionText (parts : NumberParts)
    (hrest : ∀ c ∈ rest.head?, c.isDigit = false ∧ c ≠ '.') :
    ∀ c ∈ (parts.fractionText ++ rest).head?, c.isDigit = false := by
  unfold fractionText
  split
  · exact fun c hc => (hrest c hc).1
  · intro c hc
    obtain rfl := Option.some.inj hc
    decide

/-- The parts are found again, whatever comes after the number. -/
theorem numeral?_text (h : parts.Valid) (hrest : Delimited rest) (negative : Bool) :
    numeral? negative (parts.text ++ rest) = some (parts.numeral negative, rest) := by
  have hafter := delimited_exponentText parts hrest
  obtain ⟨htake, hdrop⟩ := takeWhile_digits h.wholeDigits (delimited_fractionText parts hafter)
  have hzero : ¬(parts.whole.isEmpty || (parts.whole.head? == some '0' &&
      decide (1 < parts.whole.length))) = true := by
    simp only [Bool.or_eq_true, List.isEmpty_iff, Bool.and_eq_true, beq_iff_eq,
      decide_eq_true_eq, not_or, not_and]
    exact ⟨h.whole, fun hhead => by rw [h.leading hhead]; exact Nat.lt_irrefl 1⟩
  unfold numeral? text
  simp only [List.append_assoc, htake, hdrop, if_neg hzero, fraction?_fractionText h hafter,
    exponent?_exponentText h hrest, Option.bind_eq_bind, Option.bind_some]
  rfl

end NumberParts

theorem eq_zero_of_head?_toDigits {n : Nat} (h : (Nat.toDigits 10 n).head? = some '0') : n = 0 := by
  induction n using Nat.strongRecOn with
  | ind n ih =>
    by_cases hsmall : n < 10
    · rw [Nat.toDigits_of_lt_base hsmall] at h
      interval_cases n <;> simp_all [Nat.digitChar]
    · have hquotient : (Nat.toDigits 10 (n / 10)).head? = some '0' := by
        rw [Nat.toDigits_of_base_le (by omega) (by omega),
          List.head?_append_of_ne_nil _ Nat.toDigits_ne_nil] at h
        exact h
      have := ih (n / 10) (by omega) hquotient
      omega

theorem isDigit_of_mem_toDigits {n : Nat} : ∀ c ∈ Nat.toDigits 10 n, c.isDigit = true :=
  fun _ => Nat.isDigit_of_mem_toDigits (by omega) (by omega)

/-- Digits up to the point and after it. A whole number has a zero after the point. -/
def positionalParts (value : Decimal) : NumberParts :=
  match value.exponent with
  | .ofNat trailing => ⟨value.digits ++ List.replicate trailing '0', ['0'], none⟩
  | .negSucc k =>
    let padded := List.replicate (k + 2 - value.digits.length) '0' ++ value.digits
    ⟨padded.take (padded.length - (k + 1)), padded.drop (padded.length - (k + 1)), none⟩

/-- One digit before the point, and an exponent. -/
def scientificParts (value : Decimal) : NumberParts :=
  ⟨value.digits.take 1, value.digits.drop 1,
    some (decide (value.leading < 0), Nat.toDigits 10 value.leading.natAbs)⟩

/-- The parts of the text of a number that is no integer. -/
def realParts (value : Decimal) : NumberParts :=
  if -5 ≤ value.leading ∧ value.leading ≤ 15 then positionalParts value else scientificParts value

theorem text_positionalParts (value : Decimal) : (positionalParts value).text =
    if 0 ≤ value.exponent then value.positional ++ ['.', '0'] else value.positional := by
  unfold positionalParts Decimal.positional NumberParts.text NumberParts.fractionText
    NumberParts.exponentText
  cases value.exponent with
  | ofNat trailing => simp
  | negSucc k =>
    have hlength : 0 < value.digits.length := Nat.length_toDigits_pos
    have hplaces : List.drop (k + 2 - value.digits.length + value.digits.length - (k + 1))
        (List.replicate (k + 2 - value.digits.length) '0' ++ value.digits) ≠ [] := by
      simp only [ne_eq, List.drop_eq_nil_iff, List.length_append, List.length_replicate]
      omega
    have hnegative : ¬0 ≤ Int.negSucc k := by omega
    simp [hplaces, hnegative]

theorem text_scientificParts (value : Decimal) : (scientificParts value).text =
    value.digits.take 1 ++ (if value.digits.length = 1 then [] else '.' :: value.digits.drop 1) ++
      'e' :: (if value.leading < 0 then '-' else '+') :: Nat.toDigits 10 value.leading.natAbs := by
  have hlength : 0 < value.digits.length := Nat.length_toDigits_pos
  have hone : value.digits.drop 1 = [] ↔ value.digits.length = 1 := by
    rw [List.drop_eq_nil_iff]
    omega
  simp only [scientificParts, NumberParts.text, NumberParts.fractionText,
    NumberParts.exponentText, hone, decide_eq_true_eq, List.append_assoc]

theorem text_realParts (value : Decimal) : (realParts value).text = realText value := by
  unfold realText realParts
  by_cases hplain : -5 ≤ value.leading ∧ value.leading ≤ 15
  · simp only [if_pos hplain, text_positionalParts]
  · simp only [if_neg hplain, text_scientificParts, List.append_assoc]

theorem isDigit_of_mem_digits (value : Decimal) : ∀ c ∈ value.digits, c.isDigit = true :=
  isDigit_of_mem_toDigits

theorem valid_positionalParts {value : Decimal} (h : value.coefficient = 0 → value.exponent ≤ 0) :
    (positionalParts value).Valid := by
  have hlength : 0 < value.digits.length := Nat.length_toDigits_pos
  have hsome : value.digits ≠ [] := Nat.toDigits_ne_nil
  have hzeros (count : Nat) : ∀ c ∈ List.replicate count '0', c.isDigit = true := by
    intro c hc
    rw [List.eq_of_mem_replicate hc]
    rfl
  unfold positionalParts
  cases hexponent : value.exponent with
  | ofNat trailing =>
    constructor
    case whole => exact List.append_ne_nil_of_left_ne_nil hsome _
    case leading =>
      intro hhead
      have hzero : value.coefficient = 0 :=
        eq_zero_of_head?_toDigits ((List.head?_append_of_ne_nil _ hsome).symm.trans hhead)
      have htrailing : trailing = 0 := by
        have hle := h hzero
        rw [hexponent] at hle
        exact Nat.le_zero.mp (Int.ofNat_le.mp hle)
      simp [Decimal.digits, hzero, htrailing]
    case wholeDigits => exact List.forall_mem_append.mpr ⟨isDigit_of_mem_digits value, hzeros _⟩
    case fractionDigits =>
      intro c hc
      rw [List.mem_singleton.mp hc]
      rfl
    case exponentDigits => simp
  | negSucc k =>
    have hpadded : ∀ c ∈ List.replicate (k + 2 - value.digits.length) '0' ++ value.digits,
        c.isDigit = true := List.forall_mem_append.mpr ⟨hzeros _, isDigit_of_mem_digits value⟩
    constructor
    case whole =>
      apply List.ne_nil_of_length_pos
      simp only [List.length_take, List.length_append, List.length_replicate]
      omega
    case leading =>
      -- Zeros are put in front only where the digits do not reach beyond the point.
      intro hhead
      simp only [List.length_take, List.length_append, List.length_replicate] at hhead ⊢
      by_cases hshort : value.digits.length ≤ k + 1
      · omega
      · have hnone : k + 2 - value.digits.length = 0 := by omega
        rw [hnone, List.replicate_zero, List.nil_append, Nat.zero_add, List.head?_take,
          if_neg (by omega)] at hhead
        have hzero : value.coefficient = 0 := eq_zero_of_head?_toDigits hhead
        have hone : value.digits.length = 1 := by simp [Decimal.digits, hzero]
        omega
    case wholeDigits => exact fun c hc => hpadded c (List.mem_of_mem_take hc)
    case fractionDigits => exact fun c hc => hpadded c (List.mem_of_mem_drop hc)
    case exponentDigits => simp

theorem valid_scientificParts (value : Decimal) : (scientificParts value).Valid := by
  have hlength : 0 < value.digits.length := Nat.length_toDigits_pos
  constructor
  case whole =>
    apply List.ne_nil_of_length_pos
    simp [scientificParts]
    omega
  case leading =>
    intro _
    simp [scientificParts]
    omega
  case wholeDigits => exact fun c hc => isDigit_of_mem_digits value c (List.mem_of_mem_take hc)
  case fractionDigits => exact fun c hc => isDigit_of_mem_digits value c (List.mem_of_mem_drop hc)
  case exponentDigits =>
    rintro below digits hexponent
    obtain ⟨rfl, rfl⟩ := Prod.mk.inj (Option.some.inj hexponent)
    exact ⟨Nat.toDigits_ne_nil, isDigit_of_mem_toDigits⟩

theorem valid_realParts {value : Decimal} (h : value.coefficient = 0 → value.exponent ≤ 0) :
    (realParts value).Valid := by
  unfold realParts
  split
  · exact valid_positionalParts h
  · exact valid_scientificParts value

end SwapCalldata.Json

namespace SwapCalldata.Digits

theorem le_ofDigitChars (digits : List Char) (n : Nat) : n ≤ Nat.ofDigitChars 10 digits n := by
  induction digits generalizing n with
  | nil => exact Nat.le_refl n
  | cons digit rest ih =>
    rw [Nat.ofDigitChars_cons]
    have hrest := ih (10 * n + (digit.toNat - '0'.toNat))
    omega

/-- Digits whose value is a word of 64 bits are all kept. -/
theorem extendWord_of_lt {digits : List Char} {n : Nat}
    (h : Nat.ofDigitChars 10 digits n < UInt64.size) :
    extendWord n digits = (Nat.ofDigitChars 10 digits n, []) := by
  induction digits generalizing n with
  | nil => rfl
  | cons digit rest ih =>
    rw [Nat.ofDigitChars_cons] at h ⊢
    have hlonger := Nat.lt_of_le_of_lt (le_ofDigitChars rest _) h
    simp only [extendWord, if_pos hlonger, ih h]

end SwapCalldata.Digits

namespace SwapCalldata.Numeral

open Json

def isNegative : Numeral → Bool
  | integer negative _ => negative
  | real negative _ => negative

/-- The parts of the text that is written. -/
def parts : Numeral → NumberParts
  | integer _ magnitude => ⟨Nat.toDigits 10 magnitude, [], none⟩
  | real _ value => realParts value

/-- What a reader makes of the text that is written. -/
def reread (numeral : Numeral) : Numeral := numeral.parts.numeral numeral.isNegative

/-- A zero that is no integer has no places in front. -/
def Writable : Numeral → Prop
  | integer _ _ => True
  | real _ value => value.coefficient = 0 → value.exponent ≤ 0

theorem numeralText_eq (numeral : Numeral) :
    numeralText numeral = (if numeral.isNegative then ['-'] else []) ++ numeral.parts.text := by
  cases numeral with
  | integer negative magnitude =>
    have htext : (integer negative magnitude).parts.text = Nat.toDigits 10 magnitude := by
      simp [parts, NumberParts.text, NumberParts.fractionText, NumberParts.exponentText]
    rw [htext]
    rfl
  | real negative value =>
    rw [parts, text_realParts]
    rfl

theorem valid_parts {numeral : Numeral} (h : numeral.Writable) : numeral.parts.Valid := by
  cases numeral with
  | integer negative magnitude =>
    constructor
    case whole => exact Nat.toDigits_ne_nil
    case leading =>
      intro hhead
      simp [parts, eq_zero_of_head?_toDigits hhead]
    case wholeDigits => exact isDigit_of_mem_toDigits
    case fractionDigits => simp [parts]
    case exponentDigits => simp [parts]
  | real negative value => exact valid_realParts h

theorem reread_integer {magnitude : Nat} (h : magnitude < UInt64.size) (negative : Bool) :
    (integer negative magnitude).reread = integer negative magnitude := by
  have hvalue : Nat.ofDigitChars 10 (Nat.toDigits 10 magnitude) 0 = magnitude :=
    Nat.ofDigitChars_ten_toDigits
  have hword : Digits.extendWord 0 (Nat.toDigits 10 magnitude) = (magnitude, []) := by
    rw [Digits.extendWord_of_lt (hvalue.symm ▸ h), hvalue]
  simp [reread, parts, NumberParts.numeral, numeralOfDigits, isNegative, hword, Digits.extendWord]

end SwapCalldata.Numeral

namespace SwapCalldata.Json

theorem lexeme?_digit {c : Char} (hdigit : c.isDigit = true) (rest : List Char) :
    lexeme? c rest = (numeral? false (c :: rest)).map fun (numeral, rest) =>
      (.scalar (.number numeral), rest) := by
  unfold lexeme?
  split <;> first | rfl | exact absurd hdigit (by decide)

theorem isSpace_of_isDigit {c : Char} (h : c.isDigit = true) : isSpace c = false := by
  rw [Bool.eq_false_iff]
  intro hspace
  simp only [isSpace, Bool.or_eq_true, beq_iff_eq] at hspace
  obtain ((rfl | rfl) | rfl) | rfl := hspace <;> exact absurd h (by decide)

/-- What is written for a number is one lexeme, up to where the number is delimited. -/
theorem exists_lexeme_numeralText {numeral : Numeral} (h : numeral.Writable) {rest : List Char}
    (hrest : Delimited rest) : ∃ c text, numeralText numeral ++ rest = c :: text ∧
      isSpace c = false ∧ lexeme? c text = some (.scalar (.number numeral.reread), rest) := by
  have hvalid := Numeral.valid_parts h
  have hread := NumberParts.numeral?_text hvalid hrest numeral.isNegative
  rw [numeral.numeralText_eq]
  cases hnegative : numeral.isNegative with
  | true =>
    refine ⟨'-', numeral.parts.text ++ rest, rfl, by decide, ?_⟩
    rw [hnegative] at hread
    simp only [lexeme?, hread, Option.map_some, Numeral.reread, hnegative]
  | false =>
    obtain ⟨c, whole, hwhole⟩ := List.exists_cons_of_ne_nil hvalid.whole
    have hdigit : c.isDigit = true := hvalid.wholeDigits c (hwhole ▸ List.mem_cons_self)
    have htext : numeral.parts.text ++ rest = c :: (whole ++
        (numeral.parts.fractionText ++ numeral.parts.exponentText) ++ rest) := by
      simp [NumberParts.text, hwhole]
    refine ⟨c, _, htext, isSpace_of_isDigit hdigit, ?_⟩
    rw [lexeme?_digit hdigit, ← htext, ← hnegative, hread]
    rfl

end SwapCalldata.Json
