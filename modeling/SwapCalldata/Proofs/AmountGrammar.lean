import SwapCalldata.Proofs.CanonicalText
import SwapCalldata.Proofs.Trimming
import SwapCalldata.Proofs.WireMeaning

/-!
The grammar of amounts. An amount is a decimal number whose digits may be grouped by underscores,
with at most one plus sign in front and blank characters around. Whether it fits a 256-bit word is a
matter of its value and not of its text, and a route is converted only with amounts that fit.
-/
namespace SwapCalldata

namespace Digits

variable {text padded rest front back : List Char} {first c : Char} {n : Nat}

/-- The text is digits with underscores after the first of them, and the digits are the decimal
number. -/
inductive Grouped : (text : List Char) → (n : Nat) → Prop
  | first {c : Char} : c.isDigit = true → Grouped [c] (c.toNat - '0'.toNat)
  | digit {text : List Char} {n : Nat} {c : Char} :
    Grouped text n → c.isDigit = true → Grouped (text ++ [c]) (10 * n + (c.toNat - '0'.toNat))
  | underscore {text : List Char} {n : Nat} : Grouped text n → Grouped (text ++ ['_']) n

/-- Digits and underscores, the first of them not an underscore. -/
structure Groupable (text : List Char) : Prop where
  nonempty : text ≠ []
  chars : ∀ c ∈ text, c.isDigit = true ∨ c = '_'
  first : text.head? ≠ some '_'

theorem value_append_singleton (digits : List Char) (c : Char) :
    value (digits ++ [c]) = 10 * value digits + (c.toNat - '0'.toNat) := by
  unfold value
  rw [Nat.ofDigitChars_append, Nat.ofDigitChars_cons, Nat.ofDigitChars_nil]

theorem value_zero_cons (digits : List Char) : value ('0' :: digits) = value digits := by
  unfold value
  rw [Nat.ofDigitChars_cons, Nat.mul_zero, Nat.zero_add, Nat.sub_self]

theorem filter_isDigit_singleton (h : c.isDigit = true) : [c].filter Char.isDigit = [c] :=
  List.filter_cons_of_pos h

theorem filter_isDigit_underscore : ['_'].filter Char.isDigit = [] := by decide

theorem groupable_cons_iff : Groupable (first :: rest) ↔
    first.isDigit = true ∧ ∀ c ∈ rest, c.isDigit = true ∨ c = '_' := by
  constructor
  · rintro ⟨-, hchars, hhead⟩
    obtain ⟨hfirst | rfl, hrest⟩ := List.forall_mem_cons.mp hchars
    · exact ⟨hfirst, hrest⟩
    · exact absurd rfl hhead
  · rintro ⟨hfirst, hrest⟩
    refine ⟨List.cons_ne_nil _ _, List.forall_mem_cons.mpr ⟨.inl hfirst, hrest⟩, ?_⟩
    intro hhead
    cases hhead
    exact absurd hfirst (by decide)

theorem Groupable.append_singleton (h : Groupable text) (hc : c.isDigit = true ∨ c = '_') :
    Groupable (text ++ [c]) := by
  refine ⟨List.append_ne_nil_of_left_ne_nil h.nonempty _, fun d hd => ?_, ?_⟩
  · rcases List.mem_append.mp hd with hd | hd
    · exact h.chars d hd
    · rwa [List.mem_singleton.mp hd]
  · rw [List.head?_append_of_ne_nil _ h.nonempty]
    exact h.first

/-- The reader takes the groupable texts, and what it reads is in the digits alone. -/
theorem readGrouped?_eq_some_iff_value :
    readGrouped? text = some n ↔ Groupable text ∧ value (text.filter Char.isDigit) = n := by
  cases text with
  | nil => exact ⟨(fun h => nomatch h), fun h => absurd rfl h.1.nonempty⟩
  | cons first rest =>
    rw [groupable_cons_iff, readGrouped?, Option.ite_none_right_eq_some, Option.some.injEq]
    simp only [Bool.and_eq_true, List.all_eq_true, Bool.or_eq_true, beq_iff_eq]

theorem Grouped.groupable (h : Grouped text n) :
    Groupable text ∧ value (text.filter Char.isDigit) = n := by
  induction h with
  | first hc =>
    rw [filter_isDigit_singleton hc]
    exact ⟨groupable_cons_iff.mpr ⟨hc, by simp⟩, by simp [value, Nat.ofDigitChars_cons]⟩
  | digit _ hc ih =>
    rw [List.filter_append, filter_isDigit_singleton hc, value_append_singleton, ih.2]
    exact ⟨ih.1.append_singleton (.inl hc), rfl⟩
  | underscore _ ih =>
    rw [List.filter_append, filter_isDigit_underscore, List.append_nil, ih.2]
    exact ⟨ih.1.append_singleton (.inr rfl), rfl⟩

theorem Groupable.grouped (h : Groupable text) :
    Grouped text (value (text.filter Char.isDigit)) := by
  cases text with
  | nil => exact absurd rfl h.nonempty
  | cons first rest =>
    obtain ⟨hfirst, hrest⟩ := groupable_cons_iff.mp h
    clear h
    -- `Grouped` grows at the end, so the last character is taken off and not the first.
    induction rest using List.reverseRecOn with
    | nil =>
      rw [filter_isDigit_singleton hfirst]
      simpa [value, Nat.ofDigitChars_cons] using Grouped.first hfirst
    | append_singleton rest c ih =>
      have hgrouped := ih fun d hd => hrest d (List.mem_append_left _ hd)
      rw [← List.cons_append, List.filter_append]
      rcases hrest c (by simp) with hdigit | rfl
      · rw [filter_isDigit_singleton hdigit, value_append_singleton]
        exact hgrouped.digit hdigit
      · rw [filter_isDigit_underscore, List.append_nil]
        exact hgrouped.underscore

theorem grouped_iff : Grouped text n ↔ Groupable text ∧ value (text.filter Char.isDigit) = n := by
  refine ⟨Grouped.groupable, ?_⟩
  rintro ⟨hgroupable, rfl⟩
  exact hgroupable.grouped

theorem readGrouped?_eq_some_iff : readGrouped? text = some n ↔ Grouped text n :=
  readGrouped?_eq_some_iff_value.trans grouped_iff.symm

/-- The second text is the first with zeros put in front of it and underscores put after its first
character. -/
inductive Pads (text : List Char) : (padded : List Char) → Prop
  | none : Pads text text
  | zero {padded : List Char} : Pads text padded → Pads text ('0' :: padded)
  | underscore {front back : List Char} :
    Pads text (front ++ back) → front ≠ [] → Pads text (front ++ '_' :: back)

theorem Grouped.zero_cons (h : Grouped text n) : Grouped ('0' :: text) n := by
  obtain ⟨hgroupable, hvalue⟩ := h.groupable
  rw [grouped_iff, List.filter_cons_of_pos (by decide), value_zero_cons]
  exact ⟨groupable_cons_iff.mpr ⟨by decide, hgroupable.chars⟩, hvalue⟩

theorem Grouped.insert_underscore (h : Grouped (front ++ back) n) (hfront : front ≠ []) :
    Grouped (front ++ '_' :: back) n := by
  obtain ⟨⟨_, hchars, hhead⟩, hvalue⟩ := h.groupable
  have hfilter : (front ++ '_' :: back).filter Char.isDigit =
      (front ++ back).filter Char.isDigit := by
    rw [List.filter_append, List.filter_append, List.filter_cons_of_neg (by decide)]
  rw [grouped_iff, hfilter]
  refine ⟨⟨List.append_ne_nil_of_left_ne_nil hfront _, fun c hc => ?_, ?_⟩, hvalue⟩
  · rcases List.mem_append.mp hc with hc | hc
    · exact hchars c (List.mem_append_left _ hc)
    · rcases List.mem_cons.mp hc with hc | hc
      · exact .inr hc
      · exact hchars c (List.mem_append_right _ hc)
  · rwa [List.head?_append_of_ne_nil _ hfront, ← List.head?_append_of_ne_nil _ hfront]

/-- Padding does not change the number. -/
theorem Grouped.of_pads (h : Grouped text n) (hpads : Pads text padded) : Grouped padded n := by
  induction hpads with
  | none => exact h
  | zero _ ih => exact ih.zero_cons
  | underscore _ hfront ih => exact ih.insert_underscore hfront

end Digits

namespace Amount

variable {text : List Char} {amount : Nat}

/-- Grouped digits after at most one plus sign. -/
inductive Spelling : (text : List Char) → (amount : Nat) → Prop
  | plain {text : List Char} {amount : Nat} : Digits.Grouped text amount → Spelling text amount
  | plus {text : List Char} {amount : Nat} :
    Digits.Grouped text amount → Spelling ('+' :: text) amount

/-- Grouped digits after at most one plus sign, with blank characters around them. -/
def Written (amount : Nat) (text : String) : Prop :=
  Text.Wrapped (fun core => Spelling core amount) text.toList

theorem not_grouped_plus {rest : List Char} : ¬Digits.Grouped ('+' :: rest) amount := fun h =>
  absurd (Digits.groupable_cons_iff.mp h.groupable.1).1 (by decide)

theorem readAmount?_eq_some_iff : Digits.readAmount? text = some amount ↔ Spelling text amount := by
  unfold Digits.readAmount?
  rw [Digits.readGrouped?_eq_some_iff]
  constructor
  · intro h
    split at h
    · exact .plus h
    · exact .plain h
  · intro h
    cases h with
    | plus hgrouped => exact hgrouped
    | plain hgrouped =>
      -- A plus sign that is dropped was none of the grouped digits.
      split
      · exact absurd hgrouped not_grouped_plus
      · exact hgrouped

theorem Spelling.tight (h : Spelling text amount) : Text.Tight text := by
  have hbody : ∀ {body}, Digits.Grouped body amount → ∀ c ∈ body, Text.isBlank c = false := by
    intro body hgrouped c hc
    rcases hgrouped.groupable.1.chars c hc with hdigit | rfl
    · exact Text.not_isBlank_of_isDigit hdigit
    · decide
  cases h with
  | plain hgrouped => exact Text.Tight.of_not_blank (hbody hgrouped)
  | plus hgrouped =>
    exact Text.Tight.of_not_blank (List.forall_mem_cons.mpr ⟨by decide, hbody hgrouped⟩)

theorem written_iff {text : String} :
    Written amount text ↔ Spelling (Text.trim text.toList) amount :=
  Text.wrapped_iff fun _ h => h.tight

/-- An amount is read exactly from the texts that spell it. -/
theorem parse_eq_ok_iff {text : String} : parse text = .ok amount ↔ Written amount text := by
  rw [written_iff, ← readAmount?_eq_some_iff]
  unfold parse
  cases Digits.readAmount? (Text.trim text.toList) <;> simp

theorem spelling_iff : Spelling text amount ↔
    ∃ body, (text = body ∨ text = '+' :: body) ∧ Digits.Groupable body ∧
      Digits.value (body.filter Char.isDigit) = amount := by
  simp only [← Digits.grouped_iff]
  constructor
  · rintro (hgrouped | hgrouped)
    · exact ⟨_, .inl rfl, hgrouped⟩
    · exact ⟨_, .inr rfl, hgrouped⟩
  · rintro ⟨body, rfl | rfl, hgrouped⟩
    · exact .plain hgrouped
    · exact .plus hgrouped

theorem exists_spelling_iff : (∃ amount, Spelling text amount) ↔
    ∃ body, (text = body ∨ text = '+' :: body) ∧ Digits.Groupable body := by
  constructor
  · rintro ⟨amount, h⟩
    obtain ⟨body, hbody, hgroupable, _⟩ := spelling_iff.mp h
    exact ⟨body, hbody, hgroupable⟩
  · rintro ⟨body, hbody, hgroupable⟩
    exact ⟨_, spelling_iff.mpr ⟨body, hbody, hgroupable, rfl⟩⟩

/-- How a text is read as an amount. -/
structure ReadsDecimal (text : String) : Prop where
  accepted : (∃ amount, parse text = .ok amount) ↔
    ∃ body, (Text.trim text.toList = body ∨ Text.trim text.toList = '+' :: body) ∧
      Digits.Groupable body
  value : ∀ amount, parse text = .ok amount ↔
    ∃ body, (Text.trim text.toList = body ∨ Text.trim text.toList = '+' :: body) ∧
      Digits.Groupable body ∧ Digits.value (body.filter Char.isDigit) = amount
  spelled : ∀ amount, parse text = .ok amount ↔ Written amount text
  /-- A refusal quotes the text as it came. -/
  refused : ∀ error, parse text = .error error → error = .badAmount text

theorem readsDecimal (text : String) : ReadsDecimal text := by
  constructor
  case accepted =>
    simp only [parse_eq_ok_iff, written_iff]
    exact exists_spelling_iff
  case value =>
    intro amount
    rw [parse_eq_ok_iff, written_iff, spelling_iff]
  case spelled => exact fun _ => parse_eq_ok_iff
  case refused => exact fun _ => eq_badAmount_of_parse

/-- How an amount is made a word and back: what counts is the amount and not its text. -/
structure FitsWord (amount : Nat) : Prop where
  accepted : (∃ word, toWord amount = .ok word) ↔ amount < 2 ^ 256
  refused : ∀ error, toWord amount = .error error ↔ 2 ^ 256 ≤ amount ∧ error = .valueTooLarge
  back : ∀ word, toWord amount = .ok word → ofWord word = amount
  /-- The bytes and the zeros in front of them fill the word, with none to spare. -/
  filled : ∀ word, toWord amount = .ok word →
    (List.replicate (32 - (Bytes.minimal amount).length) 0 ++ Bytes.minimal amount).length = 32

theorem fitsWord (amount : Nat) : FitsWord amount := by
  constructor
  case accepted => exact exists_toWord_iff
  case refused => exact fun _ => toWord_eq_error_iff
  case back => exact fun _ => ofWord_of_toWord
  case filled =>
    intro word hword
    have hlength := length_minimal_le_iff.mpr (toWord_eq_ok_iff.mp hword).1
    rw [List.length_append, List.length_replicate, Nat.sub_add_cancel hlength]

theorem ofWord_lt (word : BitVec 256) : ofWord word < 2 ^ 256 := by
  rw [ofWord_eq]
  exact word.isLt

theorem parse_of_grouped (h : Digits.Grouped text amount) :
    parse (String.ofList text) = .ok amount := by
  have htight := (Spelling.plain h).tight
  rw [parse_eq_ok_iff, written_iff, String.toList_ofList,
    Text.trim_eq_self htight.first htight.last]
  exact .plain h

/-- Zeros in front and underscores change neither what is read nor whether it fits a word. -/
theorem parseWord_of_pads {padded : List Char} (h : Digits.Groupable text)
    (hpads : Digits.Pads text padded) :
    parseWord (String.ofList padded) = parseWord (String.ofList text) := by
  unfold parseWord
  rw [parse_of_grouped h.grouped, parse_of_grouped (h.grouped.of_pads hpads)]

end Amount

/-- A route is converted where it would be with zeros for its amounts and both of them fit. -/
structure WireRoute.TakesAmounts (wire : WireRoute) : Prop where
  accepted : (∃ route, wire.toRoute = .ok route) ↔
    (∃ route, ({ wire with amountIn := "0", amountOut := "0" } : WireRoute).toRoute = .ok route) ∧
      (∃ amount, Amount.parse wire.amountIn = .ok amount ∧ amount < 2 ^ 256) ∧
      ∃ amount, Amount.parse wire.amountOut = .ok amount ∧ amount < 2 ^ 256
  amountIn : ∀ route, wire.toRoute = .ok route →
    Amount.parse wire.amountIn = .ok route.amountIn ∧ route.amountIn < 2 ^ 256
  amountOut : ∀ route, wire.toRoute = .ok route →
    Amount.parse wire.amountOut = .ok route.amountOut ∧ route.amountOut < 2 ^ 256

theorem WireRoute.takesAmounts (wire : WireRoute) : wire.TakesAmounts := by
  have hzero : Amount.Spells "0" 0 := ⟨Amount.parse_text 0, by decide⟩
  constructor
  case accepted =>
    simp only [toRoute_eq_ok_iff]
    constructor
    · rintro ⟨route, hroute⟩
      exact ⟨⟨{ route with amountIn := 0, amountOut := 0 }, hroute.pools, hroute.status,
        hroute.legs, hroute.tokenIn, hroute.tokenOut, hzero, hzero⟩, ⟨_, hroute.amountIn⟩,
        ⟨_, hroute.amountOut⟩⟩
    · rintro ⟨⟨route, hroute⟩, ⟨amountIn, hin⟩, ⟨amountOut, hout⟩⟩
      exact ⟨{ route with amountIn, amountOut }, hroute.pools, hroute.status, hroute.legs,
        hroute.tokenIn, hroute.tokenOut, hin, hout⟩
  case amountIn => exact fun route hroute => (toRoute_eq_ok_iff.mp hroute).amountIn
  case amountOut => exact fun route hroute => (toRoute_eq_ok_iff.mp hroute).amountOut

namespace Amount

/-- Amounts are read exactly from the texts of their grammar and from the text they are written
with, fit a word exactly below 2^256, and are taken from a route exactly where they fit. -/
theorem decimal_grammar :
    (∀ text : String, ReadsDecimal text) ∧
      (∀ amount, parse (Amount.text amount) = .ok amount) ∧
      (∀ amount, FitsWord amount) ∧
      (∀ word, ofWord word < 2 ^ 256 ∧ toWord (ofWord word) = .ok word) ∧
      (∀ wire : WireRoute, wire.TakesAmounts) ∧
      ∀ text padded, Digits.Groupable text → Digits.Pads text padded →
        parseWord (String.ofList padded) = parseWord (String.ofList text) :=
  ⟨readsDecimal, parse_text, fitsWord, fun word => ⟨ofWord_lt word, toWord_ofWord word⟩,
    WireRoute.takesAmounts, fun _ _ => parseWord_of_pads⟩

/-- The greatest word with separators, zeros in front and blank characters around; and one more. -/
example :
    let greatest := "115792089237316195423570985008687907853269984665640564039457584007913129639935"
    parseWord ("\u2003+000_" ++ greatest ++ "__\n") = .ok (2 ^ 256 - 1) ∧
      toWord (2 ^ 256) = .error .valueTooLarge ∧
      parse ("+_" ++ greatest) = .error (.badAmount ("+_" ++ greatest)) := by
  decide +kernel

end Amount

end SwapCalldata
