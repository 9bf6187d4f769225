import SwapCalldata.Json.Value
import SwapCalldata.Text.Digits
import SwapCalldata.Text.Hex

/-!
Lexemes of JSON text: brackets, separators, words, strings and numbers. Each is read from the front
of a text; `lexeme?_length_le` says that the text shrinks.
-/
namespace SwapCalldata.Json

inductive Lexeme where
  | openArray
  | closeArray
  | openObject
  | closeObject
  | colon
  | comma
  | scalar (value : Json)
  | string (content : Option String)

/-- The four characters that may stand between lexemes. -/
def isSpace (c : Char) : Bool := c == ' ' || c == '\t' || c == '\n' || c == '\r'

/-- A piece of a string between quotes: a character, or the 16-bit unit of a numeric escape. -/
inductive Piece where
  | char (c : Char)
  | unit (value : Nat)
deriving DecidableEq

/-- The character that a one-letter escape stands for. -/
def shortEscape? : Char → Option Char
  | '"' => some '"'
  | '\\' => some '\\'
  | '/' => some '/'
  | 'b' => some '\x08'
  | 'f' => some '\x0c'
  | 'n' => some '\n'
  | 'r' => some '\r'
  | 't' => some '\t'
  | _ => none

/-- The unit that four hexadecimal digits spell. -/
def unit? (a b c d : Char) : Option Nat := do
  let a ← Hex.digit? a
  let b ← Hex.digit? b
  let c ← Hex.digit? c
  let d ← Hex.digit? d
  return 4096 * a + 256 * b + 16 * c + d

/-- The pieces up to the closing quote, and the text after it. -/
def pieces? : List Char → Option (List Piece × List Char)
  | [] => none
  | '"' :: rest => some ([], rest)
  | '\\' :: 'u' :: a :: b :: c :: d :: rest => do
    let unit ← unit? a b c d
    let (pieces, rest) ← pieces? rest
    return (.unit unit :: pieces, rest)
  | '\\' :: letter :: rest => do
    let c ← shortEscape? letter
    let (pieces, rest) ← pieces? rest
    return (.char c :: pieces, rest)
  | c :: rest => do
    if c.toNat < 0x20 then none
    else
      let (pieces, rest) ← pieces? rest
      return (.char c :: pieces, rest)

def isHighSurrogate (unit : Nat) : Bool := 0xD800 ≤ unit && unit < 0xDC00

def isLowSurrogate (unit : Nat) : Bool := 0xDC00 ≤ unit && unit < 0xE000

/-- The characters that pieces spell. A high surrogate needs a low one after it, as an escape too,
and a low one stands nowhere else. -/
def spell? : List Piece → Option (List Char)
  | [] => some []
  | .char c :: rest => (spell? rest).map (c :: ·)
  | .unit high :: .unit low :: rest =>
    if isHighSurrogate high then
      if isLowSurrogate low then
        (spell? rest).map (Char.ofNat (0x10000 + 1024 * (high - 0xD800) + (low - 0xDC00)) :: ·)
      else none
    else if isLowSurrogate high then none
    else (spell? (.unit low :: rest)).map (Char.ofNat high :: ·)
  | .unit unit :: rest =>
    if isHighSurrogate unit || isLowSurrogate unit then none
    else (spell? rest).map (Char.ofNat unit :: ·)

/-- The digits after a point, if there is one. -/
def fraction? : List Char → Option (List Char × List Char)
  | '.' :: rest =>
    let digits := rest.takeWhile Char.isDigit
    if digits.isEmpty then none else some (digits, rest.dropWhile Char.isDigit)
  | text => some ([], text)

/-- The digits of an exponent, which must not be missing, with a sign put before their value. -/
def exponentDigits? (negative : Bool) (text : List Char) : Option (Int × List Char) :=
  let digits := text.takeWhile Char.isDigit
  if digits.isEmpty then none
  else
    let size : Int := Digits.value digits
    some (if negative then -size else size, text.dropWhile Char.isDigit)

/-- The value of an exponent, if there is one. -/
def exponent? : List Char → Option (Option Int × List Char)
  | c :: rest =>
    if c == 'e' || c == 'E' then
      (match rest with
        | '+' :: rest => exponentDigits? false rest
        | '-' :: rest => exponentDigits? true rest
        | rest => exponentDigits? false rest).map fun (value, rest) => (some value, rest)
    else some (none, c :: rest)
  | [] => some (none, [])

/-- The number that digits before and after the point spell with an exponent. Digits are kept while
they fit 64 bits, first those before the point and then those after it. One that is left over before
the point raises the exponent, and one that is left over after it is dropped. -/
def numeralOfDigits (negative : Bool) (whole fraction : List Char) (exponent : Option Int) : Numeral :=
  let (kept, above) := Digits.extendWord 0 whole
  let (coefficient, below) := Digits.extendWord kept fraction
  if fraction.isEmpty && exponent.isNone && above.isEmpty then .integer negative coefficient
  else
    let places : Int := fraction.length - below.length
    .real negative ⟨coefficient, exponent.getD 0 + above.length - places⟩

/-- A number after its sign. The whole part has no needless zero in front. -/
def numeral? (negative : Bool) (text : List Char) : Option (Numeral × List Char) := do
  let whole := text.takeWhile Char.isDigit
  if whole.isEmpty || (whole.head? == some '0' && 1 < whole.length) then none
  else
    let (fraction, rest) ← fraction? (text.dropWhile Char.isDigit)
    let (exponent, rest) ← exponent? rest
    return (numeralOfDigits negative whole fraction exponent, rest)

/-- The lexeme that starts with a character, and the text after it. -/
def lexeme? : Char → List Char → Option (Lexeme × List Char)
  | '[', rest => some (.openArray, rest)
  | ']', rest => some (.closeArray, rest)
  | '\x7b', rest => some (.openObject, rest)
  | '\x7d', rest => some (.closeObject, rest)
  | ':', rest => some (.colon, rest)
  | ',', rest => some (.comma, rest)
  | '"', rest => (pieces? rest).map fun (pieces, rest) =>
    (.string ((spell? pieces).map String.ofList), rest)
  | 'n', 'u' :: 'l' :: 'l' :: rest => some (.scalar .null, rest)
  | 't', 'r' :: 'u' :: 'e' :: rest => some (.scalar (.bool true), rest)
  | 'f', 'a' :: 'l' :: 's' :: 'e' :: rest => some (.scalar (.bool false), rest)
  | '-', rest => (numeral? true rest).map fun (numeral, rest) => (.scalar (.number numeral), rest)
  | c, rest =>
    (numeral? false (c :: rest)).map fun (numeral, rest) => (.scalar (.number numeral), rest)

/-- Where something is read, at most so many characters are left. -/
def Leaves {α : Type} (result : Option (α × List Char)) (most : Nat) : Prop :=
  ∀ value rest, result = some (value, rest) → rest.length ≤ most

namespace Leaves

variable {α β γ : Type} {result : Option (α × List Char)} {most most' : Nat}

theorem none : Leaves (none : Option (α × List Char)) most := fun _ _ h => nomatch h

theorem some {value : α} {rest : List Char} (h : rest.length ≤ most) :
    Leaves (some (value, rest)) most := by
  rintro _ _ ⟨⟩
  exact h

theorem mono (h : Leaves result most) (hle : most ≤ most') : Leaves result most' :=
  fun value rest hread => Nat.le_trans (h value rest hread) hle

theorem map (f : α → β) (h : Leaves result most) :
    Leaves (result.map fun (value, rest) => (f value, rest)) most := by
  intro _ rest hread
  obtain ⟨⟨value, _⟩, hfound, ⟨⟩⟩ := Option.map_eq_some_iff.mp hread
  exact h value rest hfound

/-- A piece, and then what follows it. -/
theorem bind {next : α × List Char → Option (β × List Char)} (h : Leaves result most)
    (hnext : ∀ value rest, rest.length ≤ most → Leaves (next (value, rest)) most') :
    Leaves (result >>= next) most' := by
  intro other others hread
  obtain ⟨⟨value, rest⟩, hfound, hothers⟩ := Option.bind_eq_some_iff.mp hread
  exact hnext value rest (h value rest hfound) other others hothers

/-- A look-up on the way takes no characters. -/
theorem lookup {found : Option γ} {next : γ → Option (α × List Char)}
    (h : ∀ value, Leaves (next value) most) : Leaves (found >>= next) most := by
  intro other others hread
  obtain ⟨value, _, hothers⟩ := Option.bind_eq_some_iff.mp hread
  exact h value other others hothers

end Leaves

theorem length_dropWhile_isDigit_le (text : List Char) :
    (text.dropWhile Char.isDigit).length ≤ text.length :=
  (List.dropWhile_sublist _).length_le

theorem leaves_pieces? (text : List Char) : Leaves (pieces? text) text.length := by
  fun_induction pieces? text with
  | case1 => exact .none
  | case2 rest => exact .some (Nat.le_succ _)
  | case3 a b c d rest ih =>
    refine .lookup fun unit => .bind ih fun pieces rest' hle => .some (Nat.le_trans hle ?_)
    exact Nat.le_add_right _ 6
  | case4 letter rest _ ih =>
    refine .lookup fun c => .bind ih fun pieces rest' hle => .some (Nat.le_trans hle ?_)
    exact Nat.le_add_right _ 2
  | case5 => exact .none
  | case6 c rest _ _ _ _ ih =>
    exact .bind ih fun pieces rest' hle => .some (Nat.le_trans hle (Nat.le_succ _))

theorem leaves_fraction? (text : List Char) : Leaves (fraction? text) text.length := by
  unfold fraction?
  split
  next rest =>
    dsimp only
    split
    · exact .none
    · exact .some (Nat.le_trans (length_dropWhile_isDigit_le rest) (Nat.le_succ _))
  next => exact .some (Nat.le_refl _)

theorem leaves_exponentDigits? (negative : Bool) (text : List Char) :
    Leaves (exponentDigits? negative text) text.length := by
  unfold exponentDigits?
  dsimp only
  split
  · exact .none
  · exact .some (length_dropWhile_isDigit_le text)

theorem leaves_exponent? (text : List Char) : Leaves (exponent? text) text.length := by
  unfold exponent?
  split
  next c rest =>
    split
    next =>
      refine .map Option.some ?_
      split
      next digits => exact (leaves_exponentDigits? false digits).mono (Nat.le_add_right _ 2)
      next digits => exact (leaves_exponentDigits? true digits).mono (Nat.le_add_right _ 2)
      next => exact (leaves_exponentDigits? false rest).mono (Nat.le_succ _)
    next => exact .some (Nat.le_refl _)
  next => exact .some (Nat.le_refl _)

/-- A number has at least one digit. -/
theorem leaves_numeral? (negative : Bool) (text : List Char) :
    Leaves (numeral? negative text) (text.length - 1) := by
  unfold numeral?
  dsimp only
  split
  next => exact .none
  next hwhole =>
    have hsplit : (text.takeWhile Char.isDigit).length + (text.dropWhile Char.isDigit).length =
        text.length := by
      rw [← List.length_append, List.takeWhile_append_dropWhile]
    have hpos : 0 < (text.takeWhile Char.isDigit).length := by
      apply List.length_pos_iff.mpr
      intro hnil
      simp [hnil] at hwhole
    refine .bind (leaves_fraction? _) fun digits rest hrest => ?_
    refine .bind (leaves_exponent? rest) fun value rest' hrest' => .some ?_
    dsimp only
    omega

theorem leaves_lexeme? (c : Char) (text : List Char) : Leaves (lexeme? c text) text.length := by
  unfold lexeme?
  split
  · exact .some (Nat.le_refl _)
  · exact .some (Nat.le_refl _)
  · exact .some (Nat.le_refl _)
  · exact .some (Nat.le_refl _)
  · exact .some (Nat.le_refl _)
  · exact .some (Nat.le_refl _)
  · exact .map (fun pieces => Lexeme.string ((spell? pieces).map String.ofList)) (leaves_pieces? _)
  · exact .some (Nat.le_add_right _ 3)
  · exact .some (Nat.le_add_right _ 3)
  · exact .some (Nat.le_add_right _ 4)
  · exact .map (Lexeme.scalar ∘ Json.number) ((leaves_numeral? true _).mono (Nat.sub_le _ _))
  · exact .map (Lexeme.scalar ∘ Json.number) (leaves_numeral? false _)

theorem lexeme?_length_le {c : Char} {text rest : List Char} {lexeme : Lexeme}
    (h : lexeme? c text = some (lexeme, rest)) : rest.length ≤ text.length :=
  leaves_lexeme? c text lexeme rest h

end SwapCalldata.Json
