/-!
Decimal text of naturals: plain words of 64 bits, and amounts, which may group their digits with
underscores. Both may carry one plus sign.
-/
namespace SwapCalldata.Digits

/-- The digits of a natural, without leading zeros. -/
def ofNat (n : Nat) : List Char := Nat.toDigits 10 n

/-- The value of a run of decimal digits. -/
def value (digits : List Char) : Nat := Nat.ofDigitChars 10 digits 0

@[simp] theorem value_ofNat (n : Nat) : value (ofNat n) = n :=
  Nat.ofDigitChars_ten_toDigits

/-- Appends digits to a natural for as long as it stays a word of 64 bits, and returns it with the
digits left over. -/
def extendWord (n : Nat) : List Char → Nat × List Char
  | [] => (n, [])
  | digit :: rest =>
    let longer := 10 * n + (digit.toNat - '0'.toNat)
    if longer < UInt64.size then extendWord longer rest else (n, digit :: rest)

/-- A non-empty run of digits, as a natural. -/
def read? (text : List Char) : Option Nat :=
  if text.isEmpty || !text.all Char.isDigit then none else some (value text)

/-- A 64-bit word: digits after at most one plus sign, with a value below 2^64. -/
def readWord? (text : List Char) : Option UInt64 := do
  let n ← read? (match text with
    | '+' :: rest => rest
    | _ => text)
  if n < UInt64.size then some (UInt64.ofNat n) else none

/-- Digits grouped by underscores, the first character being a digit. -/
def readGrouped? : List Char → Option Nat
  | [] => none
  | first :: rest =>
    if first.isDigit && rest.all (fun c => c.isDigit || c == '_') then
      some (value ((first :: rest).filter Char.isDigit))
    else none

/-- An amount: grouped digits after at most one plus sign. -/
def readAmount? (text : List Char) : Option Nat :=
  readGrouped? (match text with
    | '+' :: rest => rest
    | _ => text)

end SwapCalldata.Digits
