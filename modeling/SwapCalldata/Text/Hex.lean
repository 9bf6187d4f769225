/-!
Hexadecimal text of bytes: two lowercase digits a byte are written, digits of either case are read.
The main statement is that the digits written for bytes read back as these bytes.
-/
namespace SwapCalldata.Hex

/-- The value of a hexadecimal digit of either case. -/
def digit? (c : Char) : Option Nat :=
  if '0' ≤ c ∧ c ≤ '9' then some (c.toNat - '0'.toNat)
  else if 'a' ≤ c ∧ c ≤ 'f' then some (c.toNat - 'a'.toNat + 10)
  else if 'A' ≤ c ∧ c ≤ 'F' then some (c.toNat - 'A'.toNat + 10)
  else none

def isDigit (c : Char) : Bool := (digit? c).isSome

/-- The two lowercase digits of each byte, the high half first. -/
def encode : List UInt8 → List Char
  | [] => []
  | byte :: rest =>
    Nat.digitChar (byte.toNat / 16) :: Nat.digitChar (byte.toNat % 16) :: encode rest

/-- The bytes that pairs of digits spell. A digit left over or any other character is refused. -/
def decode? : List Char → Option (List UInt8)
  | [] => some []
  | [_] => none
  | high :: low :: rest => do
    let h ← digit? high
    let l ← digit? low
    let bytes ← decode? rest
    return UInt8.ofNat (16 * h + l) :: bytes

theorem digit?_digitChar {n : Nat} (h : n < 16) : digit? (Nat.digitChar n) = some n := by
  have all : ∀ k : Fin 16, digit? (Nat.digitChar k) = some k.val := by decide
  exact all ⟨n, h⟩

@[simp] theorem decode?_encode (bytes : List UInt8) : decode? (encode bytes) = some bytes := by
  induction bytes with
  | nil => rfl
  | cons byte rest ih =>
    have hbyte := byte.toNat_lt
    have hsplit : 16 * (byte.toNat / 16) + byte.toNat % 16 = byte.toNat := by omega
    simp only [encode, decode?, digit?_digitChar (show byte.toNat / 16 < 16 by omega),
      digit?_digitChar (show byte.toNat % 16 < 16 by omega), ih, Option.bind_eq_bind,
      Option.bind_some, hsplit, UInt8.ofNat_toNat, Option.pure_def]

@[simp] theorem length_encode (bytes : List UInt8) : (encode bytes).length = 2 * bytes.length := by
  induction bytes with
  | nil => rfl
  | cons byte rest ih => simp [encode, ih]; omega

/-- The external form of bytes: the marker `0x` and the digits. -/
def marked (bytes : List UInt8) : String :=
  String.ofList ('0' :: 'x' :: encode bytes)

end SwapCalldata.Hex
