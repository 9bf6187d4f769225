import SwapCalldata.Keccak
import SwapCalldata.Text.Blank
import SwapCalldata.Text.Hex

/-!
Chain addresses and their text. An address is written with the marker `0x` and forty lowercase
digits, or with mixed-case digits that carry a checksum. It is read with any number of markers, in
either case of its digits; a text that is refused names the first thing wrong with it.
-/
namespace SwapCalldata

/-- The twenty bytes of an account or contract on a chain. -/
structure Address where
  bytes : List UInt8
  length_bytes : bytes.length = 20
deriving DecidableEq

/-- Why a text is no address. -/
inductive AddressFault where
  | oddLength
  | wrongLength
  | badDigit (byte : UInt8) (position : Nat)
deriving DecidableEq

namespace AddressFault

/-- A byte between single quotes: as a Latin-1 character where that is printable, else escaped. -/
def quoted (byte : UInt8) : String :=
  let c := Char.ofNat byte.toNat
  let body :=
    if c == '\t' then "\\t"
    else if c == '\r' then "\\r"
    else if c == '\n' then "\\n"
    else if c == '\x00' then "\\0"
    else if c == '\'' then "\\'"
    else if c == '\\' then "\\\\"
    else if byte < 0x20 || (0x7F ≤ byte && byte ≤ 0xA0) || byte == 0xAD then
      "\\u\x7b" ++ String.ofList (Nat.toDigits 16 byte.toNat) ++ "\x7d"
    else String.singleton c
  "'" ++ body ++ "'"

def message : AddressFault → String
  | oddLength => "odd number of digits"
  | wrongLength => "invalid string length"
  | badDigit byte position =>
    "invalid character " ++ quoted byte ++ " at position " ++ toString position

end AddressFault

namespace Address

theorem ext_bytes {a b : Address} (h : a.bytes = b.bytes) : a = b := by
  cases a
  cases b
  simp_all

def ofBytes? (bytes : List UInt8) : Option Address :=
  if h : bytes.length = 20 then some ⟨bytes, h⟩ else none

/-- The address that exactly forty digits of either case spell. -/
def ofDigits? (digits : List Char) : Option Address :=
  (Hex.decode? digits).bind ofBytes?

/-- The canonical text: `0x` and forty lowercase digits. -/
def text (address : Address) : String := Hex.marked address.bytes

/-- The checksummed text: a letter is upper case where the hash of the lowercase digits has a half
byte of at least 8 at its place. -/
def checksummed (address : Address) : String :=
  let digits := Hex.encode address.bytes
  let hash := Keccak.hash256 (digits.map fun c => UInt8.ofNat c.toNat)
  let marks := hash.flatMap fun byte => [byte.toNat / 16, byte.toNat % 16]
  String.ofList
    ('0' :: 'x' :: List.zipWith (fun c mark => if 8 ≤ mark then c.toUpper else c) digits marks)

/-- The text without the lowercase markers it starts with. -/
def dropMarkers : List Char → List Char
  | '0' :: 'x' :: rest => dropMarkers rest
  | text => text

/-- The text without the one marker of either case it may start with. -/
def dropMarker : List Char → List Char
  | '0' :: 'x' :: rest => rest
  | '0' :: 'X' :: rest => rest
  | text => text

/-- The number of bytes of a text in UTF-8. -/
def utf8Length (text : List Char) : Nat := (text.flatMap String.utf8EncodeChar).length

/-- What is wrong with digits that spell no address: their length in bytes, or else the first
character that is no digit, named by its first byte. -/
def digitsFault (digits : List Char) : AddressFault :=
  if utf8Length digits ≠ 40 then .wrongLength
  else match digits.zipIdx.find? fun entry => !Hex.isDigit entry.1 with
    | some (c, position) => .badDigit ((String.utf8EncodeChar c).headD 0) position
    | none => .wrongLength

/-- Reads digits after at most one marker. An odd length is refused before the marker is looked
for. -/
def ofMarked (text : List Char) : Except AddressFault Address :=
  if utf8Length text % 2 = 1 then .error .oddLength
  else match ofDigits? (dropMarker text) with
    | some address => .ok address
    | none => .error (digitsFault (dropMarker text))

/-- Reads the text of an address, blank characters and markers around it ignored. -/
def ofText (text : String) : Except AddressFault Address :=
  ofMarked (dropMarkers (Text.trim text.toList))

end Address

end SwapCalldata
