import SwapCalldata.Address
import SwapCalldata.Bytes
import SwapCalldata.Text.Digits

/-!
Texts that come from outside: addresses, amounts, chain names and names from a fixed list, with the
refusals of each. An amount has any size; a 256-bit word holds the amounts below 2^256.
-/
namespace SwapCalldata

/-- A fixed list of names that a text is looked up in. -/
inductive NameList where
  | revision
  | poolFamily
  | pool
deriving DecidableEq

def NameList.label : NameList → String
  | revision => "revision"
  | poolFamily => "pool family"
  | pool => "pool"

/-- Why a value from outside is refused. Texts are quoted as they came. -/
inductive InputError where
  | badAddress (input : String) (fault : AddressFault)
  | valueTooLarge
  | badAmount (input : String)
  | unsupportedChain (chain : String)
  | missingField (field : String)
  | unknownName (list : NameList) (input : String)
deriving DecidableEq

def InputError.message : InputError → String
  | badAddress input fault =>
    "Failed to parse address from string '" ++ input ++ "': " ++ fault.message
  | valueTooLarge => "BigUint value too large to fit in U256"
  | badAmount input => "Failed to parse amount '" ++ input ++ "'"
  | unsupportedChain chain => "Unsupported chain: " ++ chain
  | missingField field => "Missing field '" ++ field ++ "'"
  | unknownName list input => "Unknown " ++ list.label ++ ": " ++ input

/-- Reads an address; a refusal quotes the text as it came. -/
def Address.parse (text : String) : Except InputError Address :=
  (Address.ofText text).mapError (.badAddress text)

namespace Amount

/-- Reads an amount of any size, blank characters around it ignored. -/
def parse (text : String) : Except InputError Nat :=
  match Digits.readAmount? (Text.trim text.toList) with
  | some amount => .ok amount
  | none => .error (.badAmount text)

/-- An amount as a 256-bit word: its bytes, which must be no more than the word has, with zeros in
front. -/
def toWord (amount : Nat) : Except InputError (BitVec 256) :=
  let bytes := Bytes.minimal amount
  if 32 < bytes.length then .error .valueTooLarge
  else .ok (BitVec.ofNat 256 (Bytes.toNat (List.replicate (32 - bytes.length) 0 ++ bytes)))

/-- The amount that the bytes of a word spell. -/
def ofWord (word : BitVec 256) : Nat := Bytes.toNat (Bytes.bigEndian 32 word.toNat)

/-- Reads an amount that fits a 256-bit word. -/
def parseWord (text : String) : Except InputError Nat := do
  let amount ← parse text
  let _ ← toWord amount
  return amount

/-- The decimal text of an amount. -/
def text (amount : Nat) : String := String.ofList (Digits.ofNat amount)

end Amount

namespace Chain

/-- The supported chains by name. -/
def ids : List (String × UInt64) :=
  [("ethereum", 1), ("base", 8453), ("unichain", 130), ("arbitrum", 42161), ("polygon", 137)]

/-- The id of a supported chain; the name must match exactly. -/
def idOf (name : String) : Except InputError UInt64 :=
  match ids.lookup name with
  | some id => .ok id
  | none => .error (.unsupportedChain name)

end Chain

end SwapCalldata
