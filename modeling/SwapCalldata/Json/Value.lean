import SwapCalldata.Decimal

/-!
JSON values. Members keep their order and repetitions. A string whose escapes do not spell Unicode
text is kept as `none`, so that it can be passed over but not read.
-/
namespace SwapCalldata

/-- A number of a JSON text: an integer whose magnitude has at most 64 bits, or any other number as
a decimal, of which a reader keeps the leading digits that fit 64 bits. -/
inductive Numeral where
  | integer (negative : Bool) (magnitude : Nat)
  | real (negative : Bool) (value : Decimal)
deriving DecidableEq

inductive Json where
  | null
  | bool (value : Bool)
  | number (numeral : Numeral)
  | string (content : Option String)
  | array (items : List Json)
  | object (members : List (Option String × Json))

namespace Json

def ofString (s : String) : Json := .string (some s)

def ofNat (n : Nat) : Json := .number (.integer false n)

/-- An object whose keys are given. -/
def ofMembers (members : List (String × Json)) : Json :=
  .object (members.map fun entry => (some entry.1, entry.2))

end Json

end SwapCalldata
