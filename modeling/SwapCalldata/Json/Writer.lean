import SwapCalldata.Json.Value

/-!
Writing JSON, compact or over indented lines. Strings escape the quote, the backslash and control
characters. A number that is no integer is positional when its first digit stands for a power of ten
from -5 to 15, with at least one place, and else has one digit before the point and a signed
exponent.
-/
namespace SwapCalldata.Json

/-- A character of a string, escaped where it must be. -/
def escape (c : Char) : List Char :=
  match c with
  | '"' => ['\\', '"']
  | '\\' => ['\\', '\\']
  | '\x08' => ['\\', 'b']
  | '\x0c' => ['\\', 'f']
  | '\n' => ['\\', 'n']
  | '\r' => ['\\', 'r']
  | '\t' => ['\\', 't']
  | c =>
    if c.toNat < 0x20 then
      ['\\', 'u', '0', '0', Nat.digitChar (c.toNat / 16), Nat.digitChar (c.toNat % 16)]
    else [c]

def quote (content : List Char) : List Char := '"' :: content.flatMap escape ++ ['"']

/-- A number that is no integer, without its sign. -/
def realText (value : Decimal) : List Char :=
  let leading := value.leading
  if -5 ≤ leading ∧ leading ≤ 15 then
    if 0 ≤ value.exponent then value.positional ++ ['.', '0'] else value.positional
  else
    let digits := value.digits
    let places := if digits.length = 1 then [] else '.' :: digits.drop 1
    digits.take 1 ++ places ++ 'e' :: (if leading < 0 then '-' else '+')
      :: Nat.toDigits 10 leading.natAbs

def numeralText : Numeral → List Char
  | .integer negative magnitude => (if negative then ['-'] else []) ++ Nat.toDigits 10 magnitude
  | .real negative value => (if negative then ['-'] else []) ++ realText value

def scalarText : Json → List Char
  | .null => "null".toList
  | .bool true => "true".toList
  | .bool false => "false".toList
  | .number numeral => numeralText numeral
  | .string content => quote (content.getD "").toList
  | .array _ => []
  | .object _ => []

mutual

/-- The compact text of a value. -/
def compact : Json → List Char
  | .array items => '[' :: compactItems items ++ [']']
  | .object members => '\x7b' :: compactMembers members ++ ['\x7d']
  | value => scalarText value

def compactItems : List Json → List Char
  | [] => []
  | [item] => compact item
  | item :: rest => compact item ++ ',' :: compactItems rest

def compactMembers : List (Option String × Json) → List Char
  | [] => []
  | [(key, value)] => quote (key.getD "").toList ++ ':' :: compact value
  | (key, value) :: rest =>
    quote (key.getD "").toList ++ ':' :: compact value ++ ',' :: compactMembers rest

end

/-- A line break and two spaces for each open container. -/
def newline (depth : Nat) : List Char := '\n' :: List.replicate (2 * depth) ' '

mutual

/-- The text of a value inside `depth` open containers, over indented lines. -/
def pretty (depth : Nat) : Json → List Char
  | .array [] => "[]".toList
  | .array (item :: rest) =>
    '[' :: prettyItems (depth + 1) (item :: rest) ++ newline depth ++ [']']
  | .object [] => ['\x7b', '\x7d']
  | .object (member :: rest) =>
    '\x7b' :: prettyMembers (depth + 1) (member :: rest) ++ newline depth ++ ['\x7d']
  | value => scalarText value

def prettyItems (depth : Nat) : List Json → List Char
  | [] => []
  | [item] => newline depth ++ pretty depth item
  | item :: rest => newline depth ++ pretty depth item ++ ',' :: prettyItems depth rest

def prettyMembers (depth : Nat) : List (Option String × Json) → List Char
  | [] => []
  | [(key, value)] =>
    newline depth ++ quote (key.getD "").toList ++ ':' :: ' ' :: pretty depth value
  | (key, value) :: rest =>
    newline depth ++ quote (key.getD "").toList ++ ':' :: ' ' :: pretty depth value
      ++ ',' :: prettyMembers depth rest

end

def compactText (value : Json) : String := String.ofList value.compact

def prettyText (value : Json) : String := String.ofList (value.pretty 0)

end SwapCalldata.Json
