import SwapCalldata.Json.Lexeme

/-!
Reading JSON. A machine takes the lexemes in order and keeps the open containers on a stack, so any
depth of nesting is read; a text is accepted when it ends after one whole value.
-/
namespace SwapCalldata.Json

/-- An open container, with what it holds so far, newest first. -/
inductive Frame where
  | array (items : List Json)
  | object (members : List (Option String × Json)) (key : Option String)

/-- What the machine expects next. -/
inductive Phase where
  /-- a value -/
  | value
  /-- the first item of an array, or its end -/
  | firstItem
  /-- the first key of an object, or its end -/
  | firstKey
  /-- a further key of an object that holds these members -/
  | nextKey (members : List (Option String × Json))
  /-- the colon after a key -/
  | separator (members : List (Option String × Json)) (key : Option String)
  /-- what follows a whole value: a comma, the end of its container, or the end of the text -/
  | after (value : Json)

structure Machine where
  phase : Phase
  stack : List Frame

namespace Machine

def start : Machine := ⟨.value, []⟩

/-- Takes the first lexeme of a value. -/
def begin? (stack : List Frame) : Lexeme → Option Machine
  | .scalar value => some ⟨.after value, stack⟩
  | .string content => some ⟨.after (.string content), stack⟩
  | .openArray => some ⟨.firstItem, stack⟩
  | .openObject => some ⟨.firstKey, stack⟩
  | _ => none

/-- Takes one lexeme. -/
def step? (machine : Machine) (lexeme : Lexeme) : Option Machine :=
  match machine.phase, lexeme, machine.stack with
  | .value, lexeme, stack => begin? stack lexeme
  | .firstItem, .closeArray, stack => some ⟨.after (.array []), stack⟩
  | .firstItem, lexeme, stack => begin? (.array [] :: stack) lexeme
  | .firstKey, .closeObject, stack => some ⟨.after (.object []), stack⟩
  | .firstKey, .string key, stack => some ⟨.separator [] key, stack⟩
  | .nextKey members, .string key, stack => some ⟨.separator members key, stack⟩
  | .separator members key, .colon, stack => some ⟨.value, .object members key :: stack⟩
  | .after value, .comma, .array items :: stack =>
    some ⟨.value, .array (value :: items) :: stack⟩
  | .after value, .closeArray, .array items :: stack =>
    some ⟨.after (.array (value :: items).reverse), stack⟩
  | .after value, .comma, .object members key :: stack =>
    some ⟨.nextKey ((key, value) :: members), stack⟩
  | .after value, .closeObject, .object members key :: stack =>
    some ⟨.after (.object ((key, value) :: members).reverse), stack⟩
  | _, _, _ => none

/-- The value of a finished machine. -/
def result? (machine : Machine) : Option Json :=
  match machine.phase, machine.stack with
  | .after value, [] => some value
  | _, _ => none

/-- Takes the lexemes of a text up to its end. -/
def run? (machine : Machine) : List Char → Option Json
  | [] => machine.result?
  | c :: rest =>
    if isSpace c then run? machine rest
    else match h : lexeme? c rest with
      | none => none
      | some (lexeme, rest') =>
        have : rest'.length ≤ rest.length := lexeme?_length_le h
        match machine.step? lexeme with
        | none => none
        | some machine' => run? machine' rest'
  termination_by text => text.length
  decreasing_by
    · simp
    · simp only [List.length_cons]
      omega

end Machine

/-- The value that a text writes, with spaces around its lexemes. -/
def parse? (text : String) : Option Json := Machine.start.run? text.toList

end SwapCalldata.Json
