import SwapCalldata.Text.Utf8

/-!
The environment of the program: the variables it looks at and what they are set to. A value is given
as bytes, and need not be text.
-/
namespace SwapCalldata

/-- The environment variables of the program. -/
inductive Variable where
  | file
  | recipient
  | revision
  | entryPoint
  | slippage
  | chain
deriving DecidableEq

namespace Variable

def all : List Variable := [file, recipient, revision, entryPoint, slippage, chain]

def name : Variable → String
  | file => "ROUTE_FILE"
  | recipient => "ROUTE_RECIPIENT"
  | revision => "ROUTE_REVISION"
  | entryPoint => "ROUTE_ENTRY_POINT"
  | slippage => "ROUTE_SLIPPAGE_BPS"
  | chain => "ROUTE_CHAIN"

end Variable

/-- The value of a variable: a text, or bytes that are no text. -/
inductive Setting where
  | text (value : String)
  | bytes (value : List UInt8)
deriving DecidableEq

namespace Setting

def ofBytes (bytes : List UInt8) : Setting :=
  match Utf8.text? bytes with
  | some value => .text value
  | none => .bytes bytes

/-- The value if it is a text. -/
def text? : Setting → Option String
  | text value => some value
  | bytes _ => none

/-- The value for people: what is broken in it is replaced. -/
def shown : Setting → String
  | text value => value
  | bytes value => Utf8.shown value

end Setting

/-- The variables that are set, with their values. -/
structure Environment where
  setting? : Variable → Option Setting

namespace Environment

/-- No variable is set. -/
def empty : Environment := ⟨fun _ => none⟩

def set (env : Environment) (which : Variable) (value : Setting) : Environment :=
  ⟨fun other => if other = which then some value else env.setting? other⟩

/-- The value of a variable that is set to a text. -/
def text? (env : Environment) (which : Variable) : Option String :=
  (env.setting? which).bind Setting.text?

end Environment

end SwapCalldata
