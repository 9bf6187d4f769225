import SwapCalldata.Config

/-!
Command-line arguments. An option takes its value from the argument after it or after an equals
sign; one that is not given takes its variable's value, and then its default. Arguments are taken in
order, and an option's value is checked when the next option is met, so of several faults the first
met is reported.
-/
namespace SwapCalldata

/-- Why the arguments do not lead to a run. -/
inductive ArgumentStop where
  | missingRequired
  | unknownArgument
  | repeatedOption
  | missingValue
  | badValue
  | unexpectedValue
  | notText
  | help
  | version
deriving DecidableEq

def ArgumentStop.message : ArgumentStop → String
  | missingRequired => "a required option is missing"
  | unknownArgument => "an argument is not known"
  | repeatedOption => "an option is given twice"
  | missingValue => "an option has no value"
  | badValue => "the value of an option is not valid"
  | unexpectedValue => "an option that takes no value has one"
  | notText => "a value is not valid text"
  | help => "help"
  | version => "version"

/-- The arguments of a run. The file is the only one that need not be a text. -/
structure Arguments where
  file : Setting
  recipient : String
  revision : Revision
  entryPoint : String
  slippageBps : UInt64
  chain : String
deriving DecidableEq

/-- The name of a variable's option, without dashes. -/
def Variable.option : Variable → String
  | file => "route"
  | recipient => "recipient"
  | revision => "revision"
  | entryPoint => "entry-point"
  | slippage => "slippage-bps"
  | chain => "chain"

def Variable.ofOption? (name : String) : Option Variable :=
  Variable.all.find? fun which => which.option == name

namespace Arguments

/-- The values accepted so far, and an option whose value is not there yet or not yet checked. -/
structure Scan where
  accepted : List (Variable × Setting)
  pending : Option (Variable × Option String)

/-- Checks the value of an option. A file needs a name, which need not be a text; a slippage is
taken without blanks. -/
def check : Variable → Setting → Except ArgumentStop Unit
  | .file, .text value => if value.isEmpty then .error .missingValue else .ok ()
  | .file, .bytes _ => .ok ()
  | _, .bytes _ => .error .notText
  | .revision, .text value => ((Revision.parse value).mapError fun _ => .badValue).map fun _ => ()
  | .slippage, .text value =>
    if (Digits.readWord? value.toList).isSome then .ok () else .error .badValue
  | _, .text _ => .ok ()

namespace Scan

def start : Scan := ⟨[], none⟩

/-- Accepts the value of an option that was not given before. -/
def accept (scan : Scan) (which : Variable) (value : Setting) : Except ArgumentStop Scan :=
  if (scan.accepted.lookup which).isSome then .error .repeatedOption
  else (check which value).map fun _ => ⟨(which, value) :: scan.accepted, none⟩

/-- Checks and accepts the pending option. -/
def settle (scan : Scan) : Except ArgumentStop Scan :=
  match scan.pending with
  | none => .ok scan
  | some (_, none) => .error .missingValue
  | some (which, some value) => { scan with pending := none }.accept which (.text value)

/-- Takes an argument that starts with two dashes, given without them. -/
def long (scan : Scan) (argument : List Char) : Except ArgumentStop Scan :=
  let name := String.ofList (argument.takeWhile (· != '='))
  let value? := match argument.dropWhile (· != '=') with
    | _ :: value => some (String.ofList value)
    | [] => none
  match Variable.ofOption? name, value? with
  | some which, some value => do (← scan.settle).accept which (.text value)
  | some which, none => do return { ← scan.settle with pending := some (which, none) }
  | none, some _ =>
    if name == "help" || name == "version" then .error .unexpectedValue
    else .error .unknownArgument
  | none, none =>
    if name == "help" then do let _ ← scan.settle; throw .help
    else if name == "version" then do let _ ← scan.settle; throw .version
    else .error .unknownArgument

/-- Takes an argument that is no option: the value that the pending option waits for. -/
def plain (scan : Scan) (argument : String) : Except ArgumentStop Scan :=
  match scan.pending with
  | some (which, none) => .ok { scan with pending := some (which, some argument) }
  | _ => .error .unknownArgument

/-- Takes the arguments up to their end. Nothing may follow two dashes that stand alone. -/
def run (scan : Scan) : List String → Except ArgumentStop Scan
  | [] => scan.settle
  | argument :: rest =>
    match argument.toList with
    | ['-', '-'] => if rest.isEmpty then scan.settle else .error .unknownArgument
    | '-' :: '-' :: name => do run (← scan.long name) rest
    | '-' :: 'h' :: _ => do let _ ← scan.settle; throw .help
    | '-' :: 'V' :: _ => do let _ ← scan.settle; throw .version
    | '-' :: _ :: _ => .error .unknownArgument
    | _ => do run (← scan.plain argument) rest

/-- Takes a value from the environment for an option that is not given. -/
def fill (env : Environment) (scan : Scan) (which : Variable) : Except ArgumentStop Scan :=
  if (scan.accepted.lookup which).isSome then .ok scan
  else match env.setting? which with
    | some value => scan.accept which value
    | none => .ok scan

end Scan

/-- The value of an option that must be there. -/
def required {α : Type} : Option α → Except ArgumentStop α
  | some value => .ok value
  | none => .error .missingRequired

/-- Reads the arguments, with the environment for those not given. -/
def parse (arguments : List String) (env : Environment) : Except ArgumentStop Arguments := do
  let scan ← Scan.start.run arguments
  let scan ← Variable.all.foldlM (Scan.fill env) scan
  let text? (which : Variable) : Option String := (scan.accepted.lookup which).bind Setting.text?
  let file ← required (scan.accepted.lookup .file)
  let recipient ← required (text? .recipient)
  let entryPoint ← required (text? .entryPoint)
  let revision ← match text? .revision with
    | some value => (Revision.parse value).mapError fun _ => .badValue
    | none => .ok Revision.standard
  let slippageBps ← match text? .slippage with
    | some value => match Digits.readWord? value.toList with
      | some bps => .ok bps
      | none => .error .badValue
    | none => .ok Config.standardSlippage
  let chain := (text? .chain).getD Config.standardChain
  return ⟨file, recipient, revision, entryPoint, slippageBps, chain⟩

/-- The environment with the four settings of the configuration replaced by the arguments. -/
def exportTo (arguments : Arguments) (env : Environment) : Environment :=
  (((env.set .entryPoint (.text arguments.entryPoint)).set .revision
    (.text arguments.revision.name)).set .slippage
    (.text (Amount.text arguments.slippageBps.toNat))).set .chain (.text arguments.chain)

end Arguments

end SwapCalldata
