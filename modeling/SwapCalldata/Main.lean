import SwapCalldata.Program

/-!
The command line: takes the arguments and the environment, reads the route file and prints the
compiled route. Faulty arguments end with code 2 and other refusals with code 1.
-/
namespace SwapCalldata.CommandLine

def usage : String :=
  "Compile a route JSON file into the instructions of a route processor\n\n"
    ++ "Options:\n"
    ++ "  --route <FILE>           route JSON file [env: ROUTE_FILE]\n"
    ++ "  --recipient <ADDRESS>    receiver of the final output [env: ROUTE_RECIPIENT]\n"
    ++ "  --revision <REVISION>    v1 or v2 [env: ROUTE_REVISION] [default: v2]\n"
    ++ "  --entry-point <ADDRESS>  route processor [env: ROUTE_ENTRY_POINT]\n"
    ++ "  --slippage-bps <BPS>     slippage [env: ROUTE_SLIPPAGE_BPS] [default: 50]\n"
    ++ "  --chain <CHAIN>          chain name [env: ROUTE_CHAIN] [default: ethereum]\n"
    ++ "  -h, --help               print this text\n"
    ++ "  -V, --version            print the version"

/-- The variables that the process was started with. -/
def environment : IO Environment :=
  Variable.all.foldlM (fun env which => do
    match ← IO.getEnv which.name with
    | some value => return env.set which (.text value)
    | none => return env) Environment.empty

def refuse (message : String) : IO UInt32 := do
  IO.eprintln ("Error: " ++ message)
  return 1

/-- Reads the route file and prints the compiled route. The file is opened only for a task that the
environment and the recipient give. -/
def compileFile (arguments : Arguments) (env : Environment) : IO UInt32 := do
  match Program.task (arguments.exportTo env) arguments.recipient with
  | .error failure => refuse failure.message
  | .ok task =>
    let found ← match arguments.file with
      | .text name => (some <$> IO.FS.readFile name).catchExceptions fun _ => pure none
      | .bytes _ => pure none
    match found with
    | none => refuse ("failed to read route file " ++ arguments.file.shown)
    | some text =>
      match task.compile text with
      | .error failure => refuse failure.message
      | .ok outcome =>
        IO.println outcome.text
        return 0

def run (arguments : List String) : IO UInt32 := do
  let env ← environment
  match Arguments.parse arguments env with
  | .ok arguments => compileFile arguments env
  | .error .help =>
    IO.println usage
    return 0
  | .error .version =>
    IO.println "swap-calldata 0.1.0"
    return 0
  | .error stop =>
    IO.eprintln ("error: " ++ stop.message ++ "\n\n" ++ usage)
    return 2

end SwapCalldata.CommandLine

def main (arguments : List String) : IO UInt32 := SwapCalldata.CommandLine.run arguments
