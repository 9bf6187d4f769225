import SwapCalldata.Arguments
import SwapCalldata.Json.Writer
import SwapCalldata.Wire.Conversion
import SwapCalldata.Wire.Reading

/-!
The program as a function: the configuration of an environment, the recipient and the text of a
route give the compiled route. Configuration, recipient, text, route and compilation are checked in
this order.
-/
namespace SwapCalldata.Program

/-- What a run is told before it sees the route: the deployment, and who receives the output. -/
structure Task where
  config : Config
  recipient : Address
deriving DecidableEq

/-- What a run produces. -/
structure Outcome where
  config : Config
  compiled : CompiledRoute
deriving DecidableEq

/-- The task of an environment and the text of a recipient. -/
def task (env : Environment) (recipient : String) : Except Failure Task := do
  let config ← (Config.ofEnvironment env).mapError Failure.config
  let recipient ← (Address.parse recipient).mapError Failure.input
  return ⟨config, recipient⟩

/-- Compiles the route that a text describes. -/
def Task.compile (task : Task) (routeText : String) : Except Failure Outcome := do
  let wire ← match WireRoute.parse? routeText with
    | some wire => .ok wire
    | none => .error Failure.json
  let route ← wire.toRoute
  let compiler ← Compiler.ofConfig task.config
  let compiled ← compiler.compile route task.config.revision task.recipient
  return ⟨task.config, compiled⟩

def run (env : Environment) (recipient routeText : String) : Except Failure Outcome := do
  let task ← task env recipient
  task.compile routeText

/-- The compiled route as indented JSON. -/
def Outcome.text (outcome : Outcome) : String :=
  (WireCompiledRoute.ofCompiled outcome.compiled).toJson.prettyText

end SwapCalldata.Program
