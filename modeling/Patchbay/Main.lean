import Patchbay.Host.Cli
import Patchbay.Run.Control

/-!
# The command line

Reads the arguments, the files they name and the environment, and serves an editor on standard
input and output or runs the graph until it is interrupted.
-/

namespace Patchbay.Main

/-- The environment variable that names the configuration file. -/
def configVariable : String := "PADFLOW_CONFIG"

/-- The text of a file. -/
def readFile (path : String) : IO (Except FileFault String) := do
  try
    let text ← IO.FS.readFile path
    return .ok text
  catch
    | .noFileOrDirectory .. => return .error .missing
    | _ => return .error .unreadable

/-- The environment variables of the command. -/
def environment : IO (List (String × String)) := do
  let text := (← readFile "/proc/self/environ").toOption.getD ""
  return (text.splitOn "\x00").filterMap fun entry =>
    (splitFirst '=' entry.toList).map fun (name, value) =>
      (String.ofList name, String.ofList value)

/-- Answers the lines of an editor until its input ends. -/
partial def serve (g : Graph) (input output : IO.FS.Stream) : IO UInt32 := do
  let line ← input.getLine
  if line.isEmpty then return 0
  let (g, responses, _) := Session.serveBytes g line.toUTF8.toList
  for response in responses do
    output.putStrLn response.toJson.compact
    output.flush
  serve g input output

/-- Keeps a run going in step with the clock. -/
partial def keepRunning (r : Run) (start : Nat) : IO UInt32 := do
  IO.sleep 5
  let now ← IO.monoMsNow
  keepRunning (r.advance (now - start - r.now)) start

/-- Runs a graph. -/
def execute (g : Graph) (config : HostConfig) : IO UInt32 := do
  let secrets := Secrets.ofEnvironment config.secretStem (← environment)
  let services := Services.withSecrets {} secrets
  let transport : LocalTransport := { identity := config.transportIdentity }
  let start ← IO.monoMsNow
  match Run.startServed g.state.flatten config.engine services "run" true transport with
  | .error _ => return 1
  | .ok r => keepRunning r.settle start

/-- Carries out what a start leads to. -/
def follow : Start → IO UInt32
  | .exit status output errors => do
    for line in output do IO.println line
    for line in errors do IO.eprintln line
    return status.toUInt32
  | .serve g => do
    try serve g (← IO.getStdin) (← IO.getStdout)
    catch _ => return 1
  | .run g config => execute g config

end Patchbay.Main

/-- Starts the command. -/
def main (args : List String) : IO UInt32 := do
  let config ← IO.getEnv Patchbay.Main.configVariable
  let paths := config.toList ++ args
  let files ← paths.mapM fun path => return (path, ← Patchbay.Main.readFile path)
  Patchbay.Main.follow (Patchbay.Start.ofArguments args config fun path =>
    (files.lookup path).getD (.error .missing))
