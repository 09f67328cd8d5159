import Patchbay.Host.Args
import Patchbay.Host.Config
import Patchbay.Host.Files
import Patchbay.Session.Basic

/-!
# The command

A start goes through the arguments, the configuration and the graph, and the first of them that
fails ends it. Files are read through a function of their paths, so that the whole start is a
function of what it reads. A configuration that is named and missing counts as one that is not
named; a graph that is named has to be there.
-/

namespace Patchbay

/-- What a start of the command leads to. -/
inductive Start where
  /-- The command ends with a status, having written lines to its two outputs. -/
  | exit (status : UInt8) (output errors : List String)
  /-- The command serves an editor. -/
  | serve (graph : Graph)
  /-- The command runs the graph. -/
  | run (graph : Graph) (config : HostConfig)

namespace Start

/-- An end after a failure that only the log tells about. -/
def failed : Start := .exit 1 [] []

/-- The text of a file that may be missing. -/
def textIfAny (contents : Except FileFault String) : Except FileFault (Option String) :=
  match contents with
  | .ok text => .ok (some text)
  | .error .missing => .ok none
  | .error e => .error e

/-- The configuration in a file, if one is named. -/
def loadConfig (files : String → Except FileFault String) (configFile : Option String) :
    Option HostConfig := do
  let contents ←
    match configFile with
    | none => some none
    | some path => (textIfAny (files path)).toOption
  (HostConfig.load contents).toOption

/-- The graph that a file describes, if one is named. -/
def loadGraph (files : String → Except FileFault String) (config : HostConfig)
    (snapshot : Option String) : Option Graph :=
  let graph := Graph.new Library.builtins config.engine
  match snapshot with
  | none => some graph
  | some path => do
    let text ← (files path).toOption
    let snapshot ← GraphSnapshot.read? text
    (graph.attempt (.load snapshot)).toOption

/-- Starts the command. `files` reads a file by its path, and `configFile` names the one with the
configuration. -/
def ofArguments (args : List String) (configFile : Option String)
    (files : String → Except FileFault String) : Start :=
  match Args.parse args with
  | .error message => .exit 2 [] (message.splitOn "\n")
  | .ok args =>
    if args.help then .exit 0 [Args.usage] []
    else
      match loadConfig files configFile with
      | none => failed
      | some config =>
        match loadGraph files config args.snapshot with
        | none => failed
        | some graph => if args.editor then .serve graph else .run graph config

end Start

end Patchbay
