/-!
# Command-line arguments

Flags and at most one snapshot, in any order. The first argument that does not fit decides the
message.
-/

namespace Patchbay

/-- What the command line asks for. -/
structure Args where
  /-- The file of the graph to load. -/
  snapshot : Option String := none
  /-- Whether to serve an editor instead of running the graph. -/
  editor : Bool := false
  help : Bool := false
deriving DecidableEq, Repr

namespace Args

/-- How the command is used. -/
def usage : String := "usage: padflow [--editor] [SNAPSHOT.json]"

/-- Takes one more argument; flags start with a dash. -/
def take (parsed : Args) (arg : String) : Except String Args :=
  if arg = "--editor" then .ok { parsed with editor := true }
  else if arg = "--help" ∨ arg = "-h" then .ok { parsed with help := true }
  else if arg.startsWith "-" then .error ("unknown flag '" ++ arg ++ "'\n" ++ usage)
  else if parsed.snapshot.isSome then .error ("only one snapshot may be given\n" ++ usage)
  else .ok { parsed with snapshot := some arg }

/-- Reads the arguments behind the name of the command, from `parsed` on. -/
def parseFrom (parsed : Args) : List String → Except String Args
  | [] => .ok parsed
  | arg :: rest =>
    match parsed.take arg with
    | .error e => .error e
    | .ok parsed => parseFrom parsed rest

/-- Reads the arguments behind the name of the command. -/
def parse (args : List String) : Except String Args := parseFrom {} args

end Args

end Patchbay
