import Patchbay.Pad.Basic
import Patchbay.Constraint.Text
import Patchbay.Json.Nesting

/-!
# Errors

Every way in which an operation is refused or fails. The cases name the cause;
`Error.message` words it.
-/

namespace Patchbay

/-- Why two pads cannot be linked or unlinked. -/
inductive ConnectionFault where
  | bothSources (a b : PadRef)
  | bothSinks (a b : PadRef)
  /-- A sink is named by two sources. -/
  | twoFeeders (sink existing source : PadRef)
  | notConnected (source sink : PadRef)
  | notASource (pad : PadRef)
deriving DecidableEq

/-- Why there is no subgraph to work with. -/
inductive SubgraphFault where
  /-- The repository does not know the definition. -/
  | unknown (id : String)
  | noRepository (id : String)
  /-- A snapshot has a subgraph node without a graph. -/
  | noInnerGraph (node : String)
  | notASubgraph (node : String)
  /-- A subgraph node cannot be created from the library alone. -/
  | needsDefinition
deriving DecidableEq

/-- The node type of subgraph instances. -/
def subgraphType : String := "SubGraph"

/-- A refused or failed operation. -/
inductive Error where
  /-- Two connected pads have no shape in common. -/
  | typeConstraintViolation (source sink : PadRef) (detail : String)
  /-- The pads of a node could not be resolved. -/
  | nodeResolution (node message : String)
  | unknownNodeType (name : String)
  | nodeNotFound (id : String)
  | padNotFound (pad : PadRef)
  | invalidNodeId (id : String)
  | duplicateNodeId (id : String)
  | invalidConnection (fault : ConnectionFault)
  | invalidPadValue (pad : PadRef) (message : String)
  | notAPropertyPad (pad : PadRef)
  | subgraphNotFound (fault : SubgraphFault)
  /-- A running node failed. -/
  | runtime (node message : String)
  | secret (message : String)
  | transport (message : String)
  | cancelled
  /-- A text could not be read back. -/
  | serialization (fault : Json.ReadFault)
  | compression (message : String)
  | io
  | config (message : String)
deriving DecidableEq

/-- The wording of a connection fault. -/
def ConnectionFault.message : ConnectionFault → String
  | .bothSources a b => a.text ++ " and " ++ b.text ++ " are both sources"
  | .bothSinks a b => a.text ++ " and " ++ b.text ++ " are both sinks"
  | .twoFeeders sink existing source =>
    sink.text ++ " has two upstream pads: " ++ existing.text ++ " and " ++ source.text
  | .notConnected source sink => source.text ++ " is not connected to " ++ sink.text
  | .notASource pad => pad.text ++ " is not a source pad"

/-- The wording of a subgraph fault. -/
def SubgraphFault.message : SubgraphFault → String
  | .unknown id => id
  | .noRepository id => id ++ " (no subgraph repository configured)"
  | .noInnerGraph node => "node '" ++ node ++ "' has no inner graph"
  | .notASubgraph node => "node '" ++ node ++ "' is not a subgraph"
  | .needsDefinition => "'" ++ subgraphType ++ "' nodes need a subgraph definition"

namespace Error

/-- The wording of an error. -/
def message : Error → String
  | .typeConstraintViolation source sink detail =>
    "Type constraint violation between " ++ source.text ++ " and " ++ sink.text ++ ": " ++ detail
  | .nodeResolution node message =>
    "Failed to resolve pads of node '" ++ node ++ "': " ++ message
  | .unknownNodeType name => "Unknown node type: " ++ name
  | .nodeNotFound id => "Node not found: " ++ id
  | .padNotFound pad => "Pad not found: " ++ pad.text
  | .invalidNodeId id =>
    "Invalid node id '" ++ id ++ "': ids must be non-empty and may not contain ':' or '/'"
  | .duplicateNodeId id => "Duplicate node id: " ++ id
  | .invalidConnection fault => "Invalid connection: " ++ fault.message
  | .invalidPadValue pad message => "Invalid value for " ++ pad.text ++ ": " ++ message
  | .notAPropertyPad pad => "Pad " ++ pad.text ++ " is not a property pad"
  | .subgraphNotFound fault => "Subgraph not found: " ++ fault.message
  | .runtime node message => "Node '" ++ node ++ "' failed: " ++ message
  | .secret message => "Secret error: " ++ message
  | .transport message => "Transport error: " ++ message
  | .cancelled => "Cancelled"
  | .serialization fault => "Serialization error: " ++ fault.message
  | .compression message => "Compression error: " ++ message
  | .io => "I/O error"
  | .config message => "Configuration error: " ++ message

/-- Whether an error refuses the structure or the type of what was asked for, as opposed to a
failure outside the graph. -/
def isRejection : Error → Bool
  | .typeConstraintViolation .. | .nodeResolution .. | .invalidConnection _
  | .invalidPadValue .. => true
  | _ => false

/-- Two sides that share no shape. -/
def nothingInCommon (source sink : PadRef) (a b : Constraints) : Error :=
  .typeConstraintViolation source sink
    (a.describe ++ " has nothing in common with " ++ b.describe)

/-- A value that is not of the type of a pad. -/
def notOfType (pad : PadRef) (v : Json) (cs : Constraints) : Error :=
  .invalidPadValue pad (v.compact ++ " is not " ++ cs.describe)

/-- An error met while the pads of a node are resolved: a violation and a failure to resolve
stand for themselves, anything else becomes a failure to resolve the node. -/
def whileResolving (node : String) : Error → Error
  | e@(.nodeResolution ..) | e@(.typeConstraintViolation ..) => e
  | e => .nodeResolution node e.message

end Error

end Patchbay
