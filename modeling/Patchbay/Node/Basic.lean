import Patchbay.Error
import Patchbay.Node.Routine

/-!
# Nodes

A node type declares the pads of its nodes as a function of what a node sees: its own pads and
the constraints across their connections (`NodeView`). It also gives editors metadata and
notes, and says what a node does while the graph runs (`Routine`).
-/

namespace Patchbay

/-- What a library shows of a node type. -/
structure Metadata where
  primary : String
  secondary : Option String := none
  tags : List String := []
deriving DecidableEq, Repr, Inhabited

/-- Where a node is in its life: in a graph being edited it is resolved or not, in a running one
it is running or stopped. -/
inductive NodeState where
  | unresolved
  | resolved
  | running
  | stopped
deriving DecidableEq, Repr

/-! ### Notes -/

/-- How serious a note is. -/
inductive NoteLevel where
  | info
  | warning
  | error
deriving DecidableEq, Repr

/-- An advisory remark next to a node. -/
structure Note where
  level : NoteLevel
  message : String
  pad : Option String := none
deriving DecidableEq, Repr

/-! ### Views -/

/-- What a pad sees across its connections. -/
structure PeerView where
  connected : Bool := false
  /-- The declared constraints of the connected pads together. -/
  constraints : Constraints := none
deriving Inhabited

/-- What a node sees of itself and of its neighbours. -/
structure NodeView where
  node : String
  /-- The pads as the previous resolution left them. -/
  pads : List PadState
  /-- What each pad sees, by pad id. -/
  peers : List (String × PeerView)

namespace NodeView

/-- The first pad with an id. -/
def pad? (view : NodeView) (id : String) : Option PadState := findPad id view.pads

/-- The value of a property pad; `null` counts as unset. -/
def property (view : NodeView) (id : String) : Option Json :=
  match (view.pad? id).bind (·.value) with
  | some .null | none => none
  | some v => some v

/-- What a pad sees; an unconnected pad sees nothing. -/
def peer (view : NodeView) (id : String) : PeerView :=
  (lookupKey id view.peers).getD {}

/-- Whether a pad is connected. -/
def isConnected (view : NodeView) (id : String) : Bool := (view.peer id).connected

/-- The constraints across the connections of a pad. -/
def peerConstraints (view : NodeView) (id : String) : Constraints := (view.peer id).constraints

end NodeView

/-! ### Node types -/

/-- A type of node. The pads of a node are a function of its view. -/
structure NodeType where
  metadata : Metadata
  description : String
  resolve : NodeView → Except Error (List PadSpec)
  notes : NodeView → List Note := fun _ => []
  routine : Routine := .hold

instance : Inhabited NodeType :=
  ⟨{ metadata := ⟨"", none, []⟩, description := "", resolve := fun _ => .ok [] }⟩

end Patchbay
