import Patchbay.Snapshot.Basic

/-!
# Edits

The changes that can be asked of a graph. Each is applied as a whole or not at all.
-/

namespace Patchbay

/-- Two pads to link; their order does not say which one is the source. -/
structure PadConnection where
  first : PadRef
  second : PadRef
deriving DecidableEq, Repr

/-- A change to a graph. -/
inductive GraphEdit where
  | insertNode (id : Option String) (nodeType : String) (position : Option (Double × Double))
      (name : Option String)
  /-- Puts in a subgraph from the library's repository. -/
  | insertSubgraph (id : Option String) (subgraphId : String)
      (position : Option (Double × Double)) (name : Option String)
  /-- Replaces nodes by a new subgraph node. An inbound connection leads from an outer pad to an
  inner sink, an outbound one from an inner source to an outer pad. -/
  | insertInlineSubgraph (id subgraphId : Option String) (graph : GraphSnapshot)
      (inbound outbound : List PadConnection) (removed : List String)
      (position : Option (Double × Double)) (name : Option String)
  /-- Changes what an editor shows of a node, and its id. -/
  | updateNode (id : String) (editor : EditorInfo) (newId : Option String)
  | removeNode (id : String)
  | connectPad (connection : PadConnection)
  | disconnectPad (connection : PadConnection)
  | updatePad (pad : PadRef) (value : Json)
  /-- Moves the inner nodes of a subgraph node into the graph around it. -/
  | removeSubgraph (id : String)

/-- The name of the kind of an edit. -/
def GraphEdit.kind : GraphEdit → String
  | .insertNode .. => "insert_node"
  | .insertSubgraph .. => "insert_subgraph"
  | .insertInlineSubgraph .. => "insert_inline_subgraph"
  | .updateNode .. => "update_node"
  | .removeNode _ => "remove_node"
  | .connectPad _ => "connect_pad"
  | .disconnectPad _ => "disconnect_pad"
  | .updatePad .. => "update_pad"
  | .removeSubgraph _ => "remove_subgraph"

end Patchbay
