import Patchbay.Edit.Basic
import Patchbay.Snapshot.Wire

/-!
# Edits as JSON

An edit is an object whose field `type` names its kind. Absent optional fields are written as
`null`, and may be missing when read.
-/

namespace Patchbay

namespace PadConnection

/-- The fields of a connection. -/
def fields (c : PadConnection) : List (String × Json) := [
  ("node", .str c.first.node), ("pad", .str c.first.pad),
  ("connected_node", .str c.second.node), ("connected_pad", .str c.second.pad)]

/-- A connection as JSON. -/
def toJson (c : PadConnection) : Json := .object c.fields

/-- Reads a connection. -/
def ofJson? (v : Json) : Option PadConnection := do
  let v ← v.record? ["node", "pad", "connected_node", "connected_pad"]
  let node ← v.field "node" Json.str?
  let pad ← v.field "pad" Json.str?
  let connectedNode ← v.field "connected_node" Json.str?
  let connectedPad ← v.field "connected_pad" Json.str?
  some ⟨⟨node, pad⟩, ⟨connectedNode, connectedPad⟩⟩

end PadConnection

namespace GraphEdit

/-- The parameters of an edit. -/
def parameters : GraphEdit → List (String × Json)
  | .insertNode id nodeType position name => [
    ("id", Json.ofOption .str id), ("node_type", .str nodeType),
    ("editor_position", Json.ofOption .ofPair position), ("editor_name", Json.ofOption .str name)]
  | .insertSubgraph id subgraphId position name => [
    ("id", Json.ofOption .str id), ("subgraph_id", .str subgraphId),
    ("editor_position", Json.ofOption .ofPair position), ("editor_name", Json.ofOption .str name)]
  | .insertInlineSubgraph id subgraphId graph inbound outbound removed position name => [
    ("id", Json.ofOption .str id), ("subgraph_id", Json.ofOption .str subgraphId),
    ("graph", graph.toJson),
    ("inbound_connections", .arr (inbound.map PadConnection.toJson)),
    ("outbound_connections", .arr (outbound.map PadConnection.toJson)),
    ("remove_node_ids", .ofStrings removed),
    ("editor_position", Json.ofOption .ofPair position), ("editor_name", Json.ofOption .str name)]
  | .updateNode id editor newId => [
    ("id", .str id), ("editor_position", Json.ofOption .ofPair editor.position),
    ("editor_dimensions", Json.ofOption .ofPair editor.dimensions),
    ("editor_name", Json.ofOption .str editor.name), ("new_id", Json.ofOption .str newId)]
  | .removeNode id => [("node_id", .str id)]
  | .connectPad connection => connection.fields
  | .disconnectPad connection => connection.fields
  | .updatePad pad value => [("node", .str pad.node), ("pad", .str pad.pad), ("value", value)]
  | .removeSubgraph id => [("node_id", .str id)]

/-- An edit as JSON. -/
def toJson (e : GraphEdit) : Json := .object (("type", .str e.kind) :: e.parameters)

/-- The names of all kinds. -/
def kinds : List String :=
  ["insert_node", "insert_subgraph", "insert_inline_subgraph", "update_node", "remove_node",
    "connect_pad", "disconnect_pad", "update_pad", "remove_subgraph"]

/-- Reads the parameters of an edit of a kind. -/
def ofKind? (v : Json) : String → Option GraphEdit
  | "insert_node" => do
    let v ← v.record? ["id", "node_type", "editor_position", "editor_name"]
    let id ← v.optionalField "id" Json.str?
    let nodeType ← v.field "node_type" Json.str?
    let position ← v.optionalField "editor_position" Json.pair?
    let name ← v.optionalField "editor_name" Json.str?
    some (.insertNode id nodeType position name)
  | "insert_subgraph" => do
    let v ← v.record? ["id", "subgraph_id", "editor_position", "editor_name"]
    let id ← v.optionalField "id" Json.str?
    let subgraphId ← v.field "subgraph_id" Json.str?
    let position ← v.optionalField "editor_position" Json.pair?
    let name ← v.optionalField "editor_name" Json.str?
    some (.insertSubgraph id subgraphId position name)
  | "insert_inline_subgraph" => do
    let v ← v.record? ["id", "subgraph_id", "graph", "inbound_connections",
      "outbound_connections", "remove_node_ids", "editor_position", "editor_name"]
    let id ← v.optionalField "id" Json.str?
    let subgraphId ← v.optionalField "subgraph_id" Json.str?
    let graph ← v.field "graph" (GraphSnapshot.ofJson? .enclosed)
    let inbound ← v.fieldWithDefault "inbound_connections" (Json.listOf PadConnection.ofJson?) []
    let outbound ←
      v.fieldWithDefault "outbound_connections" (Json.listOf PadConnection.ofJson?) []
    let removed ← v.fieldWithDefault "remove_node_ids" Json.strings? []
    let position ← v.optionalField "editor_position" Json.pair?
    let name ← v.optionalField "editor_name" Json.str?
    some (.insertInlineSubgraph id subgraphId graph inbound outbound removed position name)
  | "update_node" => do
    let v ← v.record? ["id", "editor_position", "editor_dimensions", "editor_name", "new_id"]
    let id ← v.field "id" Json.str?
    let editor ← EditorInfo.ofFields? v
    let newId ← v.optionalField "new_id" Json.str?
    some (.updateNode id editor newId)
  | "remove_node" => do
    let id ← (← v.record? ["node_id"]).field "node_id" Json.str?
    some (.removeNode id)
  | "connect_pad" => (PadConnection.ofJson? v).map .connectPad
  | "disconnect_pad" => (PadConnection.ofJson? v).map .disconnectPad
  | "update_pad" => do
    let v ← v.record? ["node", "pad", "value"]
    let node ← v.field "node" Json.str?
    let pad ← v.field "pad" Json.str?
    let value ← v.field "value" Json.any?
    some (.updatePad ⟨node, pad⟩ value)
  | "remove_subgraph" => do
    let id ← (← v.record? ["node_id"]).field "node_id" Json.str?
    some (.removeSubgraph id)
  | _ => none

/-- Reads an edit. -/
def ofJson? (place : Json.Place) (v : Json) : Option GraphEdit :=
  (v.variant? (Json.kind? place kinds)).bind fun (kind, w) => ofKind? w kind

end GraphEdit

end Patchbay
