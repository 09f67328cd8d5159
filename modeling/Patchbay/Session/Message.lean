import Patchbay.Edit.Wire
import Patchbay.Graph.Notes
import Patchbay.Library

/-!
# Editor messages

What an editor asks for, one request at a time, and what it is answered.
-/

namespace Patchbay

/-- A request of an editor. -/
inductive EditorRequest where
  | getNodeLibrary
  | loadFromSnapshot (graph : GraphSnapshot)
  | edit (change : GraphEdit)
  | undo
  | redo

namespace EditorRequest

/-- A request as JSON. -/
def toJson : EditorRequest → Json
  | .getNodeLibrary => .object [("type", .str "get_node_library")]
  | .loadFromSnapshot graph =>
    .object [("type", .str "load_from_snapshot"), ("graph", graph.toJson)]
  | .edit change => .object [("type", .str "edit"), ("edit", change.toJson)]
  | .undo => .object [("type", .str "undo")]
  | .redo => .object [("type", .str "redo")]

/-- Reads the parameters of a request of a kind. -/
def ofKind? (v : Json) : String → Option EditorRequest
  | "get_node_library" => (v.record? []).map fun _ => .getNodeLibrary
  | "load_from_snapshot" => do
    let graph ← (← v.record? ["graph"]).field "graph" (GraphSnapshot.ofJson? .enclosed)
    some (.loadFromSnapshot graph)
  | "edit" => do
    let change ← (← v.record? ["edit"]).field "edit" (GraphEdit.ofJson? .enclosed)
    some (.edit change)
  | "undo" => (v.record? []).map fun _ => .undo
  | "redo" => (v.record? []).map fun _ => .redo
  | _ => none

/-- Reads a request. -/
def ofJson? (v : Json) : Option EditorRequest :=
  (v.variant? Json.str?).bind fun (kind, w) => ofKind? w kind

/-- Reads a request from a line of text. -/
def read? (line : String) : Option EditorRequest := (Json.read line).bind ofJson?

end EditorRequest

/-- An answer to an editor. -/
inductive EditorResponse where
  | fullGraph (graph : GraphSnapshot) (notes : List GraphNote) (canUndo canRedo : Bool)
  | nodeLibrary (nodes : List LibraryEntry) (subgraphs : List String)
  | error (message : String) (rejected : Bool)

namespace EditorResponse

/-- An answer as JSON. -/
def toJson : EditorResponse → Json
  | .fullGraph graph notes canUndo canRedo =>
    .obj [("type", .str "full_graph"), ("graph", graph.toJson),
      ("notes", .arr (notes.map GraphNote.toJson)), ("can_undo", .bool canUndo),
      ("can_redo", .bool canRedo)]
  | .nodeLibrary nodes subgraphs =>
    .obj [("type", .str "node_library"), ("nodes", .arr (nodes.map LibraryEntry.toJson)),
      ("subgraphs", .ofStrings subgraphs)]
  | .error message rejected =>
    .obj [("type", .str "error"), ("message", .str message), ("rejected", .bool rejected)]

end EditorResponse

end Patchbay
