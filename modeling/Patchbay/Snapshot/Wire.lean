import Patchbay.Snapshot.Basic
import Patchbay.Node.Wire
import Patchbay.Pad.Wire
import Patchbay.Json.Printer
import Patchbay.Json.Reader

/-!
# Snapshots as JSON

Absent names, positions, groups and inner graphs are left out; an absent value, feeding pad or list
of constraints is `null`. The fields of a record are written in a fixed order.
-/

namespace Patchbay

/-! ### Writing -/

/-- A pad as JSON. -/
def PadSnapshot.toJson (p : PadSnapshot) : Json :=
  .obj (("id", .str p.id) :: Json.presentField "group" .str p.group
    ++ [("type", p.padType.toJson), ("value", p.value.getD .null),
      ("next_pads", .arr (p.nextPads.map PadRef.toJson)),
      ("previous_pad", Json.ofOption PadRef.toJson p.previousPad),
      ("allowed_types", Constraints.toJson p.allowedTypes)])

/-- The fields of editor information. -/
def EditorInfo.fields (e : EditorInfo) : List (String × Json) :=
  Json.presentField "editor_name" .str e.name
    ++ Json.presentField "editor_position" .ofPair e.position
    ++ Json.presentField "editor_dimensions" .ofPair e.dimensions

mutual

/-- A graph as JSON. -/
def GraphSnapshot.toJson : GraphSnapshot → Json
  | ⟨nodes⟩ => .obj [("nodes", .arr (nodesToJson nodes))]

/-- Nodes as JSON values. -/
def nodesToJson : List NodeSnapshot → List Json
  | [] => []
  | n :: ns => n.toJson :: nodesToJson ns

/-- A node as JSON. -/
def NodeSnapshot.toJson : NodeSnapshot → Json
  | ⟨id, type, editor, pads, description, metadata, subgraph⟩ =>
    .obj (("id", .str id) :: ("type", .str type) :: editor.fields
      ++ [("pads", .arr (pads.map PadSnapshot.toJson)), ("description", .str description),
        ("metadata", metadata.toJson)]
      ++ subgraphFields subgraph)

/-- The field of an inner graph. -/
def subgraphFields : Option SubgraphSnapshot → List (String × Json)
  | none => []
  | some s => [("subgraph", s.toJson)]

/-- An inner graph as JSON. -/
def SubgraphSnapshot.toJson : SubgraphSnapshot → Json
  | ⟨id, graph⟩ =>
    .obj (Json.presentField "subgraph_id" .str id ++ [("graph", graph.toJson)])

end

/-! ### Reading -/

/-- The parts of a pad. -/
def PadSnapshot.outline : Json.Outline :=
  .record [("id", .whole), ("group", .whole), ("type", .whole), ("value", .whole),
    ("next_pads", .each PadRef.outline), ("previous_pad", PadRef.outline),
    ("allowed_types", .whole)]

/-- Reads a pad. -/
def PadSnapshot.ofJson? (place : Json.Place) (v : Json) : Option PadSnapshot := do
  let v ← v.record? outline.names
  let id ← v.field "id" Json.str?
  let group ← v.optionalField "group" Json.str?
  let padType ← v.field "type" (PadType.ofJson? place)
  let value ← v.optionalField "value" Json.any?
  let nextPads ← v.fieldWithDefault "next_pads" (Json.listOf PadRef.ofJson?) []
  let previousPad ← v.optionalField "previous_pad" PadRef.ofJson?
  let allowedTypes ← v.fieldWithDefault "allowed_types" (Constraints.ofJson? place) none
  some ⟨id, group, padType, value, nextPads, previousPad, allowedTypes⟩

/-- Reads the fields of editor information. -/
def EditorInfo.ofFields? (v : Json) : Option EditorInfo := do
  let name ← v.optionalField "editor_name" Json.str?
  let position ← v.optionalField "editor_position" Json.pair?
  let dimensions ← v.optionalField "editor_dimensions" Json.pair?
  some ⟨name, position, dimensions⟩

/-- The parts of a graph, given those of its nodes. -/
def GraphSnapshot.outlineOf (node : Json.Outline) : Json.Outline :=
  .record [("nodes", .each node)]

/-- Reads a graph; `node` reads its nodes. -/
def GraphSnapshot.ofNodes (node : Json → Option NodeSnapshot) (v : Json) :
    Option GraphSnapshot := do
  let v ← v.record? (outlineOf .whole).names
  let nodes ← v.fieldWithDefault "nodes" (Json.listOf node) []
  some ⟨nodes⟩

/-- The parts of an inner graph, given those of its nodes. -/
def SubgraphSnapshot.outlineOf (node : Json.Outline) : Json.Outline :=
  .record [("subgraph_id", .whole), ("graph", GraphSnapshot.outlineOf node)]

/-- Reads an inner graph; `node` reads its nodes. -/
def SubgraphSnapshot.ofNodes (node : Json → Option NodeSnapshot) (v : Json) :
    Option SubgraphSnapshot := do
  let v ← v.record? (outlineOf .whole).names
  let id ← v.optionalField "subgraph_id" Json.str?
  let graph ← v.field "graph" (GraphSnapshot.ofNodes node)
  some ⟨id, graph⟩

/-- The parts of a node, given those of its inner graph. -/
def NodeSnapshot.outlineOf (subgraph : Json.Outline) : Json.Outline :=
  .record [("id", .whole), ("type", .whole), ("editor_name", .whole), ("editor_position", .whole),
    ("editor_dimensions", .whole), ("pads", .each PadSnapshot.outline), ("description", .whole),
    ("metadata", Metadata.outline), ("subgraph", subgraph)]

/-- Reads a node whose inner graphs nest at most `depth` deep. -/
def NodeSnapshot.ofJsonWithin (place : Json.Place) : Nat → Json → Option NodeSnapshot
  | 0, _ => none
  | depth + 1, v => do
    let v ← v.record? (outlineOf .whole).names
    let id ← v.field "id" Json.str?
    let nodeType ← v.field "type" Json.str?
    let editor ← EditorInfo.ofFields? v
    let pads ← v.fieldWithDefault "pads" (Json.listOf (PadSnapshot.ofJson? place)) []
    let description ← v.fieldWithDefault "description" Json.str? ""
    let metadata ← v.fieldWithDefault "metadata" Metadata.ofJson? .empty
    let subgraph ← v.optionalField "subgraph" (SubgraphSnapshot.ofNodes (ofJsonWithin place depth))
    some ⟨id, nodeType, editor, pads, description, metadata, subgraph⟩

/-- Reads a graph. -/
def GraphSnapshot.ofJson? (place : Json.Place) (v : Json) : Option GraphSnapshot :=
  GraphSnapshot.ofNodes (NodeSnapshot.ofJsonWithin place v.depth) v

/-! ### Text -/

/-- The parts of a node whose inner graphs nest at most `depth` deep. -/
def NodeSnapshot.outlineWithin : Nat → Json.Outline
  | 0 => .whole
  | depth + 1 => outlineOf (SubgraphSnapshot.outlineOf (outlineWithin depth))

/-- The parts of a graph. An inner graph takes several containers, so that no text nests graphs as
deep as containers. -/
def GraphSnapshot.outline : Json.Outline :=
  outlineOf (NodeSnapshot.outlineWithin Json.depthLimit)

/-- A graph as JSON text. -/
def GraphSnapshot.write (g : GraphSnapshot) : String := g.toJson.compact

/-- Reads a graph from JSON text. -/
def GraphSnapshot.read? (text : String) : Option GraphSnapshot :=
  (Json.readOutline outline text).bind (GraphSnapshot.ofJson? .plain)

end Patchbay
