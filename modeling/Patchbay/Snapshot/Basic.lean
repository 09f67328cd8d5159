import Patchbay.Node.Basic

/-!
# Snapshots

The declarative form of a graph: its nodes with their pads, values and inner graphs. A link is
written on both of its ends; a reader accepts either (`GraphSnapshot.links`).
-/

namespace Patchbay

/-- A link from a source pad to a sink pad. -/
structure Link where
  source : PadRef
  sink : PadRef
deriving DecidableEq, Repr, Inhabited

namespace Link

/-- A link as messages show it. -/
def text (l : Link) : String := l.source.text ++ " -> " ++ l.sink.text

/-- Links are ordered by source, and links of one source by sink. -/
def lt (a b : Link) : Bool := a.source.lt b.source || (a.source == b.source && a.sink.lt b.sink)

end Link

/-- What an editor keeps of the presentation of a node. -/
structure EditorInfo where
  name : Option String := none
  position : Option (Double × Double) := none
  dimensions : Option (Double × Double) := none
deriving Inhabited

/-- A pad in a snapshot. -/
structure PadSnapshot where
  id : String
  group : Option String := none
  padType : PadType
  value : Option Json := none
  /-- The sinks that a source feeds. -/
  nextPads : List PadRef := []
  /-- The source that feeds a sink. -/
  previousPad : Option PadRef := none
  /-- The effective constraints; a reader of snapshots ignores them. -/
  allowedTypes : Constraints := none
deriving Inhabited

mutual

/-- A graph in declarative form. -/
structure GraphSnapshot where
  nodes : List NodeSnapshot

/-- A node in a snapshot. -/
structure NodeSnapshot where
  id : String
  nodeType : String
  editor : EditorInfo
  pads : List PadSnapshot
  description : String
  metadata : Metadata
  /-- The inner graph of a subgraph node. -/
  subgraph : Option SubgraphSnapshot

/-- The inner graph of a subgraph node, with the id of the definition it came from. -/
structure SubgraphSnapshot where
  subgraphId : Option String
  graph : GraphSnapshot

end

instance : Inhabited GraphSnapshot := ⟨⟨[]⟩⟩

/-- Default metadata are empty. -/
def Metadata.empty : Metadata := ⟨"", none, []⟩

/-- A node as one would write it by hand. -/
def NodeSnapshot.bare (id nodeType : String) : NodeSnapshot where
  id := id
  nodeType := nodeType
  editor := {}
  pads := []
  description := ""
  metadata := .empty
  subgraph := none

/-- The first pad with an id. -/
def NodeSnapshot.pad? (n : NodeSnapshot) (id : String) : Option PadSnapshot :=
  n.pads.find? fun p => p.id == id

namespace GraphSnapshot

/-- The first node with an id. -/
def node? (g : GraphSnapshot) (id : String) : Option NodeSnapshot :=
  g.nodes.find? fun n => n.id == id

/-! ### Links -/

/-- The links that a pad names. -/
def linksOfPad (node : String) (pad : PadSnapshot) : List Link :=
  let here : PadRef := ⟨node, pad.id⟩
  pad.nextPads.map (⟨here, ·⟩) ++ pad.previousPad.toList.map (⟨·, here⟩)

/-- Every link that either of its ends names, sorted and without repeats. -/
def links (g : GraphSnapshot) : List Link :=
  let named := g.nodes.flatMap fun n => n.pads.flatMap (linksOfPad n.id)
  (named.mergeSort fun a b => !b.lt a).eraseReps

end GraphSnapshot

/-! ### Equality -/

/-- Equality of optional pairs of numbers. -/
def samePair : Option (Double × Double) → Option (Double × Double) → Bool
  | none, none => true
  | some a, some b => a.1.same b.1 && a.2.same b.2
  | _, _ => false

/-- Equality of editor information, with numbers compared as numbers. -/
def EditorInfo.same (a b : EditorInfo) : Bool :=
  a.name == b.name && samePair a.position b.position && samePair a.dimensions b.dimensions

/-- Equality of pads, with numbers compared as numbers. -/
def PadSnapshot.same (a b : PadSnapshot) : Bool :=
  a.id == b.id && a.group == b.group && a.padType == b.padType
    && Constraint.sameValue a.value b.value && a.nextPads == b.nextPads
    && a.previousPad == b.previousPad && a.allowedTypes.same b.allowedTypes

/-- Equality of pad lists. -/
def samePads : List PadSnapshot → List PadSnapshot → Bool
  | [], [] => true
  | a :: as, b :: bs => a.same b && samePads as bs
  | _, _ => false

mutual

/-- Equality of graphs, with numbers compared as numbers. -/
def GraphSnapshot.same : GraphSnapshot → GraphSnapshot → Bool
  | ⟨as⟩, ⟨bs⟩ => sameNodes as bs

/-- Equality of node lists. -/
def sameNodes : List NodeSnapshot → List NodeSnapshot → Bool
  | [], [] => true
  | a :: as, b :: bs => a.same b && sameNodes as bs
  | _, _ => false

/-- Equality of nodes. -/
def NodeSnapshot.same : NodeSnapshot → NodeSnapshot → Bool
  | ⟨id, type, editor, pads, description, metadata, subgraph⟩, b =>
    id == b.id && type == b.nodeType && editor.same b.editor && samePads pads b.pads
      && description == b.description && metadata == b.metadata
      && sameSubgraph subgraph b.subgraph

/-- Equality of optional inner graphs. -/
def sameSubgraph : Option SubgraphSnapshot → Option SubgraphSnapshot → Bool
  | none, none => true
  | some a, some b => a.same b
  | _, _ => false

/-- Equality of inner graphs. -/
def SubgraphSnapshot.same : SubgraphSnapshot → SubgraphSnapshot → Bool
  | ⟨id, graph⟩, b => id == b.subgraphId && graph.same b.graph

end

end Patchbay
