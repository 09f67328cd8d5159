import Patchbay.Snapshot.Basic

/-!
# Building snapshots

A snapshot is built up node by node. What is said of a node without naming it is said of the one
that was added last. A link is recorded on both of its ends. Pad types are provisional: a
pad becomes what it is used as, and its node declares it anew when the snapshot is loaded.
-/

namespace Patchbay

/-- The nodes of a snapshot that is being built. -/
structure SnapshotBuilder where
  nodes : List NodeSnapshot := []

namespace SnapshotBuilder

/-- Changes the last member of a list. -/
def updateLast {α : Type} (f : α → α) : List α → List α
  | [] => []
  | [a] => [f a]
  | a :: b :: rest => a :: updateLast f (b :: rest)

/-- Changes the pad with an id, which is added with a provisional type if it is missing. -/
def updatePad (id : String) (provisional : PadType) (f : PadSnapshot → PadSnapshot) :
    List PadSnapshot → List PadSnapshot
  | [] => [f { id := id, padType := provisional }]
  | p :: ps => if p.id == id then f p :: ps else p :: updatePad id provisional f ps

/-- Changes the first node with an id. -/
def updateNode (id : String) (f : NodeSnapshot → NodeSnapshot) :
    List NodeSnapshot → List NodeSnapshot
  | [] => []
  | n :: ns => if n.id == id then f n :: ns else n :: updateNode id f ns

/-- Adds a node of a type. -/
def addNode (b : SnapshotBuilder) (id nodeType : String) : SnapshotBuilder :=
  ⟨b.nodes ++ [.bare id nodeType]⟩

/-- Adds a subgraph node around a graph. -/
def addSubgraph (b : SnapshotBuilder) (type id : String) (subgraphId : Option String)
    (graph : GraphSnapshot) : SnapshotBuilder :=
  ⟨b.nodes ++ [{ NodeSnapshot.bare id type with subgraph := some ⟨subgraphId, graph⟩ }]⟩

/-- Changes the node that was added last. -/
def onLast (b : SnapshotBuilder) (f : NodeSnapshot → NodeSnapshot) : SnapshotBuilder :=
  ⟨updateLast f b.nodes⟩

/-- Places the last node. -/
def placed (b : SnapshotBuilder) (x y : Double) : SnapshotBuilder :=
  b.onLast fun n => { n with editor := { n.editor with position := some (x, y) } }

/-- Names the last node. -/
def named (b : SnapshotBuilder) (name : String) : SnapshotBuilder :=
  b.onLast fun n => { n with editor := { n.editor with name := some name } }

/-- The pad becomes a property with a value. -/
def holding (v : Json) (p : PadSnapshot) : PadSnapshot :=
  { p with padType := ⟨p.padType.direction, .property⟩, value := some v }

/-- Sets a property of the last node. -/
def withValue (b : SnapshotBuilder) (pad : String) (v : Json) : SnapshotBuilder :=
  b.onLast fun n => { n with pads := updatePad pad .propertySink (holding v) n.pads }

/-- The pad becomes a source that feeds a sink. -/
def feeding (sink : PadRef) (p : PadSnapshot) : PadSnapshot :=
  { p with
    padType := ⟨.source, p.padType.kind⟩
    nextPads := if p.nextPads.contains sink then p.nextPads else p.nextPads ++ [sink] }

/-- The pad becomes a sink that a source feeds. -/
def fedBy (source : PadRef) (p : PadSnapshot) : PadSnapshot :=
  { p with padType := ⟨.sink, p.padType.kind⟩, previousPad := some source }

/-- Links a source to a sink; an end whose node is missing is not recorded. -/
def connect (b : SnapshotBuilder) (source sink : PadRef) : SnapshotBuilder :=
  let fed := updateNode source.node
    (fun n => { n with pads := updatePad source.pad .statelessSource (feeding sink) n.pads })
    b.nodes
  ⟨updateNode sink.node
    (fun n => { n with pads := updatePad sink.pad .statelessSink (fedBy source) n.pads }) fed⟩

/-- The snapshot. -/
def build (b : SnapshotBuilder) : GraphSnapshot := ⟨b.nodes⟩

end SnapshotBuilder

end Patchbay
