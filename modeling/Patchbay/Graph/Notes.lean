import Patchbay.Graph.Resolve
import Patchbay.Node.Wire

/-!
# Notes of a graph

The notes of every node at every depth, and remarks on the structure: a source of the outermost
graph that feeds nothing, and a proxy whose target is missing.
-/

namespace Patchbay

/-- A note with the node it belongs to. -/
structure GraphNote where
  node : String
  note : Note
deriving DecidableEq, Repr

namespace GraphNote

/-- A note as JSON. -/
def toJson (n : GraphNote) : Json := .obj (("node_id", .str n.node) :: n.note.fields)

/-- Reads a note from an object, which holds the fields of the note and its node. -/
def ofJson? (v : Json) : Option GraphNote := do
  let _ ← v.obj?
  let node ← v.field "node_id" Json.str?
  let note ← Note.ofJson? .enclosed v
  some ⟨node, note⟩

end GraphNote

namespace GraphState

/-- The sources of a node that feed nothing. -/
def idleSources (s : GraphState) (path id : String) (pads : List PadState) : List GraphNote :=
  (pads.filter fun p => p.isSource && (s.downstream ⟨id, p.id⟩).isEmpty).map fun p =>
    ⟨path ++ id, ⟨.info, "source pad has no connections", some p.id⟩⟩

/-- The proxies of a node whose targets are missing. -/
def missingTargets (inner : GraphState) (node : String) (pads : List PadState) : List GraphNote :=
  pads.filterMap fun p =>
    match p.proxy with
    | none => none
    | some target =>
      if (inner.pad? target).isSome then none
      else some ⟨node, ⟨.error, "proxy target " ++ target.text ++ " is missing", some p.id⟩⟩

mutual

/-- The notes of a graph that `path` leads to; only the outermost one is asked for idle
sources. -/
def notesAt (path : String) (outermost : Bool) : GraphState → List GraphNote
  | ⟨nodes, links⟩ => notesOfNodes ⟨nodes, links⟩ path outermost nodes

/-- The notes of nodes of a graph. -/
def notesOfNodes (s : GraphState) (path : String) (outermost : Bool) :
    List NodeEntry → List GraphNote
  | [] => []
  | e :: rest => notesOfNode s path outermost e ++ notesOfNodes s path outermost rest

/-- The notes of a node of a graph. -/
def notesOfNode (s : GraphState) (path : String) (outermost : Bool) : NodeEntry → List GraphNote
  | ⟨id, nodeType, editor, pads, state, body⟩ =>
    notesOfBody (path ++ id) (s.view [] ⟨id, nodeType, editor, pads, state, body⟩) body
      ++ (if outermost then s.idleSources path id pads else [])

/-- The notes of the body of a node. -/
def notesOfBody (node : String) (view : NodeView) : Body → List GraphNote
  | .plugin type => (type.notes view).map (⟨node, ·⟩)
  | .subgraph _ inner =>
    inner.missingTargets node view.pads ++ inner.notesAt (node ++ "/") false

end

/-- The notes of a graph. -/
def notes (s : GraphState) : List GraphNote := s.notesAt "" true

end GraphState

end Patchbay
