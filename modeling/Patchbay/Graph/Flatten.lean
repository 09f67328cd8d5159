import Patchbay.Graph.State

/-!
# Flat graphs

A graph runs in flat form: every subgraph is replaced by its nodes, whose ids then tell the way
to them, and every link by the link between the pads that its ends stand for.
-/

namespace Patchbay

/-- A node of a flat graph. -/
structure FlatNode where
  id : String
  nodeType : String
  type : NodeType
  pads : List PadState

/-- A graph without subgraphs. -/
structure FlatGraph where
  nodes : List FlatNode
  links : List Link

namespace GraphState

mutual

/-- The address in the flat graph of the pad that an address stands for; `path` leads to the
graph. -/
def flatAddress (path : String) : GraphState → PadRef → Option PadRef
  | ⟨nodes, _⟩, p => flatAddressIn path nodes p

/-- The flat address of a pad of the node it names. -/
def flatAddressIn (path : String) : List NodeEntry → PadRef → Option PadRef
  | [], _ => none
  | e :: rest, p => if e.id == p.node then flatAddressOf path e p else flatAddressIn path rest p

/-- The flat address of a pad of this node. -/
def flatAddressOf (path : String) : NodeEntry → PadRef → Option PadRef
  | ⟨_, _, _, pads, _, body⟩, p => flatAddressOfBody path pads body p

/-- The flat address of a pad: its own, or that of the pad it stands for. -/
def flatAddressOfBody (path : String) (pads : List PadState) : Body → PadRef → Option PadRef
  | .plugin _, p => some ⟨path ++ p.node, p.pad⟩
  | .subgraph _ inner, p =>
    match (findPad p.pad pads).bind (·.proxy) with
    | none => none
    | some target => flatAddress (path ++ p.node ++ "/") inner target

end

/-- The link in the flat graph that a link stands for. -/
def flatLink (s : GraphState) (path : String) (l : Link) : Option Link :=
  match s.flatAddress path l.source, s.flatAddress path l.sink with
  | some source, some sink => some ⟨source, sink⟩
  | _, _ => none

mutual

/-- The flat nodes and links of a graph that `path` leads to. -/
def flattenAt (path : String) : GraphState → FlatGraph
  | ⟨nodes, links⟩ =>
    let flat := flattenNodes path nodes
    { flat with links := flat.links ++ links.filterMap (flatLink ⟨nodes, links⟩ path) }

/-- The flat nodes of a list of nodes, with the links inside them. -/
def flattenNodes (path : String) : List NodeEntry → FlatGraph
  | [] => ⟨[], []⟩
  | e :: rest =>
    let first := flattenNode path e
    let others := flattenNodes path rest
    ⟨first.nodes ++ others.nodes, first.links ++ others.links⟩

/-- The flat nodes of one node, with the links inside it. -/
def flattenNode (path : String) : NodeEntry → FlatGraph
  | ⟨id, nodeType, _, pads, _, body⟩ => flattenBody (path ++ id) nodeType pads body

/-- The flat nodes of the body of a node, with the links inside it. -/
def flattenBody (id nodeType : String) (pads : List PadState) : Body → FlatGraph
  | .plugin type => ⟨[⟨id, nodeType, type, pads⟩], []⟩
  | .subgraph _ inner => flattenAt (id ++ "/") inner

end

/-- The flat form of a graph. -/
def flatten (s : GraphState) : FlatGraph := s.flattenAt ""

end GraphState

end Patchbay
