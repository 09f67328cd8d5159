import Patchbay.Graph.Load
import Patchbay.Edit.Basic

/-!
# Making and dissolving subgraphs

A subgraph node comes from the library's repository or from a graph given on the spot, which may
replace nodes of the graph around it. Dissolving one moves its inner nodes outwards and leads
the links of its proxies to the pads they stood for.
-/

namespace Patchbay

namespace GraphState

/-! ### Making -/

/-- Adds a subgraph node for a stored definition. -/
def insertSubgraph (s : GraphState) (library : Library) (config : EngineConfig)
    (id : Option String) (subgraphId : String) (editor : EditorInfo) :
    Except Error GraphState := do
  let graph ← library.fetch subgraphId
  let inner ← load library config graph
  let node := id.getD (s.uniqueId subgraphId)
  let e ← subgraphEntry config node (some subgraphId) inner
  s.addNode { e with editor := editor }

/-- Removes nodes one after the other. -/
def removeNodes (s : GraphState) : List String → Except Error GraphState
  | [] => .ok s
  | id :: ids => do
    let (s, _) ← s.removeNode id
    s.removeNodes ids

/-- Links pairs of pads one after the other, given in either order. -/
def connectEach (s : GraphState) : List (PadRef × PadRef) → Except Error GraphState
  | [] => .ok s
  | (a, b) :: rest => do
    let (s, _) ← s.connect a b
    s.connectEach rest

/-- Replaces nodes by a new subgraph node, and links its proxies. -/
def insertInlineSubgraph (s : GraphState) (library : Library) (config : EngineConfig)
    (id subgraphId : Option String) (graph : GraphSnapshot)
    (inbound outbound : List PadConnection) (removed : List String) (editor : EditorInfo) :
    Except Error GraphState := do
  let s ← s.removeNodes removed
  let inner ← load library config graph
  let node := id.getD (s.uniqueId (subgraphId.getD "subgraph"))
  let e ← subgraphEntry config node subgraphId inner
  let s ← s.addNode { e with editor := editor }
  let s ← s.connectEach (inbound.map fun c => (c.first, ⟨node, proxyPadId c.second⟩))
  s.connectEach (outbound.map fun c => (⟨node, proxyPadId c.first⟩, c.second))

/-! ### Dissolving -/

/-- Adds nodes under fresh ids, and tells which id each of them got. -/
def adoptNodes (s : GraphState) :
    List NodeEntry → Except Error (GraphState × List (String × String))
  | [] => .ok (s, [])
  | e :: rest => do
    let id := s.uniqueId e.id
    let s ← s.addNode { e with id := id }
    let (s, renames) ← s.adoptNodes rest
    .ok (s, (e.id, id) :: renames)

/-- The address of a pad of a node that got another id. -/
def adoptedPad (renames : List (String × String)) (p : PadRef) : Except Error PadRef :=
  match renames.find? fun r => r.1 == p.node with
  | some r => .ok ⟨r.2, p.pad⟩
  | none => .error (.nodeNotFound p.node)

/-- The pad that a pad of a dissolved node stood for; other pads stay what they are. -/
def throughProxy (renames : List (String × String)) (node : String) (p : PadRef) :
    Except Error PadRef :=
  if p.node ≠ node then .ok p
  else
    match parseProxyPadId p.pad with
    | none => .error (.padNotFound p)
    | some inner => adoptedPad renames inner

/-- Links pairs of pads after their addresses were translated. -/
def relink (s : GraphState) (translate : PadRef → Except Error PadRef) :
    List Link → Except Error GraphState
  | [] => .ok s
  | l :: ls => do
    let source ← translate l.source
    let sink ← translate l.sink
    let s ← s.linkUnchecked source sink
    s.relink translate ls

/-- Moves the inner nodes of a subgraph node into the graph around it. -/
def dissolveSubgraph (s : GraphState) (node : String) : Except Error GraphState :=
  match s.node? node with
  | none => .error (.nodeNotFound node)
  | some e =>
    match e.body with
    | .plugin _ => .error (.subgraphNotFound (.notASubgraph node))
    | .subgraph _ inner => do
      let outer := s.links.filter (touches node)
      let (s, _) ← s.removeNode node
      let (s, renames) ← s.adoptNodes inner.nodes
      let s ← s.relink (adoptedPad renames) inner.links
      s.relink (throughProxy renames node) outer

end GraphState

end Patchbay
