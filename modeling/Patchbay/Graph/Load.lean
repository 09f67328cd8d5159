import Patchbay.Graph.Resolve
import Patchbay.Library

/-!
# Graphs from and to snapshots

Loading creates the nodes of a snapshot and links them; the result still has to be resolved. Pads
that the snapshot lists are there from the start, so that their values and links last until
their node declares them; a node also declares its pads once before it is linked, for a link
may be written on its other end only.
-/

namespace Patchbay

namespace GraphState

/-! ### Loading -/

/-- A subgraph node whose proxies show the resolved inner graph. -/
def subgraphEntry (config : EngineConfig) (id : String) (subgraphId : Option String)
    (inner : GraphState) : Except Error NodeEntry :=
  match reconcile config [] inner with
  | .error e => .error (e.whileResolving id)
  | .ok inner => .ok {
      id := id
      nodeType := subgraphType
      editor := {}
      pads := inner.exposedPads.map PadState.ofSpec
      state := .unresolved
      body := .subgraph subgraphId inner }

/-- The pad that a snapshot lists, as long as its node has not declared it. -/
def seededPad (p : PadSnapshot) : PadState :=
  let pad : PadState := .ofSpec { id := p.id, padType := p.padType }
  match pad.isProperty, p.value with
  | true, some .null | false, _ | _, none => pad
  | true, some v => { pad with value := some v }

/-- Adds the listed pads that a node does not have yet. -/
def seedPads (pads : List PadState) (listed : List PadSnapshot) : List PadState :=
  listed.foldl
    (fun pads p => if (findPad p.id pads).isSome then pads else pads ++ [seededPad p]) pads

/-- Adds the declared pads that a node does not have yet. -/
def declareMissing (pads : List PadState) (specs : List PadSpec) : List PadState :=
  specs.foldl
    (fun pads spec => if (findPad spec.id pads).isSome then pads else pads ++ [.ofSpec spec]) pads

/-- The node of a type with the pads of a snapshot. -/
def pluginEntry (id nodeType : String) (type : NodeType) (listed : List PadSnapshot) :
    Except Error NodeEntry :=
  let pads := seedPads [] listed
  match type.resolve ⟨id, pads, []⟩ with
  | .error e => .error (e.whileResolving id)
  | .ok specs => .ok { NodeEntry.plugin id nodeType type with pads := declareMissing pads specs }

mutual

/-- The graph of a snapshot, not yet resolved. -/
def load (library : Library) (config : EngineConfig) : GraphSnapshot → Except Error GraphState
  | ⟨nodes⟩ => do
    let s ← loadNodes library config nodes .empty
    s.linkAll (GraphSnapshot.links ⟨nodes⟩)

/-- Adds the nodes of a snapshot. -/
def loadNodes (library : Library) (config : EngineConfig) :
    List NodeSnapshot → GraphState → Except Error GraphState
  | [], s => .ok s
  | n :: ns, s => do
    let e ← loadNode library config n
    let s ← s.addNode e
    loadNodes library config ns s

/-- The node of a snapshot. -/
def loadNode (library : Library) (config : EngineConfig) :
    NodeSnapshot → Except Error NodeEntry
  | ⟨id, nodeType, editor, listed, _, _, subgraph⟩ => do
    if nodeType = subgraphType then
      let (subgraphId, inner) ← loadInner library config id subgraph
      let e ← subgraphEntry config id subgraphId inner
      .ok { e with editor := editor, pads := seedPads e.pads listed }
    else
      let type ← library.create nodeType
      let e ← pluginEntry id nodeType type listed
      .ok { e with editor := editor }

/-- The inner graph of a node of a snapshot. -/
def loadInner (library : Library) (config : EngineConfig) (node : String) :
    Option SubgraphSnapshot → Except Error (Option String × GraphState)
  | none => .error (.subgraphNotFound (.noInnerGraph node))
  | some ⟨subgraphId, graph⟩ => (load library config graph).map fun inner => (subgraphId, inner)

end

/-! ### Storing -/

/-- A pad with its links. -/
def storePad (s : GraphState) (node : String) (p : PadState) : PadSnapshot :=
  let here : PadRef := ⟨node, p.id⟩
  { id := p.id
    group := p.group
    padType := p.padType
    value := p.value
    nextPads := if p.isSource then s.downstream here else []
    previousPad := if p.isSource then none else s.feeder here
    allowedTypes := p.effective }

/-- The metadata of a subgraph node. -/
def subgraphMetadata (subgraphId : Option String) : Metadata :=
  ⟨"Subgraph", some (subgraphId.getD "inline"), ["subgraph"]⟩

/-- The description of a subgraph node. -/
def subgraphDescription (inner : GraphState) : String :=
  "Contains " ++ inner.nodes.length.repr ++ " node(s)"

mutual

/-- The snapshot of a graph. -/
def toSnapshot : GraphState → GraphSnapshot
  | ⟨nodes, links⟩ => ⟨storeNodes ⟨nodes, links⟩ nodes⟩

/-- The snapshots of nodes of a graph. -/
def storeNodes (s : GraphState) : List NodeEntry → List NodeSnapshot
  | [] => []
  | e :: rest => storeNode s e :: storeNodes s rest

/-- The snapshot of a node of a graph. -/
def storeNode (s : GraphState) : NodeEntry → NodeSnapshot
  | ⟨id, nodeType, editor, pads, _, body⟩ =>
    let (description, metadata, subgraph) := storeBody body
    ⟨id, nodeType, editor, pads.map (storePad s id), description, metadata, subgraph⟩

/-- What a snapshot says of the body of a node. -/
def storeBody : Body → String × Metadata × Option SubgraphSnapshot
  | .plugin type => (type.description, type.metadata, none)
  | .subgraph id inner =>
    (subgraphDescription inner, subgraphMetadata id, some ⟨id, inner.toSnapshot⟩)

end

end GraphState

end Patchbay
