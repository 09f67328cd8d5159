import Patchbay.Graph.Narrow
import Patchbay.Graph.Order
import Patchbay.Graph.Proxy
import Patchbay.Config

/-!
# Resolution

Resolution brings a graph to a fixed point. In passes over the nodes, each declares its pads anew
from what it sees; links that lost an end are dropped; and when a pass changes nothing, the
constraints are narrowed along the links.

The inner graph of a subgraph node is resolved whenever the node is, under the constraints that
the outer connections of its proxies show.
-/

namespace Patchbay

namespace GraphState

/-! ### What pads see -/

/-- What an unlinked pad sees. -/
def externalView (external : External) (here : PadRef) : PeerView :=
  match external.get? here with
  | some cs => ⟨true, cs⟩
  | none => {}

/-- What a pad sees across its links: a source the declarations of all its sinks together, a sink
that of its source. -/
def peerView (s : GraphState) (external : External) (here : PadRef) (p : PadState) : PeerView :=
  if p.isSource then
    match (s.downstream here).filterMap s.pad? with
    | [] => externalView external here
    | sinks => ⟨true, sinks.foldl (fun acc q => acc.intersect q.declared) none⟩
  else
    match (s.feeder here).bind s.pad? with
    | some source => ⟨true, source.declared⟩
    | none => externalView external here

/-- What each pad of a node sees. -/
def peerViews (s : GraphState) (external : External) (e : NodeEntry) : List (String × PeerView) :=
  e.pads.map fun p => (p.id, s.peerView external ⟨e.id, p.id⟩ p)

/-- What a node sees. -/
def view (s : GraphState) (external : External) (e : NodeEntry) : NodeView :=
  ⟨e.id, e.pads, s.peerViews external e⟩

/-! ### Declaring pads anew -/

/-- The first id that occurs a second time. -/
def firstRepeat : List String → List PadSpec → Option String
  | _, [] => none
  | seen, spec :: specs =>
    if seen.contains spec.id then some spec.id else firstRepeat (spec.id :: seen) specs

/-- The state of a declared pad of a node. -/
def mergedPad (pads : List PadState) (spec : PadSpec) : PadState :=
  match findPad spec.id pads with
  | some p => p.merge spec
  | none => .ofSpec spec

/-- Replaces the pads of a node by a declaration, and tells whether anything changed. -/
def applySpecs (e : NodeEntry) (specs : List PadSpec) : Except Error (NodeEntry × Bool) :=
  match firstRepeat [] specs with
  | some id => .error (.nodeResolution e.id ("pad '" ++ id ++ "' declared twice"))
  | none =>
    let pads := specs.map (mergedPad e.pads)
    .ok ({ e with pads := pads }, !sameDeclarations e.pads pads)

/-- The constraints that the connections of proxies show to the inner graph. -/
def externalOf (pads : List PadState) (peers : List (String × PeerView)) : External :=
  pads.filterMap fun p =>
    match p.proxy, lookupKey p.id peers with
    | some target, some peer => if peer.connected then some (target, peer.constraints) else none
    | _, _ => none

/-- How an inner graph is resolved under what it sees from outside. -/
abbrev InnerResolver := External → GraphState → Except Error GraphState

/-- Resolves the body of a node: what it declares, and what it becomes. -/
def resolveBody (resolveInner : InnerResolver) (e : NodeEntry) (view : NodeView) :
    Except Error (List PadSpec × Body) :=
  match e.body with
  | .plugin type => (type.resolve view).map fun specs => (specs, .plugin type)
  | .subgraph id inner =>
    (resolveInner (externalOf e.pads view.peers) inner).map fun inner =>
      (inner.exposedPads, .subgraph id inner)

/-- Resolves one node, and tells whether its pads changed. -/
def resolveNode (resolveInner : InnerResolver) (external : External) (s : GraphState)
    (e : NodeEntry) : Except Error (NodeEntry × Bool) :=
  match resolveBody resolveInner e (s.view external e) with
  | .error err => .error (err.whileResolving e.id)
  | .ok (specs, body) => applySpecs { e with body := body } specs

/-- Resolves the node at a place. -/
def resolveAt (resolveInner : InnerResolver) (external : External) (s : GraphState) (i : Nat) :
    Except Error (GraphState × Bool) :=
  match s.nodes[i]? with
  | none => .ok (s, false)
  | some e =>
    (resolveNode resolveInner external s e).map fun (e, changed) =>
      ({ s with nodes := s.nodes.set i e }, changed)

/-- Resolves the nodes at a list of places, one after the other. -/
def resolveEach (resolveInner : InnerResolver) (external : External) (s : GraphState) :
    List Nat → Except Error (GraphState × Bool)
  | [] => .ok (s, false)
  | i :: is => do
    let (s, changed) ← resolveAt resolveInner external s i
    let (s, more) ← resolveEach resolveInner external s is
    .ok (s, changed || more)

/-! ### Passes -/

/-- Whether a link joins an existing source pad to an existing sink pad. -/
def isSound (s : GraphState) (l : Link) : Bool :=
  (s.pad? l.sink).any (!·.isSource) && (s.pad? l.source).any (·.isSource)

/-- Drops every link that lost an end, and tells whether there was one. -/
def pruneLinks (s : GraphState) : GraphState × Bool :=
  ({ s with links := s.links.filter s.isSound }, !s.links.all s.isSound)

/-- One pass over the nodes at a list of places. -/
def pass (resolveInner : InnerResolver) (external : External) (order : List Nat)
    (s : GraphState) : Except Error (GraphState × Bool) :=
  (resolveEach resolveInner external s order).map fun (s, changed) =>
    let (s, pruned) := s.pruneLinks
    (s, changed || pruned)

/-- Passes until one changes nothing, but no more than `limit`. -/
def settle (step : GraphState → Except Error (GraphState × Bool)) :
    Nat → GraphState → Except Error (Option GraphState)
  | 0, _ => .ok none
  | limit + 1, s =>
    match step s with
    | .error e => .error e
    | .ok (s, changed) => if changed then settle step limit s else .ok (some s)

/-- A graph whose pads keep changing; the first node of the order is named. -/
def didNotSettle (s : GraphState) (order : List Nat) (limit : Nat) : Error :=
  let node := (order.head?.bind fun i => s.nodes[i]?).map (·.id)
  .nodeResolution (node.getD "")
    ("pads did not settle after " ++ limit.repr ++ " passes")

/-- Marks every node as resolved. -/
def markResolved (s : GraphState) : GraphState :=
  { s with nodes := s.nodes.map fun e => { e with state := .resolved } }

/-- Resolves a graph, with a given way to resolve inner graphs. -/
def reconcileWith (resolveInner : InnerResolver) (config : EngineConfig) (external : External)
    (s : GraphState) : Except Error GraphState :=
  let limit := config.passLimit s.nodes.length
  let order := s.dependencyOrder
  match settle (pass resolveInner external order) limit s with
  | .error e => .error e
  | .ok none => .error (s.didNotSettle order limit)
  | .ok (some s) => (s.narrow external).map markResolved

/-- Resolves a graph whose subgraphs nest at most `depth` deep. -/
def reconcileWithin (config : EngineConfig) : Nat → External → GraphState → Except Error GraphState
  | 0 => reconcileWith (fun _ inner => .ok inner) config
  | depth + 1 => reconcileWith (reconcileWithin config depth) config

/-- Resolves a graph under the constraints that are seen from outside. -/
def reconcile (config : EngineConfig) (external : External) (s : GraphState) :
    Except Error GraphState :=
  reconcileWithin config s.depth external s

end GraphState

end Patchbay
