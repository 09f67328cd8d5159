import Patchbay.Graph.State

/-!
# Proxies

Every pad of an inner graph that has no link inside is exposed on the subgraph node around it, as
a pad of its own that stands for it. The id of a proxy is the address of the inner pad.
-/

namespace Patchbay

/-- The id of the proxy of an inner pad. -/
def proxyPadId (p : PadRef) : String := p.node ++ ":" ++ p.pad

/-- Splits a text at the first occurrence of a character. -/
def splitFirst (mark : Char) : List Char → Option (List Char × List Char)
  | [] => none
  | c :: cs =>
    if c = mark then some ([], cs)
    else (splitFirst mark cs).map fun (a, b) => (c :: a, b)

/-- The inner pad that an id addresses, if it has the form of a proxy's. -/
def parseProxyPadId (id : String) : Option PadRef :=
  (splitFirst ':' id.toList).map fun (node, pad) => ⟨String.ofList node, String.ofList pad⟩

namespace GraphState

/-- Whether a pad has a link in its graph. -/
def isLinked (s : GraphState) (here : PadRef) (p : PadState) : Bool :=
  if p.isSource then !(s.downstream here).isEmpty else (s.feeder here).isSome

/-- The declaration of the proxy of an inner pad. -/
def proxySpec (target : PadRef) (p : PadState) : PadSpec where
  id := proxyPadId target
  group := p.group
  padType := p.padType
  constraints := p.effective
  default := p.value
  proxy := some target

/-- The proxies of all pads without a link, in the order of nodes and pads. -/
def exposedPads (s : GraphState) : List PadSpec :=
  s.nodes.flatMap fun e =>
    (e.pads.filter fun p => !s.isLinked ⟨e.id, p.id⟩ p).map fun p => proxySpec ⟨e.id, p.id⟩ p

end GraphState

end Patchbay
