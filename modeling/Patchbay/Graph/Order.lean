import Patchbay.Graph.State

/-!
# The order of resolution

Nodes are resolved with feeding nodes first: a node comes when the last node that feeds it has
come. Nodes on cycles, and those behind them, follow in the order of the node list.
-/

namespace Patchbay

namespace GraphState

/-- The place of a node in the node list. -/
def indexOf? (s : GraphState) (id : String) : Option Nat := s.nodes.findIdx? fun e => e.id == id

/-- The links between different nodes as pairs of places, each pair once, in the order of the
table. -/
def nodeEdges (s : GraphState) : List (Nat × Nat) :=
  let pairs := s.links.filterMap fun l =>
    match s.indexOf? l.source.node, s.indexOf? l.sink.node with
    | some i, some j => if i = j then none else some (i, j)
    | _, _ => none
  pairs.foldl (fun acc p => if acc.contains p then acc else acc ++ [p]) []

/-- How many edges lead to each of `n` places. -/
def inDegrees (n : Nat) (edges : List (Nat × Nat)) : List Nat :=
  (List.range n).map fun j => (edges.filter fun p => p.2 == j).length

/-- Takes one off the in-degree of each target, and tells which targets reach zero. -/
def release : List Nat → List Nat → List Nat × List Nat
  | degrees, [] => (degrees, [])
  | degrees, t :: ts =>
    let d := degrees.getD t 0 - 1
    let (degrees, ready) := release (degrees.set t d) ts
    (degrees, if d = 0 then t :: ready else ready)

/-- Places the first waiting node and releases the nodes behind it, until none waits. -/
def placeWaiting (edges : List (Nat × Nat)) : Nat → List Nat → List Nat → List Nat
  | _, _, [] => []
  | 0, _, _ :: _ => []
  | fuel + 1, degrees, i :: waiting =>
    let targets := (edges.filter fun p => p.1 == i).map (·.2)
    let (degrees, ready) := release degrees targets
    i :: placeWaiting edges fuel degrees (waiting ++ ready)

/-- The places of the nodes in the order of resolution. -/
def dependencyOrder (s : GraphState) : List Nat :=
  let n := s.nodes.length
  let edges := s.nodeEdges
  let degrees := inDegrees n edges
  let free := (List.range n).filter fun i => degrees.getD i 0 == 0
  let placed := placeWaiting edges n degrees free
  placed ++ (List.range n).filter fun i => !placed.contains i

end GraphState

end Patchbay
