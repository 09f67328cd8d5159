import Patchbay.Graph.State
import Patchbay.Number.Sum

/-!
# Narrowing

The two ends of a link must agree on a type. Narrowing starts from the declared constraints and
goes round the links: the two ends of each become what they have in common. It ends with the
first round that changes nothing, or fails at a link whose ends share no shape.
-/

namespace Patchbay

/-- Constraints seen from outside a graph, by the address of the pad that is exposed. -/
abbrev External := List (PadRef × Constraints)

/-- The constraints seen from outside on a pad. -/
def External.get? (external : External) (p : PadRef) : Option Constraints :=
  (external.find? fun x => x.1 == p).map (·.2)

/-- How rounds of narrowing end. -/
inductive Narrowing where
  /-- The last round changed nothing. -/
  | settled (s : GraphState)
  /-- The ends of a link share no shape. -/
  | refused (e : Error)
  /-- The allotted rounds were used up. -/
  | unfinished

namespace GraphState

/-- Changes the first pad at an address. -/
def updatePad (s : GraphState) (p : PadRef) (f : PadState → PadState) : GraphState :=
  s.updateNode p.node fun e => { e with pads := updateFirst (fun q => q.id == p.pad) f e.pads }

/-- What a pad starts narrowing with: its declaration, narrowed by what is seen from outside
unless the two share no shape, which is reported where they are linked. -/
def startOf (external : External) (node : String) (p : PadState) : PadState :=
  match external.get? ⟨node, p.id⟩ with
  | none => { p with effective := p.declared }
  | some outer =>
    let merged := p.declared.intersect outer
    { p with effective := if merged.isIncompatible then p.declared else merged }

/-- Every pad at the start of narrowing. -/
def startNarrowing (s : GraphState) (external : External) : GraphState :=
  { s with nodes := s.nodes.map fun e => { e with pads := e.pads.map (startOf external e.id) } }

/-- Narrows the two ends of a link, and tells whether one of them changed. -/
def narrowLink (s : GraphState) (l : Link) : Except Error (GraphState × Bool) :=
  match s.pad? l.source, s.pad? l.sink with
  | some p, some q =>
    let merged := p.effective.intersect q.effective
    if merged.isIncompatible then
      .error (.nothingInCommon l.source l.sink p.effective q.effective)
    else
      let sourceChanged := !merged.same p.effective
      let sinkChanged := !merged.same q.effective
      let s := if sourceChanged then s.updatePad l.source ({ · with effective := merged }) else s
      let s := if sinkChanged then s.updatePad l.sink ({ · with effective := merged }) else s
      .ok (s, sourceChanged || sinkChanged)
  | _, _ => .ok (s, false)

/-- One round over a list of links. -/
def narrowLinks (s : GraphState) : List Link → Except Error (GraphState × Bool)
  | [] => .ok (s, false)
  | l :: ls => do
    let (s, changed) ← s.narrowLink l
    let (s, more) ← s.narrowLinks ls
    .ok (s, changed || more)

/-- Rounds over all links until one changes nothing, but no more than `rounds`. -/
def narrowRounds : Nat → GraphState → Narrowing
  | 0, _ => .unfinished
  | rounds + 1, s =>
    match s.narrowLinks s.links with
    | .error e => .refused e
    | .ok (s, changed) => if changed then narrowRounds rounds s else .settled s

end GraphState

namespace Constraint

mutual

/-- The number of parts of a shape. -/
def weight : Constraint → Nat
  | .enumeration options => options.length + 1
  | .nodeReference types => types.length + 1
  | .list none => 1
  | .list (some cs) => weightOfList cs + 1
  | _ => 1

/-- The number of parts of a list of shapes. -/
def weightOfList : List Constraint → Nat
  | [] => 0
  | c :: cs => c.weight + weightOfList cs

end

end Constraint

namespace GraphState

/-- The number of parts of all types in a graph. -/
def typeWeight (s : GraphState) : Nat :=
  sumOf (fun e => sumOf (fun p => 1 + (p.effective.map Constraint.weightOfList).getD 0) e.pads)
    s.nodes

/-- How many rounds narrowing is allotted: more than can be waited for, so that types that do not
settle show as a graph that is never ready. -/
def roundLimit (s : GraphState) : Nat := 1 <<< (64 + s.typeWeight)

/-- Recomputes the effective constraints of all pads. -/
def narrow (s : GraphState) (external : External) : Except Error GraphState :=
  let start := s.startNarrowing external
  match narrowRounds start.roundLimit start with
  | .settled s => .ok s
  | .refused e => .error e
  | .unfinished => .error (.nodeResolution "" "types did not settle")

end GraphState

end Patchbay
