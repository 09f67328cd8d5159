import Patchbay.Constraint.Basic

/-!
# Pads

A pad is a typed port of a node. It has a direction (a source produces items, a sink consumes
them) and a kind (a property pad retains its current value). A node declares its pads as
`PadSpec`s; the graph keeps a `PadState` for each, and `PadState.merge` carries the retained
value from one declaration to the next.
-/

namespace Patchbay

/-! ### Addresses -/

/-- The address of a pad inside a graph. -/
structure PadRef where
  node : String
  pad : String
deriving DecidableEq, Repr, Inhabited

namespace PadRef

/-- The address as messages show it. -/
def text (p : PadRef) : String := p.node ++ "." ++ p.pad

/-- Addresses are ordered by node, and within a node by pad. -/
def lt (p q : PadRef) : Bool :=
  decide (p.node < q.node) || (p.node == q.node && decide (p.pad < q.pad))

end PadRef

/-! ### Pad types -/

/-- Whether a pad produces or consumes items. -/
inductive Direction where
  | source
  | sink
deriving DecidableEq, Repr

/-- Whether a pad retains its current value. -/
inductive PadKind where
  | stateless
  | property
deriving DecidableEq, Repr

/-- Direction and kind together. -/
structure PadType where
  direction : Direction
  kind : PadKind
deriving DecidableEq, Repr

namespace PadType

/-- A source that retains its value. -/
abbrev propertySource : PadType := ⟨.source, .property⟩

/-- A sink that retains its value. -/
abbrev propertySink : PadType := ⟨.sink, .property⟩

/-- A source of transient items. -/
abbrev statelessSource : PadType := ⟨.source, .stateless⟩

/-- A sink of transient items. -/
abbrev statelessSink : PadType := ⟨.sink, .stateless⟩

instance : Inhabited PadType := ⟨statelessSink⟩

/-- Whether a pad of this type produces items. -/
def isSource (t : PadType) : Bool := t.direction == .source

/-- Whether a pad of this type retains its value. -/
def isProperty (t : PadType) : Bool := t.kind == .property

end PadType

/-! ### Declarations -/

/-- A pad as its node declares it. -/
structure PadSpec where
  id : String
  group : Option String := none
  padType : PadType
  constraints : Constraints := none
  /-- The first value of a property pad. -/
  default : Option Json := none
  /-- The inner pad that a pad of a subgraph stands for. -/
  proxy : Option PadRef := none

/-! ### State -/

/-- The state of a pad inside a graph. -/
structure PadState where
  id : String
  group : Option String := none
  padType : PadType
  /-- The constraints its node declared. -/
  declared : Constraints := none
  /-- The declared constraints, narrowed by every connection. -/
  effective : Constraints := none
  /-- The retained value; stateless pads have none. -/
  value : Option Json := none
  /-- The inner pad that a pad of a subgraph stands for. -/
  proxy : Option PadRef := none
deriving Inhabited

/-- The first pad with an id. -/
def findPad (id : String) (pads : List PadState) : Option PadState :=
  pads.find? fun p => p.id == id

namespace PadState

/-- The state of a pad that a declaration brings into a graph with a given value. -/
def declare (spec : PadSpec) (value : Option Json) : PadState where
  id := spec.id
  group := spec.group
  padType := spec.padType
  declared := spec.constraints
  effective := spec.constraints
  value := value
  proxy := spec.proxy

/-- A fresh pad holds its default, if it can hold a value at all. -/
def ofSpec (spec : PadSpec) : PadState :=
  declare spec (if spec.padType.isProperty then spec.default else none)

/-- Whether the pad produces items. -/
def isSource (p : PadState) : Bool := p.padType.isSource

/-- Whether the pad retains its value. -/
def isProperty (p : PadState) : Bool := p.padType.isProperty

/-- The value that a pad keeps under a new declaration. A proxy always mirrors its target, a
value that the declaration rejects gives way to the default, and so does no value at all. -/
def keptValue (p : PadState) (spec : PadSpec) : Option Json :=
  if !spec.padType.isProperty then none
  else if spec.proxy.isSome || !p.isProperty then spec.default
  else
    match p.value with
    | some v => if spec.constraints.accept v then some v else spec.default
    | none => spec.default

/-- The pad under a new declaration. -/
def merge (p : PadState) (spec : PadSpec) : PadState := declare spec (p.keptValue spec)

/-- Whether two pads agree in everything but their effective constraints. -/
def sameDeclaration (p q : PadState) : Bool :=
  p.id == q.id && p.group == q.group && p.padType == q.padType
    && p.declared.same q.declared && Constraint.sameValue p.value q.value && p.proxy == q.proxy

end PadState

/-- Whether two pad lists agree, pad by pad, in everything but the effective constraints. -/
def sameDeclarations : List PadState → List PadState → Bool
  | [], [] => true
  | p :: ps, q :: qs => p.sameDeclaration q && sameDeclarations ps qs
  | _, _ => false

end Patchbay
