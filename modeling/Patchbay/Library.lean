import Patchbay.Snapshot.Basic
import Patchbay.Node.Wire
import Patchbay.Node.Builtin.Property
import Patchbay.Node.Builtin.Ticker
import Patchbay.Node.Builtin.Passthrough
import Patchbay.Node.Builtin.Join
import Patchbay.Node.Builtin.Compare

/-!
# The node library

Node types by name, and perhaps a repository of stored subgraphs. Both are kept in the order of
their names.
-/

namespace Patchbay

/-- The node types that a graph can be built from. -/
structure Library where
  types : List (String × NodeType) := []
  /-- Stored subgraph definitions, if there is a repository. -/
  subgraphs : Option (List (String × GraphSnapshot)) := none

/-- A node type as editors list it. -/
structure LibraryEntry where
  nodeType : String
  metadata : Metadata
  description : String
deriving DecidableEq, Repr

namespace Library

/-- A library without types. -/
def empty : Library := {}

/-- Adds a node type, replacing the one of this name. -/
def register (l : Library) (name : String) (t : NodeType) : Library :=
  { l with types := insertKey name t l.types }

/-- Attaches a repository of subgraphs. -/
def withSubgraphs (l : Library) (subgraphs : List (String × GraphSnapshot)) : Library :=
  { l with subgraphs := some (sortKeys subgraphs) }

/-- Whether there is a type of a name. -/
def contains (l : Library) (name : String) : Bool := (lookupKey name l.types).isSome

/-- The type of a name. Subgraph nodes have no type of their own. -/
def create (l : Library) (name : String) : Except Error NodeType :=
  if name = subgraphType then .error (.subgraphNotFound .needsDefinition)
  else
    match lookupKey name l.types with
    | some t => .ok t
    | none => .error (.unknownNodeType name)

/-- The names of the types, in order. -/
def typeNames (l : Library) : List String := l.types.map (·.1)

/-- Every type as editors list it, in the order of the names. -/
def entries (l : Library) : List LibraryEntry :=
  l.types.map fun (name, t) => ⟨name, t.metadata, t.description⟩

/-- The ids of the stored subgraphs. -/
def subgraphIds (l : Library) : List String := (l.subgraphs.getD []).map (·.1)

/-- The stored subgraph of an id. -/
def fetch (l : Library) (id : String) : Except Error GraphSnapshot :=
  match l.subgraphs with
  | none => .error (.subgraphNotFound (.noRepository id))
  | some stored =>
    match lookupKey id stored with
    | some g => .ok g
    | none => .error (.subgraphNotFound (.unknown id))

/-- The entries of both libraries; where both have one, the other's stays. -/
def merge (l other : Library) : Library where
  types := other.types.foldl (fun acc p => insertKey p.1 p.2 acc) l.types
  subgraphs := other.subgraphs <|> l.subgraphs

/-- The built-in node types. -/
def builtins : Library where
  types := sortKeys [
    ("StringProperty", PropertyNode.string),
    ("IntegerProperty", PropertyNode.integer),
    ("FloatProperty", PropertyNode.float),
    ("BooleanProperty", PropertyNode.boolean),
    ("Ticker", Ticker.nodeType),
    ("Passthrough", Passthrough.nodeType),
    ("Join", Join.nodeType),
    ("Compare", Compare.nodeType),
    ("Gate", Gate.nodeType),
    ("Display", Display.nodeType)]

end Library

namespace LibraryEntry

/-- An entry as JSON. -/
def toJson (e : LibraryEntry) : Json :=
  .obj [("node_type", .str e.nodeType), ("metadata", e.metadata.toJson),
    ("description", .str e.description)]

/-- Reads an entry. -/
def ofJson? (v : Json) : Option LibraryEntry := do
  let v ← v.record? ["node_type", "metadata", "description"]
  let nodeType ← v.field "node_type" Json.str?
  let metadata ← v.field "metadata" Metadata.ofJson?
  let description ← v.fieldWithDefault "description" Json.str? ""
  some ⟨nodeType, metadata, description⟩

end LibraryEntry

end Patchbay
