import Patchbay.Snapshot.Basic
import Patchbay.Constraint.Intersect

/-!
# The state of a graph

Nodes with their pads, and one table of links. The table holds at most one link per sink, in the
order of the sinks; pads never point at each other. A node is an instance of a node type, or
it is a subgraph, with a whole graph inside.

Here are the types, what can be looked up, and the elementary changes: nodes come, go and are
renamed, pads are linked and unlinked, and values are set.
-/

namespace Patchbay

mutual

/-- Nodes, and the links between their pads. -/
structure GraphState where
  nodes : List NodeEntry
  /-- The links in the order of their sinks, one per sink. -/
  links : List Link

/-- A node of a graph. -/
structure NodeEntry where
  id : String
  nodeType : String
  editor : EditorInfo
  pads : List PadState
  state : NodeState
  body : Body

/-- What a node is made of. -/
inductive Body where
  | plugin (type : NodeType)
  /-- A graph inside a node, with the id of the definition it came from. -/
  | subgraph (id : Option String) (inner : GraphState)

end

instance : Inhabited GraphState := ⟨⟨[], []⟩⟩

instance : Inhabited Body := ⟨.subgraph none default⟩

instance : Inhabited NodeEntry := ⟨⟨"", "", {}, [], .unresolved, default⟩⟩

/-- Changes the first member with a property. -/
def updateFirst {α : Type} (test : α → Bool) (f : α → α) : List α → List α
  | [] => []
  | a :: as => if test a then f a :: as else a :: updateFirst test f as

/-- Removes the first member with a property. -/
def eraseFirst {α : Type} (test : α → Bool) : List α → List α
  | [] => []
  | a :: as => if test a then as else a :: eraseFirst test as

/-- Whether an id may be given to a node: it is not empty, and holds neither of the marks that
addresses inside subgraphs are made with. -/
def isValidNodeId (id : String) : Bool :=
  !id.isEmpty && !id.toList.contains ':' && !id.toList.contains '/'

namespace NodeEntry

/-- A fresh node of a type. -/
def plugin (id nodeType : String) (type : NodeType) : NodeEntry where
  id := id
  nodeType := nodeType
  editor := {}
  pads := []
  state := .unresolved
  body := .plugin type

/-- The pad with an id. -/
def pad? (e : NodeEntry) (id : String) : Option PadState := findPad id e.pads

/-- Whether the node has a graph inside. -/
def isSubgraph (e : NodeEntry) : Bool :=
  match e.body with
  | .plugin _ => false
  | .subgraph .. => true

end NodeEntry

namespace GraphState

/-- The graph without nodes. -/
def empty : GraphState := ⟨[], []⟩

/-! ### Looking up -/

/-- The node with an id. -/
def node? (s : GraphState) (id : String) : Option NodeEntry := s.nodes.find? fun e => e.id == id

/-- Whether there is a node with an id. -/
def contains (s : GraphState) (id : String) : Bool := s.nodes.any fun e => e.id == id

/-- The pad at an address. -/
def pad? (s : GraphState) (p : PadRef) : Option PadState := (s.node? p.node).bind (·.pad? p.pad)

/-- The source that feeds a sink. -/
def feeder (s : GraphState) (sink : PadRef) : Option PadRef :=
  (s.links.find? fun l => l.sink == sink).map (·.source)

/-- The sinks that a source feeds, in order. -/
def downstream (s : GraphState) (source : PadRef) : List PadRef :=
  (s.links.filter fun l => l.source == source).map (·.sink)

/-! ### Nodes -/

/-- Changes the node with an id. -/
def updateNode (s : GraphState) (id : String) (f : NodeEntry → NodeEntry) : GraphState :=
  { s with nodes := updateFirst (fun e => e.id == id) f s.nodes }

/-- Marks a node as changed since its last resolution. -/
def unresolve (s : GraphState) (id : String) : GraphState :=
  s.updateNode id fun e => { e with state := .unresolved }

/-- Adds a node at the end; its id must be valid and new. -/
def addNode (s : GraphState) (e : NodeEntry) : Except Error GraphState :=
  if !isValidNodeId e.id then .error (.invalidNodeId e.id)
  else if s.contains e.id then .error (.duplicateNodeId e.id)
  else .ok { s with nodes := s.nodes ++ [e] }

/-- Whether a link touches a node. -/
def touches (id : String) (l : Link) : Bool := l.sink.node == id || l.source.node == id

/-- The node at the other end of a link that touches a node. -/
def neighbour (id : String) (l : Link) : String :=
  if l.sink.node == id then l.source.node else l.sink.node

/-- Removes a node with every link that touches it. -/
def removeNode (s : GraphState) (id : String) : Except Error (GraphState × NodeEntry) :=
  match s.node? id with
  | none => .error (.nodeNotFound id)
  | some e =>
    let rest : GraphState :=
      ⟨eraseFirst (fun e => e.id == id) s.nodes, s.links.filter fun l => !touches id l⟩
    .ok (((s.links.filter (touches id)).map (neighbour id)).foldl unresolve rest, e)

/-! ### The table of links -/

/-- Puts a link at its sink's place, replacing the link of this sink. -/
def insertLink (l : Link) : List Link → List Link
  | [] => [l]
  | k :: ks =>
    if l.sink.lt k.sink then l :: k :: ks
    else if l.sink = k.sink then l :: ks
    else k :: insertLink l ks

/-- Renames a node in an address. -/
def renamePad (old new : String) (p : PadRef) : PadRef :=
  if p.node = old then { p with node := new } else p

/-- Renames a node in every link. -/
def renameLinks (old new : String) (links : List Link) : List Link :=
  (links.map fun l => (⟨renamePad old new l.source, renamePad old new l.sink⟩ : Link)).foldl
    (fun acc l => insertLink l acc) []

/-- Gives a node another id. -/
def renameNode (s : GraphState) (old new : String) : Except Error GraphState :=
  if old = new then .ok s
  else if !isValidNodeId new then .error (.invalidNodeId new)
  else if s.contains new then .error (.duplicateNodeId new)
  else if !s.contains old then .error (.nodeNotFound old)
  else
    .ok ⟨updateFirst (fun e => e.id == old) (fun e => { e with id := new }) s.nodes,
      renameLinks old new s.links⟩

/-- Changes what an editor shows of a node. -/
def updateEditor (s : GraphState) (id : String) (f : EditorInfo → EditorInfo) :
    Except Error GraphState :=
  if s.contains id then .ok (s.updateNode id fun e => { e with editor := f e.editor })
  else .error (.nodeNotFound id)

/-! ### Linking -/

/-- Two pads in the order source, sink. -/
def orient (s : GraphState) (a b : PadRef) : Except Error Link :=
  match s.pad? a, s.pad? b with
  | none, _ => .error (.padNotFound a)
  | some _, none => .error (.padNotFound b)
  | some p, some q =>
    match p.padType.direction, q.padType.direction with
    | .source, .sink => .ok ⟨a, b⟩
    | .sink, .source => .ok ⟨b, a⟩
    | .source, .source => .error (.invalidConnection (.bothSources a b))
    | .sink, .sink => .error (.invalidConnection (.bothSinks a b))

/-- Refuses a link whose ends share no shape. A proxy sink carries the narrowing of the source
that feeds it now, so it is left to the resolution of the graph. -/
def checkLink (s : GraphState) (l : Link) : Except Error Unit :=
  match s.pad? l.source, s.pad? l.sink with
  | some p, some q =>
    if !q.proxy.isSome && (p.effective.intersect q.declared).isIncompatible then
      .error (.nothingInCommon l.source l.sink p.effective q.declared)
    else .ok ()
  | _, _ => .ok ()

/-- Links two pads, given in either order. A sink that is fed already changes over to the new
source. -/
def connect (s : GraphState) (a b : PadRef) : Except Error (GraphState × Link) := do
  let l ← s.orient a b
  s.checkLink l
  let linked : GraphState := { s with links := insertLink l s.links }
  let freed :=
    match s.feeder l.sink with
    | some previous => if previous = l.source then linked else linked.unresolve previous.node
    | none => linked
  .ok ((freed.unresolve l.source.node).unresolve l.sink.node, l)

/-- Links two pads without looking at their types. -/
def linkUnchecked (s : GraphState) (source sink : PadRef) : Except Error GraphState := do
  let l ← s.orient source sink
  match s.feeder l.sink with
  | some existing =>
    if existing = l.source then .ok { s with links := insertLink l s.links }
    else .error (.invalidConnection (.twoFeeders l.sink existing l.source))
  | none => .ok { s with links := insertLink l s.links }

/-- Links every pair of pads in a list. -/
def linkAll (s : GraphState) : List Link → Except Error GraphState
  | [] => .ok s
  | l :: ls => do
    let s ← s.linkUnchecked l.source l.sink
    s.linkAll ls

/-- Removes the link between two pads, given in either order. -/
def disconnect (s : GraphState) (a b : PadRef) : Except Error GraphState := do
  let l ← s.orient a b
  if s.feeder l.sink = some l.source then
    let cut : GraphState := { s with links := s.links.filter fun k => k.sink != l.sink }
    .ok ((cut.unresolve l.source.node).unresolve l.sink.node)
  else .error (.invalidConnection (.notConnected l.source l.sink))

/-! ### Fresh ids -/

/-- The text with the marks of addresses replaced, and never empty. -/
def idStem (base : String) : String :=
  let stem := base.map fun c => if c == ':' || c == '/' then '_' else c
  if stem.isEmpty then "node" else stem

/-- A numbered variant of an id. -/
def numberedId (stem : String) (n : Nat) : String := stem ++ "_" ++ n.repr

/-- The first free numbered id, from `n` on. -/
def firstFree (s : GraphState) (stem : String) : Nat → Nat → String
  | 0, _ => stem
  | fuel + 1, n =>
    if s.contains (numberedId stem n) then firstFree s stem fuel (n + 1) else numberedId stem n

/-- The given id if it is free, and otherwise the first free one with a number behind it. One of
as many candidates as there are nodes, and one more, is free. -/
def uniqueId (s : GraphState) (base : String) : String :=
  let stem := idStem base
  if s.contains stem then s.firstFree stem (s.nodes.length + 1) 1 else stem

end GraphState

/-! ### Values -/

mutual

/-- Sets the value of a property pad, and of the pads it stands for. -/
def GraphState.setValue : GraphState → PadRef → Json → Except Error GraphState
  | ⟨nodes, links⟩, target, v => (setValueIn nodes target v).map (⟨·, links⟩)

/-- Sets the value of a pad of the node it addresses. -/
def setValueIn : List NodeEntry → PadRef → Json → Except Error (List NodeEntry)
  | [], target, _ => .error (.nodeNotFound target.node)
  | e :: rest, target, v =>
    if e.id == target.node then (e.setValue target v).map (· :: rest)
    else (setValueIn rest target v).map (e :: ·)

/-- Sets the value of a pad of this node. -/
def NodeEntry.setValue : NodeEntry → PadRef → Json → Except Error NodeEntry
  | ⟨id, nodeType, editor, pads, _, body⟩, target, v =>
    match findPad target.pad pads with
    | none => .error (.padNotFound target)
    | some p =>
      if !p.isProperty then .error (.notAPropertyPad target)
      else if !p.effective.accept v then .error (.notOfType target v p.effective)
      else
        let pads := updateFirst (fun q => q.id == target.pad) (fun q => { q with value := some v })
          pads
        match p.proxy with
        | none => .ok ⟨id, nodeType, editor, pads, .unresolved, body⟩
        | some inner =>
          (body.setValue inner v).map fun body => ⟨id, nodeType, editor, pads, .unresolved, body⟩

/-- Sets the value of a pad of the graph inside a node. -/
def Body.setValue : Body → PadRef → Json → Except Error Body
  | .plugin t, _, _ => .ok (.plugin t)
  | .subgraph id inner, target, v => (inner.setValue target v).map (.subgraph id ·)

end

/-! ### Depth -/

mutual

/-- How deep subgraphs nest in a graph. -/
def GraphState.depth : GraphState → Nat
  | ⟨nodes, _⟩ => depthOfNodes nodes

/-- The greatest depth of the nodes. -/
def depthOfNodes : List NodeEntry → Nat
  | [] => 0
  | e :: rest => max e.depth (depthOfNodes rest)

/-- How deep subgraphs nest in a node. -/
def NodeEntry.depth : NodeEntry → Nat
  | ⟨_, _, _, _, _, body⟩ => body.depth

/-- How deep subgraphs nest in a body. -/
def Body.depth : Body → Nat
  | .plugin _ => 0
  | .subgraph _ inner => inner.depth + 1

end

end Patchbay
