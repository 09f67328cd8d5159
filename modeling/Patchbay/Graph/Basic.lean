import Patchbay.Graph.Subgraph
import Patchbay.Graph.Notes
import Patchbay.Graph.Flatten
import Patchbay.Snapshot.Wire
import Patchbay.History
import Patchbay.Text.Lowercase

/-!
# The editable graph

A `Graph` is a resolved state with its library, its settings and its history. Every operation
answers, and leaves a graph behind: an edit works on a copy of the state, which takes the state's
place only after it was resolved; a move through the history moves the cursor first, and moves it
back when the entry it came to cannot be restored.
-/

namespace Patchbay

/-- A graph that can be edited. -/
structure Graph where
  library : Library
  config : EngineConfig
  state : GraphState
  /-- The texts of snapshots; the current one is that of the state. -/
  history : History String

namespace Graph

/-- The empty graph, which is also the first entry of its history. -/
def new (library : Library) (config : EngineConfig) : Graph where
  library := library
  config := config
  state := .empty
  history := (History.ofDepth config.historyDepth).push GraphState.empty.toSnapshot.write

/-- The snapshot of the graph. -/
def toSnapshot (g : Graph) : GraphSnapshot := g.state.toSnapshot

/-- The notes of the graph. -/
def notes (g : Graph) : List GraphNote := g.state.notes

/-- Whether there is something to undo. -/
def canUndo (g : Graph) : Bool := g.history.canUndo

/-- Whether there is something to redo. -/
def canRedo (g : Graph) : Bool := g.history.canRedo

/-! ### Changes -/

/-- The resolved state of a snapshot. -/
def build (g : Graph) (snapshot : GraphSnapshot) : Except Error GraphState := do
  let s ← GraphState.load g.library g.config snapshot
  GraphState.reconcile g.config [] s

/-- Takes a new state and records it. -/
def commit (g : Graph) (s : GraphState) : Graph :=
  { g with state := s, history := g.history.push s.toSnapshot.write }

/-- Takes a new state if there is one, and answers with its snapshot. -/
def adopt (g : Graph) : Except Error GraphState → Except Error GraphSnapshot × Graph
  | .ok s => (.ok s.toSnapshot, g.commit s)
  | .error e => (.error e, g)

/-- Replaces the graph by a snapshot. -/
def load (g : Graph) (snapshot : GraphSnapshot) : Except Error GraphSnapshot × Graph :=
  g.adopt (g.build snapshot)

/-- Editor information in which the given parts replace the present ones. -/
def updatedEditor (given present : EditorInfo) : EditorInfo where
  name := given.name <|> present.name
  position := given.position <|> present.position
  dimensions := given.dimensions <|> present.dimensions

/-- The state that an edit makes of a state, not yet resolved. -/
def editState (g : Graph) (s : GraphState) : GraphEdit → Except Error GraphState
  | .insertNode id nodeType position name => do
    let type ← g.library.create nodeType
    let id := id.getD (s.uniqueId (Text.lowercase nodeType))
    s.addNode { NodeEntry.plugin id nodeType type with editor := ⟨name, position, none⟩ }
  | .insertSubgraph id subgraphId position name =>
    s.insertSubgraph g.library g.config id subgraphId ⟨name, position, none⟩
  | .insertInlineSubgraph id subgraphId graph inbound outbound removed position name =>
    s.insertInlineSubgraph g.library g.config id subgraphId graph inbound outbound removed
      ⟨name, position, none⟩
  | .updateNode id editor newId => do
    let s ← s.updateEditor id (updatedEditor editor)
    match newId with
    | some newId => s.renameNode id newId
    | none => .ok s
  | .removeNode id => (s.removeNode id).map (·.1)
  | .connectPad c => (s.connect c.first c.second).map (·.1)
  | .disconnectPad c => s.disconnect c.first c.second
  | .updatePad pad value => s.setValue pad value
  | .removeSubgraph id => s.dissolveSubgraph id

/-- The resolved state that an edit makes of a copy of the present one. -/
def edited (g : Graph) (edit : GraphEdit) : Except Error GraphState := do
  let s ← g.editState g.state edit
  GraphState.reconcile g.config [] s

/-- Applies an edit as a whole. -/
def apply (g : Graph) (edit : GraphEdit) : Except Error GraphSnapshot × Graph :=
  g.adopt (g.edited edit)

/-! ### History -/

/-- Takes the state that an entry of the history stands for. -/
def restore (g : Graph) (entry : String) : Except Error GraphSnapshot × Graph :=
  match GraphSnapshot.read? entry with
  | none => (.error (.serialization (Json.faultOf entry)), g)
  | some snapshot =>
    match g.build snapshot with
    | .ok s => (.ok s.toSnapshot, { g with state := s })
    | .error e => (.error e, g)

/-- Restores the entry that the history has moved to; when this fails, `repair` moves the history
once more. -/
def moveTo (g : Graph) (repair : History String → History String) :
    Option (History String × String) → Except Error (Option GraphSnapshot) × Graph
  | none => (.ok none, g)
  | some (history, entry) =>
    match { g with history := history }.restore entry with
    | (.ok snapshot, g) => (.ok (some snapshot), g)
    | (.error e, g) => (.error e, { g with history := repair g.history })

/-- Goes back to the graph before; `none` when there is none. -/
def undo (g : Graph) : Except Error (Option GraphSnapshot) × Graph :=
  g.moveTo History.forth g.history.undo?

/-- Goes forth to the graph that was undone; `none` when there is none. -/
def redo (g : Graph) : Except Error (Option GraphSnapshot) × Graph :=
  g.moveTo History.back g.history.redo?

end Graph

/-! ### Operations -/

/-- What can be asked of a graph. -/
inductive Operation where
  | edit (edit : GraphEdit)
  | load (snapshot : GraphSnapshot)
  | undo
  | redo

namespace Graph

/-- Performs an operation. The answer is the snapshot of the graph, or `none` where the history
has nothing to move to. -/
def perform (g : Graph) : Operation → Except Error (Option GraphSnapshot) × Graph
  | .edit edit =>
    let (answer, g) := g.apply edit
    (answer.map some, g)
  | .load snapshot =>
    let (answer, g) := g.load snapshot
    (answer.map some, g)
  | .undo => g.undo
  | .redo => g.redo

/-- The graph after an operation that has to succeed. -/
def attempt (g : Graph) (op : Operation) : Except Error Graph :=
  let (answer, g) := g.perform op
  answer.map fun _ => g

/-- Performs operations one after the other, whether they succeed or fail. -/
def run (g : Graph) (ops : List Operation) : Graph := ops.foldl (fun g op => (g.perform op).2) g

end Graph

end Patchbay
