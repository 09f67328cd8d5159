import Patchbay.Context.Deadline
import Patchbay.Run.DataPlane
import Patchbay.Run.Lifecycle
import Patchbay.Run.Process
import Patchbay.Service.Registry

/-!
# Runs

The state of a running graph: its wiring, the tasks of its nodes, who is to go on next, and who
sleeps until when. Time is counted in milliseconds from the start and moves only when it is told
to.
-/

namespace Patchbay

/-- A running graph. -/
structure Run where
  /-- The time in milliseconds. -/
  now : Nat := 0
  wiring : Wiring
  nodes : List NodeProcess
  lifecycle : Lifecycle
  services : Services := {}
  transport : Option LocalTransport := none
  plane : Option DataPlane := none
  /-- The processes that can go on, the next one first. -/
  ready : List Pid := []
  /-- The processes that sleep until a time, in the order in which they fell asleep. -/
  sleepers : List (Nat × Pid) := []
  /-- Whether the run still has an owner. -/
  isOwned : Bool := true

namespace Run

/-! ### Scheduling -/

/-- Lets a process go on, after those that can already. -/
def wake (r : Run) (p : Pid) : Run :=
  if r.ready.contains p then r else { r with ready := r.ready ++ [p] }

/-- Lets processes go on, one after the other. -/
def wakeAll (r : Run) (ps : List Pid) : Run := ps.foldl wake r

/-- Puts a process to sleep until a time. -/
def sleep (r : Run) (p : Pid) (time : Nat) : Run :=
  { r with sleepers := r.sleepers ++ [(time, p)] }

/-- The task of a node. -/
def node? (r : Run) (id : String) : Option NodeProcess := r.nodes.find? fun p => p.id == id

/-- Replaces the task of a node. -/
def setNode (r : Run) (p : NodeProcess) : Run :=
  { r with nodes := r.nodes.map fun q => if q.id == p.id then p else q }

/-- Sets how far the task of a node has got. -/
def setStage (r : Run) (p : NodeProcess) (stage : Stage) : Run :=
  r.setNode { p with stage := stage }

/-! ### Pads -/

/-- Lets those go on that wait for items of some sinks. -/
def wakeListeners (r : Run) (sinks : List PadRef) : Run :=
  r.wakeAll (sinks.filterMap fun sink => (r.node? sink.node).bind (·.listener? sink.pad))

/-- Sends a value out of a source. -/
def send (r : Run) (source : PadRef) (v : Json) (context : Nat) : Run :=
  let (wiring, taken) := r.wiring.push source v context
  { r with wiring := wiring }.wakeListeners taken

/-- Completes the own work of a context. -/
def complete (r : Run) (context : Nat) : Run := { r with wiring := r.wiring.complete context }

/-- Changes the contexts. -/
def mapForest (r : Run) (f : Forest → Forest) : Run :=
  { r with wiring := { r.wiring with forest := f r.wiring.forest } }

/-- Adds a root context; a watch waits for its deadline if it has one. -/
def addContext (r : Run) (originator : Option String) (timeout : Option Nat) : Run × Nat :=
  let deadline := timeout.map fun ms => (r.now + ms) * millisecond
  let (forest, context) := r.wiring.forest.addRoot originator none deadline
  let r := { r with wiring := { r.wiring with forest := forest } }
  (if timeout.isSome then r.wake (.watch context) else r, context)

/-- The value of a property pad of a node; `null` counts as unset. -/
def property? (r : Run) (node id : String) : Option Json :=
  match (r.wiring.retained.get? ⟨node, id⟩).join with
  | some .null | none => none
  | some v => some v

/-- The value of a property pad as a value of an expected type. -/
def propertyAs {α : Type} (r : Run) (node id : String) (read : Json → Except String α) :
    Except Error (Option α) :=
  match r.property? node id with
  | none => .ok none
  | some v =>
    match read v with
    | .ok a => .ok (some a)
    | .error message => .error (.invalidPadValue ⟨node, id⟩ message)

/-- The retained value of a pad. -/
def retained? (r : Run) (pad : PadRef) : Except Error (Option Json) :=
  match r.wiring.retained.get? pad with
  | some v => .ok v
  | none => .error (.notAPropertyPad pad)

/-- Replaces the retained value of a pad; nothing is pushed. -/
def setRetained (r : Run) (pad : PadRef) (v : Json) : Except Error Run :=
  match r.retained? pad with
  | .ok _ => .ok { r with wiring := r.wiring.retain pad v }
  | .error e => .error e

/-! ### Endings -/

/-- Takes the task of a node away, together with its helpers; all its sinks are closed. -/
def release (r : Run) (id : String) : Run :=
  match r.node? id with
  | none => r
  | some p =>
    let wiring := p.allSinks.foldl (fun w sink => w.close (p.pad sink)) r.wiring
    { r with wiring := wiring }.setNode { p with stage := .over, drained := [] }

/-- The task of a node ends. -/
def endNode (r : Run) (p : NodeProcess) (ending : Ending) : Run :=
  let r := r.release p.id
  { r with lifecycle := r.lifecycle.taskEnded p.id ending }.wake .supervisor

/-- The task of a node ends with an error. -/
def failNode (r : Run) (p : NodeProcess) (e : Error) : Run :=
  r.endNode p (.failed e.message)

/-- Sends a message over the transport. -/
def transmit (r : Run) (m : TransportMessage) : Run :=
  let r : Run := { r with transport := r.transport.map (·.send m) }
  if r.plane.any (·.isServing) then r.wake .server else r

end Run

end Patchbay
