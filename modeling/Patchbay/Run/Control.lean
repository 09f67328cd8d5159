import Patchbay.Graph.Flatten
import Patchbay.Run.Scheduler

/-!
# Running a graph

A graph runs as a flat copy that no edit reaches any more. Values are pushed from outside through
`Run.push`, and the run ends when it is stopped, when its owner lets go of it, or when all its
nodes have ended.

Every operation leaves the processes that it woke up ready; `Run.settle` lets them go on.
-/

namespace Patchbay.Run

/-! ### Start -/

/-- The pads of a flat graph, with the values that linked property sinks start with. -/
def wire (g : FlatGraph) (capacity : Nat) : Wiring :=
  let pads := g.nodes.flatMap fun n => n.pads.map (n.id, ·)
  let w := pads.foldl (fun w (node, p) => w.addPad node p) { capacity := capacity }
  g.links.foldl Wiring.addLink (g.links.foldl Wiring.seed w)

/-- Starts a graph under an id. Tasks need something to run on, and the settings have to be
valid. -/
def start (g : FlatGraph) (config : EngineConfig) (services : Services) (id : String)
    (hasScheduler : Bool) : Except Error Run :=
  if hasScheduler then
    config.validate.map fun _ =>
      { wiring := wire g config.sinkQueueCapacity
        nodes := g.nodes.map NodeProcess.ofFlat
        lifecycle := Lifecycle.start id config.errorPolicy (g.nodes.map (·.id))
        services := services
        ready := g.nodes.map (fun n => .node n.id) ++ [.supervisor] }
  else .error (.config "graphs must be started inside a Tokio runtime")

/-- Starts a graph and serves its data plane over a transport, on a host whose clocks show
`uptime`: a minute, if nothing else is known of them. -/
def startServed (g : FlatGraph) (config : EngineConfig) (services : Services) (id : String)
    (hasScheduler : Bool) (t : LocalTransport) (uptime : Nat := 60 * second) :
    Except Error Run :=
  (start g config (services.withTransport t.identity) id hasScheduler).map fun r =>
    { r with
        transport := some (t.subscribe DataPlane.subscriber config.dataPlaneTopic)
        plane := some
          { identity := t.identity
            topic := config.dataPlaneTopic
            timeout := config.dataPlaneTimeout
            uptime := uptime } }.wake .server

/-! ### Values from outside -/

/-- What a push from outside led to. -/
structure Pushed where
  context : Nat
  /-- How many sinks took the item. -/
  delivered : Nat

/-- Pushes a value out of a source under a new context, which may have a deadline in some
milliseconds, and may be left open. -/
def push (r : Run) (pad : PadRef) (v : Json) (timeout : Option Nat) (leaveOpen : Bool) :
    Except Error (Run × Pushed) :=
  match r.wiring.accept pad v with
  | .error e => .error e
  | .ok source =>
    let (r, context) := r.addContext none timeout
    let (wiring, taken) := r.wiring.push source v context
    let r := { r with wiring := wiring }.wakeListeners taken
    .ok (if leaveOpen then r else r.complete context, ⟨context, taken.length⟩)

/-- Cancels a context. -/
def cancel (r : Run) (context : Nat) : Run := r.mapForest (·.cancel context)

/-! ### End -/

/-- Asks all tasks to end. -/
def stop (r : Run) : Run :=
  { r with lifecycle := r.lifecycle.requestStop }.wake .supervisor

/-- Ends the service of the data plane. Requests that were taken are still answered. -/
def stopServing (r : Run) : Run :=
  { r with
      plane := r.plane.map fun d => { d with isServing := false }
      transport := r.transport.map (·.unsubscribe DataPlane.subscriber) }

/-- Lets go of the run, which stops it. -/
def letGo (r : Run) : Run :=
  if r.isOwned then { r.stop.stopServing with isOwned := false } else r

/-- How long the end of all tasks is waited for, in milliseconds. -/
def patience : Nat := 1000

/-- Waits for the end of all tasks. Whether they ended in time, unless the run has no owner any
more; if they did not, it is let go of. -/
def join (r : Run) : Run × Option Bool :=
  if r.isOwned then
    let last := r.now + patience
    let r := runUntil (·.lifecycle.isOver) (last - 1) patience r
    if r.lifecycle.isOver then ({ r.stopServing with isOwned := false }, some true)
    else ({ r with now := last }.wakeDue.letGo, some false)
  else (r, none)

/-- Stops the run and waits for the end of all tasks. -/
def shutdown (r : Run) : Run :=
  if r.isOwned then { r.stop.settle.stopServing with isOwned := false } else r

/-! ### Views -/

/-- What was reported since an earlier state of the run. -/
def eventsSince (r earlier : Run) : List GraphEvent :=
  r.lifecycle.events.drop earlier.lifecycle.events.length
    ++ r.wiring.drops.drop earlier.wiring.drops.length

/-- The outcome of a context. -/
def outcome (r : Run) (context : Nat) : Option Completion := r.wiring.forest.outcome context

/-- How many forks a context waits for. -/
def outstanding (r : Run) (context : Nat) : Nat := r.wiring.forest.outstanding context

end Patchbay.Run
