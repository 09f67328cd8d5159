import Patchbay.Config
import Patchbay.Node.Basic
import Patchbay.Run.Event

/-!
# Lifecycles

Who is running, who failed, and what was reported of it. The task of a node ends at some moment,
and a supervisor takes note of it afterwards. When a run is asked to stop, or when a node failed
and the policy says so, the supervisor cuts all remaining tasks off. After the last task ended it
reports that the graph stopped.
-/

namespace Patchbay

/-- How the task of a node ended. -/
inductive Ending where
  | finished
  | failed (message : String)
deriving DecidableEq, Repr

/-- The lifecycle of the nodes of a run. -/
structure Lifecycle where
  /-- The id of the run. -/
  run : String
  policy : ErrorPolicy
  /-- The nodes with their states, in the order in which they were started. -/
  states : List (String × NodeState)
  /-- The nodes whose tasks have not ended. -/
  active : List String
  /-- The endings that the supervisor has not noted yet, oldest first. -/
  unnoted : List (String × Ending) := []
  /-- The messages of the nodes that failed. -/
  failures : List (String × String) := []
  stopRequested : Bool := false
  /-- Whether the run is over. -/
  isOver : Bool := false
  /-- What was reported, in order. -/
  events : List GraphEvent
deriving Repr

namespace Lifecycle

/-- A run in which all nodes have just been started. -/
def start (run : String) (policy : ErrorPolicy) (nodes : List String) : Lifecycle where
  run := run
  policy := policy
  states := nodes.map (·, .running)
  active := nodes
  events := nodes.map (.nodeStarted run)

/-- The state of a node. -/
def state? (l : Lifecycle) (node : String) : Option NodeState := l.states.lookup node

/-- The message of a node that failed. -/
def failure? (l : Lifecycle) (node : String) : Option String := l.failures.lookup node

/-- The task of a node ends; a task ends only once. -/
def taskEnded (l : Lifecycle) (node : String) (ending : Ending) : Lifecycle :=
  if l.active.contains node then
    { l with
      active := l.active.filter (· != node)
      unnoted := l.unnoted ++ [(node, ending)] }
  else l

/-- Asks for an end of the run. -/
def requestStop (l : Lifecycle) : Lifecycle := { l with stopRequested := true }

/-- Marks a node as stopped. -/
def markStopped (l : Lifecycle) (node : String) : Lifecycle :=
  { l with states := l.states.map fun p => if p.1 == node then (p.1, .stopped) else p }

/-- Reports an event. -/
def report (l : Lifecycle) (e : GraphEvent) : Lifecycle := { l with events := l.events ++ [e] }

/-- Takes note of one ending. -/
def note (l : Lifecycle) (node : String) : Ending → Lifecycle
  | .finished => (l.markStopped node).report (.nodeStopped l.run node)
  | .failed message =>
    { (l.markStopped node).report (.nodeFailed l.run node message) with
      failures := l.failures ++ [(node, message)] }

/-- Takes note of all endings. -/
def noteAll (l : Lifecycle) : Lifecycle :=
  l.unnoted.foldl (fun l p => l.note p.1 p.2) { l with unnoted := [] }

/-- Whether an ending is a failure. -/
def Ending.isFailure : Ending → Bool
  | .finished => false
  | .failed _ => true

/-- Whether the remaining tasks have to be cut off. -/
def mustAbort (l : Lifecycle) : Bool :=
  l.stopRequested || (l.policy == .abortGraph && l.unnoted.any fun p => Ending.isFailure p.2)

/-- Ends the run: whoever still counts as running was cut off. -/
def conclude (l : Lifecycle) : Lifecycle :=
  let cut := (l.states.filter fun p => p.2 == .running).map (·.1)
  let l := cut.foldl (fun l node => (l.markStopped node).report (.nodeStopped l.run node)) l
  { l.report (.graphStopped l.run) with isOver := true }

/-- What the supervisor does when it looks: it notes the endings, cuts the remaining tasks off if
it must, and concludes the run if no task is left. The result lists the nodes that were cut off. -/
def supervise (l : Lifecycle) : Lifecycle × List String :=
  if l.isOver then (l, [])
  else
    let cut := if l.mustAbort then l.active else []
    let l := { l.noteAll with active := if l.mustAbort then [] else l.active }
    (if l.active.isEmpty then l.conclude else l, cut)

end Lifecycle

end Patchbay
