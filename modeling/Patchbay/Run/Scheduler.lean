import Patchbay.Run.Task

/-!
# Scheduling

Processes take turns. The one that stands first goes on until it has to wait; then it is the turn
of the next. `Run.settle` lets them go on until nobody can. Time moves on from one moment at which
somebody wakes up to the next (`Run.advance`), and at each moment everything settles.
-/

namespace Patchbay.Run

/-! ### Turns -/

/-- Lets the supervisor look; the tasks that it cuts off are taken away. -/
def superviseStep (r : Run) : Run :=
  let (lifecycle, cut) := r.lifecycle.supervise
  cut.foldl release { r with lifecycle := lifecycle }

/-- Lets a watch look at the clock. -/
def watchStep (r : Run) (context : Nat) : Run :=
  let (forest, next) := Watch.look ⟨context, r.now⟩ r.wiring.forest r.now
  let r := r.mapForest fun _ => forest
  match next with
  | some w => r.sleep (.watch context) w.wakeAt
  | none => r

/-- Lets the server take all messages that have arrived. -/
def serverStep (r : Run) : Run :=
  match r.transport, r.plane with
  | some t, some d =>
    if d.isServing then
      let (mine, others) := t.subscriptions.partition fun s => s.name == DataPlane.subscriber
      let arrived := mine.flatMap (·.inbox)
      let mine := mine.map fun s => { s with inbox := [] }
      let known := d.requests.length
      let d := arrived.foldl DataPlane.receive d
      let new := (List.range (d.requests.length - known)).map fun i => Pid.request (known + i)
      { r with
          transport := some { t with subscriptions := others ++ mine }
          plane := some d }.wakeAll new
    else r
  | _, _ => r

/-- Sets the phase of a request. -/
def setPhase (r : Run) (number : Nat) (phase : RequestPhase) : Run :=
  { r with plane := r.plane.map (·.setPhase number phase) }

/-- Answers a request. -/
def answer (r : Run) (d : DataPlane) (number : Nat) (sender : String) (a : DataResponse) : Run :=
  (r.setPhase number .over).transmit (d.reply sender a)

/-- Answers a push whose context is finished. -/
def answerPush (r : Run) (d : DataPlane) (number : Nat) (q : PendingRequest) (context : Nat) :
    Run :=
  match r.wiring.forest.outcome context with
  | some outcome => r.answer d number q.sender (DataPlane.finished q.request.id outcome)
  | none => r

/-- Lets a request that was acknowledged begin: its answer is known then, or a value was pushed, or
it is dropped. -/
def beginRequest (r : Run) (d : DataPlane) (number : Nat) (q : PendingRequest) : Run × Bool :=
  match d.begin r.wiring r.now q with
  | (wiring, .answered a) => ({ r with wiring := wiring }.setPhase number (.answered a), true)
  | (wiring, .pushed context taken) =>
    let r := ({ r with wiring := wiring }.wake (.watch context)).wakeListeners taken
    (r.setPhase number (.pushed context), true)
  | (wiring, .dropped) => ({ r with wiring := wiring }.setPhase number .over, false)

/-- Lets a request go on: it is acknowledged, or begun with, or answered. -/
def requestStep (r : Run) (number : Nat) : Run × Bool :=
  match r.plane with
  | none => (r, false)
  | some d =>
    match d.requests[number]? with
    | none => (r, false)
    | some q =>
      match q.phase with
      | .received =>
        ((r.setPhase number .acknowledged).transmit (d.reply q.sender (.ack q.request.id)), true)
      | .acknowledged => r.beginRequest d number q
      | .answered a => (r.answer d number q.sender a, false)
      | .pushed context => (r.answerPush d number q context, false)
      | .over => (r, false)

/-- The requests whose pushes are done but not answered. -/
def answerable (r : Run) : List Pid :=
  match r.plane with
  | none => []
  | some d =>
    (d.requests.zipIdx).filterMap fun (q, number) =>
      match q.phase with
      | .pushed context =>
        if (r.wiring.forest.outcome context).isSome then some (.request number) else none
      | _ => none

/-- Lets a process go on; the result tells whether it can do so again at once. -/
def turn (r : Run) : Pid → Run × Bool
  | .node id =>
    match r.node? id with
    | some p => r.nodeStep p
    | none => (r, false)
  | .reader node slot =>
    match r.node? node with
    | some p => r.readerStep p slot
    | none => (r, false)
  | .drain node sink =>
    if (r.node? node).any (·.drained.contains sink) then
      ({ r with wiring := r.wiring.drain ⟨node, sink⟩ }, false)
    else (r, false)
  | .supervisor => (r.superviseStep, false)
  | .watch context => (r.watchStep context, false)
  | .server => (r.serverStep, false)
  | .request number => r.requestStep number

/-- Lets processes go on until nobody can, for at most so many turns: where links form a cycle, an
item can travel for ever. -/
def settleWithin : Nat → Run → Run
  | 0, r => r
  | turns + 1, r =>
    match r.ready with
    | [] => r
    | p :: _ =>
      let (r, again) := r.turn p
      let r := if again then r else { r with ready := r.ready.tail }
      settleWithin turns (r.wakeAll r.answerable)

/-- How many turns are taken at one moment at most. -/
def mostTurns : Nat := 200000

/-- Lets processes go on until nobody can. -/
def settle (r : Run) : Run := settleWithin mostTurns r

/-! ### Time -/

/-- Wakes everybody up whose time has come. -/
def wakeDue (r : Run) : Run :=
  let (due, others) := r.sleepers.partition fun s => s.1 ≤ r.now
  let r : Run := { r with sleepers := others }
  r.wakeAll (due.map (·.2))

/-- The next moment up to a last one at which somebody wakes up. -/
def nextMoment (r : Run) (last : Nat) : Option Nat :=
  ((r.sleepers.map (·.1)).filter (· ≤ last)).min?

/-- Moves the clock from moment to moment until the last one, or until something holds; there are
at most so many moments. -/
def runUntil (stop : Run → Bool) (last : Nat) : Nat → Run → Run
  | 0, r => r
  | moments + 1, r =>
    if stop r then r
    else
      match r.nextMoment last with
      | some moment => runUntil stop last moments { r with now := max r.now moment }.wakeDue.settle
      | none => { r with now := max r.now last }

/-- Moves the clock on by some milliseconds. -/
def advance (r : Run) (ms : Nat) : Run :=
  runUntil (fun _ => false) (r.now + ms) (ms + 1) r

end Patchbay.Run
