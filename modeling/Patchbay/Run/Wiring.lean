import Patchbay.Context.Basic
import Patchbay.Constraint.Text
import Patchbay.Error
import Patchbay.Graph.Proxy
import Patchbay.Pad.Table
import Patchbay.Run.Event

/-!
# Wiring

The pads of a running graph. Every sink has a bounded queue, every source knows the sinks it
feeds, and every property pad retains a value. Delivery never waits: an item that finds a full
queue is discarded for that sink alone, and the fork that it carried is completed.

## Main definitions

* `Wiring.push`: sends a value out of a source, to every sink it feeds.
* `Wiring.read`, `Wiring.complete`, `Wiring.close`: what the reader of a sink does.
* `Wiring.locate`: the pad that an address stands for, which may name a proxy.
* `Wiring.accept`: the check of a value that comes from outside the graph.
-/

namespace Patchbay

/-- A value that travels between pads, with the context that follows it. -/
structure Item where
  value : Json
  context : Nat

/-- The items that wait at a sink, oldest first. -/
structure SinkQueue where
  waiting : List Item := []
  /-- Whether the sink still takes items. -/
  isOpen : Bool := true

/-- A source of a running graph. -/
structure Outlet where
  kind : PadKind
  /-- The sinks it feeds, in the order of the links. -/
  sinks : List PadRef := []

/-- The pads of a running graph, and the contexts of the items in it. -/
structure Wiring where
  /-- How many items a queue holds. -/
  capacity : Nat
  forest : Forest := {}
  constraints : PadTable Constraints := []
  /-- The values of the property pads. -/
  retained : PadTable (Option Json) := []
  outlets : PadTable Outlet := []
  queues : PadTable SinkQueue := []
  /-- What was reported of discarded items, in order. -/
  drops : List GraphEvent := []

namespace Wiring

/-! ### Set-up -/

/-- Gives a property sink the value of the property source that feeds it, if the sink takes it.
A value goes further only when a node pushes it. -/
def seed (w : Wiring) (l : Link) : Wiring :=
  match w.retained.get? l.source, w.retained.has l.sink with
  | some (some v), true =>
    if (w.constraints.get? l.sink).all (·.accept v) then
      { w with retained := w.retained.modify l.sink fun _ => some v }
    else w
  | _, _ => w

/-- Adds a pad of a flat node. -/
def addPad (w : Wiring) (node : String) (p : PadState) : Wiring :=
  let here : PadRef := ⟨node, p.id⟩
  let w := { w with constraints := w.constraints ++ [(here, p.effective)] }
  let w :=
    if p.isProperty then { w with retained := w.retained ++ [(here, p.value)] } else w
  if p.isSource then { w with outlets := w.outlets ++ [(here, { kind := p.padType.kind })] }
  else { w with queues := w.queues ++ [(here, ({} : SinkQueue))] }

/-- Connects a source to a sink. -/
def addLink (w : Wiring) (l : Link) : Wiring :=
  if w.queues.has l.sink then
    { w with outlets := w.outlets.modify l.source fun o =>
        { o with sinks := o.sinks ++ [l.sink] } }
  else w

/-- Whether some source feeds a sink. The stream of such a sink never ends. -/
def isFed (w : Wiring) (sink : PadRef) : Bool := w.outlets.any fun e => e.2.sinks.contains sink

/-! ### Delivery -/

/-- Retains a value on a property pad. -/
def retain (w : Wiring) (pad : PadRef) (v : Json) : Wiring :=
  { w with retained := w.retained.modify pad fun _ => some v }

/-- Completes the own work of a context. -/
def complete (w : Wiring) (context : Nat) : Wiring :=
  { w with forest := w.forest.complete context }

/-- Completes the contexts of some items. -/
def completeAll (w : Wiring) (items : List Item) : Wiring :=
  items.foldl (fun w item => w.complete item.context) w

/-- Why an item is discarded. -/
def queueFull : String := "queue full"

/-- Reports an item that found a full queue. -/
def reportDrop (w : Wiring) (source sink : PadRef) : Wiring :=
  { w with drops := w.drops ++ [.itemDropped source.text sink.text queueFull] }

/-- Offers a value to one sink, under a fork of a context; the sink retains the value whether or
not it has room for the item. The result tells whether the item was taken. -/
def offer (w : Wiring) (source sink : PadRef) (v : Json) (context : Nat) : Wiring × Bool :=
  let w := w.retain sink v
  let (forest, fork) := w.forest.fork context
  let w := { w with forest := forest }
  match w.queues.get? sink with
  | none => (w.complete fork, false)
  | some q =>
    if !q.isOpen then (w.complete fork, false)
    else if q.waiting.length < w.capacity then
      ({ w with
          queues := w.queues.modify sink fun q =>
            { q with waiting := q.waiting ++ [⟨v, fork⟩] } },
        true)
    else ((w.complete fork).reportDrop source sink, false)

/-- Offers a value to sinks one after the other; the result lists those that took it. -/
def offerAll (w : Wiring) (source : PadRef) (v : Json) (context : Nat) :
    List PadRef → Wiring × List PadRef
  | [] => (w, [])
  | sink :: rest =>
    let (w, taken) := w.offer source sink v context
    let (w, others) := offerAll w source v context rest
    (w, if taken then sink :: others else others)

/-- The sinks that a source feeds. -/
def targets (w : Wiring) (source : PadRef) : List PadRef :=
  ((w.outlets.get? source).map (·.sinks)).getD []

/-- Sends a value out of a source; the result lists the sinks that took it. Whoever pushes still
owns the context, and completes it as usual. -/
def push (w : Wiring) (source : PadRef) (v : Json) (context : Nat) : Wiring × List PadRef :=
  (w.retain source v).offerAll source v context (w.targets source)

/-- Takes the oldest item out of a sink. -/
def read (w : Wiring) (sink : PadRef) : Option (Item × Wiring) :=
  match w.queues.get? sink with
  | some ⟨item :: rest, isOpen⟩ =>
    some (item, { w with queues := w.queues.modify sink fun _ => ⟨rest, isOpen⟩ })
  | _ => none

/-- Closes a sink. Items that nobody will read must not keep their contexts open. -/
def close (w : Wiring) (sink : PadRef) : Wiring :=
  match w.queues.get? sink with
  | none => w
  | some q =>
    { w with queues := w.queues.modify sink fun _ => ⟨[], false⟩ }.completeAll q.waiting

/-- Acknowledges every item that waits at a sink. -/
def drain (w : Wiring) (sink : PadRef) : Wiring :=
  match w.queues.get? sink with
  | none => w
  | some q =>
    { w with queues := w.queues.modify sink fun q => { q with waiting := [] } }.completeAll
      q.waiting

end Wiring

/-! ### Addresses -/

theorem splitFirst_eq_some {mark : Char} {cs a b : List Char}
    (h : splitFirst mark cs = some (a, b)) : cs = a ++ mark :: b := by
  induction cs generalizing a with
  | nil => simp [splitFirst] at h
  | cons c cs ih =>
    by_cases hc : c = mark
    · simp only [splitFirst, hc, if_true, Option.some.injEq, Prod.mk.injEq] at h
      obtain ⟨rfl, rfl⟩ := h
      simp [hc]
    · simp only [splitFirst, hc, if_false, Option.map_eq_some_iff, Prod.mk.injEq] at h
      obtain ⟨⟨a', b'⟩, h1, rfl, rfl⟩ := h
      simp [ih h1]

/-- The pad that an id addresses has a shorter id than the whole. -/
theorem length_of_parseProxyPadId {id : String} {p : PadRef} (h : parseProxyPadId id = some p) :
    p.pad.length < id.length := by
  simp only [parseProxyPadId, Option.map_eq_some_iff] at h
  obtain ⟨⟨a, b⟩, h1, rfl⟩ := h
  have h2 := splitFirst_eq_some h1
  have h3 : id.length = (a ++ ':' :: b).length := by rw [← h2, String.length_toList]
  simp only [List.length_append, List.length_cons] at h3
  simp only [String.length_ofList]
  omega

/-- The pad that an address stands for: the first of the address itself and the addresses that it
becomes when the id of the pad is split, again and again, at its first colon. -/
def locatePad (known : PadRef → Bool) (p : PadRef) : Option PadRef :=
  if known p then some p
  else
    match _h : parseProxyPadId p.pad with
    | none => none
    | some inner => locatePad known ⟨p.node ++ "/" ++ inner.node, inner.pad⟩
termination_by p.pad.length
decreasing_by exact length_of_parseProxyPadId _h

namespace Wiring

/-- The pad of the running graph that an address stands for. -/
def locate (w : Wiring) (p : PadRef) : Except Error PadRef :=
  match locatePad w.constraints.has p with
  | some q => .ok q
  | none => .error (.padNotFound p)

/-- The source that a value from outside may be pushed out of. -/
def accept (w : Wiring) (p : PadRef) (v : Json) : Except Error PadRef :=
  match w.locate p with
  | .error e => .error e
  | .ok q =>
    if w.outlets.has q then
      match w.constraints.get? q with
      | some cs => if cs.accept v then .ok q else .error (.notOfType q v cs)
      | none => .ok q
    else .error (.invalidConnection (.notASource q))

/-- The retained value that an address stands for. -/
def getValue (w : Wiring) (p : PadRef) : Except Error (Option Json) :=
  match w.locate p with
  | .error e => .error e
  | .ok q =>
    match w.retained.get? q with
    | some v => .ok v
    | none => .error (.notAPropertyPad q)

end Wiring

end Patchbay
