import Patchbay.Graph.Flatten
import Patchbay.Node.Basic
import Patchbay.Run.Wiring

/-!
# Processes

What is going on in a running graph: the task of each node, the helpers that read or acknowledge
sinks for it, the supervisor, the watches over deadlines, and the data plane with its requests.

Nodes that read several sinks do so through a `FanIn`: one reader for each sink forwards items into
one queue of limited room, tagged with the number of the sink.
-/

namespace Patchbay

/-- A process by what it does. -/
inductive Pid where
  /-- The task of a node. -/
  | node (id : String)
  /-- Forwards the items of one sink of a node. -/
  | reader (node : String) (slot : Nat)
  /-- Acknowledges the items of one sink of a node. -/
  | drain (node sink : String)
  | supervisor
  /-- Waits for the deadline of a context. -/
  | watch (context : Nat)
  | server
  /-- Handles a request of the data plane. -/
  | request (number : Nat)
deriving DecidableEq, Repr

/-! ### Reading several sinks -/

/-- The reader of one sink. -/
structure Reader where
  sink : PadRef
  /-- An item that has no room in the common queue yet. -/
  carried : Option Item := none
  /-- Whether room was made for the carried item. -/
  hasRoom : Bool := false

/-- The common queue of several sinks. -/
structure FanIn where
  /-- How many more items fit in. -/
  free : Nat
  /-- The items with the numbers of their sinks, oldest first. -/
  queue : List (Nat × Item) := []
  readers : List Reader
  /-- The readers that wait for room, the first one first. -/
  blocked : List Nat := []

namespace FanIn

/-- The empty queue of some sinks; there is room for four items of each. -/
def ofSinks (sinks : List PadRef) : FanIn where
  free := max sinks.length 1 * 4
  readers := sinks.map fun sink => { sink := sink }

/-- Takes the oldest item out. The room goes to the reader that has waited longest, which is the
last part of the result. -/
def take (f : FanIn) : Option ((Nat × Item) × FanIn × Option Nat) :=
  match f.queue with
  | [] => none
  | entry :: rest =>
    match f.blocked with
    | [] => some (entry, { f with queue := rest, free := f.free + 1 }, none)
    | slot :: blocked =>
      let readers := f.readers.modify slot fun r => { r with hasRoom := true }
      some (entry, { f with queue := rest, blocked := blocked, readers := readers }, some slot)

/-- Puts an item of a sink in, or has its reader carry it until there is room. The result tells
whether it went in. -/
def offer (f : FanIn) (slot : Nat) (item : Item) : FanIn × Bool :=
  match f.free with
  | free + 1 => ({ f with free := free, queue := f.queue ++ [(slot, item)] }, true)
  | 0 =>
    let readers := f.readers.modify slot fun r => { r with carried := some item }
    ({ f with readers := readers, blocked := f.blocked ++ [slot] }, false)

/-- Puts the carried item of a reader in, if room was made for it. -/
def unload (f : FanIn) (slot : Nat) : Option FanIn :=
  match f.readers[slot]? with
  | some { sink := sink, carried := some item, hasRoom := true } =>
    some { f with
      queue := f.queue ++ [(slot, item)]
      readers := f.readers.set slot { sink := sink } }
  | _ => none

end FanIn

/-! ### Nodes -/

/-- How far the task of a node has got. -/
inductive Stage where
  | fresh
  /-- It stays without doing anything. -/
  | holding
  /-- It reads one sink, item by item. -/
  | reading
  /-- It holds an item back until a time in milliseconds. -/
  | delaying (item : Item) (due : Nat)
  /-- It reads several sinks; the latest value of each is kept. -/
  | merging (fanIn : FanIn) (latest : List (Option Json))
  /-- It has ticked so many times, and will do so again at a time in milliseconds. -/
  | ticking (count due : Nat)
  | over

/-- The task of a node with the handles to its pads. -/
structure NodeProcess where
  id : String
  routine : Routine
  /-- The ids of its sources. -/
  sources : List String
  /-- The ids of its sinks that have not been taken. -/
  sinks : List String
  /-- The ids of all its sinks. -/
  allSinks : List String
  /-- The sinks whose items are only acknowledged. -/
  drained : List String := []
  stage : Stage := .fresh

namespace NodeProcess

/-- The task of a flat node before it begins. -/
def ofFlat (n : FlatNode) : NodeProcess :=
  let sinks := (n.pads.filter fun p => !p.isSource).map (·.id)
  { id := n.id
    routine := n.type.routine
    sources := (n.pads.filter (·.isSource)).map (·.id)
    sinks := sinks
    allSinks := sinks }

/-- The address of a pad of the node. -/
def pad (p : NodeProcess) (id : String) : PadRef := ⟨p.id, id⟩

/-- The address of a source. -/
def source (p : NodeProcess) (id : String) : Except Error PadRef :=
  if p.sources.contains id then .ok (p.pad id) else .error (.padNotFound (p.pad id))

/-- Takes a sink out. -/
def takeSink (p : NodeProcess) (id : String) : Except Error NodeProcess :=
  if p.sinks.contains id then .ok { p with sinks := p.sinks.filter (· != id) }
  else .error (.padNotFound (p.pad id))

/-- Whether an id stands before another: the shorter one, or the lesser one of two that are equally
long. So numbered ids stand in the order of their numbers. -/
def precedes (a b : String) : Bool :=
  decide (a.utf8ByteSize < b.utf8ByteSize)
    || (a.utf8ByteSize == b.utf8ByteSize && decide (a ≤ b))

/-- Takes all sinks out whose ids start with a text, in order. -/
def takeSinks (p : NodeProcess) (stem : String) : List String × NodeProcess :=
  (((p.sinks.filter fun id => stem.toList.isPrefixOf id.toList)).mergeSort precedes,
    { p with sinks := p.sinks.filter fun id => !stem.toList.isPrefixOf id.toList })

/-- Takes a sink out and has its items acknowledged. -/
def drainSink (p : NodeProcess) (id : String) : Except Error NodeProcess :=
  (p.takeSink id).map fun p => { p with drained := p.drained ++ [id] }

/-- Takes a list of sinks out. -/
def takeEach (p : NodeProcess) : List String → Except Error NodeProcess
  | [] => .ok p
  | id :: rest =>
    match p.takeSink id with
    | .error e => .error e
    | .ok p => p.takeEach rest

/-- The sink that the task reads item by item. -/
def input? (p : NodeProcess) : Option String :=
  match p.routine with
  | .relay r => some r.input
  | .gate input .. => some input
  | .pushRetained input .. => some input
  | _ => none

/-- The process that waits for items of a sink. -/
def listener? (p : NodeProcess) (sink : String) : Option Pid :=
  if p.drained.contains sink then some (.drain p.id sink)
  else
    match p.stage with
    | .reading => if p.input? == some sink then some (.node p.id) else none
    | .merging f _ =>
      (f.readers.findIdx? fun r => r.sink == p.pad sink).map (.reader p.id)
    | _ => none

end NodeProcess

end Patchbay
