import Patchbay.Json.Expected
import Patchbay.Node.Builtin.Compare
import Patchbay.Node.Builtin.Join
import Patchbay.Node.Builtin.Ticker
import Patchbay.Run.Basic

/-!
# Tasks of nodes

How the task of a node carries its routine out. A task goes on until it has to wait; each step
here does one thing, and its result tells whether the task can go on at once.

When a task fails, the item it works on keeps its context open.
-/

namespace Patchbay.Run

/-! ### One item of one sink -/

/-- Passes an item of a relay on and completes it. -/
def deliver (r : Run) (p : NodeProcess) (relay : Relay) (item : Item) : Except Error Run :=
  let passed : Except Error Run :=
    match relay.output with
    | none => .ok r
    | some output =>
      if relay.set then r.setRetained (p.pad output) item.value
      else .ok (r.send (p.pad output) item.value item.context)
  passed.map fun r => if relay.keepOpen then r else r.complete item.context

/-- Puts the deadlines of an item off, if the relay does that. -/
def snoozeItem (r : Run) (relay : Relay) (item : Item) : Run :=
  match relay.snooze.bind fun s => (Span.seconds s).nanoseconds? with
  | none => r
  | some extension => r.mapForest (·.snooze (r.now * millisecond) item.context extension)

/-- The error of a relay that meets the value it fails on. -/
def refused (node : String) (v : Json) : Error := .runtime node ("refused " ++ v.compact)

/-- Handles an item of a relay. -/
def relayItem (r : Run) (p : NodeProcess) (relay : Relay) (item : Item) :
    Except Error (Run × Bool) :=
  if relay.failOn.any (·.same item.value) then .error (refused p.id item.value)
  else
    let r := r.snoozeItem relay item
    match relay.delay with
    | some (d + 1) =>
      let due := r.now + (d + 1)
      .ok ((r.setStage p (.delaying item due)).sleep (.node p.id) due, false)
    | _ => (r.deliver p relay item).map (·, true)

/-- Handles an item of a gate. -/
def gateItem (r : Run) (p : NodeProcess) (control output : String) (item : Item) :
    Except Error (Run × Bool) :=
  match r.propertyAs p.id control Json.asBool with
  | .error e => .error e
  | .ok isOpen =>
    let r := if isOpen.getD false then r.send (p.pad output) item.value item.context else r
    .ok (r.complete item.context, true)

/-- Pushes the value that a sink retains, for an item of that sink. -/
def retainedItem (r : Run) (p : NodeProcess) (input output : String) (replacement : Option Json)
    (item : Item) : Except Error (Run × Bool) :=
  let replaced : Except Error Run :=
    match replacement with
    | none => .ok r
    | some v => r.setRetained (p.pad input) v
  match replaced with
  | .error e => .error e
  | .ok r =>
    match r.retained? (p.pad input) with
    | .error e => .error e
    | .ok v =>
      .ok ((r.send (p.pad output) (v.getD .null) item.context).complete item.context, true)

/-- Handles an item of a task that reads one sink. -/
def handleItem (r : Run) (p : NodeProcess) (item : Item) : Except Error (Run × Bool) :=
  match p.routine with
  | .relay relay => r.relayItem p relay item
  | .gate _ control output => r.gateItem p control output item
  | .pushRetained input output replacement => r.retainedItem p input output replacement item
  | _ => .ok (r, true)

/-- Whether a relay completes the item that makes it fail. -/
def completesRefused (p : NodeProcess) (item : Item) : Bool :=
  match p.routine with
  | .relay relay => relay.failOn.any (·.same item.value)
  | _ => false

/-- What the end of the stream does to a task that reads one sink. -/
def endOfStream (r : Run) (p : NodeProcess) : Run :=
  match p.routine with
  | .relay relay => if relay.thenHold then r.setStage p .holding else r.endNode p .finished
  | _ => r.endNode p .finished

/-- Reads the next item of the one sink of a task. -/
def readNext (r : Run) (p : NodeProcess) (input : String) : Run × Bool :=
  match r.wiring.read (p.pad input) with
  | none => if r.wiring.isFed (p.pad input) then (r, false) else (r.endOfStream p, false)
  | some (item, wiring) =>
    let r := { r with wiring := wiring }
    match r.handleItem p item with
    | .ok next => next
    | .error e =>
      let r := if completesRefused p item then r.complete item.context else r
      (r.failNode p e, false)

/-- Passes an item on that was held back. -/
def endDelay (r : Run) (p : NodeProcess) (item : Item) : Run × Bool :=
  match p.routine with
  | .relay relay =>
    match r.deliver p relay item with
    | .ok r => (r.setStage p .reading, true)
    | .error e => (r.failNode p e, false)
  | _ => (r.setStage p .reading, true)

/-! ### One item of several sinks -/

/-- Handles an item of a join. -/
def joinItem (r : Run) (p : NodeProcess) (separator output : String)
    (latest : List (Option Json)) (item : Item) : Except Error Run :=
  match r.propertyAs p.id separator Json.asText with
  | .error e => .error e
  | .ok s =>
    let text := Join.joined (s.getD Join.usualSeparator) (latest.map (·.map Join.text))
    .ok ((r.send (p.pad output) (.str text) item.context).complete item.context)

/-- The outcome of a comparison of the latest values, where there are two and the operator fits. -/
def comparison (r : Run) (p : NodeProcess) (operator : String) :
    List (Option Json) → Option Bool
  | [some a, some b] =>
    match (r.property? p.id operator).bind Json.str? with
    | some name => Compare.evaluate name a b
    | none => none
  | _ => none

/-- Handles an item of a compare. -/
def compareItem (r : Run) (p : NodeProcess) (operator output : String)
    (latest : List (Option Json)) (item : Item) : Run :=
  let r :=
    match r.comparison p operator latest with
    | some outcome => r.send (p.pad output) (.bool outcome) item.context
    | none => r
  r.complete item.context

/-- Handles an item of a task that reads several sinks. -/
def mergedItem (r : Run) (p : NodeProcess) (latest : List (Option Json)) (item : Item) :
    Except Error Run :=
  match p.routine with
  | .join _ _ separator output => r.joinItem p separator output latest item
  | .compare _ _ operator output => .ok (r.compareItem p operator output latest item)
  | _ => .ok r

/-- Takes the next item out of the common queue. The task is over when no sink is fed. -/
def mergeNext (r : Run) (p : NodeProcess) (f : FanIn) (latest : List (Option Json)) :
    Run × Bool :=
  match f.take with
  | none =>
    if f.readers.any fun reader => r.wiring.isFed reader.sink then (r, false)
    else (r.endNode p .finished, false)
  | some ((slot, item), f, unblocked) =>
    let latest := latest.set slot (some item.value)
    let r := r.setStage p (.merging f latest)
    let r := r.wakeAll (unblocked.toList.map (.reader p.id))
    match r.mergedItem p latest item with
    | .ok r => (r, true)
    | .error e => (r.failNode p e, false)

/-- Lets a reader put its carried item into the common queue, or read the next one. -/
def readerStep (r : Run) (p : NodeProcess) (slot : Nat) : Run × Bool :=
  match p.stage with
  | .merging f latest =>
    match f.unload slot with
    | some f => ((r.setStage p (.merging f latest)).wake (.node p.id), true)
    | none =>
      match f.readers[slot]? with
      | some { sink := sink, carried := none, hasRoom := _ } =>
        match r.wiring.read sink with
        | none => (r, false)
        | some (item, wiring) =>
          let (f, went) := f.offer slot item
          let r := { r with wiring := wiring }.setStage p (.merging f latest)
          (if went then r.wake (.node p.id) else r, went)
      | _ => (r, false)
  | _ => (r, false)

/-! ### Ticks -/

/-- The interval of a ticker in milliseconds. -/
def tickInterval (r : Run) (p : NodeProcess) (interval : String) : Nat :=
  let ms := ((r.property? p.id interval).bind Json.int64?).getD Ticker.usual
  (max ms Ticker.shortest).toInt.toNat

/-- Has a ticker sleep until its next tick. -/
def awaitTick (r : Run) (p : NodeProcess) (interval : String) (count : Nat) : Run :=
  let due := r.now + r.tickInterval p interval
  (r.setStage p (.ticking count due)).sleep (.node p.id) due

/-- Pushes the next count of a ticker, under a context of its own. -/
def tick (r : Run) (p : NodeProcess) (count : Nat) : Run :=
  match p.routine with
  | .tick interval output =>
    let (r, context) := r.addContext (some p.id) none
    let r := (r.send (p.pad output) (.int ((count + 1 : Nat) : Int)) context).complete context
    r.awaitTick p interval (count + 1)
  | _ => r

/-! ### Reports and secrets -/

/-- A value or the message of an error, as a report shows it. -/
def shown {α : Type} (encode : α → Json) : Except Error α → Json
  | .ok a => encode a
  | .error e => .object [("error", .str e.message)]

/-- A retained value, as a report shows it. -/
def shownValue (v : Option Json) : Json := v.getD .null

/-- The report on a property: its value and that of its cell. -/
def reportProperty (r : Run) (p : NodeProcess) (id : String) : String × Json :=
  ("prop " ++ id,
    .arr [(r.property? p.id id).getD .null,
      (r.wiring.retained.get? (p.pad id)).join.getD .null])

/-- The report on a property as a whole number. -/
def reportInteger (r : Run) (p : NodeProcess) (id : String) : String × Json :=
  ("int " ++ id,
    shown (Json.ofOption fun n : Int64 => .int n.toInt) (r.propertyAs p.id id Json.asInt64))

/-- The name of a kind of pads. -/
def kindName : PadKind → String
  | .stateless => "Stateless"
  | .property => "Property"

/-- The report on a source. -/
def reportSource (r : Run) (p : NodeProcess) (id : String) : String × Json :=
  ("source " ++ id,
    shown (fun pad =>
      let sinks := r.wiring.targets pad
      .object [
        ("pad", .str pad.text),
        ("kind", .str (((r.wiring.outlets.get? pad).map fun o => kindName o.kind).getD "")),
        ("connected", .bool (!sinks.isEmpty)),
        ("count", .int sinks.length),
        ("value", shown shownValue (r.retained? pad))])
      (p.source id))

/-- Takes sinks out one after the other and reports on each; a sink taken this way is closed. -/
def reportSinks (r : Run) (p : NodeProcess) :
    List String → List (String × Json) × Run × NodeProcess
  | [] => ([], r, p)
  | id :: rest =>
    match p.takeSink id with
    | .error e =>
      let (entries, r, p) := reportSinks r p rest
      (("sink " ++ id, shown shownValue (.error e)) :: entries, r, p)
    | .ok p =>
      let entry := ("sink " ++ id, shown shownValue (r.retained? (p.pad id)))
      let r := { r with wiring := r.wiring.close (p.pad id) }
      let (entries, r, p) := reportSinks r p rest
      (entry :: entries, r, p)

/-- Builds a report. -/
def report (r : Run) (p : NodeProcess) (what : Report) : Json × Run × NodeProcess :=
  let entries :=
    ("node_id", .str p.id) :: what.properties.map (r.reportProperty p)
      ++ what.integers.map (r.reportInteger p) ++ what.sources.map (r.reportSource p)
  let (stemmed, r, p) :=
    match what.stem with
    | none => ([], r, p)
    | some stem =>
      let (ids, p) := p.takeSinks stem
      let wiring := ids.foldl (fun w sink => Wiring.close w (p.pad sink)) r.wiring
      ([("prefix", Json.ofStrings ids)], { r with wiring := wiring }, p)
  let (sinks, r, p) := r.reportSinks p what.sinks
  (.object (entries ++ stemmed ++ sinks), r, p)

/-- The secret that a property of a node selects. -/
def selectedSecret (r : Run) (p : NodeProcess) (id : String) : Except Error String :=
  match (r.property? p.id id).bind Json.str? with
  | none => .error (.secret ("no secret selected on " ++ (p.pad id).text))
  | some secret =>
    match r.services.secrets? with
    | none => .error (.secret "no secret provider configured")
    | some secrets => secrets.resolve secret

/-! ### Beginning -/

/-- Takes the handles that a routine needs to read and push, and lists the helpers it starts. -/
def setUp (p : NodeProcess) : Except Error (NodeProcess × List Pid) :=
  match p.routine with
  | .relay relay => do
    let p ← p.takeSink relay.input
    match relay.output with
    | some output => let _ ← p.source output
    | none => pure ()
    .ok ({ p with stage := .reading }, [])
  | .gate input control output => do
    let p ← p.takeSink input
    let _ ← p.source output
    let p ← p.drainSink control
    .ok ({ p with stage := .reading }, [.drain p.id control])
  | .pushRetained input output _ => do
    let p ← p.takeSink input
    let _ ← p.source output
    .ok ({ p with stage := .reading }, [])
  | .join stem count separator output => do
    let _ ← p.source output
    let (inputs, p) := p.takeSinks stem
    let p ← p.drainSink count
    let p ← p.drainSink separator
    .ok (merging p inputs [count, separator])
  | .compare left right operator output => do
    let _ ← p.source output
    let p ← p.takeEach [left, right]
    let p ← p.drainSink operator
    .ok (merging p [left, right] [operator])
  | .tick interval output => do
    let _ ← p.source output
    let p ← p.drainSink interval
    .ok (p, [.drain p.id interval])
  | _ => .ok ({ p with stage := .holding }, [])
where
  /-- A task that reads several sinks and has others acknowledged. -/
  merging (p : NodeProcess) (inputs drained : List String) : NodeProcess × List Pid :=
    ({ p with stage := .merging (.ofSinks (inputs.map p.pad)) (inputs.map fun _ => none) },
      drained.map (.drain p.id) ++ (List.range inputs.length).map (.reader p.id))

/-- Begins with the routine of a node. -/
def begin (r : Run) (p : NodeProcess) : Run × Bool :=
  match p.routine with
  | .finish => (r.endNode p .finished, false)
  | .fail error => (r.failNode p (error p.id), false)
  | .panic message => (r.endNode p (.failed ("panicked: " ++ message)), false)
  | .reveal selection output =>
    match (do let v ← r.selectedSecret p selection
              let pad ← p.source output
              r.setRetained pad (.str v) : Except Error Run) with
    | .ok r => (r.setStage p .holding, false)
    | .error e => (r.failNode p e, false)
  | .report what =>
    let (v, r, p) := r.report p what
    match (do let pad ← p.source what.output
              r.setRetained pad v : Except Error Run) with
    | .ok r => (r.setStage p .holding, false)
    | .error e => (r.failNode p e, false)
  | routine =>
    match setUp p with
    | .error e => (r.failNode p e, false)
    | .ok (p, helpers) =>
      let r := (r.setNode p).wakeAll helpers
      match routine with
      | .tick interval _ => (r.awaitTick p interval 0, false)
      | _ => (r, true)

/-- Lets the task of a node go on. -/
def nodeStep (r : Run) (p : NodeProcess) : Run × Bool :=
  match p.stage with
  | .fresh => r.begin p
  | .holding | .over => (r, false)
  | .reading =>
    match p.input? with
    | some input => r.readNext p input
    | none => (r, false)
  | .delaying item due => if due ≤ r.now then r.endDelay p item else (r, false)
  | .merging f latest => r.mergeNext p f latest
  | .ticking count due => if due ≤ r.now then (r.tick p count, false) else (r, false)

end Patchbay.Run
