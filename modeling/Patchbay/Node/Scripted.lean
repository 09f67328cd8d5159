import Patchbay.Node.Wire
import Patchbay.Constraint.Wire
import Patchbay.Pad.Wire

/-!
# Scripted node types

A node type can be written down as data: which pads it declares under which conditions, which
errors it raises, and what it does while it runs. `Script.nodeType` is the node type that
behaves as a script says.
-/

namespace Patchbay

/-- A condition on a property: it holds exactly this value. -/
structure PropertyTest where
  pad : String
  equals : Json

namespace PropertyTest

/-- Whether the condition holds; an unset property never meets it. -/
def holds (t : PropertyTest) (view : NodeView) : Bool :=
  (view.property t.pad).any (·.same t.equals)

/-- Reads a condition. The value must be given; a test for `null` never holds. -/
def ofJson? (v : Json) : Option PropertyTest := do
  let pad ← v.field "pad" Json.str?
  let equals ← v.field "equals" Json.any?
  some ⟨pad, equals⟩

end PropertyTest

/-- A kind of error, and what it says. -/
structure ScriptedError where
  kind : String
  message : String

namespace ScriptedError

/-- The error as a node raises it. -/
def raise (e : ScriptedError) (node : String) : Error :=
  match e.kind with
  | "NodeResolution" => .nodeResolution node e.message
  | "TypeConstraintViolation" => .typeConstraintViolation ⟨node, "out"⟩ ⟨node, "in"⟩ e.message
  | "InvalidPadValue" => .invalidPadValue ⟨node, "in"⟩ e.message
  | "UnknownNodeType" => .unknownNodeType e.message
  | "PadNotFound" => .padNotFound ⟨node, e.message⟩
  | "Secret" => .secret e.message
  | "Transport" => .transport e.message
  | "Cancelled" => .cancelled
  | "Compression" => .compression e.message
  | "Config" => .config e.message
  | _ => .runtime node e.message

/-- Reads an error, and the condition under which it is raised. -/
def ofJson? (v : Json) : Option (ScriptedError × Option PropertyTest) := do
  let kind ← v.field "error" Json.str?
  let message ← v.field "message" Json.str?
  let test ← v.optionalField "if_property" PropertyTest.ofJson?
  some (⟨kind, message⟩, test)

end ScriptedError

/-- A pad, or a numbered row of pads, that is declared under conditions. -/
structure ScriptedPad where
  id : String
  padType : PadType
  group : Option String
  constraints : Constraints
  /-- The pad whose neighbours set the constraints instead. -/
  fromPeer : Option String
  default : Option Json
  /-- The property that holds the number of pads in the row. -/
  count : Option String
  ifProperty : Option PropertyTest
  unlessProperty : Option PropertyTest
  ifConnected : Option String
  unlessPad : Option String

namespace ScriptedPad

/-- Whether the conditions of a pad are met. -/
def isDeclared (p : ScriptedPad) (view : NodeView) : Bool :=
  p.ifProperty.all (·.holds view) && p.unlessProperty.all (fun t => !t.holds view)
    && p.ifConnected.all view.isConnected && p.unlessPad.all (fun id => (view.pad? id).isNone)

/-- The ids of the row. -/
def ids (p : ScriptedPad) (view : NodeView) : List String :=
  match p.count with
  | none => [p.id]
  | some property =>
    let n := ((view.property property).bind Json.nat64?).getD 1
    (List.range n).map fun i => p.id ++ i.repr

/-- The pads that a view calls for. -/
def specs (p : ScriptedPad) (view : NodeView) : List PadSpec :=
  if p.isDeclared view then
    (p.ids view).map fun id =>
      { id := id
        group := p.group
        padType := p.padType
        constraints :=
          match p.fromPeer with
          | some pad => view.peerConstraints pad
          | none => p.constraints
        default := p.default }
  else []

/-- Reads a pad. -/
def ofJson? (v : Json) : Option ScriptedPad := do
  let id ← v.field "id" Json.str?
  let padType ← v.field "type" (PadType.ofJson? .plain)
  let group ← v.optionalField "group" Json.str?
  let constraints ← v.fieldWithDefault "constraints" (Constraints.ofJson? .plain) none
  let fromPeer ← v.optionalField "from_peer" Json.str?
  let default ← v.optionalField "default" Json.any?
  let count ← v.optionalField "repeat" Json.str?
  let ifProperty ← v.optionalField "if_property" PropertyTest.ofJson?
  let unlessProperty ← v.optionalField "unless_property" PropertyTest.ofJson?
  let ifConnected ← v.optionalField "if_connected" Json.str?
  let unlessPad ← v.optionalField "unless_pad" Json.str?
  some ⟨id, padType, group, constraints, fromPeer, default, count, ifProperty, unlessProperty,
    ifConnected, unlessPad⟩

end ScriptedPad

/-! ### Routines -/

/-- What a script that breaks off leaves behind. -/
def panicText (payload : Option String) (message : String) : String :=
  match payload with
  | some "number" => "unknown panic"
  | some "str" => "static text"
  | _ => message

/-- Reads a flag that is off where it is missing. -/
def Json.flag (v : Json) (key : String) : Option Bool :=
  (v.optionalField key Json.bool?).map (·.getD false)

/-- Reads a list of texts that is empty where it is missing. -/
def Json.names (v : Json) (key : String) : Option (List String) :=
  (v.optionalField key Json.strings?).map (·.getD [])

/-- Reads a relay. -/
def Relay.ofJson? (v : Json) : Option Relay := do
  let input ← v.field "from" Json.str?
  let output ← v.optionalField "to" Json.str?
  let delay ← v.optionalField "delay_ms" Json.nat64?
  let snooze ← v.optionalField "snooze" Json.double?
  let set ← v.flag "set"
  let keepOpen ← v.flag "keep_open"
  let failOn ← v.optionalField "fail_on" Json.any?
  let thenHold ← v.flag "then_hold"
  some ⟨input, output, delay, snooze, set, keepOpen, failOn, thenHold⟩

/-- Reads a report. -/
def Report.ofJson? (v : Json) : Option Report := do
  let output ← v.field "to" Json.str?
  let properties ← v.names "props"
  let integers ← v.names "ints"
  let sources ← v.names "sources"
  let sinks ← v.names "sinks"
  let stem ← v.optionalField "prefix" Json.str?
  some ⟨output, properties, integers, sources, sinks, stem⟩

/-- Reads a routine of a kind. -/
def Routine.ofKind? (v : Json) : String → Option Routine
  | "hold" => some .hold
  | "return" => some .finish
  | "fail" => (ScriptedError.ofJson? v).map fun (e, _) => .fail e.raise
  | "panic" => do
    let payload ← v.optionalField "payload" Json.str?
    let message ← v.field "message" Json.str?
    some (.panic (panicText payload message))
  | "relay" => (Relay.ofJson? v).map .relay
  | "sink_value" => do
    let input ← v.field "from" Json.str?
    let output ← v.field "to" Json.str?
    let replacement ← v.optionalField "set" Json.any?
    some (.pushRetained input output replacement)
  | "secret" => do
    let selection ← v.field "from" Json.str?
    let output ← v.field "to" Json.str?
    some (.reveal selection output)
  | "report" => (Report.ofJson? v).map .report
  | _ => none

/-- Reads a routine. -/
def Routine.ofJson? (v : Json) : Option Routine := (v.field "kind" Json.str?).bind (ofKind? v)

/-! ### Scripts -/

/-- A note that is left out while a pad is connected. -/
structure ScriptedNote where
  note : Note
  unlessConnected : Option String

/-- Reads a note. -/
def ScriptedNote.ofJson? (v : Json) : Option ScriptedNote := do
  let note ← Note.ofJson? .plain v
  let unlessConnected ← v.optionalField "unless_connected" Json.str?
  some ⟨note, unlessConnected⟩

/-- A node type as data. -/
structure Script where
  name : String
  metadata : Metadata
  description : String
  pads : List ScriptedPad
  /-- An error that keeps the node from being resolved, always or under a condition. -/
  resolveError : Option (ScriptedError × Option PropertyTest)
  routine : Routine
  notes : List ScriptedNote

namespace Script

/-- The pads that a script declares for a view. -/
def resolve (s : Script) (view : NodeView) : Except Error (List PadSpec) :=
  match s.resolveError with
  | some (e, test) =>
    if test.all (·.holds view) then .error (e.raise view.node)
    else .ok (s.pads.flatMap (·.specs view))
  | none => .ok (s.pads.flatMap (·.specs view))

/-- The notes of a script for a view. -/
def notesFor (s : Script) (view : NodeView) : List Note :=
  (s.notes.filter fun n => !n.unlessConnected.any view.isConnected).map (·.note)

/-- The node type that a script describes. -/
def nodeType (s : Script) : NodeType where
  metadata := s.metadata
  description := s.description
  resolve := s.resolve
  notes := s.notesFor
  routine := s.routine

/-- Reads a script. -/
def ofJson? (v : Json) : Option Script := do
  let name ← v.field "name" Json.str?
  let metadata ← v.optionalField "metadata" Metadata.ofJson?
  let description ← v.optionalField "description" Json.str?
  let pads ← v.optionalField "pads" (Json.listOf ScriptedPad.ofJson?)
  let resolveError ← v.optionalField "resolve_error" ScriptedError.ofJson?
  let routine ← v.optionalField "run" Routine.ofJson?
  let notes ← v.optionalField "notes" (Json.listOf ScriptedNote.ofJson?)
  some ⟨name, metadata.getD ⟨name, none, []⟩, description.getD "", pads.getD [], resolveError,
    routine.getD .hold, notes.getD []⟩

end Script

end Patchbay
