import Patchbay.Error

/-!
# What running nodes do

A `Routine` describes the work of one running node: which pads it reads, what it pushes, and
when it ends. The machine that carries routines out is in `Patchbay.Run`.
-/

namespace Patchbay

/-- Reads one sink item by item, and passes each value on or only acknowledges it. -/
structure Relay where
  /-- The sink that is read. -/
  input : String
  /-- The source that values go to. -/
  output : Option String := none
  /-- How long an item is held back, in milliseconds. -/
  delay : Option Nat := none
  /-- By how much the deadline of an item is put off, in seconds. -/
  snooze : Option Double := none
  /-- The value is retained on the source, and nothing is pushed. -/
  set : Bool := false
  /-- Items are kept instead of being completed. -/
  keepOpen : Bool := false
  /-- A value that makes the node fail. -/
  failOn : Option Json := none
  /-- At the end of the input the node stays instead of ending. -/
  thenHold : Bool := false

/-- Which of its own handles a node lists. -/
structure Report where
  /-- The property source that the report is retained on. -/
  output : String
  properties : List String := []
  integers : List String := []
  sources : List String := []
  sinks : List String := []
  /-- Sinks whose ids start with this text are taken together. -/
  stem : Option String := none

/-- The work of a running node. -/
inductive Routine where
  /-- Never ends, and leaves its sinks unread. -/
  | hold
  /-- Ends at once. -/
  | finish
  /-- Fails at once; the error may name the node. -/
  | fail (error : String → Error)
  /-- Breaks off at once. -/
  | panic (message : String)
  | relay (r : Relay)
  /-- Passes items on while the boolean property `control` is true. -/
  | gate (input control output : String)
  /-- Joins the latest text of every sink whose id starts with `stem`; the sinks `count` and
  `separator` are only acknowledged. -/
  | join (stem count separator output : String)
  /-- Compares the latest values of two sinks by the text on the property `operator`. -/
  | compare (left right operator output : String)
  /-- Pushes a count, every so many milliseconds as the property `interval` says. -/
  | tick (interval output : String)
  /-- For each item of a sink pushes the value that the sink retains, after replacing it
  where a value is given. -/
  | pushRetained (input output : String) (replacement : Option Json)
  /-- Retains the secret that a property selects on a source. -/
  | reveal (selection output : String)
  | report (r : Report)

instance : Inhabited Routine := ⟨.hold⟩

end Patchbay
