import Patchbay.Node.Basic

/-!
# Ticker

Emits a count on a fixed interval, starting at 1.
-/

namespace Patchbay.Ticker

/-- The property that sets the interval in milliseconds. -/
def interval : String := "interval_ms"

/-- The source of ticks. -/
def tick : String := "tick"

/-- The shortest interval in milliseconds. -/
def shortest : Int64 := 10

/-- The interval in milliseconds where none is set. -/
def usual : Int64 := 1000

/-- The ticker. -/
def nodeType : NodeType where
  metadata := ⟨"Ticker", none, ["input", "timing"]⟩
  description := "Emits a trigger every interval"
  resolve _ := .ok [
    { id := interval
      padType := .propertySink
      constraints := some [.integer (some shortest) none]
      default := some (.int usual.toInt) },
    { id := tick
      padType := .statelessSource
      constraints := some [.trigger] }]
  routine := .tick interval tick

end Patchbay.Ticker
