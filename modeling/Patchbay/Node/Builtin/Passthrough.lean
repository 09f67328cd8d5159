import Patchbay.Node.Basic

/-!
# Passthrough, Gate and Display

A passthrough forwards items unchanged, and its output has the type of whatever feeds its input.
A gate does so while its property `open` is true. A display retains what it receives.
-/

namespace Patchbay

namespace Passthrough

/-- The sink of items. -/
def input : String := "input"

/-- The source of items. -/
def output : String := "output"

/-- The passthrough. -/
def nodeType : NodeType where
  metadata := ⟨"Passthrough", none, ["control"]⟩
  description := "Forwards items unchanged"
  resolve view := .ok [
    { id := input, padType := .statelessSink },
    { id := output, padType := .statelessSource, constraints := view.peerConstraints input }]
  routine := .relay { input := input, output := some output }

end Passthrough

namespace Gate

/-- The sink of items. -/
def input : String := "input"

/-- The property that lets items pass. -/
def control : String := "open"

/-- The source of items. -/
def output : String := "output"

/-- The gate; it starts closed. -/
def nodeType : NodeType where
  metadata := ⟨"Gate", none, ["control"]⟩
  description := "Passes items through while open"
  resolve view := .ok [
    { id := input, padType := .statelessSink },
    { id := control
      padType := .propertySink
      constraints := some [.boolean]
      default := some (.bool false) },
    { id := output, padType := .statelessSource, constraints := view.peerConstraints input }]
  routine := .gate input control output

end Gate

namespace Display

/-- The sink that retains what it receives. -/
def value : String := "value"

/-- The display; it warns while nothing feeds it. -/
def nodeType : NodeType where
  metadata := ⟨"Display", none, ["output"]⟩
  description := "Shows the latest value it received"
  resolve _ := .ok [{ id := value, padType := .propertySink }]
  notes view :=
    if view.isConnected value then []
    else [⟨.warning, "nothing to display", some value⟩]
  routine := .relay { input := value }

end Display

end Patchbay
