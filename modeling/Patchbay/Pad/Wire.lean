import Patchbay.Pad.Basic
import Patchbay.Constraint.Wire
import Patchbay.Json.Outline

/-!
# Pads as JSON

Addresses are objects of two texts. A pad type has one of four names, and reading a name gives the
type back (`PadType.ofName?_name`).
-/

namespace Patchbay

/-- An address as JSON. -/
def PadRef.toJson (p : PadRef) : Json := .obj [("node", .str p.node), ("pad", .str p.pad)]

/-- The parts of an address. -/
def PadRef.outline : Json.Outline := .ofNames ["node", "pad"]

/-- Reads an address. -/
def PadRef.ofJson? (v : Json) : Option PadRef := do
  let v ← v.record? outline.names
  let node ← v.field "node" Json.str?
  let pad ← v.field "pad" Json.str?
  some ⟨node, pad⟩

/-- The name of a pad type. -/
def PadType.name : PadType → String
  | ⟨.source, .property⟩ => "property_source"
  | ⟨.sink, .property⟩ => "property_sink"
  | ⟨.source, .stateless⟩ => "stateless_source"
  | ⟨.sink, .stateless⟩ => "stateless_sink"

/-- A pad type as JSON. -/
def PadType.toJson (t : PadType) : Json := .str t.name

/-- The pad type of a name. -/
def PadType.ofName? : String → Option PadType
  | "property_source" => some .propertySource
  | "property_sink" => some .propertySink
  | "stateless_source" => some .statelessSource
  | "stateless_sink" => some .statelessSink
  | _ => none

/-- Reads a pad type. -/
def PadType.ofJson? (place : Json.Place) (v : Json) : Option PadType :=
  (v.name? place).bind ofName?

theorem PadType.ofName?_name (t : PadType) : ofName? t.name = some t := by
  obtain ⟨d, k⟩ := t
  cases d <;> cases k <;> rfl

end Patchbay
