import Patchbay.Node.Basic
import Patchbay.Json.Field
import Patchbay.Json.Outline

/-!
# Metadata and notes as JSON

What an editor shows of a node: the captions of its type, and the notes on its present pads.
-/

namespace Patchbay

namespace Metadata

/-- Metadata as JSON; an absent second line is left out. -/
def toJson (m : Metadata) : Json :=
  .obj (("primary", .str m.primary) :: Json.presentField "secondary" .str m.secondary
    ++ [("tags", .ofStrings m.tags)])

/-- The parts of metadata. -/
def outline : Json.Outline := .ofNames ["primary", "secondary", "tags"]

/-- Reads metadata. -/
def ofJson? (v : Json) : Option Metadata := do
  let v ← v.record? outline.names
  let primary ← v.field "primary" Json.str?
  let secondary ← v.optionalField "secondary" Json.str?
  let tags ← v.fieldWithDefault "tags" Json.strings? []
  some ⟨primary, secondary, tags⟩

end Metadata

/-- The name of a level. -/
def NoteLevel.name : NoteLevel → String
  | .info => "info"
  | .warning => "warning"
  | .error => "error"

/-- The level of a name. -/
def NoteLevel.ofName? : String → Option NoteLevel
  | "info" => some .info
  | "warning" => some .warning
  | "error" => some .error
  | _ => none

/-- Reads a level. -/
def NoteLevel.ofJson? (place : Json.Place) (v : Json) : Option NoteLevel :=
  (v.name? place).bind ofName?

namespace Note

/-- The fields of a note; an absent pad is left out. -/
def fields (n : Note) : List (String × Json) :=
  ("level", .str n.level.name) :: ("message", .str n.message)
    :: Json.presentField "pad" .str n.pad

/-- A note as JSON. -/
def toJson (n : Note) : Json := .obj n.fields

/-- Reads a note. -/
def ofJson? (place : Json.Place) (v : Json) : Option Note := do
  let v ← v.record? ["level", "message", "pad"]
  let level ← v.field "level" (NoteLevel.ofJson? place)
  let message ← v.field "message" Json.str?
  let pad ← v.optionalField "pad" Json.str?
  some ⟨level, message, pad⟩

end Note

end Patchbay
