import Patchbay.Json.Basic

/-!
# Outlines

Whoever reads a record from text asks for the fields it knows, and for no others. An outline says
beforehand which parts of a text will be asked for; the reader passes over the rest.
-/

namespace Patchbay.Json

/-- The parts of a value that are asked for. -/
inductive Outline where
  /-- All of it. -/
  | whole
  /-- The same of every item of a list. -/
  | each (item : Outline)
  /-- The named fields of a record, in the order in which a list gives their values. -/
  | record (fields : List (String × Outline))

instance : Inhabited Outline := ⟨.whole⟩

namespace Outline

/-- A record that is asked for fields in full. -/
def ofNames (names : List String) : Outline := .record (names.map fun name => (name, .whole))

/-- The names of the fields of a record. -/
def names : Outline → List String
  | .record fields => fields.map (·.1)
  | _ => []

/-- What is asked for under a key of an object, if anything is. -/
def field? : Outline → String → Option Outline
  | .record fields, key => lookupKey key fields
  | _, _ => some .whole

/-- What is asked for of the item of an array at an index. -/
def item : Outline → Nat → Outline
  | .whole, _ => .whole
  | .each o, _ => o
  | .record fields, i => (fields[i]?.map (·.2)).getD .whole

theorem names_ofNames (names : List String) : (ofNames names).names = names := by
  simp [ofNames, Outline.names, Function.comp_def]

end Outline

end Patchbay.Json
