import Patchbay.Constraint.Basic
import Patchbay.Json.Printer

/-!
# Text of constraints

`Constraints.describe` is what messages show of a list. `Constraint.rendered` spells a
constraint out with every parameter; it is never shown, and decides the order of constraints
of one kind.
-/

namespace Patchbay

/-- Texts between separators. -/
def joinWith (separator : String) : List String → String
  | [] => ""
  | [s] => s
  | s :: rest => s ++ separator ++ joinWith separator rest

/-! ### Renderings -/

/-- The rendering of an optional part. -/
def renderedOption : Option String → String
  | none => "None"
  | some s => "Some(" ++ s ++ ")"

/-- The rendering of a list of parts. -/
def renderedList (parts : List String) : String := "[" ++ joinWith ", " parts ++ "]"

namespace Json

mutual

/-- A value with the form of every part spelled out. -/
def rendered : Json → String
  | .null => "Null"
  | .bool b => "Bool(" ++ (if b then "true" else "false") ++ ")"
  | .int n => "Number(" ++ toString n ++ ")"
  | .double d => "Number(" ++ d.render .json ++ ")"
  | .str s => "String(" ++ Quoted.rendered s ++ ")"
  | .arr items => "Array [" ++ joinWith ", " (renderedItems items) ++ "]"
  | .obj fields => "Object \x7b" ++ joinWith ", " (renderedFields fields) ++ "\x7d"

/-- The renderings of items. -/
def renderedItems : List Json → List String
  | [] => []
  | a :: as => a.rendered :: renderedItems as

/-- The renderings of fields. -/
def renderedFields : List (String × Json) → List String
  | [] => []
  | (k, a) :: as => (Quoted.rendered k ++ ": " ++ a.rendered) :: renderedFields as

end

end Json

namespace Constraint

/-- A kind with its named parameters. -/
def renderedWith (name : String) (parameters : List (String × String)) : String :=
  name ++ " \x7b " ++ joinWith ", " (parameters.map fun p => p.1 ++ ": " ++ p.2) ++ " \x7d"

mutual

/-- A constraint with every parameter spelled out. -/
def rendered : Constraint → String
  | .integer lo hi =>
    renderedWith "Integer" [
      ("minimum", renderedOption (lo.map fun n => toString n.toInt)),
      ("maximum", renderedOption (hi.map fun n => toString n.toInt))]
  | .float lo hi =>
    renderedWith "Float" [
      ("minimum", renderedOption (lo.map (Double.render .rendering))),
      ("maximum", renderedOption (hi.map (Double.render .rendering)))]
  | .enumeration options =>
    renderedWith "Enum" [("options", renderedList (options.map Quoted.rendered))]
  | .object s =>
    renderedWith "Object" [("object_schema", renderedOption (s.map Json.rendered))]
  | .list none => renderedWith "List" [("item_type_constraints", "None")]
  | .list (some cs) =>
    renderedWith "List" [
      ("item_type_constraints", renderedOption (some (renderedList (renderedAll cs))))]
  | .nodeReference types =>
    renderedWith "NodeReference" [("node_types", renderedList (types.map Quoted.rendered))]
  | c => c.kind.name

/-- The renderings of a list. -/
def renderedAll : List Constraint → List String
  | [] => []
  | c :: cs => c.rendered :: renderedAll cs

end

/-! ### Descriptions -/

/-- An open bound is a star. -/
def describeBound : Option String → String
  | none => "*"
  | some s => s

mutual

/-- What messages show of a shape. -/
def describe : Constraint → String
  | .integer lo hi =>
    "Integer[" ++ describeBound (lo.map fun n => toString n.toInt) ++ ", "
      ++ describeBound (hi.map fun n => toString n.toInt) ++ "]"
  | .float lo hi =>
    "Float[" ++ describeBound (lo.map (Double.render .plain)) ++ ", "
      ++ describeBound (hi.map (Double.render .plain)) ++ "]"
  | .enumeration options => "Enum[" ++ joinWith ", " options ++ "]"
  | .list none => "List<Any>"
  | .list (some []) => "List<Nothing>"
  | .list (some cs) => "List<" ++ joinWith " | " (describeAll cs) ++ ">"
  | .nodeReference [] => "NodeReference"
  | .nodeReference types => "NodeReference[" ++ joinWith ", " types ++ "]"
  | c => c.kind.name

/-- The descriptions of a list. -/
def describeAll : List Constraint → List String
  | [] => []
  | c :: cs => c.describe :: describeAll cs

end

end Constraint

namespace Constraints

/-- What messages show of a list of shapes. -/
def describe : Constraints → String
  | none => "Any"
  | some [] => "Nothing"
  | some cs => joinWith " | " (Constraint.describeAll cs)

end Constraints

end Patchbay
