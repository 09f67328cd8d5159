import Patchbay.Constraint.Basic
import Patchbay.Json.Field

/-!
# Constraints as JSON

A constraint is an object whose field `type` names its kind, with its parameters beside it. Open
bounds and an absent schema or item list are left out; an absent list of constraints is
`null`.
-/

namespace Patchbay

namespace Constraint

/-- A bound that is left out when it is open. -/
def intBound (key : String) (n : Option Int64) : List (String × Json) :=
  Json.presentField key (fun n => .int n.toInt) n

/-- A bound that is left out when it is open. -/
def floatBound (key : String) (d : Option Double) : List (String × Json) :=
  Json.presentField key .double d

/-- The name of a kind in the field `type`. -/
def Kind.tag : Kind → String
  | .avClip => "AVClip"
  | kind => kind.name

/-- The names of all kinds. -/
def tags : List String :=
  [Kind.string, .integer, .float, .boolean, .enumeration, .audio, .video, .audioClip, .videoClip,
    .avClip, .contextMessage, .textStream, .trigger, .object, .list, .nodeReference, .secret,
    .schema].map Kind.tag

/-- An object of a kind with parameters. -/
def tagged (kind : Kind) (parameters : List (String × Json)) : Json :=
  .obj (("type", .str kind.tag) :: parameters)

mutual

/-- A constraint as JSON. -/
def toJson : Constraint → Json
  | .integer lo hi => tagged .integer (intBound "minimum" lo ++ intBound "maximum" hi)
  | .float lo hi => tagged .float (floatBound "minimum" lo ++ floatBound "maximum" hi)
  | .enumeration options => tagged .enumeration [("options", .ofStrings options)]
  | .object s => tagged .object (Json.presentField "object_schema" id s)
  | .list none => tagged .list []
  | .list (some cs) => tagged .list [("item_type_constraints", .arr (toJsonAll cs))]
  | .nodeReference types => tagged .nodeReference [("node_types", .ofStrings types)]
  | c => tagged c.kind []

/-- Constraints as JSON values. -/
def toJsonAll : List Constraint → List Json
  | [] => []
  | c :: cs => c.toJson :: toJsonAll cs

end

/-- The shape a tag and the fields beside it stand for; `items` reads the constraints on the
items of a list. -/
def ofTagged (items : Json → Option (List Constraint)) (v : Json) : String → Option Constraint :=
  let bare (c : Constraint) : Option Constraint := (v.record? []).map fun _ => c
  fun
  | "String" => bare .string
  | "Integer" => do
    let v ← v.record? ["minimum", "maximum"]
    let lo ← v.optionalField "minimum" Json.int64?
    let hi ← v.optionalField "maximum" Json.int64?
    some (.integer lo hi)
  | "Float" => do
    let v ← v.record? ["minimum", "maximum"]
    let lo ← v.optionalField "minimum" Json.double?
    let hi ← v.optionalField "maximum" Json.double?
    some (.float lo hi)
  | "Boolean" => bare .boolean
  | "Enum" => do
    let options ← (← v.record? ["options"]).field "options" Json.strings?
    some (.enumeration options)
  | "Audio" => bare .audio
  | "Video" => bare .video
  | "AudioClip" => bare .audioClip
  | "VideoClip" => bare .videoClip
  | "AVClip" => bare .avClip
  | "ContextMessage" => bare .contextMessage
  | "TextStream" => bare .textStream
  | "Trigger" => bare .trigger
  | "Object" => do
    let s ← (← v.record? ["object_schema"]).optionalField "object_schema" Json.any?
    some (.object s)
  | "List" => do
    let v ← v.record? ["item_type_constraints"]
    let cs ← v.optionalField "item_type_constraints" items
    some (.list cs)
  | "NodeReference" => do
    let types ← (← v.record? ["node_types"]).fieldWithDefault "node_types" Json.strings? []
    some (.nodeReference types)
  | "Secret" => bare .secret
  | "Schema" => bare .schema
  | _ => none

/-- Reads a constraint nested at most `depth` lists deep. -/
def ofJsonWithin : Nat → Json.Place → Json → Option Constraint
  | 0, _, _ => none
  | depth + 1, place, v => do
    let (tag, v) ← v.variant? (Json.kind? place tags)
    ofTagged (Json.listOf (ofJsonWithin depth .enclosed)) v tag

end Constraint

namespace Json

mutual

/-- How deep containers nest in a value. -/
def depth : Json → Nat
  | .arr items => depthOfItems items + 1
  | .obj fields => depthOfFields fields + 1
  | _ => 0

/-- The greatest depth of the items. -/
def depthOfItems : List Json → Nat
  | [] => 0
  | a :: as => max a.depth (depthOfItems as)

/-- The greatest depth of the values of fields. -/
def depthOfFields : List (String × Json) → Nat
  | [] => 0
  | (_, a) :: as => max a.depth (depthOfFields as)

end

end Json

/-- Reads a constraint. -/
def Constraint.ofJson? (place : Json.Place) (v : Json) : Option Constraint :=
  Constraint.ofJsonWithin v.depth place v

namespace Constraints

/-- A list of constraints as JSON. -/
def toJson : Constraints → Json
  | none => .null
  | some cs => .arr (Constraint.toJsonAll cs)

/-- Reads a list of constraints, or its absence. -/
def ofJson? (place : Json.Place) : Json → Option Constraints
  | .null => some none
  | v => (v.listOf (Constraint.ofJson? place)).map some

end Constraints

end Patchbay
