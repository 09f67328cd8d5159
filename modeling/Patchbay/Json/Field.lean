import Patchbay.Json.Basic

/-!
# Reading records

A decoder turns a JSON value into a domain value or refuses it. The fields of an object come in
three forms. A required field must be there; an optional one may be missing or `null`; one
with a default may be missing, but `null` counts only where its decoder takes it. A field that
is asked for and stands twice is refused; the fields that nobody asks for are ignored.

A record may also be written as the list of its values, and a variant as the list of its kind and
its values: `record?` and `variant?` bring both forms to the object. Bare names and kinds have more
forms in some places than in others (`Place`).
-/

namespace Patchbay.Json

/-- What stands under a key of an object, if anything does; a key that stands twice is refused. -/
def unique? (v : Json) (key : String) : Option (Option Json) :=
  match v with
  | .obj fields =>
    match fields.filter fun f => f.1 == key with
    | [] => some none
    | [f] => some (some f.2)
    | _ => none
  | _ => some none

/-- The value of a required field. -/
def field {α : Type} (v : Json) (key : String) (decode : Json → Option α) : Option α :=
  match v.unique? key with
  | some (some a) => decode a
  | _ => none

/-- The value of an optional field. -/
def optionalField {α : Type} (v : Json) (key : String) (decode : Json → Option α) :
    Option (Option α) :=
  match v.unique? key with
  | none => none
  | some none | some (some .null) => some none
  | some (some a) => (decode a).map some

/-- The value of a field with a default. -/
def fieldWithDefault {α : Type} (v : Json) (key : String) (decode : Json → Option α)
    (default : α) : Option α :=
  match v.unique? key with
  | none => none
  | some none => some default
  | some (some a) => decode a

/-- A record as an object. It may also be a list of values, which go to the names in order; values
at the end may be missing, and none may be left over. -/
def record? (names : List String) : Json → Option Json
  | .obj fields => some (.obj fields)
  | .arr items => if items.length ≤ names.length then some (.obj (names.zip items)) else none
  | _ => none

/-- Where a value stands. -/
inductive Place where
  /-- By itself, or in a record. -/
  | plain
  /-- Among the values of a variant, or in a record that lends its fields to another record. -/
  | enclosed
deriving DecidableEq, Repr

/-- A bare name. It may also be written as the only field of an object, with the value `null`; in
an enclosed place an empty object stands for `null`. -/
def name? : Place → Json → Option String
  | _, .str s => some s
  | _, .obj [(s, .null)] => some s
  | .enclosed, .obj [(s, .obj [])] => some s
  | _, _ => none

/-- The name of a kind. In an enclosed place it may also be given by its place in the list of all
kinds, counted from zero. -/
def kind? : Place → List String → Json → Option String
  | _, _, .str s => some s
  | .enclosed, kinds, .int n => if 0 ≤ n then kinds[n.toNat]? else none
  | _, _, _ => none

/-- The kind of a variant and the record of its values. The kind is the field `type` of an object,
or the first item of a list. -/
def variant? (kind : Json → Option String) : Json → Option (String × Json)
  | .arr (tag :: items) => (kind tag).map fun k => (k, .arr items)
  | v => (v.field "type" kind).map fun k => (k, v)

/-- Applies a decoder to every item; one refusal refuses all. -/
def decodeEach {α : Type} (decode : Json → Option α) : List Json → Option (List α)
  | [] => some []
  | v :: vs =>
    match decode v, decodeEach decode vs with
    | some a, some as => some (a :: as)
    | _, _ => none

/-- A list of values of one kind. -/
def listOf {α : Type} (decode : Json → Option α) (v : Json) : Option (List α) :=
  v.arr?.bind (decodeEach decode)

/-- A list of texts. -/
def strings? (v : Json) : Option (List String) := v.listOf str?

/-- Any value whatsoever. -/
def any? (v : Json) : Option Json := some v.normalize

/-- Two numbers. -/
def pair? : Json → Option (Double × Double)
  | .arr [a, b] =>
    match a.double?, b.double? with
    | some x, some y => some (x, y)
    | _, _ => none
  | _ => none

/-! ### Writing fields -/

/-- A list of texts. -/
def ofStrings (xs : List String) : Json := .arr (xs.map .str)

/-- An absent value is `null`. -/
def ofOption {α : Type} (encode : α → Json) : Option α → Json
  | none => .null
  | some a => encode a

/-- Two numbers. -/
def ofPair (p : Double × Double) : Json := .arr [.double p.1, .double p.2]

/-- A field that is left out when its value is absent. -/
def presentField {α : Type} (key : String) (encode : α → Json) :
    Option α → List (String × Json)
  | none => []
  | some a => [(key, encode a)]

end Patchbay.Json
