import Patchbay.Json.Basic
import Patchbay.Json.Quoted
import Patchbay.Number.Text

/-!
# Values of an expected type

Reading a value as a truth value, a text or a whole number. A value of another type is refused with
a message that names it and what was expected.
-/

namespace Patchbay.Json

/-- How a message names a value. -/
def named : Json → String
  | .null => "null"
  | .bool b => "boolean `" ++ (if b then "true" else "false") ++ "`"
  | .int n => "integer `" ++ toString n ++ "`"
  | .double d => "floating point `" ++ d.render .json ++ "`"
  | .str s => "string " ++ Quoted.rendered s
  | .arr _ => "sequence"
  | .obj _ => "map"

/-- The message for a value of another type. -/
def wrongType (v : Json) (expected : String) : String :=
  "invalid type: " ++ v.named ++ ", expected " ++ expected

/-- A truth value. -/
def asBool : Json → Except String Bool
  | .bool b => .ok b
  | v => .error (v.wrongType "a boolean")

/-- A text. -/
def asText : Json → Except String String
  | .str s => .ok s
  | v => .error (v.wrongType "a string")

/-- A whole number of 64 bits with a sign. -/
def asInt64 (v : Json) : Except String Int64 :=
  match v with
  | .int _ =>
    match v.int64? with
    | some n => .ok n
    | none => .error ("invalid value: " ++ v.named ++ ", expected i64")
  | _ => .error (v.wrongType "i64")

end Patchbay.Json
