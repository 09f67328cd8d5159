import Patchbay.Json.Basic
import Patchbay.Json.Quoted
import Patchbay.Number.Text

/-!
# JSON text

The compact text of a value has no blanks; the indented one puts every item on a line of its
own, two spaces deeper than its container.
-/

namespace Patchbay.Json

mutual

/-- The compact text of a value. -/
def compact : Json → String
  | .null => "null"
  | .bool b => if b then "true" else "false"
  | .int n => toString n
  | .double d => d.render .json
  | .str s => Quoted.json s
  | .arr items => "[" ++ compactItems items ++ "]"
  | .obj fields => "\x7b" ++ compactFields fields ++ "\x7d"

/-- Items between commas. -/
def compactItems : List Json → String
  | [] => ""
  | [a] => a.compact
  | a :: as => a.compact ++ "," ++ compactItems as

/-- Fields between commas. -/
def compactFields : List (String × Json) → String
  | [] => ""
  | [(k, a)] => Quoted.json k ++ ":" ++ a.compact
  | (k, a) :: as => Quoted.json k ++ ":" ++ a.compact ++ "," ++ compactFields as

end

/-- The start of a line at a nesting depth. -/
def lineStart (depth : Nat) : String := "\n" ++ String.ofList (List.replicate (2 * depth) ' ')

mutual

/-- The indented text of a value at a nesting depth. -/
def indented (depth : Nat) : Json → String
  | .arr [] => "[]"
  | .arr items => "[" ++ indentedItems (depth + 1) items ++ lineStart depth ++ "]"
  | .obj [] => "\x7b\x7d"
  | .obj fields => "\x7b" ++ indentedFields (depth + 1) fields ++ lineStart depth ++ "\x7d"
  | other => other.compact

/-- Items on lines of their own. -/
def indentedItems (depth : Nat) : List Json → String
  | [] => ""
  | [a] => lineStart depth ++ a.indented depth
  | a :: as => lineStart depth ++ a.indented depth ++ "," ++ indentedItems depth as

/-- Fields on lines of their own. -/
def indentedFields (depth : Nat) : List (String × Json) → String
  | [] => ""
  | [(k, a)] => lineStart depth ++ Quoted.json k ++ ": " ++ a.indented depth
  | (k, a) :: as =>
    lineStart depth ++ Quoted.json k ++ ": " ++ a.indented depth ++ "," ++ indentedFields depth as

end

end Patchbay.Json
