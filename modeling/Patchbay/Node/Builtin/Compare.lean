import Patchbay.Node.Basic
import Patchbay.Constraint.Intersect

/-!
# Compare

Compares the latest values on `a` and `b`. Both operands share one type: whatever feeds one side
constrains the other. The menu of operators depends on that type and is empty until a single
shape is left.
-/

namespace Patchbay.Compare

/-- The left operand. -/
def left : String := "a"

/-- The right operand. -/
def right : String := "b"

/-- The property that selects the operator. -/
def operator : String := "operator"

/-- The source of outcomes. -/
def result : String := "result"

/-! ### Operators -/

/-- The operators offered for a kind of operands. -/
def operatorsFor : Constraint.Kind → List String
  | .integer | .float => ["==", "!=", "<", "<=", ">", ">="]
  | .string => ["==", "!=", "contains", "starts_with", "ends_with"]
  | .boolean => ["==", "!="]
  | _ => []

/-- Equality of operands: of two numbers as doubles, of anything else as values. -/
def equal (a b : Json) : Bool :=
  match a.double?, b.double? with
  | some x, some y => x.same y
  | _, _ => a.same b

/-- Compares two numbers. -/
def numeric (test : Double → Double → Bool) (a b : Json) : Option Bool :=
  match a.double?, b.double? with
  | some x, some y => some (test x y)
  | _, _ => none

/-- Compares two texts. -/
def textual (test : List Char → List Char → Bool) (a b : Json) : Option Bool :=
  match a.str?, b.str? with
  | some s, some t => some (test s.toList t.toList)
  | _, _ => none

/-- Whether the second text occurs in the first. -/
def contains : List Char → List Char → Bool
  | [], t => t.isEmpty
  | c :: s, t => t.isPrefixOf (c :: s) || contains s t

/-- Applies an operator; `none` when it does not fit the operands. -/
def evaluate (operator : String) (a b : Json) : Option Bool :=
  match operator with
  | "==" => some (equal a b)
  | "!=" => some (!equal a b)
  | "<" => numeric Double.lt a b
  | "<=" => numeric Double.le a b
  | ">" => numeric (fun x y => y.lt x) a b
  | ">=" => numeric (fun x y => y.le x) a b
  | "contains" => textual contains a b
  | "starts_with" => textual (fun s t => t.isPrefixOf s) a b
  | "ends_with" => textual (fun s t => t.isSuffixOf s) a b
  | _ => none

/-! ### Pads -/

/-- The kinds of values that can be compared at all. -/
def comparable : Constraints :=
  some [.string, .integer none none, .float none none, .boolean]

/-- The type of the operands as seen from both connections. -/
def operand (view : NodeView) : Constraints :=
  (comparable.intersect (view.peerConstraints left)).intersect (view.peerConstraints right)

/-- The operators a node offers. -/
def menu (view : NodeView) : List String :=
  match (operand view).single? with
  | some c => operatorsFor c.kind
  | none => []

/-- The compare; it reports an error while the type of its operands is open. -/
def nodeType : NodeType where
  metadata := ⟨"Compare", none, ["control", "logic"]⟩
  description := "Compares two values of the same type"
  resolve view := .ok [
    { id := left
      padType := .statelessSink
      constraints := comparable.intersect (view.peerConstraints right) },
    { id := right
      padType := .statelessSink
      constraints := comparable.intersect (view.peerConstraints left) },
    { id := operator
      padType := .propertySink
      constraints := some [.enumeration (menu view)]
      default := (menu view).head?.map .str },
    { id := result, padType := .statelessSource, constraints := some [.boolean] }]
  notes view :=
    if (operand view).single?.isSome then []
    else [⟨.error, "operands must resolve to exactly one type", some operator⟩]
  routine := .compare left right operator result

end Patchbay.Compare
