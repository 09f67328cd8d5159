import Patchbay.Node.Basic

/-!
# Property nodes

Each holds one value on the property source `value`. The value is set by editing the graph, and
goes downstream whenever it is pushed from outside.
-/

namespace Patchbay.PropertyNode

/-- The pad of every property node. -/
def value : String := "value"

/-- A node type that holds one value of a shape. -/
def nodeType (name description : String) (shape : Constraint) (default : Json) : NodeType where
  metadata := ⟨name, none, ["input", "property"]⟩
  description := description
  resolve _ := .ok [{
    id := value
    padType := .propertySource
    constraints := some [shape]
    default := some default }]

/-- Holds a text. -/
def string : NodeType := nodeType "String" "Holds a text value" .string (.str "")

/-- Holds a whole number. -/
def integer : NodeType := nodeType "Integer" "Holds a whole number" (.integer none none) (.int 0)

/-- Holds a number. -/
def float : NodeType :=
  nodeType "Float" "Holds a decimal number" (.float none none) (.double .zero)

/-- Holds a flag. -/
def boolean : NodeType := nodeType "Boolean" "Holds a true/false flag" .boolean (.bool false)

end Patchbay.PropertyNode
