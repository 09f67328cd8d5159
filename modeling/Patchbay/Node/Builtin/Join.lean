import Patchbay.Node.Basic
import Patchbay.Json.Printer

/-!
# Join

Concatenates the latest text seen on each input. The property `num_inputs` sets how many inputs
there are, so the pads are declared anew whenever it changes.
-/

namespace Patchbay.Join

/-- The property that sets the number of inputs. -/
def count : String := "num_inputs"

/-- The property that holds the text between inputs. -/
def separator : String := "separator"

/-- The source of joined texts. -/
def output : String := "output"

/-- What the ids of inputs start with. -/
def stem : String := "input_"

/-- The id of an input. -/
def inputPad (index : Nat) : String := stem ++ index.repr

/-- The greatest number of inputs. -/
def mostInputs : Int64 := 16

/-- The number of inputs where none is set. -/
def usualInputs : Int64 := 2

/-- The separator where none is set. -/
def usualSeparator : String := " "

/-- How many inputs a node has. -/
def inputCount (view : NodeView) : Nat :=
  let n := ((view.property count).bind Json.int64?).getD usualInputs
  (max 1 (min n mostInputs)).toInt.toNat

/-- The text of a value: a string stands for itself, anything else is written as JSON. -/
def text : Json → String
  | .str s => s
  | v => v.compact

/-- The latest texts of the inputs that have one, with the separator between them. -/
def joined (separator : String) (latest : List (Option String)) : String :=
  joinWith separator (latest.filterMap id)

/-- The join; it warns while no input is connected. -/
def nodeType : NodeType where
  metadata := ⟨"Join", none, ["control", "text"]⟩
  description := "Joins the latest text of every input"
  resolve view := .ok (
    [ { id := count
        padType := .propertySink
        constraints := some [.integer (some 1) (some mostInputs)]
        default := some (.int usualInputs.toInt) },
      { id := separator
        padType := .propertySink
        constraints := some [.string]
        default := some (.str usualSeparator) }]
    ++ (List.range (inputCount view)).map (fun index =>
      { id := inputPad index
        group := some "inputs"
        padType := .statelessSink
        constraints := some [.string] })
    ++ [{ id := output, padType := .statelessSource, constraints := some [.string] }])
  notes view :=
    if view.pads.any fun p => p.id.startsWith stem && view.isConnected p.id then []
    else [⟨.warning, "no inputs connected", none⟩]
  routine := .join stem count separator output

end Patchbay.Join
