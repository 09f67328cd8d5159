import Patchbay.Json.Field
import Patchbay.Pad.Basic

/-!
# Data-plane messages

Over the data plane a participant pushes values out of source pads and reads property pads of a
running graph. Each request is acknowledged at once and completed when its work is done.
-/

namespace Patchbay

/-- A request to a running graph. -/
inductive DataRequest where
  | pushValue (id : String) (pad : PadRef) (value : Json)
  | getValue (id : String) (pad : PadRef)

namespace DataRequest

/-- The id that answers repeat. -/
def id : DataRequest → String
  | .pushValue id .. | .getValue id _ => id

/-- A request as JSON. -/
def toJson : DataRequest → Json
  | .pushValue id pad value =>
    .object [("type", .str "push_value"), ("request_id", .str id), ("node_id", .str pad.node),
      ("source_pad_id", .str pad.pad), ("value", value)]
  | .getValue id pad =>
    .object [("type", .str "get_value"), ("request_id", .str id), ("node_id", .str pad.node),
      ("property_pad_id", .str pad.pad)]

/-- Reads the parameters of a request of a kind. -/
def ofKind? (v : Json) : String → Option DataRequest
  | "push_value" => do
    let v ← v.record? ["request_id", "node_id", "source_pad_id", "value"]
    let id ← v.field "request_id" Json.str?
    let node ← v.field "node_id" Json.str?
    let pad ← v.field "source_pad_id" Json.str?
    let value ← v.field "value" Json.any?
    some (.pushValue id ⟨node, pad⟩ value)
  | "get_value" => do
    let v ← v.record? ["request_id", "node_id", "property_pad_id"]
    let id ← v.field "request_id" Json.str?
    let node ← v.field "node_id" Json.str?
    let pad ← v.field "property_pad_id" Json.str?
    some (.getValue id ⟨node, pad⟩)
  | _ => none

/-- Reads a request. -/
def ofJson? (v : Json) : Option DataRequest :=
  (v.variant? Json.str?).bind fun (kind, w) => ofKind? w kind

end DataRequest

/-- An answer to a request. -/
inductive DataResponse where
  | ack (id : String)
  | complete (id : String) (value : Option Json) (error : Option String) (timedOut : Bool)

namespace DataResponse

/-- The id of the request that is answered. -/
def id : DataResponse → String
  | .ack id | .complete id .. => id

/-- An answer as JSON; an absent value or error is left out. -/
def toJson : DataResponse → Json
  | .ack id => .object [("type", .str "ack"), ("request_id", .str id)]
  | .complete id value error timedOut =>
    .object ([("type", .str "complete"), ("request_id", .str id), ("timed_out", .bool timedOut)]
      ++ Json.presentField "value" (fun v => v) value ++ Json.presentField "error" .str error)

/-- Reads the parameters of an answer of a kind. -/
def ofKind? (v : Json) : String → Option DataResponse
  | "ack" => do
    let id ← (← v.record? ["request_id"]).field "request_id" Json.str?
    some (.ack id)
  | "complete" => do
    let v ← v.record? ["request_id", "value", "error", "timed_out"]
    let id ← v.field "request_id" Json.str?
    let value ← v.optionalField "value" Json.any?
    let error ← v.optionalField "error" Json.str?
    let timedOut ← v.fieldWithDefault "timed_out" Json.bool? false
    some (.complete id value error timedOut)
  | _ => none

/-- Reads an answer. -/
def ofJson? (v : Json) : Option DataResponse :=
  (v.variant? Json.str?).bind fun (kind, w) => ofKind? w kind

end DataResponse

end Patchbay
