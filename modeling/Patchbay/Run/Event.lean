import Patchbay.Json.Field
import Patchbay.Pad.Basic

/-!
# Events of a running graph

What an observer of a run is told: the beginning and the one ending of each node, the items that
were discarded for lack of room, and the end of the whole run.
-/

namespace Patchbay

/-- What is reported while a graph runs. -/
inductive GraphEvent where
  | nodeStarted (run node : String)
  /-- A node ended without a failure, or was stopped. -/
  | nodeStopped (run node : String)
  | nodeFailed (run node error : String)
  /-- An item was discarded for one sink. -/
  | itemDropped (source sink reason : String)
  /-- Every node has ended. -/
  | graphStopped (run : String)
deriving DecidableEq, Repr

namespace GraphEvent

/-- An event in one line, without the run it belongs to. -/
def text : GraphEvent → String
  | .nodeStarted _ node => "nodeStarted " ++ node
  | .nodeStopped _ node => "nodeStopped " ++ node
  | .nodeFailed _ node error => "nodeFailed " ++ node ++ ": " ++ error
  | .itemDropped source sink reason => "itemDropped " ++ source ++ " -> " ++ sink ++ ": " ++ reason
  | .graphStopped _ => "graphStopped"

/-- An event as JSON. -/
def toJson : GraphEvent → Json
  | .nodeStarted run node =>
    .object [("type", .str "nodeStarted"), ("runId", .str run), ("nodeId", .str node)]
  | .nodeStopped run node =>
    .object [("type", .str "nodeStopped"), ("runId", .str run), ("nodeId", .str node)]
  | .nodeFailed run node error =>
    .object [("type", .str "nodeFailed"), ("runId", .str run), ("nodeId", .str node),
      ("error", .str error)]
  | .itemDropped source sink reason =>
    .object [("type", .str "itemDropped"), ("source", .str source), ("sink", .str sink),
      ("reason", .str reason)]
  | .graphStopped run => .object [("type", .str "graphStopped"), ("runId", .str run)]

/-- Reads the parameters of an event of a kind. -/
def ofKind? (v : Json) : String → Option GraphEvent
  | "nodeStarted" => do
    let v ← v.record? ["runId", "nodeId"]
    let run ← v.field "runId" Json.str?
    let node ← v.field "nodeId" Json.str?
    some (.nodeStarted run node)
  | "nodeStopped" => do
    let v ← v.record? ["runId", "nodeId"]
    let run ← v.field "runId" Json.str?
    let node ← v.field "nodeId" Json.str?
    some (.nodeStopped run node)
  | "nodeFailed" => do
    let v ← v.record? ["runId", "nodeId", "error"]
    let run ← v.field "runId" Json.str?
    let node ← v.field "nodeId" Json.str?
    let error ← v.field "error" Json.str?
    some (.nodeFailed run node error)
  | "itemDropped" => do
    let v ← v.record? ["source", "sink", "reason"]
    let source ← v.field "source" Json.str?
    let sink ← v.field "sink" Json.str?
    let reason ← v.field "reason" Json.str?
    some (.itemDropped source sink reason)
  | "graphStopped" => do
    let run ← (← v.record? ["runId"]).field "runId" Json.str?
    some (.graphStopped run)
  | _ => none

/-- Reads an event. -/
def ofJson? (v : Json) : Option GraphEvent :=
  (v.variant? Json.str?).bind fun (kind, w) => ofKind? w kind

end GraphEvent

end Patchbay
