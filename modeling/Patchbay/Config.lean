import Patchbay.Error
import Patchbay.Json.Field
import Patchbay.Json.Reader

/-!
# Engine configuration

Every setting has a default, and a file may leave out any of them.
-/

namespace Patchbay

/-- What happens to the other nodes of a running graph when one fails. -/
inductive ErrorPolicy where
  /-- They keep running. -/
  | isolate
  /-- They are stopped. -/
  | abortGraph
deriving DecidableEq, Repr

/-- The settings of the engine. -/
structure EngineConfig where
  /-- How many items wait at a sink. -/
  sinkQueueCapacity : Nat := 256
  errorPolicy : ErrorPolicy := .isolate
  /-- How many graphs are kept for undo and redo. -/
  historyDepth : Nat := 100
  /-- The topic that data-plane requests arrive on. -/
  dataPlaneTopic : String := "runtime_api"
  /-- How long a data-plane push may take, in seconds. -/
  dataPlaneTimeout : Nat := 30
  /-- How many passes a resolution may take; `0` stands for two more than there are nodes. -/
  maxResolvePasses : Nat := 0
deriving DecidableEq, Repr

namespace EngineConfig

instance : Inhabited EngineConfig := ⟨{}⟩

/-- Refuses settings that nothing could run with. -/
def validate (c : EngineConfig) : Except Error Unit :=
  if c.sinkQueueCapacity = 0 then .error (.config "sink_queue_capacity must be at least 1")
  else if c.dataPlaneTopic.isEmpty then .error (.config "data_plane_topic must not be empty")
  else .ok ()

/-- How many passes the resolution of a graph with `nodes` nodes may take. -/
def passLimit (c : EngineConfig) (nodes : Nat) : Nat :=
  if c.maxResolvePasses = 0 then nodes + 2 else c.maxResolvePasses

end EngineConfig

/-! ### JSON form -/

/-- The name of a policy. -/
def ErrorPolicy.name : ErrorPolicy → String
  | .isolate => "isolate"
  | .abortGraph => "abort_graph"

/-- The policy of a name. -/
def ErrorPolicy.ofName? : String → Option ErrorPolicy
  | "isolate" => some .isolate
  | "abort_graph" => some .abortGraph
  | _ => none

/-- Reads a policy. -/
def ErrorPolicy.ofJson? (place : Json.Place) (v : Json) : Option ErrorPolicy :=
  (v.name? place).bind ofName?

namespace EngineConfig

/-- The settings by name, in the order in which files list them. -/
def fields (c : EngineConfig) : List (String × Json) := [
  ("sink_queue_capacity", .int c.sinkQueueCapacity),
  ("runtime_error_policy", .str c.errorPolicy.name),
  ("history_depth", .int c.historyDepth),
  ("data_plane_topic", .str c.dataPlaneTopic),
  ("data_plane_completion_timeout_secs", .int c.dataPlaneTimeout),
  ("max_resolve_passes", .int c.maxResolvePasses)]

/-- The settings as JSON. -/
def toJson (c : EngineConfig) : Json := .object c.fields

/-- The parts of a file that are settings. -/
def outline : Json.Outline := .ofNames ((fields {}).map (·.1))

/-- Reads settings; missing ones have their defaults. -/
def ofJson? (place : Json.Place) (v : Json) : Option EngineConfig := do
  let v ← v.record? outline.names
  let d : EngineConfig := {}
  let sinkQueueCapacity ← v.fieldWithDefault "sink_queue_capacity" Json.nat64? d.sinkQueueCapacity
  let errorPolicy ←
    v.fieldWithDefault "runtime_error_policy" (ErrorPolicy.ofJson? place) d.errorPolicy
  let historyDepth ← v.fieldWithDefault "history_depth" Json.nat64? d.historyDepth
  let dataPlaneTopic ← v.fieldWithDefault "data_plane_topic" Json.str? d.dataPlaneTopic
  let dataPlaneTimeout ←
    v.fieldWithDefault "data_plane_completion_timeout_secs" Json.nat64? d.dataPlaneTimeout
  let maxResolvePasses ← v.fieldWithDefault "max_resolve_passes" Json.nat64? d.maxResolvePasses
  some ⟨sinkQueueCapacity, errorPolicy, historyDepth, dataPlaneTopic, dataPlaneTimeout,
    maxResolvePasses⟩

end EngineConfig

namespace EngineConfig

/-- The settings that the text of a file stands for, if there is a file. -/
def load (contents : Option String) : Except Error EngineConfig :=
  match contents with
  | none => .ok {}
  | some text =>
    match (Json.readOutline outline text).bind (ofJson? .plain) with
    | none => .error (.config "failed to parse")
    | some c => c.validate.map fun _ => c

/-- The text of a file with these settings. -/
def save (c : EngineConfig) : String := (Json.obj c.fields).indented 0

end EngineConfig

end Patchbay
