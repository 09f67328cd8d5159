import Patchbay.Config

/-!
# Host configuration

One file holds the settings of the engine and the few of the host; so a file for the engine alone
is a file for the host as well.
-/

namespace Patchbay

/-- Why a host has no configuration. -/
inductive HostConfigError where
  | parse
  | invalid (message : String)
deriving DecidableEq, Repr

/-- The wording of a refused configuration; that of an unreadable one is left to whoever read
it. -/
def HostConfigError.message? : HostConfigError → Option String
  | .parse => none
  | .invalid message => some ("Invalid config: " ++ message)

/-- The settings of a host. -/
structure HostConfig where
  engine : EngineConfig := {}
  /-- The participant that the host is on its transport. -/
  transportIdentity : String := "padflow-host"
  /-- What the names of environment variables with secrets start with. -/
  secretStem : String := "PADFLOW_SECRET_"
deriving DecidableEq, Repr

namespace HostConfig

/-- The settings by name, in the order in which files list them. -/
def fields (c : HostConfig) : List (String × Json) :=
  c.engine.fields ++ [
    ("transport_identity", .str c.transportIdentity),
    ("secret_env_prefix", .str c.secretStem)]

/-- The settings as JSON. -/
def toJson (c : HostConfig) : Json := .object c.fields

/-- Reads settings from an object; missing ones have their defaults. -/
def ofJson? (v : Json) : Option HostConfig := do
  let _ ← v.obj?
  let d : HostConfig := {}
  let engine ← EngineConfig.ofJson? .enclosed v
  let transportIdentity ← v.fieldWithDefault "transport_identity" Json.str? d.transportIdentity
  let secretStem ← v.fieldWithDefault "secret_env_prefix" Json.str? d.secretStem
  some ⟨engine, transportIdentity, secretStem⟩

/-- Refuses settings that no host could run with. -/
def validate (c : HostConfig) : Except HostConfigError Unit :=
  match c.engine.validate with
  | .error e => .error (.invalid e.message)
  | .ok () =>
    if c.transportIdentity.isEmpty then .error (.invalid "transport_identity must not be empty")
    else .ok ()

/-- The settings that the text of a file stands for, if there is a file. -/
def load (contents : Option String) : Except HostConfigError HostConfig :=
  match contents with
  | none => .ok {}
  | some text =>
    match (Json.read text).bind ofJson? with
    | none => .error .parse
    | some c => c.validate.map fun _ => c

/-- The text of a file with these settings. -/
def save (c : HostConfig) : String := (Json.obj c.fields).indented 0

end HostConfig

end Patchbay
