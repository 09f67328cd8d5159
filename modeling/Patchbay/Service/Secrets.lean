import Patchbay.Error
import Patchbay.Json.Field
import Patchbay.Text.Lowercase

/-!
# Secrets

A table of secrets in the order of their ids. Nodes hold the id of a secret; its value is looked
up when they run.
-/

namespace Patchbay

/-- What may be shown of a secret. -/
structure SecretInfo where
  id : String
  name : String
  description : Option String := none
deriving DecidableEq, Repr

/-- What is shown of a secret as JSON. -/
def SecretInfo.toJson (i : SecretInfo) : Json :=
  .object ([("id", .str i.id), ("name", .str i.name)]
    ++ Json.presentField "description" .str i.description)

/-- A table of secrets: what may be shown of each, and its value. -/
structure Secrets where
  entries : List (String × SecretInfo × String) := []

namespace Secrets

/-- Adds a secret, replacing the one of this id. -/
def add (s : Secrets) (id name value : String) : Secrets :=
  ⟨insertKey id (⟨id, name, none⟩, value) s.entries⟩

/-- The id of the secret in an environment variable: what follows the common start of the names, in
lower case. -/
def idOfVariable? (stem name : String) : Option String :=
  if stem.toList.isPrefixOf name.toList then
    let rest := name.toList.drop stem.length
    if rest.isEmpty then none else some (Text.lowercase (String.ofList rest))
  else none

/-- The secrets in the environment variables whose names start with a text. -/
def ofEnvironment (stem : String) (environment : List (String × String)) : Secrets :=
  environment.foldl
    (fun s (name, value) =>
      match idOfVariable? stem name with
      | some id => s.add id id value
      | none => s)
    {}

/-- What may be shown of the secrets. -/
def list (s : Secrets) : List SecretInfo := s.entries.map fun (_, info, _) => info

/-- The value of a secret. -/
def resolve (s : Secrets) (id : String) : Except Error String :=
  match lookupKey id s.entries with
  | some (_, value) => .ok value
  | none => .error (.secret ("unknown secret '" ++ id ++ "'"))

end Secrets

end Patchbay
