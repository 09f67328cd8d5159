import Patchbay.Service.Secrets

/-!
# Services

What a host hands to running nodes: objects of several kinds under keys. A look-up finds an object
only under the kind it was stored as.
-/

namespace Patchbay

/-- An object that a host provides. -/
inductive Service where
  | text (s : String)
  | number (n : Int64)
  | secrets (s : Secrets)
  /-- A transport, known by its identity. -/
  | transport (identity : String)

/-- Services by key. -/
structure Services where
  entries : List (String × Service) := []

namespace Services

/-- The key of the secret provider. -/
def secretsKey : String := "secrets"

/-- The key of the transport. -/
def transportKey : String := "transport"

/-- Stores an object; a later one under the same key replaces it. -/
def set (s : Services) (key : String) (object : Service) : Services :=
  ⟨insertKey key object s.entries⟩

/-- Whether there is an object under a key. -/
def has (s : Services) (key : String) : Bool := (lookupKey key s.entries).isSome

/-- The text under a key. -/
def text? (s : Services) (key : String) : Option String :=
  match lookupKey key s.entries with
  | some (.text t) => some t
  | _ => none

/-- The number under a key. -/
def number? (s : Services) (key : String) : Option Int64 :=
  match lookupKey key s.entries with
  | some (.number n) => some n
  | _ => none

/-- Provides secrets. -/
def withSecrets (s : Services) (secrets : Secrets) : Services :=
  s.set secretsKey (.secrets secrets)

/-- Provides a transport. -/
def withTransport (s : Services) (identity : String) : Services :=
  s.set transportKey (.transport identity)

/-- The secrets, if they are provided. -/
def secrets? (s : Services) : Option Secrets :=
  match lookupKey secretsKey s.entries with
  | some (.secrets t) => some t
  | _ => none

/-- The identity of the transport, if there is one. -/
def transport? (s : Services) : Option String :=
  match lookupKey transportKey s.entries with
  | some (.transport identity) => some identity
  | _ => none

end Services

end Patchbay
