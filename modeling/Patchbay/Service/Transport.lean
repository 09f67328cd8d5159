import Patchbay.Json.Field

/-!
# Transport

Messages are routed by topic. The local transport hands every message to all subscriptions of its
topic, those of the sender included.
-/

namespace Patchbay

/-- A message on a topic. -/
structure TransportMessage where
  topic : String
  /-- The participant that sent it. -/
  sender : String
  /-- The participant it is for; every subscriber if there is none. -/
  destination : Option String := none
  payload : Json

namespace TransportMessage

/-- A message as JSON. -/
def toJson (m : TransportMessage) : Json :=
  .object ([("topic", .str m.topic), ("sender", .str m.sender), ("payload", m.payload)]
    ++ Json.presentField "destination" .str m.destination)

/-- Reads a message. -/
def ofJson? (v : Json) : Option TransportMessage := do
  let v ← v.record? ["topic", "sender", "destination", "payload"]
  let topic ← v.field "topic" Json.str?
  let sender ← v.field "sender" Json.str?
  let destination ← v.optionalField "destination" Json.str?
  let payload ← v.field "payload" Json.any?
  some ⟨topic, sender, destination, payload⟩

end TransportMessage

/-- A subscriber with the messages that wait for it. -/
structure Subscription where
  name : String
  topic : String
  inbox : List TransportMessage := []

/-- A transport within one process. -/
structure LocalTransport where
  /-- The participant that runs the transport. -/
  identity : String
  subscriptions : List Subscription := []

namespace LocalTransport

/-- The identity where none is given. -/
def usualIdentity : String := "host"

/-- Adds a subscription. -/
def subscribe (t : LocalTransport) (name topic : String) : LocalTransport :=
  { t with subscriptions := t.subscriptions ++ [⟨name, topic, []⟩] }

/-- Drops every subscription of a name. -/
def unsubscribe (t : LocalTransport) (name : String) : LocalTransport :=
  { t with subscriptions := t.subscriptions.filter fun s => s.name != name }

/-- Hands a message to the subscriptions of its topic. -/
def send (t : LocalTransport) (m : TransportMessage) : LocalTransport :=
  { t with subscriptions := t.subscriptions.map fun s =>
      if s.topic == m.topic then { s with inbox := s.inbox ++ [m] } else s }

/-- The waiting messages with the names of their subscriptions. -/
def received (t : LocalTransport) : List (String × TransportMessage) :=
  t.subscriptions.flatMap fun s => s.inbox.map (s.name, ·)

/-- Takes all waiting messages out. -/
def drain (t : LocalTransport) : LocalTransport :=
  { t with subscriptions := t.subscriptions.map fun s => { s with inbox := [] } }

end LocalTransport

end Patchbay
