import Patchbay.Context.Deadline
import Patchbay.Run.DataRequest
import Patchbay.Run.Wiring
import Patchbay.Service.Transport

/-!
# The data plane

A running graph can be reached over a transport. Requests arrive on one topic; each is acknowledged
at once and completed when its work is done, and both answers go to the participant who asked.
A push counts as done when everything that was derived from the pushed value is processed, or
when its time is over. A push with a deadline past all clocks is dropped once it is acknowledged.
-/

namespace Patchbay

/-- How far a request has got. -/
inductive RequestPhase where
  | received
  | acknowledged
  /-- What remains is to send the answer. -/
  | answered (response : DataResponse)
  /-- The pushed value is being processed under a context. -/
  | pushed (context : Nat)
  /-- Nothing is left to do. -/
  | over

/-- A request in progress. -/
structure PendingRequest where
  sender : String
  request : DataRequest
  phase : RequestPhase := .received

/-- The server of the data plane. -/
structure DataPlane where
  /-- The participant that serves. -/
  identity : String
  topic : String
  /-- How long a push may take, in seconds. -/
  timeout : Nat
  /-- What the clocks of the host showed when the run began. -/
  uptime : Nat
  /-- Whether requests are still taken. -/
  isServing : Bool := true
  /-- All requests, oldest first. -/
  requests : List PendingRequest := []

namespace DataPlane

/-- The tag of the contexts of pushes. -/
def originator : String := "data_plane"

/-- The name of the server's subscription. -/
def subscriber : String := "data_plane"

/-- The request in a message, if it is one for this server: it comes from somebody else, and it is
addressed to the server or to nobody in particular. -/
def requestIn? (d : DataPlane) (m : TransportMessage) : Option DataRequest :=
  if m.sender == d.identity then none
  else if m.destination.any (· != d.identity) then none
  else DataRequest.ofJson? m.payload

/-- Takes a message; what is no request is passed over. -/
def receive (d : DataPlane) (m : TransportMessage) : DataPlane :=
  match d.requestIn? m with
  | none => d
  | some r => { d with requests := d.requests ++ [{ sender := m.sender, request := r }] }

/-- The message that carries an answer. -/
def reply (d : DataPlane) (receiver : String) (r : DataResponse) : TransportMessage where
  topic := d.topic
  sender := d.identity
  destination := some receiver
  payload := r.toJson

/-- What is known about who pushed a value. -/
def metadataOf (sender : String) : List (String × String) := [("participant", sender)]

/-- What beginning with a request leads to. -/
inductive Begun where
  /-- The request is answered. -/
  | answered (response : DataResponse)
  /-- A value was pushed under a context to some sinks. -/
  | pushed (context : Nat) (taken : List PadRef)
  /-- The request is dropped. -/
  | dropped

/-- Begins with a request at a time in milliseconds. -/
def begin (d : DataPlane) (w : Wiring) (now : Nat) (r : PendingRequest) : Wiring × Begun :=
  match r.request with
  | .getValue id pad =>
    match w.getValue pad with
    | .ok value => (w, .answered (.complete id value none false))
    | .error e => (w, .answered (.complete id none (some e.message) false))
  | .pushValue id pad value =>
    match secondsAfter? d.uptime now d.timeout with
    | none => (w, .dropped)
    | some deadline =>
      match w.accept pad value with
      | .error e => (w, .answered (.complete id none (some e.message) false))
      | .ok source =>
        let (forest, context) :=
          w.forest.addRoot (some originator) (some (metadataOf r.sender)) (some deadline)
        let (w, taken) := { w with forest := forest }.push source value context
        (w.complete context, .pushed context taken)

/-- The answer to a push whose context is finished. -/
def finished (id : String) (outcome : Completion) : DataResponse :=
  .complete id none none (outcome == .timedOut)

/-- Sets the phase of a request. -/
def setPhase (d : DataPlane) (number : Nat) (phase : RequestPhase) : DataPlane :=
  { d with requests := d.requests.modify number fun r => { r with phase := phase } }

end DataPlane

end Patchbay
