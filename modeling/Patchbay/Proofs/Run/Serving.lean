import Patchbay.Proofs.Run.Moves
import Patchbay.Proofs.Trace

/-!
# What the server of a run hears and does

Everybody who listens to a topic hears all that is sent on it, the server its own answers included
(`hear`). It takes what has arrived in the order in which it was sent, and keeps the requests that
are for it (`Run.Listens`).

The server and its requests are the only ones that touch the data plane. A move adds requests that
nothing was done for yet, or it is the turn of one request, which then makes one step
(`Run.Serves`, `Run.Turns`). What a request sends in its turn can be read off its phase
(`PendingRequest.due`).

Requests end: each turn brings one nearer to its answer (`Turns.turnsLeft_le`), unless it waits for
the context of its push (`Listens.turnsLeft`).
-/

namespace Patchbay

/-! ### What is sent -/

/-- The responses that a request sends when it takes its turn, as its phase and the contexts have
it. -/
def PendingRequest.due (q : PendingRequest) (f : Forest) : List DataResponse :=
  match q.phase with
  | .received => [.ack q.request.id]
  | .answered a => [a]
  | .pushed context => (f.outcome context).toList.map (DataPlane.finished q.request.id)
  | .acknowledged | .over => []

/-- How many turns a request has left; a push that is not done has none, for it may wait for ever.
-/
def RequestPhase.turnsLeft (f : Forest) : RequestPhase → Nat
  | .received => 3
  | .acknowledged => 2
  | .answered _ => 1
  | .pushed context => if (f.outcome context).isSome then 1 else 0
  | .over => 0

namespace RequestPhase

variable {p : RequestPhase} {f : Forest}

theorem turnsLeft_eq_zero_iff : p.turnsLeft f = 0 ↔
    p = .over ∨ ∃ context, p = .pushed context ∧ f.outcome context = none := by
  cases p <;> simp [turnsLeft]

theorem turnsLeft_pushed_le (f : Forest) (context : Nat) : (pushed context).turnsLeft f ≤ 1 := by
  rw [turnsLeft]
  split <;> omega

theorem turnsLeft_le (p : RequestPhase) (f : Forest) : p.turnsLeft f ≤ 3 := by
  cases p with
  | pushed context => exact Nat.le_trans (turnsLeft_pushed_le f context) (by decide)
  | _ => simp [turnsLeft]

end RequestPhase

namespace Run

/-- The messages that a request sends when it takes its turn: what is due (`PendingRequest.due`),
each in an envelope to the one who asked. -/
def replies (r : Run) (n : Nat) : List TransportMessage :=
  match r.plane with
  | none => []
  | some d =>
    match d.requests[n]? with
    | none => []
    | some q => (q.due r.wiring.forest).map (d.reply q.sender)

/-- The messages that are sent in a move, each with the number of the request that sends it; those
from outside have none. -/
def sends (r : Run) : Move → List (Option Nat × TransportMessage)
  | .transmit m => [(none, m)]
  | .turn (.request n) => (r.replies n).map (some n, ·)
  | _ => []

/-- The messages that are sent during some moves. -/
def sent (r : Run) (ms : List Move) : List (Option Nat × TransportMessage) :=
  observed move sends r ms

theorem sent_concat (r : Run) (ms : List Move) (m : Move) :
    r.sent (ms ++ [m]) = r.sent ms ++ (r.after ms).sends m :=
  observed_concat r ms m

end Run

/-! ### What is heard -/

namespace Subscription

/-- The subscriber after some messages were sent: those on his topic wait for him, in their order.
-/
def hear (ms : List TransportMessage) (s : Subscription) : Subscription :=
  { s with inbox := s.inbox ++ ms.filter fun m => s.topic == m.topic }

@[simp] theorem hear_nil (s : Subscription) : s.hear [] = s := by simp [hear]

theorem hear_hear (s : Subscription) (ms more : List TransportMessage) :
    (s.hear ms).hear more = s.hear (ms ++ more) := by
  simp [hear]

end Subscription

namespace LocalTransport

theorem send_eq (t : LocalTransport) (m : TransportMessage) :
    t.send m = { t with subscriptions := t.subscriptions.map (·.hear [m]) } := by
  rw [send]
  congr 1
  refine List.map_congr_left fun s _ => ?_
  by_cases h : s.topic = m.topic <;> simp [Subscription.hear, h]

/-- Everybody hears what is sent on his topic. -/
theorem foldl_send (t : LocalTransport) (ms : List TransportMessage) :
    ms.foldl send t = { t with subscriptions := t.subscriptions.map (·.hear ms) } := by
  induction ms generalizing t with
  | nil => simp
  | cons m ms ih => simp [ih, send_eq, Subscription.hear_hear, Function.comp_def]

end LocalTransport

/-! ### What the server takes -/

namespace DataPlane

variable {d : DataPlane} {n : Nat} {q : PendingRequest}

/-- A request is from somebody else, and for the server or for nobody in particular. -/
theorem requestIn?_eq_some_iff {m : TransportMessage} {request : DataRequest} :
    d.requestIn? m = some request ↔ m.sender ≠ d.identity ∧
      (m.destination = none ∨ m.destination = some d.identity) ∧
      DataRequest.ofJson? m.payload = some request := by
  unfold requestIn?
  split
  · rename_i h
    simp [beq_iff_eq.mp h]
  · rename_i h
    split
    · rename_i hdest
      obtain ⟨receiver, hreceiver, hne⟩ := (Option.any_eq_true _ _).mp hdest
      have hother : receiver ≠ d.identity := by simpa using hne
      simp [hreceiver, hother]
    · rename_i hdest
      have hmine : m.destination = none ∨ m.destination = some d.identity := by
        cases hreceiver : m.destination with
        | none => exact .inl rfl
        | some receiver => simpa [hreceiver] using hdest
      simpa [hmine] using fun _ => h

/-- The requests in some messages, each in the phase in which it has done nothing yet
(`DataPlane.requestIn?`). -/
def requestsIn (d : DataPlane) (ms : List TransportMessage) : List PendingRequest :=
  ms.filterMap fun m => (d.requestIn? m).map fun request =>
    { sender := m.sender, request := request }

theorem requestsIn_cons (d : DataPlane) (m : TransportMessage) (ms : List TransportMessage) :
    d.requestsIn (m :: ms) = d.requestsIn [m] ++ d.requestsIn ms := by
  rw [requestsIn, ← List.singleton_append, List.filterMap_append]
  rfl

theorem receive_eq (d : DataPlane) (m : TransportMessage) :
    d.receive m = { d with requests := d.requests ++ d.requestsIn [m] } := by
  rw [receive, requestsIn]
  cases h : d.requestIn? m <;> simp [h]

theorem foldl_receive (d : DataPlane) (ms : List TransportMessage) :
    ms.foldl receive d = { d with requests := d.requests ++ d.requestsIn ms } := by
  induction ms generalizing d with
  | nil => simp [requestsIn]
  | cons m ms ih =>
    -- Who is asked does not depend on what was asked before.
    have hsame : (d.receive m).requestsIn ms = d.requestsIn ms := by
      rw [receive_eq]
      rfl
    rw [List.foldl_cons, ih, hsame, requestsIn_cons, ← List.append_assoc, receive_eq]

theorem setPhase_requests (d : DataPlane) (n : Nat) (p : RequestPhase) :
    (d.setPhase n p).requests[n]? =
    d.requests[n]?.map fun q => { q with phase := p } := by
  simp [setPhase]

theorem setPhase_requests_of_ne {k : Nat} (d : DataPlane) (p : RequestPhase) (h : n ≠ k) :
    (d.setPhase n p).requests[k]? = d.requests[k]? := by
  simp [setPhase, h]

/-- The phase is set to what it is. -/
theorem setPhase_self (h : d.requests[n]? = some q) : d.setPhase n q.phase = d := by
  have hsame : d.requests.modify n (fun r => { r with phase := q.phase }) = d.requests := by
    refine List.ext_getElem? fun k => ?_
    by_cases hk : n = k
    · subst hk
      simp [h]
    · simp [hk]
  rw [setPhase, hsame]

end DataPlane

/-! ### What requests do -/

namespace Run

variable {r r' : Run} {d d' : DataPlane} {n : Nat} {q : PendingRequest}

/-- What a request comes to when it begins in a run, and what that makes of the run. A push makes a
context for its item, or is refused by the pad. -/
inductive Begins (r r' : Run) (uptime timeout : Nat) (sender : String) :
    DataRequest → RequestPhase → Prop where
  | read {id : String} {pad : PadRef} {value : Option Json}
      (hvalue : r.wiring.getValue pad = .ok value) (hwiring : r'.wiring = r.wiring) :
      Begins r r' uptime timeout sender (.getValue id pad)
      (.answered (.complete id value none false))
  | unread {id : String} {pad : PadRef} {e : Error} (hvalue : r.wiring.getValue pad = .error e)
      (hwiring : r'.wiring = r.wiring) :
      Begins r r' uptime timeout sender (.getValue id pad)
      (.answered (.complete id none (some e.message) false))
  /-- A push is refused: no property and no queue is touched. -/
  | refused {id : String} {pad : PadRef} {value : Json} {e : Error}
      (haccept : r.wiring.accept pad value = .error e) (hwiring : r'.wiring = r.wiring) :
      Begins r r' uptime timeout sender (.pushValue id pad value)
      (.answered (.complete id none (some e.message) false))
  /-- A value is pushed under a new root context, which is completed at once. -/
  | pushed {id : String} {pad source : PadRef} {value : Json} {deadline context : Nat}
      {forest : Forest}
      (haccept : r.wiring.accept pad value = .ok source)
      (hdeadline : secondsAfter? uptime r.now timeout = some deadline)
      (hroot : r.wiring.forest.addRoot (some DataPlane.originator)
        (some (DataPlane.metadataOf sender)) (some deadline) = (forest, context))
      (hwiring : r'.wiring =
        (({ r.wiring with forest := forest }.push source value context).1.complete context)) :
      Begins r r' uptime timeout sender (.pushValue id pad value) (.pushed context)
  /-- No clock shows the deadline of the push. -/
  | dropped {id : String} {pad : PadRef} {value : Json}
      (hdeadline : secondsAfter? uptime r.now timeout = none)
      (hwiring : r'.wiring = r.wiring) :
      Begins r r' uptime timeout sender (.pushValue id pad value) .over

/-- What a turn makes of the phase of a request. A turn never goes back to an earlier phase
(`Turns.turnsLeft_le`). -/
inductive Turns (r r' : Run) (uptime timeout : Nat) (sender : String) (request : DataRequest) :
    RequestPhase → RequestPhase → Prop where
  | acknowledge : Turns r r' uptime timeout sender request .received .acknowledged
  | begin {p : RequestPhase} (h : Begins r r' uptime timeout sender request p) :
      Turns r r' uptime timeout sender request .acknowledged p
  | answer {a : DataResponse} : Turns r r' uptime timeout sender request (.answered a) .over
  | finish {context : Nat} {o : Completion} (h : r.wiring.forest.outcome context = some o) :
      Turns r r' uptime timeout sender request (.pushed context) .over
  | wait {context : Nat} (h : r.wiring.forest.outcome context = none) (hsame : r' = r) :
      Turns r r' uptime timeout sender request (.pushed context) (.pushed context)
  | rest : Turns r r' uptime timeout sender request .over .over

/-- No request that is begun with has more than one turn left. -/
theorem Begins.turnsLeft_le {uptime timeout : Nat} {sender : String} {request : DataRequest}
    {p : RequestPhase}
    (h : Begins r r' uptime timeout sender request p) (f : Forest) : p.turnsLeft f ≤ 1 := by
  cases h with
  | pushed => exact RequestPhase.turnsLeft_pushed_le f _
  | dropped => exact Nat.zero_le 1
  | _ => exact Nat.le_refl 1

/-- Every turn brings a request nearer to its end. -/
theorem Turns.turnsLeft_le {uptime timeout : Nat} {sender : String} {request : DataRequest}
    {p p' : RequestPhase}
    (h : Turns r r' uptime timeout sender request p p') :
    p'.turnsLeft r'.wiring.forest ≤ p.turnsLeft r.wiring.forest - 1 := by
  cases h with
  | begin h => exact h.turnsLeft_le _
  | wait h hsame => simp [RequestPhase.turnsLeft, hsame, h]
  | _ => simp [RequestPhase.turnsLeft]

@[simp] theorem setPhase_wiring (r : Run) (n : Nat) (p : RequestPhase) :
    (r.setPhase n p).wiring = r.wiring := rfl

@[simp] theorem setPhase_transport (r : Run) (n : Nat) (p : RequestPhase) :
    (r.setPhase n p).transport = r.transport := rfl

@[simp] theorem setPhase_plane (r : Run) (n : Nat) (p : RequestPhase) :
    (r.setPhase n p).plane = r.plane.map (·.setPhase n p) := rfl

@[simp] theorem wake_wiring (r : Run) (p : Pid) : (r.wake p).wiring = r.wiring := by
  unfold wake
  split <;> rfl

@[simp] theorem wakeAll_wiring (r : Run) (ps : List Pid) : (r.wakeAll ps).wiring = r.wiring := by
  rw [wakeAll_eq]

@[simp] theorem transmit_wiring (r : Run) (m : TransportMessage) :
    (r.transmit m).wiring = r.wiring := by
  unfold transmit
  dsimp only
  split <;> simp

@[simp] theorem transmit_transport (r : Run) (m : TransportMessage) :
    (r.transmit m).transport = r.transport.map (·.send m) := by
  unfold transmit
  dsimp only
  split
  · exact (rests_wake _ _).transport
  · rfl

@[simp] theorem transmit_plane (r : Run) (m : TransportMessage) :
    (r.transmit m).plane = r.plane := by
  unfold transmit
  dsimp only
  split
  · exact (rests_wake _ _).plane
  · rfl

theorem begins_beginRequest (hplane : r.plane = some d) (n : Nat) (q : PendingRequest) :
    ∃ p, Begins r (r.beginRequest d n q).1 d.uptime d.timeout q.sender q.request p ∧
      (r.beginRequest d n q).1.plane = some (d.setPhase n p) ∧
      (r.beginRequest d n q).1.transport = r.transport := by
  unfold beginRequest DataPlane.begin
  cases q.request with
  | getValue id pad =>
    cases hvalue : r.wiring.getValue pad <;> simp only [hvalue]
    · exact ⟨_, .unread hvalue rfl, by simp [hplane], rfl⟩
    · exact ⟨_, .read hvalue rfl, by simp [hplane], rfl⟩
  | pushValue id pad value =>
    cases hdeadline : secondsAfter? d.uptime r.now d.timeout with
    | none => exact ⟨_, .dropped hdeadline rfl, by simp [hplane], rfl⟩
    | some deadline =>
      cases haccept : r.wiring.accept pad value <;> simp only [haccept]
      · exact ⟨_, .refused haccept rfl, by simp [hplane], rfl⟩
      · have hwoken := fun (r : Run) (p : Pid) (sinks : List PadRef) =>
          (r.rests_wake p).trans (rests_wakeListeners _ sinks)
        generalize hroot : r.wiring.forest.addRoot _ _ _ = added
        obtain ⟨forest, context⟩ := added
        refine ⟨_, .pushed haccept hdeadline hroot ?_, ?_, ?_⟩
        · simp [wakeListeners]
        · simp [(hwoken _ _ _).plane, hplane]
        · simp [(hwoken _ _ _).transport]

/-- A turn of a request is one step of it (`Turns`), and sends what is due. -/
theorem turns_requestStep (hplane : r.plane = some d) (hq : d.requests[n]? = some q) :
    ∃ p, Turns r (r.requestStep n).1 d.uptime d.timeout q.sender q.request q.phase p ∧
      (r.requestStep n).1.plane = some (d.setPhase n p) ∧
      (r.requestStep n).1.transport = r.transport.map
      ((r.replies n).foldl LocalTransport.send) := by
  have hself := d.setPhase_self hq
  unfold requestStep
  simp only [replies, hplane, hq, PendingRequest.due]
  cases hphase : q.phase with
  | received => exact ⟨_, .acknowledge, by simp [hplane], by simp⟩
  | acknowledged =>
    obtain ⟨p, hbegins, hnext, hsame⟩ := begins_beginRequest hplane n q
    exact ⟨p, .begin hbegins, hnext, by simpa using hsame⟩
  | answered a => exact ⟨_, .answer, by simp [answer, hplane], by simp [answer]⟩
  | pushed context =>
    rw [hphase] at hself
    simp only [answerPush]
    cases houtcome : r.wiring.forest.outcome context with
    | none => exact ⟨_, .wait houtcome rfl, by simp [hself, hplane], by simp⟩
    | some o => exact ⟨_, .finish houtcome, by simp [answer, hplane], by simp [answer]⟩
  | _ =>
    rw [hphase] at hself
    exact ⟨_, .rest, by simp [hself, hplane], by simp⟩

/-! ### What a served run has -/

/-- A run that was started to be served over a transport, after some messages were sent. It says
what every subscriber has heard, and which requests the data plane has. -/
structure Listens (t : LocalTransport) (config : EngineConfig) (uptime : Nat)
    (heard : List TransportMessage) (r : Run)
    (d : DataPlane) : Prop where
  plane : r.plane = some d
  identity : d.identity = t.identity
  topic : d.topic = config.dataPlaneTopic
  timeout : d.timeout = config.dataPlaneTimeout
  uptime : d.uptime = uptime
  /-- Everybody has heard the messages of his topic. The server has taken the first ones of its
  own, and the others wait for it as long as it serves. -/
  transport :
    ∃ taken waiting, r.transport = some ⟨t.identity, t.subscriptions.map (·.hear heard) ++
      if d.isServing then [⟨DataPlane.subscriber, d.topic, waiting⟩] else []⟩ ∧
    taken <+: heard.filter (fun m => d.topic == m.topic) ∧
    (d.isServing = true → taken ++ waiting = heard.filter fun m => d.topic == m.topic) ∧
    d.requests.map (fun q => (q.sender, q.request)) = (d.requestsIn taken).map fun q =>
    (q.sender, q.request)

/-- What a move makes of the data plane: nothing, new requests at its end, or one step of a single
request. -/
inductive Serves (r : Run) (d : DataPlane) : Move → DataPlane → Prop where
  /-- Some requests arrive. -/
  | arrive {m : Move} {d' : DataPlane} {new : List PendingRequest}
      (hm : ∀ n, m ≠ .turn (.request n))
      (hrequests : d'.requests = d.requests ++ new) (hnew : ∀ q ∈ new, q.phase = .received) :
      Serves r d m d'
  /-- A request takes its turn. -/
  | turn {n : Nat} {q : PendingRequest} {p : RequestPhase} (hq : d.requests[n]? = some q)
      (hturns : Turns r (r.move (.turn (.request n))) d.uptime d.timeout q.sender q.request q.phase
        p) :
      Serves r d (.turn (.request n)) (d.setPhase n p)
  /-- There is no such request. -/
  | missing {n : Nat} (hq : d.requests[n]? = none) : Serves r d (.turn (.request n)) d

section

variable {t : LocalTransport} {config : EngineConfig} {uptime : Nat}
  {heard : List TransportMessage}

/-- What changes a run without sending or receiving anything keeps `Listens`, as the turns of nodes
and readers do. -/
theorem Listens.congr (h : Listens t config uptime heard r d) (hplane : r'.plane = r.plane)
    (htransport : r'.transport = r.transport) : Listens t config uptime heard r' d :=
  { h with
    plane := hplane.trans h.plane
    transport := htransport ▸ h.transport }

theorem Listens.send (h : Listens t config uptime heard r d) (ms : List TransportMessage)
    (hplane : r'.plane = r.plane)
    (htransport : r'.transport = r.transport.map (ms.foldl LocalTransport.send)) :
    Listens t config uptime (heard ++ ms) r' d where
  plane := hplane.trans h.plane
  identity := h.identity
  topic := h.topic
  timeout := h.timeout
  uptime := h.uptime
  transport := by
    obtain ⟨taken, waiting, hsubs, htaken, hwaiting, hrequests⟩ := h.transport
    refine ⟨taken, waiting ++ ms.filter fun m => d.topic == m.topic, ?_, ?_, ?_, hrequests⟩
    · rw [htransport, hsubs, Option.map_some, LocalTransport.foldl_send, List.map_append,
        List.map_map]
      cases d.isServing <;> simp [Function.comp_def, Subscription.hear]
    · rw [List.filter_append]
      exact htaken.trans (List.prefix_append _ _)
    · intro hserving
      rw [← List.append_assoc, hwaiting hserving, List.filter_append]

theorem Listens.setPhase (h : Listens t config uptime heard r d) (n : Nat) (p : RequestPhase)
    (hplane : r'.plane = some (d.setPhase n p)) (htransport : r'.transport = r.transport) :
    Listens t config uptime heard r' (d.setPhase n p) where
  plane := hplane
  identity := h.identity
  topic := h.topic
  timeout := h.timeout
  uptime := h.uptime
  transport := by
    obtain ⟨taken, waiting, hsubs, htaken, hwaiting, hrequests⟩ := h.transport
    refine ⟨taken, waiting, htransport.trans hsubs, htaken, hwaiting, Eq.trans ?_ hrequests⟩
    refine List.ext_getElem? fun k => ?_
    by_cases hk : n = k
    · subst hk
      simp [DataPlane.setPhase_requests, Function.comp_def]
    · simp [d.setPhase_requests_of_ne p hk]

/-- The others have other names than the server. -/
theorem filter_not_subscriber {others : List Subscription}
    (h : ∀ s ∈ others, s.name ≠ DataPlane.subscriber) :
    others.filter (fun s => s.name != DataPlane.subscriber) = others :=
  List.filter_eq_self.mpr fun s hs => by simpa using h s hs

theorem partition_subscriptions {others : List Subscription}
    (h : ∀ s ∈ others, s.name ≠ DataPlane.subscriber)
    {mine : Subscription} (hmine : mine.name = DataPlane.subscriber) :
    (others ++ [mine]).partition (fun s => s.name == DataPlane.subscriber) = ([mine], others) := by
  have hin : others.filter (fun s => s.name == DataPlane.subscriber) = [] :=
    List.filter_eq_nil_iff.mpr fun s hs => by simpa using h s hs
  have hout : others.filter (not ∘ fun s => s.name == DataPlane.subscriber) = others :=
    filter_not_subscriber h
  rw [List.partition_eq_filter_filter, List.filter_append, List.filter_append, hin, hout]
  simp [hmine]

variable (hnames : ∀ s ∈ t.subscriptions, s.name ≠ DataPlane.subscriber)
include hnames

theorem name_of_heard (heard : List TransportMessage) :
    ∀ s ∈ t.subscriptions.map (·.hear heard), s.name ≠ DataPlane.subscriber := by
  simpa [Subscription.hear] using hnames

/-- The server takes all that waits for it, and new requests are those among it (`requestsIn`). -/
theorem Listens.serverStep (h : Listens t config uptime heard r d) :
    ∃ d', Listens t config uptime heard r.serverStep d' ∧ Serves r d (.turn .server) d' := by
  obtain ⟨taken, waiting, hsubs, htaken, hwaiting, hrequests⟩ := h.transport
  cases hserving : d.isServing with
  | false =>
    -- The server is not subscribed any more, so nothing waits for it.
    have hsame : r.serverStep = r := by
      unfold Run.serverStep
      simp [hsubs, h.plane, hserving]
    exact ⟨d, by rwa [hsame], .arrive (by simp) (List.append_nil _).symm (by simp)⟩
  | true =>
    rw [hserving, if_pos rfl] at hsubs
    have hall := hwaiting hserving
    have hnew : ∀ q ∈ d.requestsIn waiting, q.phase = .received := by
      intro q hq
      obtain ⟨m, -, hm⟩ := List.mem_filterMap.mp hq
      obtain ⟨request, -, rfl⟩ := Option.map_eq_some_iff.mp hm
      rfl
    refine ⟨{ d with requests := d.requests ++ d.requestsIn waiting }, ?_,
      .arrive (by simp) rfl hnew⟩
    unfold Run.serverStep
    simp only [hsubs, h.plane, hserving, if_true,
      partition_subscriptions (name_of_heard hnames heard)]
    refine Listens.congr ?_ (rests_wakeAll _ _).plane (rests_wakeAll _ _).transport
    refine ⟨?_, h.identity, h.topic, h.timeout, h.uptime, taken ++ waiting, [], ?_, ?_, ?_, ?_⟩
    · simp [DataPlane.foldl_receive, hserving]
    · simp
    · exact hall ▸ List.prefix_rfl
    · exact fun _ => (List.append_nil _).trans hall
    · have hboth : d.requestsIn (taken ++ waiting) = d.requestsIn taken ++ d.requestsIn waiting :=
        List.filterMap_append
      rw [List.map_append, hrequests, ← List.map_append, ← hboth]
      rfl

theorem Listens.stopServing (h : Listens t config uptime heard r d) :
    Listens t config uptime heard r.stopServing { d with isServing := false } where
  plane := by simp [Run.stopServing, h.plane]
  identity := h.identity
  topic := h.topic
  timeout := h.timeout
  uptime := h.uptime
  transport := by
    obtain ⟨taken, waiting, hsubs, htaken, hwaiting, hrequests⟩ := h.transport
    refine ⟨taken, [], ?_, htaken, fun h => absurd h (by simp), hrequests⟩
    rw [Run.stopServing, hsubs, Option.map_some, LocalTransport.unsubscribe, List.filter_append,
      filter_not_subscriber (name_of_heard hnames heard)]
    cases d.isServing <;> simp

theorem Listens.turn (h : Listens t config uptime heard r d) (p : Pid) :
    ∃ d', Listens t config uptime (heard ++ (r.sends (.turn p)).map (·.2)) (r.turn p).1 d' ∧
    Serves r d (.turn p) d' := by
  -- All others leave the data plane and the transport alone.
  have hquiet : p ≠ .server → (∀ n, p ≠ .request n) →
      ∃ d', Listens t config uptime heard (r.turn p).1 d' ∧ Serves r d (.turn p) d' := by
    intro hserver hrequest
    have hspares := r.spares_turn hserver hrequest
    exact ⟨d, h.congr hspares.plane hspares.transport,
      .arrive (by simpa using hrequest) (List.append_nil _).symm (by simp)⟩
  cases p with
  | server => simpa [sends, Run.turn] using h.serverStep hnames
  | request n =>
    have hsends : (r.sends (.turn (.request n))).map (·.2) = r.replies n := by
      simp [sends, Function.comp_def]
    rw [hsends]
    cases hq : d.requests[n]? with
    | none =>
      have hsame : (r.turn (.request n)).1 = r := by simp [Run.turn, requestStep, h.plane, hq]
      have hnone : r.replies n = [] := by simp [replies, h.plane, hq]
      rw [hsame, hnone, List.append_nil]
      exact ⟨d, h, .missing hq⟩
    | some q =>
      obtain ⟨p, hturns, hplane, htransport⟩ := turns_requestStep h.plane hq
      -- First what is due is heard, and then the phase is set.
      have hsent : Listens t config uptime (heard ++ r.replies n)
          { r with transport := r.transport.map ((r.replies n).foldl LocalTransport.send) } d :=
        h.send (r.replies n) rfl rfl
      exact ⟨_, hsent.setPhase n p hplane htransport, .turn hq hturns⟩
  | _ => simpa [sends] using hquiet (by simp) (by simp)

/-- Whatever happens, subscribers hear what is sent, and the server keeps the requests among it.
This is the step, and `attends_after` goes on from it by induction on the moves. -/
theorem Listens.move (h : Listens t config uptime heard r d) (m : Move) :
    ∃ d', Listens t config uptime (heard ++ (r.sends m).map (·.2)) (r.move m) d' ∧
    Serves r d m d' := by
  have hquiet : r.sends m = [] → (∀ n, m ≠ .turn (.request n)) → (r.move m).plane = r.plane →
      (r.move m).transport = r.transport →
        ∃ d', Listens t config uptime (heard ++ (r.sends m).map (·.2)) (r.move m) d' ∧
        Serves r d m d' := by
    intro hsends hm hplane htransport
    rw [hsends, List.map_nil, List.append_nil]
    exact ⟨d, h.congr hplane htransport, .arrive hm (List.append_nil _).symm (by simp)⟩
  cases m with
  | turn p => exact h.turn hnames p
  | clock now => exact hquiet rfl (by simp) rfl rfl
  | schedule ready sleepers => exact hquiet rfl (by simp) rfl rfl
  | push pad v timeout leaveOpen =>
    have hrests : r.Rests (r.move (.push pad v timeout leaveOpen)) := by
      rw [Run.move]
      split
      · rename_i hpush
        exact rests_push hpush
      · exact .refl r
    exact hquiet rfl (by simp) hrests.plane hrests.transport
  | complete context => exact hquiet rfl (by simp) rfl rfl
  | cancel context => exact hquiet rfl (by simp) rfl rfl
  | transmit m =>
    refine ⟨d, ?_, .arrive (by simp) (List.append_nil _).symm (by simp)⟩
    exact h.send [m] (r.transmit_plane m) (r.transmit_transport m)
  | stop => exact hquiet rfl (by simp) r.rests_stop.plane r.rests_stop.transport
  | stopServing =>
    refine ⟨{ d with isServing := false }, ?_, .arrive (by simp) (List.append_nil _).symm
      (by simp)⟩
    have hnone : r.sends .stopServing = [] := rfl
    rw [hnone, List.map_nil, List.append_nil]
    exact h.stopServing hnames
  | disown => exact hquiet rfl (by simp) rfl rfl

/-- The turns of a request come to an end, unless it waits for the context of its push
(`RequestPhase.turnsLeft`). -/
theorem Listens.turnsLeft (h : Listens t config uptime heard r d) (hq : d.requests[n]? = some q)
    {k : Nat}
    (hk : q.phase.turnsLeft r.wiring.forest ≤ k) : ∃ heard' d' q',
      Listens t config uptime heard' (r.after (List.replicate k (.turn (.request n)))) d' ∧
      d'.requests[n]? = some q' ∧
        q'.phase.turnsLeft (r.after (List.replicate k (.turn (.request n)))).wiring.forest =
        0 := by
  induction k generalizing r d q heard with
  | zero => exact ⟨heard, d, q, h, hq, Nat.le_zero.mp hk⟩
  | succ k ih =>
    obtain ⟨d', h', hserves⟩ := h.move hnames (.turn (.request n))
    cases hserves with
    | arrive hm => exact absurd rfl (hm n)
    | missing hnone => exact absurd (hnone.symm.trans hq) (by simp)
    | @turn _ asked p hasked hturns =>
      obtain rfl := Option.some_inj.mp (hasked.symm.trans hq)
      have hnext : (d.setPhase n p).requests[n]? = some { asked with phase := p } := by
        rw [DataPlane.setPhase_requests, hasked, Option.map_some]
      have hfewer := hturns.turnsLeft_le
      exact ih h' hnext (by dsimp only; omega)

end

/-- A run that is just started to be served has heard nothing, and has no requests. -/
theorem listens_startServed {g : FlatGraph} {config : EngineConfig} {services : Services}
    {id : String}
    {hasScheduler : Bool} {t : LocalTransport} {uptime : Nat}
    (h : Run.startServed g config services id hasScheduler t uptime = .ok r) :
    ∃ d, Listens t config uptime [] r d ∧ d.requests = [] := by
  obtain ⟨a, -, rfl⟩ := map_eq_ok_iff.mp h
  refine ⟨⟨t.identity, config.dataPlaneTopic, config.dataPlaneTimeout, uptime, true, []⟩, ?_, rfl⟩
  refine Listens.congr ?_ (rests_wake _ _).plane (rests_wake _ _).transport
  refine ⟨rfl, rfl, rfl, rfl, rfl, [], [], ?_, List.prefix_rfl, fun _ => rfl, rfl⟩
  simp [LocalTransport.subscribe]

end Run

end Patchbay
