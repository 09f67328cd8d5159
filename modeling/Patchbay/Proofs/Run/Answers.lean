import Mathlib.Data.List.Permutation
import Patchbay.Proofs.Run.Serving

/-!
# Every request is answered once

In whatever order the processes of a served run take turns, and whatever is sent to it, each
request that the server takes is acknowledged once to the participant who asked, and then answered
once. A `Run.History` lists how far a request can be, with what it has sent until then: nothing
while it waits for its first turn, an acknowledgement before the answer, and nothing after the
answer.

The histories are kept by every turn of their request (`History.turn`), and by what happens to
others (`History.concat`); together with what the server hears (`Listens`) this gives
`Run.attends_after`, the account of a whole run (`Run.Attends`).

One request gets no answer: a push whose deadline no clock shows is dropped once it is
acknowledged, and so it stays without an answer for ever, even where the pad would have refused the
value.
-/

namespace Patchbay.Run

variable {r : Run} {d d' : DataPlane} {n : Nat} {q : PendingRequest} {ms : List Move} {m : Move}
  {uptime timeout : Nat}
  {sender : String} {request : DataRequest} {p p' : RequestPhase} {responses : List DataResponse}

/-- The messages that a request sends during some moves, which are those of its own turns
(`Run.replies`). -/
def answers (r : Run) (ms : List Move) (n : Nat) : List TransportMessage :=
  (r.sent ms).filterMap fun e => if e.1 = some n then some e.2 else none

theorem answers_turn (r : Run) (ms : List Move) (n : Nat) :
    r.answers (ms ++ [.turn (.request n)]) n = r.answers ms n ++ (r.after ms).replies n := by
  rw [answers, answers, sent_concat, List.filterMap_append, sends, List.filterMap_map]
  simp

theorem mem_sends {e : Option Nat × TransportMessage} (h : e ∈ r.sends m) (hn : e.1 = some n) :
    m = .turn (.request n) ∧ e.2 ∈ r.replies n := by
  unfold sends at h
  split at h
  · obtain rfl := List.mem_singleton.mp h
    exact absurd hn (by simp)
  · obtain ⟨message, hmem, rfl⟩ := List.mem_map.mp h
    obtain rfl := Option.some_inj.mp hn
    exact ⟨rfl, hmem⟩
  · exact absurd h (by simp)

/-- A request sends nothing when it is not its turn. -/
theorem answers_concat_of_ne (r : Run) (ms : List Move) (h : m ≠ .turn (.request n)) :
    r.answers (ms ++ [m]) n = r.answers ms n := by
  have hnone :
      ((r.after ms).sends m).filterMap (fun e => if e.1 = some n then some e.2 else none) =
      [] := by
    refine List.filterMap_eq_nil_iff.mpr fun e he => if_neg fun hn => h (mem_sends he hn).1
  rw [answers, answers, sent_concat, List.filterMap_append, hnone, List.append_nil]

/-! ### How far a request is -/

/-- A request began in one of its turns (`Begins`), and came to a phase. The state in which it
began decides about its answer. -/
def Began (r₀ : Run) (ms : List Move) (uptime timeout n : Nat) (sender : String)
    (request : DataRequest)
    (p : RequestPhase) : Prop :=
  Moment move r₀ ms fun r m => m = .turn (.request n) ∧
    Begins r (r.move m) uptime timeout sender request p

/-- How far a request can be after some moves, with the responses that it has sent. There is one
constructor for each phase (`RequestPhase`), so that a phase can be read backwards. -/
inductive History (r₀ : Run) (ms : List Move) (uptime timeout n : Nat) (sender : String)
    (request : DataRequest) :
    RequestPhase → List DataResponse → Prop where
  | received : History r₀ ms uptime timeout n sender request .received []
  | acknowledged : History r₀ ms uptime timeout n sender request .acknowledged [.ack request.id]
  | answered {a : DataResponse} (h : r₀.Began ms uptime timeout n sender request (.answered a)) :
      History r₀ ms uptime timeout n sender request (.answered a) [.ack request.id]
  | pushed {context : Nat} (h : r₀.Began ms uptime timeout n sender request (.pushed context)) :
      History r₀ ms uptime timeout n sender request (.pushed context) [.ack request.id]
  /-- A value was read, or something was refused. -/
  | told {a : DataResponse} (h : r₀.Began ms uptime timeout n sender request (.answered a)) :
      History r₀ ms uptime timeout n sender request .over [.ack request.id, a]
  /-- A value was pushed; when the answer was sent, the context of the push was done. -/
  | finished {context : Nat} {o : Completion}
      (h : r₀.Began ms uptime timeout n sender request (.pushed context))
      (hdone : ∃ before later, ms = before ++ .turn (.request n) :: later ∧
        (r₀.answers before n).length = 1 ∧ (r₀.after before).outcome context = some o)
      (houtcome : (r₀.after ms).outcome context = some o) :
      History r₀ ms uptime timeout n sender request .over [.ack request.id,
        DataPlane.finished request.id o]
  /-- The request ended without an answer. -/
  | dropped (h : r₀.Began ms uptime timeout n sender request .over) :
      History r₀ ms uptime timeout n sender request .over [.ack request.id]

theorem Began.concat (h : r.Began ms uptime timeout n sender request p) (m : Move) :
    r.Began (ms ++ [m]) uptime timeout n sender request p :=
  moment_append.mpr (.inl h)

/-- What happens to others changes nothing about a request: a history goes on with any move that is
not its turn. -/
theorem History.concat (h : r.History ms uptime timeout n sender request p responses) (m : Move) :
    r.History (ms ++ [m]) uptime timeout n sender request p responses := by
  cases h with
  | received => exact .received
  | acknowledged => exact .acknowledged
  | answered h => exact .answered (h.concat m)
  | pushed h => exact .pushed (h.concat m)
  | told h => exact .told (h.concat m)
  | finished h hdone houtcome =>
    obtain ⟨before, later, rfl, hone, hbefore⟩ := hdone
    refine .finished (h.concat m) ⟨before, later ++ [m], by simp, hone, hbefore⟩ ?_
    rw [after_concat]
    exact (keeps_move _ m).wiring.outcome _ _ houtcome
  | dropped h => exact .dropped (h.concat m)

/-- The next turn of a request carries its history on (`Turns`), and what is sent in it is what the
history lists. -/
theorem History.turn (h : r.History ms uptime timeout n sender request p responses)
    (hsent : (r.answers ms n).length = responses.length)
    (hturns : Turns (r.after ms) ((r.after ms).move (.turn (.request n))) uptime timeout sender
      request p p') :
    r.History (ms ++ [.turn (.request n)]) uptime timeout n sender request p'
      (responses ++ PendingRequest.due ⟨sender, request, p⟩ (r.after ms).wiring.forest) := by
  cases hturns with
  | acknowledge =>
    cases h
    exact .acknowledged
  | begin hbegins =>
    cases h
    have hbegan : r.Began (ms ++ [.turn (.request n)]) uptime timeout n sender request p' :=
      ⟨ms, _, [], rfl, rfl, hbegins⟩
    cases hbegins with
    | read | unread | refused => exact .answered hbegan
    | pushed => exact .pushed hbegan
    | dropped => exact .dropped hbegan
  | answer =>
    cases h with
    | answered h => exact .told (h.concat _)
  | @finish context o houtcome =>
    cases h with
    | pushed h =>
      have hdue : PendingRequest.due ⟨sender, request, .pushed context⟩
          (r.after ms).wiring.forest =
          [DataPlane.finished request.id o] := by simp [PendingRequest.due, houtcome]
      rw [hdue]
      refine .finished (h.concat _) ⟨ms, [], rfl, hsent, houtcome⟩ ?_
      rw [after_concat]
      exact (keeps_move _ _).wiring.outcome _ _ houtcome
  | @wait context houtcome _ =>
    -- Nothing is sent, and the request is where it was.
    have hdue : PendingRequest.due ⟨sender, request, .pushed context⟩
        (r.after ms).wiring.forest = [] := by
      simp [PendingRequest.due, houtcome]
    rw [hdue, List.append_nil]
    exact h.concat _
  | rest =>
    rw [PendingRequest.due, List.append_nil]
    exact h.concat _

/-! ### All requests -/

/-- What a served run does for those who ask it. After the moves `ms` the data plane is `d`: it has
taken the messages of its own topic in their order (`Listens`), it has a request for each of them
that asks for something (`DataPlane.requestIn?`), and each of these has sent what its history says
(`Run.History`), to the participant who asked and to nobody else. Three turns are enough for a
request, unless it waits for the context of its push. -/
structure Attends (t : LocalTransport) (config : EngineConfig) (uptime : Nat) (r₀ : Run)
    (ms : List Move) (d : DataPlane) : Prop where
  /-- Everybody hears what is sent on his topic, and the server keeps the requests that it takes
  from its own. -/
  listens : Listens t config uptime ((r₀.sent ms).map (·.2)) (r₀.after ms) d
  /-- Requests come from somebody else, and are for the server or for nobody in particular. -/
  asks : ∀ m request, d.requestIn? m = some request ↔ m.sender ≠ d.identity ∧
    (m.destination = none ∨ m.destination = some d.identity) ∧
    DataRequest.ofJson? m.payload = some request
  /-- Nothing is sent but from outside, and for a request. -/
  asked : ∀ n m, (some n, m) ∈ r₀.sent ms → n < d.requests.length
  /-- What a request has sent, to the participant who asked. -/
  history : ∀ n q, d.requests[n]? = some q → ∃ responses,
    r₀.answers ms n = responses.map (d.reply q.sender) ∧
    r₀.History ms uptime config.dataPlaneTimeout n q.sender q.request q.phase responses
  /-- After three turns more a request has ended, or waits for the context of its push. -/
  ends : ∀ n q, d.requests[n]? = some q → ∃ r d' q',
    r = (r₀.after ms).after (List.replicate 3 (.turn (.request n))) ∧ r.plane = some d' ∧
      d'.requests[n]? = some q' ∧
      (q'.phase = .over ∨ ∃ context, q'.phase = .pushed context ∧ r.outcome context = none)

section

variable {t : LocalTransport} {config : EngineConfig} {r₀ : Run}

theorem answers_eq_nil (h : ∀ n m, (some n, m) ∈ r₀.sent ms → n < d.requests.length)
    (hn : d.requests.length ≤ n) :
    r₀.answers ms n = [] := by
  refine List.filterMap_eq_nil_iff.mpr fun e he => if_neg fun hk => ?_
  obtain ⟨k, m⟩ := e
  obtain rfl := hk
  exact absurd (h n m he) (Nat.not_lt.mpr hn)

/-- Answers have the same form for as long as a run is served: topic, sender and encoding are
settled when it starts. -/
theorem Listens.reply_eq {heard heard' : List TransportMessage} {r r' : Run}
    (h : Listens t config uptime heard r d)
    (h' : Listens t config uptime heard' r' d') : d'.reply = d.reply := by
  funext receiver response
  simp [DataPlane.reply, h.topic, h'.topic, h.identity, h'.identity]

theorem replies_eq (hplane : r.plane = some d) (hq : d.requests[n]? = some q) :
    r.replies n = (q.due r.wiring.forest).map (d.reply q.sender) := by
  simp only [replies, hplane, hq]

theorem Serves.length_le (h : r.Serves d m d') : d.requests.length ≤ d'.requests.length := by
  cases h with
  | arrive _ hrequests _ => simp [hrequests]
  | turn => simp [DataPlane.setPhase]
  | missing => exact Nat.le_refl _

theorem sent_lt_concat (h : ∀ n message, (some n, message) ∈ r₀.sent ms → n < d.requests.length)
    (hplane : (r₀.after ms).plane = some d) {message : TransportMessage}
    (hmem : (some n, message) ∈ r₀.sent (ms ++ [m])) : n < d.requests.length := by
  rw [sent_concat] at hmem
  rcases List.mem_append.mp hmem with hmem | hmem
  · exact h n message hmem
  · obtain ⟨-, hreply⟩ := mem_sends hmem rfl
    by_contra hn
    rw [replies, hplane] at hreply
    simp [List.getElem?_eq_none (Nat.not_lt.mp hn)] at hreply

/-- What a request has sent, and what it came to, after one move more. It is the step of
`attends_after`. -/
theorem Serves.history (hserves : (r₀.after ms).Serves d m d')
    (hplane : (r₀.after ms).plane = some d)
    (huptime : d.uptime = uptime)
    (htimeout : d.timeout = timeout) (hreply : d'.reply = d.reply)
    (hasked : ∀ n message, (some n, message) ∈ r₀.sent ms → n < d.requests.length)
    (h : ∀ n q, d.requests[n]? = some q → ∃ responses,
      r₀.answers ms n = responses.map (d.reply q.sender) ∧
      r₀.History ms uptime timeout n q.sender q.request q.phase responses)
    (hq : d'.requests[n]? = some q) : ∃ responses,
      r₀.answers (ms ++ [m]) n = responses.map (d'.reply q.sender) ∧
        r₀.History (ms ++ [m]) uptime timeout n q.sender q.request q.phase responses := by
  -- Only its own turn makes a request send anything or change its phase.
  have hother : m ≠ .turn (.request n) → d.requests[n]? = some q → ∃ responses,
      r₀.answers (ms ++ [m]) n = responses.map (d'.reply q.sender) ∧
        r₀.History (ms ++ [m]) uptime timeout n q.sender q.request q.phase responses := by
    intro hm hq
    obtain ⟨responses, hsent, hhistory⟩ := h n q hq
    exact ⟨responses, by rw [answers_concat_of_ne _ _ hm, hsent, hreply], hhistory.concat m⟩
  cases hserves with
  | arrive hm hrequests hnew =>
    rw [hrequests, List.getElem?_append] at hq
    split at hq
    · exact hother (hm n) hq
    · -- The request is new, and its number was nobody's before.
      rename_i hn
      have hnone := answers_eq_nil hasked (Nat.not_lt.mp hn)
      refine ⟨[], by rw [answers_concat_of_ne _ _ (hm n), hnone, List.map_nil], ?_⟩
      rw [hnew q (List.mem_of_getElem? hq)]
      exact .received
  | @turn k asked p hk hturns =>
    by_cases hn : k = n
    · subst hn
      rw [DataPlane.setPhase_requests, hk, Option.map_some, Option.some_inj] at hq
      subst hq
      obtain ⟨responses, hsent, hhistory⟩ := h k asked hk
      rw [huptime, htimeout] at hturns
      refine ⟨responses ++ asked.due (r₀.after ms).wiring.forest, ?_, ?_⟩
      · rw [answers_turn, hsent, replies_eq hplane hk, List.map_append, hreply]
      · exact hhistory.turn (by rw [hsent, List.length_map]) hturns
    · rw [DataPlane.setPhase_requests_of_ne _ _ hn] at hq
      exact hother (by simpa using hn) hq
  | @missing k hnone =>
    refine hother ?_ hq
    rintro hm
    obtain rfl : k = n := by simpa using hm
    exact absurd (hnone.symm.trans hq) (by simp)

/-- In whatever order things happen to a served run, each request is acknowledged, and unless it is
dropped then answered once, to the participant who asked (`Attends`). It is dropped when the
deadline of its push cannot be told as a time of the clock, which has been running for `uptime`
when the run starts; how long that is makes no difference to the rest. -/
theorem attends_after {g : FlatGraph} {services : Services} {id : String} {hasScheduler : Bool}
    (hstart : Run.startServed g config services id hasScheduler t uptime = .ok r₀)
    (hnames : ∀ s ∈ t.subscriptions, s.name ≠ DataPlane.subscriber) (ms : List Move) :
    ∃ d, Attends t config uptime r₀ ms d := by
  have hinv : ∃ d, Listens t config uptime ((r₀.sent ms).map (·.2)) (r₀.after ms) d ∧
      (∀ n message, (some n, message) ∈ r₀.sent ms → n < d.requests.length) ∧
      ∀ n q, d.requests[n]? = some q → ∃ responses, r₀.answers ms n = responses.map
      (d.reply q.sender) ∧
        r₀.History ms uptime config.dataPlaneTimeout n q.sender q.request q.phase responses := by
    -- By the last move: what is sent in it depends on all that was before.
    induction ms using List.reverseRecOn with
    | nil =>
      obtain ⟨d, hlistens, hnone⟩ := listens_startServed hstart
      exact ⟨d, hlistens, by simp [sent, observed], by simp [hnone]⟩
    | append_singleton ms m ih =>
      obtain ⟨d, h, hasked, hhistory⟩ := ih
      obtain ⟨d', hlistens, hserves⟩ := h.move hnames m
      have hreply := h.reply_eq hlistens
      rw [← List.map_append, ← sent_concat, ← after_concat] at hlistens
      refine ⟨d', hlistens, fun n message hmem => ?_, fun n q hq => ?_⟩
      · exact Nat.lt_of_lt_of_le (sent_lt_concat hasked h.plane hmem) hserves.length_le
      · exact hserves.history h.plane h.uptime h.timeout hreply hasked hhistory hq
  obtain ⟨d, hlistens, hasked, hhistory⟩ := hinv
  refine ⟨d, hlistens, fun _ _ => DataPlane.requestIn?_eq_some_iff, hasked, hhistory,
    fun n q hq => ?_⟩
  obtain ⟨_, d', q', h', hq', hend⟩ := hlistens.turnsLeft hnames hq (q.phase.turnsLeft_le _)
  exact ⟨_, d', q', rfl, h'.plane, hq', RequestPhase.turnsLeft_eq_zero_iff.mp hend⟩

end

/-- A node that holds a text. -/
def loneText : FlatGraph where
  nodes := [⟨"text", "Text", default,
    [{ id := "value", padType := ⟨.source, .property⟩, value := some (.str "a") }]⟩]
  links := []

/-- The text is asked for, and then another one is pushed. Each request takes the turns that it
needs. -/
def loneMoves : List Move :=
  let ask (request : DataRequest) : Move :=
    .transmit { topic := "runtime_api", sender := "client", payload := request.toJson }
  [ask (.getValue "1" ⟨"text", "value"⟩), ask (.pushValue "2" ⟨"text", "value"⟩ (.str "b")),
    .turn .server] ++
    List.replicate 3 (.turn (.request 0)) ++ List.replicate 3 (.turn (.request 1))

/-- Pushes may take longer than any clock runs: the timeout is the largest number of seconds that
can be configured. -/
def unhurried : EngineConfig := { dataPlaneTimeout := 18446744073709551615 }

/-- A transport with one guest who listens. -/
def hosted : LocalTransport := ⟨"host", [⟨"guest", "runtime_api", []⟩]⟩

/-- The text is told, and the push gets no answer: it is acknowledged, and its deadline is past the
end of the clock. -/
theorem attends_after_lone : ∃ r, Run.startServed loneText unhurried {} "run" true hosted = .ok r ∧
    (∀ s ∈ hosted.subscriptions, s.name ≠ DataPlane.subscriber) ∧
    (∃ d, Attends hosted unhurried (60 * second) r loneMoves d) ∧
    (r.answers loneMoves 0).map (·.payload) =
      [(DataResponse.ack "1").toJson,
        (DataResponse.complete "1" (some (.str "a")) none false).toJson] ∧
    (r.answers loneMoves 1).map (·.payload) = [(DataResponse.ack "2").toJson] := by
  obtain ⟨r, hr⟩ : ∃ r, Run.startServed loneText unhurried {} "run" true hosted = .ok r := ⟨_, rfl⟩
  have hnames : ∀ s ∈ hosted.subscriptions, s.name ≠ DataPlane.subscriber := by decide
  refine ⟨r, hr, hnames, attends_after hr hnames loneMoves, ?_⟩
  obtain rfl := Except.ok.inj hr
  constructor
  · cbv
  · cbv

end Patchbay.Run
