import Patchbay.Proofs.Run.Keeps

/-!
# The moves of a run

A `Move` is one thing that happens to a run: any process takes a turn, whether or not the scheduler
would let it go on, the clock moves, or somebody acts from outside. So a list of moves is one of
all the orders in which the processes of a run can meet, and what holds after any moves holds of
every schedule.

What the scheduler makes of a run is made of moves (`Run.Leads.reaches`): to settle is to take
turns, and to advance is to move the clock in between. Every move keeps what a run keeps
(`Run.keeps_move`).
-/

namespace Patchbay

/-- One thing that happens to a run: the turn of a process, a step of the clock, or something from
outside. It is not asked whether the scheduler would choose it. -/
inductive Move where
  /-- A process goes on. -/
  | turn (p : Pid)
  /-- The clock shows a time in milliseconds. -/
  | clock (now : Nat)
  /-- Others are to go on next. -/
  | schedule (ready : List Pid) (sleepers : List (Nat × Pid))
  | push (pad : PadRef) (value : Json) (timeout : Option Nat) (leaveOpen : Bool)
  | complete (context : Nat)
  | cancel (context : Nat)
  /-- Somebody sends a message. -/
  | transmit (message : TransportMessage)
  /-- All tasks are asked to end. -/
  | stop
  | stopServing
  | disown

namespace Run

variable {r r' : Run}

/-- The run after a move. -/
def move (r : Run) : Move → Run
  | .turn p => (r.turn p).1
  | .clock now => { r with now := now }
  | .schedule ready sleepers => { r with ready := ready, sleepers := sleepers }
  | .push pad v timeout leaveOpen =>
    match r.push pad v timeout leaveOpen with
    | .ok (r, _) => r
    | .error _ => r
  | .complete context => r.complete context
  | .cancel context => r.cancel context
  | .transmit m => r.transmit m
  | .stop => r.stop
  | .stopServing => r.stopServing
  | .disown => { r with isOwned := false }

/-- The run after some moves. -/
def after (r : Run) (ms : List Move) : Run := ms.foldl move r

theorem after_append (r : Run) (ms more : List Move) :
    r.after (ms ++ more) = (r.after ms).after more :=
  List.foldl_append

@[simp] theorem after_concat (r : Run) (ms : List Move) (m : Move) :
    r.after (ms ++ [m]) = (r.after ms).move m := by
  rw [after_append]
  rfl

/-- A run that was started from a flat graph (`Run.start`, `Run.startServed`), whether it serves a
data plane or not. -/
inductive Starts (g : FlatGraph) : Run → Prop where
  | plain {r : Run} {config : EngineConfig} {services : Services} {id : String}
      {hasScheduler : Bool} (h : Run.start g config services id hasScheduler = .ok r) : Starts g r
  | served {r : Run} {config : EngineConfig} {services : Services} {id : String}
      {hasScheduler : Bool} {t : LocalTransport} {uptime : Nat}
      (h : Run.startServed g config services id hasScheduler t uptime = .ok r) : Starts g r

/-! ### What a move keeps -/

theorem keeps_transmit (r : Run) (m : TransportMessage) : r.Keeps (r.transmit m) := by
  have hsent : r.Keeps { r with transport := r.transport.map (·.send m) } := ⟨.refl _, .refl⟩
  unfold transmit
  dsimp only
  split
  · exact hsent.trans (rests_wake _ _).toKeeps
  · exact hsent

theorem keeps_serverStep (r : Run) : r.Keeps r.serverStep := by
  unfold serverStep
  split
  · split
    · refine Keeps.trans ?_ (rests_wakeAll _ _).toKeeps
      exact ⟨.refl _, .refl⟩
    · exact .refl r
  · exact .refl r

theorem keeps_setPhase (r : Run) (number : Nat) (phase : RequestPhase) :
    r.Keeps (r.setPhase number phase) :=
  ⟨.refl _, .refl⟩

theorem keeps_answer (r : Run) (d : DataPlane) (number : Nat) (sender : String)
    (a : DataResponse) :
    r.Keeps (r.answer d number sender a) :=
  (r.keeps_setPhase number .over).trans (keeps_transmit _ _)

theorem keeps_answerPush (r : Run) (d : DataPlane) (number : Nat) (q : PendingRequest)
    (context : Nat) :
    r.Keeps (r.answerPush d number q context) := by
  unfold answerPush
  split
  · exact r.keeps_answer _ _ _ _
  · exact .refl r

theorem keeps_beginRequest (r : Run) (d : DataPlane) (number : Nat) (q : PendingRequest) :
    r.Keeps (r.beginRequest d number q).1 := by
  have hbegun := (r.rests_wiring (d.keeps_begin r.wiring r.now q)).toKeeps
  unfold beginRequest
  split
  · rename_i heq
    rw [heq] at hbegun
    exact hbegun.trans (keeps_setPhase _ _ _)
  · rename_i heq
    rw [heq] at hbegun
    exact ((hbegun.trans (rests_wake _ _).toKeeps).trans (rests_wakeListeners _ _).toKeeps).trans
      (keeps_setPhase _ _ _)
  · rename_i heq
    rw [heq] at hbegun
    exact hbegun.trans (keeps_setPhase _ _ _)

theorem keeps_requestStep (r : Run) (number : Nat) : r.Keeps (r.requestStep number).1 := by
  unfold requestStep
  split
  · exact .refl r
  · split
    · exact .refl r
    · split
      · exact (r.keeps_setPhase _ _).trans (keeps_transmit _ _)
      · exact r.keeps_beginRequest _ _ _
      · exact r.keeps_answer _ _ _ _
      · exact r.keeps_answerPush _ _ _ _
      · exact .refl r

/-- Only the server and its requests touch the data plane. -/
theorem spares_turn (r : Run) {p : Pid} (hserver : p ≠ .server) (hrequest : ∀ n, p ≠ .request n) :
    r.Spares (r.turn p).1 := by
  cases p with
  | node id =>
    rw [turn]
    split
    · exact (r.tends_nodeStep _).toSpares
    · exact .refl r
  | reader node slot =>
    rw [turn]
    split
    · exact (r.tends_readerStep _ slot).toSpares
    · exact .refl r
  | drain node sink =>
    rw [turn]
    split
    · exact (r.rests_wiring (r.wiring.keeps_drain _)).toSpares
    · exact .refl r
  | supervisor => exact r.spares_superviseStep
  | watch context => exact (r.rests_watchStep context).toSpares
  | server => exact absurd rfl hserver
  | request number => exact absurd rfl (hrequest number)

theorem keeps_turn (r : Run) (p : Pid) : r.Keeps (r.turn p).1 := by
  cases p with
  | server => exact r.keeps_serverStep
  | request number => exact r.keeps_requestStep number
  | _ => exact (r.spares_turn (by simp) (by simp)).toKeeps

theorem rests_push {pad : PadRef} {v : Json} {timeout : Option Nat} {leaveOpen : Bool}
    {pushed : Pushed}
    (h : r.push pad v timeout leaveOpen = .ok (r', pushed)) : r.Rests r' := by
  have hadd := r.rests_addContext none timeout
  unfold push at h
  split at h
  · exact absurd h (by simp)
  · generalize r.addContext none timeout = added at h hadd
    obtain ⟨rfl, -⟩ := Prod.mk.inj (Except.ok.inj h)
    have hpushed := fun source sinks => (hadd.trans
      (rests_wiring _ (added.1.wiring.keeps_push source v added.2))).trans
      (rests_wakeListeners _ sinks)
    split
    · exact hpushed _ _
    · exact (hpushed _ _).trans (rests_complete _ _)

theorem rests_cancel (r : Run) (context : Nat) : r.Rests (r.cancel context) :=
  r.rests_mapForest (Forest.remembers_settle _ _)

theorem rests_stop (r : Run) : r.Rests r.stop := by
  have hasked : r.Rests { r with lifecycle := r.lifecycle.requestStop } :=
    ⟨⟨⟨.refl _, .single (.stop _)⟩, rfl, rfl, rfl⟩, rfl⟩
  exact hasked.trans (rests_wake _ _)

/-- Whatever happens to a run, it keeps its constraints and outcomes, and its lifecycle evolves
(`Run.Keeps`). -/
theorem keeps_move (r : Run) (m : Move) : r.Keeps (r.move m) := by
  cases m with
  | turn p => exact r.keeps_turn p
  | clock now => exact ⟨.refl _, .refl⟩
  | schedule ready sleepers => exact ⟨.refl _, .refl⟩
  | push pad v timeout leaveOpen =>
    rw [move]
    split
    · rename_i hpush
      exact (rests_push hpush).toKeeps
    · exact .refl r
  | complete context => exact (r.rests_complete context).toKeeps
  | cancel context => exact (r.rests_cancel context).toKeeps
  | transmit m => exact r.keeps_transmit m
  | stop => exact r.rests_stop.toKeeps
  | stopServing => exact ⟨.refl _, .refl⟩
  | disown => exact ⟨.refl _, .refl⟩

theorem keeps_after (r : Run) (ms : List Move) : r.Keeps (r.after ms) := by
  induction ms generalizing r with
  | nil => exact .refl r
  | cons m ms ih => exact (r.keeps_move m).trans (ih _)

/-! ### What the scheduler makes of a run -/

/-- Some moves lead from one run to another (`Run.after`). -/
def Reaches (r r' : Run) : Prop := ∃ ms, r' = r.after ms

theorem Reaches.refl (r : Run) : r.Reaches r := ⟨[], rfl⟩

theorem Reaches.trans {r'' : Run} (h : r.Reaches r') (h' : r'.Reaches r'') : r.Reaches r'' := by
  obtain ⟨ms, rfl⟩ := h
  obtain ⟨more, rfl⟩ := h'
  exact ⟨ms ++ more, (r.after_append ms more).symm⟩

theorem reaches_move (r : Run) (m : Move) : r.Reaches (r.move m) := ⟨[m], rfl⟩

/-- Waking processes changes nothing but who goes on next. -/
theorem wakeAll_eq (r : Run) (ps : List Pid) :
    r.wakeAll ps = { r with ready := (r.wakeAll ps).ready } := by
  induction ps generalizing r with
  | nil => rfl
  | cons p ps ih =>
    have hwake : r.wake p = { r with ready := (r.wake p).ready } := by
      unfold wake
      split <;> rfl
    have hrest := ih (r.wake p)
    rw [hwake] at hrest
    rw [wakeAll, List.foldl_cons, hwake]
    exact hrest

theorem reaches_wakeAll (r : Run) (ready : List Pid) (sleepers : List (Nat × Pid))
    (ps : List Pid) :
    r.Reaches ({ r with ready := ready, sleepers := sleepers }.wakeAll ps) := by
  rw [wakeAll_eq]
  exact r.reaches_move (.schedule _ sleepers)

theorem reaches_settle (r : Run) : r.Reaches r.settle := by
  rw [settle]
  generalize mostTurns = turns
  induction turns generalizing r with
  | zero => exact .refl r
  | succ turns ih =>
    unfold settleWithin
    split
    · exact .refl r
    · rename_i p _ _
      dsimp only
      refine Reaches.trans ?_ (ih _)
      refine (r.reaches_move (.turn p)).trans ?_
      rw [move]
      split
      · exact reaches_wakeAll _ _ _ _
      · exact reaches_wakeAll _ _ _ _

theorem reaches_wakeDue (r : Run) (now : Nat) : r.Reaches ({ r with now := now }.wakeDue) :=
  (r.reaches_move (.clock now)).trans (reaches_wakeAll _ _ _ _)

theorem reaches_runUntil (r : Run) (stop : Run → Bool) (last moments : Nat) :
    r.Reaches (runUntil stop last moments r) := by
  induction moments generalizing r with
  | zero => exact .refl r
  | succ moments ih =>
    unfold runUntil
    split
    · exact .refl r
    · split
      · refine Reaches.trans ?_ (ih _)
        exact (r.reaches_wakeDue _).trans (reaches_settle _)
      · exact r.reaches_move (.clock _)

theorem reaches_letGo (r : Run) : r.Reaches r.letGo := by
  unfold letGo
  split
  · exact ((r.reaches_move .stop).trans (reaches_move _ .stopServing)).trans
      (reaches_move _ .disown)
  · exact .refl r

theorem reaches_join (r : Run) : r.Reaches r.join.1 := by
  have hwaited := r.reaches_runUntil (·.lifecycle.isOver) (r.now + patience - 1) patience
  unfold join
  dsimp only
  generalize runUntil _ _ _ r = waited at hwaited ⊢
  split
  · split
    · exact (hwaited.trans (reaches_move _ .stopServing)).trans (reaches_move _ .disown)
    · exact (hwaited.trans (reaches_wakeDue _ _)).trans (reaches_letGo _)
  · exact .refl r

theorem reaches_shutdown (r : Run) : r.Reaches r.shutdown := by
  unfold shutdown
  split
  · exact (((r.reaches_move .stop).trans (reaches_settle _)).trans
      (reaches_move _ .stopServing)).trans (reaches_move _ .disown)
  · exact .refl r

/-- What is done to a run from outside, and what the run does by itself: the moments of a run as
the scheduler makes them. -/
inductive Leads : Run → Run → Prop where
  | here (r : Run) : Leads r r
  | settle {r s : Run} (h : Leads r s) : Leads r s.settle
  | advance {r s : Run} (h : Leads r s) (ms : Nat) : Leads r (s.advance ms)
  | push {r s t : Run} {pad : PadRef} {v : Json} {timeout : Option Nat} {leaveOpen : Bool}
      {pushed : Pushed} (h : Leads r s)
      (hpush : s.push pad v timeout leaveOpen = .ok (t, pushed)) :
      Leads r t
  | complete {r s : Run} (h : Leads r s) (context : Nat) : Leads r (s.complete context)
  | cancel {r s : Run} (h : Leads r s) (context : Nat) : Leads r (s.cancel context)
  | transmit {r s : Run} (h : Leads r s) (m : TransportMessage) : Leads r (s.transmit m)
  | stop {r s : Run} (h : Leads r s) : Leads r s.stop
  | letGo {r s : Run} (h : Leads r s) : Leads r s.letGo
  | join {r s : Run} (h : Leads r s) : Leads r s.join.1
  | shutdown {r s : Run} (h : Leads r s) : Leads r s.shutdown

/-- Every moment of a run is reached by moves: settling is taking turns until nobody is ready, and
advancing is moving the clock from one due time to the next. -/
theorem Leads.reaches {s : Run} (h : r.Leads s) : r.Reaches s := by
  induction h with
  | here => exact .refl _
  | settle _ ih => exact ih.trans (reaches_settle _)
  | advance _ ms ih => exact ih.trans (reaches_runUntil _ _ _ _)
  | @push s t pad v timeout leaveOpen pushed _ hpush ih =>
    have hmove : s.move (.push pad v timeout leaveOpen) = t := by rw [move, hpush]
    exact ih.trans (hmove ▸ s.reaches_move _)
  | complete _ context ih => exact ih.trans (reaches_move _ (.complete context))
  | cancel _ context ih => exact ih.trans (reaches_move _ (.cancel context))
  | transmit _ m ih => exact ih.trans (reaches_move _ (.transmit m))
  | stop _ ih => exact ih.trans (reaches_move _ .stop)
  | letGo _ ih => exact ih.trans (reaches_letGo _)
  | join _ ih => exact ih.trans (reaches_join _)
  | shutdown _ ih => exact ih.trans (reaches_shutdown _)

/-- Any two moments of a run have in common what every move keeps. -/
theorem Leads.keeps {s : Run} (h : r.Leads s) : r.Keeps s := by
  obtain ⟨ms, rfl⟩ := h.reaches
  exact r.keeps_after ms

/-- At every moment of a run its pads have the constraints that they began with. -/
theorem Leads.constraints {s : Run} (h : r.Leads s) :
    s.wiring.constraints = r.wiring.constraints :=
  h.keeps.wiring.constraints

end Run

end Patchbay
