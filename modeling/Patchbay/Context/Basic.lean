import Patchbay.Number.Sum

/-!
# Request contexts

Every item that travels through a running graph carries a context. What is derived from an item
carries a fork of its context, and a context is finished when its own work is marked complete
and every fork that it waits for is finished. A context that is cancelled or whose deadline
expires is finished at once.

A `Forest` holds all contexts. Completion spreads through it by counters and callbacks, one
`Signal` at a time; `Forest.settle` carries a list of signals out together with all that follow
from them. That comes to an end because a context finishes only once: every signal uses up some
of the `work` that is left.

## Main definitions

* `Forest.addRoot`, `Forest.fork`: new contexts.
* `Forest.complete`, `Forest.cancel`, `Forest.expire`: three ways to finish.
* `Forest.addCallback`: what runs once a context is finished.
-/

namespace Patchbay

/-- How a context came to an end. -/
inductive Completion where
  /-- Its own work and all its forks are done. -/
  | completed
  /-- Its deadline expired first. -/
  | timedOut
  | cancelled
deriving DecidableEq, Repr

namespace Completion

/-- Whether the work was cut off. -/
def isCancellation : Completion → Bool
  | .completed => false
  | .timedOut | .cancelled => true

/-- The name of an outcome. -/
def name : Completion → String
  | .completed => "completed"
  | .timedOut => "timed_out"
  | .cancelled => "cancelled"

end Completion

/-- What runs when a context is finished: it is logged, and may complete and cancel other
contexts. -/
structure Callback where
  tag : String
  thenComplete : Option Nat := none
  thenCancel : Option Nat := none
deriving DecidableEq, Repr

/-- A context of a forest, in which contexts are known by their position. -/
structure Context where
  parent : Option Nat := none
  /-- Whether the parent waits for this context. -/
  counted : Bool := false
  /-- The tag by which derived results find their way back. -/
  originator : Option String := none
  /-- What is known about who published the triggering item. -/
  metadata : Option (List (String × String)) := none
  /-- Whether its own work was marked complete. -/
  ownDone : Bool := false
  /-- How many forks it waits for. -/
  outstanding : Nat := 0
  outcome : Option Completion := none
  callbacks : List Callback := []
  /-- When it expires, in nanoseconds. -/
  deadline : Option Nat := none
deriving DecidableEq, Repr, Inhabited

/-- A callback that ran on a finished context. -/
structure Firing where
  context : Nat
  tag : String
  outcome : Completion
deriving DecidableEq, Repr

/-- All contexts, each behind its parent, and the callbacks that ran so far, in order. -/
structure Forest where
  contexts : Array Context := #[]
  fired : List Firing := []
deriving Repr, Inhabited

/-- What can happen to contexts. -/
inductive Signal where
  /-- The own work of a context is done. -/
  | complete (context : Nat)
  /-- A context ends at once. -/
  | force (context : Nat) (outcome : Completion)
  /-- A fork that a context waits for is finished. -/
  | forkFinished (context : Nat)
  /-- A callback runs on a finished context. -/
  | call (context : Nat) (callback : Callback) (outcome : Completion)
deriving DecidableEq, Repr

namespace Context

/-- Whether the context has an outcome. -/
def isDone (c : Context) : Bool := c.outcome.isSome

/-- Whether nothing is left to wait for. -/
def isReady (c : Context) : Bool := c.ownDone && c.outstanding == 0

/-- The context with an outcome; its callbacks are taken out. -/
def finished (c : Context) (outcome : Completion) : Context :=
  { c with outcome := some outcome, callbacks := [] }

/-- What follows when the context at a position is finished: its callbacks in the order in which
they were added, and then the word to the parent. -/
def consequences (c : Context) (position : Nat) (outcome : Completion) : List Signal :=
  c.callbacks.map (Signal.call position · outcome)
    ++ (if c.counted then c.parent.toList.map Signal.forkFinished else [])

end Context

/-- What a callback asks for. -/
def Callback.effects (k : Callback) : List Signal :=
  k.thenComplete.toList.map Signal.complete
    ++ k.thenCancel.toList.map (Signal.force · .cancelled)

namespace Forest

/-- Replaces the context at a position. -/
def put (f : Forest) (position : Nat) (c : Context) : Forest :=
  { f with contexts := f.contexts.setIfInBounds position c }

/-- Finishes the context at a position. -/
def finish (f : Forest) (position : Nat) (c : Context) (outcome : Completion) :
    Forest × List Signal :=
  (f.put position (c.finished outcome), c.consequences position outcome)

/-- Finishes the context at a position if nothing is left to wait for. -/
def finishIfReady (f : Forest) (position : Nat) (c : Context) : Forest × List Signal :=
  if c.isReady then f.finish position c .completed else (f.put position c, [])

/-- Carries out one signal; the result lists what follows from it. Whatever reaches a finished
context, its callbacks apart, changes nothing. -/
def step (f : Forest) : Signal → Forest × List Signal
  | .complete i =>
    match f.contexts[i]? with
    | none => (f, [])
    | some c =>
      if c.ownDone || c.isDone then (f, [])
      else f.finishIfReady i { c with ownDone := true }
  | .force i outcome =>
    match f.contexts[i]? with
    | none => (f, [])
    | some c =>
      if c.isDone then (f, []) else f.finish i { c with ownDone := true } outcome
  | .forkFinished i =>
    match f.contexts[i]? with
    | none => (f, [])
    | some c =>
      if c.isDone then (f, [])
      else f.finishIfReady i { c with outstanding := c.outstanding - 1 }
  | .call i k outcome =>
    ({ f with fired := f.fired ++ [⟨i, k.tag, outcome⟩] }, k.effects)

/-! ### Settling -/

/-- The work that a callback may cause. -/
def callbackWork (k : Callback) : Nat := k.effects.length + 1

/-- The work that a signal may cause, not counting the contexts it finishes. -/
def signalWork : Signal → Nat
  | .call _ k _ => callbackWork k
  | _ => 1

/-- The work that is left in a context. -/
def contextWork (c : Context) : Nat :=
  if c.isDone then 0 else sumOf callbackWork c.callbacks + 1

/-- The work that is left in a forest. -/
def work (f : Forest) : Nat := sumOf contextWork f.contexts.toList

/-- The work in a list of signals. -/
def agendaWork (signals : List Signal) : Nat := sumOf signalWork signals

theorem agendaWork_append (s t : List Signal) :
    agendaWork (s ++ t) = agendaWork s + agendaWork t := by
  simp [agendaWork]

theorem agendaWork_effects (k : Callback) : agendaWork k.effects = k.effects.length := by
  simp only [Callback.effects, agendaWork_append]
  cases k.thenComplete <;> cases k.thenCancel <;> simp [agendaWork, signalWork]

theorem agendaWork_consequences (c : Context) (i : Nat) (o : Completion) :
    agendaWork (c.consequences i o) ≤ sumOf callbackWork c.callbacks + 1 := by
  have h : agendaWork (c.callbacks.map (Signal.call i · o)) = sumOf callbackWork c.callbacks := by
    simp [agendaWork, signalWork, Function.comp_def]
  rw [Context.consequences, agendaWork_append, h]
  split
  · cases c.parent <;> simp [agendaWork, signalWork]
  · simp [agendaWork]

theorem contextWork_finished (c : Context) (o : Completion) :
    contextWork (c.finished o) = 0 := by
  simp [contextWork, Context.finished, Context.isDone]

theorem work_put (f : Forest) {i : Nat} {c : Context} (h : f.contexts[i]? = some c)
    (d : Context) : (f.put i d).work + contextWork c = f.work + contextWork d := by
  have h' : f.contexts.toList[i]? = some c := by simpa using h
  simpa [work, put] using sumOf_set contextWork f.contexts.toList i c d h'

/-- Finishing an unfinished context and carrying the word on leaves less work than there was. -/
theorem work_finish (f : Forest) {i : Nat} {c : Context} (h : f.contexts[i]? = some c)
    (hd : c.isDone = false) (d : Context) (hc : d.callbacks = c.callbacks) (o : Completion) :
    (f.finish i d o).1.work + agendaWork (f.finish i d o).2 ≤ f.work := by
  have h1 := work_put f h (d.finished o)
  have h2 := agendaWork_consequences d i o
  rw [contextWork_finished] at h1
  have h3 : contextWork c = sumOf callbackWork c.callbacks + 1 := by simp [contextWork, hd]
  rw [hc] at h2
  simp only [finish]
  omega

theorem work_finishIfReady (f : Forest) {i : Nat} {c : Context} (h : f.contexts[i]? = some c)
    (hd : c.isDone = false) (d : Context) (hc : d.callbacks = c.callbacks)
    (ho : d.isDone = false) :
    (f.finishIfReady i d).1.work + agendaWork (f.finishIfReady i d).2 ≤ f.work := by
  unfold finishIfReady
  split
  · exact work_finish f h hd d hc _
  · have h1 := work_put f h d
    have h2 : contextWork d = contextWork c := by simp [contextWork, hd, ho, hc]
    simp only [agendaWork, sumOf_nil]
    omega

/-- A signal leaves less work than there was. -/
theorem work_step (f : Forest) (s : Signal) :
    (f.step s).1.work + agendaWork (f.step s).2 < f.work + signalWork s := by
  cases s with
  | complete i =>
    simp only [step, signalWork]
    split
    · simp [agendaWork]
    · rename_i c h
      split
      · simp [agendaWork]
      · rename_i hd
        have hd' : c.isDone = false := by simp_all
        have := work_finishIfReady f h hd' { c with ownDone := true } rfl hd'
        omega
  | force i o =>
    simp only [step, signalWork]
    split
    · simp [agendaWork]
    · rename_i c h
      split
      · simp [agendaWork]
      · rename_i hd
        have hd' : c.isDone = false := by simpa using hd
        have := work_finish f h hd' { c with ownDone := true } rfl o
        omega
  | forkFinished i =>
    simp only [step, signalWork]
    split
    · simp [agendaWork]
    · rename_i c h
      split
      · simp [agendaWork]
      · rename_i hd
        have hd' : c.isDone = false := by simpa using hd
        have := work_finishIfReady f h hd' { c with outstanding := c.outstanding - 1 } rfl hd'
        omega
  | call i k o =>
    simp only [step, signalWork, callbackWork, agendaWork_effects]
    simp only [work]
    omega

/-- Carries out signals one after the other; what follows from one comes before the next. -/
def settle (f : Forest) : List Signal → Forest
  | [] => f
  | s :: rest => settle (f.step s).1 ((f.step s).2 ++ rest)
termination_by signals => f.work + agendaWork signals
decreasing_by
  have := work_step f s
  rw [agendaWork_append]
  simp only [agendaWork, sumOf_cons] at *
  omega

/-! ### Operations -/

/-- Marks the own work of a context as complete. -/
def complete (f : Forest) (i : Nat) : Forest := f.settle [.complete i]

/-- Cancels a context, whatever it waits for. -/
def cancel (f : Forest) (i : Nat) : Forest := f.settle [.force i .cancelled]

/-- Ends a context whose deadline is over. -/
def expire (f : Forest) (i : Nat) : Forest := f.settle [.force i .timedOut]

/-- Adds a context without a parent; the result is its position. -/
def addRoot (f : Forest) (originator : Option String := none)
    (metadata : Option (List (String × String)) := none) (deadline : Option Nat := none) :
    Forest × Nat :=
  ({ f with
      contexts := f.contexts.push
        { originator := originator, metadata := metadata, deadline := deadline } },
    f.contexts.size)

/-- Adds a fork of a context; the result is its position. An unfinished context waits for its
fork, and a fork of a finished one is independent. -/
def fork (f : Forest) (i : Nat) (originator : Option String := none) : Forest × Nat :=
  let counted := (f.contexts[i]?).any fun c => !c.isDone
  let f :=
    match f.contexts[i]? with
    | some c => if counted then f.put i { c with outstanding := c.outstanding + 1 } else f
    | none => f
  ({ f with
      contexts := f.contexts.push
        { parent := some i, counted := counted, originator := originator } },
    f.contexts.size)

/-- Adds a callback; on a finished context it runs at once. -/
def addCallback (f : Forest) (i : Nat) (k : Callback) : Forest :=
  match f.contexts[i]? with
  | none => f
  | some c =>
    match c.outcome with
    | some outcome => f.settle [.call i k outcome]
    | none => f.put i { c with callbacks := c.callbacks ++ [k] }

/-! ### Views -/

/-- The outcome of a context. -/
def outcome (f : Forest) (i : Nat) : Option Completion := (f.contexts[i]?).bind (·.outcome)

/-- How many forks a context waits for. -/
def outstanding (f : Forest) (i : Nat) : Nat := ((f.contexts[i]?).map (·.outstanding)).getD 0

/-- The parent of a context. -/
def parent? (f : Forest) (i : Nat) : Option Nat := (f.contexts[i]?).bind (·.parent)

/-- A context and its ancestors, nearest first. A parent always stands before its forks. -/
def lineage (f : Forest) (i : Nat) : List (Nat × Context) :=
  match f.contexts[i]? with
  | none => []
  | some c =>
    (i, c) ::
      match c.parent with
      | none => []
      | some p => if p < i then f.lineage p else []

/-- The nearest context with a tag, starting with this one. -/
def findOriginator (f : Forest) (i : Nat) (originator : String) : Option Nat :=
  ((f.lineage i).find? fun p => p.2.originator == some originator).map (·.1)

/-- The metadata of a context, or of the nearest ancestor that has any. -/
def metadata? (f : Forest) (i : Nat) : Option (List (String × String)) :=
  (f.lineage i).findSome? (·.2.metadata)

end Forest

end Patchbay
