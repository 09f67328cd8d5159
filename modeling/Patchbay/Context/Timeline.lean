import Patchbay.Context.Deadline

/-!
# Named contexts in time

A `Timeline` is a forest of contexts that are held by name, with a clock that moves only when it
is told to. Deadlines are enforced by watches, and only for contexts that something still
holds: a name, a fork, or a callback that is yet to run.
-/

namespace Patchbay

/-- Contexts by name, and a clock in whole milliseconds. -/
structure Timeline where
  forest : Forest := {}
  /-- The contexts that are held, by name. -/
  names : List (String × Nat) := []
  /-- The name that each context was made under. -/
  labels : Array String := #[]
  now : Nat := 0
  /-- The watches in the order in which they began to wait. -/
  watches : List Watch := []
  /-- Whether deadlines are enforced. -/
  enforced : Bool := true

namespace Timeline

/-- The context of a name. -/
def lookup (t : Timeline) (name : String) : Option Nat :=
  (t.names.find? fun p => p.1 == name).map (·.2)

/-- The name that a context was made under, whether or not it is still held by it. -/
def nameOf (t : Timeline) (i : Nat) : Option String := t.labels[i]?

/-- Forgets a name. -/
def release (t : Timeline) (name : String) : Timeline :=
  { t with names := t.names.filter fun p => p.1 != name }

/-- Holds a new context under a name, which it may take from another one. -/
def hold (t : Timeline) (name : String) (i : Nat) : Timeline :=
  let t := t.release name
  { t with names := (name, i) :: t.names, labels := t.labels.push name }

/-- Adds a root context with a name and perhaps a time in milliseconds after which it expires. -/
def addRoot (t : Timeline) (name : String) (originator : Option String)
    (metadata : Option (List (String × String))) (timeout : Option Nat) : Timeline :=
  let deadline := timeout.map fun ms => (t.now + ms) * millisecond
  let (forest, i) := t.forest.addRoot originator metadata deadline
  let t := { t with forest := forest }.hold name i
  if t.enforced then { t with watches := t.watches ++ (Watch.over? forest i).toList } else t

/-- Adds a fork of a context with a name. -/
def fork (t : Timeline) (i : Nat) (name : String) (originator : Option String) : Timeline :=
  let (forest, j) := t.forest.fork i originator
  { t with forest := forest }.hold name j

/-- Puts deadlines off by a span from now; a span that is too long changes nothing. -/
def snooze (t : Timeline) (i : Nat) (span : Span) : Timeline :=
  match span.nanoseconds? with
  | none => t
  | some extension =>
    { t with forest := t.forest.snooze (t.now * millisecond) i extension }

/-! ### Holding -/

/-- The contexts that a context holds: its parent, and what its callbacks are to finish. -/
def heldBy (f : Forest) (i : Nat) : List Nat :=
  match f.contexts[i]? with
  | none => []
  | some c =>
    c.parent.toList
      ++ c.callbacks.flatMap fun k => k.thenComplete.toList ++ k.thenCancel.toList

/-- Those of the candidates that a name or a candidate holds. -/
def stillHeld (t : Timeline) (candidates : List Nat) : List Nat :=
  candidates.filter fun i =>
    t.names.any (·.2 == i) || candidates.any fun j => (heldBy t.forest j).contains i

/-- Sorts out what nothing holds, in so many rounds. -/
def sortOut (t : Timeline) : Nat → List Nat → List Nat
  | 0, candidates => candidates
  | rounds + 1, candidates => t.sortOut rounds (t.stillHeld candidates)

/-- Whether something still holds a context. -/
def isHeld (t : Timeline) (i : Nat) : Bool :=
  let n := t.forest.contexts.size
  (t.sortOut n (List.range n)).contains i

/-! ### Time -/

/-- Lets one watch look at the clock, if it is time. -/
def wake (t : Timeline) (w : Watch) : Timeline :=
  if t.now < w.wakeAt then { t with watches := t.watches ++ [w] }
  else if t.isHeld w.context then
    let (forest, next) := w.look t.forest t.now
    { t with forest := forest, watches := t.watches ++ next.toList }
  else t

/-- Lets everything happen that is due at this moment. -/
def attend (t : Timeline) : Timeline :=
  t.watches.foldl wake { t with watches := [] }

/-- The next moment after this one, up to a last one, at which a watch looks at the clock. -/
def nextWake (t : Timeline) (last : Nat) : Option Nat :=
  ((t.watches.map (·.wakeAt)).filter fun w => t.now < w && w ≤ last).min?

/-- Moves the clock from one such moment to the next until the last one, or until something holds;
there are at most so many moments. -/
def runUntil (stop : Timeline → Bool) (last : Nat) : Nat → Timeline → Timeline
  | 0, t => t
  | moments + 1, t =>
    if stop t then t
    else
      match t.nextWake last with
      | some moment => runUntil stop last moments { t with now := moment }.attend
      | none => { t with now := max t.now last }

/-- Moves the clock on by some milliseconds; all that is due on the way happens. -/
def advance (t : Timeline) (ms : Nat) : Timeline :=
  runUntil (fun _ => false) (t.now + ms) (ms + 1) t

/-- Whether a context is finished. -/
def isDone (t : Timeline) (i : Nat) : Bool := (t.forest.outcome i).isSome

/-- Waits for a context for some milliseconds, the last of which no longer counts. -/
def await (t : Timeline) (i : Nat) (ms : Nat) : Timeline × Option Completion :=
  let last := t.now + ms
  let t := runUntil (·.isDone i) (last - 1) (ms + 1) t
  match t.forest.outcome i with
  | some outcome => (t, some outcome)
  | none => (t.advance (last - t.now), none)

end Timeline

end Patchbay
