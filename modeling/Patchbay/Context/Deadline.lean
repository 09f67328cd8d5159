import Patchbay.Context.Basic
import Patchbay.Number.Double

/-!
# Deadlines

A root context may have a deadline, and its forks share it. Whoever works on an item for long
can put the deadline off (`Forest.snooze`); a deadline never moves to an earlier time.

Times are whole nanoseconds. Clocks show whole milliseconds, so a deadline is over at the first
millisecond that is not before it (`wakeTime`).
-/

namespace Patchbay

/-- The nanoseconds in a millisecond. -/
def millisecond : Nat := 1000000

/-- The nanoseconds in a second. -/
def second : Nat := 1000000000

/-- The first whole millisecond that is not before a time. -/
def wakeTime (time : Nat) : Nat := (time + (millisecond - 1)) / millisecond

theorem wakeTime_le_iff {time now : Nat} : wakeTime time ≤ now ↔ time ≤ now * millisecond := by
  simp only [wakeTime, millisecond]
  omega

/-- The first time that no clock shows: clocks count seconds in 63 bits. -/
def clockEnd : Nat := 0x8000000000000000 * second

/-- The time some seconds after a millisecond of a run, if the clocks count that far. They showed
`uptime` when the run began. -/
def secondsAfter? (uptime now seconds : Nat) : Option Nat :=
  let time := now * millisecond + seconds * second
  if uptime + time < clockEnd then some time else none

/-- A length of time: some seconds, or one that no number of seconds tells. -/
inductive Span where
  | seconds (s : Double)
  /-- A length without end. -/
  | endless
  /-- No length: less than any number, or not a number. -/
  | nothing

/-- The nanoseconds in a span, to the nearest one; less than nothing counts as nothing, and a span
that reaches past what clocks can count has none. -/
def Span.nanoseconds? : Span → Option Nat
  | .nothing => some 0
  | .endless => none
  | .seconds s =>
    if s.negative then some 0
    else
      let (num, den) := Double.scaled s.significand s.exponent
      if num < 0x8000000000000000 * den then some (Double.roundDiv (num * second) den) else none

namespace Forest

/-- The deadline of a context, or of the nearest ancestor that has one. -/
def deadline? (f : Forest) (i : Nat) : Option Nat :=
  (f.lineage i).findSome? (·.2.deadline)

/-- Puts the deadline of one context off to a time, unless it is later anyway. -/
def postpone (f : Forest) (i time : Nat) : Forest :=
  match f.contexts[i]? with
  | none => f
  | some c => f.put i { c with deadline := c.deadline.map (max · time) }

/-- The unfinished contexts from this one up to the first finished one. -/
def liveLineage (f : Forest) (i : Nat) : List Nat :=
  ((f.lineage i).takeWhile fun p => !p.2.isDone).map (·.1)

/-- Puts the deadlines off to some time from now, for a context and its ancestors up to the first
finished one. -/
def snooze (f : Forest) (now i extension : Nat) : Forest :=
  (f.liveLineage i).foldl (fun f j => f.postpone j (now + extension)) f

/-- Whether the own deadline of a context is over. -/
def isOverdue (f : Forest) (now i : Nat) : Bool :=
  ((f.contexts[i]?).bind (·.deadline)).any (· ≤ now)

end Forest

/-! ### Watches -/

/-- A watch waits for the deadline of a root context. It looks at the clock again when the deadline
it saw last has come, because that may have been put off in the meantime. -/
structure Watch where
  context : Nat
  /-- The millisecond at which the watch looks again. -/
  wakeAt : Nat
deriving DecidableEq, Repr

namespace Watch

/-- A watch over a context, if there is something to wait for. -/
def over? (f : Forest) (i : Nat) : Option Watch :=
  match f.contexts[i]? with
  | some c => if c.isDone then none else c.deadline.map fun d => ⟨i, wakeTime d⟩
  | none => none

/-- What a watch does at a time in milliseconds: it expires its context, or waits on. -/
def look (w : Watch) (f : Forest) (now : Nat) : Forest × Option Watch :=
  if (f.outcome w.context).isSome then (f, none)
  else if f.isOverdue (now * millisecond) w.context then (f.expire w.context, none)
  else (f, over? f w.context)

end Watch

end Patchbay
