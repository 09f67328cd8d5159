import Patchbay.Constraint.Text

/-!
# Intersection of constraints

Connecting two pads leaves what both sides permit. Two lists are intersected shape by shape:
each pair of one kind contributes what its parameters have in common, if anything. The result
is canonical, that is in the order of kinds and without repeats.
-/

namespace Patchbay

namespace Constraint

/-! ### Canonical lists -/

/-- The canonical order: by kind, and within a kind by rendering. -/
def canonicalLe (a b : Constraint) : Bool :=
  a.kind.rank < b.kind.rank
    || (a.kind.rank == b.kind.rank && !decide (b.rendered < a.rendered))

/-- Drops every shape that equals the one kept before it. -/
def dropRepeats : List Constraint → List Constraint
  | [] => []
  | c :: cs => c :: dropRepeatsOf c cs
where
  /-- Drops repeats behind a shape that was kept. -/
  dropRepeatsOf (kept : Constraint) : List Constraint → List Constraint
    | [] => []
    | c :: cs => if c.same kept then dropRepeatsOf kept cs else c :: dropRepeatsOf c cs

/-- The list in canonical order and without repeats. -/
def canonicalize (cs : List Constraint) : List Constraint :=
  dropRepeats (cs.mergeSort canonicalLe)

/-! ### Intersection -/

/-- Of two bounds the one that `pick` chooses; an open bound gives way. -/
def tighter {α : Type} (pick : α → α → α) : Option α → Option α → Option α
  | some a, some b => some (pick a b)
  | some a, none => some a
  | none, b => b

/-- The options of the first list that are in the second one too. -/
def commonOptions (a b : List String) : List String := a.filter b.contains

/-- Whole numbers between both pairs of bounds. -/
def meetInt (lo hi lo' hi' : Option Int64) : Option Constraint :=
  let minimum := tighter max lo lo'
  let maximum := tighter min hi hi'
  match minimum, maximum with
  | some a, some b => if b < a then none else some (.integer minimum maximum)
  | _, _ => some (.integer minimum maximum)

/-- Numbers between both pairs of bounds. -/
def meetFloat (lo hi lo' hi' : Option Double) : Option Constraint :=
  let minimum := tighter Double.max lo lo'
  let maximum := tighter Double.min hi hi'
  match minimum, maximum with
  | some a, some b => if b.lt a then none else some (.float minimum maximum)
  | _, _ => some (.float minimum maximum)

/-- Texts among both lists of options. -/
def meetOptions (a b : List String) : Option Constraint :=
  match commonOptions a b with
  | [] => none
  | options => some (.enumeration options)

/-- Objects under both schemas; only equal schemas have anything in common. -/
def meetSchema : Option Json → Option Json → Option Constraint
  | none, b => some (.object b)
  | a, none => some (.object a)
  | some a, some b => if a.same b then some (.object (some a)) else none

/-- References to nodes of both lists of types; an empty list means any type. -/
def meetTypes : List String → List String → Option Constraint
  | [], b => some (.nodeReference b)
  | a, [] => some (.nodeReference a)
  | a, b =>
    match commonOptions a b with
    | [] => none
    | types => some (.nodeReference types)

mutual

/-- What two shapes have in common: nothing when their kinds differ. -/
def meet : Constraint → Constraint → Option Constraint
  | .integer lo hi, .integer lo' hi' => meetInt lo hi lo' hi'
  | .float lo hi, .float lo' hi' => meetFloat lo hi lo' hi'
  | .enumeration a, .enumeration b => meetOptions a b
  | .object a, .object b => meetSchema a b
  | .list none, .list (some []) => none
  | .list none, .list b => some (.list b)
  | .list (some []), .list none => none
  | .list (some a), .list none => some (.list (some a))
  | .list (some a), .list (some b) =>
    match canonicalize (meetAll a b) with
    | [] => none
    | cs => some (.list (some cs))
  | .nodeReference a, .nodeReference b => meetTypes a b
  | a, b => if a.kind = b.kind then some a else none

/-- What the pairs of two lists have in common, in the order of the first list. -/
def meetAll : List Constraint → List Constraint → List Constraint
  | [], _ => []
  | c :: cs, ds => ds.filterMap (fun d => c.meet d) ++ meetAll cs ds

end

end Constraint

namespace Constraints

/-- What two lists permit together; an absent list gives way. -/
def intersect : Constraints → Constraints → Constraints
  | none, b => b
  | some a, none => some a
  | some a, some b => some (Constraint.canonicalize (Constraint.meetAll a b))

/-- Whether two lists hold the same shapes, in any order. -/
def equivalent : Constraints → Constraints → Bool
  | none, none => true
  | some a, some b => Constraint.sameList (Constraint.canonicalize a) (Constraint.canonicalize b)
  | _, _ => false

end Constraints

end Patchbay
