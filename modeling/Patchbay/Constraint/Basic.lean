import Patchbay.Json.Basic

/-!
# Type constraints

The type of a pad is a list of permitted value shapes, its *constraints*; an absent list
permits everything. `Constraint.accepts` says which values have a shape, and
`Constraints.accept` which values a list permits.
-/

namespace Patchbay

/-- One permitted value shape. -/
inductive Constraint where
  | string
  /-- Whole numbers between two bounds, each of which may be open. -/
  | integer (minimum maximum : Option Int64)
  /-- Numbers between two bounds, each of which may be open. -/
  | float (minimum maximum : Option Double)
  | boolean
  /-- One of the listed texts. -/
  | enumeration (options : List String)
  | audio
  | video
  | audioClip
  | videoClip
  | avClip
  | contextMessage
  | textStream
  | trigger
  /-- An object; the schema describes it and is not checked. -/
  | object (schema : Option Json)
  /-- A list whose items are constrained in turn. -/
  | list (items : Option (List Constraint))
  /-- The id of a node of one of the listed types, or of any type when none is listed. -/
  | nodeReference (types : List String)
  | secret
  | schema

instance : Inhabited Constraint := ⟨.string⟩

/-- A list of permitted shapes; `none` permits everything. -/
abbrev Constraints := Option (List Constraint)

namespace Constraint

/-! ### Kinds -/

/-- The shape without its parameters. -/
inductive Kind where
  | string
  | integer
  | float
  | boolean
  | enumeration
  | audio
  | video
  | audioClip
  | videoClip
  | avClip
  | contextMessage
  | textStream
  | trigger
  | object
  | list
  | nodeReference
  | secret
  | schema
deriving DecidableEq, Repr

/-- The kind of a shape. -/
def kind : Constraint → Kind
  | .string => .string
  | .integer .. => .integer
  | .float .. => .float
  | .boolean => .boolean
  | .enumeration _ => .enumeration
  | .audio => .audio
  | .video => .video
  | .audioClip => .audioClip
  | .videoClip => .videoClip
  | .avClip => .avClip
  | .contextMessage => .contextMessage
  | .textStream => .textStream
  | .trigger => .trigger
  | .object _ => .object
  | .list _ => .list
  | .nodeReference _ => .nodeReference
  | .secret => .secret
  | .schema => .schema

/-- The place of a kind in canonical lists. -/
def Kind.rank : Kind → Nat
  | .string => 0
  | .integer => 1
  | .float => 2
  | .boolean => 3
  | .enumeration => 4
  | .audio => 5
  | .video => 6
  | .audioClip => 7
  | .videoClip => 8
  | .avClip => 9
  | .contextMessage => 10
  | .textStream => 11
  | .trigger => 12
  | .object => 13
  | .list => 14
  | .nodeReference => 15
  | .secret => 16
  | .schema => 17

/-- The name of a kind. -/
def Kind.name : Kind → String
  | .string => "String"
  | .integer => "Integer"
  | .float => "Float"
  | .boolean => "Boolean"
  | .enumeration => "Enum"
  | .audio => "Audio"
  | .video => "Video"
  | .audioClip => "AudioClip"
  | .videoClip => "VideoClip"
  | .avClip => "AvClip"
  | .contextMessage => "ContextMessage"
  | .textStream => "TextStream"
  | .trigger => "Trigger"
  | .object => "Object"
  | .list => "List"
  | .nodeReference => "NodeReference"
  | .secret => "Secret"
  | .schema => "Schema"

theorem Kind.rank_injective {a b : Kind} (h : a.rank = b.rank) : a = b := by
  cases a <;> cases b <;> first | rfl | (simp [Kind.rank] at h)

/-! ### Values of a shape -/

/-- Whether a whole number lies between two bounds. -/
def withinInt (minimum maximum : Option Int64) (n : Int64) : Bool :=
  minimum.all (· ≤ n) && maximum.all (n ≤ ·)

/-- Whether a number lies between two bounds. -/
def withinDouble (minimum maximum : Option Double) (d : Double) : Bool :=
  minimum.all (·.le d) && maximum.all (d.le ·)

mutual

/-- Whether a value has a shape. An unset value (`null`) has every shape, and media carry
payloads of any form. -/
def accepts : Constraint → Json → Bool
  | _, .null => true
  | .string, v | .secret, v | .nodeReference _, v => v.str?.isSome
  | .integer lo hi, v => v.int64?.any (withinInt lo hi)
  | .float lo hi, v => v.double?.any (withinDouble lo hi)
  | .boolean, v => v.bool?.isSome
  | .enumeration options, v => v.str?.any options.contains
  | .object _, v | .schema, v => v.obj?.isSome
  | .list none, v => v.arr?.isSome
  | .list (some cs), v => v.arr?.any fun items => items.all fun item => anyAccepts cs item
  | .audio, _ | .video, _ | .audioClip, _ | .videoClip, _ | .avClip, _ | .contextMessage, _
  | .textStream, _ | .trigger, _ => true

/-- Whether a value has one of the listed shapes. -/
def anyAccepts : List Constraint → Json → Bool
  | [], _ => false
  | c :: cs, v => c.accepts v || anyAccepts cs v

end

/-! ### Equality -/

/-- Equality of open or numeric bounds. -/
def sameBound : Option Double → Option Double → Bool
  | none, none => true
  | some a, some b => a.same b
  | _, _ => false

/-- Equality of optional values. -/
def sameValue : Option Json → Option Json → Bool
  | none, none => true
  | some a, some b => a.same b
  | _, _ => false

mutual

/-- Equality of shapes, with numbers compared as numbers. -/
def same : Constraint → Constraint → Bool
  | .integer a b, .integer c d => a == c && b == d
  | .float a b, .float c d => sameBound a c && sameBound b d
  | .enumeration a, .enumeration b => a == b
  | .object a, .object b => sameValue a b
  | .list none, .list none => true
  | .list (some a), .list (some b) => sameList a b
  | .nodeReference a, .nodeReference b => a == b
  | .string, .string | .boolean, .boolean | .audio, .audio | .video, .video
  | .audioClip, .audioClip | .videoClip, .videoClip | .avClip, .avClip
  | .contextMessage, .contextMessage | .textStream, .textStream | .trigger, .trigger
  | .secret, .secret | .schema, .schema => true
  | _, _ => false

/-- Equality of lists of shapes, in order. -/
def sameList : List Constraint → List Constraint → Bool
  | [], [] => true
  | a :: as, b :: bs => a.same b && sameList as bs
  | _, _ => false

end

end Constraint

namespace Constraints

/-- Whether a list permits a value. -/
def accept : Constraints → Json → Bool
  | none, _ => true
  | some cs, v => Constraint.anyAccepts cs v

/-- Equality of lists, in order. -/
def same : Constraints → Constraints → Bool
  | none, none => true
  | some a, some b => Constraint.sameList a b
  | _, _ => false

/-- No shape is left: what two sides agree on when they have nothing in common. -/
def isIncompatible : Constraints → Bool
  | some [] => true
  | _ => false

/-- The only shape of a list. -/
def single? : Constraints → Option Constraint
  | some [c] => some c
  | _ => none

end Constraints

end Patchbay
