import Patchbay.Proofs.Constraint.Meet

/-!
# Plain constraints

The built-in types use few shapes: texts, whole numbers, numbers without bounds, flags, options and
triggers. These are *plain*. For plain constraints equality is identity, and an intersection of
plain constraints is plain again.
-/

namespace Patchbay

/-- The shape is one that built-in types use. -/
def Constraint.Plain : Constraint → Prop
  | .string | .integer .. | .float none none | .boolean | .enumeration _ | .trigger => True
  | _ => False

/-- All permitted shapes are plain. -/
def Constraints.Plain (cs : Constraints) : Prop := ∀ l, cs = some l → ∀ c ∈ l, c.Plain

namespace Constraint

variable {a b c : Constraint}

theorem Plain.eq_of_same (ha : a.Plain) (hb : b.Plain) (h : a.same b = true) : a = b := by
  match a, b, ha, hb with
  | .string, .string, _, _ | .boolean, .boolean, _, _ | .trigger, .trigger, _, _ => rfl
  | .float none none, .float none none, _, _ => rfl
  | .integer .., .integer .., _, _ => simpa [same] using h
  | .enumeration _, .enumeration _, _, _ => simpa [same] using h

/-! ### Intersection -/

theorem plain_of_meetInt {lo hi lo' hi' : Option Int64} (h : meetInt lo hi lo' hi' = some c) :
    c.Plain := by
  rw [meetInt] at h
  split at h
  · split at h
    · cases h
    · cases h
      trivial
  · cases h
    trivial

theorem plain_of_meetOptions {l m : List String} (h : meetOptions l m = some c) : c.Plain := by
  rw [meetOptions] at h
  split at h
  · cases h
  · cases h
    trivial

/-- What two plain shapes have in common is plain. -/
theorem Plain.meet (ha : a.Plain) (hb : b.Plain) (h : a.meet b = some c) : c.Plain := by
  match a, b, ha, hb with
  | .integer .., .integer .., _, _ => exact plain_of_meetInt h
  | .enumeration _, .enumeration _, _, _ => exact plain_of_meetOptions h
  | .float none none, .float none none, _, _ =>
    cases h
    trivial
  | .string, .string, _, _ | .boolean, .boolean, _, _ | .trigger, .trigger, _, _ =>
    cases h
    trivial

end Constraint

namespace Constraints

theorem plain_none : Plain none := each_none

theorem plain_some {l : List Constraint} : Plain (some l) ↔ ∀ c ∈ l, c.Plain := each_some

theorem eq_of_same {a b : Constraints} (ha : Plain a) (hb : Plain b)
    (h : Constraints.same a b = true) : a = b :=
  Each.eq_of_same ha hb (fun _ _ _ _ _ hc hd => hc.eq_of_same hd) h

theorem plain_intersect {a b : Constraints} (ha : Plain a) (hb : Plain b) :
    Plain (a.intersect b) :=
  Each.intersect ha hb fun _ _ _ _ _ _ hc hd => hc.meet hd

end Constraints

end Patchbay
