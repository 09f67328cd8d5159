import Patchbay.Proofs.Constraint.Permits

/-!
# Definite values and constraints

Equality takes the two zeros as one number, so things may be equal and yet not the same to the
digit. Values and shapes in which the negative zero does not occur are *definite*: those that are
equal are identical (`Json.eq_of_same`, `Constraints.Definite.eq_of_same`), and an intersection of
definite constraints is definite again (`Constraints.Definite.intersect`).
-/

namespace Patchbay

/-! ### Numbers -/

namespace Double

/-- The number is not the negative zero. -/
def isDefinite (d : Double) : Bool := d.magnitude != 0 || !d.negative

/-- Definite numbers that are equal are identical. -/
theorem eq_of_same {a b : Double} (ha : a.isDefinite = true) (hb : b.isDefinite = true)
    (h : a.same b = true) : a = b := by
  obtain ⟨negative, magnitude, hfinite⟩ := a
  obtain ⟨negative', magnitude', hfinite'⟩ := b
  have hrank := same_iff.mp h
  simp only [isDefinite, Bool.or_eq_true, bne_iff_ne, Bool.not_eq_true'] at ha hb
  simp only [rank] at hrank
  have hsigns : negative = negative' ∧ magnitude = magnitude' := by
    cases negative <;> cases negative' <;>
      simp only [reduceCtorEq, eq_self, if_true, if_false, or_true, or_false, true_and, false_and,
        ne_eq] at ha hb hrank ⊢ <;> omega
  obtain ⟨rfl, rfl⟩ := hsigns
  rfl

end Double

/-! ### Values -/

namespace Json

mutual

/-- The negative zero does not occur in the value. -/
def isDefinite : Json → Bool
  | .double d => d.isDefinite
  | .arr items => areDefinite items
  | .obj fields => haveDefinite fields
  | _ => true

/-- The negative zero does not occur in the items. -/
def areDefinite : List Json → Bool
  | [] => true
  | a :: as => a.isDefinite && areDefinite as

/-- The negative zero does not occur in the values of the fields. -/
def haveDefinite : List (String × Json) → Bool
  | [] => true
  | (_, a) :: as => a.isDefinite && haveDefinite as

end

mutual

/-- Definite values that are equal are identical. -/
theorem eq_of_same : ∀ {a b : Json}, a.isDefinite = true → b.isDefinite = true →
    a.same b = true → a = b
  | .double x, b, ha, hb, h => by
    cases b <;> simp only [same, Bool.false_eq_true] at h
    exact congrArg _ (Double.eq_of_same ha hb h)
  | .arr as, b, ha, hb, h => by
    cases b <;> simp only [same, Bool.false_eq_true] at h
    exact congrArg _ (eq_of_sameItems ha hb h)
  | .obj as, b, ha, hb, h => by
    cases b <;> simp only [same, Bool.false_eq_true] at h
    exact congrArg _ (eq_of_sameFields ha hb h)
  | .null, b, _, _, h => by
    cases b <;> simp only [same, Bool.false_eq_true] at h
    rfl
  | .bool _, b, _, _, h | .int _, b, _, _, h | .str _, b, _, _, h => by
    cases b <;> simp only [same, Bool.false_eq_true, beq_iff_eq] at h
    rw [h]

theorem eq_of_sameItems : ∀ {as bs : List Json}, areDefinite as = true → areDefinite bs = true →
    sameItems as bs = true → as = bs
  | [], [], _, _, _ => rfl
  | [], _ :: _, _, _, h => by simp [sameItems] at h
  | _ :: _, [], _, _, h => by simp [sameItems] at h
  | a :: as, b :: bs, ha, hb, h => by
    simp only [areDefinite, sameItems, Bool.and_eq_true] at ha hb h
    rw [eq_of_same ha.1 hb.1 h.1, eq_of_sameItems ha.2 hb.2 h.2]

theorem eq_of_sameFields : ∀ {as bs : List (String × Json)}, haveDefinite as = true →
    haveDefinite bs = true → sameFields as bs = true → as = bs
  | [], [], _, _, _ => rfl
  | [], _ :: _, _, _, h => by simp [sameFields] at h
  | _ :: _, [], _, _, h => by simp [sameFields] at h
  | (k, a) :: as, (l, b) :: bs, ha, hb, h => by
    simp only [haveDefinite, sameFields, Bool.and_eq_true, beq_iff_eq] at ha hb h
    rw [h.1.1, eq_of_same ha.1 hb.1 h.1.2, eq_of_sameFields ha.2 hb.2 h.2]

end

end Json

/-! ### Shapes -/

namespace Constraint

mutual

/-- The negative zero does not occur in the shape. -/
def isDefinite : Constraint → Bool
  | .float lo hi => lo.all Double.isDefinite && hi.all Double.isDefinite
  | .object s => s.all Json.isDefinite
  | .list (some cs) => areDefinite cs
  | _ => true

/-- The negative zero does not occur in the shapes. -/
def areDefinite : List Constraint → Bool
  | [] => true
  | c :: cs => c.isDefinite && areDefinite cs

end

end Constraint

/-- The negative zero does not occur in the permitted shapes. -/
def Constraints.Definite (cs : Constraints) : Prop := cs.Each fun c => c.isDefinite = true

namespace Constraint

variable {c d e : Constraint} {items : Constraints}

theorem isDefinite_list : (list items).isDefinite = true ↔ items.Definite := by
  have hall : ∀ cs, areDefinite cs = true ↔ ∀ c ∈ cs, c.isDefinite = true := by
    intro cs
    induction cs with
    | nil => simp [areDefinite]
    | cons c cs ih => rw [areDefinite, Bool.and_eq_true, ih, List.forall_mem_cons]
  cases items with
  | none => exact iff_of_true rfl Constraints.each_none
  | some cs => exact (hall cs).trans Constraints.each_some.symm

theorem same_list (a b : Constraints) : (list a).same (list b) = Constraints.same a b := by
  cases a <;> cases b <;> rfl

theorem eq_of_sameBound {a b : Option Double} (ha : a.all Double.isDefinite = true)
    (hb : b.all Double.isDefinite = true) (h : sameBound a b = true) : a = b := by
  cases a <;> cases b <;> simp only [sameBound, Bool.false_eq_true] at h
  · rfl
  · exact congrArg _ (Double.eq_of_same ha hb h)

theorem eq_of_sameValue {a b : Option Json} (ha : a.all Json.isDefinite = true)
    (hb : b.all Json.isDefinite = true) (h : sameValue a b = true) : a = b := by
  cases a <;> cases b <;> simp only [sameValue, Bool.false_eq_true] at h
  · rfl
  · exact congrArg _ (Json.eq_of_same ha hb h)

/-- Definite shapes that are equal are identical. -/
theorem eq_of_same (hc : c.isDefinite = true) (hd : d.isDefinite = true)
    (h : c.same d = true) : c = d := by
  induction c using inductionOn generalizing d with
  | list items ih =>
    cases d <;> cases kind_eq_of_same h
    rename_i items'
    rw [same_list] at h
    have hitems : items = items' := (isDefinite_list.mp hc).eq_of_same (isDefinite_list.mp hd)
      (fun cs hcs c hmem d => ih cs hcs c hmem (d := d)) h
    rw [hitems]
  | other c hlist =>
    match c, d, kind_eq_of_same h with
    | .float .., .float .., _ =>
      simp only [isDefinite, same, Bool.and_eq_true] at hc hd h
      rw [eq_of_sameBound hc.1 hd.1 h.1, eq_of_sameBound hc.2 hd.2 h.2]
    | .object _, .object _, _ => exact congrArg _ (eq_of_sameValue hc hd h)
    | .list _, .list _, _ => exact absurd rfl hlist
    | .integer .., .integer .., _ => simpa [same] using h
    | .enumeration _, .enumeration _, _ | .nodeReference _, .nodeReference _, _ =>
      simpa [same] using h
    | .string, .string, _ | .boolean, .boolean, _ | .audio, .audio, _ | .video, .video, _
    | .audioClip, .audioClip, _ | .videoClip, .videoClip, _ | .avClip, .avClip, _
    | .contextMessage, .contextMessage, _ | .textStream, .textStream, _ | .trigger, .trigger, _
    | .secret, .secret, _ | .schema, .schema, _ => rfl

/-! ### Intersection -/

theorem all_tighter_of_all {α : Type} {pick : α → α → α} {p : α → Bool}
    (hpick : ∀ a b, pick a b = a ∨ pick a b = b) {x y : Option α} (hx : x.all p = true)
    (hy : y.all p = true) : (tighter pick x y).all p = true := by
  cases x <;> cases y <;> try assumption
  rename_i a b
  rcases hpick a b with h | h <;> rw [tighter, h] <;> assumption

theorem isDefinite_of_meetFloat {lo hi lo' hi' : Option Double}
    (hc : (float lo hi).isDefinite = true) (hd : (float lo' hi').isDefinite = true)
    (h : meetFloat lo hi lo' hi' = some e) : e.isDefinite = true := by
  simp only [isDefinite, Bool.and_eq_true] at hc hd
  have hmax : ∀ a b : Double, a.max b = a ∨ a.max b = b := by
    intro a b
    rw [Double.max]
    split <;> simp
  have hmin : ∀ a b : Double, a.min b = a ∨ a.min b = b := by
    intro a b
    rw [Double.min]
    split <;> simp
  have hlo := all_tighter_of_all hmax hc.1 hd.1
  have hhi := all_tighter_of_all hmin hc.2 hd.2
  have hboth : (float (tighter Double.max lo lo') (tighter Double.min hi hi')).isDefinite =
      true := by
    rw [isDefinite, hlo, hhi, Bool.and_self]
  rw [meetFloat] at h
  split at h
  · split at h <;> cases h
    exact hboth
  · cases h
    exact hboth

theorem isDefinite_of_meetSchema {a b : Option Json} (hc : (object a).isDefinite = true)
    (hd : (object b).isDefinite = true) (h : meetSchema a b = some e) : e.isDefinite = true := by
  match a, b with
  | none, b =>
    cases h
    exact hd
  | some a, none =>
    cases h
    exact hc
  | some a, some b =>
    rw [meetSchema] at h
    split at h <;> cases h
    exact hc

/-- Only three kinds of shapes have numbers or values in them. -/
theorem isDefinite_of_kind (hfloat : c.kind ≠ .float) (hobject : c.kind ≠ .object)
    (hlist : c.kind ≠ .list) : c.isDefinite = true := by
  cases c <;> first | rfl | contradiction

/-- What two definite shapes have in common is definite. -/
theorem isDefinite_of_meet (hc : c.isDefinite = true) (hd : d.isDefinite = true)
    (h : c.meet d = some e) : e.isDefinite = true := by
  induction c using inductionOn generalizing d e with
  | list items ih =>
    cases pairing (list items) d with
    | list _ items' =>
      rw [meet_list] at h
      split at h <;> cases h
      exact isDefinite_list.mpr ((isDefinite_list.mp hc).intersect (isDefinite_list.mp hd)
        fun cs hcs c hmem d e => ih cs hcs c hmem)
    | bare hmeet =>
      rw [hmeet] at h
      cases h
      exact hc
    | apart _ hmeet =>
      rw [hmeet] at h
      cases h
  | other c hlist =>
    cases pairing c d with
    | float => exact isDefinite_of_meetFloat hc hd h
    | object => exact isDefinite_of_meetSchema hc hd h
    | list => exact absurd rfl hlist
    | integer | enumeration | nodeReference =>
      have hkind := (kind_of_meet h).1
      refine isDefinite_of_kind ?_ ?_ ?_ <;> rw [hkind] <;> simp [kind]
    | bare hmeet =>
      rw [hmeet] at h
      cases h
      exact hc
    | apart _ hmeet =>
      rw [hmeet] at h
      cases h

end Constraint

/-! ### Constraints -/

namespace Constraints

variable {a b : Constraints}

/-- Definite constraints that are equal are identical. -/
theorem Definite.eq_of_same (ha : a.Definite) (hb : b.Definite)
    (h : Constraints.same a b = true) : a = b :=
  Each.eq_of_same ha hb (fun _ _ _ _ _ hc hd => Constraint.eq_of_same hc hd) h

/-- An intersection of definite constraints is definite. -/
theorem Definite.intersect (ha : a.Definite) (hb : b.Definite) : (a.intersect b).Definite :=
  Each.intersect ha hb fun _ _ _ _ _ _ hc hd => Constraint.isDefinite_of_meet hc hd

end Constraints

end Patchbay
