import Patchbay.Constraint.Basic

/-!
# Equality of values and of constraints

Values and constraints are compared with numbers taken as numbers, so that the two zeros are equal.
This equality is an equivalence on values (`Json.same`), on shapes (`Constraint.same`) and on whole
constraints (`Constraints.same`), and equal values are accepted by the same constraints.
-/

namespace Patchbay

/-! ### Values -/

namespace Json

mutual

theorem same_refl : ∀ a : Json, a.same a = true
  | .arr a => sameItems_refl a
  | .obj a => sameFields_refl a
  | .double _ => Double.same_iff.mpr rfl
  | .null => rfl
  | .bool _ | .int _ | .str _ => beq_self_eq_true _

theorem sameItems_refl : ∀ a : List Json, sameItems a a = true
  | [] => rfl
  | a :: as => by rw [sameItems, same_refl a, sameItems_refl as, Bool.and_true]

theorem sameFields_refl : ∀ a : List (String × Json), sameFields a a = true
  | [] => rfl
  | (k, a) :: as => by
    rw [sameFields, same_refl a, sameFields_refl as, beq_self_eq_true, Bool.and_true,
      Bool.and_true]

end

mutual

theorem same_symm : ∀ {a b : Json}, a.same b = true → b.same a = true
  | .arr a, b, h => by
    cases b <;> simp only [same, Bool.false_eq_true] at h ⊢
    exact sameItems_symm h
  | .obj a, b, h => by
    cases b <;> simp only [same, Bool.false_eq_true] at h ⊢
    exact sameFields_symm h
  | .double a, b, h => by
    cases b <;> simp only [same, Bool.false_eq_true] at h ⊢
    exact Double.same_iff.mpr (Double.same_iff.mp h).symm
  | .null, b, h => by cases b <;> simp_all [same]
  | .bool _, b, h => by cases b <;> simp_all [same]
  | .int _, b, h => by cases b <;> simp_all [same]
  | .str _, b, h => by cases b <;> simp_all [same]

theorem sameItems_symm : ∀ {a b : List Json}, sameItems a b = true → sameItems b a = true
  | [], [], _ => rfl
  | [], _ :: _, h => by simp [sameItems] at h
  | _ :: _, [], h => by simp [sameItems] at h
  | a :: as, b :: bs, h => by
    simp only [sameItems, Bool.and_eq_true] at h ⊢
    exact ⟨same_symm h.1, sameItems_symm h.2⟩

theorem sameFields_symm :
    ∀ {a b : List (String × Json)}, sameFields a b = true → sameFields b a = true
  | [], [], _ => rfl
  | [], _ :: _, h => by simp [sameFields] at h
  | _ :: _, [], h => by simp [sameFields] at h
  | (k, a) :: as, (l, b) :: bs, h => by
    simp only [sameFields, Bool.and_eq_true, beq_iff_eq] at h ⊢
    exact ⟨⟨h.1.1.symm, same_symm h.1.2⟩, sameFields_symm h.2⟩

end

mutual

theorem same_trans : ∀ {a b c : Json}, a.same b = true → b.same c = true → a.same c = true
  | .arr a, b, c, h, h' => by
    cases b <;> simp only [same, Bool.false_eq_true] at h
    cases c <;> simp only [same, Bool.false_eq_true] at h' ⊢
    exact sameItems_trans h h'
  | .obj a, b, c, h, h' => by
    cases b <;> simp only [same, Bool.false_eq_true] at h
    cases c <;> simp only [same, Bool.false_eq_true] at h' ⊢
    exact sameFields_trans h h'
  | .double a, b, c, h, h' => by
    cases b <;> simp only [same, Bool.false_eq_true] at h
    cases c <;> simp only [same, Bool.false_eq_true] at h' ⊢
    exact Double.same_iff.mpr ((Double.same_iff.mp h).trans (Double.same_iff.mp h'))
  | .null, b, c, h, h' => by
    cases b <;> simp only [same, Bool.false_eq_true] at h
    exact h'
  | .bool _, b, c, h, h' | .int _, b, c, h, h' | .str _, b, c, h, h' => by
    cases b <;> simp only [same, Bool.false_eq_true, beq_iff_eq] at h
    exact h ▸ h'

theorem sameItems_trans : ∀ {a b c : List Json},
    sameItems a b = true → sameItems b c = true → sameItems a c = true
  | [], [], _, _, h' => h'
  | [], _ :: _, _, h, _ => by simp [sameItems] at h
  | _ :: _, [], _, h, _ => by simp [sameItems] at h
  | _ :: _, _ :: _, [], _, h' => by simp [sameItems] at h'
  | a :: as, b :: bs, c :: cs, h, h' => by
    simp only [sameItems, Bool.and_eq_true] at h h' ⊢
    exact ⟨same_trans h.1 h'.1, sameItems_trans h.2 h'.2⟩

theorem sameFields_trans : ∀ {a b c : List (String × Json)},
    sameFields a b = true → sameFields b c = true → sameFields a c = true
  | [], [], _, _, h' => h'
  | [], _ :: _, _, h, _ => by simp [sameFields] at h
  | _ :: _, [], _, h, _ => by simp [sameFields] at h
  | _ :: _, _ :: _, [], _, h' => by simp [sameFields] at h'
  | (k, a) :: as, (l, b) :: bs, (m, c) :: cs, h, h' => by
    simp only [sameFields, Bool.and_eq_true, beq_iff_eq] at h h' ⊢
    exact ⟨⟨h.1.1.trans h'.1.1, same_trans h.1.2 h'.1.2⟩, sameFields_trans h.2 h'.2⟩

end

end Json

/-! ### Shapes -/

namespace Constraint

theorem sameBound_refl (a : Option Double) : sameBound a a = true := by
  cases a <;> simp [sameBound, Double.same_iff]

theorem sameBound_symm {a b : Option Double} (h : sameBound a b = true) :
    sameBound b a = true := by
  cases a <;> cases b <;> simp_all [sameBound, Double.same_iff]

theorem sameBound_trans {a b c : Option Double} (h : sameBound a b = true)
    (h' : sameBound b c = true) : sameBound a c = true := by
  cases a <;> cases b <;> cases c <;> simp_all [sameBound, Double.same_iff]

theorem sameValue_refl (a : Option Json) : sameValue a a = true := by
  cases a <;> simp [sameValue, Json.same_refl]

theorem sameValue_symm {a b : Option Json} (h : sameValue a b = true) : sameValue b a = true := by
  cases a <;> cases b <;> simp only [sameValue, Bool.false_eq_true] at h ⊢
  exact Json.same_symm h

theorem sameValue_trans {a b c : Option Json} (h : sameValue a b = true)
    (h' : sameValue b c = true) : sameValue a c = true := by
  cases a <;> cases b <;> simp only [sameValue, Bool.false_eq_true] at h <;> cases c <;>
    simp only [sameValue, Bool.false_eq_true] at h' ⊢
  exact Json.same_trans h h'

mutual

theorem same_refl : ∀ a : Constraint, a.same a = true
  | .float lo hi => by rw [same, sameBound_refl, sameBound_refl, Bool.and_true]
  | .object a => sameValue_refl a
  | .list none => rfl
  | .list (some a) => by rw [same]; exact sameList_refl a
  | .integer .. => by simp [same]
  | .enumeration _ | .nodeReference _ => beq_self_eq_true _
  | .string | .boolean | .audio | .video | .audioClip | .videoClip | .avClip | .contextMessage
  | .textStream | .trigger | .secret | .schema => rfl

theorem sameList_refl : ∀ a : List Constraint, sameList a a = true
  | [] => rfl
  | a :: as => by rw [sameList, same_refl a, sameList_refl as, Bool.and_true]

end

mutual

theorem same_symm : ∀ {a b : Constraint}, a.same b = true → b.same a = true
  | .float lo hi, b, h => by
    cases b <;> simp only [same, Bool.false_eq_true, Bool.and_eq_true] at h ⊢
    exact ⟨sameBound_symm h.1, sameBound_symm h.2⟩
  | .object a, b, h => by
    cases b <;> simp only [same, Bool.false_eq_true] at h ⊢
    exact sameValue_symm h
  | .list none, b, h => by
    cases b with
    | list items => cases items <;> simp_all [same]
    | _ => simp [same] at h
  | .list (some a), b, h => by
    cases b with
    | list items =>
      cases items with
      | none => simp [same] at h
      | some b =>
        rw [same] at h ⊢
        exact sameList_symm h
    | _ => simp [same] at h
  | .integer .., b, h => by cases b <;> simp_all [same]
  | .enumeration _, b, h => by cases b <;> simp_all [same]
  | .nodeReference _, b, h => by cases b <;> simp_all [same]
  | .string, b, h | .boolean, b, h | .audio, b, h | .video, b, h | .audioClip, b, h
  | .videoClip, b, h | .avClip, b, h | .contextMessage, b, h | .textStream, b, h
  | .trigger, b, h | .secret, b, h | .schema, b, h => by cases b <;> simp_all [same]

theorem sameList_symm : ∀ {a b : List Constraint}, sameList a b = true → sameList b a = true
  | [], [], _ => rfl
  | [], _ :: _, h => by simp [sameList] at h
  | _ :: _, [], h => by simp [sameList] at h
  | a :: as, b :: bs, h => by
    simp only [sameList, Bool.and_eq_true] at h ⊢
    exact ⟨same_symm h.1, sameList_symm h.2⟩

end

mutual

theorem same_trans : ∀ {a b c : Constraint}, a.same b = true → b.same c = true → a.same c = true
  | .float lo hi, b, c, h, h' => by
    cases b <;> simp only [same, Bool.false_eq_true, Bool.and_eq_true] at h
    cases c <;> simp only [same, Bool.false_eq_true, Bool.and_eq_true] at h' ⊢
    exact ⟨sameBound_trans h.1 h'.1, sameBound_trans h.2 h'.2⟩
  | .object a, b, c, h, h' => by
    cases b <;> simp only [same, Bool.false_eq_true] at h
    cases c <;> simp only [same, Bool.false_eq_true] at h' ⊢
    exact sameValue_trans h h'
  | .list none, b, c, h, h' => by
    cases b with
    | list items =>
      cases items with
      | none => exact h'
      | some _ => simp [same] at h
    | _ => simp [same] at h
  | .list (some a), b, c, h, h' => by
    cases b with
    | list items =>
      cases items with
      | none => simp [same] at h
      | some b =>
        cases c with
        | list items' =>
          cases items' with
          | none => simp [same] at h'
          | some c =>
            rw [same] at h h' ⊢
            exact sameList_trans h h'
        | _ => simp [same] at h'
    | _ => simp [same] at h
  | .integer .., b, c, h, h' => by
    cases b <;> simp only [same, Bool.false_eq_true, Bool.and_eq_true, beq_iff_eq] at h
    rw [h.1, h.2]
    exact h'
  | .enumeration _, b, c, h, h' | .nodeReference _, b, c, h, h' => by
    cases b <;> simp only [same, Bool.false_eq_true, beq_iff_eq] at h
    exact h ▸ h'
  | .string, b, c, h, h' | .boolean, b, c, h, h' | .audio, b, c, h, h' | .video, b, c, h, h'
  | .audioClip, b, c, h, h' | .videoClip, b, c, h, h' | .avClip, b, c, h, h'
  | .contextMessage, b, c, h, h' | .textStream, b, c, h, h' | .trigger, b, c, h, h'
  | .secret, b, c, h, h' | .schema, b, c, h, h' => by
    cases b <;> simp only [same, Bool.false_eq_true] at h
    exact h'

theorem sameList_trans : ∀ {a b c : List Constraint},
    sameList a b = true → sameList b c = true → sameList a c = true
  | [], [], _, _, h' => h'
  | [], _ :: _, _, h, _ => by simp [sameList] at h
  | _ :: _, [], _, h, _ => by simp [sameList] at h
  | _ :: _, _ :: _, [], _, h' => by simp [sameList] at h'
  | a :: as, b :: bs, c :: cs, h, h' => by
    simp only [sameList, Bool.and_eq_true] at h h' ⊢
    exact ⟨same_trans h.1 h'.1, sameList_trans h.2 h'.2⟩

end

end Constraint

/-! ### Constraints -/

namespace Constraints

theorem same_refl (a : Constraints) : Constraints.same a a = true := by
  cases a with
  | none => rfl
  | some a => exact Constraint.sameList_refl a

theorem same_symm {a b : Constraints} (h : Constraints.same a b = true) :
    Constraints.same b a = true := by
  cases a <;> cases b <;> simp only [same, Bool.false_eq_true] at h ⊢
  exact Constraint.sameList_symm h

theorem same_trans {a b c : Constraints} (h : Constraints.same a b = true)
    (h' : Constraints.same b c = true) : Constraints.same a c = true := by
  cases a <;> cases b <;> simp only [same, Bool.false_eq_true] at h <;> cases c <;>
    simp only [same, Bool.false_eq_true] at h' ⊢
  exact Constraint.sameList_trans h h'

/-- Equal constraints are incompatible together. -/
theorem isIncompatible_eq_of_same {a b : Constraints} (h : Constraints.same a b = true) :
    isIncompatible a = isIncompatible b := by
  match a, b with
  | none, none => rfl
  | some [], some [] => rfl
  | some (_ :: _), some (_ :: _) => rfl
  | some [], some (_ :: _) | some (_ :: _), some [] => simp [same, Constraint.sameList] at h
  | none, some _ | some _, none => simp [same] at h

end Constraints

/-! ### Acceptance -/

namespace Json

variable {a b : Json}

theorem isNull_eq_of_same (h : a.same b = true) : a.isNull = b.isNull := by
  cases a <;> cases b <;> simp_all [same, isNull]

theorem str?_eq_of_same (h : a.same b = true) : a.str? = b.str? := by
  cases a <;> cases b <;> simp_all [same, str?]

theorem bool?_eq_of_same (h : a.same b = true) : a.bool? = b.bool? := by
  cases a <;> cases b <;> simp_all [same, bool?]

theorem int64?_eq_of_same (h : a.same b = true) : a.int64? = b.int64? := by
  cases a <;> cases b <;> simp_all [same, int64?]

theorem isSome_obj?_eq_of_same (h : a.same b = true) : a.obj?.isSome = b.obj?.isSome := by
  cases a <;> cases b <;> simp_all [same, obj?]

theorem isSome_arr?_eq_of_same (h : a.same b = true) : a.arr?.isSome = b.arr?.isSome := by
  cases a <;> cases b <;> simp_all [same, arr?]

/-- What tests of ranks say of two equal values. -/
theorem any_double?_eq_of_same (h : a.same b = true) {f : Double → Bool}
    (hf : ∀ x y : Double, x.rank = y.rank → f x = f y) : a.double?.any f = b.double?.any f := by
  cases a <;> cases b <;> simp_all [same, double?, Double.same_iff]
  exact hf _ _ h

theorem all_eq_of_sameItems {as bs : List Json} (h : sameItems as bs = true) {f : Json → Bool}
    (hf : ∀ a b : Json, a.same b = true → f a = f b) : as.all f = bs.all f := by
  induction as generalizing bs with
  | nil =>
    cases bs with
    | nil => rfl
    | cons b bs => simp [sameItems] at h
  | cons a as ih =>
    cases bs with
    | nil => simp [sameItems] at h
    | cons b bs =>
      rw [sameItems, Bool.and_eq_true] at h
      rw [List.all_cons, List.all_cons, hf a b h.1, ih h.2]

theorem any_arr?_eq_of_same (h : a.same b = true) {f : Json → Bool}
    (hf : ∀ a b : Json, a.same b = true → f a = f b) :
    (a.arr?.any fun items => items.all f) = b.arr?.any fun items => items.all f := by
  cases a <;> cases b <;> simp_all [same, arr?]
  exact all_eq_of_sameItems h hf

end Json

namespace Constraint

theorem withinDouble_eq_of_rank_eq {lo hi : Option Double} {x y : Double}
    (h : x.rank = y.rank) : withinDouble lo hi x = withinDouble lo hi y := by
  simp [withinDouble, Double.le, h]

/-- A shape accepts `null`, and what it says. -/
theorem accepts_eq (c : Constraint) (v : Json) : c.accepts v = (v.isNull ||
    match c with
    | .string | .secret | .nodeReference _ => v.str?.isSome
    | .integer lo hi => v.int64?.any (withinInt lo hi)
    | .float lo hi => v.double?.any (withinDouble lo hi)
    | .boolean => v.bool?.isSome
    | .enumeration options => v.str?.any options.contains
    | .object _ | .schema => v.obj?.isSome
    | .list none => v.arr?.isSome
    | .list (some cs) => v.arr?.any fun items => items.all fun item => anyAccepts cs item
    | .audio | .video | .audioClip | .videoClip | .avClip | .contextMessage | .textStream
    | .trigger => true) := by
  cases c with
  | list items => cases items <;> cases v <;> rfl
  | _ => cases v <;> rfl

mutual

/-- Equal values have the same shapes. -/
theorem accepts_eq_of_same (c : Constraint) {a b : Json} (h : a.same b = true) :
    c.accepts a = c.accepts b := by
  rw [accepts_eq, accepts_eq c b, Json.isNull_eq_of_same h]
  refine congrArg _ ?_
  match c with
  | .string | .secret | .nodeReference _ => simp only [Json.str?_eq_of_same h]
  | .integer lo hi => simp only [Json.int64?_eq_of_same h]
  | .float lo hi =>
    exact Json.any_double?_eq_of_same h fun _ _ hxy => withinDouble_eq_of_rank_eq hxy
  | .boolean => simp only [Json.bool?_eq_of_same h]
  | .enumeration options => simp only [Json.str?_eq_of_same h]
  | .object _ | .schema => simp only [Json.isSome_obj?_eq_of_same h]
  | .list none => simp only [Json.isSome_arr?_eq_of_same h]
  | .list (some cs) =>
    exact Json.any_arr?_eq_of_same h fun _ _ hxy => anyAccepts_eq_of_same cs hxy
  | .audio | .video | .audioClip | .videoClip | .avClip | .contextMessage | .textStream
  | .trigger => rfl

theorem anyAccepts_eq_of_same (cs : List Constraint) {a b : Json} (h : a.same b = true) :
    anyAccepts cs a = anyAccepts cs b := by
  match cs with
  | [] => rfl
  | c :: cs => rw [anyAccepts, anyAccepts, accepts_eq_of_same c h, anyAccepts_eq_of_same cs h]

end

end Constraint

theorem Constraints.accept_eq_of_same (cs : Constraints) {a b : Json} (h : a.same b = true) :
    cs.accept a = cs.accept b := by
  cases cs with
  | none => rfl
  | some cs => exact Constraint.anyAccepts_eq_of_same cs h

end Patchbay
