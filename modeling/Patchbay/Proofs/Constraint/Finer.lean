import Mathlib.Data.List.Forall2
import Patchbay.Proofs.Constraint.Laws

/-!
# Finer constraints

Narrowing intersects in an order of its own, and what pads show each other was intersected in
another one. To compare the two, constraints are ordered by what they permit together with others
(`Constraints.Finer`): an intersection is finer than its sides, and intersecting keeps the order.

That the grouping does not matter either (`Constraints.Finer.assoc`) does not follow from what
three of them permit together, since an intersection is not the conjunction of what its sides
permit: it needs four of them (`Constraints.accept_intersect_assoc_under`).
-/

namespace Patchbay

theorem Constraints.intersect_none (a : Constraints) : a.intersect none = a := by
  cases a <;> rfl

namespace Constraint

variable {x y z : Constraint} {f : Constraint → Bool}

/-! ### Four shapes -/

/-- Lists that meet in nothing meet in nothing together with a third one. -/
theorem meet_list_bind (a b c : Constraints) : ((list a).meet (list b)).bind (·.meet (list c)) =
    (list (a.intersect b)).meet (list c) := by
  rw [meet_list, Constraints.isIncompatible_eq]
  cases hnull : (a.intersect b).accept .null with
  | true => rfl
  | false =>
    have hthree : ((a.intersect b).intersect c).accept .null = false := by
      refine Bool.eq_false_iff.mpr fun h => ?_
      rw [(Constraints.accept_of_accept_intersect h).1] at hnull
      cases hnull
    rw [meet_list, Constraints.isIncompatible_eq, hthree]
    rfl

theorem bind_meet_list (a b c : Constraints) : ((list b).meet (list c)).bind ((list a).meet ·) =
    (list a).meet (list (b.intersect c)) := by
  rw [meet_list, Constraints.isIncompatible_eq]
  cases hnull : (Constraints.intersect b c).accept .null with
  | true => rfl
  | false =>
    have hthree : (Constraints.intersect a (Constraints.intersect b c)).accept .null = false := by
      refine Bool.eq_false_iff.mpr fun h => ?_
      rw [(Constraints.accept_of_accept_intersect h).2] at hnull
      cases hnull
    rw [meet_list, Constraints.isIncompatible_eq, hthree]
    rfl

/-- What a shape that two equal ones meet a third in has in common with a fourth is the same. -/
theorem any_meet_congr {x' : Constraint} (h : x.same x' = true) (y u : Constraint) (v : Json) :
    ((x.meet y).any fun w => commonAccepts w u v) = (x'.meet y).any fun w =>
    commonAccepts w u v := by
  rw [commonAccepts_assoc, commonAccepts_assoc]
  exact congrArg (Option.any · _) (funext fun w => commonAccepts_congr h w v)

theorem any_meet_congr_right {y' : Constraint} (h : y.same y' = true) (x u : Constraint)
    (v : Json) :
    ((x.meet y).any fun w => commonAccepts w u v) = (x.meet y').any fun w =>
    commonAccepts w u v := by
  have hturn : ∀ y : Constraint, ((x.meet y).any fun w => commonAccepts w u v) =
      (u.meet x).any fun w => commonAccepts y w v := by
    intro y
    rw [commonAccepts_assoc, ← commonAccepts_assoc y u x]
    exact congrArg (Option.any · _) (funext fun w => commonAccepts_comm x w v)
  rw [hturn, hturn]
  exact congrArg (Option.any · _) (funext fun w => commonAccepts_congr h w v)

theorem any_congr_right (us : List Constraint) (v : Json) (w w' : Constraint)
    (h : w.same w' = true) :
    (us.any fun u => commonAccepts w u v) = us.any fun u => commonAccepts w' u v :=
  congrArg us.any (funext fun u => commonAccepts_congr h u v)

/-- Four constraints can be grouped in this way if their shapes can. -/
theorem accept_intersect_assoc_under_of {a b c : Constraints} (d : Constraints)
    (h : ∀ cs, a = some cs → ∀ x ∈ cs, ∀ y z u v,
      (((x.meet y).bind (·.meet z)).any fun w => commonAccepts w u v) =
        ((y.meet z).bind (x.meet ·)).any fun w => commonAccepts w u v) (v : Json) :
    (((a.intersect b).intersect c).intersect d).accept v =
      ((a.intersect (b.intersect c)).intersect d).accept v := by
  match a, b, c, d with
  | none, _, _, _ => rfl
  | some _, none, _, _ => rfl
  | some _, some _, none, _ => rfl
  | some xs, some ys, some zs, none =>
    rw [Constraints.intersect_none, Constraints.intersect_none]
    exact Constraints.accept_intersect_assoc ..
  | some xs, some ys, some zs, some us =>
    have hleft : (((Constraints.intersect (some xs) (some ys)).intersect (some zs)).intersect
        (some us)).accept v = xs.any fun x => ys.any fun y => zs.any fun z => us.any fun u =>
          ((x.meet y).bind (·.meet z)).any fun w => commonAccepts w u v := by
      have hthird : ∀ w w' : Constraint, w.same w' = true →
          (zs.any fun z => us.any fun u => (w.meet z).any fun t => commonAccepts t u v) =
            zs.any fun z => us.any fun u => (w'.meet z).any fun t => commonAccepts t u v :=
        fun w w' hw => congrArg zs.any (funext fun z => congrArg us.any (funext fun u =>
          any_meet_congr hw z u v))
      rw [Constraints.intersect, Constraints.intersect, accept_intersect,
        any_canonicalize (any_congr_right us v), any_meetAll]
      simp only [any_option_any]
      rw [any_canonicalize hthird, any_meetAll]
      simp only [any_option_any, Option.any_bind, Function.comp_def]
    have hright :
        ((Constraints.intersect (some xs) (Constraints.intersect (some ys) (some zs))).intersect
        (some us)).accept v = xs.any fun x => ys.any fun y => zs.any fun z => us.any fun u =>
          ((y.meet z).bind (x.meet ·)).any fun w => commonAccepts w u v := by
      have hsecond : ∀ x w w' : Constraint, w.same w' = true →
          (us.any fun u => (x.meet w).any fun t => commonAccepts t u v) =
            us.any fun u => (x.meet w').any fun t => commonAccepts t u v :=
        fun x w w' hw => congrArg us.any (funext fun u => any_meet_congr_right hw x u v)
      rw [Constraints.intersect, Constraints.intersect, accept_intersect,
        any_canonicalize (any_congr_right us v), any_meetAll]
      simp only [any_option_any, any_canonicalize (hsecond _), any_meetAll, Option.any_bind,
        Function.comp_def]
    rw [hleft, hright]
    refine any_congr_of_mem fun x hx => congrArg ys.any
      (funext fun y => congrArg zs.any (funext fun z =>
        congrArg us.any (funext fun u => h xs rfl x hx y z u v)))

/-- What four shapes have in common does not depend on how the first three are grouped. -/
theorem any_meet_assoc (x y z u : Constraint) (v : Json) :
    (((x.meet y).bind (·.meet z)).any fun w => commonAccepts w u v) =
      ((y.meet z).bind (x.meet ·)).any fun w => commonAccepts w u v := by
  induction x using inductionOn generalizing y z u v with
  | list a ih =>
    by_cases hkind : Kind.list = y.kind ∧ y.kind = z.kind
    · obtain ⟨hy, hz⟩ := hkind
      cases y <;> cases hy
      cases z <;> cases hz
      rename_i b c
      rw [meet_list_bind, bind_meet_list]
      cases u with
      | list d =>
        rw [any_meet_list, any_meet_list]
        exact commonAccepts_list_congr (accept_intersect_assoc_under_of d ih) v
      | _ =>
        -- lists have nothing in common with another kind
        have hnone : ∀ {o : Option Constraint} {u : Constraint},
            (∀ w, o = some w → w.kind ≠ u.kind) →
            (o.any fun w => commonAccepts w u v) = false := by
          intro o u ho
          cases o with
          | none => rfl
          | some w => exact commonAccepts_of_kind_ne (ho w rfl) v
        rw [hnone fun w hw => (kind_of_meet hw).1 ▸ nofun, hnone fun w hw => (kind_of_meet hw).1 ▸
          nofun]
    · have hne : (list a).kind ≠ y.kind ∨ y.kind ≠ z.kind :=
        Decidable.not_and_iff_not_or_not.mp hkind
      rw [meet_assoc_of_kind_ne hne]
  | other x hx => rw [meet_assoc hx]

end Constraint

/-! ### The order -/

namespace Constraints

variable {a b c a' b' : Constraints} {v : Json} {as bs : List Constraints}

/-- The grouping does not matter, whatever is intersected with the result. -/
theorem accept_intersect_assoc_under (a b c d : Constraints) (v : Json) :
    (((a.intersect b).intersect c).intersect d).accept v =
      ((a.intersect (b.intersect c)).intersect d).accept v :=
  Constraint.accept_intersect_assoc_under_of d (fun _ _ x _ => Constraint.any_meet_assoc x) v

/-- Together with any others, `a` permits no more than `b`. -/
def Finer (a b : Constraints) : Prop :=
  ∀ x v, (a.intersect x).accept v = true → (b.intersect x).accept v = true

/-- Together with any others, both permit the same. -/
def Alike (a b : Constraints) : Prop := a.Finer b ∧ b.Finer a

namespace Finer

theorem refl (a : Constraints) : a.Finer a := fun _ _ => id

theorem trans (h : a.Finer b) (h' : b.Finer c) : a.Finer c := fun x v ha => h' x v (h x v ha)

theorem accept (h : a.Finer b) (ha : a.accept v = true) : b.accept v = true := by
  have hnone := h none v
  rw [intersect_none, intersect_none] at hnone
  exact hnone ha

/-- Finer constraints permit no more on the other side either. -/
theorem accept_right (h : a.Finer b) (ha : (c.intersect a).accept v = true) :
    (c.intersect b).accept v = true := by
  rw [accept_intersect_comm] at ha ⊢
  exact h c v ha

theorem left (a b : Constraints) : (a.intersect b).Finer a := by
  intro x v h
  rw [accept_intersect_assoc, accept_intersect_comm, accept_intersect_assoc] at h
  rw [accept_intersect_comm]
  exact (accept_of_accept_intersect h).2

theorem right (a b : Constraints) : (a.intersect b).Finer b := by
  intro x v h
  rw [accept_intersect_assoc] at h
  exact (accept_of_accept_intersect h).2

theorem intersect_left (h : a.Finer a') (b : Constraints) :
    (a.intersect b).Finer (a'.intersect b) := by
  intro x v hab
  rw [accept_intersect_assoc] at hab ⊢
  exact h _ v hab

theorem intersect_right (h : b.Finer b') (a : Constraints) :
    (a.intersect b).Finer (a.intersect b') := by
  intro x v hab
  rw [accept_intersect_assoc, accept_intersect_comm, accept_intersect_assoc] at hab ⊢
  exact h _ v hab

theorem intersect (ha : a.Finer a') (hb : b.Finer b') : (a.intersect b).Finer (a'.intersect b') :=
  (ha.intersect_left b).trans (hb.intersect_right a')

theorem assoc (a b c : Constraints) :
    ((a.intersect b).intersect c).Finer (a.intersect (b.intersect c)) := by
  intro x v h
  rw [← accept_intersect_assoc_under]
  exact h

theorem of_same (h : Constraints.same a b = true) : a.Finer b := by
  intro x v ha
  match a, b, x with
  | none, none, _ => exact ha
  | some as, some bs, none =>
    rw [intersect_none] at ha ⊢
    exact accept_congr h ▸ ha
  | some as, some bs, some xs =>
    rw [Constraint.accept_intersect] at ha ⊢
    rw [← Constraint.any_eq_of_sameList h fun c _ d hcd =>
      congrArg xs.any (funext fun x => Constraint.commonAccepts_congr hcd x v)]
    exact ha

/-- Intersecting one after the other keeps the order. -/
theorem foldl (h : List.Forall₂ Finer as bs) (ha : a.Finer b) :
    (as.foldl Constraints.intersect a).Finer (bs.foldl Constraints.intersect b) := by
  induction h generalizing a b with
  | nil => exact ha
  | cons hhead _ ih => exact ih (ha.intersect hhead)

theorem foldl_start (as : List Constraints) (a : Constraints) :
    (as.foldl Constraints.intersect a).Finer a := by
  induction as generalizing a with
  | nil => exact refl a
  | cons b rest ih => exact (ih _).trans (left a b)

theorem foldl_mem (h : b ∈ as) (a : Constraints) : (as.foldl Constraints.intersect a).Finer b := by
  induction as generalizing a with
  | nil => cases h
  | cons c rest ih =>
    rcases List.mem_cons.mp h with rfl | h
    · exact (foldl_start rest _).trans (right a b)
    · exact ih h _

end Finer

end Constraints

end Patchbay
