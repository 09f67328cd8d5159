import Patchbay.Proofs.Constraint.Slim
import Patchbay.Proofs.Constraint.Swapping

/-!
# The order of broad constraints

Slim constraints without menus are *broad* (`Constraints.Broad`). They form a semilattice: one of
them is *under* another one if it is what both have in common (`Constraints.Under`), and
`Constraints.intersect` gives the greatest that is under two of them. The constraints that permit
everything are the greatest of all.

Constraints under others have no effect when nothing is left (`Constraints.narrowedBy`). Above a
lower bound under which something is left, this is the intersection
(`Constraints.Broad.narrowedBy_eq`).
-/

namespace Patchbay

namespace Constraint

variable {a b : Constraint}

theorem Plain.isDefinite (h : a.Plain) : a.isDefinite = true := by
  cases a with
  | float lo hi =>
    cases lo <;> cases hi <;> first | rfl | exact h.elim
  | object s => exact h.elim
  | list items => exact h.elim
  | _ => rfl

/-- Plain shapes other than menus meet in either order: without negative zeros equal bounds are the
same. -/
theorem Plain.meet_comm (ha : a.Plain) (hb : b.Plain) (hmenu : a.kind ≠ .enumeration) :
    a.meet b = b.meet a := by
  refine Constraint.meet_comm ha.isDefinite hb.isDefinite (fun hlist => ?_) fun l m h => ?_
  · cases a with
    | list items => exact ha.elim
    | _ => cases hlist
  · rcases h with ⟨rfl, -⟩ | ⟨rfl, -⟩
    · exact absurd rfl hmenu
    · exact ha.elim

end Constraint

namespace Constraints

open Constraint

variable {a b c d : Constraints}

/-- Slim, and without menus. -/
structure Broad (cs : Constraints) : Prop extends Slim cs where
  noMenu : ∀ l, cs = some l → ∀ c ∈ l, c.kind ≠ .enumeration

/-- What is permitted by the first constraints is permitted by the second, put as an equation, so
that the laws of intersections (`Constraints.intersect`) are laws of this order. -/
def Under (a b : Constraints) : Prop := a.intersect b = a

/-- Constraints under others, which have no effect when nothing is in common. This is what a proxy
makes of what its node sees. -/
def narrowedBy (cs outer : Constraints) : Constraints :=
  let merged := cs.intersect outer
  if merged.isIncompatible then cs else merged

@[simp] theorem none_intersect (cs : Constraints) : Constraints.intersect none cs = cs := rfl

theorem narrowedBy_none (cs : Constraints) : cs.narrowedBy none = cs := by
  rw [narrowedBy, intersect_none]
  split <;> rfl

theorem under_none (cs : Constraints) : cs.Under none := intersect_none cs

theorem nil_under (cs : Constraints) : Under (some []) cs := by
  cases cs with
  | none => rfl
  | some as => simp [Under, Constraints.intersect, meetAll, canonicalize, dropRepeats]

theorem broad_none : Broad none := ⟨slim_none, nofun⟩

theorem broad_single {c : Constraint} (hc : c.Plain) (hmenu : c.kind ≠ .enumeration)
    (hsolid : c.Solid) : Broad (some [c]) :=
  ⟨slim_single hc (.inr hsolid), by
    rintro l ⟨⟩
    exact List.forall_mem_singleton.mpr hmenu⟩

namespace Broad

variable (ha : a.Broad) (hb : b.Broad)

include ha

theorem ne_emptyMenu : a ≠ some [.enumeration []] := by
  rintro rfl
  exact ha.noMenu _ rfl _ List.mem_cons_self rfl

theorem intersect (hb : b.Broad) : (a.intersect b).Broad := by
  refine ⟨ha.toSlim.intersect hb.toSlim, fun l hl c hc => ?_⟩
  match a, b, ha, hb with
  | none, b, _, hb => exact hb.noMenu l hl c hc
  | some as, none, ha, _ => exact ha.noMenu l hl c hc
  | some as, some bs, ha, _ =>
    cases hl
    obtain ⟨x, hx, y, -, hmeet⟩ := mem_meetAll (mem_canonicalize hc)
    exact (kind_of_meet hmeet).1 ▸ ha.noMenu as rfl x hx

theorem intersect_comm (hb : b.Broad) : a.intersect b = b.intersect a := by
  match a, b, ha, hb with
  | none, none, _, _ => rfl
  | none, some _, _, _ => rfl
  | some _, none, _, _ => rfl
  | some as, some bs, ha, hb =>
    rw [ha.toSlim.intersect_some hb.toSlim, hb.toSlim.intersect_some ha.toSlim, Option.some.injEq]
    refine Ranked.eq_of_mem_iff ((ha.ranked _ rfl).meetAll (hb.ranked _ rfl))
      ((hb.ranked _ rfl).meetAll (ha.ranked _ rfl)) fun c => ?_
    have hcomm : ∀ x ∈ as, ∀ y ∈ bs, x.meet y = y.meet x := fun x hx y hy =>
      (plain_some.mp ha.plain x hx).meet_comm (plain_some.mp hb.plain y hy)
        (ha.noMenu as rfl x hx)
    rw [mem_meetAll_iff, mem_meetAll_iff]
    constructor
    · rintro ⟨x, hx, y, hy, hxy⟩
      exact ⟨y, hy, x, hx, hcomm x hx y hy ▸ hxy⟩
    · rintro ⟨y, hy, x, hx, hyx⟩
      exact ⟨x, hx, y, hy, (hcomm x hx y hy).trans hyx⟩

theorem narrowedBy (hb : b.Broad) : (a.narrowedBy b).Broad := by
  rw [Constraints.narrowedBy]
  split
  · exact ha
  · exact ha.intersect hb

theorem foldl_intersect {l : List Constraints} (hl : ∀ cs ∈ l, cs.Broad) :
    (l.foldl Constraints.intersect a).Broad := by
  induction l generalizing a with
  | nil => exact ha
  | cons cs rest ih =>
    obtain ⟨hcs, hrest⟩ := List.forall_mem_cons.mp hl
    exact ih (ha.intersect hcs) hrest

/-! ### The order -/

theorem under_self : a.Under a := by
  have habsorb := ha.toSlim.absorb_of_ne slim_none ha.ne_emptyMenu
  rwa [intersect_none] at habsorb

theorem intersect_under_left (hb : b.Broad) : (a.intersect b).Under a :=
  ha.toSlim.absorb_of_ne hb.toSlim ha.ne_emptyMenu

theorem intersect_under_right (hb : b.Broad) : (a.intersect b).Under b := by
  rw [ha.intersect_comm hb]
  exact hb.intersect_under_left ha

theorem narrowedBy_under (hb : b.Broad) : (a.narrowedBy b).Under a := by
  rw [Constraints.narrowedBy]
  split
  · exact ha.under_self
  · exact ha.intersect_under_left hb

end Broad

namespace Under

theorem trans (hab : a.Under b) (hbc : b.Under c) (ha : a.Slim) (hb : b.Slim) (hc : c.Slim) :
    a.Under c := by
  have hassoc := ha.intersect_assoc hb hc
  rwa [hab, hbc, hab] at hassoc

theorem antisymm (hab : a.Under b) (hba : b.Under a) (ha : a.Broad) (hb : b.Broad) : a = b :=
  calc a = a.intersect b := hab.symm
    _ = b.intersect a := ha.intersect_comm hb
    _ = b := hba

/-- The intersection is the greatest that is under both. -/
theorem intersect (hab : a.Under b) (hac : a.Under c) (ha : a.Slim) (hb : b.Slim) (hc : c.Slim) :
    a.Under (b.intersect c) := by
  rw [Under, ← ha.intersect_assoc hb hc, hab, hac]

theorem intersect_intersect (hab : a.Under b) (hcd : c.Under d) (ha : a.Broad) (hb : b.Broad)
    (hc : c.Broad) (hd : d.Broad) : (a.intersect c).Under (b.intersect d) := by
  have hac := ha.intersect hc
  refine intersect ?_ ?_ hac.toSlim hb.toSlim hd.toSlim
  · exact (ha.intersect_under_left hc).trans hab hac.toSlim ha.toSlim hb.toSlim
  · exact (ha.intersect_under_right hc).trans hcd hac.toSlim hc.toSlim hd.toSlim

/-- What is under all members of a list is under their intersection. -/
theorem foldl_intersect {l : List Constraints} (hab : a.Under b) (ha : a.Broad) (hb : b.Broad)
    (hl : ∀ cs ∈ l, cs.Broad ∧ a.Under cs) : a.Under (l.foldl Constraints.intersect b) := by
  induction l generalizing b with
  | nil => exact hab
  | cons cs rest ih =>
    obtain ⟨⟨hcs, hacs⟩, hrest⟩ := List.forall_mem_cons.mp hl
    exact ih (hab.intersect hacs ha.toSlim hb.toSlim hcs.toSlim) (hb.intersect hcs) hrest

theorem eq_of_intersect (hab : a.Under b) (ha : a.Broad) (hb : b.Broad) : b.intersect a = a :=
  (hb.intersect_comm ha).trans hab

/-- Above something that is left, something is left. So narrowing that did not fail below does not
fail above. -/
theorem ne_nil (hab : a.Under b) (hne : a ≠ some []) : b ≠ some [] := by
  rintro rfl
  refine hne ?_
  rw [← hab]
  cases a with
  | none => rfl
  | some as => exact intersect_nil nofun

end Under

/-- The intersection of a list is under all its members. -/
theorem Broad.foldl_under {l : List Constraints} (ha : a.Broad) (hl : ∀ cs ∈ l, cs.Broad) :
    (l.foldl Constraints.intersect a).Under a ∧
      ∀ cs ∈ l, (l.foldl Constraints.intersect a).Under cs := by
  induction l generalizing a with
  | nil => exact ⟨ha.under_self, nofun⟩
  | cons cs rest ih =>
    obtain ⟨hcs, hrest⟩ := List.forall_mem_cons.mp hl
    have hmet := ha.intersect hcs
    have hfold := hmet.foldl_intersect hrest
    obtain ⟨hunder, hmem⟩ := ih hmet hrest
    exact ⟨hunder.trans (ha.intersect_under_left hcs) hfold.toSlim hmet.toSlim ha.toSlim,
      List.forall_mem_cons.mpr ⟨hunder.trans (ha.intersect_under_right hcs) hfold.toSlim
        hmet.toSlim hcs.toSlim, hmem⟩⟩

/-! ### Narrowing above a lower bound -/

section

variable (ha : a.Broad) (hb : b.Broad) (hc : c.Broad) (hne : c ≠ some []) (hca : c.Under a)
  (hcb : c.Under b)

include ha hb hc hne hca hcb

theorem Broad.narrowedBy_eq : a.narrowedBy b = a.intersect b := by
  have hunder := hca.intersect hcb hc.toSlim ha.toSlim hb.toSlim
  rw [Constraints.narrowedBy]
  simp only [isIncompatible_iff, hunder.ne_nil hne, if_false]

theorem Broad.under_narrowedBy : c.Under (a.narrowedBy b) := by
  rw [ha.narrowedBy_eq hb hc hne hca hcb]
  exact hca.intersect hcb hc.toSlim ha.toSlim hb.toSlim

end

/-- Where something is left, what is under both constraints stays under them when they are
narrowed. -/
theorem Broad.narrowedBy_under_narrowedBy (ha : a.Broad) (hb : b.Broad) (hc : c.Broad)
    (hd : d.Broad) (hab : a.Under b) (hcd : c.Under d) (hne : a.intersect c ≠ some []) :
    (a.narrowedBy c).Under (b.narrowedBy d) := by
  have hlow := ha.intersect hc
  have hla := ha.intersect_under_left hc
  have hlc := ha.intersect_under_right hc
  rw [ha.narrowedBy_eq hc hlow hne hla hlc]
  exact hb.under_narrowedBy hd hlow hne (hla.trans hab hlow.toSlim ha.toSlim hb.toSlim)
    (hlc.trans hcd hlow.toSlim hc.toSlim hd.toSlim)

/-- Narrowing once more by the same constraints changes nothing (`Constraints.narrowedBy`), also
where the first time had no effect. -/
theorem Broad.narrowedBy_narrowedBy (ha : a.Broad) (hb : b.Broad) :
    (a.narrowedBy b).narrowedBy b = a.narrowedBy b := by
  by_cases hnil : a.intersect b = some []
  · have hkept : a.narrowedBy b = a := by
      rw [Constraints.narrowedBy]
      simp only [isIncompatible_iff, hnil, if_true]
    rw [hkept, hkept]
  · have hmet : a.narrowedBy b = a.intersect b := by
      rw [Constraints.narrowedBy]
      simp only [isIncompatible_iff, hnil, if_false]
    have hunder : (a.intersect b).intersect b = a.intersect b := ha.intersect_under_right hb
    rw [hmet, Constraints.narrowedBy]
    simp only [hunder, isIncompatible_iff, hnil, if_false]

end Constraints

end Patchbay
