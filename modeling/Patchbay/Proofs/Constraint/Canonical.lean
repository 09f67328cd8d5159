import Patchbay.Proofs.Constraint.Definite
import Patchbay.Proofs.Constraint.Finer
import Patchbay.Proofs.Constraint.Renderings
import Patchbay.Proofs.Constraint.Slim

/-!
# Canonical lists

A list in canonical order and without repeats is determined by its members
(`canonicalize_eq_of_mem_iff`): the order has no ties, since no two constraints are rendered alike,
and of definite constraints no two are equal. So intersections of definite constraints are what
pairs of their shapes have in common (`mem_intersect_iff`), and can be grouped in any way
(`Constraints.Definite.intersect_assoc`). They cannot be put in any order: of two shapes with
options what they have in common is listed as in the first one.
-/

namespace Patchbay

namespace Constraint

variable {a b c x y z : Constraint} {as bs cs : List Constraint}

/-! ### The order -/

theorem canonicalLe_iff : canonicalLe a b = true ↔
    a.kind.rank < b.kind.rank ∨ a.kind.rank = b.kind.rank ∧ a.rendered ≤ b.rendered := by
  simp only [canonicalLe, Bool.or_eq_true, Bool.and_eq_true, decide_eq_true_eq, beq_iff_eq,
    Bool.not_eq_true', decide_eq_false_iff_not, String.not_lt]

theorem canonicalLe_trans (a b c : Constraint) (hab : canonicalLe a b = true)
    (hbc : canonicalLe b c = true) :
    canonicalLe a c = true := by
  rw [canonicalLe_iff] at hab hbc ⊢
  rcases hab with hab | ⟨hab, hab'⟩ <;> rcases hbc with hbc | ⟨hbc, hbc'⟩
  · exact .inl (hab.trans hbc)
  · exact .inl (hbc ▸ hab)
  · exact .inl (hab ▸ hbc)
  · exact .inr ⟨hab.trans hbc, String.le_trans hab' hbc'⟩

theorem canonicalLe_total (a b : Constraint) : (canonicalLe a b || canonicalLe b a) = true := by
  rw [Bool.or_eq_true, canonicalLe_iff, canonicalLe_iff]
  rcases Nat.lt_trichotomy a.kind.rank b.kind.rank with h | h | h
  · exact .inl (.inl h)
  · exact (String.le_total a.rendered b.rendered).imp (fun hle => .inr ⟨h, hle⟩) fun hle => .inr
      ⟨h.symm, hle⟩
  · exact .inr (.inl h)

theorem canonicalLe_antisymm (hab : canonicalLe a b = true) (hba : canonicalLe b a = true) :
    a = b := by
  rw [canonicalLe_iff] at hab hba
  refine rendered_injective (String.le_antisymm ?_ ?_)
  · exact (hab.resolve_left fun h => by omega).2
  · exact (hba.resolve_left fun h => by omega).2

/-- Before in the canonical order, and not the same. -/
def CanonicalLt (a b : Constraint) : Prop := canonicalLe a b = true ∧ a ≠ b

theorem pairwise_dropRepeatsOf (hdef : ∀ c ∈ a :: cs, c.isDefinite = true)
    (h : (a :: cs).Pairwise fun b c => canonicalLe b c = true) :
    (a :: dropRepeats.dropRepeatsOf a cs).Pairwise CanonicalLt := by
  induction cs generalizing a with
  | nil => exact List.pairwise_singleton _ _
  | cons c cs ih =>
    obtain ⟨ha, hrest⟩ := List.pairwise_cons.mp h
    obtain ⟨hadef, hcdef⟩ := List.forall_mem_cons.mp hdef
    rw [dropRepeats.dropRepeatsOf]
    split
    · -- a repeat of the shape that was kept
      refine ih (List.forall_mem_cons.mpr ⟨hadef, (List.forall_mem_cons.mp hcdef).2⟩) ?_
      exact List.pairwise_cons.mpr ⟨(List.forall_mem_cons.mp ha).2,
        (List.pairwise_cons.mp hrest).2⟩
    · rename_i hne
      have hkept := ih hcdef hrest
      refine List.pairwise_cons.mpr ⟨fun d hd => ?_, hkept⟩
      have hdmem : d ∈ c :: cs := by
        rcases List.mem_cons.mp hd with rfl | hd
        · exact List.mem_cons_self
        · exact List.mem_cons_of_mem _ (mem_dropRepeatsOf hd)
      refine ⟨ha d hdmem, ?_⟩
      rintro rfl
      -- the shape would stand both before and behind the one that follows it
      have hca : canonicalLe c a = true := by
        rcases List.mem_cons.mp hdmem with rfl | hmem
        · exact ha a List.mem_cons_self
        · exact (List.pairwise_cons.mp hrest).1 a hmem
      exact hne (canonicalLe_antisymm hca (ha c List.mem_cons_self) ▸ same_refl c)

theorem pairwise_canonicalize (hdef : ∀ c ∈ cs, c.isDefinite = true) :
    (canonicalize cs).Pairwise CanonicalLt := by
  have hsorted := List.pairwise_mergeSort canonicalLe_trans canonicalLe_total cs
  have hmem : ∀ c ∈ cs.mergeSort canonicalLe, c.isDefinite = true := fun c hc =>
    hdef c ((List.mergeSort_perm cs canonicalLe).mem_iff.mp hc)
  rw [canonicalize]
  cases h : cs.mergeSort canonicalLe with
  | nil => exact List.Pairwise.nil
  | cons a as => exact pairwise_dropRepeatsOf (h ▸ hmem) (h ▸ hsorted)

/-! ### Members -/

theorem mem_canonicalize_iff (hdef : ∀ c ∈ cs, c.isDefinite = true) : c ∈ canonicalize cs ↔
    c ∈ cs := by
  refine ⟨mem_canonicalize, fun h => ?_⟩
  obtain ⟨d, hd, hsame⟩ := exists_same_of_mem h
  exact eq_of_same (hdef c h) (hdef d (mem_canonicalize hd)) hsame ▸ hd

theorem eq_of_pairwise_canonicalLt (ha : as.Pairwise CanonicalLt) (hb : bs.Pairwise CanonicalLt)
    (h : ∀ c, c ∈ as ↔ c ∈ bs) : as = bs := by
  have hirrefl : Std.Irrefl CanonicalLt := ⟨fun _ h => h.2 rfl⟩
  have hantisymm : Std.Antisymm CanonicalLt :=
    ⟨fun _ _ hab hba => canonicalLe_antisymm hab.1 hba.1⟩
  exact List.Pairwise.eq_of_mem_iff ha hb h

/-- Canonical lists of the same shapes are equal. -/
theorem canonicalize_eq_of_mem_iff (ha : ∀ c ∈ as, c.isDefinite = true)
    (hb : ∀ c ∈ bs, c.isDefinite = true)
    (h : ∀ c, c ∈ as ↔ c ∈ bs) : canonicalize as = canonicalize bs :=
  eq_of_pairwise_canonicalLt (pairwise_canonicalize ha) (pairwise_canonicalize hb) fun c => by
    rw [mem_canonicalize_iff ha, mem_canonicalize_iff hb, h]

theorem isDefinite_of_mem_meetAll (ha : ∀ c ∈ as, c.isDefinite = true)
    (hb : ∀ c ∈ bs, c.isDefinite = true) :
    ∀ c ∈ meetAll as bs, c.isDefinite = true := by
  intro c hc
  obtain ⟨a, hamem, b, hbmem, hmeet⟩ := mem_meetAll hc
  exact isDefinite_of_meet (ha a hamem) (hb b hbmem) hmeet

theorem mem_canonicalize_meetAll (ha : ∀ c ∈ as, c.isDefinite = true)
    (hb : ∀ c ∈ bs, c.isDefinite = true) :
    c ∈ canonicalize (meetAll as bs) ↔ ∃ a ∈ as, ∃ b ∈ bs, a.meet b = some c := by
  rw [mem_canonicalize_iff (isDefinite_of_mem_meetAll ha hb), mem_meetAll_iff]

end Constraint

namespace Constraints

open Constraint

variable {a b c : Constraints} {d : Constraint}

/-- Some shape is listed. -/
def Lists (a : Constraints) (d : Constraint) : Prop := ∃ l, a = some l ∧ d ∈ l

theorem lists_some {l : List Constraint} : Lists (some l) d ↔ d ∈ l :=
  ⟨fun ⟨_, hl, hd⟩ => Option.some.inj hl ▸ hd, fun hd => ⟨l, rfl, hd⟩⟩

theorem not_lists_none : ¬Lists none d := nofun

theorem Definite.of_lists (ha : a.Definite) (hd : a.Lists d) : d.isDefinite = true := by
  obtain ⟨l, hl, hd⟩ := hd
  exact ha l hl d hd

/-- An intersection lists what pairs of shapes have in common. -/
theorem Definite.lists_intersect (ha : a.Definite) (hb : b.Definite) (hane : a ≠ none)
    (hbne : b ≠ none) :
    (a.intersect b).Lists d ↔ ∃ x, a.Lists x ∧ ∃ y, b.Lists y ∧ x.meet y = some d := by
  match a, b with
  | some as, some bs =>
    simp only [lists_some]
    exact lists_some.trans (mem_canonicalize_meetAll (each_some.mp ha) (each_some.mp hb))

/-- A canonical list of what pairs of shapes have in common is the intersection. -/
theorem Definite.intersect_eq_of_mem_iff {as bs cs : List Constraint} (ha : Definite (some as))
    (hb : Definite (some bs)) (hcs : cs.Pairwise CanonicalLt)
    (h : ∀ c, c ∈ cs ↔ c ∈ meetAll as bs) :
    Constraints.intersect (some as) (some bs) = some cs := by
  have hdef := isDefinite_of_mem_meetAll (each_some.mp ha) (each_some.mp hb)
  refine congrArg some (eq_of_pairwise_canonicalLt (pairwise_canonicalize hdef) hcs fun c => ?_)
  rw [mem_canonicalize_iff hdef, h]

/-- Some shapes are listed, in canonical order and without repeats. -/
def Canonical (a : Constraints) : Prop := ∃ l, a = some l ∧ l.Pairwise CanonicalLt

/-- Canonical constraints with the same shapes are equal. -/
theorem Canonical.ext (ha : a.Canonical) (hb : b.Canonical) (h : ∀ d, a.Lists d ↔ b.Lists d) :
    a = b := by
  obtain ⟨as, rfl, has⟩ := ha
  obtain ⟨bs, rfl, hbs⟩ := hb
  refine congrArg some (eq_of_pairwise_canonicalLt has hbs fun d => ?_)
  rw [← lists_some, h, lists_some]

theorem intersect_ne_none (h : a ≠ none) (b : Constraints) : a.intersect b ≠ none := by
  match a, b with
  | some _, none | some _, some _ => exact Option.some_ne_none _

theorem Definite.canonical (ha : a.Definite) (hb : b.Definite) (hane : a ≠ none)
    (hbne : b ≠ none) :
    (a.intersect b).Canonical := by
  match a, b with
  | some as, some bs =>
    exact ⟨_, rfl,
      pairwise_canonicalize (isDefinite_of_mem_meetAll (each_some.mp ha) (each_some.mp hb))⟩

/-! ### Grouping -/

theorem Definite.intersect_assoc_of (ha : a.Definite) (hb : b.Definite) (hc : c.Definite)
    (hassoc : ∀ x y z, a.Lists x → b.Lists y → c.Lists z →
      (x.meet y).bind (·.meet z) = (y.meet z).bind (x.meet ·)) :
    (a.intersect b).intersect c = a.intersect (b.intersect c) := by
  by_cases hane : a = none
  · rw [hane]
    rfl
  by_cases hbne : b = none
  · rw [hbne, intersect_none]
    rfl
  by_cases hcne : c = none
  · rw [hcne, intersect_none, intersect_none]
  have hab := ha.intersect hb
  have hbc := hb.intersect hc
  have habne := intersect_ne_none hane b
  have hbcne := intersect_ne_none hbne c
  refine (hab.canonical hc habne hcne).ext (ha.canonical hbc hane hbcne) fun e => ?_
  simp only [hab.lists_intersect hc habne hcne, ha.lists_intersect hb hane hbne,
    ha.lists_intersect hbc hane hbcne, hb.lists_intersect hc hbne hcne]
  constructor
  · rintro ⟨w, ⟨x, hx, y, hy, hxy⟩, z, hz, hwz⟩
    have hbind : (x.meet y).bind (·.meet z) = some e := by rw [hxy, Option.bind_some, hwz]
    rw [hassoc x y z hx hy hz, Option.bind_eq_some_iff] at hbind
    obtain ⟨v, hyz, hxv⟩ := hbind
    exact ⟨x, hx, v, ⟨y, hy, z, hz, hyz⟩, hxv⟩
  · rintro ⟨x, hx, v, ⟨y, hy, z, hz, hyz⟩, hxv⟩
    have hbind : (y.meet z).bind (x.meet ·) = some e := by rw [hyz, Option.bind_some, hxv]
    rw [← hassoc x y z hx hy hz, Option.bind_eq_some_iff] at hbind
    obtain ⟨w, hxy, hwz⟩ := hbind
    exact ⟨w, ⟨x, hx, y, hy, hxy⟩, z, hz, hwz⟩

end Constraints

/-- Three definite shapes meet in one however they are grouped. -/
theorem Constraint.meet_assoc_of_isDefinite {x y z : Constraint} (hx : x.isDefinite = true)
    (hy : y.isDefinite = true) (hz : z.isDefinite = true) :
    (x.meet y).bind (·.meet z) = (y.meet z).bind (x.meet ·) := by
  induction x using inductionOn generalizing y z with
  | other x hlist => exact meet_assoc hlist y z
  | list a ih =>
    by_cases hxy : (list a).kind = y.kind
    · by_cases hyz : y.kind = z.kind
      · cases y <;> cases hxy
        cases z <;> cases hyz
        rename_i b c
        rw [isDefinite_list] at hx hy hz
        rw [meet_list_bind, bind_meet_list, meet_list, meet_list, hx.intersect_assoc_of hy hz]
        rintro x y z hxa hyb hzc
        obtain ⟨l, hl, hmem⟩ := id hxa
        exact ih l hl x hmem (hx.of_lists hxa) (hy.of_lists hyb) (hz.of_lists hzc)
      · exact meet_assoc_of_kind_ne (.inr hyz)
    · exact meet_assoc_of_kind_ne (.inl hxy)

/-- Definite constraints can be grouped in any way. -/
theorem Constraints.Definite.intersect_assoc {a b c : Constraints} (ha : a.Definite)
    (hb : b.Definite)
    (hc : c.Definite) : (a.intersect b).intersect c = a.intersect (b.intersect c) :=
  ha.intersect_assoc_of hb hc fun _ _ _ hx hy hz =>
    Constraint.meet_assoc_of_isDefinite (ha.of_lists hx) (hb.of_lists hy) (hc.of_lists hz)

end Patchbay
