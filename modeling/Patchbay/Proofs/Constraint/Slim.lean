import Patchbay.Proofs.Constraint.Laws
import Patchbay.Proofs.Constraint.Plain
import Patchbay.Proofs.Json.Fields
import Mathlib.Data.List.Sort

/-!
# Slim constraints

Built-in types permit at most one shape of each kind. Such constraints, listed in the order of
kinds, are *slim*. Their intersections are slim, and they obey laws to the digit that hold in
general only of what is accepted: they can be grouped in any way (`Slim.intersect_assoc`), and to
intersect with the first side once more changes nothing, or leaves nothing (`Slim.absorb`). The
latter happens with the empty menu only, which has nothing in common with itself.
-/

namespace Patchbay

namespace Constraint

variable {a b c d : Constraint} {as bs cs : List Constraint}

/-! ### One shape of each kind -/

/-- The kinds of the shapes go up. -/
def Ranked (cs : List Constraint) : Prop := cs.Pairwise fun c d => c.kind.rank < d.kind.rank

/-- The shape is not lost when it meets itself. -/
def Solid (c : Constraint) : Prop := c.meet c = some c

theorem Ranked.eq_of_kind_eq (h : Ranked cs) (hc : c ∈ cs) (hd : d ∈ cs) (hk : c.kind = d.kind) :
    c = d := by
  induction cs with
  | nil => cases hc
  | cons a rest ih =>
    obtain ⟨ha, hrest⟩ := List.pairwise_cons.mp h
    rcases List.mem_cons.mp hc with rfl | hc <;> rcases List.mem_cons.mp hd with rfl | hd
    · rfl
    · exact absurd (ha d hd) (by simp [hk])
    · rename_i hc'
      exact absurd (ha c hc') (by simp [hk])
    · exact ih hrest hc hd

/-- Ranked lists of the same shapes are equal. -/
theorem Ranked.eq_of_mem_iff (ha : Ranked as) (hb : Ranked bs) (h : ∀ c, c ∈ as ↔ c ∈ bs) :
    as = bs := by
  have hirrefl : Std.Irrefl fun c d : Constraint => c.kind.rank < d.kind.rank :=
    ⟨fun c => Nat.lt_irrefl _⟩
  have hantisymm : Std.Antisymm fun c d : Constraint => c.kind.rank < d.kind.rank :=
    ⟨fun _ _ hcd hdc => absurd hcd (Nat.lt_asymm hdc)⟩
  exact List.Pairwise.eq_of_mem_iff ha hb h

/-- A ranked list is in canonical order, and has no repeats. -/
theorem Ranked.canonicalize_eq (h : Ranked cs) : canonicalize cs = cs := by
  have hsort : cs.mergeSort canonicalLe = cs :=
    List.mergeSort_of_pairwise (h.imp fun hlt => by simp [canonicalLe, hlt])
  have hdrop : ∀ {cs : List Constraint}, Ranked cs → dropRepeats cs = cs := by
    have hfrom : ∀ {cs : List Constraint} {kept : Constraint}, Ranked (kept :: cs) →
        dropRepeats.dropRepeatsOf kept cs = cs := by
      intro cs
      induction cs with
      | nil => exact fun _ => rfl
      | cons c rest ih =>
        intro kept h
        obtain ⟨hkept, hrest⟩ := List.pairwise_cons.mp h
        have hne : ¬ c.same kept = true := fun hsame => by
          have hlt := hkept c List.mem_cons_self
          rw [kind_eq_of_same hsame] at hlt
          exact Nat.lt_irrefl _ hlt
        rw [dropRepeats.dropRepeatsOf, if_neg hne, ih hrest]
    intro cs h
    cases cs with
    | nil => rfl
    | cons c rest => rw [dropRepeats, hfrom h]
  rw [canonicalize, hsort, hdrop h]

theorem mem_meetAll_iff : c ∈ meetAll as bs ↔ ∃ a ∈ as, ∃ b ∈ bs, a.meet b = some c := by
  refine ⟨mem_meetAll, ?_⟩
  induction as with
  | nil => simp
  | cons a rest ih =>
    rintro ⟨x, hx, b, hb, hmeet⟩
    rw [meetAll]
    rcases List.mem_cons.mp hx with rfl | hx
    · exact List.mem_append_left _ (List.mem_filterMap.mpr ⟨b, hb, hmeet⟩)
    · exact List.mem_append_right _ (ih ⟨x, hx, b, hb, hmeet⟩)

/-- A shape meets at most one shape of a ranked list. -/
theorem Ranked.filterMap_meet (h : Ranked bs) (a : Constraint) :
    (bs.filterMap fun b => a.meet b).Pairwise fun c d => c.kind.rank < d.kind.rank := by
  rw [List.pairwise_filterMap]
  refine h.imp fun {b b'} hlt c hc c' hc' => ?_
  obtain ⟨ha, hb⟩ := kind_of_meet hc
  obtain ⟨ha', hb'⟩ := kind_of_meet hc'
  rw [← hb, ← hb', ha, ha'] at hlt
  exact absurd hlt (Nat.lt_irrefl _)

theorem Ranked.meetAll (ha : Ranked as) (hb : Ranked bs) : Ranked (meetAll as bs) := by
  induction as with
  | nil => exact List.Pairwise.nil
  | cons a rest ih =>
    obtain ⟨hrest, htail⟩ := List.pairwise_cons.mp ha
    rw [Constraint.meetAll, Ranked, List.pairwise_append]
    refine ⟨hb.filterMap_meet a, ih htail, fun c hc d hd => ?_⟩
    obtain ⟨b, -, hmeet⟩ := List.mem_filterMap.mp hc
    obtain ⟨a', ha', b', -, hmeet'⟩ := mem_meetAll hd
    rw [(kind_of_meet hmeet).1, (kind_of_meet hmeet').1]
    exact hrest a' ha'

/-! ### Meeting again -/

/-- Of two bounds one is picked; to pick between it and the first one again changes nothing. -/
theorem tighter_absorb {α : Type} {pick : α → α → α} (hself : ∀ x, pick x x = x)
    (h : ∀ x y, pick (pick x y) x = pick x y) (x y : Option α) :
    tighter pick (tighter pick x y) x = tighter pick x y := by
  cases x <;> cases y <;> simp [tighter, hself, h]

theorem tighter_self {α : Type} {pick : α → α → α} (hself : ∀ x, pick x x = x) (x : Option α) :
    tighter pick x x = x := by
  cases x with
  | none => rfl
  | some x => rw [tighter, hself]

theorem max_self_int64 (x : Int64) : max x x = x := ite_self x

theorem min_self_int64 (x : Int64) : min x x = x := ite_self x

theorem max_absorb_int64 (x y : Int64) : max (max x y) x = max x y := by
  have hmax : ∀ a b : Int64, max a b = if a ≤ b then b else a := fun _ _ => rfl
  by_cases hxy : x ≤ y
  · rw [hmax x y, if_pos hxy, hmax]
    split
    · rename_i hyx
      exact Int64.le_antisymm hxy hyx
    · rfl
  · rw [hmax x y, if_neg hxy, max_self_int64]

theorem min_absorb_int64 (x y : Int64) : min (min x y) x = min x y := by
  have hmin : ∀ a b : Int64, min a b = if a ≤ b then a else b := fun _ _ => rfl
  by_cases hxy : x ≤ y
  · rw [hmin x y, if_pos hxy, min_self_int64]
  · rw [hmin x y, if_neg hxy, hmin]
    split
    · rfl
    · rename_i hyx
      exact absurd ((Int64.le_total x y).resolve_left hxy) hyx

/-- To meet the first shape once more changes nothing. -/
theorem Plain.meet_absorb (ha : a.Plain) (hb : b.Plain) (h : a.meet b = some c) :
    c.meet a = some c := by
  match a, b, ha, hb with
  | .integer lo hi, .integer lo' hi', _, _ =>
    rw [meet_integer, meetRange] at h
    split at h
    · rename_i huncrossed
      cases h
      rw [meet_integer, meetRange, tighter_absorb max_self_int64 max_absorb_int64,
        tighter_absorb min_self_int64 min_absorb_int64, if_pos huncrossed]
    · cases h
  | .enumeration l, .enumeration m, _, _ =>
    obtain ⟨hne, rfl⟩ : commonOptions l m ≠ [] ∧ c = .enumeration (commonOptions l m) := by
      rw [Constraint.meet, meetOptions] at h
      split at h
      · cases h
      · rename_i hne
        cases h
        exact ⟨hne, rfl⟩
    have hsame : commonOptions (commonOptions l m) l = commonOptions l m :=
      List.filter_eq_self.mpr fun o ho => by simpa using (List.mem_filter.mp ho).1
    rw [Constraint.meet, meetOptions, hsame]
    split
    · rename_i hnil
      exact absurd hnil hne
    · rfl
  | .float none none, .float none none, _, _ =>
    cases h
    rfl
  | .string, .string, _, _ | .boolean, .boolean, _, _ | .trigger, .trigger, _, _ =>
    cases h
    rfl

/-- What two shapes have in common is not lost when it meets itself. -/
theorem Plain.solid_of_meet (ha : a.Plain) (hb : b.Plain) (h : a.meet b = some c) : c.Solid := by
  match a, b, ha, hb with
  | .integer lo hi, .integer lo' hi', _, _ =>
    rw [meet_integer, meetRange] at h
    split at h
    · rename_i huncrossed
      cases h
      rw [Solid, meet_integer, meetRange, tighter_self max_self_int64,
        tighter_self min_self_int64, if_pos huncrossed]
    · cases h
  | .enumeration l, .enumeration m, _, _ =>
    rw [Constraint.meet, meetOptions] at h
    split at h
    · cases h
    · rename_i options hne
      cases h
      have hsame : commonOptions (commonOptions l m) (commonOptions l m) = commonOptions l m :=
        List.filter_eq_self.mpr fun o ho => by simpa using ho
      rw [Solid, Constraint.meet, meetOptions, hsame]
      split
      · rename_i hnil
        exact absurd hnil hne
      · rfl
  | .float none none, .float none none, _, _ =>
    cases h
    rfl
  | .string, .string, _, _ | .boolean, .boolean, _, _ | .trigger, .trigger, _, _ =>
    cases h
    rfl

/-! ### Values -/

/-- A plain shape that is not lost when it meets itself is had by some value. -/
theorem Plain.exists_accepts (hc : c.Plain) (hsolid : c.Solid) :
    ∃ v, v ≠ .null ∧ c.accepts v = true := by
  match c, hc with
  | .string, _ => exact ⟨.str "", by simp, rfl⟩
  | .integer lo hi, _ =>
    have huncrossed : uncrossed (fun a b : Int64 => decide (a ≤ b)) lo hi = true := by
      rw [Solid, meet_integer, meetRange, uncrossed_tighter bounds_int64] at hsolid
      split at hsolid
      · rename_i h
        simp only [Bool.and_eq_true] at h
        exact h.1.1
      · cases hsolid
    refine ⟨.int (lo.getD (hi.getD 0)).toInt, by simp, ?_⟩
    rw [accepts_integer, Json.int64?_toInt]
    cases lo <;> cases hi <;> simp_all [uncrossed, withinInt]
  | .float none none, _ => exact ⟨.int 0, by simp, rfl⟩
  | .boolean, _ => exact ⟨.bool true, by simp, rfl⟩
  | .enumeration [], _ => cases hsolid
  | .enumeration (option :: rest), _ =>
    refine ⟨.str option, by simp, ?_⟩
    rw [accepts_enumeration]
    simp [Json.str?]
  | .trigger, _ => exact ⟨.bool true, by simp, rfl⟩

theorem Plain.extensional (hc : c.Plain) : c.kind.Extensional := by
  match c, hc with
  | .string, _ | .integer .., _ | .float none none, _ | .boolean, _ | .enumeration _, _ | .trigger,
      _ =>
    simp [kind, Kind.Extensional]

end Constraint

namespace Constraints

open Constraint

variable {a b c : Constraints}

/-- Plain shapes, one of each kind and in the order of kinds, that are not lost when they meet
themselves; or the empty menu by itself. -/
structure Slim (cs : Constraints) : Prop where
  plain : cs.Plain
  ranked : ∀ l, cs = some l → Ranked l
  solid : cs = some [.enumeration []] ∨ Each Solid cs

theorem slim_none : Slim none := ⟨plain_none, nofun, .inr each_none⟩

theorem slim_single {c : Constraint} (hc : c.Plain) (hsolid : c = .enumeration [] ∨ c.Solid) :
    Slim (some [c]) := by
  refine ⟨plain_some.mpr (List.forall_mem_singleton.mpr hc), fun l hl => ?_, ?_⟩
  · cases hl
    exact List.pairwise_singleton _ _
  · rcases hsolid with rfl | hsolid
    · exact .inl rfl
    · exact .inr (each_some.mpr (List.forall_mem_singleton.mpr hsolid))

/-- A menu is slim, even if it is empty. -/
theorem slim_enumeration (options : List String) : Slim (some [.enumeration options]) := by
  refine slim_single trivial ?_
  cases options with
  | nil => exact .inl rfl
  | cons option rest =>
    have hsame : commonOptions (option :: rest) (option :: rest) = option :: rest :=
      List.filter_eq_self.mpr fun o ho => by simpa using ho
    refine .inr ?_
    rw [Solid, meet, meetOptions, hsame]

theorem Slim.eq_of_same (ha : a.Slim) (hb : b.Slim) (h : Constraints.same a b = true) : a = b :=
  Constraints.eq_of_same ha.plain hb.plain h

/-- Intersections of slim lists need no sorting. -/
theorem Slim.intersect_some {as bs : List Constraint} (ha : Slim (some as)) (hb : Slim (some bs)) :
    Constraints.intersect (some as) (some bs) = some (meetAll as bs) :=
  congrArg some ((ha.ranked as rfl).meetAll (hb.ranked bs rfl)).canonicalize_eq

theorem nil_intersect (cs : Constraints) : Constraints.intersect (some []) cs = some [] := by
  cases cs with
  | none => rfl
  | some bs => simp [Constraints.intersect, meetAll, canonicalize, dropRepeats]

theorem intersect_nil {cs : Constraints} (h : cs ≠ none) : cs.intersect (some []) = some [] := by
  cases cs with
  | none => exact absurd rfl h
  | some as =>
    have hnone : meetAll as [] = [] := by
      refine List.eq_nil_iff_forall_not_mem.mpr fun c hc => ?_
      obtain ⟨-, -, b, hb, -⟩ := mem_meetAll hc
      cases hb
    simp [Constraints.intersect, hnone, canonicalize, dropRepeats]

theorem Slim.intersect (ha : a.Slim) (hb : b.Slim) : (a.intersect b).Slim := by
  match a, b, ha, hb with
  | none, b, _, hb => exact hb
  | some a, none, ha, _ => exact ha
  | some as, some bs, ha, hb =>
    refine ⟨plain_intersect ha.plain hb.plain, fun l hl => ?_, .inr ?_⟩
    · rw [ha.intersect_some hb, Option.some.injEq] at hl
      exact hl ▸ (ha.ranked as rfl).meetAll (hb.ranked bs rfl)
    · rw [ha.intersect_some hb]
      refine each_some.mpr fun c hc => ?_
      obtain ⟨x, hx, y, hy, hmeet⟩ := mem_meetAll hc
      exact (plain_some.mp ha.plain x hx).solid_of_meet (plain_some.mp hb.plain y hy) hmeet

/-- Slim constraints can be grouped in any way. -/
theorem Slim.intersect_assoc (ha : a.Slim) (hb : b.Slim) (hc : c.Slim) :
    (a.intersect b).intersect c = a.intersect (b.intersect c) := by
  match a, b, c, ha, hb, hc with
  | none, _, _, _, _, _ => rfl
  | some _, none, _, _, _, _ => rfl
  | some _, some _, none, _, _, _ => rfl
  | some as, some bs, some cs, ha, hb, hc =>
    have hab := ha.intersect hb
    have hbc := hb.intersect hc
    rw [ha.intersect_some hb] at hab ⊢
    rw [hb.intersect_some hc] at hbc ⊢
    rw [hab.intersect_some hc, ha.intersect_some hbc, Option.some.injEq]
    refine Ranked.eq_of_mem_iff ((hab.ranked _ rfl).meetAll (hc.ranked _ rfl))
      ((ha.ranked _ rfl).meetAll (hbc.ranked _ rfl)) fun e => ?_
    -- three shapes meet in one however they are grouped
    have hassoc : ∀ x ∈ as, ∀ y z, (x.meet y).bind (·.meet z) = (y.meet z).bind (x.meet ·) := by
      intro x hx
      have hplain := plain_some.mp ha.plain x hx
      refine meet_assoc fun hkind => ?_
      cases x with
      | list items => exact hplain.elim
      | _ => cases hkind
    simp only [mem_meetAll_iff]
    constructor
    · rintro ⟨w, ⟨x, hx, y, hy, hxy⟩, z, hz, hwz⟩
      have hbind : (x.meet y).bind (·.meet z) = some e := by rw [hxy, Option.bind_some, hwz]
      rw [hassoc x hx, Option.bind_eq_some_iff] at hbind
      obtain ⟨v, hyz, hxv⟩ := hbind
      exact ⟨x, hx, v, ⟨y, hy, z, hz, hyz⟩, hxv⟩
    · rintro ⟨x, hx, v, ⟨y, hy, z, hz, hyz⟩, hxv⟩
      have hbind : (y.meet z).bind (x.meet ·) = some e := by rw [hyz, Option.bind_some, hxv]
      rw [← hassoc x hx, Option.bind_eq_some_iff] at hbind
      obtain ⟨w, hxy, hwz⟩ := hbind
      exact ⟨w, ⟨x, hx, y, hy, hxy⟩, z, hz, hwz⟩

/-- What two sides have in common does not change by meeting the first side once more, unless that
is the empty menu. -/
theorem Slim.absorb_of_ne (ha : a.Slim) (hb : b.Slim) (hne : a ≠ some [.enumeration []]) :
    (a.intersect b).intersect a = a.intersect b := by
  match a, b, ha, hb with
  | none, none, _, _ => rfl
  | none, some _, _, _ => rfl
  | some as, none, ha, _ =>
    show Constraints.intersect (some as) (some as) = some as
    rw [ha.intersect_some ha]
    have hsolid := ha.solid.resolve_left hne
    refine congrArg some (Ranked.eq_of_mem_iff ((ha.ranked _ rfl).meetAll (ha.ranked _ rfl))
      (ha.ranked _ rfl) fun c => ?_)
    rw [mem_meetAll_iff]
    constructor
    · rintro ⟨x, hx, y, hy, hxy⟩
      obtain rfl := (ha.ranked _ rfl).eq_of_kind_eq hx hy
        ((kind_of_meet hxy).1.symm.trans (kind_of_meet hxy).2)
      rw [each_some.mp hsolid x hx, Option.some.injEq] at hxy
      exact hxy ▸ hx
    · exact fun hc => ⟨c, hc, c, hc, each_some.mp hsolid c hc⟩
  | some as, some bs, ha, hb =>
    have hab := ha.intersect hb
    rw [ha.intersect_some hb] at hab ⊢
    rw [hab.intersect_some ha]
    refine congrArg some (Ranked.eq_of_mem_iff ((hab.ranked _ rfl).meetAll (ha.ranked _ rfl))
      (hab.ranked _ rfl) fun c => ?_)
    have habsorb : ∀ x ∈ as, ∀ y ∈ bs, ∀ w, x.meet y = some w → w.meet x = some w :=
      fun x hx y hy w => (plain_some.mp ha.plain x hx).meet_absorb (plain_some.mp hb.plain y hy)
    rw [mem_meetAll_iff]
    constructor
    · rintro ⟨w, hw, z, hz, hwz⟩
      obtain ⟨x, hx, y, hy, hxy⟩ := mem_meetAll hw
      obtain rfl := (ha.ranked _ rfl).eq_of_kind_eq hx hz
        ((kind_of_meet hxy).1.symm.trans ((kind_of_meet hwz).1.symm.trans (kind_of_meet hwz).2))
      rw [habsorb x hx y hy w hxy, Option.some.injEq] at hwz
      exact hwz ▸ hw
    · intro hc
      obtain ⟨x, hx, y, hy, hxy⟩ := mem_meetAll hc
      exact ⟨c, hc, x, hx, habsorb x hx y hy c hxy⟩

/-- What two sides have in common does not change by meeting the first side once more, unless it is
lost. -/
theorem Slim.absorb (ha : a.Slim) (hb : b.Slim) :
    (a.intersect b).intersect a = a.intersect b ∨ (a.intersect b).intersect a = some [] := by
  by_cases hempty : a = some [.enumeration []]
  · subst hempty
    -- the empty menu has nothing in common with anything
    have hlost : ∀ {cs}, Slim (some cs) → Constraints.intersect (some [.enumeration []])
        (some cs) = some [] := by
      intro cs hcs
      have hnone : meetAll [.enumeration []] cs = [] := by
        refine List.eq_nil_iff_forall_not_mem.mpr fun c hc => ?_
        obtain ⟨x, hx, y, -, hxy⟩ := mem_meetAll hc
        rw [List.mem_singleton.mp hx] at hxy
        cases y <;> simp [meet, meetOptions, commonOptions, kind] at hxy
      rw [ha.intersect_some hcs, hnone]
    cases b with
    | none => exact .inr (hlost ha)
    | some bs =>
      have hnothing := ha.intersect hb
      rw [hlost hb] at hnothing ⊢
      exact .inl (hnothing.intersect_some ha)
  · exact .inl (ha.absorb_of_ne hb hempty)

/-- What is left of a single shape is a single shape of its kind, on whichever side it stands. -/
theorem Slim.single_intersect {c : Constraint} (ha : a.Slim) (hc : Slim (some [c]))
    {d : Constraints}
    (hd : d = Constraints.intersect (some [c]) a ∨ d = a.intersect (some [c]))
    (hne : d ≠ some []) :
    ∃ c', d = some [c'] ∧ c'.kind = c.kind := by
  have hslim : d.Slim := by
    rcases hd with rfl | rfl
    · exact hc.intersect ha
    · exact ha.intersect hc
  match a, ha with
  | none, _ =>
    refine ⟨c, ?_, rfl⟩
    rcases hd with rfl | rfl <;> rfl
  | some as, ha =>
    obtain ⟨ds, rfl, hkinds⟩ : ∃ ds, d = some ds ∧ ∀ e ∈ ds, e.kind = c.kind := by
      rcases hd with rfl | rfl
      · refine ⟨_, hc.intersect_some ha, fun e he => ?_⟩
        obtain ⟨x, hx, y, -, hxy⟩ := mem_meetAll he
        exact List.mem_singleton.mp hx ▸ (kind_of_meet hxy).1
      · refine ⟨_, ha.intersect_some hc, fun e he => ?_⟩
        obtain ⟨x, -, y, hy, hxy⟩ := mem_meetAll he
        exact List.mem_singleton.mp hy ▸ (kind_of_meet hxy).2
    match ds, hkinds with
    | [], _ => exact absurd rfl hne
    | [e], hkinds => exact ⟨e, rfl, hkinds e List.mem_cons_self⟩
    | e :: e' :: rest, hkinds =>
      have hlt := (List.pairwise_cons.mp (hslim.ranked _ rfl)).1 e' List.mem_cons_self
      rw [hkinds e List.mem_cons_self,
        hkinds e' (List.mem_cons_of_mem _ List.mem_cons_self)] at hlt
      exact absurd hlt (Nat.lt_irrefl _)

/-- Shapes that are left permit something, unless they are the empty menu. -/
theorem Slim.exists_permits (ha : a.Slim) (hne : a ≠ some [])
    (hmenu : a ≠ some [.enumeration []]) :
    ∃ k : Constraint.Kind, k.Extensional ∧ ∃ v, v ≠ .null ∧ a.permitsAs k v = true := by
  match a, ha with
  | none, _ => exact ⟨.string, by decide, .str "", nofun, rfl⟩
  | some [], _ => exact absurd rfl hne
  | some (c :: rest), ha =>
    have hc := plain_some.mp ha.plain c List.mem_cons_self
    obtain ⟨v, hv, hacc⟩ :=
      hc.exists_accepts (each_some.mp (ha.solid.resolve_left hmenu) c List.mem_cons_self)
    exact ⟨c.kind, hc.extensional, v, hv, by simp [permitsAs, hacc]⟩

end Constraints

end Patchbay
