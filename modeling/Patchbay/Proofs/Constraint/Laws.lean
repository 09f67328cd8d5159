import Patchbay.Proofs.Constraint.Permits

/-!
# Order and grouping of intersections

What an intersection permits depends neither on the order of its sides nor on how three of them are
grouped (`intersect_comm_assoc`). It is not the conjunction of what the sides permit, so the laws
are proved shape by shape, for the values that are accepted where shapes meet (`commonAccepts`), by
induction on nested lists.

Shapes other than lists meet in the same shape however they are grouped (`meet_assoc`). Lists meet
in what the intersection of their items permits, and fail to meet when this is nothing; whether it
is nothing shows in whether `null` is permitted (`isIncompatible_eq`).
-/

namespace Patchbay

namespace Constraints

/-- Constraints that permit nothing do not even permit `null`. -/
theorem isIncompatible_eq (cs : Constraints) : cs.isIncompatible = !cs.accept .null := by
  match cs with
  | none | some [] => rfl
  | some (c :: cs) => simp [isIncompatible, accept, Constraint.anyAccepts_null]

end Constraints

namespace Constraint

variable {α : Type} {le : α → α → Bool} {larger smaller : α → α → α}
variable {c c' d x y z : Constraint} {cs ds : List Constraint} {v : Json}

/-! ### Meeting lists -/

theorem commonAccepts_null (c d : Constraint) : commonAccepts c d .null = (c.meet d).isSome := by
  rw [commonAccepts]
  cases c.meet d with
  | none => rfl
  | some e => exact accepts_null e

theorem commonAccepts_of_kind_ne (h : c.kind ≠ d.kind) (v : Json) :
    commonAccepts c d v = false := by
  rw [commonAccepts, meet_of_kind_ne h, Option.any_none]

theorem commonAccepts_list (a b : Constraints) (v : Json) :
    commonAccepts (.list a) (.list b) v =
      ((a.intersect b).accept .null && (list (a.intersect b)).accepts v) := by
  rw [commonAccepts, meet_list, Constraints.isIncompatible_eq]
  cases (a.intersect b).accept .null <;> rfl

theorem accepts_list_congr {a b : Constraints} (h : ∀ item, a.accept item = b.accept item)
    (v : Json) : (list a).accepts v = (list b).accepts v := by
  rw [accepts_list, accepts_list, funext h]

/-- Lists have the same in common when the intersections of their items permit the same. -/
theorem commonAccepts_list_congr {a b a' b' : Constraints}
    (h : ∀ item, (a.intersect b).accept item = (a'.intersect b').accept item) (v : Json) :
    commonAccepts (.list a) (.list b) v = commonAccepts (.list a') (.list b') v := by
  rw [commonAccepts_list, commonAccepts_list, h, accepts_list_congr h]

/-- Shapes other than lists have a value in common when they meet at all and both accept it. -/
theorem commonAccepts_eq (hc : c.kind ≠ .list) (d : Constraint) (v : Json) :
    commonAccepts c d v = ((c.meet d).isSome && (c.accepts v && d.accepts v)) := by
  rw [Bool.eq_iff_iff, Bool.and_eq_true, Bool.and_eq_true]
  constructor
  · intro h
    obtain ⟨e, hmeet, -⟩ := commonAccepts_iff.mp h
    exact ⟨hmeet ▸ rfl, accepts_of_common h⟩
  · rintro ⟨hmeet, hcv, hdv⟩
    obtain ⟨e, hmeet⟩ := Option.isSome_iff_exists.mp hmeet
    obtain ⟨hec, hed⟩ := kind_of_meet hmeet
    by_cases hv : v = .null
    · rw [hv, commonAccepts_null, hmeet]
      rfl
    · by_cases hext : c.kind.Extensional
      · rw [commonAccepts_of_extensional hext (hec.symm.trans hed) hv, hcv, hdv]
        rfl
      · refine commonAccepts_iff.mpr ⟨e, hmeet, ?_⟩
        have he : e.kind = .object ∨ e.kind = .nodeReference := by
          rw [hec]
          simp only [Kind.Extensional] at hext
          grind
        rw [accepts_eq_of_kind_eq he hec, hcv]

/-! ### Ranges and options -/

theorem meet_integer (lo hi lo' hi' : Option Int64) :
    (integer lo hi).meet (.integer lo' hi') =
      meetRange .integer (fun a b => decide (a ≤ b)) max min lo hi lo' hi' :=
  meetInt_eq lo hi lo' hi'

theorem meet_float (lo hi lo' hi' : Option Double) :
    (float lo hi).meet (.float lo' hi') =
      meetRange .float Double.le Double.max Double.min lo hi lo' hi' :=
  meetFloat_eq lo hi lo' hi'

theorem isSome_meetRange (mk : Option α → Option α → Constraint) (lo hi lo' hi' : Option α) :
    (meetRange mk le larger smaller lo hi lo' hi').isSome =
      uncrossed le (tighter larger lo lo') (tighter smaller hi hi') := by
  rw [meetRange]
  cases h : uncrossed le (tighter larger lo lo') (tighter smaller hi hi') <;> simp

theorem isSome_meetRange_comm (h : Bounds le larger smaller)
    (mk : Option α → Option α → Constraint) (lo hi lo' hi' : Option α) :
    (meetRange mk le larger smaller lo hi lo' hi').isSome =
      (meetRange mk le larger smaller lo' hi' lo hi).isSome := by
  rw [isSome_meetRange, isSome_meetRange, uncrossed_tighter h, uncrossed_tighter h]
  ac_rfl

theorem tighter_assoc {pick : α → α → α} (h : ∀ a b c, pick (pick a b) c = pick a (pick b c))
    (a b c : Option α) : tighter pick (tighter pick a b) c = tighter pick a
    (tighter pick b c) := by
  cases a <;> cases b <;> cases c <;> simp [tighter, h]

/-- Three ranges meet in one range however they are grouped. -/
theorem meetRange_assoc (h : Bounds le larger smaller) {mk : Option α → Option α → Constraint}
    (hmk : ∀ lo hi lo' hi', (mk lo hi).meet (mk lo' hi') =
      meetRange mk le larger smaller lo hi lo' hi') (lo hi lo' hi' lo'' hi'' : Option α) :
    ((mk lo hi).meet (mk lo' hi')).bind (·.meet (mk lo'' hi'')) =
      ((mk lo' hi').meet (mk lo'' hi'')).bind ((mk lo hi).meet ·) := by
  -- a range that is met by a third one has been there before
  have hleft : ((mk lo hi).meet (mk lo' hi')).bind (·.meet (mk lo'' hi'')) =
      meetRange mk le larger smaller (tighter larger lo lo')
      (tighter smaller hi hi') lo'' hi'' := by
    rw [hmk, meetRange]
    split
    · exact hmk ..
    · rename_i hcrossed
      rw [meetRange, if_neg, Option.bind_none]
      rw [uncrossed_tighter h]
      grind
  have hright : ((mk lo' hi').meet (mk lo'' hi'')).bind ((mk lo hi).meet ·) =
      meetRange mk le larger smaller lo hi (tighter larger lo' lo'')
      (tighter smaller hi' hi'') := by
    rw [hmk, meetRange]
    split
    · exact hmk ..
    · rename_i hcrossed
      rw [meetRange, if_neg, Option.bind_none]
      rw [uncrossed_tighter h]
      grind
  rw [hleft, hright, meetRange, meetRange, tighter_assoc h.larger_assoc,
    tighter_assoc h.smaller_assoc]

/-- The shape with the given texts, if there are any. -/
def unlessEmpty (mk : List String → Constraint) (texts : List String) : Option Constraint :=
  if texts.isEmpty then none else some (mk texts)

theorem meetOptions_eq (a b : List String) :
    meetOptions a b = unlessEmpty .enumeration (commonOptions a b) := by
  rw [meetOptions]
  cases commonOptions a b <;> rfl

theorem meetTypes_eq {a b : List String} (ha : a ≠ []) (hb : b ≠ []) :
    meetTypes a b = unlessEmpty .nodeReference (commonOptions a b) := by
  unfold meetTypes
  split
  · exact absurd rfl ha
  · exact absurd rfl hb
  · cases commonOptions a b <;> rfl

theorem meetTypes_nil (a : List String) : meetTypes a [] = some (.nodeReference a) := by
  cases a <;> rfl

theorem isSome_unlessEmpty (mk : List String → Constraint) (a b : List String) :
    (unlessEmpty mk (commonOptions a b)).isSome = a.any b.contains := by
  have hempty : (commonOptions a b).isEmpty = !a.any b.contains := by
    rw [commonOptions, Bool.eq_iff_iff]
    simp
  rw [unlessEmpty, hempty]
  cases a.any b.contains <;> rfl

theorem any_contains_comm (a b : List String) : a.any b.contains = b.any a.contains := by
  rw [Bool.eq_iff_iff]
  simp only [List.any_eq_true, List.contains_iff_mem]
  exact ⟨fun ⟨s, ha, hb⟩ => ⟨s, hb, ha⟩, fun ⟨s, hb, ha⟩ => ⟨s, ha, hb⟩⟩

theorem commonOptions_assoc (a b c : List String) :
    commonOptions (commonOptions a b) c = commonOptions a (commonOptions b c) := by
  simp only [commonOptions, List.filter_filter]
  refine List.filter_congr fun s _ => ?_
  rw [Bool.eq_iff_iff]
  simp [List.mem_filter, and_comm]

/-- Going on with texts that there are is going on with what becomes of them. -/
theorem bind_unlessEmpty {mk : List String → Constraint} {f : Constraint → Option Constraint}
    {g : List String → List String} (hf : ∀ l, l ≠ [] → f (mk l) = unlessEmpty mk (g l))
    (hg : g [] = []) (l : List String) : (unlessEmpty mk l).bind f = unlessEmpty mk (g l) := by
  cases l with
  | nil => rw [hg]; rfl
  | cons s l => exact hf (s :: l) (List.cons_ne_nil s l)

theorem commonOptions_nil (a : List String) : commonOptions a [] = [] := by
  simp [commonOptions]

/-- Three lists of options meet in one list however they are grouped. -/
theorem meetOptions_assoc (a b c : List String) :
    (meetOptions a b).bind (·.meet (.enumeration c)) =
      (meetOptions b c).bind ((enumeration a).meet ·) := by
  rw [meetOptions_eq, meetOptions_eq,
    bind_unlessEmpty (g := (commonOptions · c)) (fun l _ => meetOptions_eq l c) rfl,
    bind_unlessEmpty (g := (commonOptions a ·)) (fun l _ => meetOptions_eq a l)
      (commonOptions_nil a), commonOptions_assoc]

theorem eq_nodeReference_of_meetTypes {a b : List String} {e : Constraint}
    (h : meetTypes a b = some e) : ∃ l, e = .nodeReference l := by
  unfold meetTypes at h
  split at h
  · exact ⟨_, (Option.some.inj h).symm⟩
  · exact ⟨_, (Option.some.inj h).symm⟩
  · split at h <;> cases h
    exact ⟨_, rfl⟩

/-- Three lists of types meet in one list however they are grouped. -/
theorem meetTypes_assoc (a b c : List String) :
    (meetTypes a b).bind (·.meet (.nodeReference c)) =
      (meetTypes b c).bind ((nodeReference a).meet ·) := by
  -- an empty list stands for any type and gives way
  by_cases ha : a = []
  · subst ha
    cases h : meetTypes b c with
    | none => exact h
    | some e =>
      obtain ⟨l, rfl⟩ := eq_nodeReference_of_meetTypes h
      exact h
  · by_cases hc : c = []
    · subst hc
      rw [meetTypes_nil]
      cases h : meetTypes a b with
      | none => exact h.symm
      | some e =>
        obtain ⟨l, rfl⟩ := eq_nodeReference_of_meetTypes h
        exact (meetTypes_nil l).trans h.symm
    · by_cases hb : b = []
      · subst hb
        rw [meetTypes_nil]
        rfl
      · rw [meetTypes_eq ha hb, meetTypes_eq hb hc,
          bind_unlessEmpty (g := (commonOptions · c)) (fun l hl => meetTypes_eq hl hc) rfl,
          bind_unlessEmpty (g := (commonOptions a ·)) (fun l hl => meetTypes_eq ha hl)
            (commonOptions_nil a), commonOptions_assoc]

theorem isSome_meetTypes_comm (a b : List String) :
    (meetTypes a b).isSome = (meetTypes b a).isSome := by
  by_cases ha : a = []
  · rw [ha, meetTypes_nil]
    rfl
  · by_cases hb : b = []
    · rw [hb, meetTypes_nil]
      rfl
    · rw [meetTypes_eq ha hb, meetTypes_eq hb ha, isSome_unlessEmpty, isSome_unlessEmpty,
        any_contains_comm]

/-! ### Schemas -/

theorem same_comm (a b : Json) : a.same b = b.same a := by
  rw [Bool.eq_iff_iff]
  exact ⟨Json.same_symm, Json.same_symm⟩

theorem isSome_meetSchema_comm (a b : Option Json) :
    (meetSchema a b).isSome = (meetSchema b a).isSome := by
  cases a with
  | none => cases b <;> rfl
  | some a =>
    cases b with
    | none => rfl
    | some b =>
      rw [meetSchema, meetSchema, same_comm]
      cases b.same a <;> rfl

theorem isSome_meetSchema_congr {a b : Option Json} (h : sameValue a b = true)
    (c : Option Json) : (meetSchema a c).isSome = (meetSchema b c).isSome := by
  cases a <;> cases b <;> simp only [sameValue, Bool.false_eq_true] at h
  · rfl
  · cases c with
    | none => rfl
    | some c =>
      rename_i a b
      have hsame : a.same c = b.same c := by
        rw [Bool.eq_iff_iff]
        exact ⟨Json.same_trans (Json.same_symm h), Json.same_trans h⟩
      rw [meetSchema, meetSchema, hsame]
      cases b.same c <;> rfl

/-- Three schemas meet in one schema however they are grouped. -/
theorem meetSchema_assoc (a b c : Option Json) :
    (meetSchema a b).bind (·.meet (.object c)) = (meetSchema b c).bind ((object a).meet ·) := by
  have hmeet : ∀ a b, (object a).meet (.object b) = meetSchema a b := fun _ _ => rfl
  cases a <;> cases b <;> cases c <;> simp only [meetSchema, Option.bind_some, hmeet]
  case none.some.some a b => cases a.same b <;> rfl
  case some.some.none a b => cases a.same b <;> rfl
  case some.some.some a b c =>
    -- the first schema is kept on both sides
    cases hab : a.same b with
    | false => cases b.same c <;> simp [hmeet, meetSchema, hab]
    | true =>
      have hac : a.same c = b.same c := by
        rw [Bool.eq_iff_iff]
        exact ⟨Json.same_trans (Json.same_symm hab), Json.same_trans hab⟩
      cases hbc : b.same c <;> simp [hmeet, meetSchema, hab, hac, hbc]

/-! ### Shapes other than lists -/

/-- Three shapes that are not all of one kind do not meet, however they are grouped. -/
theorem meet_assoc_of_kind_ne (h : x.kind ≠ y.kind ∨ y.kind ≠ z.kind) :
    (x.meet y).bind (·.meet z) = (y.meet z).bind (x.meet ·) := by
  -- what two shapes meet in is of their kind, which is not that of the third
  by_cases hxy : x.kind = y.kind
  · have hyz : y.kind ≠ z.kind := h.resolve_left (not_not_intro hxy)
    rw [meet_of_kind_ne hyz, Option.bind_none, Option.bind_eq_none_iff]
    intro e he
    exact meet_of_kind_ne fun hez => hyz ((kind_of_meet he).2.symm.trans hez)
  · rw [meet_of_kind_ne hxy, Option.bind_none, eq_comm, Option.bind_eq_none_iff]
    intro e he
    exact meet_of_kind_ne ((kind_of_meet he).1 ▸ hxy)

/-- Shapes other than lists meet in one shape however they are grouped. -/
theorem meet_assoc (hx : x.kind ≠ .list) (y z : Constraint) :
    (x.meet y).bind (·.meet z) = (y.meet z).bind (x.meet ·) := by
  by_cases hxy : x.kind = y.kind
  · by_cases hyz : y.kind = z.kind
    · cases x with
      | integer =>
        cases y <;> cases hxy
        cases z <;> cases hyz
        exact meetRange_assoc bounds_int64 meet_integer ..
      | float =>
        cases y <;> cases hxy
        cases z <;> cases hyz
        exact meetRange_assoc bounds_double meet_float ..
      | enumeration =>
        cases y <;> cases hxy
        cases z <;> cases hyz
        exact meetOptions_assoc ..
      | object =>
        cases y <;> cases hxy
        cases z <;> cases hyz
        exact meetSchema_assoc ..
      | nodeReference =>
        cases y <;> cases hxy
        cases z <;> cases hyz
        exact meetTypes_assoc ..
      | list => exact absurd rfl hx
      | _ =>
        cases y <;> cases hxy
        cases z <;> cases hyz
        rfl
    · exact meet_assoc_of_kind_ne (.inr hyz)
  · exact meet_assoc_of_kind_ne (.inl hxy)

/-- In either order two shapes meet or not. -/
theorem isSome_meet_comm (hc : c.kind ≠ .list) (d : Constraint) :
    (c.meet d).isSome = (d.meet c).isSome := by
  cases pairing c d with
  | integer =>
    rw [meet_integer, meet_integer]
    exact isSome_meetRange_comm bounds_int64 ..
  | float =>
    rw [meet_float, meet_float]
    exact isSome_meetRange_comm bounds_double ..
  | enumeration a b =>
    simp only [meet, meetOptions_eq, isSome_unlessEmpty]
    exact any_contains_comm a b
  | object a b => exact isSome_meetSchema_comm a b
  | nodeReference a b => exact isSome_meetTypes_comm a b
  | list => exact absurd rfl hc
  | bare => rfl
  | apart hne => rw [meet_of_kind_ne hne, meet_of_kind_ne (Ne.symm hne)]

theorem uncrossed_eq_of_sameBound {lo hi lo' hi' : Option Double}
    (hlo : sameBound lo lo' = true) (hhi : sameBound hi hi' = true) :
    uncrossed Double.le lo hi = uncrossed Double.le lo' hi' := by
  have hupper : ∀ x : Double, hi.all (x.le ·) = hi'.all (x.le ·) := fun x =>
    all_eq_of_sameBound hhi fun a b hab => by simp only [Double.le, hab]
  rw [uncrossed, uncrossed, funext hupper]
  exact all_eq_of_sameBound hlo fun a b hab => by simp only [Double.le, hab]

/-- Equal shapes meet the same shapes. -/
theorem isSome_meet_congr (hc : c.kind ≠ .list) (h : c.same c' = true) (d : Constraint) :
    (c.meet d).isSome = (c'.meet d).isSome := by
  by_cases hkind : c.kind = d.kind
  · cases c with
    | float lo hi =>
      cases c' <;> simp only [same, Bool.false_eq_true, Bool.and_eq_true] at h
      cases d <;> cases hkind
      rename_i lo' hi'
      simp only [meet_float, isSome_meetRange, uncrossed_tighter bounds_double]
      rw [uncrossed_eq_of_sameBound h.1 h.2, uncrossed_eq_of_sameBound h.1 (sameBound_refl hi'),
        uncrossed_eq_of_sameBound (sameBound_refl lo') h.2]
    | object a =>
      cases c' <;> simp only [same, Bool.false_eq_true] at h
      cases d <;> cases hkind
      exact isSome_meetSchema_congr h _
    | list => exact absurd rfl hc
    | _ =>
      -- equal shapes of these kinds are one
      cases c' <;> simp only [same, Bool.false_eq_true, Bool.and_eq_true, beq_iff_eq] at h
      first | rfl | rw [h] | rw [h.1, h.2]
  · rw [meet_of_kind_ne hkind, meet_of_kind_ne (kind_eq_of_same h ▸ hkind)]

/-! ### Order -/

theorem any_any_comm {f g : Constraint → Constraint → Bool} {as bs : List Constraint}
    (h : ∀ a ∈ as, ∀ b ∈ bs, f a b = g b a) :
    (as.any fun a => bs.any (f a)) = bs.any fun b => as.any (g b) := by
  rw [Bool.eq_iff_iff]
  simp only [List.any_eq_true]
  constructor
  · rintro ⟨a, ha, b, hb, hf⟩
    exact ⟨b, hb, a, ha, h a ha b hb ▸ hf⟩
  · rintro ⟨b, hb, a, ha, hg⟩
    exact ⟨a, ha, b, hb, (h a ha b hb).symm ▸ hg⟩

theorem accept_intersect (a b : List Constraint) (v : Json) :
    (Constraints.intersect (some a) (some b)).accept v =
      a.any fun c => b.any fun d => commonAccepts c d v :=
  (anyAccepts_canonicalize _ v).trans (anyAccepts_meetAll a b v)

/-- Constraints intersect in either order if their shapes meet in either order. -/
theorem accept_intersect_comm_of {a b : Constraints}
    (h : ∀ cs, a = some cs → ∀ c ∈ cs, ∀ d v, commonAccepts c d v = commonAccepts d c v)
    (v : Json) :
    (a.intersect b).accept v = (b.intersect a).accept v := by
  match a, b with
  | none, none | none, some _ | some _, none => rfl
  | some cs, some ds =>
    rw [accept_intersect, accept_intersect]
    exact any_any_comm fun c hc d _ => h cs rfl c hc d v

/-- What two shapes have in common does not depend on their order. -/
theorem commonAccepts_comm (c d : Constraint) (v : Json) :
    commonAccepts c d v = commonAccepts d c v := by
  induction c using inductionOn generalizing d v with
  | list items ih =>
    cases pairing (.list items) d with
    | list _ b => exact commonAccepts_list_congr (accept_intersect_comm_of ih) v
    | bare => rfl
    | apart hne => rw [commonAccepts_of_kind_ne hne, commonAccepts_of_kind_ne (Ne.symm hne)]
  | other c hc =>
    by_cases hkind : c.kind = d.kind
    · rw [commonAccepts_eq hc, commonAccepts_eq (hkind ▸ hc), isSome_meet_comm hc,
        Bool.and_comm (c.accepts v)]
    · rw [commonAccepts_of_kind_ne hkind, commonAccepts_of_kind_ne (Ne.symm hkind)]

/-! ### Equal sides -/

/-- What a shape has in common with another one does not tell it apart from an equal shape. -/
theorem commonAccepts_congr (h : c.same c' = true) (d : Constraint) (v : Json) :
    commonAccepts c d v = commonAccepts c' d v := by
  induction c using inductionOn generalizing c' d v with
  | list items ih =>
    by_cases hkind : Kind.list = d.kind
    · have hkind' : Kind.list = c'.kind := kind_eq_of_same h
      cases d <;> cases hkind
      cases c' <;> cases hkind'
      rename_i b items'
      refine commonAccepts_list_congr (fun item => ?_) v
      match items, items', b with
      | none, none, _ => rfl
      | none, some _, _ | some _, none, _ => simp [same] at h
      | some cs, some cs', none =>
        rw [same] at h
        exact anyAccepts_congr h item
      | some cs, some cs', some ds =>
        rw [same] at h
        rw [accept_intersect, accept_intersect]
        refine any_eq_of_sameList h fun c hc c' hcc' => ?_
        exact congrArg ds.any (funext fun d => ih cs rfl c hc hcc' d item)
    · have hne : (list items).kind ≠ d.kind := hkind
      rw [commonAccepts_of_kind_ne hne, commonAccepts_of_kind_ne (kind_eq_of_same h ▸ hne)]
  | other c hc =>
    rw [commonAccepts_eq hc, commonAccepts_eq (kind_eq_of_same h ▸ hc), isSome_meet_congr hc h,
      accepts_congr h]

theorem commonAccepts_congr_right (h : c.same c' = true) (d : Constraint) (v : Json) :
    commonAccepts d c v = commonAccepts d c' v := by
  rw [commonAccepts_comm d c, commonAccepts_comm d c', commonAccepts_congr h]

/-! ### Grouping -/

theorem any_congr_of_mem {f g : Constraint → Bool} (h : ∀ c ∈ cs, f c = g c) :
    cs.any f = cs.any g := by
  rw [Bool.eq_iff_iff, List.any_eq_true, List.any_eq_true]
  constructor
  · rintro ⟨c, hc, hf⟩
    exact ⟨c, hc, h c hc ▸ hf⟩
  · rintro ⟨c, hc, hg⟩
    exact ⟨c, hc, (h c hc).symm ▸ hg⟩

theorem any_option_any {o : Option Constraint} {f : Constraint → Constraint → Bool}
    (cs : List Constraint) : (o.any fun w => cs.any (f w)) = cs.any fun c => o.any (f · c) := by
  cases o with
  | none => simp
  | some w => rfl

/-- Constraints intersect in any grouping if their shapes meet in any grouping. -/
theorem accept_intersect_assoc_of {a b c : Constraints}
    (h : ∀ cs, a = some cs → ∀ x ∈ cs, ∀ y z v, ((x.meet y).any fun w => commonAccepts w z v) =
      (y.meet z).any fun u => commonAccepts x u v) (v : Json) :
    ((a.intersect b).intersect c).accept v = (a.intersect (b.intersect c)).accept v := by
  match a, b, c with
  | none, _, _ => rfl
  | some _, none, _ => rfl
  | some _, some _, none => rfl
  | some xs, some ys, some zs =>
    have hleft : ((Constraints.intersect (some xs) (some ys)).intersect (some zs)).accept v =
        xs.any fun x => ys.any fun y => (x.meet y).any fun w => zs.any fun z =>
          commonAccepts w z v := by
      rw [Constraints.intersect, accept_intersect, any_canonicalize, any_meetAll]
      intro w w' hw
      exact congrArg zs.any (funext fun z => commonAccepts_congr hw z v)
    have hright : (Constraints.intersect (some xs)
          (Constraints.intersect (some ys) (some zs))).accept v =
        xs.any fun x => ys.any fun y => zs.any fun z => (y.meet z).any fun u =>
          commonAccepts x u v := by
      rw [Constraints.intersect, accept_intersect]
      refine congrArg xs.any (funext fun x => ?_)
      rw [any_canonicalize fun u u' hu => commonAccepts_congr_right hu x v, any_meetAll]
    rw [hleft, hright]
    refine any_congr_of_mem fun x hx => congrArg ys.any (funext fun y => ?_)
    rw [any_option_any]
    exact congrArg zs.any (funext fun z => h xs rfl x hx y z v)

theorem any_commonAccepts (o : Option Constraint) (z : Constraint) (v : Json) :
    (o.any fun w => commonAccepts w z v) = (o.bind (·.meet z)).any (·.accepts v) := by
  rw [Option.any_bind]
  rfl

theorem any_commonAccepts_right (o : Option Constraint) (x : Constraint) (v : Json) :
    (o.any fun u => commonAccepts x u v) = (o.bind (x.meet ·)).any (·.accepts v) := by
  rw [Option.any_bind]
  rfl

/-- What lists of items have in common with a third list, where they meet at all. -/
theorem any_meet_list (a b c : Constraints) (v : Json) :
    (((list a).meet (list b)).any fun w => commonAccepts w (.list c) v) =
      commonAccepts (.list (a.intersect b)) (.list c) v := by
  rw [meet_list, Constraints.isIncompatible_eq]
  cases hnull : (a.intersect b).accept .null with
  | true => rfl
  | false =>
    -- what does not meet as two does not meet as three
    have hthree : ((a.intersect b).intersect c).accept .null = false := by
      refine Bool.eq_false_iff.mpr fun h => ?_
      rw [(Constraints.accept_of_accept_intersect h).1] at hnull
      cases hnull
    rw [commonAccepts_list, hthree]
    rfl

/-- What three shapes have in common does not depend on their grouping. -/
theorem commonAccepts_assoc (x y z : Constraint) (v : Json) :
    ((x.meet y).any fun w => commonAccepts w z v) =
      (y.meet z).any fun u => commonAccepts x u v := by
  induction x using inductionOn generalizing y z v with
  | list a ih =>
    by_cases hkind : Kind.list = y.kind ∧ y.kind = z.kind
    · obtain ⟨hy, hz⟩ := hkind
      cases y <;> cases hy
      cases z <;> cases hz
      rename_i b c
      have hright : (((list b).meet (list c)).any fun u => commonAccepts (.list a) u v) =
          commonAccepts (.list a) (.list (Constraints.intersect b c)) v := by
        rw [commonAccepts_comm (.list a), ← any_meet_list]
        exact congrArg (Option.any · _) (funext fun u => commonAccepts_comm _ u v)
      rw [any_meet_list, hright]
      exact commonAccepts_list_congr (accept_intersect_assoc_of ih) v
    · have hne : (list a).kind ≠ y.kind ∨ y.kind ≠ z.kind :=
        Decidable.not_and_iff_not_or_not.mp hkind
      rw [any_commonAccepts, any_commonAccepts_right, meet_assoc_of_kind_ne hne]
  | other x hx => rw [any_commonAccepts, any_commonAccepts_right, meet_assoc hx]

end Constraint

/-! ### The laws -/

namespace Constraints

variable (a b c : Constraints) (v : Json)

theorem accept_intersect_comm : (a.intersect b).accept v = (b.intersect a).accept v :=
  Constraint.accept_intersect_comm_of (fun _ _ c _ => Constraint.commonAccepts_comm c) v

theorem accept_intersect_assoc :
    ((a.intersect b).intersect c).accept v = (a.intersect (b.intersect c)).accept v :=
  Constraint.accept_intersect_assoc_of (fun _ _ x _ => Constraint.commonAccepts_assoc x) v

/-- What an intersection permits, and whether it permits anything (`Constraints.isIncompatible`),
depends neither on the order nor on the grouping of its sides. Only what is permitted is compared
here: of two zeros as bounds the second one is kept (`Double.max`), so the lists themselves may
differ in the sign of a zero. -/
theorem intersect_comm_assoc :
    (a.intersect b).accept v = (b.intersect a).accept v ∧
      ((a.intersect b).intersect c).accept v = (a.intersect (b.intersect c)).accept v ∧
      (a.intersect b).isIncompatible = (b.intersect a).isIncompatible ∧
      ((a.intersect b).intersect c).isIncompatible =
        (a.intersect (b.intersect c)).isIncompatible := by
  refine ⟨accept_intersect_comm a b v, accept_intersect_assoc a b c v, ?_, ?_⟩
  · rw [isIncompatible_eq, isIncompatible_eq, accept_intersect_comm]
  · rw [isIncompatible_eq, isIncompatible_eq, accept_intersect_assoc]

end Constraints

end Patchbay
