import Patchbay.Proofs.Constraint.Canonical

/-!
# Shapes that can be met in any order

Of two lists of options what they have in common is listed as in the first one, so two shapes do
not meet in any order. But once the first list is given, it does not matter in which order others
are met (`Constraint.meet_swap`). This fails for shapes that leave everything open, a list of any
items and a reference to a node of any type: what is met first after them gives the order.

A *family* of shapes is one in which it does not matter at any depth. Shapes in which nothing is
left open are a family (`closed_family`), and so are shapes whose texts are all listed in one order
(`ordered_family`).
-/

namespace Patchbay

namespace Constraint

variable {c d p x y : Constraint} {l m names : List String}

/-! ### Two shapes -/

theorem tighter_comm {α : Type} {pick : α → α → α} {u v : Option α}
    (h : ∀ a ∈ u, ∀ b ∈ v, pick a b = pick b a) : tighter pick u v = tighter pick v u := by
  cases u <;> cases v <;> simp_all [tighter]

theorem meetRange_comm {α : Type} {mk : Option α → Option α → Constraint} {le : α → α → Bool}
    {larger smaller : α → α → α} {lo hi lo' hi' : Option α}
    (hlo : ∀ a ∈ lo, ∀ b ∈ lo', larger a b = larger b a)
    (hhi : ∀ a ∈ hi, ∀ b ∈ hi', smaller a b = smaller b a) :
    meetRange mk le larger smaller lo hi lo' hi' = meetRange mk le larger smaller lo' hi' lo
    hi := by
  rw [meetRange, meetRange, tighter_comm hlo, tighter_comm hhi]

/-- To pick the one that comes first, or else the second, is to pick in either order. -/
theorem ite_comm_of_asymm {α : Type} {a b : α} {p q : Prop} [Decidable p] [Decidable q]
    (hasymm : p → ¬q)
    (htie : ¬p → ¬q → a = b) : (if p then a else b) = if q then b else a := by
  by_cases hp : p <;> by_cases hq : q
  · exact absurd hq (hasymm hp)
  · rw [if_pos hp, if_neg hq]
  · rw [if_neg hp, if_pos hq]
  · rw [if_neg hp, if_neg hq, htie hp hq]

theorem eq_of_not_lt {a b : Double} (ha : a.isDefinite = true) (hb : b.isDefinite = true)
    (hab : ¬a.lt b = true) (hba : ¬b.lt a = true) : a = b := by
  simp only [Double.lt, decide_eq_true_eq] at hab hba
  exact Double.eq_of_same ha hb (Double.same_iff.mpr (by omega))

theorem not_lt_of_lt {a b : Double} (h : a.lt b = true) : ¬b.lt a = true := by
  simp only [Double.lt, decide_eq_true_eq] at h ⊢
  omega

theorem max_comm_of_isDefinite {a b : Double} (ha : a.isDefinite = true)
    (hb : b.isDefinite = true) :
    a.max b = b.max a :=
  ite_comm_of_asymm not_lt_of_lt fun hba hab => eq_of_not_lt ha hb hab hba

theorem min_comm_of_isDefinite {a b : Double} (ha : a.isDefinite = true)
    (hb : b.isDefinite = true) :
    a.min b = b.min a :=
  ite_comm_of_asymm not_lt_of_lt (eq_of_not_lt ha hb)

theorem max_comm_int64 (a b : Int64) : max a b = max b a := by
  have hmax : ∀ a b : Int64, max a b = if a ≤ b then b else a := fun _ _ => rfl
  by_cases hab : a ≤ b <;> by_cases hba : b ≤ a <;> simp only [hmax, hab, hba, if_true, if_false]
  · exact Int64.le_antisymm hba hab
  · exact absurd ((Int64.le_total a b).resolve_left hab) hba

theorem min_comm_int64 (a b : Int64) : min a b = min b a := by
  have hmin : ∀ a b : Int64, min a b = if a ≤ b then a else b := fun _ _ => rfl
  by_cases hab : a ≤ b <;> by_cases hba : b ≤ a <;> simp only [hmin, hab, hba, if_true, if_false]
  · exact Int64.le_antisymm hab hba
  · exact absurd ((Int64.le_total a b).resolve_left hab) hba

theorem meetSchema_comm {a b : Option Json} (ha : a.all Json.isDefinite = true)
    (hb : b.all Json.isDefinite = true) : meetSchema a b = meetSchema b a := by
  cases a with
  | none => cases b <;> rfl
  | some a =>
    cases b with
    | none => rfl
    | some b =>
      rw [meetSchema, meetSchema, same_comm a b]
      split
      · rename_i h
        rw [Json.eq_of_same (a := b) (b := a) hb ha h]
      · rfl

theorem meetTypes_comm (h : commonOptions l m = commonOptions m l) :
    meetTypes l m = meetTypes m l := by
  by_cases hl : l = []
  · rw [hl, meetTypes_nil]
    rfl
  · by_cases hm : m = []
    · rw [hm, meetTypes_nil]
      rfl
    · rw [meetTypes_eq hl hm, meetTypes_eq hm hl, h]

/-- Definite shapes other than lists meet in either order, up to the order of texts. -/
theorem meet_comm (hx : x.isDefinite = true) (hy : y.isDefinite = true) (hlist : x.kind ≠ .list)
    (htexts : ∀ l m, x = enumeration l ∧ y = enumeration m ∨ x = nodeReference l ∧
      y = nodeReference m → commonOptions l m = commonOptions m l) : x.meet y = y.meet x := by
  cases pairing x y with
  | integer lo hi lo' hi' =>
    rw [meet_integer, meet_integer]
    exact meetRange_comm (fun a _ b _ => max_comm_int64 a b) fun a _ b _ => min_comm_int64 a b
  | float lo hi lo' hi' =>
    simp only [isDefinite, Bool.and_eq_true, Option.all_eq_true] at hx hy
    rw [meet_float, meet_float]
    exact meetRange_comm (fun a ha b hb => max_comm_of_isDefinite (hx.1 a ha) (hy.1 b hb))
      fun a ha b hb => min_comm_of_isDefinite (hx.2 a ha) (hy.2 b hb)
  | enumeration l m =>
    rw [meet, meet, meetOptions_eq, meetOptions_eq, htexts l m (.inl ⟨rfl, rfl⟩)]
  | object a b => exact meetSchema_comm hx hy
  | list => exact absurd rfl hlist
  | nodeReference l m => exact meetTypes_comm (htexts l m (.inr ⟨rfl, rfl⟩))
  | bare => rfl
  | apart hne => rw [meet_of_kind_ne hne, meet_of_kind_ne (Ne.symm hne)]

/-! ### Shapes behind a given one -/

/-- Any shape of its kind: a list of any items, or a reference to a node of any type. -/
def isAny : Constraint → Bool
  | .list none | .nodeReference [] => true
  | _ => false

theorem commonOptions_swap (l m names : List String) :
    commonOptions (commonOptions l m) names = commonOptions (commonOptions l names) m := by
  simp only [commonOptions, List.filter_filter]
  exact List.filter_congr fun s _ => Bool.and_comm _ _

theorem meetOptions_swap (l m names : List String) :
    (meetOptions l m).bind (·.meet (.enumeration names)) =
      (meetOptions l names).bind (·.meet (.enumeration m)) := by
  rw [meetOptions_eq, meetOptions_eq,
    bind_unlessEmpty (g := (commonOptions · names)) (fun l _ => meetOptions_eq l names) rfl,
    bind_unlessEmpty (g := (commonOptions · m)) (fun l _ => meetOptions_eq l m) rfl,
    commonOptions_swap]

theorem meetTypes_swap (hl : l ≠ []) (m names : List String) :
    (meetTypes l m).bind (·.meet (.nodeReference names)) =
      (meetTypes l names).bind (·.meet (.nodeReference m)) := by
  by_cases hm : m = []
  · rw [hm, meetTypes_nil]
    cases h : meetTypes l names with
    | none => exact h
    | some e =>
      obtain ⟨k, rfl⟩ := eq_nodeReference_of_meetTypes h
      exact h.trans (meetTypes_nil k).symm
  by_cases hnames : names = []
  · rw [hnames, meetTypes_nil]
    cases h : meetTypes l m with
    | none => exact h.symm
    | some e =>
      obtain ⟨k, rfl⟩ := eq_nodeReference_of_meetTypes h
      exact (meetTypes_nil k).trans h.symm
  · rw [meetTypes_eq hl hm, meetTypes_eq hl hnames,
      bind_unlessEmpty (g := (commonOptions · names)) (fun l h => meetTypes_eq h hnames) rfl,
      bind_unlessEmpty (g := (commonOptions · m)) (fun l h => meetTypes_eq h hm) rfl,
      commonOptions_swap]

/-- Behind a shape of another kind nothing is met, in whichever order. -/
theorem meet_swap_of_kind_ne (h : p.kind ≠ x.kind ∨ p.kind ≠ y.kind) :
    (p.meet x).bind (·.meet y) = (p.meet y).bind (·.meet x) := by
  have hnone : ∀ {x y : Constraint}, p.kind ≠ x.kind →
      (p.meet x).bind (·.meet y) = none ∧ (p.meet y).bind (·.meet x) = none := by
    intro x y hne
    rw [meet_of_kind_ne hne, Option.bind_none, Option.bind_eq_none_iff]
    exact ⟨rfl, fun e he => meet_of_kind_ne ((kind_of_meet he).1 ▸ hne)⟩
  rcases h with h | h
  · rw [(hnone h).1, (hnone h).2]
  · rw [(hnone h).1, (hnone h).2]

/-- Behind a definite shape it does not matter in which order two others are met, unless it is a
list or leaves everything open. -/
theorem meet_swap (hlist : p.kind ≠ .list) (hany : p.isAny = false) (hx : x.isDefinite = true)
    (hy : y.isDefinite = true) : (p.meet x).bind (·.meet y) = (p.meet y).bind (·.meet x) := by
  by_cases hkind : p.kind = x.kind ∧ p.kind = y.kind
  · obtain ⟨hpx, hpy⟩ := hkind
    cases p with
    | enumeration l =>
      cases x <;> cases hpx
      cases y <;> cases hpy
      exact meetOptions_swap ..
    | nodeReference l =>
      cases x <;> cases hpx
      cases y <;> cases hpy
      refine meetTypes_swap (fun hl => ?_) ..
      rw [hl] at hany
      cases hany
    | list => exact absurd rfl hlist
    | _ =>
      rw [meet_assoc hlist, meet_assoc hlist, meet_comm hx hy]
      · rw [← hpx]
        exact hlist
      · rintro l m (⟨rfl, -⟩ | ⟨rfl, -⟩) <;> cases hpx
  · exact meet_swap_of_kind_ne (not_and_or.mp hkind)

end Constraint

/-- Constraints whose shapes meet in either order can be intersected in either order. -/
theorem Constraints.Definite.intersect_comm_of {a b : Constraints} (ha : a.Definite)
    (hb : b.Definite)
    (hcomm : ∀ x y, a.Lists x → b.Lists y → x.meet y = y.meet x) :
    a.intersect b = b.intersect a := by
  by_cases hane : a = none
  · rw [hane, intersect_none]
    rfl
  by_cases hbne : b = none
  · rw [hbne, intersect_none]
    rfl
  refine (ha.canonical hb hane hbne).ext (hb.canonical ha hbne hane) fun e => ?_
  rw [ha.lists_intersect hb hane hbne, hb.lists_intersect ha hbne hane]
  exact ⟨fun ⟨x, hx, y, hy, h⟩ => ⟨y, hy, x, hx, hcomm x y hx hy ▸ h⟩,
    fun ⟨y, hy, x, hx, h⟩ => ⟨x, hx, y, hy, (hcomm x y hx hy).symm ▸ h⟩⟩

/-- Behind constraints whose shapes do not mind, it does not matter which of two others are met
first. -/
theorem Constraints.Definite.intersect_swap_of {a b c : Constraints} (ha : a.Definite)
    (hb : b.Definite)
    (hc : c.Definite) (hane : a ≠ none)
    (hswap : ∀ x y z, a.Lists x → b.Lists y → c.Lists z →
      (x.meet y).bind (·.meet z) = (x.meet z).bind (·.meet y)) :
    (a.intersect b).intersect c = (a.intersect c).intersect b := by
  by_cases hbne : b = none
  · rw [hbne, intersect_none, intersect_none]
  by_cases hcne : c = none
  · rw [hcne, intersect_none, intersect_none]
  have hab := ha.intersect hb
  have hac := ha.intersect hc
  have habne := intersect_ne_none hane b
  have hacne := intersect_ne_none hane c
  refine (hab.canonical hc habne hcne).ext (hac.canonical hb hacne hbne) fun e => ?_
  simp only [hab.lists_intersect hc habne hcne, ha.lists_intersect hb hane hbne,
    hac.lists_intersect hb hacne hbne, ha.lists_intersect hc hane hcne]
  constructor
  · rintro ⟨w, ⟨x, hx, y, hy, hxy⟩, z, hz, hwz⟩
    have hbind : (x.meet y).bind (·.meet z) = some e := by rw [hxy, Option.bind_some, hwz]
    rw [hswap x y z hx hy hz, Option.bind_eq_some_iff] at hbind
    obtain ⟨v, hxz, hvy⟩ := hbind
    exact ⟨v, ⟨x, hx, z, hz, hxz⟩, y, hy, hvy⟩
  · rintro ⟨w, ⟨x, hx, z, hz, hxz⟩, y, hy, hwy⟩
    have hbind : (x.meet z).bind (·.meet y) = some e := by rw [hxz, Option.bind_some, hwy]
    rw [← hswap x y z hx hy hz, Option.bind_eq_some_iff] at hbind
    obtain ⟨v, hxy, hvz⟩ := hbind
    exact ⟨v, ⟨x, hx, y, hy, hxy⟩, z, hz, hvz⟩

namespace Constraint

variable {c d e p x y : Constraint} {l m names : List String}

/-! ### Families -/

/-- Definite shapes that stay so when they meet, and behind each of which it does not matter in
which order others are met. -/
structure Family (K : Constraint → Prop) : Prop where
  definite : ∀ {c}, K c → c.isDefinite = true
  items : ∀ {a}, K (list a) → Constraints.Each K a
  meet : ∀ {c d e}, K c → K d → c.meet d = some e → K e
  swap : ∀ {p x y}, K p → K x → K y → (p.meet x).bind (·.meet y) = (p.meet y).bind (·.meet x)

mutual

/-- A shape has a property, and so have the items in it, and so on. -/
def throughout (p : Constraint → Bool) : Constraint → Bool
  | .list (some cs) => p (.list (some cs)) && allThroughout p cs
  | c => p c

/-- All shapes have a property throughout. -/
def allThroughout (p : Constraint → Bool) : List Constraint → Bool
  | [] => true
  | c :: cs => c.throughout p && allThroughout p cs

end

theorem throughout_list {q : Constraint → Bool} {a : Constraints} : (list a).throughout q = true ↔
    q (list a) = true ∧ Constraints.Each (fun c => c.throughout q = true) a := by
  have hall : ∀ cs, allThroughout q cs = true ↔ ∀ c ∈ cs, c.throughout q = true := by
    intro cs
    induction cs with
    | nil => simp [allThroughout]
    | cons c cs ih => rw [allThroughout, Bool.and_eq_true, ih, List.forall_mem_cons]
  cases a with
  | none => exact (and_iff_left Constraints.each_none).symm
  | some cs => rw [throughout, Bool.and_eq_true, hall, Constraints.each_some]

theorem throughout_of_kind_ne {q : Constraint → Bool} (h : c.kind ≠ .list) :
    c.throughout q = q c := by
  cases c <;> first | rfl | exact absurd rfl h

theorem throughout_self {q : Constraint → Bool} (h : c.throughout q = true) : q c = true := by
  cases c with
  | list a => exact (throughout_list.mp h).1
  | _ => exact h

/-- The shape leaves nothing open at any depth. -/
def Closed (c : Constraint) : Prop := c.isDefinite = true ∧ c.throughout (fun c => !c.isAny) = true

/-- The texts of a shape are listed in a given order. -/
def listsIn (names : List String) : Constraint → Bool
  | .enumeration l | .nodeReference l => l.isSublist names
  | _ => true

/-- The texts of a shape are listed in a given order, at every depth. -/
def Ordered (names : List String) (c : Constraint) : Prop :=
  c.isDefinite = true ∧ c.throughout (listsIn names) = true

/-- A list meets a list only, in the list of what their items have in common. -/
theorem exists_of_meet_list {a : Constraints} (h : (list a).meet d = some e) :
    ∃ b, d = list b ∧ e = list (a.intersect b) := by
  have hkind := (kind_of_meet h).1.symm.trans (kind_of_meet h).2
  cases d <;> cases hkind
  rename_i b
  rw [meet_list] at h
  split at h <;> cases h
  exact ⟨b, rfl, rfl⟩

theorem isAny_of_kind_ne (hlist : c.kind ≠ .list) (hnode : c.kind ≠ .nodeReference) :
    c.isAny = false := by
  cases c <;> first | rfl | contradiction

/-- What a shape that leaves something out meets leaves something out too. -/
theorem isAny_of_meet (hc : c.isAny = false) (h : c.meet d = some e) : e.isAny = false := by
  cases pairing c d with
  | list a =>
    obtain ⟨b, -, rfl⟩ := exists_of_meet_list h
    have hane : a ≠ none := by
      rintro rfl
      cases hc
    obtain ⟨l, hl⟩ := Option.ne_none_iff_exists'.mp (Constraints.intersect_ne_none hane b)
    rw [hl]
    rfl
  | nodeReference l m =>
    obtain ⟨k, rfl⟩ := eq_nodeReference_of_meetTypes h
    have hlne : l ≠ [] := by
      rintro rfl
      cases hc
    by_cases hm : m = []
    · rw [hm] at h
      obtain rfl : l = k := by simpa [meetTypes_nil, meet] using h
      exact hc
    · rw [meet, meetTypes_eq hlne hm, unlessEmpty] at h
      split at h <;> cases h
      rename_i hne
      cases hk : commonOptions l m with
      | nil => simp [hk] at hne
      | cons s rest => rfl
  | bare hmeet =>
    rw [hmeet] at h
    cases h
    exact hc
  | apart _ hmeet =>
    rw [hmeet] at h
    cases h
  | integer | float | enumeration | object =>
    have hkind := (kind_of_meet h).1
    refine isAny_of_kind_ne ?_ ?_ <;> rw [hkind] <;> simp [kind]

theorem closed_list {a : Constraints} : Closed (list a) ↔ a ≠ none ∧ a.Each Closed := by
  rw [Closed, isDefinite_list, throughout_list]
  cases a with
  | none => simp [isAny]
  | some cs => simp [Closed, isAny, Constraints.Definite, Constraints.each_some, forall_and]

theorem closed_of_kind_ne (h : c.kind ≠ .list) : Closed c ↔ c.isDefinite = true ∧
    c.isAny = false := by
  rw [Closed, throughout_of_kind_ne h, Bool.not_eq_true']

theorem Closed.isAny_eq_false (h : Closed c) : c.isAny = false := by
  simpa using throughout_self h.2

/-- Shapes that leave nothing open are a family. -/
theorem closed_family : Family Closed where
  definite h := h.1
  items h := (closed_list.mp h).2
  meet := by
    intro c
    induction c using inductionOn with
    | list a ih =>
      intro d e hc hd h
      obtain ⟨b, rfl, rfl⟩ := exists_of_meet_list h
      obtain ⟨hane, hall⟩ := closed_list.mp hc
      exact closed_list.mpr ⟨Constraints.intersect_ne_none hane b,
        hall.intersect (closed_list.mp hd).2 fun cs hcs c hmem d e => ih cs hcs c hmem⟩
    | other c hlist =>
      intro d e hc hd h
      have helist : e.kind ≠ .list := (kind_of_meet h).1 ▸ hlist
      exact (closed_of_kind_ne helist).mpr
        ⟨isDefinite_of_meet hc.1 hd.1 h, isAny_of_meet hc.isAny_eq_false h⟩
  swap := by
    intro p
    induction p using inductionOn with
    | list a ih =>
      intro x y hp hx hy
      by_cases hkind : (list a).kind = x.kind ∧ (list a).kind = y.kind
      · obtain ⟨hpx, hpy⟩ := hkind
        cases x <;> cases hpx
        cases y <;> cases hpy
        rename_i b c
        rw [meet_list_bind, meet_list_bind, meet_list, meet_list,
          (isDefinite_list.mp hp.1).intersect_swap_of (isDefinite_list.mp hx.1)
          (isDefinite_list.mp hy.1) (closed_list.mp hp).1]
        rintro x y z ⟨l, hl, hxl⟩ ⟨l', hl', hyl⟩ ⟨l'', hl'', hzl⟩
        exact ih l hl x hxl ((closed_list.mp hp).2 l hl x hxl) ((closed_list.mp hx).2 l' hl' y hyl)
          ((closed_list.mp hy).2 l'' hl'' z hzl)
      · exact meet_swap_of_kind_ne (not_and_or.mp hkind)
    | other p hlist => exact fun hp hx hy => meet_swap hlist hp.isAny_eq_false hx.1 hy.1

/-! ### Texts in one order -/

/-- Texts listed in a given order are those of the order that are listed. -/
theorem eq_filter_of_sublist (h : l.Sublist names) (hnames : names.Nodup) :
    l = names.filter (l.contains ·) := by
  induction h with
  | slnil => rfl
  | cons s hrest ih =>
    obtain ⟨hs, hnodup⟩ := List.nodup_cons.mp hnames
    rw [List.filter_cons_of_neg, ← ih hnodup]
    exact fun hmem => hs (hrest.mem (List.contains_iff_mem.mp hmem))
  | cons_cons s hrest ih =>
    rename_i l rest
    obtain ⟨hs, hnodup⟩ := List.nodup_cons.mp hnames
    have hfilter : rest.filter ((s :: l).contains ·) = rest.filter (l.contains ·) := by
      refine List.filter_congr fun t ht => ?_
      have hne : t ≠ s := fun heq => hs (heq ▸ ht)
      simp [hne]
    rw [List.filter_cons_of_pos (by simp), hfilter, ← ih hnodup]

theorem commonOptions_comm (hl : l.Sublist names) (hm : m.Sublist names) (hnames : names.Nodup) :
    commonOptions l m = commonOptions m l := by
  have hcommon : ∀ {l m : List String}, l.Sublist names →
      commonOptions l m = names.filter fun s => m.contains s && l.contains s := by
    intro l m hl
    rw [commonOptions]
    conv_lhs => rw [eq_filter_of_sublist hl hnames]
    rw [List.filter_filter]
  rw [hcommon hl, hcommon hm]
  exact List.filter_congr fun s _ => Bool.and_comm _ _

theorem ordered_list {a : Constraints} : Ordered names (list a) ↔ a.Each (Ordered names) := by
  rw [Ordered, isDefinite_list, throughout_list]
  cases a with
  | none => simp [listsIn, Constraints.Definite, Constraints.each_none]
  | some cs => simp [Ordered, listsIn, Constraints.Definite, Constraints.each_some, forall_and]

theorem ordered_of_kind_ne (h : c.kind ≠ .list) :
    Ordered names c ↔ c.isDefinite = true ∧ listsIn names c = true := by
  rw [Ordered, throughout_of_kind_ne h]

theorem listsIn_of_meet (hlist : c.kind ≠ .list) (hc : listsIn names c = true)
    (hd : listsIn names d = true)
    (h : c.meet d = some e) : listsIn names e = true := by
  have hfilter : ∀ {l m : List String}, l.isSublist names = true →
      (commonOptions l m).isSublist names = true := fun hl =>
    List.isSublist_iff_sublist.mpr (List.filter_sublist.trans (List.isSublist_iff_sublist.mp hl))
  cases pairing c d with
  | enumeration l m =>
    rw [meet, meetOptions_eq, unlessEmpty] at h
    split at h <;> cases h
    exact hfilter hc
  | nodeReference l m =>
    by_cases hl : l = []
    · rw [hl] at h
      cases h
      exact hd
    · by_cases hm : m = []
      · rw [hm, meet, meetTypes_nil] at h
        cases h
        exact hc
      · rw [meet, meetTypes_eq hl hm, unlessEmpty] at h
        split at h <;> cases h
        exact hfilter hc
  | list => exact absurd rfl hlist
  | bare hmeet =>
    rw [hmeet] at h
    cases h
    exact hc
  | apart _ hmeet =>
    rw [hmeet] at h
    cases h
  | integer | float | object =>
    have hkind := (kind_of_meet h).1
    cases e <;> first | rfl | cases hkind

/-- Shapes whose texts are listed in one order meet in either order. -/
theorem Ordered.meet_comm (hnames : names.Nodup) (hx : Ordered names x) (hy : Ordered names y) :
    x.meet y = y.meet x := by
  induction x using inductionOn generalizing y with
  | list a ih =>
    by_cases hkind : (list a).kind = y.kind
    · cases y <;> cases hkind
      rename_i b
      rw [meet_list, meet_list, (isDefinite_list.mp hx.1).intersect_comm_of
        (isDefinite_list.mp hy.1)]
      rintro x y ⟨l, hl, hxl⟩ ⟨l', hl', hyl⟩
      exact ih l hl x hxl (ordered_list.mp hx l hl x hxl) (ordered_list.mp hy l' hl' y hyl)
    · rw [meet_of_kind_ne hkind, meet_of_kind_ne (Ne.symm hkind)]
  | other x hlist =>
    refine Constraint.meet_comm hx.1 hy.1 hlist ?_
    rintro l m (⟨rfl, rfl⟩ | ⟨rfl, rfl⟩)
    · exact commonOptions_comm (List.isSublist_iff_sublist.mp hx.2)
        (List.isSublist_iff_sublist.mp hy.2) hnames
    · exact commonOptions_comm (List.isSublist_iff_sublist.mp hx.2)
        (List.isSublist_iff_sublist.mp hy.2) hnames

/-- Shapes whose texts are listed in one order are a family. -/
theorem ordered_family (hnames : names.Nodup) : Family (Ordered names) where
  definite h := h.1
  items h := ordered_list.mp h
  meet := by
    intro c
    induction c using inductionOn with
    | list a ih =>
      intro d e hc hd h
      obtain ⟨b, rfl, rfl⟩ := exists_of_meet_list h
      exact ordered_list.mpr ((ordered_list.mp hc).intersect (ordered_list.mp hd)
        fun cs hcs c hmem d e => ih cs hcs c hmem)
    | other c hlist =>
      intro d e hc hd h
      have helist : e.kind ≠ .list := (kind_of_meet h).1 ▸ hlist
      have hdlist : d.kind ≠ .list := (kind_of_meet h).2 ▸ helist
      exact (ordered_of_kind_ne helist).mpr ⟨isDefinite_of_meet hc.1 hd.1 h,
        listsIn_of_meet hlist ((ordered_of_kind_ne hlist).mp hc).2
        ((ordered_of_kind_ne hdlist).mp hd).2 h⟩
  swap hp hx hy := by
    rw [meet_assoc_of_isDefinite hp.1 hx.1 hy.1, meet_assoc_of_isDefinite hp.1 hy.1 hx.1,
      Ordered.meet_comm hnames hx hy]

/-- Shapes leave nothing open at any depth, or all their texts are listed in one order. -/
def Uniform (K : Constraint → Prop) : Prop :=
  K = Closed ∨ ∃ names : List String, names.Nodup ∧ K = Ordered names

theorem Uniform.family {K : Constraint → Prop} (h : Uniform K) : Family K := by
  rcases h with rfl | ⟨names, hnames, rfl⟩
  · exact closed_family
  · exact ordered_family hnames

end Constraint

end Patchbay
