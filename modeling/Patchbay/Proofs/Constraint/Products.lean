import Patchbay.Proofs.Constraint.Absorbing

/-!
# Products of constraints

Narrowing leaves a pad with an intersection of declarations, one after the other and many of them
many times: a *product* of them. Once all of them have occurred, it does not matter any more in
which order they occur (`Constraints.product_perm`), and once each of them has occurred often
enough, it does not matter how often (`Constraints.product_eq_of_saturated`).

Both are laws of a family of shapes, where something is left out. A shape that leaves everything
open is what all factors have in common only if all of them list it. Then the shapes of any factor
are shapes of the product on their own, so what is met first behind the open shape could as well
have stood before it.
-/

namespace Patchbay

namespace Constraint

variable {c d e o p q x y : Constraint} {K : Constraint → Prop}

/-! ### Open shapes -/

/-- Open shapes give way to any other. -/
theorem eq_of_any_meet (ho : o.isAny = true) (h : o.meet x = some e) : e = x := by
  match o, ho with
  | .list none, _ =>
    obtain ⟨b, rfl, rfl⟩ := exists_of_meet_list h
    rfl
  | .nodeReference [], _ =>
    have hkind := (kind_of_meet h).1.symm.trans (kind_of_meet h).2
    cases x <;> cases hkind
    exact (Option.some.inj h).symm

theorem any_meet_self (ho : o.isAny = true) : o.meet o = some o := by
  match o, ho with
  | .list none, _ | .nodeReference [], _ => rfl

/-- A shape that some shapes have in common is met by open shapes of its kind. -/
theorem meet_any_of_meet (h : x.meet y = some e) (ho : o.isAny = true) (hkind : o.kind = e.kind) :
    e.meet o = some e := by
  match o, ho with
  | .list none, _ =>
    cases e <;> cases hkind
    have hlist := (kind_of_meet h).1
    cases x <;> cases hlist
    obtain ⟨b, rfl, he⟩ := exists_of_meet_list h
    cases he
    rw [meet_list] at h
    split at h
    · cases h
    · rename_i hcompat
      rw [meet_list, Constraints.intersect_none, if_neg hcompat]
  | .nodeReference [], _ =>
    cases e <;> cases hkind
    exact meetTypes_nil _

/-- Only open shapes have an open one in common. -/
theorem eq_of_meet_any (h : x.meet y = some o) (ho : o.isAny = true) : x = o ∧ y = o := by
  have hx : x.isAny = true := by
    by_contra hx
    rw [isAny_of_meet (Bool.eq_false_iff.mpr hx) h] at ho
    cases ho
  obtain rfl := eq_of_any_meet hx h
  refine ⟨?_, rfl⟩
  have hkind := (kind_of_meet h).1
  match x, o, hx, ho, hkind with
  | .list none, .list none, _, _, _ | .nodeReference [], .nodeReference [], _, _, _ => rfl

/-! ### Shapes with items of a family -/

/-- A definite shape whose items, if it has any, are of a family. -/
def Fit (K : Constraint → Prop) (c : Constraint) : Prop :=
  c.isDefinite = true ∧ ∀ a, c = list a → Constraints.Each K a

theorem Fit.meet (hK : Family K) (hc : Fit K c) (hd : Fit K d) (h : c.meet d = some e) :
    Fit K e := by
  refine ⟨isDefinite_of_meet hc.1 hd.1 h, fun a ha => ?_⟩
  subst ha
  have hkind := (kind_of_meet h).1
  cases c <;> cases hkind
  obtain ⟨b, rfl, he⟩ := exists_of_meet_list h
  cases he
  exact (hc.2 _ rfl).intersect (hd.2 b rfl) fun _ _ _ _ _ _ hc hd => hK.meet hc hd

/-- A fit shape that leaves something out. -/
def Head (K : Constraint → Prop) (c : Constraint) : Prop := Fit K c ∧ c.isAny = false

theorem Family.fit_heads (hK : Family K) : Heads (Head K) (Fit K) where
  meet hp hx h := ⟨hp.1.meet hK hx h, isAny_of_meet hp.2 h⟩
  swap := by
    intro p x y hp hx hy
    by_cases hkind : p.kind = x.kind ∧ p.kind = y.kind
    · obtain ⟨hpx, hpy⟩ := hkind
      cases p with
      | list a =>
        cases x <;> cases hpx
        cases y <;> cases hpy
        have hane : a ≠ none := by
          rintro rfl
          cases hp.2
        rw [meet_list_bind, meet_list_bind, meet_list, meet_list,
          (isDefinite_list.mp hp.1.1).intersect_swap_of (isDefinite_list.mp hx.1)
          (isDefinite_list.mp hy.1) hane]
        rintro p x y ⟨l, hl, hpl⟩ ⟨l', hl', hxl⟩ ⟨l'', hl'', hyl⟩
        exact hK.swap (hp.1.2 _ rfl l hl p hpl) (hx.2 _ rfl l' hl' x hxl)
          (hy.2 _ rfl l'' hl'' y hyl)
      | _ => exact meet_swap (by rintro ⟨⟩) hp.2 hx.1 hy.1
    · exact meet_swap_of_kind_ne (not_and_or.mp hkind)

theorem Family.fit_absorbs (hK : Family K) (hx : Fit K x) : Absorbs (Head K) x := by
  by_cases hlist : x.kind = .list
  · cases x <;> cases hlist
    rename_i a
    exact absorbs_list hK (fun hp => hp.1.2 _ rfl) (hx.2 a rfl) fun l hl x hmem => hK.absorbs
      (hx.2 a rfl l hl x hmem)
  · exact absorbs_of_kind_ne hlist

end Constraint

namespace Constraints

open Constraint

variable {ι : Type} {f : ι → Constraints} {i j : ι} {v w : List ι} {d e o p x y : Constraint}
  {K : Constraint → Prop} {members : List Constraint} {n : Nat}

/-! ### Words -/

/-- The intersection of the constraints that a word of indices stands for. -/
def product (f : ι → Constraints) (w : List ι) : Constraints :=
  w.foldl (fun a i => a.intersect (f i)) none

theorem product_append_singleton (f : ι → Constraints) (w : List ι) (i : ι) :
    product f (w ++ [i]) = (product f w).intersect (f i) := by
  rw [product, List.foldl_append]
  rfl

/-- A word of constraints whose shapes are fit. -/
def FitWord (K : Constraint → Prop) (f : ι → Constraints) (w : List ι) : Prop :=
  ∀ i ∈ w, Each (Fit K) (f i)

theorem FitWord.definite (h : FitWord K f w) (hi : i ∈ w) : (f i).Definite :=
  fun l hl c hc => (h i hi l hl c hc).1

theorem FitWord.left (h : FitWord K f (v ++ w)) : FitWord K f v :=
  fun i hi => h i (List.mem_append_left _ hi)

theorem each_fit_product (hK : Family K) (h : FitWord K f w) : Each (Fit K) (product f w) := by
  induction w using List.reverseRecOn with
  | nil => exact each_none
  | append_singleton w i ih =>
    rw [product_append_singleton]
    exact (ih h.left).intersect (h i (List.mem_append_right _ List.mem_cons_self))
      fun _ _ _ _ _ _ => Fit.meet hK

theorem definite_product (hK : Family K) (h : FitWord K f w) : (product f w).Definite :=
  fun l hl c hc => (each_fit_product hK h l hl c hc).1

theorem product_append (hK : Family K) (h : FitWord K f (v ++ w)) :
    product f (v ++ w) = (product f v).intersect (product f w) := by
  induction w using List.reverseRecOn with
  | nil => rw [List.append_nil, product, product, List.foldl_nil, intersect_none]
  | append_singleton w i ih =>
    rw [← List.append_assoc] at h ⊢
    have hw : FitWord K f w :=
      fun i hi => h i (List.mem_append_left _ (List.mem_append_right _ hi))
    rw [product_append_singleton, product_append_singleton, ih h.left,
      (definite_product hK h.left.left).intersect_assoc (definite_product hK hw)
        (h.definite (List.mem_append_right _ List.mem_cons_self))]

theorem intersect_ne_none_right {a b : Constraints} (h : b ≠ none) : a.intersect b ≠ none := by
  match a, b with
  | none, some _ | some _, some _ => exact Option.some_ne_none _

theorem product_ne_none (hi : i ∈ w) (hne : f i ≠ none) : product f w ≠ none := by
  induction w using List.reverseRecOn with
  | nil => cases hi
  | append_singleton w j ih =>
    rw [product_append_singleton]
    rcases List.mem_append.mp hi with hi | hi
    · exact intersect_ne_none (ih hi) _
    · obtain rfl := List.mem_singleton.mp hi
      exact intersect_ne_none_right hne

/-! ### Open shapes of products -/

/-- Wherever something is required, a shape is listed. -/
def ListedIn (f : ι → Constraints) (w : List ι) (o : Constraint) : Prop :=
  ∀ i ∈ w, f i ≠ none → (f i).Lists o

theorem eq_none_of_product_eq_none (h : product f w = none) (hi : i ∈ w) : f i = none := by
  by_contra hne
  exact product_ne_none hi hne h

/-- How a shape is listed by a product with one factor more: by either part where the other
requires nothing, or as what two of their shapes have in common. -/
theorem lists_product_append_singleton (hK : Family K) (h : FitWord K f (w ++ [i])) :
    (product f (w ++ [i])).Lists e ↔ f i = none ∧ (product f w).Lists e ∨ product f w = none ∧
    (f i).Lists e ∨ ∃ y, (product f w).Lists y ∧ ∃ x, (f i).Lists x ∧ y.meet x = some e := by
  have hi : (f i).Definite := h.definite (List.mem_append_right _ List.mem_cons_self)
  rw [product_append_singleton]
  by_cases hfi : f i = none
  · rw [hfi, intersect_none]
    refine ⟨fun he => .inl ⟨rfl, he⟩, ?_⟩
    rintro (⟨-, he⟩ | ⟨-, he⟩ | ⟨y, -, x, hx, -⟩)
    · exact he
    · exact absurd he not_lists_none
    · exact absurd hx not_lists_none
  by_cases hw : product f w = none
  · rw [hw]
    refine ⟨fun he => .inr (.inl ⟨rfl, he⟩), ?_⟩
    rintro (⟨hnone, -⟩ | ⟨-, he⟩ | ⟨y, hy, -⟩)
    · exact absurd hnone hfi
    · exact he
    · exact absurd hy not_lists_none
  · rw [(definite_product hK h.left).lists_intersect hi hw hfi]
    refine ⟨fun he => .inr (.inr he), ?_⟩
    rintro (⟨hnone, -⟩ | ⟨hnone, -⟩ | he)
    · exact absurd hnone hfi
    · exact absurd hnone hw
    · exact he

/-- An open shape of a product is listed by all factors. -/
theorem listedIn_of_lists_product (hK : Family K) (h : FitWord K f w) (ho : o.isAny = true)
    (hlists : (product f w).Lists o) : ListedIn f w o := by
  induction w using List.reverseRecOn with
  | nil => exact nofun
  | append_singleton w i ih =>
    refine List.forall_mem_append.mpr ⟨?_, List.forall_mem_singleton.mpr ?_⟩
    all_goals rcases (lists_product_append_singleton hK h).mp hlists with ⟨hi, hw⟩ | ⟨hw, hi⟩ | ⟨y,
      hy, x, hx, hmeet⟩
    · exact ih h.left hw
    · exact fun j hj hne => absurd (eq_none_of_product_eq_none hw hj) hne
    · exact ih h.left ((eq_of_meet_any hmeet ho).1 ▸ hy)
    · exact fun hne => absurd hi hne
    · exact fun _ => hi
    · exact fun _ => (eq_of_meet_any hmeet ho).2 ▸ hx

/-- An open shape that all factors list is listed by the product, unless nothing is required. -/
theorem lists_product_of_listedIn (hK : Family K) (h : FitWord K f w) (ho : o.isAny = true)
    (hall : ListedIn f w o)
    (hne : product f w ≠ none) : (product f w).Lists o := by
  induction w using List.reverseRecOn with
  | nil => exact absurd rfl hne
  | append_singleton w i ih =>
    obtain ⟨hw, hi⟩ := List.forall_mem_append.mp hall
    rw [List.forall_mem_singleton] at hi
    rw [lists_product_append_singleton hK h]
    rw [product_append_singleton] at hne
    by_cases hfi : f i = none
    · rw [hfi, intersect_none] at hne
      exact .inl ⟨hfi, ih h.left hw hne⟩
    by_cases hpw : product f w = none
    · exact .inr (.inl ⟨hpw, hi hfi⟩)
    · exact .inr (.inr ⟨o, ih h.left hw hpw, o, hi hfi, any_meet_self ho⟩)

/-- What a factor lists is listed by the product, where all factors list an open shape of its
kind. -/
theorem lists_product_of_any (hK : Family K) (h : FitWord K f w) (ho : o.isAny = true)
    (hall : ListedIn f w o)
    (hi : i ∈ w) (hx : (f i).Lists x) (hox : o.meet x = some x) : (product f w).Lists x := by
  have hxo : x.meet o = some x := meet_any_of_meet hox ho (kind_of_meet hox).1.symm
  induction w using List.reverseRecOn with
  | nil => cases hi
  | append_singleton w j ih =>
    obtain ⟨hw, hj⟩ := List.forall_mem_append.mp hall
    rw [List.forall_mem_singleton] at hj
    rw [lists_product_append_singleton hK h]
    rcases List.mem_append.mp hi with hi | hi
    · have hxw := ih h.left hw hi
      by_cases hfj : f j = none
      · exact .inl ⟨hfj, hxw⟩
      · exact .inr (.inr ⟨x, hxw, o, hj hfj, hxo⟩)
    · obtain rfl := List.mem_singleton.mp hi
      by_cases hpw : product f w = none
      · exact .inr (.inl ⟨hpw, hx⟩)
      · exact .inr (.inr ⟨o, lists_product_of_listedIn hK h.left ho hw hpw, x, hx, hox⟩)

/-! ### Order -/

theorem exists_meet_swap (hK : Family K) (h : FitWord K f w) (hi : i ∈ w) (hj : j ∈ w)
    (hp : (product f w).Lists p) (hx : (f i).Lists x) (hy : (f j).Lists y)
    (he : (p.meet x).bind (·.meet y) = some e) : ∃ q, (product f w).Lists q ∧ ∃ y',
    (f j).Lists y' ∧ ∃ x', (f i).Lists x' ∧ (q.meet y').bind (·.meet x') = some e := by
  have hfit : ∀ {k z}, k ∈ w → (f k).Lists z → Fit K z := fun hk ⟨l, hl, hz⟩ => h _ hk l hl _ hz
  cases hany : p.isAny with
  | false =>
    obtain ⟨l, hl, hpl⟩ := id hp
    have hhead : Head K p := ⟨each_fit_product hK h l hl p hpl, hany⟩
    rw [hK.fit_heads.swap hhead (hfit hi hx) (hfit hj hy)] at he
    exact ⟨p, hp, y, hy, x, hx, he⟩
  | true =>
    -- the open shape is listed by the factors, and what they list by the product: they change
    -- places
    obtain ⟨q, hpx, hqy⟩ := Option.bind_eq_some_iff.mp he
    obtain rfl := eq_of_any_meet hany hpx
    have hall := listedIn_of_lists_product hK h hany hp
    have hfi : f i ≠ none := by
      rintro hnone
      rw [hnone] at hx
      exact not_lists_none hx
    have hkind : p.kind = e.kind := (kind_of_meet hpx).1.symm.trans (kind_of_meet hqy).1.symm
    refine ⟨q, lists_product_of_any hK h hany hall hi hx hpx, y, hy, p, hall i hi hfi, ?_⟩
    rw [hqy, Option.bind_some, meet_any_of_meet hqy hany hkind]

/-- Behind a product of them, two factors can be met in either order. -/
theorem product_swap (hK : Family K) (h : FitWord K f w) (hi : i ∈ w) (hj : j ∈ w) :
    product f (w ++ [i, j]) = product f (w ++ [j, i]) := by
  have htwo : ∀ i j, product f (w ++ [i, j]) = ((product f w).intersect (f i)).intersect
      (f j) := by
    intro i j
    rw [List.append_cons, product_append_singleton, product_append_singleton]
  rw [htwo, htwo]
  by_cases hfi : f i = none
  · rw [hfi, intersect_none, intersect_none]
  by_cases hfj : f j = none
  · rw [hfj, intersect_none, intersect_none]
  have hw := definite_product hK h
  have hne := product_ne_none hi hfi
  have hdi := h.definite hi
  have hdj := h.definite hj
  have hlists : ∀ {a b : Constraints} {e}, a.Definite → b.Definite → a ≠ none → b ≠ none →
      ((((product f w).intersect a).intersect b).Lists e ↔ ∃ p, (product f w).Lists p ∧ ∃ x,
        a.Lists x ∧ ∃ y, b.Lists y ∧ (p.meet x).bind (·.meet y) = some e) := by
    intro a b e ha hb hane hbne
    rw [(hw.intersect ha).lists_intersect hb (intersect_ne_none hne a) hbne]
    constructor
    · rintro ⟨q, hq, y, hy, hmeet⟩
      obtain ⟨p, hp, x, hx, hpx⟩ := (hw.lists_intersect ha hne hane).mp hq
      exact ⟨p, hp, x, hx, y, hy, by rw [hpx, Option.bind_some, hmeet]⟩
    · rintro ⟨p, hp, x, hx, y, hy, hbind⟩
      obtain ⟨q, hpx, hmeet⟩ := Option.bind_eq_some_iff.mp hbind
      exact ⟨q, (hw.lists_intersect ha hne hane).mpr ⟨p, hp, x, hx, hpx⟩, y, hy, hmeet⟩
  refine ((hw.intersect hdi).canonical hdj (intersect_ne_none hne _) hfj).ext
    ((hw.intersect hdj).canonical hdi (intersect_ne_none hne _) hfi) fun e => ?_
  rw [hlists hdi hdj hfi hfj, hlists hdj hdi hfj hfi]
  exact ⟨fun ⟨p, hp, x, hx, y, hy, he⟩ => exists_meet_swap hK h hi hj hp hx hy he,
    fun ⟨p, hp, y, hy, x, hx, he⟩ => exists_meet_swap hK h hj hi hp hy hx he⟩

/-- Once all of them have occurred, factors can be met in any order. -/
theorem product_perm (hK : Family K) (h : FitWord K f w) {u v : List ι} (hu : ∀ i ∈ u, i ∈ w)
    (huv : u.Perm v) :
    product f (w ++ u) = product f (w ++ v) := by
  induction huv generalizing w with
  | nil => rfl
  | @cons i us vs _ ih =>
    obtain ⟨hi, hrest⟩ := List.forall_mem_cons.mp hu
    rw [List.append_cons w i us, List.append_cons w i vs]
    refine ih (fun j hj => ?_) fun j hj => List.mem_append_left _ (hrest j hj)
    rcases List.mem_append.mp hj with hj | hj
    · exact h j hj
    · exact h j (List.mem_singleton.mp hj ▸ hi)
  | swap i j l =>
    obtain ⟨hj, hi, -⟩ := List.forall_mem_cons.mp hu |>.imp_right List.forall_mem_cons.mp
    have hswap := congrArg (l.foldl fun a i => a.intersect (f i)) (product_swap hK h hj hi)
    simpa [product, List.foldl_append] using hswap
  | trans hfirst _ ih ih' => exact (ih h hu).trans (ih' h fun i hi => hu i (hfirst.mem_iff.mpr hi))

/-! ### Saturation -/

/-- The number of parts of all shapes. -/
def size (a : Constraints) : Nat := (a.map weightOfList).getD 0

theorem product_append_replicate (f : ι → Constraints) (w : List ι) (i : ι) (n : Nat) :
    product f (w ++ List.replicate n i) = (product f w).repeated (f i) n := by
  induction n with
  | zero => rw [List.replicate_zero, List.append_nil, repeated]
  | succ n ih =>
    rw [List.replicate_succ', ← List.append_assoc, product_append_singleton, ih, repeated_add_one]

/-- The first shape that an open one of a product meets could have stood in its place. -/
theorem exists_arises_of_any (hK : Family K) (h : FitWord K f w) (hi : i ∈ w)
    (hfi : f i = some members)
    (hp : (product f w).Lists p) (hany : p.isAny = true) (harises : Arises members (n + 1) p e) :
    ∃ q, (product f w).Lists q ∧ Arises members n q e := by
  obtain ⟨xs, hlength, hxs, hrun⟩ := harises
  cases xs with
  | nil => cases hlength
  | cons x xs =>
    obtain ⟨hx, hrest⟩ := List.forall_mem_cons.mp hxs
    rw [meetRun_cons, Option.bind_eq_some_iff] at hrun
    obtain ⟨q, hpx, hrun⟩ := hrun
    obtain rfl := eq_of_any_meet hany hpx
    have hall := listedIn_of_lists_product hK h hany hp
    exact ⟨q, lists_product_of_any hK h hany hall hi ⟨members, hfi, hx⟩ hpx, xs,
      Nat.succ.inj hlength, hrest, hrun⟩

/-- An open shape of a product can be met once more. -/
theorem arises_succ_of_any (hK : Family K) (h : FitWord K f w) (hi : i ∈ w)
    (hfi : f i = some members)
    (hp : (product f w).Lists p) (hany : p.isAny = true) (harises : Arises members n p e) :
    Arises members (n + 1) p e := by
  obtain ⟨xs, hlength, hxs, hrun⟩ := harises
  have hlisted := listedIn_of_lists_product hK h hany hp i hi (hfi ▸ Option.some_ne_none _)
  rw [hfi] at hlisted
  refine ⟨p :: xs, congrArg (· + 1) hlength, List.forall_mem_cons.mpr ⟨lists_some.mp hlisted, hxs⟩,
    ?_⟩
  rw [meetRun_cons, any_meet_self hany, Option.bind_some, hrun]

/-- Behind a product with a factor, the factor is met only so often to any effect. -/
theorem repeated_product (hK : Family K) (h : FitWord K f w) (hi : i ∈ w)
    (hn : 2 * (f i).size < n) :
    (product f w).repeated (f i) (n + 1) = (product f w).repeated (f i) n := by
  rw [repeated_add_one]
  cases hfi : f i with
  | none => rw [intersect_none]
  | some members =>
    have hfit : ∀ x ∈ members, Fit K x := fun x hx => h i hi members hfi x hx
    have hne : product f w ≠ none := product_ne_none hi (hfi ▸ Option.some_ne_none _)
    rw [hfi] at hn
    refine (definite_product hK h).repeated_succ hne (hfi ▸ h.definite hi) (fun e => ?_) hn
    have hheads : ∀ {p}, (product f w).Lists p → p.isAny = false →
        (Arises members (n + 1) p e ↔ Arises members n p e) := by
      intro p hp hany
      obtain ⟨l, hl, hpl⟩ := id hp
      exact hK.fit_heads.arises_succ_iff ⟨each_fit_product hK h l hl p hpl, hany⟩ hfit
        (fun x hx => hK.fit_absorbs (hfit x hx)) hn
    constructor
    · rintro ⟨p, hp, harises⟩
      cases hany : p.isAny with
      | false => exact ⟨p, hp, (hheads hp hany).mp harises⟩
      | true => exact exists_arises_of_any hK h hi hfi hp hany harises
    · rintro ⟨p, hp, harises⟩
      cases hany : p.isAny with
      | false => exact ⟨p, hp, (hheads hp hany).mpr harises⟩
      | true => exact ⟨p, hp, arises_succ_of_any hK h hi hfi hp hany harises⟩

variable [DecidableEq ι]

/-- Factors that have all occurred often enough in a word. -/
def Saturates (f : ι → Constraints) (w v : List ι) : Prop := ∀ i ∈ w, 2 * (f i).size < v.count i

theorem product_append_singleton_of_saturates (hK : Family K) (h : FitWord K f w)
    (hv : ∀ i ∈ v, i ∈ w)
    (hsat : Saturates f w v) (hi : i ∈ w) : product f (w ++ v ++ [i]) = product f (w ++ v) := by
  have hsplit : v.Perm (v.filter (¬ · = i) ++ List.replicate (v.count i) i) := by
    have hfilter := (List.filter_append_perm (fun j => decide (j = i)) v).symm
    have hsame : v.filter (· = i) = List.replicate (v.count i) i := by
      rw [← List.filter_beq]
      rfl
    rw [hsame] at hfilter
    simpa using hfilter.trans List.perm_append_comm
  have hothers : ∀ j ∈ v.filter (¬ · = i), j ∈ w := fun j hj => hv j (List.mem_of_mem_filter hj)
  have hword : FitWord K f (w ++ v.filter (¬ · = i)) :=
    List.forall_mem_append.mpr ⟨h, fun j hj => h j (hothers j hj)⟩
  have hvi : ∀ j ∈ v ++ [i], j ∈ w :=
    List.forall_mem_append.mpr ⟨hv, List.forall_mem_singleton.mpr hi⟩
  have hbehind : ∀ n, w ++ (v.filter (¬ · = i) ++ List.replicate n i) =
      w ++ v.filter (¬ · = i) ++ List.replicate n i := fun n => (List.append_assoc ..).symm
  rw [List.append_assoc, product_perm hK h hvi (hsplit.append_right [i]), List.append_assoc,
    ← List.replicate_succ',
    product_perm hK h hv hsplit, hbehind, hbehind, product_append_replicate,
    product_append_replicate,
    repeated_product hK hword (List.mem_append_left _ hi) (hsat i hi)]

theorem product_append_of_saturates (hK : Family K) (h : FitWord K f w) {u : List ι}
    (hv : ∀ i ∈ v, i ∈ w)
    (hsat : Saturates f w v) (hu : ∀ i ∈ u, i ∈ w) :
    product f (w ++ (v ++ u)) = product f (w ++ v) := by
  induction u generalizing v with
  | nil => rw [List.append_nil]
  | cons i u ih =>
    obtain ⟨hi, hrest⟩ := List.forall_mem_cons.mp hu
    rw [List.append_cons, ih, ← List.append_assoc,
      product_append_singleton_of_saturates hK h hv hsat hi]
    · exact List.forall_mem_append.mpr ⟨hv, List.forall_mem_singleton.mpr hi⟩
    · intro j hj
      rw [List.count_append]
      exact Nat.lt_add_right _ (hsat j hj)
    · exact hrest

/-- Once each of them has occurred often enough, it does not matter how often or in which order
factors occur. -/
theorem product_eq_of_saturated (hK : Family K) (h : FitWord K f w) {u : List ι}
    (hu : ∀ i ∈ u, i ∈ w)
    (hv : ∀ i ∈ v, i ∈ w) (hsatu : Saturates f w u) (hsatv : Saturates f w v) :
    product f (w ++ u) = product f (w ++ v) := by
  rw [← product_append_of_saturates hK h hu hsatu hv,
    ← product_append_of_saturates hK h hv hsatv hu]
  exact product_perm hK h (List.forall_mem_append.mpr ⟨hu, hv⟩) List.perm_append_comm

end Constraints

end Patchbay
