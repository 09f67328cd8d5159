import Patchbay.Proofs.Constraint.Swapping
import Patchbay.Graph.Narrow

/-!
# Meeting the same shapes again and again

To intersect constraints with themselves may yield new shapes: two ranges have a third one in
common, and three ranges a fourth one. But it does so only a number of times that depends on their
size (`Constraint.weight`). What a sequence of shapes has in common depends on how often each of
them occurs, where they can be met in any order, and from some number on it does not matter how
often (`Constraint.Family.absorbs`): two times for shapes other than lists, and for lists as often
as for all their items together. In a long sequence of few shapes some shape occurs more often than
that (`exists_replicate_perm`), so that it can be left out once, or met once more.
-/

namespace Patchbay

/-! ### Sequences of few members -/

/-- In a sequence that is longer than the members' numbers add up to, some member occurs more often
than its number says. -/
theorem exists_replicate_perm {α : Type} (w : α → Nat) {members xs : List α}
    (hxs : ∀ x ∈ xs, x ∈ members)
    (hlength : (members.map w).sum < xs.length) :
    ∃ x ∈ members, ∃ k ys, w x < k ∧ xs.Perm (List.replicate k x ++ ys) := by
  classical
  induction members generalizing xs with
  | nil =>
    cases xs with
    | nil => simp at hlength
    | cons x xs => exact absurd (hxs x List.mem_cons_self) List.not_mem_nil
  | cons c members ih =>
    have hsplit : xs.Perm (xs.filter (· = c) ++ xs.filter (¬ · = c)) := by
      simpa using (List.filter_append_perm (fun x => decide (x = c)) xs).symm
    have hsame : xs.filter (· = c) = List.replicate (xs.filter (· = c)).length c :=
      List.eq_replicate_of_mem fun x hx => by simpa using (List.mem_filter.mp hx).2
    by_cases hc : w c < (xs.filter (· = c)).length
    · exact ⟨c, List.mem_cons_self, _, _, hc, hsame ▸ hsplit⟩
    · have htotal := hsplit.length_eq
      rw [List.length_append] at htotal
      rw [List.map_cons, List.sum_cons] at hlength
      have hothers : ∀ x ∈ xs.filter (¬ · = c), x ∈ members := fun x hx => by
        obtain ⟨hmem, hne⟩ := List.mem_filter.mp hx
        exact (List.mem_cons.mp (hxs x hmem)).resolve_left (by simpa using hne)
      obtain ⟨x, hx, k, ys, hk, hperm⟩ := ih hothers (by omega)
      refine ⟨x, List.mem_cons_of_mem _ hx, k, xs.filter (· = c) ++ ys, hk, hsplit.trans ?_⟩
      exact (List.perm_append_comm.trans (hperm.append_right _)).trans
        (by rw [List.append_assoc]; exact List.perm_append_comm.append_left _)

namespace Constraint

variable {c d e p q x y : Constraint} {xs ys members : List Constraint} {H F K : Constraint → Prop}
  {n k : Nat}

/-! ### Sequences of shapes -/

/-- What a shape has in common with others, met one after the other. -/
def meetRun (p : Constraint) (xs : List Constraint) : Option Constraint := xs.foldlM meet p

theorem meetRun_cons (p x : Constraint) (xs : List Constraint) :
    meetRun p (x :: xs) = (p.meet x).bind (meetRun · xs) := rfl

theorem meetRun_append (p : Constraint) (xs ys : List Constraint) :
    meetRun p (xs ++ ys) = (meetRun p xs).bind (meetRun · ys) := List.foldlM_append

theorem meetRun_singleton (p x : Constraint) : meetRun p [x] = p.meet x := by
  rw [meetRun_cons]
  cases p.meet x <;> rfl

theorem meetRun_replicate_succ (p x : Constraint) (k : Nat) :
    meetRun p (List.replicate (k + 1) x) = (meetRun p (List.replicate k x)).bind (·.meet x) := by
  rw [List.replicate_succ', meetRun_append]
  exact congrArg _ (funext fun q => meetRun_singleton q x)

/-- Behind shapes of the one class, those of the other can be met in any order. -/
structure Heads (H F : Constraint → Prop) : Prop where
  meet : ∀ {p x q}, H p → F x → p.meet x = some q → H q
  swap : ∀ {p x y}, H p → F x → F y → (p.meet x).bind (·.meet y) = (p.meet y).bind (·.meet x)

theorem Family.heads (h : Family K) : Heads K K := ⟨h.meet, h.swap⟩

theorem Heads.meetRun_perm (h : Heads H F) (hp : H p) (hxs : ∀ x ∈ xs, F x) (hperm : xs.Perm ys) :
    meetRun p xs = meetRun p ys := by
  induction hperm generalizing p with
  | nil => rfl
  | cons x _ ih =>
    obtain ⟨hx, hrest⟩ := List.forall_mem_cons.mp hxs
    rw [meetRun_cons, meetRun_cons]
    cases hmeet : p.meet x with
    | none => rfl
    | some q => exact ih (h.meet hp hx hmeet) hrest
  | swap x y l =>
    obtain ⟨hy, hx, -⟩ := List.forall_mem_cons.mp hxs |>.imp_right List.forall_mem_cons.mp
    have hswap := congrArg (Option.bind · (meetRun · l)) (h.swap hp hy hx)
    simpa only [meetRun_cons, Option.bind_assoc] using hswap
  | trans hfirst _ ih ih' =>
    exact (ih hp hxs).trans (ih' hp fun x hx => hxs x (hfirst.mem_iff.mpr hx))

/-- Behind shapes of a class, a shape is not met more often than this to any effect. -/
def Absorbs (H : Constraint → Prop) (x : Constraint) : Prop :=
  ∀ p, H p → ∀ k, 2 * x.weight ≤ k → meetRun p (List.replicate (k + 1) x) = meetRun p
    (List.replicate k x)

/-- A shape arises from another one and so many members of a list. -/
def Arises (members : List Constraint) (n : Nat) (p e : Constraint) : Prop :=
  ∃ xs, xs.length = n ∧ (∀ x ∈ xs, x ∈ members) ∧ meetRun p xs = some e

theorem sum_weight (members : List Constraint) :
    (members.map fun x => 2 * x.weight).sum = 2 * weightOfList members := by
  induction members with
  | nil => rfl
  | cons c cs ih => rw [List.map_cons, List.sum_cons, ih, weightOfList, Nat.mul_add]

/-- Among many members of a list there is one that is met often, and could be met first. -/
theorem Heads.exists_meetRun_eq (h : Heads H F) (hp : H p) (hmembers : ∀ x ∈ members, F x)
    (habsorbs : ∀ x ∈ members, Absorbs H x) (hxs : ∀ x ∈ xs, x ∈ members)
    (hlength : 2 * weightOfList members < xs.length) :
    ∃ x ∈ members, ∃ k ys, 2 * x.weight ≤ k ∧ xs.length = k + 1 + ys.length ∧
    (∀ y ∈ ys, y ∈ members) ∧
      meetRun p xs = (meetRun p (List.replicate k x)).bind (meetRun · ys) := by
  rw [← sum_weight] at hlength
  obtain ⟨x, hx, k, ys, hk, hperm⟩ := exists_replicate_perm _ hxs hlength
  obtain ⟨k, rfl⟩ := Nat.exists_eq_add_of_lt hk
  refine ⟨x, hx, 2 * x.weight + k, ys, Nat.le_add_right _ _, ?_, fun y hy => ?_, ?_⟩
  · rw [hperm.length_eq, List.length_append, List.length_replicate]
  · exact hxs y (hperm.mem_iff.mpr (List.mem_append_right _ hy))
  · rw [h.meetRun_perm hp (fun x hx => hmembers x (hxs x hx)) hperm, meetRun_append,
      habsorbs x hx p hp _ (Nat.le_add_right _ _)]

/-- From many members of a list arises what arises from one more of them. -/
theorem Heads.arises_succ_iff (h : Heads H F) (hp : H p) (hmembers : ∀ x ∈ members, F x)
    (habsorbs : ∀ x ∈ members, Absorbs H x) (hn : 2 * weightOfList members < n) :
    Arises members (n + 1) p e ↔ Arises members n p e := by
  constructor
  · rintro ⟨xs, hlength, hxs, hrun⟩
    obtain ⟨x, hx, k, ys, -, hsum, hys, heq⟩ :=
      h.exists_meetRun_eq hp hmembers habsorbs hxs (by omega)
    refine ⟨List.replicate k x ++ ys, ?_, ?_, by rw [meetRun_append, ← heq, hrun]⟩
    · rw [List.length_append, List.length_replicate]
      omega
    · exact List.forall_mem_append.mpr ⟨fun y hy => List.eq_of_mem_replicate hy ▸ hx, hys⟩
  · rintro ⟨xs, hlength, hxs, hrun⟩
    obtain ⟨x, hx, k, ys, hk, hsum, hys, heq⟩ :=
      h.exists_meetRun_eq hp hmembers habsorbs hxs (by omega)
    refine ⟨List.replicate (k + 1 + 1) x ++ ys, ?_, ?_, ?_⟩
    · rw [List.length_append, List.length_replicate]
      omega
    · exact List.forall_mem_append.mpr ⟨fun y hy => List.eq_of_mem_replicate hy ▸ hx, hys⟩
    · rw [meetRun_append, habsorbs x hx p hp _ (Nat.le_succ_of_le hk), habsorbs x hx p hp _ hk,
        ← heq, hrun]

end Constraint

/-! ### Repeated intersections -/

namespace Constraints

open Constraint

variable {a b : Constraints} {e : Constraint} {members : List Constraint} {H F : Constraint → Prop}
  {n : Nat}

/-- Constraints intersected with others so many times. -/
def repeated (a b : Constraints) : Nat → Constraints
  | 0 => a
  | n + 1 => (a.repeated b n).intersect b

theorem repeated_add_one (a b : Constraints) (n : Nat) :
    a.repeated b (n + 1) = (a.repeated b n).intersect b := rfl

/-- Where nothing is given, the first of the others is. -/
theorem repeated_none (b : Constraints) (n : Nat) : repeated none b (n + 1) = b.repeated b n := by
  induction n with
  | zero => rfl
  | succ n ih => rw [repeated_add_one, ih, repeated_add_one]

theorem definite_repeated (ha : a.Definite) (hb : b.Definite) (n : Nat) :
    (a.repeated b n).Definite := by
  induction n with
  | zero => exact ha
  | succ n ih => exact ih.intersect hb

theorem repeated_ne_none (ha : a ≠ none) (b : Constraints) (n : Nat) : a.repeated b n ≠ none := by
  induction n with
  | zero => exact ha
  | succ n ih => exact intersect_ne_none ih b

/-- Repeated intersections list what arises from the shapes of both sides. -/
theorem Definite.lists_repeated (ha : a.Definite) (hane : a ≠ none)
    (hmembers : Constraints.Definite (some members)) :
    (a.repeated (some members) n).Lists e ↔ ∃ p, a.Lists p ∧ Arises members n p e := by
  induction n generalizing e with
  | zero =>
    constructor
    · exact fun h => ⟨e, h, [], rfl, List.forall_mem_nil _, rfl⟩
    · rintro ⟨p, hp, xs, hlength, -, hrun⟩
      obtain rfl := List.eq_nil_of_length_eq_zero hlength
      cases hrun
      exact hp
  | succ n ih =>
    rw [repeated_add_one, (definite_repeated ha hmembers n).lists_intersect hmembers
      (repeated_ne_none hane _ n) (Option.some_ne_none _)]
    constructor
    · rintro ⟨q, hq, x, hx, hmeet⟩
      obtain ⟨p, hp, xs, hlength, hxs, hrun⟩ := ih.mp hq
      refine ⟨p, hp, xs ++ [x], by rw [List.length_append, hlength]; rfl, ?_, ?_⟩
      · exact List.forall_mem_append.mpr ⟨hxs, List.forall_mem_singleton.mpr (lists_some.mp hx)⟩
      · rw [meetRun_append, hrun, Option.bind_some, meetRun_singleton, hmeet]
    · rintro ⟨p, hp, xs, hlength, hxs, hrun⟩
      obtain ⟨ys, x, rfl⟩ : ∃ ys x, xs = ys ++ [x] :=
        ⟨_, _, (List.dropLast_append_getLast (List.ne_nil_of_length_eq_add_one hlength)).symm⟩
      rw [meetRun_append, Option.bind_eq_some_iff] at hrun
      obtain ⟨q, hq, hmeet⟩ := hrun
      rw [meetRun_singleton] at hmeet
      obtain ⟨hys, hx⟩ := List.forall_mem_append.mp hxs
      refine ⟨q, ih.mpr ⟨p, hp, ys, ?_, hys, hq⟩, x, lists_some.mpr (hx x List.mem_cons_self),
        hmeet⟩
      simpa using hlength

theorem Definite.canonical_repeated (ha : a.Definite) (hb : b.Definite) (hane : a ≠ none)
    (hbne : b ≠ none)
    (n : Nat) : (a.repeated b (n + 1)).Canonical :=
  (definite_repeated ha hb n).canonical hb (repeated_ne_none hane b n) hbne

/-- From some number on, intersecting with the same constraints has no effect any more. -/
theorem Definite.repeated_succ (ha : a.Definite) (hane : a ≠ none)
    (hmembers : Constraints.Definite (some members))
    (h : ∀ e, (∃ p, a.Lists p ∧ Arises members (n + 1) p e) ↔ ∃ p, a.Lists p ∧
      Arises members n p e)
    (hn : 2 * weightOfList members < n) : a.repeated (some members)
    (n + 1) = a.repeated (some members) n := by
  obtain ⟨n, rfl⟩ := Nat.exists_eq_add_one.mpr (Nat.zero_lt_of_lt hn)
  have hne := Option.some_ne_none members
  refine (ha.canonical_repeated hmembers hane hne (n + 1)).ext
    (ha.canonical_repeated hmembers hane hne n) fun e => ?_
  rw [ha.lists_repeated hane hmembers, ha.lists_repeated hane hmembers, h]

theorem Definite.repeated_succ_of_heads (ha : a.Definite) (hane : a ≠ none)
    (hmembers : Constraints.Definite (some members)) (hheads : Heads H F)
    (hp : ∀ p, a.Lists p → H p)
    (hx : ∀ x ∈ members, F x) (habsorbs : ∀ x ∈ members, Absorbs H x)
    (hn : 2 * weightOfList members < n) :
    a.repeated (some members) (n + 1) = a.repeated (some members) n :=
  ha.repeated_succ hane hmembers (fun _ => exists_congr fun p => and_congr_right fun hmem =>
    hheads.arises_succ_iff (hp p hmem) hx habsorbs hn) hn

end Constraints

namespace Constraint

variable {p x : Constraint} {a : Constraints} {members : List Constraint} {K : Constraint → Prop}
  {k : Nat}

/-! ### Shapes that are met again -/

/-- A range meets itself in itself, or else its bounds cross and it meets nothing. -/
theorem meetRange_self_or {α : Type} {mk : Option α → Option α → Constraint} {le : α → α → Bool}
    {larger smaller : α → α → α} (h : Bounds le larger smaller) (hlarger : ∀ x, larger x x = x)
    (hsmaller : ∀ x, smaller x x = x) (lo hi : Option α) :
    meetRange mk le larger smaller lo hi lo hi = some (mk lo hi) ∨
      ∀ lo' hi', meetRange mk le larger smaller lo' hi' lo hi = none := by
  cases hcross : uncrossed le lo hi with
  | true =>
    refine .inl ?_
    rw [meetRange, tighter_self hlarger, tighter_self hsmaller, if_pos hcross]
  | false =>
    refine .inr fun lo' hi' => if_neg ?_
    rw [uncrossed_tighter h, hcross]
    simp

theorem commonOptions_self (l : List String) : commonOptions l l = l :=
  List.filter_eq_self.mpr fun _ hs => List.contains_iff_mem.mpr hs

/-- A shape other than a list meets itself in itself, or else it meets nothing. -/
theorem meet_self_or (hlist : x.kind ≠ .list) :
    x.meet x = some x ∨ ∀ p : Constraint, p.kind = x.kind → p.meet x = none := by
  cases x with
  | integer lo hi =>
    refine (meetRange_self_or bounds_int64 max_self_int64 min_self_int64 lo hi).imp
      (meet_integer lo hi lo hi).trans fun hnone p hkind => ?_
    cases p <;> cases hkind
    exact (meet_integer ..).trans (hnone _ _)
  | float lo hi =>
    refine (meetRange_self_or bounds_double (fun _ => ite_self _) (fun _ => ite_self _) lo hi).imp
      (meet_float lo hi lo hi).trans fun hnone p hkind => ?_
    cases p <;> cases hkind
    exact (meet_float ..).trans (hnone _ _)
  | enumeration l =>
    cases l with
    | nil =>
      refine .inr fun p hkind => ?_
      cases p <;> cases hkind
      rw [meet, meetOptions_eq, commonOptions_nil]
      rfl
    | cons s l => exact .inl (by rw [meet, meetOptions_eq, commonOptions_self]; rfl)
  | object a =>
    cases a with
    | none => exact .inl rfl
    | some a => exact .inl (if_pos (Json.same_refl a))
  | nodeReference l =>
    cases l with
    | nil => exact .inl rfl
    | cons s l =>
      have hne := List.cons_ne_nil s l
      exact .inl (by rw [meet, meetTypes_eq hne hne, commonOptions_self]; rfl)
  | list => exact absurd rfl hlist
  | _ => exact .inl rfl

theorem meet_twice (hlist : x.kind ≠ .list) (p : Constraint) :
    (p.meet x).bind (·.meet x) = p.meet x := by
  by_cases hkind : p.kind = x.kind
  · rw [meet_assoc (hkind ▸ hlist)]
    rcases meet_self_or hlist with h | h
    · rw [h, Option.bind_some]
    · rw [h x rfl, h p hkind, Option.bind_none]
  · rw [meet_of_kind_ne hkind, Option.bind_none]

theorem one_le_weight (c : Constraint) : 1 ≤ c.weight := by
  cases c with
  | list a => cases a <;> simp [weight]
  | _ => simp [weight]

theorem meetRun_of_twice (h : (p.meet x).bind (·.meet x) = p.meet x) (hk : 1 ≤ k) :
    meetRun p (List.replicate k x) = p.meet x := by
  induction k, hk using Nat.le_induction with
  | base => exact meetRun_singleton p x
  | succ k _ ih => rw [meetRun_replicate_succ, ih, h]

theorem meetRun_of_kind_ne (h : p.kind ≠ x.kind) (hk : 1 ≤ k) :
    meetRun p (List.replicate k x) = none := by
  rw [meetRun_of_twice (by rw [meet_of_kind_ne h, Option.bind_none]) hk, meet_of_kind_ne h]

theorem absorbs_of_twice {H : Constraint → Prop}
    (h : ∀ p, H p → (p.meet x).bind (·.meet x) = p.meet x) :
    Absorbs H x := by
  intro p hp k hk
  have hweight := one_le_weight x
  rw [meetRun_of_twice (h p hp) (by omega), meetRun_of_twice (h p hp) (by omega)]

/-- Lists meet again and again in the list of what their items have in common again and again. -/
theorem meetRun_list (a b : Constraints) (k : Nat) : meetRun (list a)
    (List.replicate (k + 1) (list b)) =
    if (a.repeated b (k + 1)).isIncompatible then none
    else some (list (a.repeated b (k + 1))) := by
  induction k with
  | zero => exact (meetRun_singleton _ _).trans (meet_list a b)
  | succ k ih =>
    rw [meetRun_replicate_succ, ih, Constraints.repeated_add_one a b (k + 1)]
    split
    · rename_i h
      rw [Constraints.isIncompatible_iff.mp h, Constraints.nil_intersect]
      rfl
    · exact meet_list _ _

theorem meet_any_list (a : Constraints) : ((list a).meet (list none)).bind (·.meet (list none)) =
    (list a).meet (list none) := by
  rw [meet_list_bind, meet_list, meet_list, Constraints.intersect_none, Constraints.intersect_none]

/-- A list of members is met to effect as often only as its members are. -/
theorem meetRun_list_succ (hK : Family K) (ha : a.Each K) (hmembers : ∀ x ∈ members, K x)
    (habsorbs : ∀ x ∈ members, Absorbs K x) (hk : 2 * (list (some members)).weight ≤ k) :
    meetRun (list a) (List.replicate (k + 1) (list (some members))) =
      meetRun (list a) (List.replicate k (list (some members))) := by
  rw [weight] at hk
  obtain ⟨k, rfl⟩ : ∃ n, k = n + 2 := ⟨k - 2, by omega⟩
  have hsome : ∀ {l n}, (∀ p ∈ l, K p) → 2 * weightOfList members < n →
      Constraints.repeated (some l) (some members) (n + 1) = Constraints.repeated (some l)
      (some members) n := by
    intro l n hl hn
    refine Constraints.Definite.repeated_succ_of_heads ?_ (Option.some_ne_none _) ?_ hK.heads
      (fun p hp => hl p (Constraints.lists_some.mp hp)) hmembers habsorbs hn
    · exact Constraints.each_some.mpr fun x hx => hK.definite (hl x hx)
    · exact Constraints.each_some.mpr fun x hx => hK.definite (hmembers x hx)
  have hrepeated : a.repeated (some members) (k + 2 + 1) = a.repeated (some members) (k + 2) := by
    cases a with
    | none =>
      rw [Constraints.repeated_none, Constraints.repeated_none]
      exact hsome hmembers (by omega)
    | some l => exact hsome (Constraints.each_some.mp ha) (by omega)
  rw [meetRun_list, meetRun_list, hrepeated]

theorem absorbs_of_kind_ne {H : Constraint → Prop} (hlist : x.kind ≠ .list) : Absorbs H x :=
  absorbs_of_twice fun p _ => meet_twice hlist p

/-- Behind shapes with items of a family, a list with such items is met only so often to any
effect. -/
theorem absorbs_list {H : Constraint → Prop} (hK : Family K)
    (hH : ∀ {a}, H (list a) → Constraints.Each K a)
    (ha : Constraints.Each K a) (habsorbs : Constraints.Each (Absorbs K) a) :
    Absorbs H (list a) := by
  cases a with
  | none =>
    refine absorbs_of_twice fun p _ => ?_
    by_cases hkind : p.kind = .list
    · cases p <;> cases hkind
      exact meet_any_list _
    · rw [meet_of_kind_ne hkind, Option.bind_none]
  | some members =>
    intro p hp k hk
    by_cases hkind : p.kind = .list
    · cases p <;> cases hkind
      exact meetRun_list_succ hK (hH hp) (Constraints.each_some.mp ha)
        (Constraints.each_some.mp habsorbs) hk
    · have hpos := one_le_weight (list (some members))
      rw [meetRun_of_kind_ne hkind (by omega), meetRun_of_kind_ne hkind (by omega)]

/-- In a family every shape is met only so often to any effect. -/
theorem Family.absorbs (hK : Family K) (hx : K x) : Absorbs K x := by
  induction x using inductionOn with
  | other x hlist => exact absorbs_of_kind_ne hlist
  | list a ih =>
    exact absorbs_list hK hK.items (hK.items hx) fun l hl x hmem => ih l hl x hmem
      (hK.items hx l hl x hmem)

end Constraint

end Patchbay
