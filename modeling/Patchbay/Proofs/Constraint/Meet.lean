import Patchbay.Constraint.Intersect
import Patchbay.Proofs.Constraint.Same

/-!
# Meeting shapes

An intersection is taken pair by pair (`anyAccepts_meetAll`): two shapes meet in what their
parameters have in common, if they are of one kind (`pairing`), and a value has what two shapes
have in common when it is accepted where they meet (`commonAccepts`). That the result is in
canonical order and without repeats does not matter to what it permits (`anyAccepts_canonicalize`),
since equal shapes accept the same values (`accepts_congr`).

A class of shapes that pairs do not leave is not left by intersections either
(`Constraints.Each.intersect`).
-/

namespace Patchbay

namespace Constraint

variable {c d : Constraint} {cs ds : List Constraint} {v : Json}

/-! ### Induction -/

mutual

/-- A property of constraints that a list has as soon as its items have it. -/
theorem inductionOn {P : Constraint → Prop}
    (list : ∀ items, (∀ cs, items = some cs → ∀ c ∈ cs, P c) → P (.list items))
    (other : ∀ c : Constraint, c.kind ≠ .list → P c) : ∀ c, P c
  | .list none => list none nofun
  | .list (some cs) => list (some cs) fun _ h => by
    cases h
    exact inductionOnAll list other cs
  | .string | .integer .. | .float .. | .boolean | .enumeration _ | .audio | .video | .audioClip
  | .videoClip | .avClip | .contextMessage | .textStream | .trigger | .object _
  | .nodeReference _ | .secret | .schema => other _ nofun

/-- All members of a list have the property. -/
theorem inductionOnAll {P : Constraint → Prop}
    (list : ∀ items, (∀ cs, items = some cs → ∀ c ∈ cs, P c) → P (.list items))
    (other : ∀ c : Constraint, c.kind ≠ .list → P c) : ∀ cs : List Constraint, ∀ c ∈ cs, P c
  | [] => nofun
  | c :: cs =>
    List.forall_mem_cons.mpr ⟨inductionOn list other c, inductionOnAll list other cs⟩

end

/-! ### The values of a shape -/

theorem accepts_null (c : Constraint) : c.accepts .null = true := by
  cases c <;> rfl

theorem accepts_integer (lo hi : Option Int64) (v : Json) :
    (integer lo hi).accepts v = (v.isNull || v.int64?.any (withinInt lo hi)) := accepts_eq _ v

theorem accepts_float (lo hi : Option Double) (v : Json) :
    (float lo hi).accepts v = (v.isNull || v.double?.any (withinDouble lo hi)) := accepts_eq _ v

theorem accepts_enumeration (options : List String) (v : Json) :
    (enumeration options).accepts v = (v.isNull || v.str?.any options.contains) := accepts_eq _ v

theorem accepts_object (schema : Option Json) (v : Json) :
    (object schema).accepts v = (v.isNull || v.obj?.isSome) := accepts_eq _ v

theorem accepts_nodeReference (types : List String) (v : Json) :
    (nodeReference types).accepts v = (v.isNull || v.str?.isSome) := accepts_eq _ v

theorem accepts_list (items : Constraints) (v : Json) :
    (list items).accepts v = (v.isNull || v.arr?.any fun l => l.all items.accept) := by
  cases items with
  | none =>
    rw [accepts_eq]
    cases v <;> simp [Json.arr?, Constraints.accept]
  | some cs => exact accepts_eq _ v

theorem anyAccepts_eq_any (cs : List Constraint) (v : Json) :
    anyAccepts cs v = cs.any (·.accepts v) := by
  induction cs with
  | nil => rfl
  | cons c cs ih => rw [anyAccepts, List.any_cons, ih]

theorem anyAccepts_iff : anyAccepts cs v = true ↔ ∃ c ∈ cs, c.accepts v = true := by
  rw [anyAccepts_eq_any, List.any_eq_true]

/-- Whether a list of shapes has any member shows in whether it accepts `null`. -/
theorem anyAccepts_null (cs : List Constraint) : anyAccepts cs .null = !cs.isEmpty := by
  cases cs with
  | nil => rfl
  | cons c cs => rw [anyAccepts, accepts_null, Bool.true_or, List.isEmpty_cons, Bool.not_false]

/-! ### Equal shapes -/

theorem kind_eq_of_same (h : c.same d = true) : c.kind = d.kind := by
  unfold same at h
  split at h <;> first | rfl | cases h

theorem all_eq_of_sameBound {a b : Option Double} (h : sameBound a b = true) {p : Double → Bool}
    (hp : ∀ x y : Double, x.rank = y.rank → p x = p y) : a.all p = b.all p := by
  cases a <;> cases b <;> simp only [sameBound, Bool.false_eq_true] at h
  · rfl
  · exact hp _ _ (Double.same_iff.mp h)

theorem withinDouble_eq_of_sameBound {lo hi lo' hi' : Option Double}
    (hlo : sameBound lo lo' = true) (hhi : sameBound hi hi' = true) :
    withinDouble lo hi = withinDouble lo' hi' := by
  funext x
  have hle : lo.all (·.le x) = lo'.all (·.le x) :=
    all_eq_of_sameBound hlo fun a b hab => by simp only [Double.le, hab]
  have hge : hi.all (x.le ·) = hi'.all (x.le ·) :=
    all_eq_of_sameBound hhi fun a b hab => by simp only [Double.le, hab]
  rw [withinDouble, withinDouble, hle, hge]

mutual

/-- Equal shapes accept the same values. -/
theorem accepts_congr : ∀ {c d : Constraint}, c.same d = true → ∀ v, c.accepts v = d.accepts v
  | .float lo hi, d, h, v => by
    cases d <;> simp only [same, Bool.false_eq_true, Bool.and_eq_true] at h
    rw [accepts_float, accepts_float, withinDouble_eq_of_sameBound h.1 h.2]
  | .object _, d, h, v => by
    cases d <;> simp only [same, Bool.false_eq_true] at h
    rw [accepts_object, accepts_object]
  | .list none, d, h, v => by
    cases d with
    | list items =>
      cases items with
      | none => rfl
      | some _ => simp [same] at h
    | _ => simp [same] at h
  | .list (some cs), d, h, v => by
    cases d with
    | list items =>
      cases items with
      | none => simp [same] at h
      | some ds =>
        rw [same] at h
        have hitems : Constraints.accept (some cs) = Constraints.accept (some ds) :=
          funext (anyAccepts_congr h)
        rw [accepts_list, accepts_list, hitems]
    | _ => simp [same] at h
  | .integer .., d, h, v | .enumeration _, d, h, v | .nodeReference _, d, h, v => by
    cases d <;> simp_all [same]
  | .string, d, h, v | .boolean, d, h, v | .audio, d, h, v | .video, d, h, v
  | .audioClip, d, h, v | .videoClip, d, h, v | .avClip, d, h, v | .contextMessage, d, h, v
  | .textStream, d, h, v | .trigger, d, h, v | .secret, d, h, v | .schema, d, h, v => by
    cases d <;> simp only [same, Bool.false_eq_true] at h
    rfl

theorem anyAccepts_congr : ∀ {cs ds : List Constraint}, sameList cs ds = true →
    ∀ v, anyAccepts cs v = anyAccepts ds v
  | [], [], _, _ => rfl
  | [], _ :: _, h, _ => by simp [sameList] at h
  | _ :: _, [], h, _ => by simp [sameList] at h
  | c :: cs, d :: ds, h, v => by
    simp only [sameList, Bool.and_eq_true] at h
    rw [anyAccepts, anyAccepts, accepts_congr h.1, anyAccepts_congr h.2]

end

theorem any_eq_of_sameList {p : Constraint → Bool} (h : sameList cs ds = true)
    (hp : ∀ c ∈ cs, ∀ d, c.same d = true → p c = p d) : cs.any p = ds.any p := by
  induction cs generalizing ds with
  | nil =>
    cases ds with
    | nil => rfl
    | cons d ds => simp [sameList] at h
  | cons c cs ih =>
    cases ds with
    | nil => simp [sameList] at h
    | cons d ds =>
      rw [sameList, Bool.and_eq_true] at h
      rw [List.any_cons, List.any_cons, hp c List.mem_cons_self d h.1,
        ih h.2 fun c hc => hp c (List.mem_cons_of_mem _ hc)]

/-- Equal lists are identical if equal members are. -/
theorem eq_of_sameList (h : sameList cs ds = true)
    (heq : ∀ c ∈ cs, ∀ d ∈ ds, c.same d = true → c = d) : cs = ds := by
  induction cs generalizing ds with
  | nil =>
    cases ds with
    | nil => rfl
    | cons d ds => simp [sameList] at h
  | cons c cs ih =>
    cases ds with
    | nil => simp [sameList] at h
    | cons d ds =>
      rw [sameList, Bool.and_eq_true] at h
      have hhead : c = d := heq c List.mem_cons_self d List.mem_cons_self h.1
      have htail : cs = ds := ih h.2 fun c hc d hd =>
        heq c (List.mem_cons_of_mem _ hc) d (List.mem_cons_of_mem _ hd)
      rw [hhead, htail]

/-! ### Canonical lists -/

theorem mem_dropRepeatsOf {kept : Constraint} (h : c ∈ dropRepeats.dropRepeatsOf kept cs) :
    c ∈ cs := by
  induction cs generalizing kept with
  | nil => simp [dropRepeats.dropRepeatsOf] at h
  | cons a as ih =>
    rw [dropRepeats.dropRepeatsOf] at h
    split at h
    · exact List.mem_cons_of_mem _ (ih h)
    · rcases List.mem_cons.mp h with rfl | h
      · exact List.mem_cons_self
      · exact List.mem_cons_of_mem _ (ih h)

/-- Making a list canonical brings in nothing new. -/
theorem mem_canonicalize (h : c ∈ canonicalize cs) : c ∈ cs := by
  have hsorted : c ∈ cs.mergeSort canonicalLe := by
    rw [canonicalize] at h
    cases hs : cs.mergeSort canonicalLe with
    | nil => simp [hs, dropRepeats] at h
    | cons a rest =>
      rw [hs, dropRepeats] at h
      rcases List.mem_cons.mp h with rfl | h
      · exact List.mem_cons_self
      · exact List.mem_cons_of_mem _ (mem_dropRepeatsOf h)
  exact (List.mergeSort_perm cs canonicalLe).mem_iff.mp hsorted

theorem exists_same_of_mem_dropRepeatsOf (kept : Constraint) (h : c ∈ cs) :
    ∃ d ∈ kept :: dropRepeats.dropRepeatsOf kept cs, c.same d = true := by
  induction cs generalizing kept with
  | nil => cases h
  | cons a as ih =>
    rw [dropRepeats.dropRepeatsOf]
    split
    · rename_i hsame
      rcases List.mem_cons.mp h with rfl | h
      · exact ⟨kept, List.mem_cons_self, hsame⟩
      · exact ih kept h
    · rcases List.mem_cons.mp h with rfl | h
      · exact ⟨c, List.mem_cons_of_mem _ List.mem_cons_self, same_refl c⟩
      · obtain ⟨d, hd, hsame⟩ := ih a h
        exact ⟨d, List.mem_cons_of_mem _ hd, hsame⟩

/-- Making a list canonical loses nothing but repeats. -/
theorem exists_same_of_mem (h : c ∈ cs) : ∃ d ∈ canonicalize cs, c.same d = true := by
  have hsorted : c ∈ cs.mergeSort canonicalLe :=
    (List.mergeSort_perm cs canonicalLe).mem_iff.mpr h
  rw [canonicalize]
  cases hs : cs.mergeSort canonicalLe with
  | nil => simp [hs] at hsorted
  | cons a rest =>
    rw [hs] at hsorted
    rw [dropRepeats]
    rcases List.mem_cons.mp hsorted with rfl | hrest
    · exact ⟨c, List.mem_cons_self, same_refl c⟩
    · exact exists_same_of_mem_dropRepeatsOf a hrest

/-- A test that does not tell equal shapes apart comes to the same for a canonical list. -/
theorem any_canonicalize {p : Constraint → Bool} (hp : ∀ a b, a.same b = true → p a = p b)
    (cs : List Constraint) : (canonicalize cs).any p = cs.any p := by
  rw [Bool.eq_iff_iff, List.any_eq_true, List.any_eq_true]
  constructor
  · rintro ⟨c, hc, hpc⟩
    exact ⟨c, mem_canonicalize hc, hpc⟩
  · rintro ⟨c, hc, hpc⟩
    obtain ⟨d, hd, hsame⟩ := exists_same_of_mem hc
    exact ⟨d, hd, hp c d hsame ▸ hpc⟩

theorem anyAccepts_canonicalize (cs : List Constraint) (v : Json) :
    anyAccepts (canonicalize cs) v = anyAccepts cs v := by
  rw [anyAccepts_eq_any, anyAccepts_eq_any]
  exact any_canonicalize (fun _ _ h => accepts_congr h v) cs

/-! ### Pairs of shapes -/

theorem mem_meetAll (h : c ∈ meetAll cs ds) : ∃ a ∈ cs, ∃ b ∈ ds, a.meet b = some c := by
  induction cs with
  | nil => simp [meetAll] at h
  | cons a as ih =>
    rw [meetAll] at h
    rcases List.mem_append.mp h with h | h
    · obtain ⟨b, hb, hmeet⟩ := List.mem_filterMap.mp h
      exact ⟨a, List.mem_cons_self, b, hb, hmeet⟩
    · obtain ⟨a', ha', hrest⟩ := ih h
      exact ⟨a', List.mem_cons_of_mem _ ha', hrest⟩

/-- What pairs of shapes have in common is tested pair by pair. -/
theorem any_meetAll (p : Constraint → Bool) (cs ds : List Constraint) :
    (meetAll cs ds).any p = cs.any fun c => ds.any fun d => (c.meet d).any p := by
  have hfilter : ∀ c : Constraint,
      (ds.filterMap fun d => c.meet d).any p = ds.any fun d => (c.meet d).any p := by
    intro c
    rw [List.any_filterMap]
    refine congrArg _ (funext fun d => ?_)
    cases c.meet d <;> rfl
  induction cs with
  | nil => rfl
  | cons c cs ih => rw [meetAll, List.any_append, hfilter, List.any_cons, ih]

/-- Whether a value has what two shapes have in common. -/
def commonAccepts (c d : Constraint) (v : Json) : Bool := (c.meet d).any (·.accepts v)

theorem commonAccepts_iff : commonAccepts c d v = true ↔ ∃ e, c.meet d = some e ∧
    e.accepts v = true := by
  rw [commonAccepts, Option.any_eq_true]

theorem anyAccepts_meetAll (cs ds : List Constraint) (v : Json) :
    anyAccepts (meetAll cs ds) v = cs.any fun c => ds.any fun d => commonAccepts c d v := by
  rw [anyAccepts_eq_any]
  exact any_meetAll _ cs ds

theorem meet_of_kind_ne (h : c.kind ≠ d.kind) : c.meet d = none := by
  unfold meet
  split <;> first | exact absurd rfl h | exact if_neg h

/-- Two list shapes have in common the lists of what their items have in common. -/
theorem meet_list (a b : Constraints) :
    (list a).meet (list b) =
      if (a.intersect b).isIncompatible then none else some (list (a.intersect b)) := by
  match a, b with
  | none, none | none, some [] | none, some (_ :: _) | some [], none | some (_ :: _), none => rfl
  | some a, some b =>
    rw [meet, Constraints.intersect]
    cases canonicalize (meetAll a b) <;> rfl

/-- How two shapes meet: pairs of one kind with parameters, two shapes of one kind without, or
shapes of different kinds. -/
inductive Pairing : Constraint → Constraint → Prop where
  | integer (lo hi lo' hi' : Option Int64) : Pairing (.integer lo hi) (.integer lo' hi')
  | float (lo hi lo' hi' : Option Double) : Pairing (.float lo hi) (.float lo' hi')
  | enumeration (a b : List String) : Pairing (.enumeration a) (.enumeration b)
  | object (a b : Option Json) : Pairing (.object a) (.object b)
  | list (a b : Constraints) : Pairing (.list a) (.list b)
  | nodeReference (a b : List String) : Pairing (.nodeReference a) (.nodeReference b)
  | bare {c : Constraint} (meet : c.meet c = some c) : Pairing c c
  | apart {c d : Constraint} (kind : c.kind ≠ d.kind) (meet : c.meet d = none) : Pairing c d

theorem pairing (c d : Constraint) : Pairing c d := by
  by_cases h : c.kind = d.kind
  · cases c <;> cases d <;> cases h <;> constructor
    all_goals rfl
  · exact .apart h (meet_of_kind_ne h)

end Constraint

/-! ### Classes of shapes -/

namespace Constraints

variable {P : Constraint → Prop} {a b : Constraints}

/-- All permitted shapes are in a class. -/
def Each (P : Constraint → Prop) (cs : Constraints) : Prop := ∀ l, cs = some l → ∀ c ∈ l, P c

theorem each_none : Each P none := nofun

theorem each_some {l : List Constraint} : Each P (some l) ↔ ∀ c ∈ l, P c := by
  constructor
  · exact fun h => h l rfl
  · rintro h l' hl
    cases hl
    exact h

/-- Equal constraints are identical if equal shapes of the class are. -/
theorem Each.eq_of_same (ha : Each P a) (hb : Each P b)
    (hP : Each (fun c => ∀ d, P c → P d → c.same d = true → c = d) a)
    (h : Constraints.same a b = true) : a = b := by
  match a, b with
  | none, none => rfl
  | some cs, some ds =>
    have hlist : cs = ds := Constraint.eq_of_sameList h fun c hc d hd =>
      each_some.mp hP c hc d (each_some.mp ha c hc) (each_some.mp hb d hd)
    rw [hlist]

/-- An intersection stays in a class that pairs of its shapes do not leave. -/
theorem Each.intersect (ha : Each P a) (hb : Each P b)
    (hP : Each (fun c => ∀ d e, P c → P d → c.meet d = some e → P e) a) :
    Each P (a.intersect b) := by
  match a, b with
  | none, b => exact hb
  | some a, none => exact ha
  | some a, some b =>
    refine each_some.mpr fun e he => ?_
    obtain ⟨c, hc, d, hd, hmeet⟩ := Constraint.mem_meetAll (Constraint.mem_canonicalize he)
    exact each_some.mp hP c hc d e (each_some.mp ha c hc) (each_some.mp hb d hd) hmeet

end Constraints

end Patchbay
