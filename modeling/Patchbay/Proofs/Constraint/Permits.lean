import Patchbay.Proofs.Constraint.Meet

/-!
# Values that an intersection permits

What has the common shape of two shapes has both (`accepts_of_common`), so an intersection permits
nothing that one of its sides refuses. The converse fails where shapes are told apart by more than
the values they accept: by the schema of objects, by the types of nodes, and inside lists. Kinds
without such shapes are *extensional*, and for them the converse holds, value by value
(`permitsAs_intersect`).
-/

namespace Patchbay

namespace Constraint

variable {α : Type} {le : α → α → Bool} {larger smaller : α → α → α} {lo hi lo' hi' : Option α}

/-! ### Ranges -/

/-- The larger and the smaller of two bounds, in an order. -/
structure Bounds (le : α → α → Bool) (larger smaller : α → α → α) : Prop where
  trans : ∀ {a b c}, le a b = true → le b c = true → le a c = true
  larger_le : ∀ a b c, le (larger a b) c = (le a c && le b c)
  le_smaller : ∀ a b c, le c (smaller a b) = (le c a && le c b)
  larger_assoc : ∀ a b c, larger (larger a b) c = larger a (larger b c)
  smaller_assoc : ∀ a b c, smaller (smaller a b) c = smaller a (smaller b c)

theorem bounds_int64 : Bounds (fun a b : Int64 => decide (a ≤ b)) max min := by
  have hmax : ∀ a b : Int64, max a b = if a ≤ b then b else a := fun _ _ => rfl
  have hmin : ∀ a b : Int64, min a b = if a ≤ b then a else b := fun _ _ => rfl
  constructor
  · intro a b c hab hbc
    simp only [decide_eq_true_eq] at *
    exact Int64.le_trans hab hbc
  all_goals
    simp only [hmax, hmin, Int64.le_iff_toInt_le]
    grind

theorem bounds_double : Bounds Double.le Double.max Double.min := by
  constructor
  · intro a b c hab hbc
    rw [Double.le_iff] at *
    omega
  · intro a b c
    simp only [Double.le, Double.rank_max]
    grind
  · intro a b c
    simp only [Double.le, Double.rank_min]
    grind
  all_goals
    simp only [Double.max, Double.min, Double.lt_iff]
    grind

/-- Whether a value lies between two bounds. -/
def within (le : α → α → Bool) (lo hi : Option α) (a : α) : Bool :=
  lo.all (le · a) && hi.all (le a)

/-- The lower bound does not lie above the upper one. -/
def uncrossed (le : α → α → Bool) (lo hi : Option α) : Bool := lo.all fun a => hi.all (le a)

theorem uncrossed_some (le : α → α → Bool) (a b : α) :
    uncrossed le (some a) (some b) = le a b := rfl

theorem all_tighter {pick : α → α → α} {p : α → Bool} (h : ∀ a b, p (pick a b) = (p a && p b))
    (x y : Option α) : (tighter pick x y).all p = (x.all p && y.all p) := by
  cases x <;> cases y <;> simp [tighter, h]

theorem within_tighter (h : Bounds le larger smaller) (a : α) :
    within le (tighter larger lo lo') (tighter smaller hi hi') a =
      (within le lo hi a && within le lo' hi' a) := by
  rw [within, all_tighter (p := (le · a)) fun _ _ => h.larger_le _ _ _,
    all_tighter fun _ _ => h.le_smaller _ _ _]
  simp only [within]
  ac_rfl

/-- Bounds with a value between them do not cross. -/
theorem uncrossed_of_within (h : Bounds le larger smaller) {a : α}
    (ha : within le lo hi a = true) :
    uncrossed le lo hi = true := by
  simp only [within, Bool.and_eq_true, Option.all_eq_true] at ha
  simp only [uncrossed, Option.all_eq_true]
  exact fun x hx y hy => h.trans (ha.1 x hx) (ha.2 y hy)

/-- Two pairs of bounds together cross when one lower bound lies above one upper bound. -/
theorem uncrossed_tighter (h : Bounds le larger smaller) :
    uncrossed le (tighter larger lo lo') (tighter smaller hi hi') =
      ((uncrossed le lo hi && uncrossed le lo' hi') &&
        (uncrossed le lo hi' && uncrossed le lo' hi)) := by
  have hhi : ∀ a, (tighter smaller hi hi').all (le a) = (hi.all (le a) && hi'.all (le a)) :=
    fun a => all_tighter (fun _ _ => h.le_smaller _ _ _) hi hi'
  cases lo <;> cases lo' <;> cases hi <;> cases hi' <;>
    simp [uncrossed, tighter, h.larger_le, h.le_smaller] <;> ac_rfl

/-- The shape of the values between two pairs of bounds, if the bounds do not cross. -/
def meetRange (mk : Option α → Option α → Constraint) (le : α → α → Bool)
    (larger smaller : α → α → α) (lo hi lo' hi' : Option α) : Option Constraint :=
  let minimum := tighter larger lo lo'
  let maximum := tighter smaller hi hi'
  if uncrossed le minimum maximum then some (mk minimum maximum) else none

theorem meetInt_eq (lo hi lo' hi' : Option Int64) :
    meetInt lo hi lo' hi' =
      meetRange .integer (fun a b => decide (a ≤ b)) max min lo hi lo' hi' := by
  rw [meetInt, meetRange]
  split
  · rename_i hlo hhi
    simp only [hlo, hhi, uncrossed_some, decide_eq_true_eq, ← Int64.not_lt, ite_not]
  · rename_i h
    rw [if_pos]
    simp only [uncrossed, Option.all_eq_true]
    exact fun a ha b hb => (h a b ha hb).elim

theorem meetFloat_eq (lo hi lo' hi' : Option Double) :
    meetFloat lo hi lo' hi' =
      meetRange .float Double.le Double.max Double.min lo hi lo' hi' := by
  have hlt : ∀ a b : Double, b.lt a = !a.le b := by
    intro a b
    simp only [Double.lt, Double.le, ← decide_not, Int.not_le]
  rw [meetFloat, meetRange]
  split
  · rename_i a b hlo hhi
    simp only [hlo, hhi, uncrossed_some, hlt]
    cases a.le b <;> rfl
  · rename_i h
    rw [if_pos]
    simp only [uncrossed, Option.all_eq_true]
    exact fun a ha b hb => (h a b ha hb).elim

/-- A value lies in the common range exactly when it lies in both. -/
theorem any_meetRange (h : Bounds le larger smaller) {mk : Option α → Option α → Constraint}
    {v : Json} {get : Option α} (hmk : ∀ lo hi, (mk lo hi).accepts v = get.any (within le lo hi)) :
    (meetRange mk le larger smaller lo hi lo' hi').any (·.accepts v) =
      ((mk lo hi).accepts v && (mk lo' hi').accepts v) := by
  rw [hmk, hmk, meetRange]
  cases get with
  | none =>
    split <;> simp [hmk]
  | some a =>
    have hwithin : within le (tighter larger lo lo') (tighter smaller hi hi') a =
        (within le lo hi a && within le lo' hi' a) := within_tighter h a
    simp only [Option.any_some, ← hwithin]
    split
    · rw [Option.any_some, hmk, Option.any_some]
    · rename_i hcrossed
      cases ha : within le (tighter larger lo lo') (tighter smaller hi hi') a with
      | false => rfl
      | true => exact absurd (uncrossed_of_within h ha) hcrossed

/-! ### Values of what two shapes have in common -/

variable {c d e : Constraint} {v : Json}

theorem isNull_eq_false (hv : v ≠ .null) : v.isNull = false := by
  cases v <;> first | rfl | exact absurd rfl hv

theorem commonAccepts_integer (hv : v ≠ .null) (lo hi lo' hi' : Option Int64) :
    commonAccepts (.integer lo hi) (.integer lo' hi') v =
      ((integer lo hi).accepts v && (integer lo' hi').accepts v) := by
  have hrange : ∀ lo hi, (integer lo hi).accepts v = v.int64?.any (withinInt lo hi) := by
    intro lo hi
    rw [accepts_integer, isNull_eq_false hv, Bool.false_or]
  rw [commonAccepts, meet, meetInt_eq]
  exact any_meetRange bounds_int64 hrange

theorem commonAccepts_float (hv : v ≠ .null) (lo hi lo' hi' : Option Double) :
    commonAccepts (.float lo hi) (.float lo' hi') v =
      ((float lo hi).accepts v && (float lo' hi').accepts v) := by
  have hrange : ∀ lo hi, (float lo hi).accepts v = v.double?.any (withinDouble lo hi) := by
    intro lo hi
    rw [accepts_float, isNull_eq_false hv, Bool.false_or]
  rw [commonAccepts, meet, meetFloat_eq]
  exact any_meetRange bounds_double hrange

theorem contains_commonOptions (a b : List String) (s : String) :
    (commonOptions a b).contains s = (a.contains s && b.contains s) := by
  rw [Bool.eq_iff_iff]
  simp [commonOptions, List.mem_filter]

theorem commonAccepts_enumeration (hv : v ≠ .null) (a b : List String) :
    commonAccepts (.enumeration a) (.enumeration b) v =
      ((enumeration a).accepts v && (enumeration b).accepts v) := by
  have hcommon : commonAccepts (.enumeration a) (.enumeration b) v =
      v.str?.any (commonOptions a b).contains := by
    rw [commonAccepts, meet, meetOptions]
    split
    · rename_i hempty
      rw [hempty]
      cases v.str? <;> rfl
    · rw [Option.any_some, accepts_enumeration, isNull_eq_false hv, Bool.false_or]
  rw [hcommon, accepts_enumeration, accepts_enumeration, isNull_eq_false hv]
  cases v.str? with
  | none => rfl
  | some s => exact contains_commonOptions a b s

/-- Kinds whose shapes are told apart by the values they accept. -/
def Kind.Extensional (k : Kind) : Prop := k ≠ .object ∧ k ≠ .list ∧ k ≠ .nodeReference

instance (k : Kind) : Decidable k.Extensional :=
  inferInstanceAs (Decidable (k ≠ .object ∧ k ≠ .list ∧ k ≠ .nodeReference))

/-- What two shapes of an extensional kind have in common is had by the values of both. -/
theorem commonAccepts_of_extensional (hc : c.kind.Extensional) (hkind : c.kind = d.kind)
    (hv : v ≠ .null) : commonAccepts c d v = (c.accepts v && d.accepts v) := by
  cases pairing c d with
  | integer lo hi lo' hi' => exact commonAccepts_integer hv lo hi lo' hi'
  | float lo hi lo' hi' => exact commonAccepts_float hv lo hi lo' hi'
  | enumeration a b => exact commonAccepts_enumeration hv a b
  | object => exact absurd rfl hc.1
  | list => exact absurd rfl hc.2.1
  | nodeReference => exact absurd rfl hc.2.2
  | bare hmeet => rw [commonAccepts, hmeet, Option.any_some, Bool.and_self]
  | apart hne => exact absurd hkind hne

theorem kind_of_meetRange {mk : Option α → Option α → Constraint} {k : Kind}
    (hmk : ∀ lo hi, (mk lo hi).kind = k)
    (h : meetRange mk le larger smaller lo hi lo' hi' = some e) : e.kind = k := by
  rw [meetRange] at h
  split at h
  · exact Option.some.inj h ▸ hmk _ _
  · cases h

/-- What two shapes have in common is of the kind of both. -/
theorem kind_of_meet (h : c.meet d = some e) : e.kind = c.kind ∧ e.kind = d.kind := by
  cases pairing c d with
  | integer =>
    rw [meet, meetInt_eq] at h
    have hkind := kind_of_meetRange (k := .integer) (fun _ _ => rfl) h
    exact ⟨hkind, hkind⟩
  | float =>
    rw [meet, meetFloat_eq] at h
    have hkind := kind_of_meetRange (k := .float) (fun _ _ => rfl) h
    exact ⟨hkind, hkind⟩
  | enumeration =>
    rw [meet, meetOptions] at h
    split at h <;> cases h
    exact ⟨rfl, rfl⟩
  | object =>
    rw [meet] at h
    unfold meetSchema at h
    split at h
    · cases h
      exact ⟨rfl, rfl⟩
    · cases h
      exact ⟨rfl, rfl⟩
    · split at h <;> cases h
      exact ⟨rfl, rfl⟩
  | nodeReference =>
    rw [meet] at h
    unfold meetTypes at h
    split at h
    · cases h
      exact ⟨rfl, rfl⟩
    · cases h
      exact ⟨rfl, rfl⟩
    · split at h <;> cases h
      exact ⟨rfl, rfl⟩
  | list =>
    rw [meet_list] at h
    split at h <;> cases h
    exact ⟨rfl, rfl⟩
  | bare hmeet =>
    rw [hmeet] at h
    cases h
    exact ⟨rfl, rfl⟩
  | apart _ hmeet =>
    rw [hmeet] at h
    cases h

/-! ### Every side has what is common -/

/-- An intersection permits what both sides permit, if their shapes have what they have in
common. -/
theorem accept_of_intersect {a b : Constraints}
    (h : ∀ cs, a = some cs → ∀ c ∈ cs, ∀ d v, commonAccepts c d v = true →
      c.accepts v = true ∧ d.accepts v = true)
    (hv : (a.intersect b).accept v = true) : a.accept v = true ∧ b.accept v = true := by
  match a, b with
  | none, b => exact ⟨rfl, hv⟩
  | some a, none => exact ⟨hv, rfl⟩
  | some a, some b =>
    have hcommon : anyAccepts (canonicalize (meetAll a b)) v = true := hv
    rw [anyAccepts_canonicalize, anyAccepts_meetAll, List.any_eq_true] at hcommon
    obtain ⟨c, hc, hcommon⟩ := hcommon
    obtain ⟨d, hd, hcommon⟩ := List.any_eq_true.mp hcommon
    have hboth := h a rfl c hc d v hcommon
    exact ⟨anyAccepts_iff.mpr ⟨c, hc, hboth.1⟩, anyAccepts_iff.mpr ⟨d, hd, hboth.2⟩⟩

theorem accepts_list_mono {a b : Constraints}
    (h : ∀ item, a.accept item = true → b.accept item = true)
    (hv : (list a).accepts v = true) : (list b).accepts v = true := by
  rw [accepts_list, Bool.or_eq_true, Option.any_eq_true] at hv ⊢
  refine hv.imp_right ?_
  rintro ⟨l, hl, hall⟩
  rw [List.all_eq_true] at hall
  exact ⟨l, hl, List.all_eq_true.mpr fun item hitem => h item (hall item hitem)⟩

/-- Objects and references to nodes are not told apart by the values they accept. -/
theorem accepts_eq_of_kind_eq (hc : c.kind = .object ∨ c.kind = .nodeReference)
    (h : c.kind = d.kind) (v : Json) : c.accepts v = d.accepts v := by
  rcases hc with hc | hc
  all_goals
    rw [hc] at h
    cases c <;> cases hc
    cases d <;> cases h
  · rw [accepts_object, accepts_object]
  · rw [accepts_nodeReference, accepts_nodeReference]

/-- A value of what two shapes have in common has both shapes. -/
theorem accepts_of_common (h : commonAccepts c d v = true) :
    c.accepts v = true ∧ d.accepts v = true := by
  induction c using inductionOn generalizing d v with
  | list items ih =>
    cases pairing (.list items) d with
    | list _ b =>
      rw [commonAccepts, meet_list] at h
      split at h
      · cases h
      · have hitems : ∀ item, Constraints.accept (Constraints.intersect items b) item = true →
            Constraints.accept items item = true ∧ b.accept item = true :=
          fun item => accept_of_intersect fun cs hcs c hc _ _ => ih cs hcs c hc
        exact ⟨accepts_list_mono (fun item hi => (hitems item hi).1) h,
          accepts_list_mono (fun item hi => (hitems item hi).2) h⟩
    | bare hmeet =>
      rw [commonAccepts, hmeet] at h
      exact ⟨h, h⟩
    | apart _ hmeet =>
      rw [commonAccepts, hmeet] at h
      cases h
  | other c hlist =>
    obtain ⟨e, hmeet, he⟩ := commonAccepts_iff.mp h
    obtain ⟨hec, hed⟩ := kind_of_meet hmeet
    by_cases hv : v = .null
    · rw [hv, accepts_null, accepts_null]
      exact ⟨rfl, rfl⟩
    · by_cases hext : c.kind.Extensional
      · rwa [commonAccepts_of_extensional hext (hec.symm.trans hed) hv, Bool.and_eq_true] at h
      · -- what is left are the two kinds that accept the same values under all parameters
        have hc : e.kind = .object ∨ e.kind = .nodeReference := by
          rw [hec]
          simp only [Kind.Extensional] at hext
          grind
        rw [← accepts_eq_of_kind_eq hc hec, ← accepts_eq_of_kind_eq hc hed]
        exact ⟨he, he⟩

/-! ### Kind by kind -/

/-- Whether a value has what two shapes have in common, as a shape of a given kind. -/
theorem any_meet_of_extensional {k : Kind} (hk : k.Extensional) (hv : v ≠ .null) :
    ((c.meet d).any fun e => e.kind = k && e.accepts v) =
      ((c.kind = k && c.accepts v) && (d.kind = k && d.accepts v)) := by
  by_cases hc : c.kind = k
  · by_cases hd : d.kind = k
    · have hcommon := commonAccepts_of_extensional (hc ▸ hk) (hc.trans hd.symm) hv
      have hkind : ∀ e ∈ c.meet d, e.kind = k := fun e he => (kind_of_meet he).1.trans hc
      simp only [hc, hd, decide_true, Bool.true_and, ← hcommon, commonAccepts]
      cases hmeet : c.meet d with
      | none => rfl
      | some e => simp [hkind e hmeet]
    · rw [meet_of_kind_ne fun h => hd (h ▸ hc)]
      simp [hd]
  · simp only [hc, decide_false, Bool.false_and, Option.any_eq_false]
    intro e he
    simp [(kind_of_meet he).1, hc]

end Constraint

namespace Constraints

theorem isIncompatible_iff {cs : Constraints} : cs.isIncompatible = true ↔ cs = some [] := by
  match cs with
  | none | some [] | some (_ :: _) => simp [isIncompatible]

/-- Whether constraints permit a value by a shape of one kind; absent constraints permit it at
every kind. -/
def permitsAs (cs : Constraints) (k : Constraint.Kind) (v : Json) : Bool :=
  cs.all fun l => l.any fun c => c.kind = k && c.accepts v

variable {a b : Constraints} {k : Constraint.Kind} {v : Json}

theorem accept_congr (h : Constraints.same a b = true) : a.accept v = b.accept v := by
  match a, b with
  | none, none => rfl
  | none, some _ | some _, none => simp [same] at h
  | some _, some _ => exact Constraint.anyAccepts_congr h v

theorem permitsAs_congr (h : Constraints.same a b = true) :
    a.permitsAs k v = b.permitsAs k v := by
  match a, b with
  | none, none => rfl
  | none, some _ | some _, none => simp [same] at h
  | some _, some _ =>
    refine Constraint.any_eq_of_sameList h fun c _ d hcd => ?_
    rw [Constraint.kind_eq_of_same hcd, Constraint.accepts_congr hcd]

theorem accept_of_permitsAs {cs : Constraints} (h : cs.permitsAs k v = true) :
    cs.accept v = true := by
  cases cs with
  | none => rfl
  | some l =>
    obtain ⟨c, hc, hp⟩ := List.any_eq_true.mp h
    rw [Bool.and_eq_true] at hp
    exact Constraint.anyAccepts_iff.mpr ⟨c, hc, hp.2⟩

theorem accept_of_accept_intersect (h : (a.intersect b).accept v = true) :
    a.accept v = true ∧ b.accept v = true :=
  Constraint.accept_of_intersect (fun _ _ _ _ _ _ => Constraint.accepts_of_common) h

/-- An intersection permits by an extensional kind just what both sides permit by it. -/
theorem permitsAs_intersect (hk : k.Extensional) (hv : v ≠ .null) :
    (a.intersect b).permitsAs k v = (a.permitsAs k v && b.permitsAs k v) := by
  match a, b with
  | none, b => rfl
  | some a, none => exact (Bool.and_true _).symm
  | some a, some b =>
    have hsame : ∀ c d : Constraint, c.same d = true →
        (c.kind = k && c.accepts v) = (d.kind = k && d.accepts v) := by
      intro c d h
      rw [Constraint.kind_eq_of_same h, Constraint.accepts_congr h]
    simp only [permitsAs, intersect, Option.all_some, Constraint.any_canonicalize hsame,
      Constraint.any_meetAll, Constraint.any_meet_of_extensional hk hv]
    rw [Bool.eq_iff_iff]
    simp only [Bool.and_eq_true, List.any_eq_true]
    constructor
    · rintro ⟨c, hc, d, hd, hpc, hpd⟩
      exact ⟨⟨c, hc, hpc⟩, d, hd, hpd⟩
    · rintro ⟨⟨c, hc, hpc⟩, d, hd, hpd⟩
      exact ⟨c, hc, d, hd, hpc, hpd⟩

/-- An intersection is sound: what it accepts (`Constraints.accept`), both sides accept. At every
extensional kind (`Constraint.Kind.Extensional`) it is exact. Bounds are finite doubles, and which
of the two zeros becomes a bound has no influence on what is permitted. -/
theorem intersect_sound_exact (a b : Constraints) (v : Json) :
    ((a.intersect b).accept v = true → a.accept v = true ∧ b.accept v = true) ∧
      ∀ k : Constraint.Kind, k.Extensional → v ≠ .null →
        ((a.intersect b).permitsAs k v = true ↔
          a.permitsAs k v = true ∧ b.permitsAs k v = true) := by
  refine ⟨accept_of_accept_intersect, fun k hk hv => ?_⟩
  rw [permitsAs_intersect hk hv, Bool.and_eq_true]

theorem intersect_sound_exact_range :
    let a : Constraints := some [.integer (some 0) (some 10), .string]
    let b : Constraints := some [.integer (some 5) none]
    (a.intersect b).permitsAs .integer (.int 7) = true ∧
      a.accept (.int 7) = true ∧ b.accept (.int 7) = true := by
  intro a b
  obtain ⟨hsound, hexact⟩ := intersect_sound_exact a b (.int 7)
  have hseven : (a.intersect b).permitsAs .integer (.int 7) = true :=
    (hexact .integer (by decide) nofun).mpr ⟨by decide, by decide⟩
  exact ⟨hseven, hsound (accept_of_permitsAs hseven)⟩

end Constraints

end Patchbay
