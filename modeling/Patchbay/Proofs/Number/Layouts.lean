import Patchbay.Proofs.Number.Shortest

/-!
# What the text of a double says

A layout writes a decimal as digits, with a point among them or without, and perhaps an exponent.
Its value can be read off these parts (`Double.Layout.write_eq`), and the parts off the text. So a
double is determined by its text and its sign (`Double.eq_of_render`).
-/

namespace Patchbay

/-! ### Texts -/

/-- A text is cut in one way before the first character without a property. -/
theorem eq_of_append_eq {p : Char → Prop} {cs ds us vs : List Char} (hcs : ∀ c ∈ cs, p c)
    (hds : ∀ c ∈ ds, p c)
    (hus : ∀ c ∈ us.head?, ¬ p c) (hvs : ∀ c ∈ vs.head?, ¬ p c) (h : cs ++ us = ds ++ vs) :
    cs = ds ∧ us = vs := by
  induction cs generalizing ds with
  | nil =>
    cases ds with
    | nil => exact ⟨rfl, h⟩
    | cons d ds =>
      rw [List.nil_append] at h
      exact absurd (hds d List.mem_cons_self) (hus d (h ▸ rfl))
  | cons c cs ih =>
    cases ds with
    | nil =>
      rw [List.nil_append] at h
      exact absurd (hcs c List.mem_cons_self) (hvs c (h ▸ rfl))
    | cons d ds =>
      obtain ⟨rfl, hrest⟩ := List.cons.inj h
      obtain ⟨rfl, rfl⟩ := ih (fun x hx => hcs x (List.mem_cons_of_mem _ hx))
        (fun x hx => hds x (List.mem_cons_of_mem _ hx)) hrest
      exact ⟨rfl, rfl⟩

theorem digitChar_inj : ∀ i < 16, ∀ j < 16, i.digitChar = j.digitChar → i = j := by decide

/-- Digits tell a number. -/
theorem toDigits_inj {b : Nat} (hb : 1 < b) (hb' : b ≤ 16) {m n : Nat}
    (h : Nat.toDigits b m = Nat.toDigits b n) :
    m = n := by
  have hlt : ∀ {i}, i < b → i < 16 := fun hi => Nat.lt_of_lt_of_le hi hb'
  have hmod : ∀ k, k % b < b := fun k => Nat.mod_lt k (by omega)
  have hne : ∀ {i k}, i < b → b ≤ k → Nat.toDigits b i ≠ Nat.toDigits b k := by
    intro i k hi hk heq
    rw [Nat.toDigits_of_lt_base hi, Nat.toDigits_of_base_le hb hk] at heq
    have hlength := congrArg List.length heq
    rw [List.length_singleton, List.length_append, List.length_singleton] at hlength
    have hpos := Nat.length_toDigits_pos (b := b) (n := k / b)
    omega
  induction m using Nat.strongRecOn generalizing n with
  | ind m ih =>
    by_cases hm : m < b <;> by_cases hn : n < b
    · rw [Nat.toDigits_of_lt_base hm, Nat.toDigits_of_lt_base hn, List.singleton_inj] at h
      exact digitChar_inj m (hlt hm) n (hlt hn) h
    · exact absurd h (hne hm (Nat.le_of_not_lt hn))
    · exact absurd h.symm (hne hn (Nat.le_of_not_lt hm))
    · rw [Nat.toDigits_of_base_le hb (Nat.le_of_not_lt hm),
        Nat.toDigits_of_base_le hb (Nat.le_of_not_lt hn)] at h
      obtain ⟨hrest, hlast⟩ := List.append_inj' h rfl
      have hdiv : m / b = n / b := ih (m / b) (Nat.div_lt_self (by omega) hb) hrest
      have hlow : m % b = n % b :=
        digitChar_inj _ (hlt (hmod m)) _ (hlt (hmod n)) (List.singleton_inj.mp hlast)
      rw [← Nat.div_add_mod m b, ← Nat.div_add_mod n b, hdiv, hlow]

end Patchbay

namespace Patchbay.Double

variable {n : Nat} {e : Int} {l : Layout}

/-! ### Digits with a point -/

/-- The value of digits with a point among them. -/
def pointed (cs : List Char) : ℚ :=
  Nat.ofDigitChars 10 (cs.filter (· ≠ '.')) 0 / 10 ^ ((cs.dropWhile (· ≠ '.')).length - 1)

/-- Digits of a number. -/
def Digital (cs : List Char) : Prop := ∀ c ∈ cs, c.isDigit = true

theorem digital_toDigits (n : Nat) : Digital (Nat.toDigits 10 n) :=
  fun _ hc => Nat.isDigit_of_mem_toDigits (by decide) (by decide) hc

theorem digital_replicate (n : Nat) : Digital (List.replicate n '0') := by
  intro c hc
  rw [List.eq_of_mem_replicate hc]
  rfl

theorem Digital.append {cs ds : List Char} (hc : Digital cs) (hd : Digital ds) :
    Digital (cs ++ ds) :=
  fun c h => (List.mem_append.mp h).elim (hc c) (hd c)

theorem Digital.ne {cs : List Char} (h : Digital cs) {c x : Char} (hc : c ∈ cs)
    (hx : x.isDigit = false) :
    c ≠ x := by
  rintro rfl
  rw [h c hc] at hx
  cases hx

theorem Digital.filter_eq {cs : List Char} (h : Digital cs) : cs.filter (· ≠ '.') = cs :=
  List.filter_eq_self.mpr fun _ hc => decide_eq_true (h.ne hc rfl)

theorem pointed_whole {cs : List Char} (h : Digital cs) :
    pointed cs = Nat.ofDigitChars 10 cs 0 := by
  have hdrop : (cs ++ []).dropWhile (· ≠ '.') = [] :=
    List.dropWhile_append_of_pos fun _ hc => decide_eq_true (h.ne hc rfl)
  rw [List.append_nil] at hdrop
  rw [pointed, h.filter_eq, hdrop]
  simp

theorem pointed_point {cs ds : List Char} (hc : Digital cs) (hd : Digital ds) :
    pointed (cs ++ '.' :: ds) = Nat.ofDigitChars 10 (cs ++ ds) 0 / 10 ^ ds.length := by
  have hdrop : (cs ++ '.' :: ds).dropWhile (· ≠ '.') = '.' :: ds := by
    rw [List.dropWhile_append_of_pos fun _ hmem => decide_eq_true (hc.ne hmem rfl)]
    rfl
  have hfilter : (cs ++ '.' :: ds).filter (· ≠ '.') = cs ++ ds := by
    rw [List.filter_append, hc.filter_eq, List.filter_cons_of_neg (by simp), hd.filter_eq]
  rw [pointed, hfilter, hdrop, List.length_cons, Nat.add_sub_cancel]

/-- Zeros behind digits make a number larger. -/
theorem pointed_zeros {cs : List Char} (h : Digital cs) (k : Nat) :
    pointed ((cs ++ List.replicate k '0') ++ '.' :: List.replicate 1 '0') =
    Nat.ofDigitChars 10 cs 0 * 10 ^ k := by
  rw [pointed_point (h.append (digital_replicate k)) (digital_replicate 1),
    Nat.ofDigitChars_append,
    Nat.ofDigitChars_append, Nat.ofDigitChars_replicate_zero, Nat.ofDigitChars_replicate_zero,
    List.length_replicate]
  push_cast
  ring

/-- Zeros between the point and digits make a number smaller. -/
theorem pointed_zero_point {cs : List Char} (h : Digital cs) (k : Nat) :
    pointed (List.replicate 1 '0' ++ '.' :: (List.replicate k '0' ++ cs)) =
      Nat.ofDigitChars 10 cs 0 / 10 ^ (k + cs.length) := by
  have hzero : Nat.ofDigitChars 10 (List.replicate 1 '0' ++ List.replicate k '0') 0 = 0 := by
    rw [Nat.ofDigitChars_append, Nat.ofDigitChars_replicate_zero, Nat.ofDigitChars_replicate_zero]
    simp
  rw [pointed_point (digital_replicate 1) ((digital_replicate k).append h), ← List.append_assoc,
    Nat.ofDigitChars_append, hzero, List.length_append, List.length_replicate]

/-! ### Parts of a text -/

/-- The text of an exponent; nothing where none is written. -/
def Layout.exponentText (l : Layout) : Option Int → List Char
  | none => []
  | some x => 'e' :: ((if 0 ≤ x then l.positiveSign else "") ++ toString x).toList

/-- Whole numbers end in a point and a zero, and exponents are signed as usual. -/
structure Layout.Plain (l : Layout) : Prop where
  suffix : l.wholeSuffix = ".0"
  sign : l.positiveSign = "" ∨ l.positiveSign = "+"

theorem plain_json : Layout.json.Plain := ⟨rfl, .inr rfl⟩

theorem plain_rendering : Layout.rendering.Plain := ⟨rfl, .inl rfl⟩

theorem mul_zpow_of_nonpos (x : ℚ) (h : e ≤ 0) : x * 10 ^ e = x / 10 ^ (-e).toNat := by
  obtain ⟨k, hk⟩ := Int.eq_ofNat_of_zero_le (Int.neg_nonneg_of_nonpos h)
  obtain rfl : e = -(k : Int) := by omega
  rw [zpow_neg, zpow_natCast, div_eq_mul_inv, Int.neg_neg, Int.toNat_natCast]

/-- Digits and points. -/
def Spelled (cs : List Char) : Prop := ∀ c ∈ cs, c.isDigit = true ∨ c = '.'

theorem Digital.spelled {cs : List Char} (h : Digital cs) : Spelled cs := fun c hc => .inl (h c hc)

theorem Digital.spelled_point {cs ds : List Char} (hc : Digital cs) (hd : Digital ds) :
    Spelled (cs ++ '.' :: ds) := by
  intro c hmem
  rcases List.mem_append.mp hmem with hmem | hmem
  · exact .inl (hc c hmem)
  · rcases List.mem_cons.mp hmem with rfl | hmem
    · exact .inr rfl
    · exact .inl (hd c hmem)

theorem Digital.take {cs : List Char} (h : Digital cs) (k : Nat) : Digital (cs.take k) :=
  fun c hc => h c (List.mem_of_mem_take hc)

theorem Digital.drop {cs : List Char} (h : Digital cs) (k : Nat) : Digital (cs.drop k) :=
  fun c hc => h c (List.mem_of_mem_drop hc)

/-- A decimal is written as digits and perhaps a point, with an exponent where there is none, which
have its value. -/
theorem Layout.write_eq (hl : l.Plain) (n : Nat) (e : Int) : ∃ cs p,
    (l.write n e).toList = cs ++ l.exponentText p ∧ Spelled cs ∧ (p = none → '.' ∈ cs) ∧
      (n * 10 ^ e : ℚ) = pointed cs * 10 ^ p.getD 0 := by
  have hd := digital_toDigits n
  have hne : Nat.toDigits 10 n ≠ [] := Nat.toDigits_ne_nil
  have hvalue : Nat.ofDigitChars 10 (Nat.toDigits 10 n) 0 = n := Nat.ofDigitChars_ten_toDigits
  generalize hds : Nat.toDigits 10 n = ds at hd hvalue hne
  have hrepr : n.repr.toList = ds := by rw [Nat.toList_repr, hds]
  have hlength : n.repr.length = ds.length := by rw [← hrepr, String.length_toList]
  rw [write]
  dsimp only
  rw [hlength]
  split
  · split
    · -- a whole number
      rename_i hnonneg
      obtain ⟨k, rfl⟩ := Int.eq_ofNat_of_zero_le hnonneg
      refine ⟨(ds ++ List.replicate k '0') ++ '.' :: List.replicate 1 '0', none, ?_,
        (hd.append (digital_replicate k)).spelled_point (digital_replicate 1),
        fun _ => List.mem_append_cons_self, ?_⟩
      · simp [zeros, hl.suffix, hrepr, exponentText]
      · rw [pointed_zeros hd, hvalue, Option.getD_none, zpow_zero, mul_one, zpow_natCast]
    · rename_i hneg
      split
      · -- the point is among the digits
        rename_i hpoint
        obtain ⟨k, hk⟩ := Int.eq_ofNat_of_zero_le (Int.le_of_lt hpoint)
        have hlen : (ds.drop k).length = (-e).toNat := by
          rw [List.length_drop]
          omega
        refine ⟨ds.take k ++ '.' :: ds.drop k, none, ?_, (hd.take k).spelled_point (hd.drop k),
          fun _ => List.mem_append_cons_self, ?_⟩
        · simp [hrepr, exponentText, hk]
        · rw [pointed_point (hd.take k) (hd.drop k), List.take_append_drop, hvalue, hlen,
            Option.getD_none, zpow_zero, mul_one, mul_zpow_of_nonpos _ (by omega)]
      · -- zeros follow the point
        rename_i hpoint
        have hzeros := digital_replicate (-((ds.length : Int) + e)).toNat
        refine ⟨List.replicate 1 '0' ++ '.' ::
          (List.replicate (-((ds.length : Int) + e)).toNat '0' ++ ds), none, ?_,
          (digital_replicate 1).spelled_point (hzeros.append hd),
          fun _ => List.mem_append_cons_self, ?_⟩
        · simp [zeros, hrepr, exponentText]
        · have hlen : (-((ds.length : Int) + e)).toNat + ds.length = (-e).toNat := by omega
          rw [pointed_zero_point hd, hlen, hvalue, Option.getD_none, zpow_zero, mul_one,
            mul_zpow_of_nonpos _ (by omega)]
  · -- one digit stands before the point
    obtain ⟨c, cs, rfl⟩ := List.exists_cons_of_ne_nil hne
    obtain ⟨k, hk⟩ : ∃ k, k = cs.length := ⟨_, rfl⟩
    have hlen : ((c :: cs).length : Int) + e = (k : Int) + e + 1 := by
      rw [List.length_cons, ← hk]
      omega
    have htext : l.exponentText (some ((k : Int) + e)) =
        'e' :: ((if 0 < (k : Int) + e + 1 then l.positiveSign else "") ++ toString
          ((k : Int) + e)).toList := by
      rw [exponentText]
      congr 4
      exact propext (by omega)
    have hscale : (10 : ℚ) ^ ((k : Int) + e) = 10 ^ k * 10 ^ e := by
      rw [zpow_add₀ (by norm_num), zpow_natCast]
    rw [hlen, Int.add_sub_cancel]
    cases cs with
    | nil =>
      refine ⟨[c], some ((k : Int) + e), ?_, hd.spelled, nofun, ?_⟩
      · rw [htext]
        simp [hrepr]
      · rw [pointed_whole hd, hvalue, Option.getD_some, hscale, hk]
        simp
    | cons c' cs =>
      refine ⟨[c] ++ '.' :: c' :: cs, some ((k : Int) + e), ?_,
        (hd.take 1).spelled_point (hd.drop 1), nofun, ?_⟩
      · rw [htext]
        simp [hrepr]
      · have hpointed : pointed ([c] ++ '.' :: c' :: cs) = Nat.ofDigitChars 10
            (c :: c' :: cs) 0 / 10 ^ k :=
          hk ▸ pointed_point (hd.take 1) (hd.drop 1)
        rw [hpointed, hvalue, Option.getD_some, hscale, ← mul_assoc,
          div_mul_cancel₀ _ (by positivity)]

/-! ### Parts read off a text -/

/-- What stands before the digits of an exponent. -/
def Layout.sign (l : Layout) (x : Int) : List Char :=
  if 0 ≤ x then l.positiveSign.toList else ['-']

theorem toList_toString_int (x : Int) :
    (toString x).toList = (if 0 ≤ x then [] else ['-']) ++ Nat.toDigits 10 x.natAbs := by
  have hrepr : toString x = x.repr := rfl
  rw [hrepr, Int.repr_eq_if]
  split
  · rename_i h
    have hpos : x.toNat = x.natAbs := by omega
    rw [Nat.toList_repr, hpos]
    rfl
  · rename_i h
    have hneg : (-x).toNat = x.natAbs := by omega
    rw [String.toList_append, Nat.toList_repr, hneg]
    rfl

theorem exponentText_some (l : Layout) (x : Int) :
    l.exponentText (some x) = 'e' :: (l.sign x ++ Nat.toDigits 10 x.natAbs) := by
  rw [Layout.exponentText, String.toList_append, toList_toString_int, Layout.sign]
  split <;> rfl

theorem head?_toDigits (n : Nat) : ∀ c ∈ (Nat.toDigits 10 n).head?, c.isDigit = true :=
  fun _ hc => digital_toDigits n _ (List.mem_of_mem_head? hc)

theorem iff_of_ite_eq {α : Type} {p q : Prop} [Decidable p] [Decidable q] {a b : α} (hne : a ≠ b)
    (h : (if p then a else b) = if q then a else b) : p ↔ q := by
  by_cases hp : p <;> by_cases hq : q <;> simp_all

/-- Signs and digits tell a whole number. -/
theorem eq_of_signed {g : Int → List Char} (hsign : ∀ x, ∀ c ∈ g x, ¬ c.isDigit = true)
    (hinj : ∀ x y : Int, g x = g y → (0 ≤ x ↔ 0 ≤ y)) {x y : Int}
    (h : g x ++ Nat.toDigits 10 x.natAbs = g y ++ Nat.toDigits 10 y.natAbs) : x = y := by
  obtain ⟨hsigns, hdigits⟩ := eq_of_append_eq (hsign x) (hsign y)
    (fun c hc => not_not_intro (head?_toDigits _ c hc))
    (fun c hc => not_not_intro (head?_toDigits _ c hc)) h
  have habs := toDigits_inj (by decide) (by decide) hdigits
  have hpos := hinj x y hsigns
  omega

theorem toString_int_inj {x y : Int} (h : (toString x).toList = (toString y).toList) : x = y := by
  rw [toList_toString_int, toList_toString_int] at h
  refine eq_of_signed (g := fun x => if 0 ≤ x then [] else ['-']) ?_ ?_ h
  · intro x c hc
    split at hc <;> simp_all
  · exact fun x y hxy => iff_of_ite_eq (List.cons_ne_nil _ _).symm hxy

theorem exponentText_injective (hl : l.Plain) : Function.Injective l.exponentText := by
  intro p q h
  cases p with
  | none =>
    cases q with
    | none => rfl
    | some y => simp [Layout.exponentText] at h
  | some x =>
    cases q with
    | none => simp [Layout.exponentText] at h
    | some y =>
      rw [exponentText_some, exponentText_some, List.cons_inj_right] at h
      refine congrArg _ (eq_of_signed (fun x c hc => ?_) (fun x y hxy => ?_) h)
      · rw [Layout.sign] at hc
        rcases hl.sign with hs | hs <;> rw [hs] at hc <;> split at hc <;> simp_all
      · refine iff_of_ite_eq ?_ hxy
        rcases hl.sign with hs | hs <;> rw [hs] <;> decide

theorem head?_exponentText (l : Layout) (p : Option Int) :
    ∀ c ∈ (l.exponentText p).head?, ¬(c.isDigit = true ∨ c = '.') := by
  cases p <;> simp [Layout.exponentText]

/-- The text of a decimal tells its value. -/
theorem eq_of_write (hl : l.Plain) {n n' : Nat} {e e' : Int}
    (h : (l.write n e).toList = (l.write n' e').toList) : (n * 10 ^ e : ℚ) = n' * 10 ^ e' := by
  obtain ⟨cs, p, htext, hcs, -, hvalue⟩ := Layout.write_eq hl n e
  obtain ⟨cs', p', htext', hcs', -, hvalue'⟩ := Layout.write_eq hl n' e'
  rw [htext, htext'] at h
  obtain ⟨rfl, hexponent⟩ := eq_of_append_eq hcs hcs' (head?_exponentText l p)
    (head?_exponentText l p') h
  obtain rfl := exponentText_injective hl hexponent
  rw [hvalue, hvalue']

theorem head?_write (hl : l.Plain) (n : Nat) (e : Int) : ∀ c ∈ (l.write n e).toList.head?,
    ¬ c = '-' := by
  obtain ⟨cs, p, htext, hcs, hpoint, -⟩ := Layout.write_eq hl n e
  rw [htext]
  cases cs with
  | nil => cases p <;> simp_all [Layout.exponentText]
  | cons c cs =>
    intro x hx
    obtain rfl : c = x := by simpa using hx
    rcases hcs c List.mem_cons_self with h | h
    · rintro rfl
      cases h
    · simp [h]

/-- Some character of a double is neither a digit nor a sign. -/
theorem exists_mem_write (hl : l.Plain) (n : Nat) (e : Int) :
    '.' ∈ (l.write n e).toList ∨ 'e' ∈ (l.write n e).toList := by
  obtain ⟨cs, p, htext, -, hpoint, -⟩ := Layout.write_eq hl n e
  rw [htext]
  cases p with
  | none => exact .inl (List.mem_append_left _ (hpoint rfl))
  | some x => exact .inr (List.mem_append_right _ (by simp [Layout.exponentText]))

theorem toList_render (l : Layout) (d : Double) : (d.render l).toList =
    (if d.negative then ['-'] else []) ++
    (l.write (d.shortest l.tie).1 (d.shortest l.tie).2).toList := by
  rw [render]
  dsimp only
  rw [String.toList_append]
  split <;> rfl

/-- The text of a double tells the double, zeros with their signs. -/
theorem eq_of_render (hl : l.Plain) {a b : Double}
    (h : (a.render l).toList = (b.render l).toList) : a = b := by
  rw [toList_render, toList_render] at h
  have hsign : ∀ d : Double, ∀ c ∈ (if d.negative then ['-'] else []), c = '-' := by
    intro d c hc
    split at hc <;> simp_all
  obtain ⟨hsigns, htexts⟩ :=
    eq_of_append_eq (hsign a) (hsign b) (head?_write hl _ _) (head?_write hl _ _) h
  have hneg : a.negative = b.negative :=
    Bool.eq_iff_iff.mpr (iff_of_ite_eq (List.cons_ne_nil _ _) hsigns)
  exact eq_of_shortest hneg (eq_of_write hl htexts)

/-! ### Characters of numbers -/

/-- A character that numbers are written with. -/
def Numeric (c : Char) : Prop := c.isDigit = true ∨ c = '.' ∨ c = 'e' ∨ c = '+' ∨ c = '-'

theorem isDigit_or_of_mem_toString {x : Int} {c : Char} (hc : c ∈ (toString x).toList) :
    c.isDigit = true ∨ c = '-' := by
  rw [toList_toString_int] at hc
  rcases List.mem_append.mp hc with hc | hc
  · split at hc <;> simp_all
  · exact .inl (digital_toDigits _ c hc)

theorem numeric_toString (x : Int) : ∀ c ∈ (toString x).toList, Numeric c := fun _ hc =>
  (isDigit_or_of_mem_toString hc).imp_right fun h => .inr (.inr (.inr h))

theorem numeric_exponentText (hl : l.Plain) (p : Option Int) : ∀ c ∈ l.exponentText p,
    Numeric c := by
  cases p with
  | none => exact fun _ hc => absurd hc List.not_mem_nil
  | some x =>
    rw [exponentText_some, List.forall_mem_cons, List.forall_mem_append]
    refine ⟨.inr (.inr (.inl rfl)), fun c hc => ?_, fun c hc => .inl (digital_toDigits _ c hc)⟩
    rw [Layout.sign] at hc
    rcases hl.sign with hs | hs <;> rw [hs] at hc <;> split at hc <;> simp_all [Numeric]

theorem numeric_render (hl : l.Plain) (d : Double) : ∀ c ∈ (d.render l).toList, Numeric c := by
  obtain ⟨cs, p, htext, hcs, -⟩ := Layout.write_eq hl (d.shortest l.tie).1 (d.shortest l.tie).2
  rw [toList_render, htext, List.forall_mem_append, List.forall_mem_append]
  refine ⟨fun c hc => ?_, fun c hc => (hcs c hc).imp_right .inl, numeric_exponentText hl p⟩
  split at hc <;> simp_all [Numeric]

/-- A double is never written as a whole number is. -/
theorem toString_ne_render (hl : l.Plain) (x : Int) (d : Double) :
    (toString x).toList ≠ (d.render l).toList := by
  intro h
  have hmem : '.' ∈ (toString x).toList ∨ 'e' ∈ (toString x).toList := by
    rw [h, toList_render]
    exact (exists_mem_write hl _ _).imp (List.mem_append_right _) (List.mem_append_right _)
  rcases hmem with hmem | hmem
  · exact absurd (isDigit_or_of_mem_toString hmem) (by decide)
  · exact absurd (isDigit_or_of_mem_toString hmem) (by decide)

end Patchbay.Double
