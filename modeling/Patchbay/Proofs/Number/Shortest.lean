import Patchbay.Number.Text
import Mathlib.Algebra.Order.Field.Power
import Mathlib.Data.Rat.Cast.Order
import Mathlib.Tactic.Linarith
import Mathlib.Tactic.Positivity
import Mathlib.Tactic.Ring

/-!
# The shortest decimal of a double

The reals that round to a double form an interval around it, and the intervals of neighbours have
an end in common (`Double.upperEnd_eq_lowerEnd_succ`). That end belongs to one of the two only, the
one with the even significand, so a real determines the double that it rounds to
(`Double.magnitude_eq_of_encloses`). The search for the shortest decimal does not fail, and what it
finds lies in the interval (`Double.encloses_shortest`).
-/

namespace Patchbay.Double

variable {d a b : Double} {tie : Tie} {e : Int} {n m : Nat}

/-! ### Powers as rationals -/

theorem cast_powTwo (e : Int) : (powTwo e : ℚ) = 2 ^ e * powTwo (-e) := by
  rw [powTwo, powTwo]
  rcases le_total 0 e with h | h
  · obtain ⟨k, rfl⟩ := Int.eq_ofNat_of_zero_le h
    simp
  · obtain ⟨k, hk⟩ := Int.eq_ofNat_of_zero_le (Int.neg_nonneg_of_nonpos h)
    obtain rfl : e = -(k : Int) := by omega
    simp

theorem cast_powTen (e : Int) : (powTen e : ℚ) = 10 ^ e * powTen (-e) := by
  rw [powTen, powTen]
  rcases le_total 0 e with h | h
  · obtain ⟨k, rfl⟩ := Int.eq_ofNat_of_zero_le h
    simp
  · obtain ⟨k, hk⟩ := Int.eq_ofNat_of_zero_le (Int.neg_nonneg_of_nonpos h)
    obtain rfl : e = -(k : Int) := by omega
    simp

theorem powTwo_pos (e : Int) : 0 < powTwo e := Nat.two_pow_pos _

theorem powTen_pos (e : Int) : 0 < powTen e := Nat.pow_pos (by decide)

/-! ### The ends of intervals -/

/-- The number of doublings of the finest grid. -/
def doublings (m : Nat) : Nat := m / leadingBit - 1

/-- The integer significand of a magnitude. -/
def significandOf (m : Nat) : Nat := if m < leadingBit then m else leadingBit + m % leadingBit

/-- The lower end of the interval of a magnitude, in quarters of the finest grid. -/
def lowerQuarters (m : Nat) : Nat :=
  (4 * significandOf m - if m % leadingBit = 0 ∧ 2 * leadingBit ≤ m then 1 else 2) *
    2 ^ doublings m

/-- The upper end of the interval of a magnitude, in quarters of the finest grid. -/
def upperQuarters (m : Nat) : Nat := (4 * significandOf m + 2) * 2 ^ doublings m

/-- Where the interval of a magnitude ends, that of the next one begins. -/
theorem upperQuarters_eq (m : Nat) : upperQuarters m = lowerQuarters (m + 1) := by
  rw [upperQuarters, lowerQuarters, doublings, doublings, significandOf, significandOf, leadingBit]
  by_cases hcarry : (m + 1) % 0x10000000000000 = 0
  · rcases Nat.lt_or_ge m 0x10000000000000 with hsub | hnormal
    · -- the first normal number is on the finest grid as well
      obtain rfl : m = 0xFFFFFFFFFFFFF := by omega
      rfl
    · rw [if_neg (by omega), if_neg (by omega), if_pos ⟨hcarry, by omega⟩,
        show (m + 1) / 0x10000000000000 - 1 = (m / 0x10000000000000 - 1) + 1 by
          omega, Nat.pow_succ,
        show m % 0x10000000000000 = 0xFFFFFFFFFFFFF by omega, hcarry]
      ring
  · rw [show (m + 1) / 0x10000000000000 = m / 0x10000000000000 by omega]
    simp only [hcarry, false_and, if_false]
    congr 1
    split_ifs <;> omega

theorem lowerQuarters_lt_succ (m : Nat) : lowerQuarters m < lowerQuarters (m + 1) := by
  rw [← upperQuarters_eq, lowerQuarters, upperQuarters]
  have hpos := Nat.two_pow_pos (doublings m)
  refine Nat.mul_lt_mul_of_pos_right ?_ hpos
  split_ifs <;> omega

theorem lowerQuarters_mono (h : m ≤ n) : lowerQuarters m ≤ lowerQuarters n := by
  induction n, h using Nat.le_induction with
  | base => exact Nat.le_refl _
  | succ n hn ih => exact Nat.le_trans ih (Nat.le_of_lt (lowerQuarters_lt_succ n))

/-- A quarter of the step of the finest grid. -/
def quarter : ℚ := 2 ^ (-1076 : Int)

theorem quarter_pos : 0 < quarter := zpow_pos two_pos _

/-- The reals that round to a double; the ends belong to an even significand. -/
def Encloses (d : Double) (x : ℚ) : Prop :=
  if d.significand % 2 = 0 then
    lowerQuarters d.magnitude * quarter ≤ x ∧ x ≤ upperQuarters d.magnitude * quarter
  else lowerQuarters d.magnitude * quarter < x ∧ x < upperQuarters d.magnitude * quarter

theorem Encloses.le {x : ℚ} (h : d.Encloses x) : lowerQuarters d.magnitude * quarter ≤ x ∧
    x ≤ upperQuarters d.magnitude * quarter := by
  rw [Encloses] at h
  split at h
  · exact h
  · exact ⟨le_of_lt h.1, le_of_lt h.2⟩

theorem significand_eq (d : Double) : d.significand = significandOf d.magnitude := rfl

theorem significandOf_mod_two (m : Nat) : significandOf m % 2 = m % 2 := by
  rw [significandOf, leadingBit]
  split <;> omega

/-- A number is in the intervals of two doubles only if they have one magnitude. -/
theorem magnitude_eq_of_encloses {x : ℚ} (ha : a.Encloses x) (hb : b.Encloses x) :
    a.magnitude = b.magnitude := by
  wlog hlt : a.magnitude < b.magnitude generalizing a b
  · rcases Nat.lt_or_eq_of_le (Nat.le_of_not_lt hlt) with h | h
    · exact (this hb ha h).symm
    · exact h.symm
  exfalso
  have hle : (lowerQuarters b.magnitude : ℚ) ≤ upperQuarters a.magnitude :=
    le_of_mul_le_mul_right (hb.le.1.trans ha.le.2) quarter_pos
  have hle : lowerQuarters b.magnitude ≤ lowerQuarters (a.magnitude + 1) := by
    rw [← upperQuarters_eq]
    exact_mod_cast hle
  -- the two are neighbours, and the number is the end that their intervals have in common
  have hnext : b.magnitude = a.magnitude + 1 := by
    by_contra hne
    have hlow := lowerQuarters_mono (show a.magnitude + 1 + 1 ≤ b.magnitude by omega)
    have hstep := lowerQuarters_lt_succ (a.magnitude + 1)
    omega
  have hends : (upperQuarters a.magnitude : ℚ) = lowerQuarters b.magnitude := by
    rw [upperQuarters_eq, hnext]
  have hx : x = upperQuarters a.magnitude * quarter :=
    le_antisymm ha.le.2 (hends ▸ hb.le.1)
  have haeven : a.significand % 2 = 0 := by
    by_contra hodd
    rw [Encloses, if_neg hodd] at ha
    exact absurd ha.2 (by rw [hx]; exact lt_irrefl _)
  have hbeven : b.significand % 2 = 0 := by
    by_contra hodd
    rw [Encloses, if_neg hodd] at hb
    exact absurd hb.1 (by rw [hx, hends]; exact lt_irrefl _)
  rw [significand_eq, significandOf_mod_two] at haeven hbeven
  omega

/-! ### Decimals in the interval -/

theorem exponent_sub_two (d : Double) : d.exponent - 2 = (doublings d.magnitude : Int) - 1076 := by
  rw [exponent, doublings, leadingBit]
  split <;> omega

/-- The binary grid of a double and a decimal grid, both as whole multiples of one part. -/
theorem cast_grid (d : Double) (e : Int) (k n : Nat) :
    ((k * (powTwo (d.exponent - 2) * powTen (-e)) : Nat) : ℚ) =
        k * 2 ^ doublings d.magnitude * quarter * (powTen (-e) * powTwo (-(d.exponent - 2))) ∧
      ((n * (powTen e * powTwo (-(d.exponent - 2))) : Nat) : ℚ) =
        n * 10 ^ e * (powTen (-e) * powTwo (-(d.exponent - 2))) := by
  have htwo : (2 : ℚ) ^ (d.exponent - 2) = 2 ^ doublings d.magnitude * quarter := by
    rw [exponent_sub_two, sub_eq_add_neg, zpow_add₀ two_ne_zero, zpow_natCast, quarter]
  constructor
  · push_cast
    rw [cast_powTwo (d.exponent - 2), htwo]
    ring
  · push_cast
    rw [cast_powTen e]
    ring

theorem cast_grid_le (d : Double) (e : Int) (k n : Nat) :
    k * (powTwo (d.exponent - 2) * powTen (-e)) ≤ n * (powTen e * powTwo (-(d.exponent - 2))) ↔
      (k * 2 ^ doublings d.magnitude * quarter : ℚ) ≤ n * 10 ^ e := by
  have hpos : (0 : ℚ) < powTen (-e) * powTwo (-(d.exponent - 2)) :=
    mul_pos (by exact_mod_cast powTen_pos _) (by exact_mod_cast powTwo_pos _)
  obtain ⟨hk, hn⟩ := cast_grid d e k n
  rw [← Nat.cast_le (α := ℚ), hk, hn, mul_le_mul_iff_left₀ hpos]

theorem cast_grid_ge (d : Double) (e : Int) (k n : Nat) :
    n * (powTen e * powTwo (-(d.exponent - 2))) ≤ k * (powTwo (d.exponent - 2) * powTen (-e)) ↔
      (n * 10 ^ e : ℚ) ≤ k * 2 ^ doublings d.magnitude * quarter := by
  have hpos : (0 : ℚ) < powTen (-e) * powTwo (-(d.exponent - 2)) :=
    mul_pos (by exact_mod_cast powTen_pos _) (by exact_mod_cast powTwo_pos _)
  obtain ⟨hk, hn⟩ := cast_grid d e k n
  rw [← Nat.cast_le (α := ℚ), hk, hn, mul_le_mul_iff_left₀ hpos]

/-- A multiple of a power of ten lies in the interval of a double. -/
def fits (d : Double) (e : Int) (n : Nat) : Bool :=
  if d.significand % 2 = 0 then
    d.roundingInterval.1 * (powTwo (d.exponent - 2) * powTen (-e)) ≤
        n * (powTen e * powTwo (-(d.exponent - 2))) ∧
      n * (powTen e * powTwo (-(d.exponent - 2))) ≤
        d.roundingInterval.2.2 * (powTwo (d.exponent - 2) * powTen (-e))
  else
    d.roundingInterval.1 * (powTwo (d.exponent - 2) * powTen (-e)) <
        n * (powTen e * powTwo (-(d.exponent - 2))) ∧
      n * (powTen e * powTwo (-(d.exponent - 2))) <
        d.roundingInterval.2.2 * (powTwo (d.exponent - 2) * powTen (-e))

theorem fits_iff : d.fits e n = true ↔ d.Encloses (n * 10 ^ e) := by
  have hlow : (d.roundingInterval.1 : ℚ) * 2 ^ doublings d.magnitude =
      lowerQuarters d.magnitude := by
    norm_cast
  have hhigh : (d.roundingInterval.2.2 : ℚ) * 2 ^ doublings d.magnitude =
      upperQuarters d.magnitude := by
    norm_cast
  rw [fits, Encloses]
  split
  · rw [decide_eq_true_eq, cast_grid_le, cast_grid_ge, hlow, hhigh]
  · rw [decide_eq_true_eq, ← not_le, ← not_le, cast_grid_le, cast_grid_ge, hlow, hhigh, not_le,
      not_le]

/-- The number in steps of a decimal grid, rounded down. -/
def floorOn (d : Double) (e : Int) : Nat :=
  d.roundingInterval.2.1 * (powTwo (d.exponent - 2) * powTen (-e)) /
    (powTen e * powTwo (-(d.exponent - 2)))

/-- On a decimal grid the two neighbours of the number are tried. -/
theorem nearestOnGrid_eq (tie : Tie) (d : Double) (e : Int) : ∃ (p : Prop) (_ : Decidable p),
    d.nearestOnGrid tie e = match d.fits e (d.floorOn e), d.fits e (d.floorOn e + 1) with
      | true, true => if p then some (d.floorOn e) else some (d.floorOn e + 1)
      | true, false => some (d.floorOn e)
      | false, true => some (d.floorOn e + 1)
      | false, false => none := ⟨_, _, rfl⟩

/-- What is found on a decimal grid lies in the interval. -/
theorem fits_of_nearestOnGrid (h : d.nearestOnGrid tie e = some n) : d.fits e n = true := by
  obtain ⟨p, _, hgrid⟩ := nearestOnGrid_eq tie d e
  rw [hgrid] at h
  split at h
  · split at h <;> exact Option.some_inj.mp h ▸ by assumption
  · exact Option.some_inj.mp h ▸ by assumption
  · exact Option.some_inj.mp h ▸ by assumption
  · cases h

/-- On a decimal grid that is finer than a quarter of the binary one something is found. -/
theorem exists_nearestOnGrid (hm : d.magnitude ≠ 0) (tie : Tie)
    (hfine : powTen e * powTwo (-(d.exponent - 2)) < powTwo (d.exponent - 2) * powTen (-e)) :
    ∃ n, d.nearestOnGrid tie e = some n := by
  have hfits : d.fits e (d.floorOn e) = true := by
    have hsig : d.significand ≠ 0 := by
      rw [significand, leadingBit]
      split <;> omega
    have hdown :=
      Nat.div_mul_le_self (d.roundingInterval.2.1 * (powTwo (d.exponent - 2) * powTen (-e)))
      (powTen e * powTwo (-(d.exponent - 2)))
    have hup :=
      Nat.lt_div_mul_add (a := d.roundingInterval.2.1 * (powTwo (d.exponent - 2) * powTen (-e)))
      (Nat.mul_pos (powTen_pos e) (powTwo_pos (-(d.exponent - 2))))
    have hlow : d.roundingInterval.1 + 1 ≤ d.roundingInterval.2.1 := by
      simp only [roundingInterval]
      split_ifs <;> omega
    have hhigh : d.roundingInterval.2.1 + 1 ≤ d.roundingInterval.2.2 := by
      simp only [roundingInterval]
      omega
    rw [← floorOn] at hdown hup
    rw [fits]
    generalize powTen e * powTwo (-(d.exponent - 2)) = step at *
    generalize powTwo (d.exponent - 2) * powTen (-e) = unit at *
    have hlow' := Nat.mul_le_mul_right unit hlow
    have hhigh' := Nat.mul_le_mul_right unit hhigh
    rw [Nat.add_mul] at hlow' hhigh'
    split <;> exact decide_eq_true (by constructor <;> omega)
  obtain ⟨p, _, hgrid⟩ := nearestOnGrid_eq tie d e
  rw [hgrid, hfits]
  cases d.fits e (d.floorOn e + 1) with
  | false => exact ⟨_, rfl⟩
  | true =>
    by_cases hp : p
    · exact ⟨_, if_pos hp⟩
    · exact ⟨_, if_neg hp⟩

/-! ### The search -/

theorem ten_pow_lt_two_pow {i j : Nat} (h : 10 * i < 3 * j) : 10 ^ i < 2 ^ j := by
  refine lt_of_pow_lt_pow_left₀ 3 (Nat.zero_le _) ?_
  calc (10 ^ i) ^ 3 = 1000 ^ i := by rw [← Nat.pow_mul, Nat.mul_comm, Nat.pow_mul]
    _ ≤ 1024 ^ i := Nat.pow_le_pow_left (by decide) i
    _ = 2 ^ (10 * i) := by rw [Nat.pow_mul]
    _ < 2 ^ (3 * j) := Nat.pow_lt_pow_right (by decide) h
    _ = (2 ^ j) ^ 3 := by rw [← Nat.pow_mul, Nat.mul_comm]

theorem two_pow_lt_ten_pow {i j : Nat} (h : 7 * j ≤ 23 * i) (hi : i ≠ 0) : 2 ^ j < 10 ^ i := by
  refine lt_of_pow_lt_pow_left₀ 7 (Nat.zero_le _) ?_
  calc (2 ^ j) ^ 7 = 2 ^ (7 * j) := by rw [← Nat.pow_mul, Nat.mul_comm]
    _ ≤ 2 ^ (23 * i) := Nat.pow_le_pow_right (by decide) h
    _ = 8388608 ^ i := by rw [Nat.pow_mul]
    _ < 10000000 ^ i := Nat.pow_lt_pow_left (by decide) hi
    _ = (10 ^ i) ^ 7 := by rw [← Nat.pow_mul, Nat.mul_comm, Nat.pow_mul]

/-- In the range of doubles a decimal grid is finer than a binary one as soon as its exponent says
so. -/
theorem powTen_mul_lt {x q : Int} (hx : 100000 * x ≤ 30103 * (q + 54) - 2100000) (hlow : -1130 ≤ q)
    (hhigh : q ≤ 1000) : powTen x * powTwo (-q) < powTwo q * powTen (-x) := by
  rw [powTen, powTwo, powTwo, powTen]
  rcases Int.lt_or_le x 0 with hneg | hnonneg
  · rw [Int.toNat_of_nonpos (Int.le_of_lt hneg), Nat.pow_eq, Nat.pow_zero, Nat.one_mul]
    have hten : 2 ^ (-q).toNat < 10 ^ (-x).toNat := two_pow_lt_ten_pow (by omega) (by omega)
    exact Nat.lt_of_lt_of_le hten (Nat.le_mul_of_pos_left _ (Nat.two_pow_pos _))
  · have htwo : 10 ^ x.toNat < 2 ^ q.toNat := ten_pow_lt_two_pow (by omega)
    rw [show (-q).toNat = 0 by omega, show (-x).toNat = 0 by omega]
    simpa using htwo

theorem shortestFrom_spec {fuel k : Nat} (hk : k < fuel)
    (h : ∃ n, d.nearestOnGrid tie (e - k) = some n) :
    ∃ n e', d.shortestFrom tie fuel e = (n, e') ∧ d.nearestOnGrid tie e' = some n := by
  induction fuel generalizing e k with
  | zero => cases hk
  | succ fuel ih =>
    rw [shortestFrom]
    split
    · rename_i n hn
      exact ⟨n, e, rfl, hn⟩
    · rename_i hnone
      cases k with
      | zero =>
        obtain ⟨n, hn⟩ := h
        rw [Int.natCast_zero, Int.sub_zero, hnone] at hn
        cases hn
      | succ k =>
        refine ih (Nat.lt_of_succ_lt_succ hk) ?_
        rwa [show e - 1 - (k : Int) = e - ((k + 1 : Nat) : Int) by omega]

/-- The search finds a decimal in the interval of the double. -/
theorem encloses_shortest (hm : d.magnitude ≠ 0) (tie : Tie) :
    d.Encloses ((d.shortest tie).1 * 10 ^ (d.shortest tie).2) := by
  let top : Int := ((d.significand.log2 : Int) + d.exponent) * 30103 / 100000 + 2
  have hsig : d.significand.log2 ≤ 52 := by
    have hrange : d.significand ≠ 0 ∧ d.significand < 2 ^ 53 := by
      rw [significand, leadingBit]
      split <;> omega
    exact Nat.le_of_lt_succ ((Nat.log2_lt hrange.1).mpr hrange.2)
  have hexp : -1074 ≤ d.exponent ∧ d.exponent ≤ 971 := by
    have hfinite := d.finite
    rw [exponent, leadingBit]
    split <;> omega
  have hfound : ∃ n, d.nearestOnGrid tie (top - (23 : Nat)) = some n := by
    refine exists_nearestOnGrid hm tie (powTen_mul_lt ?_ (by omega) (by omega))
    omega
  obtain ⟨n, e, heq, hn⟩ := shortestFrom_spec (show 23 < 24 by decide) hfound
  have hshortest : d.shortest tie = (n, e) := by
    rw [shortest, if_neg hm]
    exact heq
  rw [hshortest]
  exact fits_iff.mp (fits_of_nearestOnGrid hn)

theorem shortest_eq_zero_iff (tie : Tie) :
    ((d.shortest tie).1 * 10 ^ (d.shortest tie).2 : ℚ) = 0 ↔ d.magnitude = 0 := by
  constructor
  · intro h
    by_contra hm
    have hle := (encloses_shortest hm tie).le.1
    rw [h] at hle
    have hlow : lowerQuarters 1 ≤ lowerQuarters d.magnitude := lowerQuarters_mono (by omega)
    have hpos : (0 : ℚ) < lowerQuarters d.magnitude := by
      have hone : lowerQuarters 1 = 2 := rfl
      exact_mod_cast show 0 < lowerQuarters d.magnitude by omega
    exact absurd hle (not_le.mpr (mul_pos hpos quarter_pos))
  · intro h
    rw [shortest, if_pos h]
    simp

/-- Doubles of one sign with one shortest decimal are equal. -/
theorem eq_of_shortest {tie' : Tie} (hneg : a.negative = b.negative)
    (h : ((a.shortest tie).1 * 10 ^ (a.shortest tie).2 : ℚ) =
      (b.shortest tie').1 * 10 ^ (b.shortest tie').2) : a = b := by
  have hmagnitude : a.magnitude = b.magnitude := by
    by_cases hb : b.magnitude = 0
    · rw [(shortest_eq_zero_iff tie').mpr hb, shortest_eq_zero_iff] at h
      rw [h, hb]
    · have ha : a.magnitude ≠ 0 := fun ha => by
        rw [(shortest_eq_zero_iff tie).mpr ha, eq_comm, shortest_eq_zero_iff] at h
        exact hb h
      exact magnitude_eq_of_encloses (h ▸ encloses_shortest ha tie) (encloses_shortest hb tie')
  cases a
  cases b
  simp_all

end Patchbay.Double
