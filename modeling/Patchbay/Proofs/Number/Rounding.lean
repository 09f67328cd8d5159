import Patchbay.Number.Double
import Mathlib.Tactic.Ring

/-!
# Whole numbers as doubles

A whole number with `k + 1` binary digits goes to the grid with the step `2 ^ (k - 52)`, where
rounding to the nearest multiple does not change the order (`Double.roundMagnitude_one_mono`). Up
to `2 ^ 53` nothing is lost. Above, whole numbers next to each other may go to one double, but
those of 64 bits only when they are at most `1024` apart (`Double.near_of_roundMagnitude_one_eq`).
-/

namespace Patchbay.Double

/-! ### Rounding to the nearest multiple -/

theorem roundDiv_one (n : Nat) : roundDiv n 1 = n := by
  simp [roundDiv, Nat.mod_one]

theorem roundDiv_mono {a b : Nat} (h : a ≤ b) (den : Nat) : roundDiv a den ≤ roundDiv b den := by
  have hq : a / den ≤ b / den := Nat.div_le_div_right h
  have ha := Nat.div_add_mod a den
  have hb := Nat.div_add_mod b den
  unfold roundDiv
  dsimp only
  rcases Nat.lt_or_eq_of_le hq with hlt | heq
  · split_ifs <;> omega
  · rw [heq] at ha ⊢
    have hr : a % den ≤ b % den := by omega
    split_ifs <;> omega

/-- The nearest multiple is at most half a step away. -/
theorem roundDiv_bounds (num : Nat) {den : Nat} (hden : 0 < den) :
    2 * (den * roundDiv num den) ≤ 2 * num + den ∧ 2 * num ≤ 2 * (den * roundDiv num den) +
    den := by
  have hnum := Nat.div_add_mod num den
  have hr := Nat.mod_lt num hden
  unfold roundDiv
  dsimp only
  split_ifs with hlow hhigh
  · omega
  · rw [Nat.mul_add, Nat.mul_one]
    omega
  · rcases Nat.mod_two_eq_zero_or_one (num / den) with hpar | hpar <;> rw [hpar, Nat.mul_add] <;>
      omega

/-- A multiple of the step is rounded to itself. -/
theorem roundDiv_mul (q : Nat) {den : Nat} (hden : 0 < den) : roundDiv (den * q) den = q := by
  simp [roundDiv, hden]

/-! ### The grid of a whole number -/

variable {n m : Nat}

/-- The whole number in steps of its grid. -/
def gridded (n : Nat) : Nat := roundDiv (n * 2 ^ (52 - n.log2)) (2 ^ (n.log2 - 52))

theorem two_pow_log2_mul (k : Nat) : 2 ^ k * 2 ^ (52 - k) = 2 ^ (k - 52) * leadingBit := by
  rw [show leadingBit = 2 ^ 52 from rfl, ← Nat.pow_add, ← Nat.pow_add]
  congr 1
  omega

theorem powTwo_sub (k : Nat) : powTwo ((k : Int) - 52) = 2 ^ (k - 52) := by
  rw [powTwo, show ((k : Int) - 52).toNat = k - 52 by omega]
  rfl

theorem powTwo_neg_sub (k : Nat) : powTwo (-((k : Int) - 52)) = 2 ^ (52 - k) := by
  rw [powTwo, show (-((k : Int) - 52)).toNat = 52 - k by omega]
  rfl

theorem gridExponent_one (hn : n ≠ 0) : gridExponent n 1 = (n.log2 : Int) - 52 := by
  have hone : Nat.log2 1 = 0 := rfl
  have hnot : ¬ n * 2 ^ (52 - n.log2) < 1 * leadingBit * 2 ^ (n.log2 - 52) := by
    rw [Nat.not_lt, Nat.one_mul, Nat.mul_comm leadingBit, ← two_pow_log2_mul]
    exact Nat.mul_le_mul_right _ (Nat.log2_self_le hn)
  rw [gridExponent, hone]
  simp only [Int.ofNat_zero, Int.sub_zero, powTwo_sub, powTwo_neg_sub, if_neg hnot]
  omega

theorem roundMagnitude_one (hn : n ≠ 0) :
    roundMagnitude n 1 = (n.log2 + 1022) * leadingBit + gridded n := by
  have hexp : ((n.log2 : Int) - 52 + 1074).toNat = n.log2 + 1022 := by omega
  rw [roundMagnitude, if_neg hn]
  dsimp only
  rw [gridExponent_one hn, hexp, powTwo_sub, powTwo_neg_sub, Nat.one_mul, gridded]

/-- On its grid a whole number has 53 binary digits, or is the next power of two. -/
theorem gridded_bounds (hn : n ≠ 0) : leadingBit ≤ gridded n ∧ gridded n ≤ 2 * leadingBit := by
  have hden : 0 < 2 ^ (n.log2 - 52) := Nat.two_pow_pos _
  have hlow : 2 ^ (n.log2 - 52) * leadingBit ≤ n * 2 ^ (52 - n.log2) := by
    rw [← two_pow_log2_mul]
    exact Nat.mul_le_mul_right _ (Nat.log2_self_le hn)
  have hhigh : n * 2 ^ (52 - n.log2) ≤ 2 ^ (n.log2 - 52) * (2 * leadingBit) := by
    rw [Nat.mul_left_comm, ← two_pow_log2_mul, ← Nat.mul_assoc, ← Nat.pow_succ']
    exact Nat.mul_le_mul_right _ (Nat.le_of_lt Nat.lt_log2_self)
  constructor
  · rw [← roundDiv_mul leadingBit hden]
    exact roundDiv_mono hlow _
  · rw [← roundDiv_mul (2 * leadingBit) hden]
    exact roundDiv_mono hhigh _

theorem log2_mono (hn : n ≠ 0) (h : n ≤ m) : n.log2 ≤ m.log2 :=
  (Nat.le_log2 (by omega)).mpr (Nat.le_trans (Nat.log2_self_le hn) h)

/-- Rounding keeps the order of whole numbers. -/
theorem roundMagnitude_one_mono (h : n ≤ m) : roundMagnitude n 1 ≤ roundMagnitude m 1 := by
  rcases Nat.eq_zero_or_pos n with rfl | hpos
  · exact Nat.zero_le _
  have hn : n ≠ 0 := Nat.ne_of_gt hpos
  have hm : m ≠ 0 := Nat.ne_of_gt (Nat.lt_of_lt_of_le hpos h)
  have hbn := gridded_bounds hn
  have hbm := gridded_bounds hm
  rw [roundMagnitude_one hn, roundMagnitude_one hm]
  rcases Nat.lt_or_eq_of_le (log2_mono hn h) with hlt | heq
  · -- the larger one is on a coarser grid, and starts there where the finer one ends
    have hstep : (n.log2 + 1 + 1022) * leadingBit ≤ (m.log2 + 1022) * leadingBit :=
      Nat.mul_le_mul_right _ (by omega)
    rw [Nat.add_right_comm, Nat.add_mul] at hstep
    omega
  · rw [gridded, gridded, heq]
    exact Nat.add_le_add_left (roundDiv_mono (Nat.mul_le_mul_right _ h) _) _

/-- What is no coarser than whole numbers loses nothing. -/
theorem gridded_of_log2_le (h : n.log2 ≤ 52) : gridded n = n * 2 ^ (52 - n.log2) := by
  rw [gridded, Nat.sub_eq_zero_of_le h, Nat.pow_zero, roundDiv_one]

theorem gridded_of_le_log2 (h : 52 ≤ n.log2) : gridded n = roundDiv n (2 ^ (n.log2 - 52)) := by
  rw [gridded, Nat.sub_eq_zero_of_le h, Nat.pow_zero, Nat.mul_one]

/-- Two whole numbers of one double are on one grid at one place, or on either side of a power of
two. -/
theorem gridded_of_roundMagnitude_one_eq (hn : n ≠ 0) (h : n ≤ m)
    (heq : roundMagnitude n 1 = roundMagnitude m 1) : n.log2 = m.log2 ∧ gridded n = gridded m ∨
      n.log2 + 1 = m.log2 ∧ gridded n = 2 * leadingBit ∧ gridded m = leadingBit := by
  have hm : m ≠ 0 := by omega
  have hbn := gridded_bounds hn
  have hbm := gridded_bounds hm
  have hlog := log2_mono hn h
  rw [roundMagnitude_one hn, roundMagnitude_one hm] at heq
  obtain ⟨d, hd⟩ := Nat.exists_eq_add_of_le hlog
  rw [hd, Nat.add_right_comm, Nat.add_mul (n.log2 + 1022)] at heq
  rw [leadingBit] at *
  rcases d with _ | _ | d
  · exact .inl ⟨hd.symm, by omega⟩
  · exact .inr ⟨hd.symm, by omega, by omega⟩
  · omega

/-- A whole number that does not stay below the next power of two is past `2 ^ 53`. -/
theorem le_log2_of_gridded_eq (h : gridded n = 2 * leadingBit) : 53 ≤ n.log2 := by
  by_contra hlt
  have hle : n.log2 ≤ 52 := by omega
  have hself : n < 2 ^ (n.log2 + 1) := Nat.lt_log2_self
  rw [gridded_of_log2_le hle, Nat.mul_comm 2, show leadingBit = 2 ^ 52 from rfl,
    ← Nat.pow_succ] at h
  have hlt : n * 2 ^ (52 - n.log2) < 2 ^ (n.log2 + 1) * 2 ^ (52 - n.log2) :=
    Nat.mul_lt_mul_of_pos_right hself (Nat.two_pow_pos _)
  rw [h, ← Nat.pow_add, show n.log2 + 1 + (52 - n.log2) = 52 + 1 by omega] at hlt
  exact Nat.lt_irrefl _ hlt

/-- Different whole numbers of 64 bits that go to one double are large and near each other. -/
theorem near_of_roundMagnitude_one_eq (hlt : n < m) (hm : m ≤ 2 ^ 63)
    (heq : roundMagnitude n 1 = roundMagnitude m 1) : 2 ^ 53 ≤ n ∧ m ≤ n + 1024 := by
  rcases Nat.eq_zero_or_pos n with rfl | hpos
  · have hbm := gridded_bounds (Nat.ne_of_gt hlt)
    rw [roundMagnitude_one (Nat.ne_of_gt hlt)] at heq
    rw [show roundMagnitude 0 1 = 0 from rfl, leadingBit] at *
    omega
  have hn : n ≠ 0 := Nat.ne_of_gt hpos
  have hm0 : m ≠ 0 := by omega
  have hstep : 0 < 2 ^ (n.log2 - 52) := Nat.two_pow_pos _
  have hlown := Nat.log2_self_le hn
  have hlowm := Nat.log2_self_le hm0
  rcases gridded_of_roundMagnitude_one_eq hn (Nat.le_of_lt hlt) heq with
    ⟨hlog, hgrid⟩ | ⟨hlog, hgn, hgm⟩
  · have hlarge : 53 ≤ n.log2 := by
      by_contra hsmall
      have hle : n.log2 ≤ 52 := by omega
      rw [gridded_of_log2_le hle, gridded_of_log2_le (hlog ▸ hle), ← hlog] at hgrid
      exact Nat.ne_of_lt hlt (Nat.eq_of_mul_eq_mul_right (Nat.two_pow_pos _) hgrid)
    have hlog62 : n.log2 ≤ 62 := by
      have hpow : 2 ^ n.log2 < 2 ^ 63 := by omega
      exact Nat.le_of_lt_succ ((Nat.pow_lt_pow_iff_right (by omega)).mp hpow)
    have hpast : 2 ^ 53 ≤ 2 ^ n.log2 := Nat.pow_le_pow_right (by omega) hlarge
    have hstep' : 2 ^ (n.log2 - 52) ≤ 2 ^ 10 := Nat.pow_le_pow_right (by omega) (by omega)
    have hbn := roundDiv_bounds n hstep
    have hbm := roundDiv_bounds m hstep
    rw [gridded_of_le_log2 (by omega), gridded_of_le_log2 (by omega), ← hlog] at hgrid
    rw [← hgrid] at hbm
    omega
  · have hlarge := le_log2_of_gridded_eq hgn
    have hpast : 2 ^ 53 ≤ 2 ^ n.log2 := Nat.pow_le_pow_right (by omega) hlarge
    have hlog62 : n.log2 + 1 ≤ 63 := by
      have hpow : 2 ^ (n.log2 + 1) < 2 ^ 64 := by
        rw [hlog]
        omega
      exact Nat.le_of_lt_succ ((Nat.pow_lt_pow_iff_right (by omega)).mp hpow)
    have hbn := roundDiv_bounds n hstep
    have hbm := roundDiv_bounds m (Nat.two_pow_pos (m.log2 - 52))
    rw [← gridded_of_le_log2 (by omega), hgn] at hbn
    rw [← gridded_of_le_log2 (by omega), hgm, ← hlog,
      show 2 ^ (n.log2 + 1 - 52) = 2 * 2 ^ (n.log2 - 52) by
        rw [← Nat.pow_succ']; congr 1; omega] at hbm
    -- past the last power of two of 64 bits there is only that power itself
    rcases Nat.lt_or_eq_of_le hlog62 with hless | hlast
    · have hstep' : 2 ^ (n.log2 - 52) ≤ 2 ^ 9 := Nat.pow_le_pow_right (by omega) (by omega)
      rw [leadingBit] at *
      omega
    · rw [← hlog, hlast] at hlowm
      rw [show n.log2 - 52 = 10 by omega, leadingBit] at *
      omega

/-! ### The order of doubles -/

variable {a b : Int}

/-- A whole number of 64 bits is far below the largest double. -/
theorem rank_ofInt (ha : a.natAbs ≤ 2 ^ 63) : (ofInt a).rank =
    if a < 0 then -(roundMagnitude a.natAbs 1 : Int) else roundMagnitude a.natAbs 1 := by
  have hfinite : roundMagnitude a.natAbs 1 < 0x7FF0000000000000 := by
    refine Nat.lt_of_le_of_lt (roundMagnitude_one_mono ha) ?_
    have hbounds := gridded_bounds (n := 2 ^ 63) (by omega)
    rw [roundMagnitude_one (by omega), Nat.log2_two_pow]
    rw [leadingBit] at *
    omega
  rw [ofInt, round]
  dsimp only
  rw [dif_pos hfinite, Option.getD_some, rank]
  simp only [decide_eq_true_eq]

theorem rank_ofInt_mono (ha : a.natAbs ≤ 2 ^ 63) (hb : b.natAbs ≤ 2 ^ 63) (h : a ≤ b) :
    (ofInt a).rank ≤ (ofInt b).rank := by
  rw [rank_ofInt ha, rank_ofInt hb]
  split_ifs with hna hnb
  · have hmono := roundMagnitude_one_mono (show b.natAbs ≤ a.natAbs by omega)
    omega
  · omega
  · omega
  · have hmono := roundMagnitude_one_mono (show a.natAbs ≤ b.natAbs by omega)
    omega

/-- Only large whole numbers near each other go to one double. -/
theorem near_of_rank_ofInt_eq (ha : a.natAbs ≤ 2 ^ 63) (hb : b.natAbs ≤ 2 ^ 63) (hlt : a < b)
    (heq : (ofInt a).rank = (ofInt b).rank) :
    2 ^ 53 ≤ a.natAbs ∧ 2 ^ 53 ≤ b.natAbs ∧ b ≤ a + 1024 := by
  rw [rank_ofInt ha, rank_ofInt hb] at heq
  split_ifs at heq with hna hnb
  · have hnear := near_of_roundMagnitude_one_eq (show b.natAbs < a.natAbs by omega) ha (by omega)
    omega
  · have hbounds := gridded_bounds (show a.natAbs ≠ 0 by omega)
    rw [roundMagnitude_one (show a.natAbs ≠ 0 by omega)] at heq
    rw [leadingBit] at *
    omega
  · omega
  · have hnear := near_of_roundMagnitude_one_eq (show a.natAbs < b.natAbs by omega) hb (by omega)
    omega

end Patchbay.Double
