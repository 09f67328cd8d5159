import Mathlib.Data.List.Basic

/-!
# Decimal numerals in order

Numbers are in the order of their numerals, if shorter numerals come first and equally long ones
are compared digit by digit: a greater number has no fewer digits (`length_toDigits_mono`), and of
two numerals of one length the one that comes first stands for the lesser number
(`not_toDigits_lt`). What ends in a numeral is told apart by its number (`append_repr_injective`).
-/

namespace Patchbay

variable {cs ds : List Char} {m n : Nat}

/-- The value of a digit. -/
private theorem toNat_bounds {c : Char} (h : c.isDigit = true) :
    '0'.toNat ≤ c.toNat ∧ c.toNat ≤ '0'.toNat + 9 := by
  simp only [Char.isDigit, Bool.and_eq_true, decide_eq_true_eq, ge_iff_le,
    UInt32.le_iff_toNat_le] at h
  exact h

/-- What comes before two rows of digits decides which number is the lesser one. -/
theorem ofDigitChars_lt_of_lt (hlength : cs.length = ds.length) (hcs : ∀ c ∈ cs, c.isDigit = true)
    (hds : ∀ c ∈ ds, c.isDigit = true) (h : m < n) :
    Nat.ofDigitChars 10 cs m < Nat.ofDigitChars 10 ds n := by
  induction cs generalizing ds m n with
  | nil =>
    obtain rfl : ds = [] := List.length_eq_zero_iff.mp hlength.symm
    simpa using h
  | cons c cs ih =>
    cases ds with
    | nil => simp at hlength
    | cons d ds =>
      obtain ⟨hc, hcs⟩ := List.forall_mem_cons.mp hcs
      obtain ⟨hd, hds⟩ := List.forall_mem_cons.mp hds
      have hcbounds := toNat_bounds hc
      have hdbounds := toNat_bounds hd
      -- a digit makes up for at most nine of the ten that the lead is worth now
      rw [Nat.ofDigitChars_cons, Nat.ofDigitChars_cons]
      exact ih (by simpa using hlength) hcs hds (by omega)

/-- Rows of digits that are equally long are in the order of their numbers. -/
theorem ofDigitChars_lt (hlength : cs.length = ds.length) (hcs : ∀ c ∈ cs, c.isDigit = true)
    (hds : ∀ c ∈ ds, c.isDigit = true) (h : cs < ds) (m : Nat) :
    Nat.ofDigitChars 10 cs m < Nat.ofDigitChars 10 ds m := by
  induction cs generalizing ds m with
  | nil =>
    obtain rfl : ds = [] := List.length_eq_zero_iff.mp hlength.symm
    exact absurd h (List.lt_irrefl _)
  | cons c cs ih =>
    cases ds with
    | nil => simp at hlength
    | cons d ds =>
      obtain ⟨hc, hcs'⟩ := List.forall_mem_cons.mp hcs
      obtain ⟨hd, hds'⟩ := List.forall_mem_cons.mp hds
      have hrest : cs.length = ds.length := by simpa using hlength
      rw [Nat.ofDigitChars_cons, Nat.ofDigitChars_cons]
      rcases List.cons_lt_cons_iff.mp h with hlt | ⟨rfl, hlt⟩
      · have hdigits : c.toNat < d.toNat := hlt
        have hcbounds := toNat_bounds hc
        exact ofDigitChars_lt_of_lt hrest hcs' hds' (by omega)
      · exact ih hrest hcs' hds' hlt _

theorem isDigit_of_mem_numeral {c : Char} (h : c ∈ Nat.toDigits 10 n) : c.isDigit = true :=
  Nat.isDigit_of_mem_toDigits (by decide) (by decide) h

/-- A greater number has no fewer digits. -/
theorem length_toDigits_mono (h : m ≤ n) :
    (Nat.toDigits 10 m).length ≤ (Nat.toDigits 10 n).length := by
  rw [Nat.length_toDigits_le_iff (by decide) Nat.length_toDigits_pos]
  exact Nat.lt_of_le_of_lt h ((Nat.length_toDigits_le_iff (by decide) Nat.length_toDigits_pos).mp
    (Nat.le_refl _))

/-- Numerals of one length are in the order of their numbers. -/
theorem not_toDigits_lt (h : m ≤ n)
    (hlength : (Nat.toDigits 10 m).length = (Nat.toDigits 10 n).length) :
    ¬ Nat.toDigits 10 n < Nat.toDigits 10 m := by
  intro hless
  have hlt := ofDigitChars_lt hlength.symm (fun _ => isDigit_of_mem_numeral)
    (fun _ => isDigit_of_mem_numeral)
    hless 0
  rw [Nat.ofDigitChars_ten_toDigits, Nat.ofDigitChars_ten_toDigits] at hlt
  omega

/-- Every digit is one byte long. -/
theorem utf8ByteSize_ofList (h : ∀ c ∈ cs, c.isDigit = true) :
    (String.ofList cs).utf8ByteSize = cs.length := by
  induction cs with
  | nil => rfl
  | cons c cs ih =>
    obtain ⟨hc, hcs⟩ := List.forall_mem_cons.mp h
    have hsize : c.utf8Size = 1 := by
      have hbounds := toNat_bounds hc
      rw [Char.utf8Size_eq_one_iff, UInt32.le_iff_toNat_le]
      exact Nat.le_trans hbounds.2 (by decide)
    rw [String.ofList_cons, String.utf8ByteSize_append, String.utf8ByteSize_singleton, ih hcs,
      hsize, List.length_cons, Nat.add_comm]

theorem append_repr_injective (stem : String) :
    Function.Injective fun i : Nat => stem ++ i.repr := by
  intro i j h
  have hdigits := congrArg (fun s => Nat.ofDigitChars 10 s.toList 0)
    ((String.append_right_inj _).mp h)
  simpa using hdigits

end Patchbay
