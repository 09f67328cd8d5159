/-!
# Sets of characters

A property of characters is given by the runs of code points that have it. The runs stand in order
and apart from each other, so that a look-up can stop at the first run behind a character.
-/

namespace Patchbay.Text

/-- A set of characters: first and last code point of every run, in order. -/
abbrev Runs := List (Nat × Nat)

namespace Runs

/-- Whether a code point lies in one of the runs. -/
def contains : Runs → Nat → Bool
  | [], _ => false
  | (first, last) :: rest, n => if n < first then false else n ≤ last || contains rest n

theorem contains_cons {first last n : Nat} {rest : Runs} :
    contains ((first, last) :: rest) n = true ↔
      first ≤ n ∧ (n ≤ last ∨ contains rest n = true) := by
  by_cases h : n < first
  · simp only [contains, h, ite_true, Bool.false_eq_true, false_iff, not_and]
    omega
  · simp [contains, h, Nat.le_of_not_lt h]

end Runs

end Patchbay.Text
