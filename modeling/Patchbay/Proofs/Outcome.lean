import Patchbay.Error

/-!
# Outcomes of steps

When steps are done one after the other, the whole succeeds exactly when each of them does.
-/

namespace Patchbay

variable {α β ε : Type} {x : Except ε α}

theorem bind_eq_ok_iff {f : α → Except ε β} {b : β} :
    x >>= f = .ok b ↔ ∃ a, x = .ok a ∧ f a = .ok b := by
  cases x with
  | error e => simp [bind, Except.bind]
  | ok a => simp [bind, Except.bind]

theorem toOption_eq_some_iff {a : α} : x.toOption = some a ↔ x = .ok a := by
  cases x <;> simp [Except.toOption]

/-- Whether something failed with the given error can be told without telling results apart. -/
instance decidableEqError [DecidableEq ε] (e : ε) : Decidable (x = .error e) :=
  match x with
  | .ok _ => isFalse fun h => by cases h
  | .error e' => decidable_of_iff (e' = e) (by simp)

theorem map_eq_ok_iff {f : α → β} {b : β} : x.map f = .ok b ↔ ∃ a, x = .ok a ∧ f a = b := by
  cases x with
  | error e => simp [Except.map]
  | ok a => simp [Except.map]

theorem bind_eq_error_iff {f : α → Except ε β} {err : ε} :
    x >>= f = .error err ↔ x = .error err ∨ ∃ a, x = .ok a ∧ f a = .error err := by
  cases x with
  | error e => simp [bind, Except.bind]
  | ok a => simp [bind, Except.bind]

theorem map_eq_error_iff {f : α → β} {err : ε} : x.map f = .error err ↔ x = .error err := by
  cases x with
  | error e => simp [Except.map]
  | ok a => simp [Except.map]

end Patchbay
