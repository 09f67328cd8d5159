import Patchbay.Pad.Basic

/-!
# Tables of pads

Something for each of some pads, in the order in which they were listed.
-/

namespace Patchbay

/-- What is known of pads, by address. -/
abbrev PadTable (α : Type) := List (PadRef × α)

namespace PadTable

variable {α : Type}

/-- The entry of a pad. -/
def get? (p : PadRef) : PadTable α → Option α
  | [] => none
  | (q, a) :: rest => if q = p then some a else get? p rest

/-- Changes the entry of a pad, if it has one. -/
def modify (p : PadRef) (f : α → α) : PadTable α → PadTable α
  | [] => []
  | (q, a) :: rest => if q = p then (q, f a) :: rest else (q, a) :: modify p f rest

/-- Whether a pad has an entry. -/
def has (t : PadTable α) (p : PadRef) : Bool := (get? p t).isSome

theorem get?_modify_self (p : PadRef) (f : α → α) (t : PadTable α) :
    get? p (modify p f t) = (get? p t).map f := by
  induction t with
  | nil => rfl
  | cons e rest ih =>
    by_cases h : e.1 = p
    · simp [modify, get?, h]
    · simp [modify, get?, h, ih]

theorem get?_modify_of_ne {p q : PadRef} (h : q ≠ p) (f : α → α) (t : PadTable α) :
    get? q (modify p f t) = get? q t := by
  induction t with
  | nil => rfl
  | cons e rest ih =>
    by_cases hp : e.1 = p
    · simp [modify, get?, hp, Ne.symm h]
    · by_cases hq : e.1 = q
      · subst hq
        simp [modify, get?, h]
      · simp [modify, get?, hp, hq, ih]

theorem mem_of_get? {t : PadTable α} {p : PadRef} {a : α} (h : get? p t = some a) :
    (p, a) ∈ t := by
  induction t with
  | nil => cases h
  | cons x rest ih =>
    obtain ⟨q, b⟩ := x
    rw [get?] at h
    split at h
    · rename_i hq
      rw [hq, Option.some.inj h]
      exact List.mem_cons_self
    · exact List.mem_cons_of_mem _ (ih h)

theorem modify_of_get?_eq_none {p : PadRef} {t : PadTable α} (h : get? p t = none) (f : α → α) :
    modify p f t = t := by
  induction t with
  | nil => rfl
  | cons e rest ih =>
    by_cases hp : e.1 = p
    · simp [get?, hp] at h
    · simp only [get?, hp, if_false] at h
      simp only [modify, hp, if_false, ih h]

end PadTable

end Patchbay
