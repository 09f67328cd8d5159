/-!
# Sums over lists

`sumOf w l` adds up a measure `w` of the items of a list. It splits over `++` and `map`, and
replacing an item exchanges its share (`sumOf_set`).
-/

namespace Patchbay

/-- The sum of a measure over the items of a list. -/
def sumOf {α : Type} (w : α → Nat) : List α → Nat
  | [] => 0
  | a :: l => w a + sumOf w l

section

variable {α β : Type} (w : α → Nat)

@[simp] theorem sumOf_nil : sumOf w [] = 0 := rfl

@[simp] theorem sumOf_cons (a : α) (l : List α) : sumOf w (a :: l) = w a + sumOf w l := rfl

@[simp] theorem sumOf_append (l m : List α) : sumOf w (l ++ m) = sumOf w l + sumOf w m := by
  induction l with
  | nil => simp
  | cons a l ih => simp only [List.cons_append, sumOf_cons, ih]; omega

@[simp] theorem sumOf_map (f : β → α) (l : List β) : sumOf w (l.map f) = sumOf (w ∘ f) l := by
  induction l with
  | nil => rfl
  | cons b l ih => simp [ih]

theorem le_sumOf_of_mem {l : List α} {a : α} (h : a ∈ l) : w a ≤ sumOf w l := by
  induction l with
  | nil => cases h
  | cons b l ih =>
    rw [sumOf_cons]
    rcases List.mem_cons.mp h with rfl | h
    · exact Nat.le_add_right _ _
    · exact Nat.le_trans (ih h) (Nat.le_add_left _ _)

/-- Replacing an item exchanges its share of the sum. -/
theorem sumOf_set : ∀ (l : List α) (i : Nat) (a b : α), l[i]? = some a →
    sumOf w (l.set i b) + w a = sumOf w l + w b
  | [], _, _, _, h => by simp at h
  | x :: l, 0, a, b, h => by
    simp only [List.getElem?_cons_zero, Option.some.injEq] at h
    subst h
    simp only [List.set_cons_zero, sumOf_cons]
    omega
  | x :: l, i + 1, a, b, h => by
    have ih := sumOf_set l i a b (by simpa using h)
    simp only [List.set_cons_succ, sumOf_cons]
    omega

end

end Patchbay
