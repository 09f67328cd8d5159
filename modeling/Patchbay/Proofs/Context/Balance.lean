import Patchbay.Proofs.Context.Signals

/-!
# The books of a forest

An unfinished context counts the forks that it still waits for. While signals settle, the word of
some finished forks is still on its way, so the counter equals the number of unfinished forks
together with the words on the agenda (`Forest.Balanced`). Each signal keeps the balance: a context
that finishes leaves the number of unfinished forks of its parent and enters the agenda once, and a
word that arrives is taken off the counter. So a counter is never at zero when a word arrives
(`Balanced.outstanding_pos`).

The other half of the books is that no unfinished context is ready: what could finish has finished.
-/

namespace Patchbay

/-- Whether this is an unfinished context that the context at a position waits for. -/
def Context.isAwaitedBy (c : Context) (i : Nat) : Bool :=
  c.counted && c.parent == some i && !c.isDone

namespace Forest

variable {f : Forest} {agenda rest : List Signal} {s : Signal} {c d : Context} {i : Nat}

/-- The number of unfinished forks that a context waits for, counted over the whole forest
(`Context.isAwaitedBy`). -/
def pending (f : Forest) (i : Nat) : Nat := f.contexts.countP (·.isAwaitedBy i)

/-- The books of a forest with an agenda of signals: the counter of an unfinished context is its
number of unfinished forks and of words on the agenda, and none of them is ready. -/
structure Balanced (f : Forest) (agenda : List Signal) : Prop where
  /-- A context that is waited for stands behind its parent. -/
  behind : ∀ (j : Nat) (d : Context), f.contexts[j]? = some d → d.counted = true →
    ∀ p, d.parent = some p → p < j
  /-- An unfinished context waits for its unfinished forks, and for those whose word is on its
  way. -/
  outstanding : ∀ (i : Nat) (c : Context), f.contexts[i]? = some c → c.isDone = false →
    c.outstanding = f.pending i + agenda.count (.forkFinished i)
  /-- What could finish has finished. -/
  unready : ∀ (i : Nat) (c : Context), f.contexts[i]? = some c → c.isDone = false →
    c.isReady = false
  /-- A completed context waits for nothing. -/
  completed : ∀ (i : Nat) (c : Context), f.contexts[i]? = some c → c.outcome = some .completed →
    f.pending i = 0

/-- Whenever the word of a finished fork arrives, there is something to take off the counter. So
the subtraction never goes below zero. -/
theorem Balanced.outstanding_pos (h : f.Balanced (.forkFinished i :: rest))
    (hc : f.contexts[i]? = some c) (ho : c.isDone = false) : 0 < c.outstanding := by
  rw [h.outstanding i c hc ho, List.count_cons_self]
  omega

/-! ### The number of unfinished forks -/

/-- Replacing a context exchanges its share of the unfinished forks. -/
theorem pending_put (hc : f.contexts[i]? = some c) (d : Context) (p : Nat) :
    (f.put i d).pending p + (if c.isAwaitedBy p then 1 else 0) =
      f.pending p + (if d.isAwaitedBy p then 1 else 0) := by
  obtain ⟨hlt, rfl⟩ := Array.getElem?_eq_some_iff.mp hc
  have hput : (f.put i d).contexts = f.contexts.set i d hlt := by
    simp [put, Array.setIfInBounds, hlt]
  have hle : (if f.contexts[i].isAwaitedBy p then 1 else 0) ≤ f.pending p := by
    split
    · rename_i h
      exact Array.countP_pos_iff.mpr ⟨_, Array.getElem_mem hlt, h⟩
    · exact Nat.zero_le _
  simp only [pending, hput, Array.countP_set] at hle ⊢
  omega

theorem pending_put_of_same (hc : f.contexts[i]? = some c) (hparent : d.parent = c.parent)
    (hcounted : d.counted = c.counted) (hdone : d.isDone = c.isDone) (p : Nat) :
    (f.put i d).pending p = f.pending p := by
  have h := pending_put hc d p
  have hsame : d.isAwaitedBy p = c.isAwaitedBy p := by
    simp only [Context.isAwaitedBy, hparent, hcounted, hdone]
  rw [hsame] at h
  omega

/-- The consequences of a finished context hold one word for the context that waits for it. -/
theorem count_consequences (c : Context) (ho : c.isDone = false) (i p : Nat) (o : Completion) :
    (c.consequences i o).count (.forkFinished p) = if c.isAwaitedBy p then 1 else 0 := by
  have hcalls : (c.callbacks.map (Signal.call i · o)).count (.forkFinished p) = 0 := by
    refine List.count_eq_zero.mpr fun h => ?_
    obtain ⟨k, -, hk⟩ := List.mem_map.mp h
    exact absurd hk (by simp)
  rw [Context.consequences, List.count_append, hcalls, Nat.zero_add]
  cases hk : c.counted <;> cases hp : c.parent with
  | none => simp [Context.isAwaitedBy, hk, hp]
  | some q => by_cases hq : q = p <;> simp [Context.isAwaitedBy, hk, hp, ho, hq]

/-- What a finished context leaves of the unfinished forks goes onto the agenda
(`Context.consequences`). -/
theorem pending_finish (hc : f.contexts[i]? = some c) (ho : c.isDone = false)
    (hparent : d.parent = c.parent) (hcounted : d.counted = c.counted) (hdone : d.isDone = false)
    (o : Completion) (p : Nat) :
    (f.finish i d o).1.pending p + (f.finish i d o).2.count (.forkFinished p) = f.pending p := by
  have h := pending_put hc (d.finished o) p
  have hsame : d.isAwaitedBy p = c.isAwaitedBy p := by
    simp only [Context.isAwaitedBy, hparent, hcounted, hdone, ho]
  have hleft : (d.finished o).isAwaitedBy p = false := by
    simp [Context.isAwaitedBy]
  simp only [finish, count_consequences d hdone, hsame]
  rw [hleft] at h
  simpa using h

/-! ### A signal keeps the balance -/

/-- Putting a context that is not ready in the place of an unfinished one. -/
theorem Balanced.put (h : f.Balanced agenda) (hc : f.contexts[i]? = some c) (ho : c.isDone = false)
    (hparent : d.parent = c.parent) (hcounted : d.counted = c.counted) (hdone : d.isDone = false)
    (hothers : ∀ j, j ≠ i → rest.count (.forkFinished j) = agenda.count (.forkFinished j))
    (hd : d.outstanding = f.pending i + rest.count (.forkFinished i))
    (hready : d.isReady = false) :
    (f.put i d).Balanced rest := by
  have hpending := pending_put_of_same hc hparent hcounted (hdone.trans ho.symm)
  constructor
  · intro j e he hk
    rw [getElem?_put hc] at he
    split at he
    · rename_i hij
      subst hij
      obtain rfl := Option.some_inj.mp he
      rw [hcounted] at hk
      rw [hparent]
      exact h.behind i c hc hk
    · exact h.behind j e he hk
  · intro j e he hopen
    rw [hpending]
    rw [getElem?_put hc] at he
    split at he
    · rename_i hij
      subst hij
      obtain rfl := Option.some_inj.mp he
      exact hd
    · rename_i hij
      rw [hothers j (Ne.symm hij)]
      exact h.outstanding j e he hopen
  · intro j e he hopen
    rw [getElem?_put hc] at he
    split at he
    · obtain rfl := Option.some_inj.mp he
      exact hready
    · exact h.unready j e he hopen
  · intro j e he hout
    rw [hpending]
    rw [getElem?_put hc] at he
    split at he
    · obtain rfl := Option.some_inj.mp he
      exact absurd hdone (by simp [Context.isDone, hout])
    · exact h.completed j e he hout

/-- Finishing an unfinished context keeps the balance; one that is completed must not wait for
anything. -/
theorem Balanced.finish (h : f.Balanced agenda) (hc : f.contexts[i]? = some c)
    (ho : c.isDone = false) (hparent : d.parent = c.parent) (hcounted : d.counted = c.counted)
    (hdone : d.isDone = false) {o : Completion}
    (hothers : ∀ j, j ≠ i → rest.count (.forkFinished j) = agenda.count (.forkFinished j))
    (hwaits : o = .completed → f.pending i = 0) :
    (f.finish i d o).1.Balanced ((f.finish i d o).2 ++ rest) := by
  have hpending := pending_finish hc ho hparent hcounted hdone o
  constructor
  · intro j e he hk
    rw [Forest.finish, getElem?_put hc] at he
    split at he
    · rename_i hij
      subst hij
      obtain rfl := Option.some_inj.mp he
      exact hparent ▸ h.behind i c hc (hcounted ▸ hk)
    · exact h.behind j e he hk
  · intro j e he hopen
    rw [List.count_append, ← Nat.add_assoc, hpending]
    rw [Forest.finish, getElem?_put hc] at he
    split at he
    · obtain rfl := Option.some_inj.mp he
      exact absurd hopen (by simp)
    · rename_i hij
      rw [hothers j (Ne.symm hij)]
      exact h.outstanding j e he hopen
  · intro j e he hopen
    rw [Forest.finish, getElem?_put hc] at he
    split at he
    · obtain rfl := Option.some_inj.mp he
      exact absurd hopen (by simp)
    · exact h.unready j e he hopen
  · intro j e he hout
    have hle : (f.finish i d o).1.pending j ≤ f.pending j := by
      rw [← hpending j]
      exact Nat.le_add_right _ _
    rw [Forest.finish, getElem?_put hc] at he
    split at he
    · rename_i hij
      subst hij
      obtain rfl := Option.some_inj.mp he
      exact Nat.le_zero.mp (le_of_le_of_eq hle (hwaits (by simpa [Context.finished] using hout)))
    · exact Nat.le_zero.mp (le_of_le_of_eq hle (h.completed j e he hout))

/-- An agenda that differs in nothing but what it says about finished forks of finished
contexts. -/
theorem Balanced.congr (h : f.Balanced agenda)
    (hcount : ∀ (j : Nat) (c : Context), f.contexts[j]? = some c → c.isDone = false →
      rest.count (.forkFinished j) = agenda.count (.forkFinished j)) : f.Balanced rest where
  behind := h.behind
  outstanding j e he hopen := by
    rw [hcount j e he hopen]
    exact h.outstanding j e he hopen
  unready := h.unready
  completed := h.completed

theorem count_effects (k : Callback) (j : Nat) : k.effects.count (.forkFinished j) = 0 := by
  refine List.count_eq_zero.mpr fun h => ?_
  simp [Callback.effects] at h

/-- What a context waits for once it has taken note of a signal. -/
theorem Balanced.outstanding_told (h : f.Balanced (s :: rest))
    (hc : f.contexts[s.target]? = some c)
    (ho : c.isDone = false) :
    (c.told s).outstanding = f.pending s.target + rest.count (.forkFinished s.target) := by
  have hout := h.outstanding s.target c hc ho
  cases s with
  | forkFinished i =>
    rw [Signal.target, List.count_cons_self] at hout
    simp only [Context.told, Signal.target]
    omega
  | complete i => simpa [Context.told] using hout
  | force i o => simpa [Context.told] using hout
  | call i k o => simpa [Context.told] using hout

/-- Signals that are not for a context say nothing about its forks. -/
theorem count_cons_of_ne {j : Nat} (hj : j ≠ s.target) :
    rest.count (.forkFinished j) = (s :: rest).count (.forkFinished j) := by
  refine (List.count_cons_of_ne ?_).symm
  rintro rfl
  exact hj rfl

/-- What a signal completes without force is ready: its own work is done, and its counter is at
zero. -/
theorem isReady_of_verdict (hv : c.verdict s = some .completed)
    (hs : ∀ i, s ≠ .force i .completed) :
    c.isReady = true := by
  cases s with
  | complete i => exact (Option.ite_none_right_eq_some.mp hv).1
  | forkFinished i => exact (Option.ite_none_right_eq_some.mp hv).1
  | force i o => exact absurd (congrArg _ (Option.some_inj.mp hv)) (hs i)
  | call i k o => exact absurd hv (by simp [Context.verdict])

theorem isReady_of_verdict_eq_none (hv : c.verdict s = none) (hs : ∀ i k o, s ≠ .call i k o) :
    c.isReady = false := by
  cases s with
  | complete i => simpa [Context.verdict] using hv
  | forkFinished i => simpa [Context.verdict] using hv
  | force i o => exact absurd hv (by simp [Context.verdict])
  | call i k o => exact absurd rfl (hs i k o)

/-- Every signal that does not force a completion keeps the balance, with what follows from it put
on the agenda. -/
theorem Balanced.step (h : f.Balanced (s :: rest)) (hs : ∀ i, s ≠ .force i .completed) :
    (f.step s).1.Balanced ((f.step s).2 ++ rest) := by
  rcases step_cases f s with ⟨i, k, o, rfl, he⟩ | ⟨he, hignored⟩ | ⟨c, hc, ho, hcall, he⟩
  · rw [he]
    have h' : f.Balanced (k.effects ++ rest) := by
      refine h.congr fun j e hj hopen => ?_
      simp [List.count_append, count_effects]
    exact ⟨h'.behind, h'.outstanding, h'.unready, h'.completed⟩
  · rw [he]
    refine h.congr fun j e hj hopen => ?_
    -- A word that is ignored is for a finished context.
    refine (List.count_cons_of_ne ?_).symm
    rintro rfl
    exact absurd (hignored e hj hopen).1 (by simp)
  · have hdone : (c.told s).isDone = false := by simpa using ho
    have hout := h.outstanding_told hc ho
    rcases he with ⟨o, hv, he⟩ | ⟨hv, he⟩
    · rw [he]
      refine h.finish hc ho (by simp) (by simp) hdone (fun j => count_cons_of_ne) ?_
      rintro rfl
      have hready := isReady_of_verdict hv hs
      simp only [Context.isReady, Bool.and_eq_true, beq_iff_eq] at hready
      omega
    · rw [he]
      exact h.put hc ho (by simp) (by simp) hdone (fun j => count_cons_of_ne) hout
        (isReady_of_verdict_eq_none hv hcall)

/-- What follows from a signal never forces a completion. -/
theorem not_force_completed (f : Forest) (s : Signal) (i : Nat) :
    .force i .completed ∉ (f.step s).2 := by
  rcases step_cases f s with ⟨j, k, o, rfl, he⟩ | ⟨he, -⟩ | ⟨c, -, -, -, ⟨o, -, he⟩ | ⟨-, he⟩⟩
  · rw [he]
    simp [Callback.effects]
  · simp [he]
  · rw [he]
    simp [finish, Context.consequences]
  · simp [he]

/-- What settles is balanced, by induction on the steps of `Forest.settle`. -/
theorem Balanced.settle (f : Forest) (agenda : List Signal) (h : f.Balanced agenda)
    (hs : ∀ i, .force i .completed ∉ agenda) : (f.settle agenda).Balanced [] := by
  -- The induction is on the work that is left.
  induction f, agenda using settle.induct with
  | case1 f =>
    rw [Forest.settle]
    exact h
  | case2 f s rest ih =>
    rw [Forest.settle]
    refine ih (h.step fun i hi => hs i (hi ▸ List.mem_cons_self)) fun i hi => ?_
    rcases List.mem_append.mp hi with hi | hi
    · exact not_force_completed f s i hi
    · exact hs i (List.mem_cons_of_mem s hi)

end Forest

end Patchbay
