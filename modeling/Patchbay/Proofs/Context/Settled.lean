import Patchbay.Context.Deadline
import Patchbay.Proofs.Context.Acts

/-!
# What is settled stays

Whatever settles in a forest, it makes no contexts and touches no finished one, whether or not
callbacks ask for something. So the outcome of a context never changes once it is there
(`Forest.Remembers`).

A fork that is completed as soon as it is made is finished, and leaves the context that it was
taken from unfinished.
-/

namespace Patchbay

namespace Forest

variable {f : Forest} {c : Context} {i : Nat} {o : Completion}

theorem size_step (f : Forest) (s : Signal) : (f.step s).1.contexts.size = f.contexts.size := by
  rcases step_cases f s with ⟨i, k, o, -, h⟩ | ⟨h, -⟩ | ⟨c, -, -, -, ⟨o, -, h⟩ | ⟨-, h⟩⟩ <;>
    rw [h] <;> simp [finish]

theorem getElem?_step (s : Signal) (hc : f.contexts[i]? = some c) (hd : c.isDone = true) :
    (f.step s).1.contexts[i]? = some c := by
  rcases step_cases f s with ⟨j, k, o, -, h⟩ | ⟨h, -⟩ | ⟨d, hd', ho, -, h⟩
  · rw [h]
    exact hc
  · rw [h]
    exact hc
  · have hne : s.target ≠ i := by
      rintro rfl
      obtain rfl := Option.some_inj.mp (hd'.symm.trans hc)
      exact absurd hd (by simp [ho])
    rcases h with ⟨o, -, h⟩ | ⟨-, h⟩ <;> rw [h] <;> simpa [finish, getElem?_put hd', hne] using hc

@[simp] theorem size_settle (f : Forest) (agenda : List Signal) :
    (f.settle agenda).contexts.size = f.contexts.size := by
  induction f, agenda using settle.induct with
  | case1 f => rw [settle]
  | case2 f s rest ih => rw [settle, ih, size_step]

/-- A finished context stays as it is, whatever settles. -/
theorem getElem?_settle (f : Forest) (agenda : List Signal) (hc : f.contexts[i]? = some c)
    (hd : c.isDone = true) : (f.settle agenda).contexts[i]? = some c := by
  induction f, agenda using settle.induct with
  | case1 f =>
    rw [settle]
    exact hc
  | case2 f s rest ih =>
    rw [settle]
    exact ih (getElem?_step s hc hd)

@[simp] theorem size_complete (f : Forest) (i : Nat) :
    (f.complete i).contexts.size = f.contexts.size :=
  size_settle f _

@[simp] theorem size_fork (f : Forest) (i : Nat) (originator : Option String) :
    (f.fork i originator).1.contexts.size = f.contexts.size + 1 := by
  cases hc : f.contexts[i]? with
  | none => simp [fork, hc]
  | some c => cases ho : c.isDone <;> simp [fork, hc, ho]

/-- No act takes a context away. -/
theorem size_le_perform (f : Forest) (a : Act) :
    f.contexts.size ≤ (f.perform a).contexts.size := by
  cases a with
  | root originator metadata deadline => simp [perform, addRoot]
  | fork i originator => simp [perform]
  | complete i => exact Nat.le_of_eq (size_settle f _).symm
  | cancel i => exact Nat.le_of_eq (size_settle f _).symm
  | expire i => exact Nat.le_of_eq (size_settle f _).symm
  | callback i tag =>
    rw [perform, addCallback]
    split
    · exact Nat.le_refl _
    · split
      · exact Nat.le_of_eq (size_settle f _).symm
      · exact Nat.le_of_eq (size_put f i _).symm

theorem size_le_foldl (f : Forest) (acts : List Act) :
    f.contexts.size ≤ (acts.foldl perform f).contexts.size := by
  induction acts generalizing f with
  | nil => exact Nat.le_refl _
  | cons a acts ih => exact Nat.le_trans (size_le_perform f a) (ih _)

/-! ### Outcomes -/

/-- What is finished in one forest is finished in the other, with the same outcome. It is what all
functions of a run keep (`Wiring.Keeps`). -/
def Remembers (f g : Forest) : Prop := ∀ i o, f.outcome i = some o → g.outcome i = some o

theorem Remembers.refl (f : Forest) : f.Remembers f := fun _ _ h => h

theorem Remembers.trans {f g h : Forest} (hfg : f.Remembers g) (hgh : g.Remembers h) :
    f.Remembers h :=
  fun i o hi => hgh i o (hfg i o hi)

theorem remembers_push (f : Forest) (c : Context) : f.Remembers (f.push c) := by
  intro i o h
  obtain ⟨d, hd, hdo⟩ := Option.bind_eq_some_iff.mp h
  have hne : i ≠ f.contexts.size := Nat.ne_of_lt (Array.getElem?_eq_some_iff.mp hd).1
  rw [outcome, getElem?_push, if_neg hne, hd, Option.bind_some, hdo]

theorem remembers_settle (f : Forest) (agenda : List Signal) : f.Remembers (f.settle agenda) := by
  intro i o h
  obtain ⟨c, hc, ho⟩ := Option.bind_eq_some_iff.mp h
  rw [outcome, getElem?_settle f agenda hc (by simp [Context.isDone, ho]), Option.bind_some, ho]

/-- Replacing a context by one with its outcome. -/
theorem outcome_put (hc : f.contexts[i]? = some c) {d : Context} (hd : d.outcome = c.outcome)
    (j : Nat) :
    (f.put i d).outcome j = f.outcome j := by
  rw [outcome, getElem?_put hc]
  split
  · rename_i hij
    rw [← hij, outcome, hc, Option.bind_some, Option.bind_some, hd]
  · rfl

theorem remembers_put (hc : f.contexts[i]? = some c) {d : Context} (hd : d.outcome = c.outcome) :
    f.Remembers (f.put i d) := by
  intro j o h
  rwa [outcome_put hc hd]

theorem remembers_fork (f : Forest) (i : Nat) (originator : Option String) :
    f.Remembers (f.fork i originator).1 := by
  by_cases hopen : f.IsOpen i
  · obtain ⟨c, hc, ho⟩ := hopen
    rw [fork_of_isOpen hc ho]
    have hput : f.Remembers (f.put i { c with outstanding := c.outstanding + 1 }) :=
      remembers_put hc rfl
    exact hput.trans (remembers_push _ _)
  · rw [fork_of_not_isOpen hopen]
    exact remembers_push _ _

/-- Putting a deadline off finishes nothing. -/
theorem remembers_postpone (f : Forest) (i time : Nat) : f.Remembers (f.postpone i time) := by
  rw [postpone]
  cases hc : f.contexts[i]? with
  | none => exact .refl f
  | some c => exact remembers_put hc rfl

theorem remembers_snooze (f : Forest) (now i extension : Nat) :
    f.Remembers (f.snooze now i extension) := by
  rw [snooze]
  generalize f.liveLineage i = positions
  induction positions generalizing f with
  | nil => exact .refl f
  | cons j positions ih => exact (f.remembers_postpone j _).trans (ih _)

/-! ### Forks that are completed at once -/

/-- The fork of a context is there and unfinished. -/
theorem getElem?_fork (f : Forest) (i : Nat) (originator : Option String) :
    (f.fork i originator).1.contexts[f.contexts.size]? =
      some { parent := some i, counted := (f.contexts[i]?).any fun c => !c.isDone,
             originator := originator } := by
  cases hc : f.contexts[i]? with
  | none => simp [fork, hc]
  | some c =>
    cases ho : c.isDone
    · simp only [fork, hc, ho, Option.any_some, Bool.not_false, if_true]
      rw [← size_put f i { c with outstanding := c.outstanding + 1 }, Array.getElem?_push_size]
    · simp [fork, hc, ho]

theorem outcome_fork_size (f : Forest) (i : Nat) (originator : Option String) :
    (f.fork i originator).1.outcome f.contexts.size = none := by
  rw [outcome, getElem?_fork, Option.bind_some]

/-- A context that waits for nothing is finished when its own work is done. -/
theorem outcome_complete (hc : f.contexts[i]? = some c) (hd : c.isDone = false)
    (hown : c.ownDone = false) (hzero : c.outstanding = 0) :
    (f.complete i).outcome i = some .completed := by
  have hstep : f.step (.complete i) = f.finish i { c with ownDone := true } .completed := by
    simp [step, hc, hd, hown, finishIfReady, Context.isReady, hzero]
  rw [complete, settle, hstep]
  refine remembers_settle _ _ _ _ ?_
  rw [outcome, finish, getElem?_put hc, if_pos rfl, Option.bind_some, Context.finished]

theorem outcome_complete_fork (f : Forest) (i : Nat) (originator : Option String) :
    ((f.fork i originator).1.complete f.contexts.size).outcome f.contexts.size = some .completed :=
  outcome_complete (getElem?_fork f i originator) rfl rfl rfl

theorem IsOpen.fork (h : f.IsOpen i) (originator : Option String) :
    (f.fork i originator).1.IsOpen i := by
  obtain ⟨c, hc, ho⟩ := h
  have hne : i ≠ f.contexts.size := Nat.ne_of_lt (Array.getElem?_eq_some_iff.mp hc).1
  refine ⟨{ c with outstanding := c.outstanding + 1 }, ?_, ho⟩
  rw [fork_of_isOpen hc ho, getElem?_push, size_put, if_neg hne, getElem?_put hc, if_pos rfl]

/-- A fork that is completed at once does not finish the context that it was taken from: what that
waited for before, it waits for still (`Forest.Balanced`). -/
theorem IsOpen.complete_fork (hb : f.Balanced []) (h : f.IsOpen i) (originator : Option String) :
    ((f.fork i originator).1.complete f.contexts.size).IsOpen i := by
  obtain ⟨c, hc, ho⟩ := h
  have hready := hb.unready i c hc ho
  have hne : f.contexts.size ≠ i := (Nat.ne_of_lt (Array.getElem?_eq_some_iff.mp hc).1).symm
  have hfork := getElem?_fork f i originator
  have hcounted : ((f.contexts[i]?).any fun c => !c.isDone) = true :=
    any_iff_isOpen.mpr ⟨c, hc, ho⟩
  rw [hcounted] at hfork
  obtain ⟨e, he, heo⟩ : ∃ e, (f.fork i originator).1.contexts[i]? = some e ∧
      e = { c with outstanding := c.outstanding + 1 } := by
    refine ⟨_, ?_, rfl⟩
    rw [fork_of_isOpen hc ho, getElem?_push, size_put, if_neg hne.symm, getElem?_put hc,
      if_pos rfl]
  subst heo
  generalize (f.fork i originator).1 = g at hfork he ⊢
  -- The fork is finished first; its word takes off the counter what the fork has put there.
  have hstep : g.step (.complete f.contexts.size) =
      g.finish f.contexts.size
      { parent := some i, counted := true, originator := originator, ownDone := true }
        .completed := by
    simp [step, hfork, Context.isDone, finishIfReady, Context.isReady]
  obtain ⟨g', hg', hword⟩ : ∃ g', g.step (.complete f.contexts.size) = (g', [.forkFinished i]) ∧
      g'.contexts[i]? = some { c with outstanding := c.outstanding + 1 } := by
    refine ⟨_, hstep, ?_⟩
    rw [getElem?_put hfork, if_neg hne, he]
  have hlast : g'.step (.forkFinished i) = (g'.put i c, []) := by
    have hopen : ({ c with outstanding := c.outstanding + 1 } : Context).isDone = false := ho
    simp [step, hword, hopen, finishIfReady, hready]
  rw [Forest.complete, settle, hg', List.append_nil, settle, hlast, List.append_nil, settle]
  exact ⟨c, by rw [getElem?_put hword, if_pos rfl], ho⟩

end Forest

/-- A watch that looks at the clock changes no outcome. -/
theorem Watch.remembers_look (w : Watch) (f : Forest) (now : Nat) :
    f.Remembers (w.look f now).1 := by
  rw [Watch.look]
  split
  · exact .refl f
  · split
    · exact Forest.remembers_settle _ _
    · exact .refl f

end Patchbay
