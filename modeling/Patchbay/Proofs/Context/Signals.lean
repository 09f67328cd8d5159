import Mathlib.Tactic.ByContra
import Patchbay.Context.Basic

/-!
# What a signal does to a context

A signal reaches at most one context. It is ignored if that context is finished; otherwise the
context takes note of it (`Context.told`), and is finished if the signal forces an outcome or if
nothing is left to wait for (`Forest.step_cases`).

`Context.Passes` says what one act can make of a context, and of every other one, when nothing but
the word of finished forks and callbacks that ask for nothing follows from it. It composes with
whatever follows (`Context.Passes.trans`), so it holds for all that settles
(`Forest.passes_settle`).
-/

namespace Patchbay

/-- The context that a signal is for. No other context changes in the step. -/
def Signal.target : Signal → Nat
  | .complete i | .force i _ | .forkFinished i | .call i _ _ => i

/-- The context once it has taken note of a signal: its own work is done, or a fork less is
outstanding, or nothing. -/
def Context.told (c : Context) : Signal → Context
  | .complete _ | .force _ _ => { c with ownDone := true }
  | .forkFinished _ => { c with outstanding := c.outstanding - 1 }
  | .call _ _ _ => c

/-- The outcome of a context that has taken note of a signal, if it is finished now: one that is
forced, or completion if it has become ready. -/
def Context.verdict (c : Context) : Signal → Option Completion
  | .force _ outcome => some outcome
  | .complete _ | .forkFinished _ => if c.isReady then some .completed else none
  | .call _ _ _ => none

/-- Whether a signal marks the own work of a context as complete. -/
def Signal.Completes (s : Signal) (i : Nat) : Prop := s = .complete i

/-- The outcome that a signal forces upon a context. -/
def Signal.cuts (s : Signal) (i : Nat) : Option Completion :=
  match s with
  | .force j outcome => if j = i then some outcome else none
  | _ => none

/-- Signals that only pass on what happened: the word of a finished fork, and callbacks that ask
for nothing. What follows from a signal are echoes (`passes_step`). -/
def Signal.IsEcho : Signal → Prop
  | .forkFinished _ => True
  | .call _ k _ => k.effects = []
  | _ => False

namespace Context

variable {c d e : Context} {s : Signal} {told : Prop} {cut : Option Completion}

@[simp] theorem told_parent (c : Context) (s : Signal) : (c.told s).parent = c.parent := by
  cases s <;> rfl

@[simp] theorem told_counted (c : Context) (s : Signal) : (c.told s).counted = c.counted := by
  cases s <;> rfl

@[simp] theorem told_callbacks (c : Context) (s : Signal) :
    (c.told s).callbacks = c.callbacks := by
  cases s <;> rfl

@[simp] theorem told_outcome (c : Context) (s : Signal) : (c.told s).outcome = c.outcome := by
  cases s <;> rfl

@[simp] theorem told_isDone (c : Context) (s : Signal) : (c.told s).isDone = c.isDone := by
  simp [isDone]

@[simp] theorem finished_isDone (c : Context) (o : Completion) : (c.finished o).isDone = true :=
  rfl

/-- What may become of a context while its own work may be marked complete (`told`) and it may be
cut off (`cut`). A finished context stays as it is. -/
structure Passes (told : Prop) (cut : Option Completion) (c d : Context) : Prop where
  parent : d.parent = c.parent
  counted : d.counted = c.counted
  /-- A finished context stays as it is. -/
  final : c.isDone = true → d = c
  /-- A context that is cut off has that outcome. -/
  cutOff : c.isDone = false → ∀ o, cut = some o → d.outcome = some o
  ownDone : d.isDone = false → (d.ownDone = true ↔ c.ownDone = true ∨ told)
  /-- A context that is not cut off can only be completed. -/
  completed : c.isDone = false → cut = none → d.isDone = true →
    (c.ownDone = true ∨ told) ∧ d.outcome = some .completed

theorem Passes.refl (c : Context) : c.Passes False none c where
  parent := rfl
  counted := rfl
  final _ := rfl
  cutOff _ o h := absurd h (by simp)
  ownDone _ := by simp
  completed ho _ hd := absurd hd (by simp [ho])

/-- What is unfinished was unfinished before. -/
theorem Passes.isDone_eq_false (h : c.Passes told cut d) (hd : d.isDone = false) :
    c.isDone = false := by
  by_contra hc
  rw [Bool.not_eq_false] at hc
  rw [h.final hc, hc] at hd
  exact absurd hd (by simp)

/-- What follows of itself does not change what passes, so that a signal and its echoes make one
passage. -/
theorem Passes.trans (h : c.Passes told cut d) (h' : d.Passes False none e) :
    c.Passes told cut e where
  parent := h'.parent.trans h.parent
  counted := h'.counted.trans h.counted
  final hc := by
    have hd := h.final hc
    subst hd
    exact h'.final hc
  cutOff hc o ho := by
    have hd := h.cutOff hc o ho
    rw [h'.final (by simp [isDone, hd]), hd]
  ownDone he := by
    rw [h'.ownDone he, or_false, h.ownDone (h'.isDone_eq_false he)]
  completed hc hcut he := by
    cases hd : d.isDone with
    | true =>
      rw [h'.final hd]
      exact h.completed hc hcut hd
    | false =>
      obtain ⟨hown, hout⟩ := h'.completed hd rfl he
      exact ⟨(h.ownDone hd).mp (hown.resolve_right id), hout⟩

end Context

namespace Forest

variable {f : Forest} {s : Signal} {c d : Context} {i j : Nat}

/-- Whether a context exists and has no outcome yet, so that it still waits for its forks. -/
def IsOpen (f : Forest) (i : Nat) : Prop := ∃ c, f.contexts[i]? = some c ∧ c.isDone = false

theorem getElem?_put (h : f.contexts[i]? = some c) (d : Context) (j : Nat) :
    (f.put i d).contexts[j]? = if i = j then some d else f.contexts[j]? := by
  have hlt : i < f.contexts.size := (Array.getElem?_eq_some_iff.mp h).1
  simp [put, Array.getElem?_setIfInBounds, hlt]

@[simp] theorem size_put (f : Forest) (i : Nat) (d : Context) :
    (f.put i d).contexts.size = f.contexts.size := by
  simp [put]

/-- What a signal does: a callback is logged and asks for something; a signal that is too late, or
that says again what was said, is ignored; and any other is taken note of, and finishes its context
or not. -/
theorem step_cases (f : Forest) (s : Signal) :
    (∃ i k o, s = .call i k o ∧
      f.step s = ({ f with fired := f.fired ++ [⟨i, k.tag, o⟩] }, k.effects)) ∨
    (f.step s = (f, []) ∧ ∀ c, f.contexts[s.target]? = some c → c.isDone = false →
      s = .complete s.target ∧ c.ownDone = true) ∨
    (∃ c, f.contexts[s.target]? = some c ∧ c.isDone = false ∧ (∀ i k o, s ≠ .call i k o) ∧
      ((∃ o, (c.told s).verdict s = some o ∧ f.step s = f.finish s.target (c.told s) o) ∨
        (c.told s).verdict s = none ∧ f.step s = (f.put s.target (c.told s), []))) := by
  cases s with
  | complete i =>
    simp only [step, Signal.target]
    cases hc : f.contexts[i]? with
    | none => simp
    | some c =>
      cases hd : c.isDone <;> cases hown : c.ownDone <;> simp [hd, hown]
      rw [finishIfReady, Context.verdict]
      split <;> simp_all [Context.told]
  | force i o =>
    simp only [step, Signal.target]
    cases hc : f.contexts[i]? with
    | none => simp
    | some c => cases hd : c.isDone <;> simp [hd, Context.told, Context.verdict]
  | forkFinished i =>
    simp only [step, Signal.target]
    cases hc : f.contexts[i]? with
    | none => simp
    | some c =>
      cases hd : c.isDone <;> simp [hd]
      rw [finishIfReady, Context.verdict]
      split <;> simp_all [Context.told]
  | call i k o => exact .inl ⟨i, k, o, rfl, rfl⟩

/-! ### Passing -/

/-- Every context passes into the one at its place, and there are as many. -/
def Passes (told : Nat → Prop) (cut : Nat → Option Completion) (f g : Forest) : Prop :=
  g.contexts.size = f.contexts.size ∧
    ∀ i (c : Context), f.contexts[i]? = some c →
      ∃ d, g.contexts[i]? = some d ∧ c.Passes (told i) (cut i) d

/-- No callback of the forest asks for anything, so that only echoes follow from a signal. -/
def Plain (f : Forest) : Prop :=
  ∀ (i : Nat) (c : Context), f.contexts[i]? = some c → ∀ k ∈ c.callbacks, k.effects = []

theorem Passes.trans {told : Nat → Prop} {cut : Nat → Option Completion} {g h : Forest}
    (hfg : f.Passes told cut g) (hgh : g.Passes (fun _ => False) (fun _ => none) h) :
    f.Passes told cut h := by
  refine ⟨hgh.1.trans hfg.1, fun i c hc => ?_⟩
  obtain ⟨d, hd, hcd⟩ := hfg.2 i c hc
  obtain ⟨e, he, hde⟩ := hgh.2 i d hd
  exact ⟨e, he, hcd.trans hde⟩

/-- A forest in which only one context has changed. -/
theorem passes_put {told : Nat → Prop} {cut : Nat → Option Completion}
    (hc : f.contexts[i]? = some c) (hcd : c.Passes (told i) (cut i) d)
    (htold : ∀ j, j ≠ i → ¬ told j) (hcut : ∀ j, j ≠ i → cut j = none) :
    f.Passes told cut (f.put i d) := by
  refine ⟨size_put f i d, fun j e he => ?_⟩
  rw [getElem?_put hc]
  by_cases hij : i = j
  · subst hij
    obtain rfl : c = e := Option.some_inj.mp (hc.symm.trans he)
    exact ⟨d, by simp, hcd⟩
  · refine ⟨e, by simp [hij, he], ?_⟩
    have h1 : told j ↔ False := iff_of_false (htold j (Ne.symm hij)) id
    rw [propext h1, hcut j (Ne.symm hij)]
    exact Context.Passes.refl e

theorem plain_put (hf : f.Plain) (hd : ∀ k ∈ d.callbacks, k.effects = []) : (f.put i d).Plain := by
  intro j e he
  simp only [put, Array.getElem?_setIfInBounds] at he
  split at he
  · split at he
    · obtain rfl := Option.some_inj.mp he
      exact hd
    · exact absurd he (by simp)
  · exact hf j e he

theorem echo_consequences (hc : ∀ k ∈ c.callbacks, k.effects = []) (i : Nat) (o : Completion) :
    ∀ t ∈ c.consequences i o, t.IsEcho := by
  intro t ht
  rw [Context.consequences, List.mem_append, List.mem_map] at ht
  rcases ht with ⟨k, hk, rfl⟩ | ht
  · exact hc k hk
  · split at ht
    · obtain ⟨p, -, rfl⟩ := List.mem_map.mp ht
      exact trivial
    · exact absurd ht (by simp)

/-- A context stays as it is when a signal for it is ignored. -/
theorem passes_ignored (h : c.isDone = false → s.target = i → s = .complete i ∧ c.ownDone = true) :
    c.Passes (s.Completes i) (s.cuts i) c where
  parent := rfl
  counted := rfl
  final _ := rfl
  cutOff ho o hcut := by
    cases s with
    | force j o' =>
      have hj : j = i := (Option.ite_none_right_eq_some.mp hcut).1
      exact absurd (h ho hj).1 (by simp)
    | complete j => exact absurd hcut (by simp [Signal.cuts])
    | forkFinished j => exact absurd hcut (by simp [Signal.cuts])
    | call j k o' => exact absurd hcut (by simp [Signal.cuts])
  ownDone ho := by
    refine ⟨Or.inl, fun hor => hor.elim id fun hs => ?_⟩
    exact (h ho (by rw [hs, Signal.target])).2
  completed ho _ hd := absurd hd (by simp [ho])

/-- A context that has taken note of a signal and is not finished by it has passed. -/
theorem passes_told (hv : (c.told s).verdict s = none) (ho : c.isDone = false) :
    c.Passes (s.Completes s.target) (s.cuts s.target) (c.told s) where
  parent := Context.told_parent c s
  counted := Context.told_counted c s
  final hc := absurd hc (by simp [ho])
  cutOff _ o h := by
    cases s <;> simp [Signal.cuts, Context.verdict] at h hv
  ownDone _ := by
    cases s <;> simp [Context.told, Signal.Completes, Signal.target, Context.verdict] at hv ⊢
  completed _ _ hd := absurd hd (by simp [ho])

/-- A context that a signal finishes has passed. -/
theorem passes_finished {o : Completion} (hv : (c.told s).verdict s = some o)
    (ho : c.isDone = false) :
    c.Passes (s.Completes s.target) (s.cuts s.target) ((c.told s).finished o) where
  parent := Context.told_parent c s
  counted := Context.told_counted c s
  final hc := absurd hc (by simp [ho])
  cutOff _ o' h := by
    cases s <;> simp [Signal.cuts, Signal.target, Context.verdict, Context.finished] at h hv ⊢
    rw [← hv, h]
  ownDone h := absurd h (by simp)
  completed _ hcut _ := by
    cases s <;>
      simp [Signal.cuts, Signal.target, Context.verdict, Context.finished, Context.isReady,
        Context.told, Signal.Completes] at hcut hv ⊢
    · exact hv.2.symm
    · exact ⟨hv.1.1, hv.2.symm⟩

/-- A signal lets every context pass (`Context.Passes`), and what follows from it are echoes. -/
theorem passes_step (hf : f.Plain) (hs : ∀ i k o, s = .call i k o → k.effects = []) :
    f.Passes s.Completes s.cuts (f.step s).1 ∧ (f.step s).1.Plain ∧
      ∀ t ∈ (f.step s).2, t.IsEcho := by
  have hothers : ∀ j, j ≠ s.target → ¬ s.Completes j := by
    rintro j hj rfl
    exact hj rfl
  have hcuts : ∀ j, j ≠ s.target → s.cuts j = none := by
    intro j hj
    cases s with
    | force i o => exact if_neg (Ne.symm hj)
    | complete i => rfl
    | forkFinished i => rfl
    | call i k o => rfl
  rcases step_cases f s with ⟨i, k, o, rfl, h⟩ | ⟨h, hignored⟩ | ⟨c, hc, ho, -,
    ⟨o, hv, h⟩ | ⟨hv, h⟩⟩
  · rw [h, hs i k o rfl]
    refine ⟨⟨rfl, fun j c hc => ⟨c, hc, ?_⟩⟩, hf, by simp⟩
    simpa [Signal.Completes, Signal.cuts] using Context.Passes.refl c
  · rw [h]
    refine ⟨⟨rfl, fun j c hc => ⟨c, hc, passes_ignored fun ho hj => ?_⟩⟩, hf, by simp⟩
    subst hj
    exact hignored c hc ho
  · rw [h]
    have hcalls : ∀ k ∈ (c.told s).callbacks, k.effects = [] := by simpa using hf _ c hc
    refine ⟨passes_put hc (passes_finished hv ho) hothers hcuts,
      plain_put hf (by simp [Context.finished]), ?_⟩
    exact echo_consequences hcalls _ o
  · rw [h]
    have hcalls : ∀ k ∈ (c.told s).callbacks, k.effects = [] := by simpa using hf _ c hc
    exact ⟨passes_put hc (passes_told hv ho) hothers hcuts, plain_put hf hcalls, by simp⟩

/-- Echoes complete nothing and cut nothing off, and what follows from them are echoes. -/
theorem passes_echo (hf : f.Plain) (hs : s.IsEcho) :
    f.Passes (fun _ => False) (fun _ => none) (f.step s).1 ∧ (f.step s).1.Plain ∧
      ∀ t ∈ (f.step s).2, t.IsEcho := by
  have hplain : ∀ i k o, s = .call i k o → k.effects = [] := by
    rintro i k o rfl
    exact hs
  have htold : s.Completes = fun _ => False := by
    funext j
    refine eq_false ?_
    rintro rfl
    exact hs
  have hcut : s.cuts = fun _ => none := by
    funext j
    cases s with
    | force i o => exact hs.elim
    | complete i => rfl
    | forkFinished i => rfl
    | call i k o => rfl
  rw [← htold, ← hcut]
  exact passes_step hf hplain

/-- When echoes settle, every context has passed, with nothing completed from outside and nothing
cut off. -/
theorem passes_settle_echoes (f : Forest) (agenda : List Signal) (hf : f.Plain)
    (hs : ∀ t ∈ agenda, t.IsEcho) :
    f.Passes (fun _ => False) (fun _ => none) (f.settle agenda) ∧ (f.settle agenda).Plain := by
  -- The induction is on the work that is left.
  induction f, agenda using settle.induct with
  | case1 f =>
    rw [settle]
    exact ⟨⟨rfl, fun i c hc => ⟨c, hc, Context.Passes.refl c⟩⟩, hf⟩
  | case2 f s rest ih =>
    obtain ⟨hpass, hplain, hechoes⟩ := passes_echo hf (hs s List.mem_cons_self)
    have hnext : ∀ t ∈ (f.step s).2 ++ rest, t.IsEcho := by
      intro t ht
      exact (List.mem_append.mp ht).elim (hechoes t) fun h => hs t (List.mem_cons_of_mem _ h)
    obtain ⟨hpass', hplain'⟩ := ih hplain hnext
    rw [settle]
    exact ⟨hpass.trans hpass', hplain'⟩

/-- When a signal settles, every context has passed, by what the signal itself asks for
(`passes_settle_echoes` for the rest). -/
theorem passes_settle (hf : f.Plain) (hs : ∀ i k o, s = .call i k o → k.effects = []) :
    f.Passes s.Completes s.cuts (f.settle [s]) ∧ (f.settle [s]).Plain := by
  obtain ⟨hpass, hplain, hechoes⟩ := passes_step hf hs
  have h := passes_settle_echoes (f.step s).1 (f.step s).2 hplain hechoes
  rw [settle, List.append_nil]
  exact ⟨hpass.trans h.1, h.2⟩

end Forest

end Patchbay
