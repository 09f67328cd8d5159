import Mathlib.Data.List.Nodup
import Mathlib.Data.List.Perm.Basic

/-!
# What is seen along a run

A system takes one act after the other. `Moment` speaks about the acts of a run, each in the state
that it is done to, and `observed` lists what is seen of them. Where an act of one system is a list
of acts of another, the moments of the second are those inside the moments of the first
(`moment_observed`).
-/

namespace Patchbay

variable {S T A B C : Type} {step : S → A → S} {see look : S → A → List B} {p : S → A → Prop}

/-- Something holds of an act of a run, and of the state that it is done to. -/
def Moment (step : S → A → S) (s : S) (acts : List A) (p : S → A → Prop) : Prop :=
  ∃ before a after, acts = before ++ a :: after ∧ p (before.foldl step s) a

/-- What is seen along a run from a state, in order. -/
def observed (step : S → A → S) (see : S → A → List B) : S → List A → List B
  | _, [] => []
  | s, a :: rest => see s a ++ observed step see (step s a) rest

/-! ### Moments -/

theorem moment_nil {s : S} : ¬ Moment step s [] p := by
  rintro ⟨before, a, after, h, -⟩
  exact absurd h (by simp)

/-- A moment of a run is the first one, or one of the rest. -/
theorem moment_cons {s : S} {a : A} {rest : List A} :
    Moment step s (a :: rest) p ↔ p s a ∨ Moment step (step s a) rest p := by
  constructor
  · rintro ⟨before, b, after, h, hp⟩
    cases before with
    | nil =>
      obtain ⟨rfl, rfl⟩ := List.cons.inj h
      exact .inl hp
    | cons c before =>
      obtain ⟨rfl, rfl⟩ := List.cons.inj h
      exact .inr ⟨before, b, after, rfl, hp⟩
  · rintro (hp | ⟨before, b, after, rfl, hp⟩)
    · exact ⟨[], a, rest, rfl, hp⟩
    · exact ⟨a :: before, b, after, rfl, hp⟩

theorem moment_append {s : S} {acts more : List A} : Moment step s (acts ++ more) p ↔
    Moment step s acts p ∨ Moment step (acts.foldl step s) more p := by
  induction acts generalizing s with
  | nil => simp [moment_nil]
  | cons a acts ih =>
    rw [List.cons_append, moment_cons, moment_cons, ih, or_assoc, List.foldl_cons]

/-! ### Observations -/

theorem observed_append (s : S) (acts more : List A) : observed step see s (acts ++ more) =
    observed step see s acts ++ observed step see (acts.foldl step s) more := by
  induction acts generalizing s with
  | nil => rfl
  | cons a acts ih =>
    simp only [List.cons_append, observed, ih, List.append_assoc, List.foldl_cons]

/-- The last act adds what it shows. -/
theorem observed_concat (s : S) (acts : List A) (a : A) :
    observed step see s (acts ++ [a]) = observed step see s acts ++ see (acts.foldl step s) a := by
  simp [observed_append, observed]

/-- What is seen along a run is seen at one of its moments. -/
theorem mem_observed {s : S} {acts : List A} {b : B} :
    b ∈ observed step see s acts ↔ Moment step s acts fun s a => b ∈ see s a := by
  induction acts generalizing s with
  | nil => simp [observed, moment_nil]
  | cons a acts ih => rw [observed, List.mem_append, moment_cons, ih]

theorem map_observed (g : B → C) (s : S) (acts : List A) :
    (observed step see s acts).map g = observed step (fun s a => (see s a).map g) s acts := by
  induction acts generalizing s with
  | nil => rfl
  | cons a acts ih => rw [observed, observed, List.map_append, ih]

/-- Two things that are seen side by side can be listed one after the other. -/
theorem observed_perm (s : S) (acts : List A) :
    (observed step (fun s a => see s a ++ look s a) s acts).Perm
      (observed step see s acts ++ observed step look s acts) := by
  induction acts generalizing s with
  | nil => exact .nil
  | cons a acts ih =>
    simp only [observed, List.append_assoc]
    refine .append_left _ (((ih (step s a)).append_left _).trans ?_)
    simpa only [List.append_assoc] using
      List.perm_append_comm.append_right (observed step look (step s a) acts)

/-! ### Acts that are made of others -/

variable {part : T → B → T} {parts : S → A → List B} {view : S → T} {q : T → B → Prop}

/-- A run is seen as the run of all its parts. -/
theorem foldl_observed (hpart : ∀ s a, view (step s a) = (parts s a).foldl part (view s)) (s : S)
    (acts : List A) :
    (observed step parts s acts).foldl part (view s) = view (acts.foldl step s) := by
  induction acts generalizing s with
  | nil => rfl
  | cons a acts ih => rw [observed, List.foldl_append, ← hpart, ih, List.foldl_cons]

/-- The moments of the parts are the moments inside the acts. -/
theorem moment_observed (hpart : ∀ s a, view (step s a) = (parts s a).foldl part (view s)) {s : S}
    {acts : List A} : Moment part (view s) (observed step parts s acts) q ↔
      Moment step s acts fun s a => Moment part (view s) (parts s a) q := by
  induction acts generalizing s with
  | nil => simp [observed, moment_nil]
  | cons a acts ih => rw [observed, moment_append, ← hpart, moment_cons, ih]

end Patchbay
