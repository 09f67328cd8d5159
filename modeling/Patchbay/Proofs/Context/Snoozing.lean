import Patchbay.Proofs.Context.Settled

/-!
# Putting deadlines off

A snooze of a context reaches the contexts above it, itself among them, that come before the first
finished one (`Forest.Reaches`). Each of these that has a deadline expires at the later one of that
and the new time, and nothing else in the forest changes (`Forest.Snoozed`).

So a snooze only puts deadlines off. Neither does anything else that is done to a forest touch
them. Along a history, then, no deadline moves to an earlier time, whether it is the own one of a
context or the one that it shares with its nearest ancestor that has one (`Forest.Defers`,
`Forest.deadline?_rel`).
-/

namespace Patchbay

/-! ### A later deadline -/

namespace Context

variable {c d e : Context}

/-- The context with its deadline, if it has one, put off to a time. -/
def postponed (time : Nat) (c : Context) : Context :=
  { c with deadline := c.deadline.map (max · time) }

theorem postponed_postponed (time : Nat) (c : Context) :
    (c.postponed time).postponed time = c.postponed time := by
  cases h : c.deadline <;> simp [postponed, h]

/-- The context has the same parent, and a deadline exactly if it had one, which is not earlier.
Everything that is done to a forest does this to its contexts (`Forest.Defers`). -/
structure Defers (c d : Context) : Prop where
  parent : d.parent = c.parent
  deadline : Option.Rel (· ≤ ·) c.deadline d.deadline

theorem defers_of_eq (hparent : d.parent = c.parent) (hdeadline : d.deadline = c.deadline) :
    c.Defers d := by
  refine ⟨hparent, ?_⟩
  rw [hdeadline]
  cases c.deadline with
  | none => exact .none
  | some t => exact .some (Nat.le_refl t)

theorem Defers.refl (c : Context) : c.Defers c := defers_of_eq rfl rfl

theorem Defers.trans (h : c.Defers d) (h' : d.Defers e) : c.Defers e := by
  refine ⟨h'.parent.trans h.parent, ?_⟩
  have hcd := h.deadline
  have hde := h'.deadline
  generalize c.deadline = t, d.deadline = t', e.deadline = t'' at hcd hde ⊢
  cases hcd with
  | none =>
    cases hde
    exact .none
  | some hle =>
    cases hde with
    | some hle' => exact .some (Nat.le_trans hle hle')

theorem defers_postponed (time : Nat) (c : Context) : c.Defers (c.postponed time) := by
  refine ⟨rfl, ?_⟩
  rw [postponed]
  cases c.deadline with
  | none => exact .none
  | some t => exact .some (Nat.le_max_left t time)

theorem told_deadline (c : Context) (s : Signal) : (c.told s).deadline = c.deadline := by
  cases s <;> rfl

end Context

namespace Forest

/-! ### What a snooze reaches -/

/-- The contexts that a snooze of a context reaches: that one and those above it, up to the first
finished one. A parent always stands before its forks. -/
inductive Reaches (f : Forest) : Nat → Nat → Prop where
  | self {i : Nat} (h : f.IsOpen i) : f.Reaches i i
  | up {i p j : Nat} (h : f.IsOpen i) (hparent : f.parent? i = some p) (hlt : p < i)
      (hp : f.Reaches p j) : f.Reaches i j

/-- What a snooze makes of a forest: the contexts that it reaches have their deadlines put off, and
all else is as it was. -/
structure Snoozed (f : Forest) (i time : Nat) (g : Forest) : Prop where
  fired : g.fired = f.fired
  size : g.contexts.size = f.contexts.size
  reached : ∀ j c, f.contexts[j]? = some c → f.Reaches i j →
    g.contexts[j]? = some { c with deadline := c.deadline.map (max · time) }
  others : ∀ j c, f.contexts[j]? = some c → ¬ f.Reaches i j → g.contexts[j]? = some c

variable {f g h : Forest} {c d : Context} {i j p : Nat}

theorem Reaches.isOpen (h : f.Reaches i j) : f.IsOpen i := by
  cases h <;> assumption

theorem liveLineage_of_none (h : f.contexts[i]? = none) : f.liveLineage i = [] := by
  rw [liveLineage, lineage, h]
  rfl

theorem liveLineage_of_isDone (hc : f.contexts[i]? = some c) (hd : c.isDone = true) :
    f.liveLineage i = [] := by
  rw [liveLineage, lineage, hc]
  simp [hd]

theorem liveLineage_of_isOpen (hc : f.contexts[i]? = some c) (hd : c.isDone = false) :
    f.liveLineage i = i :: match c.parent with
      | none => []
      | some p => if p < i then f.liveLineage p else [] := by
  rw [liveLineage, lineage, hc]
  cases hp : c.parent with
  | none => simp [hd, hp]
  | some p => by_cases hlt : p < i <;> simp [hd, hp, hlt, liveLineage]

/-- The walk up from a context (`Forest.liveLineage`) visits what a snooze of it reaches
(`Forest.Reaches`). -/
theorem mem_liveLineage (f : Forest) (i j : Nat) : j ∈ f.liveLineage i ↔ f.Reaches i j := by
  induction i using Nat.strongRecOn with
  | ind i ih =>
    by_cases hopen : f.IsOpen i
    · obtain ⟨c, hc, hd⟩ := hopen
      have hparent : f.parent? i = c.parent := by rw [parent?, hc, Option.bind_some]
      rw [liveLineage_of_isOpen hc hd, List.mem_cons]
      constructor
      · rintro (rfl | hj)
        · exact .self ⟨c, hc, hd⟩
        · split at hj
          · cases hj
          · rename_i p hp
            split at hj
            · rename_i hlt
              exact .up ⟨c, hc, hd⟩ (hparent.trans hp) hlt ((ih p hlt).mp hj)
            · cases hj
      · intro hj
        cases hj with
        | self h => exact .inl rfl
        | up h hp hlt hj =>
          rw [hparent] at hp
          rw [hp]
          dsimp only
          rw [if_pos hlt]
          exact .inr ((ih _ hlt).mpr hj)
    · have hnil : f.liveLineage i = [] := by
        cases hc : f.contexts[i]? with
        | none => exact liveLineage_of_none hc
        | some c =>
          cases hd : c.isDone with
          | true => exact liveLineage_of_isDone hc hd
          | false => exact absurd ⟨c, hc, hd⟩ hopen
      rw [hnil]
      exact iff_of_false List.not_mem_nil fun h => hopen h.isOpen

theorem getElem?_postpone (f : Forest) (i time j : Nat) : (f.postpone i time).contexts[j]? =
    if i = j then (f.contexts[j]?).map (·.postponed time) else f.contexts[j]? := by
  rw [postpone]
  split
  · rename_i hc
    split
    · rename_i hij
      rw [← hij, hc, Option.map_none]
    · rfl
  · rename_i c hc
    rw [getElem?_put hc]
    split
    · rename_i hij
      rw [← hij, hc, Option.map_some, Context.postponed]
    · rfl

theorem postpone_fired (f : Forest) (i time : Nat) : (f.postpone i time).fired = f.fired := by
  rw [postpone]
  split <;> rfl

theorem size_postpone (f : Forest) (i time : Nat) :
    (f.postpone i time).contexts.size = f.contexts.size := by
  rw [postpone]
  split
  · rfl
  · exact size_put f i _

/-- A context that is put off more than once is put off all the same. -/
theorem getElem?_postponeAll (f : Forest) (positions : List Nat) (time j : Nat) :
    (positions.foldl (fun f i => f.postpone i time) f).contexts[j]? =
      if j ∈ positions then (f.contexts[j]?).map (·.postponed time) else f.contexts[j]? := by
  induction positions generalizing f with
  | nil => rfl
  | cons i positions ih =>
    rw [List.foldl_cons, ih, getElem?_postpone]
    by_cases hij : i = j
    · by_cases hj : j ∈ positions <;>
        simp [hij, hj, Function.comp_def, Context.postponed_postponed]
    · by_cases hj : j ∈ positions <;> simp [hij, Ne.symm hij, hj]

/-- A snooze puts off the deadlines of what it reaches and changes nothing else (`Forest.Snoozed`).
-/
theorem snoozed_snooze (f : Forest) (now i extension : Nat) :
    f.Snoozed i (now + extension) (f.snooze now i extension) := by
  have hget : ∀ j, (f.snooze now i extension).contexts[j]? =
      if j ∈ f.liveLineage i then (f.contexts[j]?).map (·.postponed (now + extension))
      else f.contexts[j]? :=
    getElem?_postponeAll f (f.liveLineage i) (now + extension)
  have hrest : (f.snooze now i extension).fired = f.fired ∧
      (f.snooze now i extension).contexts.size = f.contexts.size := by
    rw [snooze]
    refine List.foldlRecOn _ _ (motive := fun g : Forest => g.fired = f.fired ∧
      g.contexts.size = f.contexts.size) ⟨rfl, rfl⟩ fun g hg j _ => ?_
    exact ⟨(postpone_fired g j _).trans hg.1, (size_postpone g j _).trans hg.2⟩
  refine ⟨hrest.1, hrest.2, fun j c hc hj => ?_, fun j c hc hj => ?_⟩
  · rw [hget, if_pos ((mem_liveLineage f i j).mpr hj), hc, Option.map_some, Context.postponed]
  · rw [hget, if_neg fun h => hj ((mem_liveLineage f i j).mp h), hc]

/-! ### What is done to a forest moves no deadline to an earlier time -/

/-- Every context is still there, with the same parent, and its deadline is not earlier. -/
def Defers (f g : Forest) : Prop :=
  ∀ (j : Nat) (c : Context), f.contexts[j]? = some c → ∃ d, g.contexts[j]? = some d ∧ c.Defers d

theorem Defers.refl (f : Forest) : f.Defers f := fun _ c hc => ⟨c, hc, .refl c⟩

theorem Defers.trans (hfg : f.Defers g) (hgh : g.Defers h) : f.Defers h := by
  intro j c hc
  obtain ⟨d, hd, hcd⟩ := hfg j c hc
  obtain ⟨e, he, hde⟩ := hgh j d hd
  exact ⟨e, he, hcd.trans hde⟩

theorem defers_put (hc : f.contexts[i]? = some c) (hcd : c.Defers d) : f.Defers (f.put i d) := by
  intro j e he
  rw [getElem?_put hc]
  split
  · rename_i hij
    subst hij
    obtain rfl := Option.some_inj.mp (hc.symm.trans he)
    exact ⟨d, rfl, hcd⟩
  · exact ⟨e, he, .refl e⟩

theorem defers_push (f : Forest) (c : Context) : f.Defers (f.push c) := by
  intro j e he
  have hne : j ≠ f.contexts.size := Nat.ne_of_lt (Array.getElem?_eq_some_iff.mp he).1
  rw [getElem?_push, if_neg hne]
  exact ⟨e, he, .refl e⟩

theorem defers_step (f : Forest) (s : Signal) : f.Defers (f.step s).1 := by
  rcases step_cases f s with ⟨i, k, o, -, h⟩ | ⟨h, -⟩ | ⟨c, hc, -, -, ⟨o, -, h⟩ | ⟨-, h⟩⟩ <;>
    rw [h]
  · exact fun j e he => ⟨e, he, .refl e⟩
  · exact .refl f
  · exact defers_put hc (Context.defers_of_eq (c.told_parent s) (c.told_deadline s))
  · exact defers_put hc (Context.defers_of_eq (c.told_parent s) (c.told_deadline s))

theorem defers_settle (f : Forest) (agenda : List Signal) : f.Defers (f.settle agenda) := by
  induction f, agenda using settle.induct with
  | case1 f =>
    rw [settle]
    exact .refl f
  | case2 f s rest ih =>
    rw [settle]
    exact (defers_step f s).trans ih

theorem defers_fork (f : Forest) (i : Nat) (originator : Option String) :
    f.Defers (f.fork i originator).1 := by
  by_cases hopen : f.IsOpen i
  · obtain ⟨c, hc, ho⟩ := hopen
    rw [fork_of_isOpen hc ho]
    have hput : f.Defers (f.put i { c with outstanding := c.outstanding + 1 }) :=
      defers_put hc (Context.defers_of_eq rfl rfl)
    exact hput.trans (defers_push _ _)
  · rw [fork_of_not_isOpen hopen]
    exact defers_push f _

theorem defers_addCallback (f : Forest) (i : Nat) (k : Callback) :
    f.Defers (f.addCallback i k) := by
  rw [addCallback]
  split
  · exact .refl f
  · rename_i c hc
    split
    · exact defers_settle f _
    · exact defers_put hc (Context.defers_of_eq rfl rfl)

theorem defers_perform (f : Forest) (a : Act) : f.Defers (f.perform a) := by
  cases a with
  | root originator metadata deadline => exact defers_push f _
  | fork i originator => exact defers_fork f i originator
  | complete i => exact defers_settle f _
  | cancel i => exact defers_settle f _
  | expire i => exact defers_settle f _
  | callback i tag => exact defers_addCallback f i _

theorem Snoozed.defers {time : Nat} (h : f.Snoozed i time g) : f.Defers g := by
  intro j c hc
  by_cases hj : f.Reaches i j
  · exact ⟨_, h.reached j c hc hj, c.defers_postponed time⟩
  · exact ⟨c, h.others j c hc hj, .refl c⟩

/-- The deadline that a context has or shares is its own one, or else that of its parent. -/
theorem deadline?_eq (hc : f.contexts[i]? = some c) : f.deadline? i =
    c.deadline.or (c.parent.bind fun p => if p < i then f.deadline? p else none) := by
  rw [deadline?, lineage, hc]
  cases hd : c.deadline with
  | some t => simp [hd]
  | none =>
    cases hp : c.parent with
    | none => simp [hd, hp]
    | some p => by_cases hlt : p < i <;> simp [hd, hp, hlt, deadline?]

/-- Where no own deadline is earlier, no shared one is. The induction is on the position, for a
parent stands in front. -/
theorem deadline?_rel (h : f.Defers g) (hi : i < f.contexts.size) :
    Option.Rel (· ≤ ·) (f.deadline? i) (g.deadline? i) := by
  induction i using Nat.strongRecOn with
  | ind i ih =>
    have hc := Array.getElem?_eq_getElem hi
    obtain ⟨d, hd, hcd⟩ := h i _ hc
    rw [deadline?_eq hc, deadline?_eq hd, hcd.parent]
    have hown := hcd.deadline
    generalize f.contexts[i].deadline = t, d.deadline = t' at hown ⊢
    cases hown with
    | some hle => exact .some hle
    | none =>
      cases f.contexts[i].parent with
      | none => exact .none
      | some p =>
        simp only [Option.none_or, Option.bind_some]
        split
        · rename_i hlt
          exact ih p hlt (Nat.lt_trans hlt hi)
        · exact .none

/-! ### Histories with snoozes -/

/-- One thing that is done to a forest, at some time: an act, a callback that may ask for more, or
a snooze. -/
inductive Deed where
  | act (a : Act)
  /-- A callback is added, which may complete and cancel other contexts. -/
  | callback (context : Nat) (k : Callback)
  | snooze (now context extension : Nat)

/-- The forest after a deed. -/
def undergo (f : Forest) : Deed → Forest
  | .act a => f.perform a
  | .callback i k => f.addCallback i k
  | .snooze now i extension => f.snooze now i extension

theorem defers_undergo (f : Forest) (deed : Deed) : f.Defers (f.undergo deed) := by
  cases deed with
  | act a => exact defers_perform f a
  | callback i k => exact defers_addCallback f i k
  | snooze now i extension => exact (snoozed_snooze f now i extension).defers

theorem defers_foldl_undergo (f : Forest) (deeds : List Deed) :
    f.Defers (deeds.foldl undergo f) := by
  induction deeds generalizing f with
  | nil => exact .refl f
  | cons deed deeds ih => exact (defers_undergo f deed).trans (ih _)

/-- No deadline in the second forest is earlier than in the first, be it the own one of a context
or the one that it shares (`Forest.deadline?`). -/
structure NeverEarlier (f g : Forest) : Prop where
  own : f.Defers g
  shared : ∀ j, j < f.contexts.size → Option.Rel (· ≤ ·) (f.deadline? j) (g.deadline? j)

/-- Snoozing puts off the deadlines of the unfinished chain above a context and touches nothing
else (`Forest.Snoozed`); and whatever is done to a forest, in any order and at any times, no
deadline moves to an earlier time (`Forest.NeverEarlier`). -/
theorem snoozes_only_extend (f : Forest) :
    (∀ now i extension, f.Snoozed i (now + extension) (f.snooze now i extension)) ∧
      ∀ deeds : List Deed, f.NeverEarlier (deeds.foldl undergo f) := by
  refine ⟨snoozed_snooze f, fun deeds => ?_⟩
  have hdefers := defers_foldl_undergo f deeds
  exact ⟨hdefers, fun j hj => deadline?_rel hdefers hj⟩

end Forest

end Patchbay
