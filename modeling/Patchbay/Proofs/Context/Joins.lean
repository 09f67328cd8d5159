import Mathlib.Data.Set.Card
import Mathlib.Logic.Relation
import Patchbay.Proofs.Context.Acts

/-!
# A context joins its forks

What a forest says about a context is exactly what its history tells. The counter of an unfinished
context is the number of the forks taken from it that are unfinished themselves; a context is
completed when its own work was marked complete and all forks that it waits for are finished, and
not before; and a context that was cut off has the outcome that it was cut off with.

The forest does not keep its history, so each part of it is first read off the contexts: which
forks a context waits for (`awaits_iff`), whether its own work is done (`ownDone_iff`), and how it
was cut off (`cutOff_iff_outcome`). Together with the books of the forest this gives
`exactJoin_run`.
-/

namespace Patchbay.Forest

variable {acts : List Act} {a : Act} {c d : Context} {i j : Nat} {o : Completion}

/-! ### Histories -/

/-- A fork was taken from a context while that was unfinished, so that the context waits for it. -/
def Awaits (acts : List Act) (i j : Nat) : Prop :=
  Happens acts fun f a =>
    f.IsOpen i ∧ ∃ originator, a = .fork i originator ∧ j = (f.fork i originator).2

/-- The own work of a context was marked complete by an act of the history, whether or not the
context took notice. -/
def Marked (acts : List Act) (i : Nat) : Prop :=
  Happens acts fun f a => a = .complete i ∧ i < f.contexts.size

/-- The own work of a context was marked complete while it was unfinished. -/
def MarkedOpen (acts : List Act) (i : Nat) : Prop :=
  Happens acts fun f a => a = .complete i ∧ f.IsOpen i

/-- An unfinished context was cancelled, or its deadline was over. It has that outcome for good. -/
def CutOff (acts : List Act) (i : Nat) (o : Completion) : Prop :=
  Happens acts fun f a => a.cuts i = some o ∧ f.IsOpen i

/-- What a forest says about its contexts is what the history tells: the counters, when a context
is completed, which outcome a context has that was cut off, and that outcomes are final. -/
structure ExactJoin (acts : List Act) : Prop where
  /-- The counter of an unfinished context is the number of its unfinished forks. -/
  outstanding : ∀ i, (run acts).IsOpen i →
    {j | Awaits acts i j ∧ (run acts).outcome j = none}.encard = (run acts).outstanding i
  /-- Whenever the word of a finished fork reaches an unfinished context, its counter is not at
  zero. -/
  outstanding_pos : ∀ (a : Act) (f : Forest) (i : Nat) (rest : List Signal) (c : Context),
    Settles (run acts) a.signals f (.forkFinished i :: rest) → f.contexts[i]? = some c →
      c.isDone = false → 0 < c.outstanding
  /-- A context is completed when its own work and all that it waits for is done. -/
  completed_iff : ∀ i, (run acts).outcome i = some .completed ↔
    MarkedOpen acts i ∧ (∀ j, Awaits acts i j → (run acts).outcome j ≠ none) ∧
      ∀ o, ¬ CutOff acts i o
  /-- A context that was cut off keeps that outcome. -/
  cutOff_iff : ∀ i o, CutOff acts i o ↔ o ≠ .completed ∧ (run acts).outcome i = some o
  /-- Nothing that happens later touches a finished context, whether to it or to its forks. -/
  final : ∀ (before after : List Act) (i : Nat) (c : Context), acts = before ++ after →
    (run before).contexts[i]? = some c → c.isDone = true → (run acts).contexts[i]? = some c
  /-- Where nothing is cut off, a context is completed when all that it reaches is marked
  complete. -/
  completed_iff_marked : (∀ a ∈ acts, ∀ i, a.cuts i = none) → ∀ i,
    (run acts).outcome i = some .completed ↔
      ∀ j, Relation.ReflTransGen (Awaits acts) i j → Marked acts j

/-! ### What the contexts tell of the history -/

/-- A context was there before the last act, or that act has added it. -/
theorem getElem?_run_concat (hd : (run (acts ++ [a])).contexts[i]? = some d) :
    (∃ c, (run acts).contexts[i]? = some c ∧ c.Passes (a = .complete i) (a.cuts i) d) ∨
      i = (run acts).contexts.size ∧ (run acts).newcomer a = some d := by
  rw [run_concat] at hd
  cases hc : (run acts).contexts[i]? with
  | some c =>
    obtain ⟨d', hd', hpass⟩ := passes_perform (plain_run acts) a hc
    obtain rfl := Option.some_inj.mp (hd'.symm.trans hd)
    exact .inl ⟨c, rfl, hpass⟩
  | none =>
    rw [getElem?_perform (plain_run acts) a (Array.getElem?_eq_none_iff.mp hc)] at hd
    obtain ⟨hi, hnew⟩ := Option.ite_none_right_eq_some.mp hd
    exact .inr ⟨hi, hnew⟩

/-- A context stays where it is. -/
theorem lt_size_concat (hi : i < (run acts).contexts.size) (a : Act) :
    i < (run (acts ++ [a])).contexts.size := by
  obtain ⟨d, hd, -⟩ := passes_perform (plain_run acts) a (Array.getElem?_eq_getElem hi)
  rw [run_concat]
  exact (Array.getElem?_eq_some_iff.mp hd).1

theorem newcomer_fresh {f : Forest} (h : f.newcomer a = some c) :
    c.outcome = none ∧ c.ownDone = false := by
  cases a <;> simp only [newcomer, Option.some.injEq, reduceCtorEq] at h <;> subst h <;>
    exact ⟨rfl, rfl⟩

theorem IsOpen.lt {f : Forest} (h : f.IsOpen i) : i < f.contexts.size := by
  obtain ⟨c, hc, -⟩ := h
  exact (Array.getElem?_eq_some_iff.mp hc).1

/-- What happens to a context happens to one that is there. -/
theorem lt_of_happens {p : Forest → Act → Prop} (hp : ∀ f a, p f a → i < f.contexts.size)
    (h : Happens acts p) : i < (run acts).contexts.size := by
  induction acts using List.reverseRecOn with
  | nil => exact absurd h happens_nil
  | append_singleton acts a ih =>
    rcases happens_concat.mp h with h | h
    · exact lt_size_concat (ih h) a
    · exact lt_size_concat (hp _ a h) a

theorem MarkedOpen.marked (h : MarkedOpen acts i) : Marked acts i := by
  obtain ⟨before, act, after, hacts, ha, ho⟩ := h
  exact ⟨before, act, after, hacts, ha, ho.lt⟩

/-- The forks that a context waits for are those that say so (`Context.counted`), with that context
as their parent. -/
theorem awaits_iff (acts : List Act) (i j : Nat) : Awaits acts i j ↔
    ∃ d, (run acts).contexts[j]? = some d ∧ d.counted = true ∧ d.parent = some i := by
  induction acts using List.reverseRecOn with
  | nil =>
    refine iff_of_false happens_nil ?_
    rintro ⟨d, hd, -⟩
    exact absurd hd (by simp [run])
  | append_singleton acts a ih =>
    rw [Awaits, happens_concat, ← Awaits, ih]
    constructor
    · rintro (⟨c, hc, hcounted, hparent⟩ | ⟨hopen, originator, rfl, rfl⟩)
      · obtain ⟨d, hd, hpass⟩ := passes_perform (plain_run acts) a hc
        rw [run_concat]
        exact ⟨d, hd, hpass.counted.trans hcounted, hpass.parent.trans hparent⟩
      · rw [run_concat, fork_snd, getElem?_perform (plain_run acts) _ le_rfl, if_pos rfl]
        exact ⟨_, rfl, any_iff_isOpen.mpr hopen, rfl⟩
    · rintro ⟨d, hd, hcounted, hparent⟩
      rcases getElem?_run_concat hd with ⟨c, hc, hpass⟩ | ⟨rfl, hnew⟩
      · exact .inl ⟨c, hc, hpass.counted.symm.trans hcounted, hpass.parent.symm.trans hparent⟩
      · refine .inr ?_
        cases a with
        | fork p originator =>
          obtain rfl := Option.some_inj.mp hnew
          obtain rfl := Option.some_inj.mp hparent
          exact ⟨any_iff_isOpen.mp hcounted, originator, rfl, (fork_snd _ p originator).symm⟩
        | root originator metadata deadline =>
          obtain rfl := Option.some_inj.mp hnew
          exact absurd hcounted (by simp)
        | complete p => exact absurd hnew (by simp [newcomer])
        | cancel p => exact absurd hnew (by simp [newcomer])
        | expire p => exact absurd hnew (by simp [newcomer])
        | callback p tag => exact absurd hnew (by simp [newcomer])

/-- An unfinished context knows whether its own work is done (`MarkedOpen`). -/
theorem ownDone_iff (acts : List Act) : ∀ (i : Nat) (c : Context), (run acts).contexts[i]? =
    some c →
    c.isDone = false → (c.ownDone = true ↔ MarkedOpen acts i) := by
  induction acts using List.reverseRecOn with
  | nil =>
    intro i c hc
    exact absurd hc (by simp [run])
  | append_singleton acts a ih =>
    intro i d hd hopen
    rw [MarkedOpen, happens_concat, ← MarkedOpen]
    rcases getElem?_run_concat hd with ⟨c, hc, hpass⟩ | ⟨rfl, hnew⟩
    · have hcopen : c.isDone = false := hpass.isDone_eq_false hopen
      rw [hpass.ownDone hopen, ih i c hc hcopen]
      exact or_congr_right ⟨fun h => ⟨h, c, hc, hcopen⟩, And.left⟩
    · refine iff_of_false (by simp [(newcomer_fresh hnew).2]) ?_
      rintro (h | ⟨-, h⟩)
      · exact absurd (lt_of_happens (fun f a h => h.2.lt) h) (lt_irrefl _)
      · exact absurd h.lt (lt_irrefl _)

/-- A context can only be completed once its own work was marked complete, while it was unfinished.
-/
theorem markedOpen_of_completed (acts : List Act) : ∀ (i : Nat) (c : Context),
    (run acts).contexts[i]? = some c → c.outcome = some .completed → MarkedOpen acts i := by
  induction acts using List.reverseRecOn with
  | nil =>
    intro i c hc
    exact absurd hc (by simp [run])
  | append_singleton acts a ih =>
    intro i d hd hout
    have hdone : d.isDone = true := by simp [Context.isDone, hout]
    rw [MarkedOpen, happens_concat, ← MarkedOpen]
    rcases getElem?_run_concat hd with ⟨c, hc, hpass⟩ | ⟨rfl, hnew⟩
    · cases hopen : c.isDone with
      | true =>
        rw [hpass.final hopen] at hout
        exact .inl (ih i c hc hout)
      | false =>
        have hcut : a.cuts i = none := by
          by_contra h
          obtain ⟨o, ho⟩ := Option.ne_none_iff_exists'.mp h
          have := hpass.cutOff hopen o ho
          rw [hout] at this
          exact Act.cuts_ne_completed ho (Option.some_inj.mp this).symm
        rcases (hpass.completed hopen hcut hdone).1 with hown | ha
        · exact .inl ((ownDone_iff acts i c hc hopen).mp hown)
        · exact .inr ⟨ha, c, hc, hopen⟩
    · exact absurd ((newcomer_fresh hnew).1.symm.trans hout) (by simp)

/-- A context is cut off exactly when it has an outcome other than being completed. -/
theorem cutOff_iff_outcome (acts : List Act) (i : Nat) (o : Completion) :
    CutOff acts i o ↔ o ≠ .completed ∧ (run acts).outcome i = some o := by
  induction acts using List.reverseRecOn with
  | nil => exact iff_of_false happens_nil (by simp [run, outcome])
  | append_singleton acts a ih =>
    rw [CutOff, happens_concat, ← CutOff, ih]
    constructor
    · rintro (⟨ho, hout⟩ | ⟨hcut, c, hc, hopen⟩)
      · obtain ⟨c, hc, hco⟩ := Option.bind_eq_some_iff.mp hout
        obtain ⟨d, hd, hpass⟩ := passes_perform (plain_run acts) a hc
        rw [hpass.final (by simp [Context.isDone, hco])] at hd
        exact ⟨ho, by rw [run_concat, outcome, hd, Option.bind_some, hco]⟩
      · obtain ⟨d, hd, hpass⟩ := passes_perform (plain_run acts) a hc
        refine ⟨Act.cuts_ne_completed hcut, ?_⟩
        rw [run_concat, outcome, hd, Option.bind_some, hpass.cutOff hopen o hcut]
    · rintro ⟨ho, hout⟩
      obtain ⟨d, hd, hdo⟩ := Option.bind_eq_some_iff.mp hout
      have hdone : d.isDone = true := by simp [Context.isDone, hdo]
      rcases getElem?_run_concat hd with ⟨c, hc, hpass⟩ | ⟨rfl, hnew⟩
      · cases hopen : c.isDone with
        | true =>
          rw [hpass.final hopen] at hdo
          exact .inl ⟨ho, by rw [outcome, hc, Option.bind_some, hdo]⟩
        | false =>
          refine .inr ⟨?_, c, hc, hopen⟩
          cases hcut : a.cuts i with
          | none =>
            have := (hpass.completed hopen hcut hdone).2
            rw [hdo] at this
            exact absurd (Option.some_inj.mp this) ho
          | some o' =>
            have := hpass.cutOff hopen o' hcut
            rw [hdo] at this
            exact this.symm
      · exact absurd ((newcomer_fresh hnew).1.symm.trans hdo) (by simp)

/-- A finished context stays as it is. -/
theorem getElem?_run_append (before after : List Act) (hc : (run before).contexts[i]? = some c)
    (hdone : c.isDone = true) : (run (before ++ after)).contexts[i]? = some c := by
  induction after using List.reverseRecOn with
  | nil => rwa [List.append_nil]
  | append_singleton after a ih =>
    obtain ⟨d, hd, hpass⟩ := passes_perform (plain_run _) a ih
    rw [← List.append_assoc, run_concat, hd, hpass.final hdone]

/-! ### Counting -/

/-- The positions of the items that satisfy a test are as many as the items that satisfy it. -/
theorem encard_positions {α : Type} (p : α → Bool) (l : List α) :
    {j : Nat | ∃ a, l[j]? = some a ∧ p a = true}.encard = l.countP p := by
  induction l with
  | nil => simp
  | cons b l ih =>
    have hsucc : {j : Nat | ∃ a, (b :: l)[j]? = some a ∧ p a = true} =
        (if p b then {0} else ∅) ∪ Nat.succ '' {j : Nat | ∃ a, l[j]? = some a ∧ p a = true} := by
      ext j
      cases j with
      | zero => by_cases hb : p b = true <;> simp [hb]
      | succ j => by_cases hb : p b = true <;> simp [hb]
    have hdisjoint : Disjoint (if p b then {0} else ∅ : Set Nat)
        (Nat.succ '' {j : Nat | ∃ a, l[j]? = some a ∧ p a = true}) := by
      split <;> simp
    rw [hsucc, Set.encard_union_eq hdisjoint, Nat.succ_injective.encard_image, ih,
      List.countP_cons]
    split <;> simp [add_comm]

/-- The unfinished forks of a context are those that the forest counts for it (`Forest.pending`).
-/
theorem encard_awaits (acts : List Act) (i : Nat) :
    {j | Awaits acts i j ∧ (run acts).outcome j = none}.encard = (run acts).pending i := by
  have hset : {j | Awaits acts i j ∧ (run acts).outcome j = none} =
      {j : Nat | ∃ d, (run acts).contexts.toList[j]? = some d ∧ d.isAwaitedBy i = true} := by
    ext j
    simp only [Set.mem_ofPred_eq, awaits_iff, outcome, Array.getElem?_toList, Context.isAwaitedBy,
      Context.isDone, Bool.and_eq_true, beq_iff_eq, Bool.not_eq_true', Option.isSome_eq_false_iff,
      Option.isNone_iff_eq_none]
    constructor
    · rintro ⟨⟨d, hd, hcounted, hparent⟩, hout⟩
      rw [hd] at hout
      exact ⟨d, hd, ⟨hcounted, hparent⟩, hout⟩
    · rintro ⟨d, hd, ⟨hcounted, hparent⟩, hout⟩
      exact ⟨⟨d, hd, hcounted, hparent⟩, by rw [hd, Option.bind_some, hout]⟩
  rw [hset, encard_positions, pending, Array.countP_toList]

/-- A context waits for no unfinished fork exactly when its forks all have an outcome. -/
theorem pending_eq_zero_iff (acts : List Act) (i : Nat) :
    (run acts).pending i = 0 ↔ ∀ j, Awaits acts i j → (run acts).outcome j ≠ none := by
  rw [← Nat.cast_eq_zero (R := ℕ∞), ← encard_awaits, Set.encard_eq_zero,
    Set.eq_empty_iff_forall_notMem]
  simp only [Set.mem_ofPred_eq, not_and, ne_eq]

/-! ### Joining -/

theorem completed_iff_joined (acts : List Act) (i : Nat) :
    (run acts).outcome i = some .completed ↔ MarkedOpen acts i ∧
      (∀ j, Awaits acts i j → (run acts).outcome j ≠ none) ∧ ∀ o, ¬ CutOff acts i o := by
  rw [← pending_eq_zero_iff]
  constructor
  · intro hout
    obtain ⟨c, hc, hco⟩ := Option.bind_eq_some_iff.mp hout
    refine ⟨markedOpen_of_completed acts i c hc hco, (balanced_run acts).completed i c hc hco, ?_⟩
    intro o ho
    obtain ⟨hne, hout'⟩ := (cutOff_iff_outcome acts i o).mp ho
    exact hne (Option.some_inj.mp (hout'.symm.trans hout))
  · rintro ⟨hmarked, hpending, hcut⟩
    have hlt : i < (run acts).contexts.size := lt_of_happens (fun f a h => h.2.lt) hmarked
    have hc := Array.getElem?_eq_getElem hlt
    cases hout : (run acts).outcome i with
    | some o =>
      by_contra hne
      exact hcut o ((cutOff_iff_outcome acts i o).mpr ⟨fun h => hne (congrArg some h), hout⟩)
    | none =>
      -- The context would be ready, and what is ready has finished.
      rw [outcome, hc, Option.bind_some] at hout
      have hopen : (run acts).contexts[i].isDone = false := by simp [Context.isDone, hout]
      have hown := (ownDone_iff acts i _ hc hopen).mpr hmarked
      have hzero := (balanced_run acts).outstanding i _ hc hopen
      have hready := (balanced_run acts).unready i _ hc hopen
      rw [hpending] at hzero
      simp [Context.isReady, hown, hzero] at hready

/-- A root whose own work is done waits for its fork. -/
example : (run [.root none none none, .fork 0 none, .complete 0]).outcome 0 = none ∧
    (run [.root none none none, .fork 0 none, .complete 0, .complete 1]).outcome 0 =
      some .completed := by
  constructor <;> cbv

/-- A fork stands behind the context that it was taken from. -/
theorem Awaits.lt (h : Awaits acts i j) : i < j ∧ j < (run acts).contexts.size := by
  obtain ⟨d, hd, hcounted, hparent⟩ := (awaits_iff acts i j).mp h
  exact ⟨(balanced_run acts).behind j d hd hcounted i hparent,
    (Array.getElem?_eq_some_iff.mp hd).1⟩

/-- Without cut-offs, all that a completed context reaches is completed. -/
theorem completed_of_reaches (hcut : ∀ i o, ¬ CutOff acts i o)
    (hreach : Relation.ReflTransGen (Awaits acts) i j)
    (hi : (run acts).outcome i = some .completed) : (run acts).outcome j = some .completed := by
  induction hreach with
  | refl => exact hi
  | @tail k j _ hawaits ih =>
    have hout := ((completed_iff_joined acts k).mp ih).2.1 j hawaits
    obtain ⟨o, ho⟩ := Option.ne_none_iff_exists'.mp hout
    by_contra hne
    exact hcut j o
      ((cutOff_iff_outcome acts j o).mpr ⟨fun h => hne (ho.trans (congrArg some h)), ho⟩)

/-- Without cut-offs, a context that is marked complete was so while it was unfinished. -/
theorem Marked.markedOpen (h : Marked acts i) (hcut : ∀ i o, ¬ CutOff acts i o) :
    MarkedOpen acts i := by
  obtain ⟨before, a, after, hacts, ha, hlt⟩ := h
  have hc := Array.getElem?_eq_getElem hlt
  by_cases hopen : ((run before).contexts[i]).isDone = false
  · exact ⟨before, a, after, hacts, ha, _, hc, hopen⟩
  · -- It was finished before, and only completion can have finished it.
    rw [Bool.not_eq_false] at hopen
    have hlater := getElem?_run_append before (a :: after) hc hopen
    rw [← hacts] at hlater
    obtain ⟨o, ho⟩ := Option.isSome_iff_exists.mp hopen
    have hout : (run acts).outcome i = some o := by rw [outcome, hlater, Option.bind_some, ho]
    by_cases hcompleted : o = .completed
    · exact ((completed_iff_joined acts i).mp (hcompleted ▸ hout)).1
    · exact absurd ((cutOff_iff_outcome acts i o).mpr ⟨hcompleted, hout⟩) (hcut i o)

/-- Without cut-offs, a context is completed if all that it reaches along `Awaits` is marked
complete. The induction is on positions from the last one, for forks stand behind their parents
(`Awaits.lt`). -/
theorem completed_of_marked (hcut : ∀ i o, ¬ CutOff acts i o) (i : Nat)
    (hmarked : ∀ j, Relation.ReflTransGen (Awaits acts) i j → Marked acts j) :
    (run acts).outcome i = some .completed := by
  -- The forks of a context stand behind it, so the induction is on the distance to the last one.
  induction hn : (run acts).contexts.size - i using Nat.strong_induction_on generalizing i with
  | _ n ih =>
    refine (completed_iff_joined acts i).mpr
      ⟨(hmarked i .refl).markedOpen hcut, fun j hj => ?_, hcut i⟩
    obtain ⟨hlt, hsize⟩ := hj.lt
    have hj' := ih ((run acts).contexts.size - j) (by omega) j
      (fun k hk => hmarked k (.head hj hk)) rfl
    simp [hj']

/-- After any acts, in any order, the contexts are an exact join (`ExactJoin`): what the forest
says of them is what the history tells. The account is kept by every act (`Balanced.perform`), also
while the signals of an act are still under way. -/
theorem exactJoin_run (acts : List Act) : ExactJoin acts where
  outstanding i hopen := by
    obtain ⟨c, hc, ho⟩ := hopen
    have hbooks := (balanced_run acts).outstanding i c hc ho
    rw [List.count_nil, Nat.add_zero] at hbooks
    rw [encard_awaits, Forest.outstanding, hc, Option.map_some, Option.getD_some, hbooks]
  outstanding_pos a f i rest c hsettles hc ho :=
    (((balanced_run acts).signals a).settles (Act.not_force_completed a) hsettles).outstanding_pos
      hc ho
  completed_iff := completed_iff_joined acts
  cutOff_iff := cutOff_iff_outcome acts
  final before after i c hacts hc hdone := by
    subst hacts
    exact getElem?_run_append before after hc hdone
  completed_iff_marked hnone i := by
    have hcut : ∀ i o, ¬ CutOff acts i o := by
      rintro i o ⟨before, a, after, rfl, h, -⟩
      exact absurd ((hnone a (by simp) i).symm.trans h) (by simp)
    constructor
    · intro hi j hreach
      have hj := completed_of_reaches hcut hreach hi
      exact ((completed_iff_joined acts j).mp hj).1.marked
    · exact completed_of_marked hcut i

end Patchbay.Forest
