import Mathlib.Data.List.Induction
import Patchbay.Proofs.Context.Balance

/-!
# What is done to a forest from outside

An `Act` is one thing that is done to the contexts of a forest, and `Forest.run` is the forest
after a history of acts, from none. `Happens` speaks about the moments of a history.

One act lets every context that was there pass (`passes_perform`), adds at most one context behind
the others (`getElem?_perform`), and leaves the books in balance (`Balanced.perform`).
-/

namespace Patchbay

/-- What can be done to contexts: one is made as a root or as a fork, is marked complete, is
cancelled, expires, or is given a callback. The callbacks ask for nothing. -/
inductive Act where
  /-- A context without a parent is made. -/
  | root (originator : Option String) (metadata : Option (List (String × String)))
      (deadline : Option Nat)
  | fork (context : Nat) (originator : Option String)
  | complete (context : Nat)
  | cancel (context : Nat)
  /-- The deadline of a context is over. -/
  | expire (context : Nat)
  | callback (context : Nat) (tag : String)
deriving DecidableEq, Repr

namespace Act

/-- What an act asks a context for: at most one signal, which then settles (`Forest.settle`). -/
def signals : Act → List Signal
  | .complete i => [.complete i]
  | .cancel i => [.force i .cancelled]
  | .expire i => [.force i .timedOut]
  | .root _ _ _ | .fork _ _ | .callback _ _ => []

/-- The outcome that an act forces upon a context: cancelled, or timed out when its deadline is
over. -/
def cuts (a : Act) (i : Nat) : Option Completion :=
  match a with
  | .cancel j => if j = i then some .cancelled else none
  | .expire j => if j = i then some .timedOut else none
  | _ => none

theorem cuts_ne_completed {a : Act} {i : Nat} {o : Completion} (h : a.cuts i = some o) :
    o ≠ .completed := by
  rintro rfl
  cases a <;> simp [cuts] at h

end Act

namespace Forest

variable {f g : Forest} {a : Act} {c d : Context} {i j : Nat} {agenda rest : List Signal}

/-- The forest after an act. -/
def perform (f : Forest) : Act → Forest
  | .root originator metadata deadline => (f.addRoot originator metadata deadline).1
  | .fork i originator => (f.fork i originator).1
  | .complete i => f.complete i
  | .cancel i => f.cancel i
  | .expire i => f.expire i
  | .callback i tag => f.addCallback i { tag := tag }

/-- The forest after a history of acts. -/
def run (acts : List Act) : Forest := acts.foldl perform {}

theorem run_append (acts more : List Act) : run (acts ++ more) = more.foldl perform (run acts) :=
  List.foldl_append

@[simp] theorem run_concat (acts : List Act) (a : Act) :
    run (acts ++ [a]) = (run acts).perform a := by
  rw [run_append]
  rfl

/-- Something holds of an act of a history, and of the forest that it is done to, which is the one
after the acts before (`Forest.run`). -/
def Happens (acts : List Act) (p : Forest → Act → Prop) : Prop :=
  ∃ before act after, acts = before ++ act :: after ∧ p (run before) act

theorem happens_nil {p : Forest → Act → Prop} : ¬ Happens [] p := by
  rintro ⟨before, act, after, h, -⟩
  exact absurd h (by simp)

/-- The last act comes after what happened before. All that is proved of histories goes by
induction from the end, with this equation. -/
theorem happens_concat {acts : List Act} {p : Forest → Act → Prop} :
    Happens (acts ++ [a]) p ↔ Happens acts p ∨ p (run acts) a := by
  constructor
  · rintro ⟨before, act, after, h, hp⟩
    rcases List.eq_nil_or_concat after with rfl | ⟨after', b, rfl⟩
    · obtain ⟨rfl, h'⟩ := List.append_inj' h rfl
      obtain rfl : a = act := by simpa using h'
      exact .inr hp
    · have h' : acts ++ [a] = (before ++ act :: after') ++ [b] := by simpa using h
      exact .inl ⟨before, act, after', (List.append_inj' h' rfl).1, hp⟩
  · rintro (⟨before, act, after, rfl, hp⟩ | hp)
    · exact ⟨before, act, after ++ [a], by simp, hp⟩
    · exact ⟨acts, a, [], rfl, hp⟩

/-- The forest and what is left to do, at some moment while signals settle (`Forest.step`). -/
inductive Settles : Forest → List Signal → Forest → List Signal → Prop
  | here (f : Forest) (agenda : List Signal) : Settles f agenda f agenda
  | step {f g : Forest} {s : Signal} {rest left : List Signal}
      (h : Settles (f.step s).1 ((f.step s).2 ++ rest) g left) : Settles f (s :: rest) g left

/-- The books are in balance at every moment while signals settle. -/
theorem Balanced.settles {left : List Signal} (h : f.Balanced agenda)
    (hs : ∀ i, .force i .completed ∉ agenda) (hsettles : Settles f agenda g left) :
    g.Balanced left := by
  induction hsettles with
  | here => exact h
  | @step f g s rest left _ ih =>
    refine ih (h.step fun i hi => hs i (hi ▸ List.mem_cons_self)) fun i hi => ?_
    rcases List.mem_append.mp hi with hi | hi
    · exact not_force_completed f s i hi
    · exact hs i (List.mem_cons_of_mem s hi)

/-! ### New contexts -/

/-- The forest with one more context. -/
def push (f : Forest) (c : Context) : Forest := { f with contexts := f.contexts.push c }

theorem getElem?_push (f : Forest) (c : Context) (j : Nat) :
    (f.push c).contexts[j]? = if j = f.contexts.size then some c else f.contexts[j]? :=
  Array.getElem?_push

theorem pending_push (f : Forest) (c : Context) (p : Nat) :
    (f.push c).pending p = f.pending p + if c.isAwaitedBy p then 1 else 0 :=
  Array.countP_push

theorem any_iff_isOpen : ((f.contexts[i]?).any fun c => !c.isDone) = true ↔ f.IsOpen i := by
  cases h : f.contexts[i]? <;> simp [IsOpen, h]

/-- A fork is put behind all contexts. -/
theorem fork_snd (f : Forest) (i : Nat) (originator : Option String) :
    (f.fork i originator).2 = f.contexts.size := by
  cases hc : f.contexts[i]? with
  | none => simp [fork, hc]
  | some c => cases ho : c.isDone <;> simp [fork, hc, ho]

/-- An unfinished context takes its fork into account. -/
theorem fork_of_isOpen (hc : f.contexts[i]? = some c) (ho : c.isDone = false)
    (originator : Option String) :
    (f.fork i originator).1 = (f.put i { c with outstanding := c.outstanding + 1 }).push
      { parent := some i, counted := true, originator := originator } := by
  simp [fork, hc, ho, push]

/-- A finished context takes no notice of its forks. -/
theorem fork_of_not_isOpen (h : ¬ f.IsOpen i) (originator : Option String) :
    (f.fork i originator).1 = f.push { parent := some i, originator := originator } := by
  rw [← any_iff_isOpen, Bool.not_eq_true] at h
  cases hc : f.contexts[i]? with
  | none => simp [fork, hc, push]
  | some c =>
    rw [hc] at h
    simp only [Option.any_some, Bool.not_eq_false'] at h
    simp [fork, hc, h, push]

theorem addCallback_of_none (hc : f.contexts[i]? = none) (k : Callback) :
    f.addCallback i k = f := by
  simp [addCallback, hc]

theorem addCallback_of_outcome {o : Completion} (hc : f.contexts[i]? = some c)
    (ho : c.outcome = some o) (k : Callback) : f.addCallback i k = f.settle [.call i k o] := by
  simp [addCallback, hc, ho]

theorem addCallback_of_open (hc : f.contexts[i]? = some c) (ho : c.outcome = none) (k : Callback) :
    f.addCallback i k = f.put i { c with callbacks := c.callbacks ++ [k] } := by
  simp [addCallback, hc, ho]

/-- The context that an act adds, if it adds one. Its number is the number of contexts before. -/
def newcomer (f : Forest) : Act → Option Context
  | .root originator metadata deadline =>
    some { originator := originator, metadata := metadata, deadline := deadline }
  | .fork i originator =>
    some { parent := some i, counted := (f.contexts[i]?).any fun c => !c.isDone
           originator := originator }
  | _ => none

theorem callbacks_newcomer (h : f.newcomer a = some c) : c.callbacks = [] := by
  cases a <;> simp only [newcomer, Option.some.injEq, reduceCtorEq] at h <;> subst h <;> rfl

/-! ### Passing -/

/-- Nothing is completed, cut off or changed. -/
theorem passes_self {told : Nat → Prop} {cut : Nat → Option Completion} (f : Forest)
    (htold : ∀ i, ¬ told i) (hcut : ∀ i, cut i = none) : f.Passes told cut f := by
  refine ⟨rfl, fun i c hc => ⟨c, hc, ?_⟩⟩
  rw [eq_false (htold i), hcut i]
  exact Context.Passes.refl c

theorem Passes.congr {told told' : Nat → Prop} {cut cut' : Nat → Option Completion}
    (h : f.Passes told cut g) (htold : ∀ i, told i ↔ told' i) (hcut : ∀ i, cut i = cut' i) :
    f.Passes told' cut' g := by
  obtain rfl : told = told' := funext fun i => propext (htold i)
  obtain rfl : cut = cut' := funext hcut
  exact h

/-- An unfinished context that was neither completed nor cut off. -/
theorem passes_of_same {told : Prop} (htold : ¬ told) (ho : c.isDone = false)
    (hparent : d.parent = c.parent) (hcounted : d.counted = c.counted)
    (hown : d.ownDone = c.ownDone) (hdone : d.isDone = false) : c.Passes told none d where
  parent := hparent
  counted := hcounted
  final hc := absurd hc (by simp [ho])
  cutOff _ o h := absurd h (by simp)
  ownDone _ := by simp [hown, htold]
  completed _ _ h := absurd h (by simp [hdone])

/-- An act lets the contexts pass (`Forest.Passes`), and then adds the newcomer. All later lemmas
about acts come from this one. -/
theorem perform_cases (hf : f.Plain) (a : Act) :
    ∃ g, f.Passes (fun i => a = .complete i) a.cuts g ∧ g.Plain ∧
      (f.newcomer a = none ∧ f.perform a = g ∨
        ∃ c, f.newcomer a = some c ∧ f.perform a = g.push c) := by
  cases a with
  | root originator metadata deadline =>
    exact ⟨f, passes_self f (by simp) (fun _ => rfl), hf, .inr ⟨_, rfl, rfl⟩⟩
  | fork i originator =>
    by_cases h : f.IsOpen i
    · obtain ⟨c, hc, ho⟩ := h
      have hpass : c.Passes (Act.fork i originator = .complete i) none
          { c with outstanding := c.outstanding + 1 } :=
        passes_of_same (by simp) ho rfl rfl rfl ho
      refine ⟨_, passes_put hc hpass (by simp) (fun _ _ => rfl), plain_put hf (hf i c hc),
        .inr ⟨_, rfl, ?_⟩⟩
      rw [perform, fork_of_isOpen hc ho]
      simp [hc, ho]
    · refine ⟨f, passes_self f (by simp) (fun _ => rfl), hf, .inr ⟨_, rfl, ?_⟩⟩
      rw [perform, fork_of_not_isOpen h]
      rw [← any_iff_isOpen, Bool.not_eq_true] at h
      rw [h]
  | complete i =>
    obtain ⟨hpass, hplain⟩ := passes_settle (s := .complete i) hf (by simp)
    exact ⟨_, hpass.congr (by simp [Signal.Completes]) (fun _ => rfl), hplain, .inl ⟨rfl, rfl⟩⟩
  | cancel i =>
    obtain ⟨hpass, hplain⟩ := passes_settle (s := .force i .cancelled) hf (by simp)
    exact ⟨_, hpass.congr (by simp [Signal.Completes]) (fun _ => rfl), hplain, .inl ⟨rfl, rfl⟩⟩
  | expire i =>
    obtain ⟨hpass, hplain⟩ := passes_settle (s := .force i .timedOut) hf (by simp)
    exact ⟨_, hpass.congr (by simp [Signal.Completes]) (fun _ => rfl), hplain, .inl ⟨rfl, rfl⟩⟩
  | callback i tag =>
    have hnone : f.newcomer (.callback i tag) = none := rfl
    rw [perform]
    cases hc : f.contexts[i]? with
    | none =>
      rw [addCallback_of_none hc]
      exact ⟨f, passes_self f (by simp) (fun _ => rfl), hf, .inl ⟨hnone, rfl⟩⟩
    | some c =>
      cases ho : c.outcome with
      | some o =>
        obtain ⟨hpass, hplain⟩ :=
          passes_settle (s := .call i { tag := tag } o) hf (by simp [Callback.effects])
        rw [addCallback_of_outcome hc ho]
        exact ⟨_, hpass.congr (by simp [Signal.Completes]) (fun _ => rfl), hplain,
          .inl ⟨hnone, rfl⟩⟩
      | none =>
        have hopen : c.isDone = false := by simp [Context.isDone, ho]
        have hpass : c.Passes (Act.callback i tag = .complete i) none
            { c with callbacks := c.callbacks ++ [{ tag := tag }] } :=
          passes_of_same (by simp) hopen rfl rfl rfl hopen
        rw [addCallback_of_open hc ho]
        refine ⟨_, passes_put hc hpass (by simp) (fun _ _ => rfl), plain_put hf ?_,
          .inl ⟨hnone, rfl⟩⟩
        intro k hk
        rcases List.mem_append.mp hk with hk | hk
        · exact hf i c hc k hk
        · rw [List.mem_singleton.mp hk]
          rfl

/-- What an act makes of a context that was there: it has passed (`Context.Passes`), by what the
act asks for. -/
theorem passes_perform (hf : f.Plain) (a : Act) (hc : f.contexts[i]? = some c) :
    ∃ d, (f.perform a).contexts[i]? = some d ∧ c.Passes (a = .complete i) (a.cuts i) d := by
  obtain ⟨g, hpass, -, ⟨-, hg⟩ | ⟨e, -, hg⟩⟩ := perform_cases hf a
  · rw [hg]
    exact hpass.2 i c hc
  · have hlt : i < g.contexts.size := hpass.1 ▸ (Array.getElem?_eq_some_iff.mp hc).1
    rw [hg, getElem?_push, if_neg (Nat.ne_of_lt hlt)]
    exact hpass.2 i c hc

/-- Behind the contexts that were there, an act adds the newcomer. -/
theorem getElem?_perform (hf : f.Plain) (a : Act) (hj : f.contexts.size ≤ j) :
    (f.perform a).contexts[j]? = if j = f.contexts.size then f.newcomer a else none := by
  obtain ⟨g, hpass, -, ⟨hnew, hg⟩ | ⟨e, hnew, hg⟩⟩ := perform_cases hf a
  · rw [hg, hnew, ite_self]
    exact Array.getElem?_eq_none (hpass.1 ▸ hj)
  · rw [hg, hnew, getElem?_push, hpass.1, Array.getElem?_eq_none (hpass.1 ▸ hj)]

theorem Plain.perform (hf : f.Plain) (a : Act) : (f.perform a).Plain := by
  obtain ⟨g, -, hplain, ⟨-, hg⟩ | ⟨e, hnew, hg⟩⟩ := perform_cases hf a
  · rw [hg]
    exact hplain
  · intro j d hd k hk
    rw [hg, getElem?_push] at hd
    split at hd
    · obtain rfl := Option.some_inj.mp hd
      rw [callbacks_newcomer hnew] at hk
      exact absurd hk (by simp)
    · exact hplain j d hd k hk

theorem plain_run (acts : List Act) : (run acts).Plain := by
  induction acts using List.reverseRecOn with
  | nil =>
    intro i c hc
    exact absurd hc (by simp [run])
  | append_singleton acts a ih =>
    rw [run_concat]
    exact ih.perform a

/-! ### Balance -/

theorem Balanced.pending_size (h : f.Balanced agenda) : f.pending f.contexts.size = 0 := by
  refine Array.countP_eq_zero.mpr fun d hd haw => ?_
  obtain ⟨j, hj⟩ := Array.mem_iff_getElem?.mp hd
  have hlt : j < f.contexts.size := (Array.getElem?_eq_some_iff.mp hj).1
  simp only [Context.isAwaitedBy, Bool.and_eq_true, beq_iff_eq] at haw
  exact absurd (h.behind j d hj haw.1.1 _ haw.1.2) (by omega)

/-- A newcomer that an unfinished context waits for takes one word off the agenda. -/
theorem Balanced.push (h : f.Balanced agenda) (hout : c.outcome = none) (hown : c.ownDone = false)
    (hzero : c.outstanding = 0) (hopen : ∀ p, c.isAwaitedBy p = true → f.IsOpen p)
    (hnew : agenda.count (.forkFinished f.contexts.size) = 0)
    (hcount : ∀ p, agenda.count (.forkFinished p) =
      rest.count (.forkFinished p) + if c.isAwaitedBy p then 1 else 0) :
    (f.push c).Balanced rest := by
  have hbehind : ∀ p, c.isAwaitedBy p = true → p < f.contexts.size := by
    intro p hp
    obtain ⟨e, he, -⟩ := hopen p hp
    exact (Array.getElem?_eq_some_iff.mp he).1
  constructor
  · intro j d hd hk p hp
    rw [getElem?_push] at hd
    split at hd
    · rename_i hj
      obtain rfl := Option.some_inj.mp hd
      rw [hj]
      exact hbehind p (by simp [Context.isAwaitedBy, Context.isDone, hk, hp, hout])
    · exact h.behind j d hd hk p hp
  · intro j d hd hdone
    have hj' := hcount j
    rw [getElem?_push] at hd
    rw [pending_push]
    split at hd
    · rename_i hj
      obtain rfl := Option.some_inj.mp hd
      have hpending := h.pending_size
      rw [← hj] at hpending hnew
      omega
    · have hold := h.outstanding j d hd hdone
      omega
  · intro j d hd hdone
    rw [getElem?_push] at hd
    split at hd
    · obtain rfl := Option.some_inj.mp hd
      simp [Context.isReady, hown]
    · exact h.unready j d hd hdone
  · intro j d hd hcompleted
    rw [getElem?_push] at hd
    split at hd
    · obtain rfl := Option.some_inj.mp hd
      exact absurd hcompleted (by simp [hout])
    · have hnot : c.isAwaitedBy j ≠ true := by
        intro haw
        obtain ⟨e, he, heo⟩ := hopen j haw
        obtain rfl := Option.some_inj.mp (hd.symm.trans he)
        exact absurd heo (by simp [Context.isDone, hcompleted])
      rw [pending_push, h.completed j d hd hcompleted, if_neg hnot]

/-- What an act asks contexts for leaves the books in balance at every moment. -/
theorem Balanced.signals (h : f.Balanced []) (a : Act) : f.Balanced a.signals := by
  refine h.congr fun j c _ _ => ?_
  cases a <;> simp [Act.signals]

theorem Act.not_force_completed (a : Act) (i : Nat) : .force i .completed ∉ a.signals := by
  cases a <;> simp [Act.signals]

/-- A fork leaves the books in balance: it is counted on both sides or on neither. -/
theorem Balanced.fork (h : f.Balanced []) (i : Nat) (originator : Option String) :
    (f.fork i originator).1.Balanced [] := by
  by_cases hopen : f.IsOpen i
  · obtain ⟨c, hc, ho⟩ := hopen
    rw [fork_of_isOpen hc ho]
    -- Between the two steps the counter is one ahead, as if a word were on its way.
    have hput :
        (f.put i { c with outstanding := c.outstanding + 1 }).Balanced [.forkFinished i] := by
      refine h.put hc ho rfl rfl ho (fun j hj => ?_) ?_ ?_
      · simp [Ne.symm hj]
      · have hout := h.outstanding i c hc ho
        simpa using hout
      · simp [Context.isReady]
    have hlt : i < f.contexts.size := (Array.getElem?_eq_some_iff.mp hc).1
    refine hput.push rfl rfl rfl (fun p hp => ?_) ?_ fun p => ?_
    · simp only [Context.isAwaitedBy, Bool.and_eq_true, beq_iff_eq, Option.some.injEq] at hp
      obtain rfl := hp.1.2
      refine ⟨{ c with outstanding := c.outstanding + 1 }, ?_, ho⟩
      rw [getElem?_put hc, if_pos rfl]
    · have hne : i ≠ f.contexts.size := Nat.ne_of_lt hlt
      simp [hne]
    · by_cases hp : i = p <;> simp [Context.isAwaitedBy, Context.isDone, hp]
  · rw [fork_of_not_isOpen hopen]
    exact h.push rfl rfl rfl (fun p hp => absurd hp (by simp [Context.isAwaitedBy])) rfl
      fun p => by simp [Context.isAwaitedBy]

/-- Every act leaves the books in balance (`Forest.Balanced`), with an empty agenda before and
after it. -/
theorem Balanced.perform (h : f.Balanced []) (a : Act) : (f.perform a).Balanced [] := by
  cases a with
  | root originator metadata deadline =>
    exact h.push rfl rfl rfl (fun p hp => absurd hp (by simp [Context.isAwaitedBy])) rfl
      fun p => by simp [Context.isAwaitedBy]
  | fork i originator => exact h.fork i originator
  | complete i =>
    exact Balanced.settle f _ (h.signals (.complete i)) (Act.not_force_completed (.complete i))
  | cancel i =>
    exact Balanced.settle f _ (h.signals (.cancel i)) (Act.not_force_completed (.cancel i))
  | expire i =>
    exact Balanced.settle f _ (h.signals (.expire i)) (Act.not_force_completed (.expire i))
  | callback i tag =>
    rw [Forest.perform]
    cases hc : f.contexts[i]? with
    | none =>
      rw [addCallback_of_none hc]
      exact h
    | some c =>
      cases ho : c.outcome with
      | some o =>
        rw [addCallback_of_outcome hc ho]
        exact Balanced.settle f _ (h.congr fun j e _ _ => by simp) (by simp)
      | none =>
        have hopen : c.isDone = false := by simp [Context.isDone, ho]
        rw [addCallback_of_open hc ho]
        exact h.put hc hopen rfl rfl hopen (fun _ _ => rfl) (h.outstanding i c hc hopen)
          (h.unready i c hc hopen)

theorem balanced_run (acts : List Act) : (run acts).Balanced [] := by
  induction acts using List.reverseRecOn with
  | nil => constructor <;> intro i c hc <;> exact absurd hc (by simp [run])
  | append_singleton acts a ih =>
    rw [run_concat]
    exact ih.perform a

end Forest

end Patchbay
