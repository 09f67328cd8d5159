import Patchbay.Proofs.Context.Joins
import Patchbay.Proofs.Trace

/-!
# Callbacks run exactly once

A callback that is added to a context waits there, or runs at once if the context is finished. When
the context finishes its callbacks are taken out and put on the agenda. So at every moment while
signals settle, the callbacks of a context are in one place only: the context itself, as long as it
is unfinished, and the log together with the agenda afterwards (`Forest.Owes`). When nothing is
left on the agenda they have all run, in the order in which they were added.

What follows from one act runs down a chain of contexts, each in front of the one before it: the
callbacks of a finished context and then the word to its parent (`Wave`). That is why a fork comes
before its ancestors.
-/

namespace Patchbay

/-- The log entry of a callback that a signal runs on a context. -/
def Signal.firing? (i : Nat) : Signal → Option Firing
  | .call j k o => if j = i then some ⟨i, k.tag, o⟩ else none
  | _ => none

namespace Forest

variable {f : Forest} {agenda rest : List Signal} {s : Signal} {c d : Context} {i j : Nat}
  {o : Completion} {tags : Nat → List String}

/-- The callbacks that ran on a context, in order, as the log of the forest has them. -/
def firings (f : Forest) (i : Nat) : List Firing := f.fired.filter (·.context == i)

/-- The callbacks that ran on a context, and those that the agenda runs on it. A context that is
finished has all its callbacks there (`Forest.Owes`). -/
def ledger (f : Forest) (agenda : List Signal) (i : Nat) : List Firing :=
  f.firings i ++ agenda.filterMap (Signal.firing? i)

/-- The callback that an act adds to a context. -/
def registers (i : Nat) (f : Forest) : Act → List String
  | .callback j tag => if j = i ∧ i < f.contexts.size then [tag] else []
  | _ => []

/-- The callbacks that a history adds to a context, in order (`Forest.registers`). -/
def registered (acts : List Act) (i : Nat) : List String := observed perform (registers i) {} acts

/-! ### Where the callbacks are -/

/-- Where the callbacks of each context are, given those that were added to it: at the context
while that is unfinished, and in the ledger afterwards. -/
structure Owes (f : Forest) (agenda : List Signal) (tags : Nat → List String) : Prop where
  /-- Those of an unfinished context wait there. -/
  waiting : ∀ (i : Nat) (c : Context), f.contexts[i]? = some c → c.outcome = none →
    c.callbacks.map (·.tag) = tags i ∧ f.ledger agenda i = []
  /-- Those of a finished context have run, or are about to. -/
  taken : ∀ (i : Nat) (c : Context) (o : Completion), f.contexts[i]? = some c →
    c.outcome = some o → f.ledger agenda i = (tags i).map (⟨i, ·, o⟩)
  /-- There are none where there is no context. -/
  absent : ∀ i, f.contexts[i]? = none → tags i = [] ∧ f.ledger agenda i = []

theorem filterMap_firing?_effects (k : Callback) (i : Nat) :
    k.effects.filterMap (Signal.firing? i) = [] := by
  simp [Callback.effects, List.filterMap_eq_nil_iff, Signal.firing?]

/-- A finished context hands all its callbacks on, and none of another one. -/
theorem filterMap_firing?_consequences (c : Context) (i j : Nat) (o : Completion) :
    (c.consequences i o).filterMap (Signal.firing? j) =
      if i = j then (c.callbacks.map (·.tag)).map (⟨j, ·, o⟩) else [] := by
  have hword : (if c.counted then c.parent.toList.map Signal.forkFinished else []).filterMap
      (Signal.firing? j) = [] := by
    split
    · simp [List.filterMap_map, List.filterMap_eq_nil_iff, Signal.firing?]
    · rfl
  rw [Context.consequences, List.filterMap_append, hword, List.append_nil]
  by_cases hij : i = j <;> simp [List.filterMap_map, Function.comp_def, Signal.firing?, hij]

/-- A callback that runs goes from the agenda to the log. -/
theorem ledger_call (f : Forest) (i : Nat) (k : Callback) (o : Completion) (rest : List Signal)
    (j : Nat) :
    ledger { f with fired := f.fired ++ [⟨i, k.tag, o⟩] } (k.effects ++ rest) j =
      f.ledger (.call i k o :: rest) j := by
  simp only [ledger, firings, List.filter_append, List.filterMap_append, filterMap_firing?_effects,
    List.nil_append, List.append_assoc]
  by_cases hij : i = j <;> simp [Signal.firing?, hij]

theorem ledger_cons_of_none (h : s.firing? i = none) (f : Forest) (rest : List Signal) :
    f.ledger (s :: rest) i = f.ledger rest i := by
  simp [ledger, h]

theorem firing?_eq_none (h : ∀ i k o, s ≠ .call i k o) (j : Nat) : s.firing? j = none := by
  cases s with
  | call i k o => exact absurd rfl (h i k o)
  | complete i => rfl
  | force i o => rfl
  | forkFinished i => rfl

theorem Owes.congr {g : Forest} (h : f.Owes agenda tags) (hcontexts : g.contexts = f.contexts)
    (hledger : ∀ i, g.ledger rest i = f.ledger agenda i) : g.Owes rest tags where
  waiting i c hc ho := by
    rw [hledger]
    exact h.waiting i c (hcontexts ▸ hc) ho
  taken i c o hc ho := by
    rw [hledger]
    exact h.taken i c o (hcontexts ▸ hc) ho
  absent i hi := by
    rw [hledger]
    exact h.absent i (hcontexts ▸ hi)

/-- What is put in the place of an unfinished context has its callbacks. -/
theorem Owes.put (h : f.Owes agenda tags) (hc : f.contexts[i]? = some c) (ho : c.outcome = none)
    (hd : d.callbacks = c.callbacks) (hdo : d.outcome = none) : (f.put i d).Owes agenda tags where
  waiting j e he heo := by
    rw [getElem?_put hc] at he
    split at he
    · rename_i hij
      obtain rfl := Option.some_inj.mp he
      rw [hd, ← hij]
      exact h.waiting i c hc ho
    · exact h.waiting j e he heo
  taken j e o he heo := by
    rw [getElem?_put hc] at he
    split at he
    · obtain rfl := Option.some_inj.mp he
      exact absurd heo (by simp [hdo])
    · exact h.taken j e o he heo
  absent j hj := by
    rw [getElem?_put hc] at hj
    split at hj
    · exact absurd hj (by simp)
    · exact h.absent j hj

/-- A context that finishes puts its callbacks on the agenda. -/
theorem Owes.finish (h : f.Owes rest tags) (hc : f.contexts[i]? = some c) (ho : c.outcome = none)
    (hd : d.callbacks = c.callbacks) (o : Completion) :
    (f.finish i d o).1.Owes ((f.finish i d o).2 ++ rest) tags := by
  have hledger : ∀ j, (f.finish i d o).1.ledger ((f.finish i d o).2 ++ rest) j =
      f.firings j ++ ((if i = j then (d.callbacks.map (·.tag)).map (⟨j, ·, o⟩) else [])
        ++ rest.filterMap (Signal.firing? j)) := by
    intro j
    rw [ledger, List.filterMap_append, Forest.finish, filterMap_firing?_consequences]
    rfl
  have hother : ∀ j, i ≠ j →
      (f.finish i d o).1.ledger ((f.finish i d o).2 ++ rest) j = f.ledger rest j := by
    intro j hij
    rw [hledger, if_neg hij]
    rfl
  constructor
  · intro j e he heo
    rw [Forest.finish, getElem?_put hc] at he
    split at he
    · obtain rfl := Option.some_inj.mp he
      exact absurd heo (by simp [Context.finished])
    · rename_i hij
      rw [hother j hij]
      exact h.waiting j e he heo
  · intro j e o' he heo
    rw [Forest.finish, getElem?_put hc] at he
    split at he
    · rename_i hij
      subst hij
      obtain rfl := Option.some_inj.mp he
      obtain rfl : o = o' := Option.some_inj.mp heo
      obtain ⟨htags, hnone⟩ := h.waiting i c hc ho
      obtain ⟨hfired, hleft⟩ := List.append_eq_nil_iff.mp hnone
      rw [hledger, hfired, hleft, if_pos rfl, hd, htags, List.nil_append, List.append_nil]
    · rename_i hij
      rw [hother j hij]
      exact h.taken j e o' he heo
  · intro j hj
    rw [Forest.finish, getElem?_put hc] at hj
    split at hj
    · exact absurd hj (by simp)
    · rename_i hij
      rw [hother j hij]
      exact h.absent j hj

/-- Every signal leaves each callback in one place. A context that finishes hands them on
(`Owes.finish`), and a call moves one into the log (`ledger_call`). -/
theorem Owes.step (h : f.Owes (s :: rest) tags) :
    (f.step s).1.Owes ((f.step s).2 ++ rest) tags := by
  by_cases hcall : ∃ i k o, s = .call i k o
  · obtain ⟨i, k, o, rfl⟩ := hcall
    exact h.congr rfl (ledger_call f i k o rest)
  · simp only [not_exists] at hcall
    have h' : f.Owes rest tags :=
      h.congr rfl fun j => (ledger_cons_of_none (firing?_eq_none hcall j) f rest).symm
    rcases step_cases f s with ⟨i, k, o, rfl, -⟩ | ⟨he, -⟩ | ⟨c, hc, ho, -, ⟨o, -, he⟩ | ⟨-, he⟩⟩
    · exact absurd rfl (hcall i k o)
    · rw [he]
      exact h'
    · rw [he]
      exact h'.finish hc (by simpa [Context.isDone] using ho) (Context.told_callbacks c s) o
    · rw [he]
      have hout : c.outcome = none := by simpa [Context.isDone] using ho
      exact h'.put hc hout (Context.told_callbacks c s) (by rw [Context.told_outcome, hout])

/-- When signals have settled, no callback is left on the agenda, so that all callbacks of finished
contexts have run. -/
theorem Owes.settle (f : Forest) (agenda : List Signal) (h : f.Owes agenda tags) :
    (f.settle agenda).Owes [] tags := by
  -- The induction is on the work that is left.
  induction f, agenda using settle.induct with
  | case1 f =>
    rw [Forest.settle]
    exact h
  | case2 f s rest ih =>
    rw [Forest.settle]
    exact ih h.step

/-- A new context has no callbacks. -/
theorem Owes.push (h : f.Owes agenda tags) (hc : c.callbacks = []) (ho : c.outcome = none) :
    (f.push c).Owes agenda tags := by
  have hnew := h.absent f.contexts.size (Array.getElem?_eq_none le_rfl)
  constructor
  · intro j e he heo
    rw [getElem?_push] at he
    split at he
    · rename_i hj
      obtain rfl := Option.some_inj.mp he
      rw [hj, hc, hnew.1]
      exact ⟨rfl, hnew.2⟩
    · exact h.waiting j e he heo
  · intro j e o he heo
    rw [getElem?_push] at he
    split at he
    · obtain rfl := Option.some_inj.mp he
      exact absurd heo (by simp [ho])
    · exact h.taken j e o he heo
  · intro j hj
    rw [getElem?_push] at hj
    split at hj
    · exact absurd hj (by simp)
    · exact h.absent j hj

theorem Owes.settle_signals (h : f.Owes [] tags) (a : Act) :
    (f.settle a.signals).Owes [] tags := by
  refine Owes.settle f a.signals (h.congr rfl fun i => ?_)
  cases a <;> rfl

/-- A callback that is added waits, or runs at once. -/
theorem Owes.addCallback (h : f.Owes [] tags) (i : Nat) (tag : String) :
    (f.addCallback i { tag := tag }).Owes [] fun j => tags j ++ f.registers j
    (.callback i tag) := by
  have hother : ∀ j, i ≠ j → f.registers j (.callback i tag) = [] := by
    intro j hij
    simp [registers, hij]
  cases hc : f.contexts[i]? with
  | none =>
    have hnone : ∀ j, f.registers j (.callback i tag) = [] := by
      intro j
      have hsize := Array.getElem?_eq_none_iff.mp hc
      refine if_neg ?_
      rintro ⟨rfl, hlt⟩
      omega
    rw [addCallback_of_none hc]
    simpa only [hnone, List.append_nil] using h
  | some c =>
    have hself : f.registers i (.callback i tag) = [tag] :=
      if_pos ⟨rfl, (Array.getElem?_eq_some_iff.mp hc).1⟩
    cases ho : c.outcome with
    | some o =>
      rw [addCallback_of_outcome hc ho]
      refine Owes.settle f _ ?_
      have hledger : ∀ j, f.ledger [.call i { tag := tag } o] j =
          f.ledger [] j ++ (f.registers j (.callback i tag)).map (⟨j, ·, o⟩) := by
        intro j
        by_cases hij : i = j
        · subst hij
          simp [ledger, Signal.firing?, hself]
        · simp [ledger, Signal.firing?, hij, hother j hij]
      constructor
      · intro j e he heo
        have hij : i ≠ j := by
          rintro rfl
          obtain rfl := Option.some_inj.mp (hc.symm.trans he)
          exact absurd heo (by simp [ho])
        simpa only [hledger, hother j hij, List.map_nil, List.append_nil] using h.waiting j e he
          heo
      · intro j e o' he heo
        rw [hledger, List.map_append, h.taken j e o' he heo]
        by_cases hij : i = j
        · subst hij
          obtain rfl := Option.some_inj.mp (hc.symm.trans he)
          obtain rfl := Option.some_inj.mp (ho.symm.trans heo)
          rfl
        · rw [hother j hij]
          rfl
      · intro j hj
        have hij : i ≠ j := by
          rintro rfl
          exact absurd (hc.symm.trans hj) (by simp)
        simpa only [hledger, hother j hij, List.map_nil, List.append_nil] using h.absent j hj
    | none =>
      rw [addCallback_of_open hc ho]
      constructor
      · intro j e he heo
        rw [getElem?_put hc] at he
        split at he
        · rename_i hij
          subst hij
          obtain rfl := Option.some_inj.mp he
          obtain ⟨htags, hnone⟩ := h.waiting i c hc ho
          rw [List.map_append, htags, hself]
          exact ⟨rfl, hnone⟩
        · rename_i hij
          rw [hother j hij, List.append_nil]
          exact h.waiting j e he heo
      · intro j e o he heo
        rw [getElem?_put hc] at he
        split at he
        · obtain rfl := Option.some_inj.mp he
          exact absurd heo (by simp [ho])
        · rename_i hij
          rw [hother j hij, List.append_nil]
          exact h.taken j e o he heo
      · intro j hj
        rw [getElem?_put hc] at hj
        split at hj
        · exact absurd hj (by simp)
        · rename_i hij
          rw [hother j hij, List.append_nil]
          exact h.absent j hj

theorem Owes.fork (h : f.Owes [] tags) (i : Nat) (originator : Option String) :
    (f.fork i originator).1.Owes [] tags := by
  by_cases hopen : f.IsOpen i
  · obtain ⟨c, hc, ho⟩ := hopen
    have hout : c.outcome = none := by simpa [Context.isDone] using ho
    rw [fork_of_isOpen hc ho]
    have hput := h.put (d := { c with outstanding := c.outstanding + 1 }) hc hout rfl hout
    exact hput.push rfl rfl
  · rw [fork_of_not_isOpen hopen]
    exact h.push rfl rfl

/-- Every act leaves each callback in one place. -/
theorem Owes.perform (h : f.Owes [] tags) (a : Act) :
    (f.perform a).Owes [] fun i => tags i ++ f.registers i a := by
  have hsame : (∀ i, f.registers i a = []) → (fun i => tags i ++ f.registers i a) = tags :=
    fun hnone => funext fun i => by rw [hnone, List.append_nil]
  cases a with
  | callback i tag => exact h.addCallback i tag
  | root originator metadata deadline =>
    rw [hsame fun _ => rfl]
    exact h.push rfl rfl
  | fork i originator =>
    rw [hsame fun _ => rfl]
    exact h.fork i originator
  | complete i =>
    rw [hsame fun _ => rfl]
    exact h.settle_signals (.complete i)
  | cancel i =>
    rw [hsame fun _ => rfl]
    exact h.settle_signals (.cancel i)
  | expire i =>
    rw [hsame fun _ => rfl]
    exact h.settle_signals (.expire i)

theorem owes_run (acts : List Act) : (run acts).Owes [] (registered acts) := by
  induction acts using List.reverseRecOn with
  | nil => constructor <;> simp [run, registered, observed, ledger, firings]
  | append_singleton acts a ih =>
    have htags : registered (acts ++ [a]) = fun i => registered acts i ++ (run acts).registers i
        a :=
      funext fun i => observed_concat _ acts a
    rw [run_concat, htags]
    exact ih.perform a

/-! ### Forks before ancestors -/

/-- What follows from one act: callbacks of contexts, each at or in front of the one before it and
at most at a position, and one signal last. Positions are numbers of contexts, and a parent has a
smaller one. -/
inductive Wave : Nat → List Signal → Prop
  | nil (n : Nat) : Wave n []
  | last {n : Nat} {s : Signal} (hs : ∀ i k o, s ≠ .call i k o) (hn : s.target ≤ n) : Wave n [s]
  | call {n i : Nat} {k : Callback} {rest : List Signal} (o : Completion) (hk : k.effects = [])
      (hn : i ≤ n) (hrest : Wave i rest) : Wave n (.call i k o :: rest)

theorem Wave.mono {m n : Nat} (h : Wave m agenda) (hmn : m ≤ n) : Wave n agenda := by
  cases h with
  | nil => exact .nil n
  | last hs hm => exact .last hs (hm.trans hmn)
  | call o hk hm hrest => exact .call o hk (hm.trans hmn) hrest

/-- What follows when a context finishes is a wave from it, as its parent stands in front of it. -/
theorem wave_consequences (hc : ∀ k ∈ c.callbacks, k.effects = [])
    (hbehind : c.counted = true → ∀ p, c.parent = some p → p < i) (o : Completion) :
    Wave i (c.consequences i o) := by
  have hword : Wave i (if c.counted then c.parent.toList.map Signal.forkFinished else []) := by
    split
    · rename_i hcounted
      cases hp : c.parent with
      | none => exact .nil i
      | some p => exact .last (by simp) (hbehind hcounted p hp).le
    · exact .nil i
  rw [Context.consequences]
  generalize c.callbacks = ks at hc
  induction ks with
  | nil => exact hword
  | cons k ks ih =>
    exact .call o (hc k List.mem_cons_self) le_rfl
      (ih fun k' hk' => hc k' (List.mem_cons_of_mem k hk'))

/-- While a wave settles (`Wave`), callbacks run on contexts that stand further and further in
front. -/
theorem fired_settle (f : Forest) (agenda : List Signal) {n : Nat} (hf : f.Plain)
    (hb : f.Balanced agenda)
    (hs : ∀ i, .force i .completed ∉ agenda) (hw : Wave n agenda) :
    ∃ new, (f.settle agenda).fired = f.fired ++ new ∧ (∀ x ∈ new, x.context ≤ n) ∧
      new.Pairwise fun x y => y.context ≤ x.context := by
  -- The induction is on the work that is left; what is on the agenda is always a wave.
  induction f, agenda using settle.induct generalizing n with
  | case1 f =>
    rw [settle]
    exact ⟨[], by simp, by simp, .nil⟩
  | case2 f s rest ih =>
    rw [settle]
    have hb' := hb.step fun i hi => hs i (hi ▸ List.mem_cons_self)
    have hs' : ∀ i, .force i .completed ∉ (f.step s).2 ++ rest := by
      intro i hi
      rcases List.mem_append.mp hi with hi | hi
      · exact not_force_completed f s i hi
      · exact hs i (List.mem_cons_of_mem s hi)
    cases hw with
    | @call n i k rest o hk hn hrest =>
      have hf' : (f.step (.call i k o)).1.Plain := hf
      obtain ⟨new, hnew, hle, hsorted⟩ := ih hf' hb' hs' (n := i) (by simpa [step, hk] using hrest)
      refine ⟨⟨i, k.tag, o⟩ :: new, ?_, ?_, .cons hle hsorted⟩
      · rw [hnew]
        simp [step]
      · rintro x hx
        rcases List.mem_cons.mp hx with rfl | hx
        · exact hn
        · exact (hle x hx).trans hn
    | @last n s hcall hn =>
      rcases step_cases f s with ⟨i, k, o, rfl, -⟩ | ⟨he, -⟩ | ⟨c, hc, ho, -,
        ⟨o, hv, he⟩ | ⟨-, he⟩⟩
      · exact absurd rfl (hcall i k o)
      · rw [he] at hb' hs' ih ⊢
        exact ih hf hb' hs' (.nil n)
      · have hplain : ∀ k ∈ (c.told s).callbacks, k.effects = [] := by simpa using hf _ c hc
        have hwave : Wave s.target ((c.told s).consequences s.target o) :=
          wave_consequences hplain (by simpa using hb.behind s.target c hc) o
        rw [he] at hb' hs' ih ⊢
        refine ih (plain_put hf (by simp [Context.finished])) hb' hs' ?_
        simpa [finish] using hwave.mono hn
      · have hplain : ∀ k ∈ (c.told s).callbacks, k.effects = [] := by simpa using hf _ c hc
        rw [he] at hb' hs' ih ⊢
        exact ih (plain_put hf hplain) hb' hs' (.nil n)

/-- One act runs callbacks on contexts that stand further and further in front. -/
theorem fired_perform (acts : List Act) (a : Act) :
    ∃ new, (run (acts ++ [a])).fired = (run acts).fired ++ new ∧
      new.Pairwise fun x y => y.context ≤ x.context := by
  have hf := plain_run acts
  have hb := balanced_run acts
  have hsignals : ∃ n, Wave n a.signals := by
    cases a with
    | complete i => exact ⟨i, .last (by simp) le_rfl⟩
    | cancel i => exact ⟨i, .last (by simp) le_rfl⟩
    | expire i => exact ⟨i, .last (by simp) le_rfl⟩
    | root => exact ⟨0, .nil 0⟩
    | fork => exact ⟨0, .nil 0⟩
    | callback => exact ⟨0, .nil 0⟩
  obtain ⟨n, hw⟩ := hsignals
  obtain ⟨new, hnew, -, hsorted⟩ :=
    fired_settle (run acts) a.signals hf (hb.signals a) (Act.not_force_completed a) hw
  rw [run_concat]
  cases a with
  | complete i => exact ⟨new, hnew, hsorted⟩
  | cancel i => exact ⟨new, hnew, hsorted⟩
  | expire i => exact ⟨new, hnew, hsorted⟩
  | root originator metadata deadline => exact ⟨[], by simp [perform, addRoot], .nil⟩
  | fork i originator =>
    refine ⟨[], ?_, .nil⟩
    rw [List.append_nil, perform]
    by_cases hopen : (run acts).IsOpen i
    · obtain ⟨c, hc, ho⟩ := hopen
      rw [fork_of_isOpen hc ho]
      rfl
    · rw [fork_of_not_isOpen hopen]
      rfl
  | callback i tag =>
    rw [perform]
    cases hc : (run acts).contexts[i]? with
    | none => exact ⟨[], by simp [addCallback_of_none hc], .nil⟩
    | some c =>
      cases ho : c.outcome with
      | some o =>
        rw [addCallback_of_outcome hc ho]
        obtain ⟨new, hnew, -, hsorted⟩ := fired_settle (run acts) [.call i { tag := tag } o] hf
          (hb.congr fun j e _ _ => by simp) (by simp) (.call o rfl le_rfl (.nil i))
        exact ⟨new, hnew, hsorted⟩
      | none =>
        rw [addCallback_of_open hc ho]
        exact ⟨[], by simp [put], .nil⟩

/-- A descending log is cut where the first entry is at or in front of a position. -/
theorem exists_cut {new : List Firing} (h : new.Pairwise fun x y => y.context ≤ x.context)
    (i : Nat) :
    ∃ early late, new = early ++ late ∧ (∀ x ∈ early, i < x.context) ∧ ∀ x ∈ late,
    x.context ≤ i := by
  induction h with
  | nil => exact ⟨[], [], rfl, by simp, by simp⟩
  | @cons x new hx _ ih =>
    by_cases hi : i < x.context
    · obtain ⟨early, late, rfl, hearly, hlate⟩ := ih
      exact ⟨x :: early, late, rfl, List.forall_mem_cons.mpr ⟨hi, hearly⟩, hlate⟩
    · have hle : x.context ≤ i := Nat.le_of_not_lt hi
      exact ⟨[], x :: new, rfl, by simp,
        List.forall_mem_cons.mpr ⟨hle, fun y hy => (hx y hy).trans hle⟩⟩

/-- An ancestor that waits for a context, itself or through others, stands in front of it. -/
theorem lt_of_awaits {acts : List Act} (h : Relation.TransGen (Awaits acts) i j) : i < j := by
  induction h with
  | single h => exact h.lt.1
  | tail _ h ih => exact ih.trans h.lt.1

/-! ### Exactly once -/

/-- The callbacks of all contexts run as the history tells: those of a finished context once each,
in the order in which they were added and with its outcome, those of an unfinished one not at all,
and those of forks before those of the contexts that waited for them. -/
structure FiresOnce (acts : List Act) : Prop where
  /-- On a finished context each callback that was added to it has run once, with its outcome and
  in the order in which they were added; on an unfinished one none has run. -/
  firings : ∀ i, (run acts).firings i =
    match (run acts).outcome i with
    | none => []
    | some o => (registered acts i).map (⟨i, ·, o⟩)
  /-- What one act runs on a fork comes before what it runs on an ancestor that waits for the
  fork. -/
  forks_first : ∀ (before after : List Act) (a : Act) (i j : Nat), acts = before ++ a :: after →
    Relation.TransGen (Awaits before) i j →
      ∃ early late, (run (before ++ [a])).fired = (run before).fired ++ early ++ late ∧
        (∀ x ∈ early, x.context ≠ i) ∧ (∀ x ∈ late, x.context ≠ j)

/-- After any acts, in any order, the callbacks of a finished context have run exactly once and
those of an unfinished one have not, and forks come before their ancestors (`FiresOnce`). -/
theorem firesOnce_run (acts : List Act) : FiresOnce acts where
  firings i := by
    have howes := owes_run acts
    have hledger : (run acts).ledger [] i = (run acts).firings i := List.append_nil _
    cases hc : (run acts).contexts[i]? with
    | none =>
      rw [outcome, hc, Option.bind_none, ← hledger]
      exact (howes.absent i hc).2
    | some c =>
      rw [outcome, hc, Option.bind_some, ← hledger]
      cases ho : c.outcome with
      | none => exact (howes.waiting i c hc ho).2
      | some o => exact howes.taken i c o hc ho
  forks_first before after a i j _ hawaits := by
    obtain ⟨new, hnew, hsorted⟩ := fired_perform before a
    obtain ⟨early, late, rfl, hearly, hlate⟩ := exists_cut hsorted i
    refine ⟨early, late, by rw [hnew, List.append_assoc], fun x hx => (hearly x hx).ne',
      fun x hx => ?_⟩
    exact ((hlate x hx).trans_lt (lt_of_awaits hawaits)).ne

/-- The fork finishes last of all, and its callback runs first. -/
example : (run [.root none none none, .fork 0 none, .callback 0 "root", .callback 1 "fork",
    .complete 0, .complete 1]).fired = [⟨1, "fork", .completed⟩, ⟨0, "root", .completed⟩] := by
  cbv

end Forest

end Patchbay
