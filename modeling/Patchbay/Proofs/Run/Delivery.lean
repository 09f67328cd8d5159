import Mathlib.Data.List.Permutation
import Patchbay.Proofs.Context.Joins
import Patchbay.Proofs.Run.Accounts

/-!
# Delivery

No item is lost or delivered twice, and no context stays open for an item that nobody can complete.

The queues keep their accounts. The contexts are those that the history of the forest tells of
(`forest_after`), and the forest is an exact join of its history. Every context is made once, so a
fork belongs to one offer, and what marks it as complete can only be whoever read the item, the
sink that was dropped, or the push itself when the sink did not take the item (`marked_iff`).

A push is as good as its offers: an offer that is not taken leaves the context unfinished, so a
context that is unfinished when a push begins is so at each of them (`Sound.offers`).
-/

namespace Patchbay

namespace Wiring

/-- Somebody has the context at hand: it was made without a parent, or an item was read that
carries it. -/
def Held (w : Wiring) (acts : List PadAct) (i : Nat) : Prop :=
  i ∈ w.roots acts ∨ ∃ sink, ∃ item ∈ w.reads acts sink, item.context = i

/-- An item that was offered under one context carries the other, which is a child of the first. -/
def Forks (w : Wiring) (acts : List PadAct) (i j : Nat) : Prop :=
  ∃ o ∈ w.offered acts, o.context = i ∧ o.fork = j

end Wiring

/-- Whether an act may follow some others: whoever offers an item or completes a context has the
context at hand (`Held`), and an item is offered under an unfinished one. -/
def PadAct.Allowed (w : Wiring) (acts : List PadAct) : PadAct → Prop
  | .offer _ _ _ context => w.Held acts context ∧ (w.after acts).forest.IsOpen context
  | .complete context => w.Held acts context
  | _ => True

/-- Whether a push or an act may follow some acts. -/
def Traffic.Allowed (w : Wiring) (acts : List PadAct) : Traffic → Prop
  | .push _ _ context => w.Held acts context ∧ (w.after acts).forest.IsOpen context
  | .single a => a.Allowed w acts

namespace Wiring

variable {w : Wiring} {acts : List PadAct} {a : PadAct} {sink : PadRef} {i j : Nat}

/-- The acts that pushes and acts are made of (`Traffic.acts`), in the states in which they happen.
-/
def trace (w : Wiring) (ms : List Traffic) : List PadAct :=
  observed undergo (fun w m => m.acts w) w ms

/-- Every act may follow those before it (`PadAct.Allowed`). -/
def Sound (w : Wiring) (acts : List PadAct) : Prop :=
  ∀ before a later, acts = before ++ a :: later → a.Allowed w before

/-- Every push and every act may follow those before it (`Traffic.Allowed`). This is asked for of
pushes as a whole; their offers are admissible then (`Admits.sound`). -/
def Admits (w : Wiring) (ms : List Traffic) : Prop :=
  ∀ before m later, ms = before ++ m :: later → m.Allowed w (w.trace before)

/-- What has become of all that was offered: each item is taken or reported as dropped, what was
taken is read, discarded or still waits, in order and once, and contexts are finished when what
derives from them is done with. -/
structure Delivers (w : Wiring) (acts : List PadAct) : Prop where
  /-- What was read from a sink and what waits there is what the sink took, in order. -/
  conserved : ∀ sink, .close sink ∉ acts →
    w.reads acts sink ++ (w.after acts).waiting sink = w.accepted acts sink
  /-- At a dropped sink nothing waits, and what was not read was discarded. -/
  conserved_closed : ∀ sink, .close sink ∈ acts →
    (w.after acts).waiting sink = [] ∧ w.reads acts sink ++ w.discarded acts sink =
    w.accepted acts sink
  bounded : ∀ sink, ((w.after acts).waiting sink).length ≤ w.capacity
  /-- A sink takes items until it is dropped. -/
  isOpen_iff : ∀ sink, w.queues.has sink = true →
    ((w.after acts).isOpen sink = true ↔ .close sink ∉ acts)
  /-- Every offer is taken by a sink that is open and has room; otherwise its fork is completed at
  once. -/
  fate : ∀ o ∈ w.offered acts, o.Fate
  /-- Every item carries a fork of its own. -/
  forks_nodup : ((w.offered acts).map Offer.fork).Nodup
  /-- Nothing is reported but items that found a full queue, each of them once. -/
  drops : (w.after acts).drops = w.drops ++ (w.offered acts).flatMap Offer.report
  /-- What a dropped sink discards is completed. -/
  discarded : ∀ sink, ∀ item ∈ w.discarded acts sink,
    (w.after acts).forest.outcome item.context = some .completed
  /-- A root is finished when it is completed and every item that derives from it is completed or
  discarded. -/
  finished_iff : ∀ i ∈ w.roots acts, (w.after acts).forest.outcome i ≠ none ↔
    .complete i ∈ acts ∧ ∀ o ∈ w.offered acts, o.taken = true →
      Relation.TransGen (w.Forks acts) i o.fork →
        .complete o.fork ∈ acts ∨ o.item ∈ w.discarded acts o.sink
  /-- Nothing is ever cut off. -/
  completed : ∀ i o, (w.after acts).forest.outcome i = some o → o = .completed
  /-- A property sink retains the last value that was pushed towards it. -/
  retained : ∀ before source sink v context later,
    acts = before ++ .offer source sink v context :: later → (∀ a ∈ later, ¬ a.Writes sink) →
      (w.after acts).retained.get? sink = (w.retained.get? sink).map fun _ => some v

/-! ### Contexts -/

/-- What the acts did to the contexts, as acts of the forest (`forestActs`), so that what is known
of an exact join applies. -/
def history (w : Wiring) (acts : List PadAct) : List Act := observed perform forestActs w acts

theorem forest_after (h : w.Idle) (acts : List PadAct) :
    (w.after acts).forest = Forest.run (w.history acts) := by
  rw [Forest.run, ← h.forest]
  exact (foldl_observed forest_perform w acts).symm

/-- Every context is a root or the fork of one offer, by the numbers in which the forest keeps
them. -/
theorem made_perm (h : w.Idle) (acts : List PadAct) :
    (w.roots acts ++ (w.offered acts).map Offer.fork).Perm
      (List.range (w.after acts).forest.contexts.size) := by
  have hmade : observed perform (fun w a => w.rootsOf a ++ (w.offersOf a).map Offer.fork) w acts =
      List.range (w.after acts).forest.contexts.size := by
    induction acts using List.reverseRecOn with
    | nil => simp [observed, after, h.forest]
    | append_singleton acts a ih =>
      rw [observed_concat, ih, after_concat, range_size_perform, after]
  rw [← hmade, roots, offered, map_observed]
  exact (observed_perm w acts).symm

theorem made_nodup (h : w.Idle) (acts : List PadAct) :
    (w.roots acts).Nodup ∧ ((w.offered acts).map Offer.fork).Nodup ∧
      ∀ i ∈ w.roots acts, ∀ o ∈ w.offered acts, o.fork ≠ i := by
  have hnodup := (made_perm h acts).nodup_iff.mpr List.nodup_range
  obtain ⟨hroots, hforks, hdisjoint⟩ := List.nodup_append.mp hnodup
  exact ⟨hroots, hforks, fun i hi o ho heq => hdisjoint i hi _ (List.mem_map_of_mem ho) heq.symm⟩

/-- A fork belongs to one offer. -/
theorem eq_of_fork_eq (h : w.Idle) {o o' : Offer} (ho : o ∈ w.offered acts)
    (ho' : o' ∈ w.offered acts)
    (heq : o.fork = o'.fork) : o = o' :=
  List.inj_on_of_nodup_map (made_nodup h acts).2.1 ho ho' heq

/-- What was read or discarded or still waits was offered to the sink and taken by it. -/
theorem exists_offer (h : w.Idle) {item : Item} (hitem : item ∈ w.reads acts sink ∨
    item ∈ w.discarded acts sink ∨ item ∈ (w.after acts).waiting sink) :
    ∃ o ∈ w.offered acts, o.sink = sink ∧ o.taken = true ∧ o.item = item := by
  refine Offer.mem_takenBy.mp ?_
  rw [← accepted, ← (tally_after h acts sink).1, List.mem_append, List.mem_append, or_assoc]
  exact hitem

theorem fork_lt (h : w.Idle) {o : Offer} (ho : o ∈ w.offered acts) :
    o.fork < (w.after acts).forest.contexts.size :=
  List.mem_range.mp
    ((made_perm h acts).subset (List.mem_append_right _ (List.mem_map_of_mem ho)))

theorem lt_of_held (h : w.Idle) (hi : w.Held acts i) :
    i < (w.after acts).forest.contexts.size := by
  rcases hi with hi | ⟨sink, item, hitem, rfl⟩
  · exact List.mem_range.mp ((made_perm h acts).subset (List.mem_append_left _ hi))
  · obtain ⟨o, ho, -, -, rfl⟩ := exists_offer h (.inl hitem)
    exact fork_lt h ho

/-- What is offered is offered at some moment. -/
theorem exists_moment {o : Offer} (ho : o ∈ w.offered acts) :
    ∃ before later, acts = before ++ .offer o.source o.sink o.value o.context :: later ∧
      o.before = w.after before := by
  obtain ⟨before, a, later, rfl, hoffer⟩ := mem_observed.mp ho
  obtain ⟨rfl, hbefore⟩ := mem_offersOf.mp hoffer
  exact ⟨before, later, rfl, hbefore⟩

theorem Held.append (h : w.Held acts i) (more : List PadAct) : w.Held (acts ++ more) i := by
  rcases h with h | ⟨sink, item, hitem, hi⟩
  · left
    rw [roots, observed_append]
    exact List.mem_append_left _ h
  · refine .inr ⟨sink, item, ?_, hi⟩
    rw [reads, observed_append]
    exact List.mem_append_left _ hitem

/-! ### What the history tells -/

/-- The forks that one act takes from an unfinished context. -/
theorem moment_fork (w : Wiring) (a : PadAct) (i j : Nat) :
    (Moment Forest.perform w.forest (w.forestActs a) fun f b =>
        f.IsOpen i ∧ ∃ originator, b = .fork i originator ∧ j = (f.fork i originator).2) ↔
      ∃ o ∈ w.offersOf a, o.before.forest.IsOpen o.context ∧ o.context = i ∧ o.fork = j := by
  have hcompletes : ∀ (f : Forest) (contexts : List Nat),
      ¬ Moment Forest.perform f (contexts.map Act.complete) fun f b =>
        f.IsOpen i ∧ ∃ originator, b = .fork i originator ∧ j = (f.fork i originator).2 := by
    rintro f contexts ⟨before, b, after, hacts, -, originator, rfl, -⟩
    have hmem : Act.fork i originator ∈ contexts.map Act.complete := by simp [hacts]
    obtain ⟨k, -, hk⟩ := List.mem_map.mp hmem
    exact absurd hk (by simp)
  cases a with
  | offer source sink v context =>
    let o : Offer := ⟨w, source, sink, v, context⟩
    have hrest := hcompletes (w.forest.perform (.fork context none))
      (if o.taken then [] else [o.fork])
    have hacts : w.forestActs (.offer source sink v context) =
        .fork context none :: (if o.taken then [] else [o.fork]).map Act.complete := by
      rw [forestActs]
      dsimp only [o]
      split <;> rfl
    rw [hacts, moment_cons, or_iff_left hrest]
    simp only [offersOf, List.mem_singleton, exists_eq_left]
    constructor
    · rintro ⟨hopen, originator, heq, hj⟩
      obtain ⟨rfl, rfl⟩ := Act.fork.inj heq
      exact ⟨hopen, rfl, hj.symm⟩
    · rintro ⟨hopen, rfl, rfl⟩
      exact ⟨hopen, none, rfl, rfl⟩
  | root originator metadata deadline =>
    refine iff_of_false ?_ (by simp [offersOf])
    rw [forestActs, moment_cons]
    rintro (⟨-, originator', h, -⟩ | h)
    · exact absurd h (by simp)
    · exact moment_nil h
  | set pad v => exact iff_of_false moment_nil (by simp [offersOf])
  | read t => exact iff_of_false moment_nil (by simp [offersOf])
  | complete context => exact iff_of_false (hcompletes _ [context]) (by simp [offersOf])
  | close t =>
    refine iff_of_false ?_ (by simp [offersOf])
    have h := hcompletes w.forest ((w.waiting t).map (·.context))
    rwa [List.map_map] at h

/-- A context waits for the items that are offered under it while it is unfinished
(`Forest.Awaits`). -/
theorem awaits_iff (h : w.Idle) : Forest.Awaits (w.history acts) i j ↔
    ∃ o ∈ w.offered acts, o.before.forest.IsOpen o.context ∧ o.context = i ∧ o.fork = j := by
  have hmoments : Forest.Awaits (w.history acts) i j ↔
      Moment Forest.perform w.forest (w.history acts) fun f b =>
        f.IsOpen i ∧ ∃ originator, b = .fork i originator ∧ j = (f.fork i originator).2 := by
    rw [h.forest]
    rfl
  rw [hmoments, history, moment_observed forest_perform]
  simp only [moment_fork]
  constructor
  · rintro ⟨before, a, later, hacts, o, ho, hi⟩
    exact ⟨o, mem_observed.mpr ⟨before, a, later, hacts, ho⟩, hi⟩
  · rintro ⟨o, ho, hi⟩
    obtain ⟨before, a, later, hacts, ho⟩ := mem_observed.mp ho
    exact ⟨before, a, later, hacts, o, ho, hi⟩

/-- What marks a context as complete at one act. -/
theorem mem_forestActs_complete : .complete i ∈ w.forestActs a ↔
    a = .complete i ∨ (∃ o ∈ w.offersOf a, o.taken = false ∧ o.fork = i) ∨
      ∃ sink, ∃ item ∈ discardsOf sink w a, item.context = i := by
  cases a with
  | offer source sink v context =>
    cases htaken : (Offer.mk w source sink v context).taken with
    | true => simp [forestActs, offersOf, discardsOf, htaken]
    | false => simp [forestActs, offersOf, discardsOf, htaken, eq_comm (a := i)]
  | root originator metadata deadline => simp [forestActs, offersOf, discardsOf]
  | set pad v => simp [forestActs, offersOf, discardsOf]
  | read t => simp [forestActs, offersOf, discardsOf]
  | complete context => simp [forestActs, offersOf, discardsOf, eq_comm (a := i)]
  | close t => simp [forestActs, offersOf, discardsOf]

/-- What is marked as complete among some acts is marked while it is there, if it was there before
them. -/
theorem moment_complete {f : Forest} {fs : List Act} (hmem : .complete i ∈ fs)
    (hi : i < f.contexts.size) :
    Moment Forest.perform f fs fun f b => b = .complete i ∧ i < f.contexts.size := by
  obtain ⟨before, after, rfl⟩ := List.append_of_mem hmem
  exact ⟨before, _, after, rfl, rfl, hi.trans_le (Forest.size_le_foldl f before)⟩

theorem Sound.held_complete (hs : w.Sound acts) (hmem : .complete i ∈ acts) :
    ∃ before later, acts = before ++ .complete i :: later ∧ w.Held before i := by
  obtain ⟨before, later, rfl⟩ := List.append_of_mem hmem
  exact ⟨before, later, rfl, hs before _ later rfl⟩

/-- A context is marked as complete (`Forest.Marked`) by whoever has it at hand, by an offer that
was not taken, or by the drop of the sink at which its item waited. -/
theorem marked_iff (h : w.Idle) (hs : w.Sound acts) : Forest.Marked (w.history acts) i ↔
    .complete i ∈ acts ∨ (∃ o ∈ w.offered acts, o.taken = false ∧ o.fork = i) ∨
      ∃ sink, ∃ item ∈ w.discarded acts sink, item.context = i := by
  have hmoments : Forest.Marked (w.history acts) i ↔
      Moment perform w acts fun w a => Moment Forest.perform w.forest (w.forestActs a) fun f b =>
        b = .complete i ∧ i < f.contexts.size := by
    rw [← moment_observed forest_perform, h.forest]
    rfl
  rw [hmoments]
  constructor
  · rintro ⟨before, a, later, rfl, fs, b, fs', hacts, rfl, -⟩
    have hmem : .complete i ∈ (w.after before).forestActs a := by
      rw [after, hacts]
      simp
    rcases mem_forestActs_complete.mp hmem with rfl | ⟨o, ho, hrefused⟩ | ⟨sink, item, hitem, hi⟩
    · exact .inl (by simp)
    · exact .inr (.inl ⟨o, mem_observed.mpr ⟨before, a, later, rfl, ho⟩, hrefused⟩)
    · exact .inr (.inr ⟨sink, item, mem_observed.mpr ⟨before, a, later, rfl, hitem⟩, hi⟩)
  · rintro (hmem | ⟨o, ho, htaken, rfl⟩ | ⟨sink, item, hitem, rfl⟩)
    · obtain ⟨before, later, rfl, hheld⟩ := hs.held_complete hmem
      exact ⟨before, _, later, rfl, moment_complete (List.mem_singleton.mpr rfl)
        (lt_of_held h hheld)⟩
    · obtain ⟨before, later, rfl, hbefore⟩ := exists_moment ho
      obtain ⟨_, source, sink, v, context⟩ := o
      subst hbefore
      have hacts : (w.after before).forestActs (.offer source sink v context) =
          [.fork context none,
            .complete (Offer.mk (w.after before) source sink v context).fork] := by
        simp [forestActs, htaken]
      refine ⟨before, _, later, rfl, ?_⟩
      dsimp only
      rw [← after, hacts]
      refine moment_cons.mpr (.inr (moment_complete (List.mem_singleton.mpr rfl) ?_))
      rw [Offer.fork_eq, Forest.perform, Forest.size_fork]
      exact Nat.lt_succ_self _
    · obtain ⟨before, a, later, rfl, hdiscard⟩ := mem_observed.mp hitem
      refine ⟨before, a, later, rfl, moment_complete ?_ ?_⟩
      · exact mem_forestActs_complete.mpr (.inr (.inr ⟨sink, item, hdiscard, rfl⟩))
      · obtain ⟨o, ho, -, -, rfl⟩ := exists_offer h (.inr (.inr (mem_discardsOf.mp hdiscard).2))
        exact fork_lt h ho

/-! ### Finishing -/

/-- The acts do not cut a context off. -/
theorem cuts_history (w : Wiring) (acts : List PadAct) : ∀ b ∈ w.history acts, ∀ i,
    b.cuts i = none := by
  intro b hb i
  obtain ⟨before, a, later, -, hmem⟩ := mem_observed.mp hb
  cases b with
  | cancel j => cases a <;> simp [forestActs] at hmem
  | expire j => cases a <;> simp [forestActs] at hmem
  | root originator metadata deadline => rfl
  | fork j originator => rfl
  | complete j => rfl
  | callback j tag => rfl

theorem not_cutOff_history (w : Wiring) (acts : List PadAct) (i : Nat) (o : Completion) :
    ¬ Forest.CutOff (w.history acts) i o := by
  rintro ⟨before, b, later, hacts, hcut, -⟩
  have hnone := w.cuts_history acts b (by simp [hacts]) i
  exact absurd (hnone.symm.trans hcut) (by simp)

theorem outcome_eq_completed (h : w.Idle) {o : Completion}
    (ho : (w.after acts).forest.outcome i = some o) : o = .completed := by
  rw [forest_after h] at ho
  by_contra hne
  exact w.not_cutOff_history acts i o ((Forest.cutOff_iff_outcome _ i o).mpr ⟨hne, ho⟩)

theorem Sound.isOpen (hs : w.Sound acts) {o : Offer} (ho : o ∈ w.offered acts) :
    o.before.forest.IsOpen o.context := by
  obtain ⟨before, later, hacts, hbefore⟩ := exists_moment ho
  rw [hbefore]
  exact (hs before _ later hacts).2

theorem Sound.held (hs : w.Sound acts) {o : Offer} (ho : o ∈ w.offered acts) :
    w.Held acts o.context := by
  obtain ⟨before, later, rfl, -⟩ := exists_moment ho
  exact (hs before _ later rfl).1.append _

theorem Sound.awaits_iff (h : w.Idle) (hs : w.Sound acts) :
    Forest.Awaits (w.history acts) i j ↔ w.Forks acts i j := by
  rw [Wiring.awaits_iff h]
  exact ⟨fun ⟨o, ho, _, hij⟩ => ⟨o, ho, hij⟩, fun ⟨o, ho, hij⟩ => ⟨o, ho, hs.isOpen ho, hij⟩⟩

/-- A context is finished when all that was offered under it, and in turn under that, is done with.
This is the exact join of the forest in terms of items. -/
theorem Sound.outcome_iff (h : w.Idle) (hs : w.Sound acts) :
    (w.after acts).forest.outcome i ≠ none ↔
      ∀ j, Relation.ReflTransGen (w.Forks acts) i j → Forest.Marked (w.history acts) j := by
  have hrel : Forest.Awaits (w.history acts) = w.Forks acts := by
    funext i j
    exact propext (hs.awaits_iff h)
  have hjoin :=
    (Forest.exactJoin_run (w.history acts)).completed_iff_marked (w.cuts_history acts) i
  rw [hrel, ← forest_after h] at hjoin
  rw [← hjoin]
  constructor
  · intro hne
    obtain ⟨o, ho⟩ := Option.ne_none_iff_exists'.mp hne
    rw [ho, outcome_eq_completed h ho]
  · intro ho
    simp [ho]

/-- No item is taken twice, for each item has a fork of its own. -/
theorem accepted_nodup (h : w.Idle) (acts : List PadAct) (sink : PadRef) :
    (w.accepted acts sink).Nodup := by
  have hsub : ((w.accepted acts sink).map (·.context)).Sublist
      ((w.offered acts).map Offer.fork) := by
    rw [accepted, Offer.takenBy, List.map_map]
    exact List.filter_sublist.map _
  exact ((made_nodup h acts).2.1.sublist hsub).of_map

/-- Nobody gets hold of the context of an item that is discarded. -/
theorem not_held_of_discarded (h : w.Idle) {item : Item} (hitem : item ∈ w.discarded acts sink) :
    ¬ w.Held acts item.context := by
  obtain ⟨o, ho, rfl, -, rfl⟩ := exists_offer h (.inr (.inl hitem))
  rintro (hroot | ⟨sink, item, hread, hcontext⟩)
  · exact (made_nodup h acts).2.2 _ hroot o ho rfl
  · obtain ⟨o', ho', rfl, -, rfl⟩ := exists_offer h (.inl hread)
    obtain rfl := eq_of_fork_eq h ho' ho hcontext
    -- The item would be taken twice.
    have hnodup := accepted_nodup h acts o'.sink
    rw [← (tally_after h acts o'.sink).1, List.append_assoc] at hnodup
    exact (List.nodup_append.mp hnodup).2.2 _ hread _ (List.mem_append_left _ hitem) rfl

theorem Sound.outcome_of_discarded (h : w.Idle) (hs : w.Sound acts) {item : Item}
    (hitem : item ∈ w.discarded acts sink) :
    (w.after acts).forest.outcome item.context = some .completed := by
  have hout : (w.after acts).forest.outcome item.context ≠ none := by
    refine (hs.outcome_iff h).mpr fun j hreach => ?_
    rcases hreach.cases_head with rfl | ⟨k, ⟨o, ho, hcontext, -⟩, -⟩
    · exact (marked_iff h hs).mpr (.inr (.inr ⟨sink, item, hitem, rfl⟩))
    · exact absurd (hcontext ▸ hs.held ho) (not_held_of_discarded h hitem)
  obtain ⟨o, ho⟩ := Option.ne_none_iff_exists'.mp hout
  rw [ho, outcome_eq_completed h ho]

/-- A taken item is marked as complete by its reader or by the drop of its sink. -/
theorem marked_fork_iff (h : w.Idle) (hs : w.Sound acts) {o : Offer} (ho : o ∈ w.offered acts)
    (htaken : o.taken = true) : Forest.Marked (w.history acts) o.fork ↔
      .complete o.fork ∈ acts ∨ o.item ∈ w.discarded acts o.sink := by
  rw [marked_iff h hs]
  refine or_congr_right ⟨?_, fun hitem => .inr ⟨_, _, hitem, rfl⟩⟩
  rintro (⟨o', ho', hrefused, heq⟩ | ⟨sink, item, hitem, heq⟩)
  · obtain rfl := eq_of_fork_eq h ho' ho heq
    exact absurd (hrefused.symm.trans htaken) (by simp)
  · obtain ⟨o', ho', rfl, -, rfl⟩ := exists_offer h (.inr (.inl hitem))
    obtain rfl := eq_of_fork_eq h ho' ho heq
    exact hitem

/-- A root is marked as complete only by whoever made it. -/
theorem marked_root_iff (h : w.Idle) (hs : w.Sound acts) (hi : i ∈ w.roots acts) :
    Forest.Marked (w.history acts) i ↔ .complete i ∈ acts := by
  rw [marked_iff h hs]
  refine ⟨?_, .inl⟩
  have hroot := (made_nodup h acts).2.2 i hi
  rintro (hmem | ⟨o, ho, -, heq⟩ | ⟨sink, item, hitem, heq⟩)
  · exact hmem
  · exact absurd heq (hroot o ho)
  · obtain ⟨o, ho, -, -, rfl⟩ := exists_offer h (.inr (.inl hitem))
    exact absurd heq (hroot o ho)

theorem Sound.finished_iff (h : w.Idle) (hs : w.Sound acts) (hi : i ∈ w.roots acts) :
    (w.after acts).forest.outcome i ≠ none ↔ .complete i ∈ acts ∧
      ∀ o ∈ w.offered acts, o.taken = true → Relation.TransGen (w.Forks acts) i o.fork →
        .complete o.fork ∈ acts ∨ o.item ∈ w.discarded acts o.sink := by
  rw [hs.outcome_iff h]
  constructor
  · intro hall
    refine ⟨(marked_root_iff h hs hi).mp (hall i .refl), fun o ho htaken hreach => ?_⟩
    exact (marked_fork_iff h hs ho htaken).mp (hall _ hreach.to_reflTransGen)
  · rintro ⟨hmem, hall⟩ j hreach
    rcases Relation.reflTransGen_iff_eq_or_transGen.mp hreach with rfl | hreach'
    · exact (marked_root_iff h hs hi).mpr hmem
    · obtain ⟨k, -, o, ho, -, rfl⟩ := Relation.TransGen.tail'_iff.mp hreach'
      cases htaken : o.taken with
      | true => exact (marked_fork_iff h hs ho htaken).mpr (hall o ho htaken hreach')
      | false => exact (marked_iff h hs).mpr (.inr (.inl ⟨o, ho, htaken, rfl⟩))

/-! ### Pushes and their offers -/

theorem sound_concat : w.Sound (acts ++ [a]) ↔ w.Sound acts ∧ a.Allowed w acts := by
  constructor
  · intro h
    refine ⟨fun before b later hacts => ?_, h acts a [] rfl⟩
    exact h before b (later ++ [a]) (by rw [hacts, List.append_assoc, List.cons_append])
  · rintro ⟨h, ha⟩ before b later hacts
    rcases List.eq_nil_or_concat later with rfl | ⟨later', c, rfl⟩
    · obtain ⟨rfl, hb⟩ := List.append_inj' hacts rfl
      obtain rfl := List.singleton_inj.mp hb
      exact ha
    · have hsplit : acts ++ [a] = (before ++ b :: later') ++ [c] := by simpa using hacts
      exact h before b later' (List.append_inj' hsplit rfl).1

/-- An offer does not finish the context that it is made under: the fork of an item that is not
taken is complete, and the context itself is not marked by that. -/
theorem isOpen_offer (h : w.Idle) (hopen : (w.after acts).forest.IsOpen i) (source sink : PadRef)
    (v : Json) :
    ((w.after acts).perform (.offer source sink v i)).forest.IsOpen i := by
  have hbalanced : (w.after acts).forest.Balanced [] := by
    rw [forest_after h]
    exact Forest.balanced_run _
  let o : Offer := ⟨w.after acts, source, sink, v, i⟩
  change o.after.forest.IsOpen i
  rw [o.forest_after, o.fork_eq]
  split
  · exact hopen.fork none
  · exact hopen.complete_fork hbalanced none

/-- A context that is unfinished when a push begins is unfinished at each of its offers
(`isOpen_offer`), so a push is as good as its offers. -/
theorem Sound.offers (h : w.Idle) (hs : w.Sound acts) (hheld : w.Held acts i)
    (hopen : (w.after acts).forest.IsOpen i) (source : PadRef) (v : Json) (sinks : List PadRef) :
    w.Sound (acts ++ sinks.map fun sink => .offer source sink v i) := by
  induction sinks generalizing acts with
  | nil => simpa using hs
  | cons sink rest ih =>
    rw [List.map_cons, ← List.singleton_append, ← List.append_assoc]
    refine ih (sound_concat.mpr ⟨hs, hheld, hopen⟩) (hheld.append _) ?_
    rw [after_concat]
    exact isOpen_offer h hopen source sink v

/-- Pushes come to the same pads as the acts that they are made of. -/
theorem after_trace (w : Wiring) (ms : List Traffic) :
    w.after (w.trace ms) = ms.foldl undergo w := by
  have hparts : ∀ w m, id (undergo w m) = (Traffic.acts w m).foldl perform (id w) :=
    undergo_eq_after
  exact foldl_observed hparts w ms

theorem trace_concat (w : Wiring) (ms : List Traffic) (m : Traffic) :
    w.trace (ms ++ [m]) = w.trace ms ++ m.acts (w.after (w.trace ms)) := by
  rw [after_trace]
  exact observed_concat w ms m

/-- Where pushes and acts may follow each other, so may the acts that they are made of
(`Sound.offers`). -/
theorem Admits.sound (h : w.Idle) {ms : List Traffic} (hms : w.Admits ms) :
    w.Sound (w.trace ms) := by
  induction ms using List.reverseRecOn with
  | nil =>
    intro before a later hacts
    exact absurd hacts (by simp [trace, observed])
  | append_singleton ms m ih =>
    have hs := ih fun before b later hacts =>
      hms before b (later ++ [m]) (by rw [hacts, List.append_assoc, List.cons_append])
    have hm := hms ms m [] rfl
    rw [trace_concat]
    cases m with
    | single a => exact sound_concat.mpr ⟨hs, hm⟩
    | push source v context =>
      rw [Traffic.acts, ← List.singleton_append, ← List.append_assoc]
      have hset : w.Sound (w.trace ms ++ [.set source v]) := sound_concat.mpr ⟨hs, trivial⟩
      refine hset.offers h (hm.1.append _) ?_ source v _
      rw [after_concat]
      exact hm.2

/-- Whatever sources, sinks and readers do, in any order, nothing is lost or delivered twice, and
every context is finished once all that derives from it is done with (`Wiring.Delivers`). The
wiring is fresh at the start (`Wiring.Idle`), and what is pushed has a context of its own
(`Wiring.Admits`). -/
theorem delivers_run {ms : List Traffic} (h : w.Idle) (hms : w.Admits ms) :
    w.after (w.trace ms) = ms.foldl undergo w ∧ w.Delivers (w.trace ms) := by
  have hs := hms.sound h
  refine ⟨w.after_trace ms, ?_⟩
  generalize w.trace ms = acts at hs
  exact {
    conserved := fun sink hmem => by
      have htally := (tally_after h acts sink).1
      rwa [discarded_eq_nil hmem, List.append_nil] at htally
    conserved_closed := fun sink hmem => by
      obtain ⟨htally, hclosed⟩ := tally_after h acts sink
      rw [hclosed hmem, List.append_nil] at htally
      exact ⟨hclosed hmem, htally⟩
    bounded := length_waiting_after h acts
    isOpen_iff := fun sink hsink => by
      rw [isOpen_after, and_iff_right (h.isOpen hsink)]
    fate := fun o _ => o.fate
    forks_nodup := (made_nodup h acts).2.1
    drops := drops_after w acts
    discarded := fun sink item hitem => hs.outcome_of_discarded h hitem
    finished_iff := fun i hi => hs.finished_iff h hi
    completed := fun i o ho => outcome_eq_completed h ho
    retained :=
    fun before source sink v context later hacts hlater => retained_after w hacts hlater }

/-- A source that feeds one sink, which has room for one item. -/
def narrow : Wiring where
  capacity := 1
  outlets := [(⟨"a", "out"⟩, { kind := .stateless, sinks := [⟨"b", "in"⟩] })]
  queues := [(⟨"b", "in"⟩, {})]

/-- Two values are pushed under one context; there is no room for the second. -/
def narrowTraffic : List Traffic :=
  [.single (.root none none none), .push ⟨"a", "out"⟩ (.bool true) 0,
    .push ⟨"a", "out"⟩ (.bool false) 0,
    .single (.complete 0), .single (.read ⟨"b", "in"⟩), .single (.complete 1)]

theorem idle_narrow : narrow.Idle :=
  ⟨rfl, fun e he => by obtain rfl := List.mem_singleton.mp he; rfl⟩

theorem admits_narrow : narrow.Admits narrowTraffic := by
  intro before m later h
  match before with
  | [] =>
    cases h
    exact trivial
  | [_] =>
    cases h
    exact ⟨.inl (by cbv; exact .head _), Forest.any_iff_isOpen.mp (by cbv)⟩
  | [_, _] =>
    cases h
    exact ⟨.inl (by cbv; exact .head _), Forest.any_iff_isOpen.mp (by cbv)⟩
  | [_, _, _] =>
    cases h
    exact .inl (by cbv; exact .head _)
  | [_, _, _, _] =>
    cases h
    exact trivial
  | [_, _, _, _, _] =>
    cases h
    exact .inr ⟨⟨"b", "in"⟩, ⟨.bool true, 1⟩, by cbv; exact .head _, rfl⟩
  | _ :: _ :: _ :: _ :: _ :: _ :: _ => simp [narrowTraffic] at h

/-- The second value is reported, and the context is finished once the first has been read and
completed. -/
theorem delivers_run_narrow : narrow.Idle ∧ narrow.Admits narrowTraffic ∧
    narrow.Delivers (narrow.trace narrowTraffic) ∧
      (narrow.after (narrow.trace narrowTraffic)).drops = [.itemDropped "a.out" "b.in" queueFull] ∧
      (narrow.after (narrow.trace narrowTraffic)).forest.outcome 0 = some .completed :=
  ⟨idle_narrow, admits_narrow, (delivers_run idle_narrow admits_narrow).2, by cbv, by cbv⟩

end Wiring

end Patchbay
