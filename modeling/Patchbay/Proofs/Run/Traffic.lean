import Patchbay.Proofs.Context.Settled
import Patchbay.Proofs.Trace
import Patchbay.Run.Wiring

/-!
# Traffic

What producers and consumers do to the pads of a running graph, one act at a time (`PadAct`). A
push is made of acts: its source retains the value, and then the value is offered to one sink after
the other (`Wiring.push_eq_after`). So `Traffic` is a push as a whole or one act; the offers of
pushes that run side by side may come in any order.

`Offer.fate` tells all that an offer does. `Wiring.tally_perform` is the account of one queue over
one act: what waits there and what the sink takes is what is read, what is discarded and what waits
afterwards.
-/

namespace Patchbay

/-- What can be done to the pads of a running graph and to the contexts of its items: an offer to
one sink, a read, the drop of a sink, and what is done to contexts. -/
inductive PadAct where
  /-- A context without a parent is made. -/
  | root (originator : Option String) (metadata : Option (List (String × String)))
      (deadline : Option Nat)
  /-- A property pad is given a value. -/
  | set (pad : PadRef) (value : Json)
  /-- A value goes out of a source to one of the sinks that it feeds. -/
  | offer (source sink : PadRef) (value : Json) (context : Nat)
  | read (sink : PadRef)
  | complete (context : Nat)
  /-- A sink is dropped. -/
  | close (sink : PadRef)

/-- What producers and consumers do. -/
inductive Traffic where
  /-- A value goes out of a source to all sinks that it feeds. -/
  | push (source : PadRef) (value : Json) (context : Nat)
  | single (act : PadAct)

/-- A value that is offered to a sink, and the pads at that moment, so that what becomes of it can
be told (`Offer.Fate`). -/
structure Offer where
  before : Wiring
  source : PadRef
  sink : PadRef
  value : Json
  context : Nat

namespace Offer

/-- The pads after an offer. -/
def after (o : Offer) : Wiring := (o.before.offer o.source o.sink o.value o.context).1

/-- Whether the sink took the item. -/
def taken (o : Offer) : Bool := (o.before.offer o.source o.sink o.value o.context).2

/-- The fork that was made for the item: the context that follows the last one. -/
def fork (o : Offer) : Nat := (o.before.forest.fork o.context).2

def item (o : Offer) : Item := ⟨o.value, o.fork⟩

end Offer

namespace Wiring

variable {w : Wiring} {sink : PadRef}

/-- What waits at a sink, oldest first. -/
def waiting (w : Wiring) (sink : PadRef) : List Item :=
  ((w.queues.get? sink).map (·.waiting)).getD []

/-- Whether a sink takes items, which it does until it is dropped. -/
def isOpen (w : Wiring) (sink : PadRef) : Bool := (w.queues.get? sink).any (·.isOpen)

/-- The pads after an act. -/
def perform (w : Wiring) : PadAct → Wiring
  | .root originator metadata deadline =>
    { w with forest := (w.forest.addRoot originator metadata deadline).1 }
  | .set pad v => w.retain pad v
  | .offer source sink v context => (w.offer source sink v context).1
  | .read sink => ((w.read sink).map (·.2)).getD w
  | .complete context => w.complete context
  | .close sink => w.close sink

/-- The pads after some acts. -/
def after (w : Wiring) (acts : List PadAct) : Wiring := acts.foldl perform w

/-- The pads after a push or an act. A push is `Wiring.push`, as a node performs it. -/
def undergo (w : Wiring) : Traffic → Wiring
  | .push source v context => (w.push source v context).1
  | .single a => w.perform a

end Wiring

/-- The acts that a push is made of: the source retains the value, and then there is an offer for
each of its sinks. -/
def Traffic.acts (w : Wiring) : Traffic → List PadAct
  | .push source v context =>
    .set source v :: (w.targets source).map fun sink => .offer source sink v context
  | .single a => [a]

/-- Whether an act sets a pad, or makes it retain the value of an offer. All other acts leave the
retained values alone (`retained_perform`). -/
def PadAct.Writes (pad : PadRef) : PadAct → Prop
  | .set p _ => p = pad
  | .offer _ sink _ _ => sink = pad
  | _ => False

namespace Wiring

variable {w : Wiring} {sink t : PadRef}

/-! ### Pushes -/

theorem offerAll_fst (w : Wiring) (source : PadRef) (v : Json) (context : Nat)
    (sinks : List PadRef) :
    (w.offerAll source v context sinks).1 =
      w.after (sinks.map fun sink => .offer source sink v context) := by
  induction sinks generalizing w with
  | nil => rfl
  | cons sink rest ih =>
    rw [offerAll]
    exact ih _

/-- Pushes and acts are seen as the acts that they are made of (`Traffic.acts`), so that all that
follows is about single acts. -/
theorem undergo_eq_after (w : Wiring) (m : Traffic) : w.undergo m = w.after (m.acts w) := by
  cases m with
  | push source v context => exact offerAll_fst _ source v context _
  | single a => rfl

/-! ### Queues -/

/-- Completing items changes nothing but their contexts. -/
theorem completeAll_eq (w : Wiring) (items : List Item) :
    w.completeAll items = { w with forest := (w.completeAll items).forest } := by
  induction items generalizing w with
  | nil => rfl
  | cons item rest ih => exact ih (w.complete item.context)

/-- Changing what waits at one sink. -/
theorem waiting_modify {w' : Wiring} {f : SinkQueue → SinkQueue}
    (h : w'.queues = w.queues.modify sink f) :
    w'.waiting t =
      if sink = t then ((w.queues.get? t).map fun q => (f q).waiting).getD []
      else w.waiting t := by
  rw [waiting, h]
  split
  · rename_i ht
    subst ht
    rw [PadTable.get?_modify_self, Option.map_map]
    rfl
  · rename_i ht
    rw [PadTable.get?_modify_of_ne (Ne.symm ht)]
    rfl

theorem isOpen_modify {w' : Wiring} {f : SinkQueue → SinkQueue}
    (h : w'.queues = w.queues.modify sink f) :
    w'.isOpen t = if sink = t then (w.queues.get? t).any fun q => (f q).isOpen
    else w.isOpen t := by
  rw [isOpen, h]
  split
  · rename_i ht
    subst ht
    rw [PadTable.get?_modify_self, Option.any_map]
  · rename_i ht
    rw [PadTable.get?_modify_of_ne (Ne.symm ht)]
    rfl

end Wiring

/-! ### Offers -/

namespace Offer

/-- Whether the item found a full queue. -/
def overflows (o : Offer) : Bool := o.before.isOpen o.sink && !o.taken

/-- What is reported of an offer. -/
def report (o : Offer) : List GraphEvent :=
  if o.overflows then [.itemDropped o.source.text o.sink.text Wiring.queueFull] else []

/-- What a sink takes of some offers, in their order. It is one side of the account of its queue
(`tally_perform`). -/
def takenBy (sink : PadRef) (offers : List Offer) : List Item :=
  (offers.filter fun o => o.sink == sink && o.taken).map item

theorem takenBy_append (sink : PadRef) (offers more : List Offer) :
    takenBy sink (offers ++ more) = takenBy sink offers ++ takenBy sink more := by
  simp [takenBy]

theorem mem_takenBy {sink : PadRef} {offers : List Offer} {item : Item} :
    item ∈ takenBy sink offers ↔ ∃ o ∈ offers, o.sink = sink ∧ o.taken = true ∧ o.item = item := by
  simp [takenBy, and_assoc]

/-- What becomes of an offer: the item waits at the sink, or it is reported because there was no
room, or nothing becomes of it because nobody reads there any more. -/
structure Fate (o : Offer) : Prop where
  /-- A sink takes the item if it is open and has room. -/
  taken_iff : o.taken = true ↔
    o.before.isOpen o.sink = true ∧ (o.before.waiting o.sink).length < o.before.capacity
  /-- What is taken waits behind what waited before. -/
  waiting : ∀ t, o.after.waiting t = o.before.waiting t ++ takenBy t [o]
  /-- The fork of an item that is not taken is completed at once. -/
  outcome : o.after.forest.outcome o.fork = if o.taken then none else some .completed
  /-- An item that finds a full queue is reported once, and no other one. -/
  drops : o.after.drops = o.before.drops ++ o.report

/-- The pads when the item is made: the sink retains the value, and the context has a fork. -/
def forked (o : Offer) : Wiring :=
  { o.before.retain o.sink o.value with forest := (o.before.forest.fork o.context).1 }

/-- The three things that can become of an item. -/
theorem offer_cases (o : Offer) :
    (o.before.isOpen o.sink = false ∧
      o.before.offer o.source o.sink o.value o.context = (o.forked.complete o.fork, false)) ∨
    (o.before.isOpen o.sink = true ∧ (o.before.waiting o.sink).length < o.before.capacity ∧
      o.before.offer o.source o.sink o.value o.context =
        ({ o.forked with
            queues := o.before.queues.modify o.sink fun q =>
              { q with waiting := q.waiting ++ [o.item] } }, true)) ∨
    (o.before.isOpen o.sink = true ∧ ¬ (o.before.waiting o.sink).length < o.before.capacity ∧
      o.before.offer o.source o.sink o.value o.context =
        ((o.forked.complete o.fork).reportDrop o.source o.sink, false)) := by
  rw [Wiring.isOpen, Wiring.waiting]
  cases hq : o.before.queues.get? o.sink with
  | none => simp [Wiring.offer, Wiring.retain, hq, forked, fork]
  | some q =>
    cases hopen : q.isOpen with
    | false => simp [Wiring.offer, Wiring.retain, hq, hopen, forked, fork]
    | true =>
      by_cases hroom : q.waiting.length < o.before.capacity <;>
        simp [Wiring.offer, Wiring.retain, hq, hopen, hroom, forked, fork, item]

theorem fork_eq (o : Offer) : o.fork = o.before.forest.contexts.size := Forest.fork_snd _ _ _

theorem forest_after (o : Offer) : o.after.forest =
    if o.taken then (o.before.forest.fork o.context).1
    else (o.before.forest.fork o.context).1.complete o.fork := by
  rcases o.offer_cases with ⟨-, h⟩ | ⟨-, -, h⟩ | ⟨-, -, h⟩ <;> simp only [after, taken, h] <;> rfl

theorem retained_after (o : Offer) :
    o.after.retained = (o.before.retain o.sink o.value).retained := by
  rcases o.offer_cases with ⟨-, h⟩ | ⟨-, -, h⟩ | ⟨-, -, h⟩ <;> simp only [after, h] <;> rfl

theorem capacity_after (o : Offer) : o.after.capacity = o.before.capacity := by
  rcases o.offer_cases with ⟨-, h⟩ | ⟨-, -, h⟩ | ⟨-, -, h⟩ <;> simp only [after, h] <;> rfl

theorem isOpen_after (o : Offer) (t : PadRef) : o.after.isOpen t = o.before.isOpen t := by
  rcases o.offer_cases with ⟨-, h⟩ | ⟨-, -, h⟩ | ⟨-, -, h⟩ <;> simp only [after, h]
  · rfl
  · rw [Wiring.isOpen_modify rfl]
    split <;> rfl
  · rfl

theorem outcome_after (o : Offer) :
    o.after.forest.outcome o.fork = if o.taken then none else some .completed := by
  rw [forest_after, fork_eq]
  split
  · exact Forest.outcome_fork_size _ _ _
  · exact Forest.outcome_complete_fork _ _ _

/-- Every offer comes to one of its three ends (`offer_cases`). -/
theorem fate (o : Offer) : o.Fate := by
  rcases o.offer_cases with ⟨hopen, h⟩ | ⟨hopen, hroom, h⟩ | ⟨hopen, hfull, h⟩
  · have htaken : o.taken = false := by rw [taken, h]
    refine ⟨by simp [htaken, hopen], fun t => ?_, o.outcome_after, ?_⟩
    · have hsame : o.after.waiting t = o.before.waiting t := by rw [after, h]; rfl
      simp [hsame, takenBy, htaken]
    · simp only [report, overflows, hopen, after, h]
      simp [forked, Wiring.retain, Wiring.complete]
  · have htaken : o.taken = true := by rw [taken, h]
    refine ⟨by simp [htaken, hopen, hroom], fun t => ?_, o.outcome_after, ?_⟩
    · rw [after, h, Wiring.waiting_modify rfl]
      split
      · rename_i ht
        subst ht
        obtain ⟨q, hq, -⟩ := (Option.any_eq_true _ _).mp hopen
        simp [Wiring.waiting, hq, takenBy, htaken]
      · rename_i ht
        simp [takenBy, ht]
    · simp only [report, overflows, htaken, after, h]
      simp [forked, Wiring.retain]
  · have htaken : o.taken = false := by rw [taken, h]
    refine ⟨by simp [htaken, hfull], fun t => ?_, o.outcome_after, ?_⟩
    · have hsame : o.after.waiting t = o.before.waiting t := by rw [after, h]; rfl
      simp [hsame, takenBy, htaken]
    · simp only [report, overflows, hopen, htaken, after, h]
      simp [forked, Wiring.retain, Wiring.complete, Wiring.reportDrop]

end Offer

namespace Wiring

variable {w : Wiring} {a : PadAct} {sink t : PadRef}

/-! ### Contexts -/

theorem forest_completeAll (w : Wiring) (items : List Item) :
    (w.completeAll items).forest =
      (items.map fun item => Act.complete item.context).foldl Forest.perform w.forest := by
  induction items generalizing w with
  | nil => rfl
  | cons item rest ih => exact ih (w.complete item.context)

/-- What an act does to the contexts: forks, marks of completion, and nothing else
(`Forest.perform`). -/
def forestActs (w : Wiring) : PadAct → List Act
  | .root originator metadata deadline => [.root originator metadata deadline]
  | .offer source sink v context =>
    let o : Offer := ⟨w, source, sink, v, context⟩
    .fork context none :: if o.taken then [] else [.complete o.fork]
  | .complete context => [.complete context]
  | .close sink => (w.waiting sink).map fun item => .complete item.context
  | .set _ _ | .read _ => []

theorem forest_perform (w : Wiring) (a : PadAct) :
    (w.perform a).forest = (w.forestActs a).foldl Forest.perform w.forest := by
  cases a with
  | root originator metadata deadline => rfl
  | set pad v => rfl
  | complete context => rfl
  | offer source sink v context =>
    rw [perform, forestActs]
    refine (Offer.forest_after ⟨w, source, sink, v, context⟩).trans ?_
    dsimp only
    split <;> rfl
  | read sink =>
    rw [perform, read]
    split <;> rfl
  | close sink =>
    rw [perform, close, forestActs, waiting]
    cases w.queues.get? sink with
    | none => rfl
    | some q => exact forest_completeAll _ q.waiting

/-! ### What an act shows -/

/-- The contexts that an act makes without a parent. -/
def rootsOf (w : Wiring) : PadAct → List Nat
  | .root originator metadata deadline => [(w.forest.addRoot originator metadata deadline).2]
  | _ => []

/-- What an act offers. -/
def offersOf (w : Wiring) : PadAct → List Offer
  | .offer source sink v context => [⟨w, source, sink, v, context⟩]
  | _ => []

/-- What an act reads from a sink. -/
def readsOf (sink : PadRef) (w : Wiring) : PadAct → List Item
  | .read t => if t = sink then ((w.read t).map (·.1)).toList else []
  | _ => []

/-- What an act discards of a sink. -/
def discardsOf (sink : PadRef) (w : Wiring) : PadAct → List Item
  | .close t => if t = sink then w.waiting t else []
  | _ => []

theorem mem_offersOf {o : Offer} :
    o ∈ w.offersOf a ↔ a = .offer o.source o.sink o.value o.context ∧ o.before = w := by
  cases a with
  | offer source sink v context =>
    simp only [offersOf, List.mem_singleton, PadAct.offer.injEq]
    constructor
    · rintro rfl
      exact ⟨⟨rfl, rfl, rfl, rfl⟩, rfl⟩
    · rintro ⟨⟨rfl, rfl, rfl, rfl⟩, rfl⟩
      rfl
  | root originator metadata deadline => simp [offersOf]
  | set pad v => simp [offersOf]
  | read t => simp [offersOf]
  | complete context => simp [offersOf]
  | close t => simp [offersOf]

theorem mem_discardsOf {item : Item} :
    item ∈ discardsOf sink w a ↔ a = .close sink ∧ item ∈ w.waiting sink := by
  cases a with
  | close t =>
    simp only [discardsOf, PadAct.close.injEq, List.mem_ite_nil_right]
    exact and_congr_right fun ht => by rw [ht]
  | root originator metadata deadline => simp [discardsOf]
  | set pad v => simp [discardsOf]
  | offer source t v context => simp [discardsOf]
  | read t => simp [discardsOf]
  | complete context => simp [discardsOf]

theorem read_cases (w : Wiring) (sink : PadRef) :
    w.read sink = none ∨ ∃ item rest isOpen, w.queues.get? sink = some ⟨item :: rest, isOpen⟩ ∧
      w.read sink =
        some (item, { w with queues := w.queues.modify sink fun _ => ⟨rest, isOpen⟩ }) := by
  rw [read]
  split
  · rename_i item rest isOpen hq
    exact .inr ⟨item, rest, isOpen, hq, rfl⟩
  · exact .inl rfl

theorem close_queues (w : Wiring) (sink : PadRef) :
    (w.close sink).queues = w.queues.modify sink fun _ => ⟨[], false⟩ := by
  rw [close]
  cases h : w.queues.get? sink with
  | none =>
    exact (PadTable.modify_of_get?_eq_none h _).symm
  | some q =>
    dsimp only
    rw [completeAll_eq]

/-- The account of a queue over one act: what waited and what is taken is what is read, what is
discarded and what waits then. -/
theorem tally_perform (w : Wiring) (a : PadAct) (t : PadRef) :
    w.waiting t ++ Offer.takenBy t (w.offersOf a) =
      readsOf t w a ++ discardsOf t w a ++ (w.perform a).waiting t := by
  cases a with
  | root originator metadata deadline =>
    simp [offersOf, readsOf, discardsOf, Offer.takenBy, perform, waiting]
  | set pad v => simp [offersOf, readsOf, discardsOf, Offer.takenBy, perform, waiting, retain]
  | complete context =>
    simp [offersOf, readsOf, discardsOf, Offer.takenBy, perform, waiting, complete]
  | offer source sink v context =>
    exact ((Offer.fate ⟨w, source, sink, v, context⟩).waiting t).symm
  | read sink =>
    rcases w.read_cases sink with h | ⟨item, rest, isOpen, hq, h⟩ <;>
      simp only [offersOf, readsOf, discardsOf, perform, h, Option.map_none, Option.map_some,
        Option.getD_none, Option.getD_some]
    · simp [Offer.takenBy]
    · have hqueues :
          ({ w with queues := w.queues.modify sink fun _ => ⟨rest, isOpen⟩ } : Wiring).queues =
          w.queues.modify sink fun _ => ⟨rest, isOpen⟩ := rfl
      rw [waiting_modify hqueues]
      split
      · rename_i ht
        subst ht
        simp [Offer.takenBy, waiting, hq]
      · simp [Offer.takenBy]
  | close sink =>
    simp only [offersOf, readsOf, discardsOf, perform, waiting_modify (close_queues w sink)]
    split
    · rename_i ht
      subst ht
      cases h : w.queues.get? sink <;> simp [Offer.takenBy]
    · simp [Offer.takenBy]

/-- Only closing a sink closes it. -/
theorem isOpen_perform (w : Wiring) (a : PadAct) (t : PadRef) :
    (w.perform a).isOpen t = true ↔ w.isOpen t = true ∧ a ≠ .close t := by
  cases a with
  | root originator metadata deadline => simp [perform, isOpen]
  | set pad v => simp [perform, isOpen, retain]
  | complete context => simp [perform, isOpen, complete]
  | offer source sink v context =>
    rw [perform]
    exact (Bool.eq_iff_iff.mp (Offer.isOpen_after ⟨w, source, sink, v, context⟩ t)).trans (by simp)
  | read sink =>
    rcases w.read_cases sink with h | ⟨item, rest, isOpen, hq, h⟩ <;>
      simp only [perform, h, Option.map_none, Option.map_some, Option.getD_none, Option.getD_some]
    · simp
    · rw [isOpen_modify (w := w) rfl]
      split
      · rename_i ht
        subst ht
        simp [Wiring.isOpen, hq]
      · simp
  | close sink =>
    rw [perform, isOpen_modify (close_queues w sink)]
    split
    · rename_i ht
      simp [ht]
    · rename_i ht
      simp [ht]

/-- A queue never holds more than it has room for (`Wiring.capacity`). -/
theorem length_waiting_perform (a : PadAct) (h : (w.waiting t).length ≤ w.capacity) :
    ((w.perform a).waiting t).length ≤ w.capacity := by
  have htally := congrArg List.length (w.tally_perform a t)
  simp only [List.length_append] at htally
  suffices hroom : (w.waiting t).length + (Offer.takenBy t (w.offersOf a)).length ≤ w.capacity by
    omega
  cases a with
  | offer source sink v context =>
    let o : Offer := ⟨w, source, sink, v, context⟩
    change (w.waiting t).length + (Offer.takenBy t [o]).length ≤ w.capacity
    by_cases htaken : o.sink = t ∧ o.taken = true
    · obtain ⟨rfl, ht⟩ := htaken
      have hlt : (w.waiting o.sink).length < w.capacity := ((Offer.fate o).taken_iff.mp ht).2
      simp only [Offer.takenBy, ht, beq_self_eq_true, Bool.and_self, List.filter_cons_of_pos,
        List.filter_nil, List.map_cons, List.map_nil, List.length_singleton]
      exact hlt
    · have hnone : Offer.takenBy t [o] = [] := by simpa [Offer.takenBy] using htaken
      simpa [hnone] using h
  | root originator metadata deadline => simpa [offersOf, Offer.takenBy] using h
  | set pad v => simpa [offersOf, Offer.takenBy] using h
  | read sink => simpa [offersOf, Offer.takenBy] using h
  | complete context => simpa [offersOf, Offer.takenBy] using h
  | close sink => simpa [offersOf, Offer.takenBy] using h

/-! ### What an act leaves alone -/

theorem capacity_perform (w : Wiring) (a : PadAct) : (w.perform a).capacity = w.capacity := by
  cases a with
  | root originator metadata deadline => rfl
  | set pad v => rfl
  | complete context => rfl
  | offer source sink v context => exact Offer.capacity_after ⟨w, source, sink, v, context⟩
  | read sink =>
    rcases w.read_cases sink with h | ⟨item, rest, isOpen, -, h⟩ <;> simp [perform, h]
  | close sink =>
    rw [perform, close]
    split
    · rfl
    · rw [completeAll_eq]

/-- Only offers report drops. -/
theorem drops_perform (w : Wiring) (a : PadAct) :
    (w.perform a).drops = w.drops ++ (w.offersOf a).flatMap Offer.report := by
  cases a with
  | root originator metadata deadline => simp [offersOf, perform]
  | set pad v => simp [offersOf, perform, retain]
  | complete context => simp [offersOf, perform, complete]
  | offer source sink v context =>
    simp only [offersOf, List.flatMap_singleton]
    exact (Offer.fate ⟨w, source, sink, v, context⟩).drops
  | read sink =>
    rcases w.read_cases sink with h | ⟨item, rest, isOpen, -, h⟩ <;> simp [perform, offersOf, h]
  | close sink =>
    simp only [perform, offersOf, List.flatMap_nil, List.append_nil]
    rw [close]
    split
    · rfl
    · rw [completeAll_eq]

/-- A pad retains its value until it is written again (`PadAct.Writes`). -/
theorem retained_perform (h : ¬ a.Writes t) :
    (w.perform a).retained.get? t = w.retained.get? t := by
  cases a with
  | root originator metadata deadline => rfl
  | set pad v => exact PadTable.get?_modify_of_ne (Ne.symm h) _ _
  | complete context => rfl
  | offer source sink v context =>
    rw [perform]
    exact (congrArg _ (Offer.retained_after ⟨w, source, sink, v, context⟩)).trans
      (PadTable.get?_modify_of_ne (Ne.symm h) _ _)
  | read sink =>
    rcases w.read_cases sink with h | ⟨item, rest, isOpen, -, h⟩ <;> simp [perform, h]
  | close sink =>
    rw [perform, close]
    split
    · rfl
    · rw [completeAll_eq]

/-- An offer leaves its value with the sink, whether or not the item is taken. -/
theorem retained_offer (w : Wiring) (source sink : PadRef) (v : Json) (context : Nat) :
    (w.perform (.offer source sink v context)).retained.get? sink =
      (w.retained.get? sink).map fun _ => some v := by
  rw [perform]
  exact (congrArg _ (Offer.retained_after ⟨w, source, sink, v, context⟩)).trans
    (PadTable.get?_modify_self _ _ _)

theorem size_completeAll (w : Wiring) (items : List Item) :
    (w.completeAll items).forest.contexts.size = w.forest.contexts.size := by
  induction items generalizing w with
  | nil => rfl
  | cons item rest ih => exact (ih _).trans (Forest.size_complete _ _)

/-- Contexts are numbered in the order in which they are made. -/
theorem range_size_perform (w : Wiring) (a : PadAct) :
    List.range (w.perform a).forest.contexts.size =
      List.range w.forest.contexts.size ++ (w.rootsOf a ++ (w.offersOf a).map Offer.fork) := by
  cases a with
  | root originator metadata deadline =>
    simp [perform, rootsOf, offersOf, Forest.addRoot, List.range_succ]
  | set pad v => simp [perform, rootsOf, offersOf, retain]
  | complete context => simp [perform, rootsOf, offersOf, complete]
  | offer source sink v context =>
    let o : Offer := ⟨w, source, sink, v, context⟩
    have hsize : o.after.forest.contexts.size = w.forest.contexts.size + 1 := by
      rw [o.forest_after]
      split <;> simp [o]
    simp only [rootsOf, offersOf, List.map_cons, List.map_nil, List.nil_append]
    rw [perform]
    exact (congrArg List.range hsize).trans (by rw [List.range_succ, Offer.fork_eq])
  | read sink =>
    rcases w.read_cases sink with h | ⟨item, rest, isOpen, -, h⟩ <;>
      simp [perform, rootsOf, offersOf, h]
  | close sink =>
    simp only [perform, rootsOf, offersOf, List.map_nil, List.append_nil]
    rw [close]
    split
    · rfl
    · rw [size_completeAll]

end Wiring

end Patchbay
