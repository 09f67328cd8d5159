import Mathlib.Data.List.Induction
import Patchbay.Node.Builtin.Join
import Patchbay.Proofs.Run.Apart
import Patchbay.Proofs.Run.Inputs
import Patchbay.Proofs.Run.Serving
import Patchbay.Proofs.Run.Traffic

/-!
# Slots belong to their inputs

A task that merges sinks keeps the latest value of each in a slot. What the readers have taken from
a sink is what was handled of it and what still waits in the common queue or is carried
(`FanIn.pending`), so the value in a slot is that of the last item of its own sink that was handled
(`Slots`). Every turn keeps this account (`Slots.handle`, `Slots.read`), and no other move touches
it, so it holds after any moves (`Run.joins_after`).

The sinks of a join come out in the order of their numbers, and therefore slot `i` is that of input
`i`, however many inputs there are (`Join.slots_numbered`).
-/

namespace Patchbay

/-! ### The common queue -/

namespace FanIn

variable {f f' : FanIn} {slot i : Nat} {item : Item} {sink : PadRef}

/-- The sinks that are read, by number. The number of a sink is that of its slot. -/
def sinks (f : FanIn) : List PadRef := f.readers.map (·.sink)

/-- The items of a sink that its reader has taken and nobody has handled yet, oldest first: those
in the common queue, and the one that the reader carries while there is no room. -/
def pending (f : FanIn) (slot : Nat) : List Item :=
  (f.queue.filter (·.1 == slot)).map (·.2) ++ ((f.readers[slot]?).bind (·.carried)).toList

theorem sinks_congr (h : ∀ i : Nat, (f'.readers[i]?).map (·.sink) = (f.readers[i]?).map (·.sink)) :
    f'.sinks = f.sinks := by
  refine List.ext_getElem? fun i => ?_
  rw [sinks, sinks, List.getElem?_map, List.getElem?_map, h]

/-- A reader keeps to its sink. -/
theorem sinks_modify {g : Reader → Reader} (h : f'.readers = f.readers.modify slot g)
    (hg : ∀ reader, (g reader).sink = reader.sink) : f'.sinks = f.sinks := by
  refine sinks_congr fun i => ?_
  rw [h, List.getElem?_modify]
  cases f.readers[i]? with
  | none => rfl
  | some reader => by_cases hi : slot = i <;> simp [hi, hg]

@[simp] theorem sinks_ofSinks (sinks : List PadRef) : (ofSinks sinks).sinks = sinks := by
  simp [FanIn.sinks, ofSinks, Function.comp_def]

@[simp] theorem pending_ofSinks (sinks : List PadRef) (i : Nat) :
    (ofSinks sinks).pending i = [] := by
  rw [pending, ofSinks, List.getElem?_map]
  cases sinks[i]? <;> rfl

/-- What is taken out is the first of what waits of its sink (`FanIn.pending`), and nothing else
changes. -/
theorem take_spec {unblocked : Option Nat} (h : f.take = some ((slot, item), f', unblocked)) :
    f'.sinks = f.sinks ∧ ∀ i, f.pending i = (if slot = i then [item] else []) ++ f'.pending i := by
  unfold take at h
  split at h
  · exact absurd h (by simp)
  · rename_i entry rest hqueue
    have hpending : ∀ i {g : FanIn}, g.queue = rest →
        (g.readers[i]?).bind (·.carried) = (f.readers[i]?).bind (·.carried) →
        f.pending i = (if entry.1 = i then [entry.2] else []) ++ g.pending i := by
      intro i g hrest hcarried
      rw [pending, pending, hqueue, hrest, hcarried, List.filter_cons]
      by_cases hi : entry.1 = i <;> simp [hi]
    split at h
    · obtain ⟨rfl, hrest⟩ := Prod.mk.inj (Option.some_inj.mp h)
      obtain ⟨rfl, -⟩ := Prod.mk.inj hrest
      exact ⟨rfl, fun i => hpending i rfl rfl⟩
    · rename_i waits _ _
      obtain ⟨rfl, hrest⟩ := Prod.mk.inj (Option.some_inj.mp h)
      obtain ⟨rfl, -⟩ := Prod.mk.inj hrest
      refine ⟨sinks_modify rfl fun _ => rfl, fun i => hpending i rfl ?_⟩
      dsimp only
      rw [List.getElem?_modify]
      cases f.readers[i]? with
      | none => rfl
      | some x => by_cases hi : waits = i <;> simp [hi]

/-- What a reader takes from its sink waits behind what it took before, if it carried nothing. -/
theorem offer_spec {hasRoom : Bool} (h : f.readers[slot]? = some ⟨sink, none, hasRoom⟩)
    (item : Item) :
    (f.offer slot item).1.sinks = f.sinks ∧
      ∀ i, (f.offer slot item).1.pending i = f.pending i ++ if slot = i then [item] else [] := by
  unfold offer
  split
  · refine ⟨rfl, fun i => ?_⟩
    rw [pending, pending, List.filter_append, List.map_append]
    by_cases hi : slot = i
    -- its reader carries nothing, so the end of the queue is the end of what is pending
    · subst hi
      simp [h]
    · simp [hi]
  · refine ⟨sinks_modify rfl fun _ => rfl, fun i => ?_⟩
    rw [pending, pending]
    dsimp only
    rw [List.getElem?_modify]
    by_cases hi : slot = i
    · subst hi
      simp [h]
    · cases f.readers[i]? <;> simp [hi]

/-- What a reader carries goes to the end of the queue, where it was behind all others of its sink
anyway. -/
theorem unload_spec (h : f.unload slot = some f') : f'.sinks = f.sinks ∧ ∀ i,
    f'.pending i = f.pending i := by
  unfold unload at h
  split at h
  · rename_i sink item hreader
    have hlt : slot < f.readers.length := (List.getElem?_eq_some_iff.mp hreader).1
    obtain rfl := Option.some_inj.mp h
    refine ⟨sinks_congr fun i => ?_, fun i => ?_⟩
    · by_cases hi : slot = i
      · subst hi
        rw [List.getElem?_set_self hlt, hreader]
        rfl
      · rw [List.getElem?_set_ne hi]
    · rw [pending, pending, List.filter_append, List.map_append]
      dsimp only
      by_cases hi : slot = i
      · subst hi
        rw [List.getElem?_set_self hlt, hreader]
        simp
      · rw [List.getElem?_set_ne hi]
        simp [hi]
  · exact absurd h (by simp)

end FanIn

/-! ### What is read -/

namespace Wiring

variable {w w' : Wiring} {sink : PadRef} {item : Item}

/-- What is read was the first of what waited there, and nothing else has left a queue. -/
theorem waiting_of_read (h : w.read sink = some (item, w')) (t : PadRef) :
    w.waiting t = (if sink = t then [item] else []) ++ w'.waiting t := by
  have htally := w.tally_perform (.read sink) t
  simpa [offersOf, Offer.takenBy, readsOf, discardsOf, perform, h] using htally

/-- What has left a queue, oldest first. For a move of a reader this is what it has read (`takes`).
-/
def departed (w w' : Wiring) (sink : PadRef) : List Item :=
  (w.waiting sink).take ((w.waiting sink).length - (w'.waiting sink).length)

theorem departed_of_waiting {items : List Item} (h : w.waiting sink = items ++ w'.waiting sink) :
    w.departed w' sink = items := by
  rw [departed, h, List.length_append, Nat.add_sub_cancel, List.take_left]

end Wiring

/-! ### Slots -/

/-- Each slot has the latest value of its own sink: what was taken from the sink (`heard`) is what
was handled and what is pending (`FanIn.pending`), and the value in the slot is that of the last
item that was handled. Slots are told apart by their sinks alone, so the order of `sinks` decides
which slot is whose. -/
structure Slots (heard : PadRef → List Item) (sinks : List PadRef) (f : FanIn)
    (latest : List (Option Json)) : Prop where
  readers : f.sinks = sinks
  length : latest.length = sinks.length
  account : ∀ i sink, sinks[i]? = some sink →
    ∃ handled, heard sink = handled ++ f.pending i ∧
    latest[i]? = some (handled.getLast?.map (·.value))

namespace Slots

variable {heard heard' : PadRef → List Item} {sinks : List PadRef} {f f' : FanIn}
  {latest : List (Option Json)} {slot : Nat} {item : Item} {sink : PadRef}

theorem start (h : ∀ sink ∈ sinks, heard sink = []) :
    Slots heard sinks (.ofSinks sinks) (sinks.map fun _ => none) := by
  refine ⟨FanIn.sinks_ofSinks sinks, List.length_map _, fun i sink hi => ⟨[], ?_, ?_⟩⟩
  · rw [h sink (List.mem_of_getElem? hi), FanIn.pending_ofSinks, List.append_nil]
  · rw [List.getElem?_map, hi]
    rfl

theorem congr (h : Slots heard sinks f latest)
    (hheard : ∀ sink ∈ sinks, heard' sink = heard sink) :
    Slots heard' sinks f latest :=
  ⟨h.readers, h.length, fun i sink hi => hheard sink (List.mem_of_getElem? hi) ▸
    h.account i sink hi⟩

/-- Handling an item puts its value into the slot of its sink, and `Slots` holds with it. -/
theorem handle (h : Slots heard sinks f latest) {unblocked : Option Nat}
    (htake : f.take = some ((slot, item), f', unblocked)) :
    Slots heard sinks f' (latest.set slot (some item.value)) := by
  obtain ⟨hsinks, hpending⟩ := FanIn.take_spec htake
  refine ⟨hsinks.trans h.readers, (List.length_set ..).trans h.length, fun i sink hi => ?_⟩
  obtain ⟨handled, hheard, hlatest⟩ := h.account i sink hi
  rw [hpending, ← List.append_assoc] at hheard
  refine ⟨_, hheard, ?_⟩
  split
  · rename_i hslot
    subst hslot
    rw [List.getElem?_set_self (List.getElem?_eq_some_iff.mp hlatest).1, List.getLast?_concat]
    rfl
  · rename_i hslot
    rw [List.getElem?_set_ne hslot, List.append_nil, hlatest]

/-- What a reader takes is pending at its own slot, and `Slots` holds with one more item heard. -/
theorem read (h : Slots heard sinks f latest) (hnd : sinks.Nodup) {hasRoom : Bool}
    (hreader : f.readers[slot]? = some ⟨sink, none, hasRoom⟩) (item : Item) :
    Slots (fun t => heard t ++ if sink = t then [item] else []) sinks
    (f.offer slot item).1 latest := by
  obtain ⟨hsinks, hpending⟩ := FanIn.offer_spec hreader item
  have hslot : sinks[slot]? = some sink := by
    rw [← h.readers, FanIn.sinks, List.getElem?_map, hreader]; rfl
  refine ⟨hsinks.trans h.readers, h.length, fun i t hi => ?_⟩
  obtain ⟨handled, hheard, hlatest⟩ := h.account i t hi
  -- no two slots have one sink, so what is heard of the sink is pending at this slot and at no
  -- other
  have hsame : slot = i ↔ sink = t := by
    constructor
    · rintro rfl
      exact Option.some_inj.mp (hslot.symm.trans hi)
    · rintro rfl
      exact (List.getElem?_inj (List.getElem?_eq_some_iff.mp hslot).1 hnd).mp (hslot.trans hi.symm)
  refine ⟨handled, ?_, hlatest⟩
  rw [hpending, hheard, List.append_assoc, if_congr hsame rfl rfl]

theorem unload (h : Slots heard sinks f latest) (hunload : f.unload slot = some f') :
    Slots heard sinks f' latest := by
  obtain ⟨hsinks, hpending⟩ := FanIn.unload_spec hunload
  refine ⟨hsinks.trans h.readers, h.length, fun i sink hi => ?_⟩
  rw [hpending]
  exact h.account i sink hi

end Slots

/-! ### Turns -/

namespace Run

open NodeProcess

variable {r : Run} {id : String} {p q : NodeProcess} {f : FanIn} {latest : List (Option Json)}

/-- What a turn of the task does: it handles an item, or waits for one, or is over. -/
theorem mergeNext_cases (hq : r.node? id = some q) (f : FanIn) (latest : List (Option Json)) :
    (r.mergeNext q f latest).1 = r ∨ (r.mergeNext q f latest).1.Over id ∨
      ∃ slot item f' unblocked, f.take = some ((slot, item), f', unblocked) ∧
        (r.mergeNext q f latest).1.node? id =
          some { q with stage := .merging f' (latest.set slot (some item.value)) } := by
  have hid := id_of_node? hq
  unfold mergeNext
  dsimp only
  split
  · split
    · exact .inl rfl
    · exact .inr (.inl (r.over_endNode hid _))
  · rename_i slot item f' unblocked htake
    split
    · rename_i hmerged
      refine .inr (.inr ⟨slot, item, f', unblocked, htake, ?_⟩)
      rw [node?_of_nodes ((rests_wakeAll _ _).trans (rests_mergedItem hmerged)).nodes]
      exact node?_setNode_self hq hid
    · exact .inr (.inl (over_endNode _ hid _))

/-- What a turn of a reader does: it puts down what it carries, or takes an item from its sink, or
waits. -/
theorem readerStep_cases (hq : r.node? id = some q) (hstage : q.stage = .merging f latest)
    (slot : Nat) :
    (r.readerStep q slot).1 = r ∨
    (∃ f', f.unload slot = some f' ∧ (r.readerStep q slot).1.wiring = r.wiring ∧
      (r.readerStep q slot).1.node? id = some { q with stage := .merging f' latest }) ∨
    ∃ sink hasRoom item wiring, f.readers[slot]? = some ⟨sink, none, hasRoom⟩ ∧
      r.wiring.read sink = some (item, wiring) ∧ (r.readerStep q slot).1.wiring = wiring ∧
      (r.readerStep q slot).1.node? id =
      some { q with stage := .merging (f.offer slot item).1 latest } := by
  have hid := id_of_node? hq
  unfold readerStep
  rw [hstage]
  dsimp only
  split
  · rename_i f' hunload
    refine .inr (.inl ⟨f', hunload, wake_wiring _ _, ?_⟩)
    rw [node?_of_nodes (rests_wake _ _).nodes]
    exact node?_setNode_self hq hid
  · split
    · rename_i sink hasRoom hreader
      split
      · exact .inl rfl
      · rename_i item wiring hread
        have hnode := node?_setNode_self (r := { r with wiring := wiring })
          (q := { q with stage := .merging (f.offer slot item).1 latest }) hq hid
        refine .inr (.inr ⟨sink, hasRoom, item, wiring, hreader, hread, ?_, ?_⟩)
        · split
          · exact wake_wiring _ _
          · rfl
        · split
          · exact (node?_of_nodes (rests_wake _ _).nodes _).trans hnode
          · exact hnode
    · exact .inl rfl

/-- A join begins with a slot for each of its inputs, in the order in which they are taken out. -/
theorem setUp_join {stem count separator output : String}
    (hroutine : p.routine = .join stem count separator output)
    {helpers : List Pid} (h : setUp p = .ok (q, helpers)) :
    q.stage = .merging (.ofSinks ((p.takeSinks stem).1.map p.pad))
    ((p.takeSinks stem).1.map fun _ => none) := by
  have hsame := id_setUp h
  unfold setUp at h
  rw [hroutine] at h
  dsimp only at h
  obtain ⟨-, -, h⟩ := bind_eq_ok_iff.mp h
  obtain ⟨p₁, -, h⟩ := bind_eq_ok_iff.mp h
  obtain ⟨p₂, -, h⟩ := bind_eq_ok_iff.mp h
  obtain ⟨rfl, -⟩ := Prod.mk.inj (Except.ok.inj h)
  have hpad : p₂.pad = p.pad := funext fun sink => congrArg (PadRef.mk · sink) hsame
  exact congrArg (fun pad => Stage.merging (.ofSinks (List.map pad _)) _) hpad

theorem node?_begin_join {stem count separator output : String} (hp : r.node? id = some p)
    (hroutine : p.routine = .join stem count separator output) {helpers : List Pid}
    (h : setUp p = .ok (q, helpers)) : (r.begin p).1.node? id = some q := by
  unfold begin
  rw [hroutine]
  dsimp only
  rw [h]
  dsimp only
  rw [node?_of_nodes (rests_wakeAll _ helpers).nodes]
  exact node?_setNode_self hp ((id_setUp h).trans (id_of_node? hp))

theorem begin_join_cases {stem count separator output : String} (hp : r.node? id = some p)
    (hroutine : p.routine = .join stem count separator output) :
    (r.begin p).1.Over id ∨
      ∃ q, (r.begin p).1.node? id = some q ∧ q.stage =
        .merging (.ofSinks ((p.takeSinks stem).1.map p.pad))
        ((p.takeSinks stem).1.map fun _ => none) := by
  cases h : setUp p with
  | error e =>
    refine .inl ?_
    unfold begin
    rw [hroutine]
    dsimp only
    rw [h]
    exact r.over_endNode (id_of_node? hp) _
  | ok begun => exact .inr ⟨begun.1, node?_begin_join hp hroutine h, setUp_join hroutine h⟩

/-! ### Moves -/

/-- What the readers of a node take from one of its sinks in a move, told by what leaves the queue
(`departed`). -/
def takes (sink : PadRef) (r : Run) : Move → List Item
  | .turn (.reader node slot) =>
    if node = sink.node then r.wiring.departed (r.turn (.reader node slot)).1.wiring sink else []
  | _ => []

/-- What the readers of its node take from a sink along some moves, in order. -/
def heard (r : Run) (ms : List Move) (sink : PadRef) : List Item := observed move (takes sink) r ms

theorem heard_concat (r : Run) (ms : List Move) (m : Move) (sink : PadRef) :
    r.heard (ms ++ [m]) sink = r.heard ms sink ++ (r.after ms).takes sink m :=
  observed_concat r ms m

theorem takes_eq_nil {sink : PadRef} {m : Move} (h : ∀ slot, m ≠ .turn (.reader sink.node slot)) :
    r.takes sink m = [] := by
  unfold takes
  split
  · rename_i node slot
    refine if_neg fun hnode => h slot ?_
    rw [hnode]
  · rfl

theorem takes_reader {sink : PadRef} {slot : Nat} {items : List Item} (hid : sink.node = id)
    (hwaiting : r.wiring.waiting sink = items ++ (r.move (.turn (.reader id slot))).wiring.waiting
      sink) :
    r.takes sink (.turn (.reader id slot)) = items := by
  rw [takes, if_pos hid.symm]
  exact Wiring.departed_of_waiting hwaiting

theorem move_node (hq : r.node? id = some q) : r.move (.turn (.node id)) = (r.nodeStep q).1 := by
  rw [move, turn, hq]

theorem move_reader (hq : r.node? id = some q) (slot : Nat) :
    r.move (.turn (.reader id slot)) = (r.readerStep q slot).1 := by
  rw [move, turn, hq]

/-- A task that is over takes no turn any more. -/
theorem Over.move_node (h : r.Over id) : r.move (.turn (.node id)) = r := by
  cases hq : r.node? id with
  | none => rw [move, turn, hq]
  | some q => rw [Run.move_node hq, nodeStep, h q hq]

theorem Over.move_reader (h : r.Over id) (slot : Nat) : r.move (.turn (.reader id slot)) = r := by
  cases hq : r.node? id with
  | none => rw [move, turn, hq]
  | some q => rw [Run.move_reader hq, readerStep, h q hq]

/-- How far the task of a join has got, with what was heard of its inputs: it has not begun, its
slots are right (`Slots`), or it is over (`Run.Over`). -/
inductive Joins (p : NodeProcess) (sinks : List PadRef) (heard : PadRef → List Item) (r : Run) :
    Prop where
  /-- It has not begun, and nothing was read. -/
  | fresh (hp : r.node? p.id = some p) (hheard : ∀ sink ∈ sinks, heard sink = [])
  /-- Its slots belong to its inputs. -/
  | merging {q : NodeProcess} {f : FanIn} {latest : List (Option Json)}
      (hq : r.node? p.id = some q)
      (hstage : q.stage = .merging f latest) (slots : Slots heard sinks f latest)
  /-- It is over, as when a handle was missing at its beginning, no input is fed any more, or it
  was cut off. -/
  | ended (h : r.Over p.id)

variable {stem count separator output : String} {sinks : List PadRef}
  {heard heard' : PadRef → List Item}

theorem Joins.congr (h : Joins p sinks heard r) {r' : Run} (hnode : r'.node? p.id = r.node? p.id)
    (hheard : ∀ sink ∈ sinks, heard' sink = heard sink) : Joins p sinks heard' r' := by
  cases h with
  | fresh hp hnone =>
    exact .fresh (hnode.trans hp) fun sink hsink => (hheard sink hsink).trans (hnone sink hsink)
  | merging hq hstage slots => exact .merging (hnode.trans hq) hstage (slots.congr hheard)
  | ended hover => exact .ended (hover.congr hnode)

/-- The task begins, or handles an item (`mergeNext_cases`). -/
theorem Joins.node (hroutine : p.routine = .join stem count separator output)
    (hfresh : p.stage = .fresh)
    (h : Joins p ((p.takeSinks stem).1.map p.pad) heard r) :
    Joins p ((p.takeSinks stem).1.map p.pad) heard (r.move (.turn (.node p.id))) := by
  cases h with
  | fresh hp hheard =>
    rw [move_node hp, nodeStep, hfresh]
    rcases begin_join_cases hp hroutine with hover | ⟨q, hq, hstage⟩
    · exact .ended hover
    · have hslots := Slots.start hheard
      rw [List.map_map] at hslots
      exact .merging hq hstage hslots
  | @merging q f latest hq hstage slots =>
    rw [move_node hq, nodeStep, hstage]
    rcases mergeNext_cases hq f latest with hsame | hover | ⟨slot, item, f', unblocked, htake,
      hnode⟩
    · dsimp only
      rw [hsame]
      exact .merging hq hstage slots
    · exact .ended hover
    · exact .merging hnode rfl (slots.handle htake)
  | ended hover =>
    rw [hover.move_node]
    exact .ended hover

/-- A reader of the task takes an item, or puts down the one that it carries (`readerStep_cases`).
-/
theorem Joins.reader (hfresh : p.stage = .fresh) (hnd : sinks.Nodup)
    (hpads : ∀ sink ∈ sinks, sink.node = p.id)
    (h : Joins p sinks heard r) (slot : Nat) :
    Joins p sinks (fun sink => heard sink ++ r.takes sink (.turn (.reader p.id slot)))
      (r.move (.turn (.reader p.id slot))) := by
  -- where no item leaves a queue, nothing is heard
  have hquiet : (r.move (.turn (.reader p.id slot))).wiring = r.wiring → ∀ sink ∈ sinks,
      heard sink ++ r.takes sink (.turn (.reader p.id slot)) = heard sink := by
    intro hwiring sink hsink
    have hnone : r.takes sink (.turn (.reader p.id slot)) = [] :=
      takes_reader (hpads sink hsink) (by rw [hwiring]; rfl)
    rw [hnone, List.append_nil]
  cases h with
  | fresh hp hheard =>
    have hsame : r.move (.turn (.reader p.id slot)) = r := by
      rw [move_reader hp, readerStep, hfresh]
    exact Joins.congr (.fresh hp hheard) (by rw [hsame]) (hquiet (by rw [hsame]))
  | @merging q f latest hq hstage slots =>
    have hmove := move_reader hq slot
    rcases readerStep_cases hq hstage slot with hsame | ⟨f', hunload, hwiring, hnode⟩ |
      ⟨sink, hasRoom, item, wiring, hreader, hread, hwiring, hnode⟩
    · rw [← hmove] at hsame
      exact Joins.congr (.merging hq hstage slots) (by rw [hsame]) (hquiet (by rw [hsame]))
    · rw [← hmove] at hwiring hnode
      exact .merging hnode rfl ((slots.unload hunload).congr (hquiet hwiring))
    · rw [← hmove] at hwiring hnode
      refine .merging hnode rfl ((slots.read hnd hreader item).congr fun t ht => ?_)
      rw [takes_reader (hpads t ht) (hwiring ▸ Wiring.waiting_of_read hread t)]
  | ended hover =>
    have hsame := hover.move_reader slot
    exact Joins.congr (.ended hover) (by rw [hsame]) (hquiet (by rw [hsame]))

/-- Whatever happens, the slots of a join belong to its inputs: its own moves keep `Joins`, and no
other move touches its task (`Run.node?_move`). -/
theorem Joins.move (hroutine : p.routine = .join stem count separator output)
    (hfresh : p.stage = .fresh)
    (hnd : (p.takeSinks stem).1.Nodup) (h : Joins p ((p.takeSinks stem).1.map p.pad) heard r)
    (m : Move) :
    Joins p ((p.takeSinks stem).1.map p.pad) (fun sink => heard sink ++ r.takes sink m)
    (r.move m) := by
  have hpads : ∀ sink ∈ (p.takeSinks stem).1.map p.pad, sink.node = p.id := by
    intro sink hsink
    obtain ⟨id, -, rfl⟩ := List.mem_map.mp hsink
    rfl
  by_cases hreader : ∃ slot, m = .turn (.reader p.id slot)
  · obtain ⟨slot, rfl⟩ := hreader
    exact h.reader hfresh (hnd.map fun a b hpad => congrArg PadRef.pad hpad) hpads slot
  -- nobody else reads from its inputs
  · have hquiet : ∀ sink ∈ (p.takeSinks stem).1.map p.pad, heard sink ++ r.takes sink m =
        heard sink := by
      intro sink hsink
      rw [takes_eq_nil fun slot hm => hreader ⟨slot, hpads sink hsink ▸ hm⟩, List.append_nil]
    rcases r.node?_move m p.id with hsame | rfl | hturn | hover
    · exact h.congr hsame hquiet
    · exact (h.node hroutine hfresh).congr rfl hquiet
    · exact absurd hturn hreader
    · exact .ended hover

theorem joins_after (hroutine : p.routine = .join stem count separator output)
    (hfresh : p.stage = .fresh)
    (hnd : (p.takeSinks stem).1.Nodup) (hp : r.node? p.id = some p) (ms : List Move) :
    Joins p ((p.takeSinks stem).1.map p.pad) (r.heard ms) (r.after ms) := by
  induction ms using List.reverseRecOn with
  | nil => exact .fresh hp fun _ _ => rfl
  | append_singleton ms m ih =>
    rw [after_concat]
    refine (ih.move hroutine hfresh hnd m).congr rfl fun sink _ => ?_
    rw [heard_concat]

end Run

/-! ### Joins -/

namespace Join

open Run

variable {p q : NodeProcess} {n : Nat} {others rest : List String} {sink : String}

theorem exists_drainSink (h : sink ∈ p.sinks) :
    ∃ q, p.drainSink sink = .ok q ∧ q.sinks = p.sinks.filter (· != sink) := by
  refine ⟨{ p with sinks := p.sinks.filter (· != sink), drained := p.drained ++ [sink] }, ?_, rfl⟩
  rw [NodeProcess.drainSink, NodeProcess.takeSink, if_pos (by simpa using h)]
  rfl

/-- A join that has all its pads begins, with a slot for each numbered sink (`setUp_join`). -/
theorem exists_setUp (hroutine : p.routine = nodeType.routine) (houtput : output ∈ p.sources)
    (hcount : count ∈ (p.takeSinks stem).2.sinks)
    (hseparator : separator ∈ (p.takeSinks stem).2.sinks) :
    ∃ q helpers, setUp p = .ok (q, helpers) := by
  have hsource : p.source output = .ok (p.pad output) := by
    rw [NodeProcess.source, if_pos (by simpa using houtput)]
  obtain ⟨counted, hcounted, hleft⟩ := exists_drainSink hcount
  have hstays : separator ∈ counted.sinks := hleft ▸ List.mem_filter.mpr ⟨hseparator, by decide⟩
  obtain ⟨drained, hdrained, -⟩ := exists_drainSink hstays
  have hset : setUp p = .ok (setUp.merging drained (p.takeSinks stem).1 [count, separator]) := by
    unfold setUp
    rw [hroutine]
    dsimp only [nodeType]
    rw [hsource]
    dsimp only [bind, Except.bind]
    rw [hcounted]
    dsimp only
    rw [hdrained]
  exact ⟨_, _, hset⟩

/-- However many inputs a join has, and in whatever order its sinks are kept: the inputs are taken
out by number, the other sinks stay, and whatever happens to a run in which the join has not begun,
each slot belongs to the input of its number (`Slots`). The order is that of numbers, not of texts,
so that input 10 comes after input 2. -/
theorem slots_numbered (hsinks : p.sinks.Perm ((List.range n).map inputPad ++ others))
    (hothers : ∀ id ∈ others, ¬ stem.toList <+: id.toList) :
    (∃ rest, rest.Perm others ∧
      p.takeSinks stem = ((List.range n).map inputPad, { p with sinks := rest })) ∧
    ∀ r : Run, r.node? p.id = some p → p.routine = nodeType.routine → p.stage = .fresh →
      (output ∈ p.sources → count ∈ others → separator ∈ others →
        ∃ q, (r.move (.turn (.node p.id))).node? p.id = some q ∧ q.stage =
          .merging (.ofSinks ((List.range n).map fun i => p.pad (inputPad i)))
          (List.replicate n none)) ∧
      ∀ ms q f latest, (r.after ms).node? p.id = some q → q.stage = .merging f latest →
        Slots (r.heard ms) ((List.range n).map fun i => p.pad (inputPad i)) f latest := by
  obtain ⟨rest, hrest, htaken⟩ := NodeProcess.takeSinks_numbered hsinks hothers
  have hinputs : (p.takeSinks stem).1 = (List.range n).map inputPad := congrArg Prod.fst htaken
  have hpads : (p.takeSinks stem).1.map p.pad = (List.range n).map fun i => p.pad
      (inputPad i) := by
    rw [hinputs, List.map_map]
    rfl
  refine ⟨⟨rest, hrest, htaken⟩, fun r hp hroutine hfresh => ⟨fun houtput hcount hseparator => ?_,
    ?_⟩⟩
  · have hleft : (p.takeSinks stem).2.sinks = rest := congrArg (·.2.sinks) htaken
    obtain ⟨q, helpers, hset⟩ := exists_setUp hroutine houtput (hleft ▸ hrest.mem_iff.mpr hcount)
      (hleft ▸ hrest.mem_iff.mpr hseparator)
    refine ⟨q, ?_, ?_⟩
    · rw [move_node hp, nodeStep, hfresh]
      exact node?_begin_join hp hroutine hset
    · rw [setUp_join hroutine hset, hpads, hinputs, List.map_const', List.length_map,
        List.length_range]
  · intro ms q f latest hq hstage
    have hnd : (p.takeSinks stem).1.Nodup :=
      hinputs ▸ List.nodup_range.map (append_repr_injective stem)
    have hjoins := joins_after hroutine hfresh hnd hp ms
    rw [hpads] at hjoins
    cases hjoins with
    | fresh hp' hheard =>
      obtain rfl := Option.some_inj.mp (hq.symm.trans hp')
      exact absurd (hfresh.symm.trans hstage) (by simp)
    | merging hq' hstage' slots =>
      obtain rfl := Option.some_inj.mp (hq.symm.trans hq')
      obtain ⟨rfl, rfl⟩ := Stage.merging.inj (hstage.symm.trans hstage')
      exact slots
    | ended hover => exact absurd ((hover q hq).symm.trans hstage) (by simp)

/-- A join of twelve inputs whose sinks are kept the other way round. -/
def backwards : NodeProcess where
  id := "join"
  routine := nodeType.routine
  sources := [output]
  sinks := ((List.range 12).map inputPad).reverse ++ [separator, count]
  allSinks := ((List.range 12).map inputPad).reverse ++ [separator, count]

/-- A run of that join alone. -/
def backwardsRun : Run where
  wiring := { capacity := 4 }
  nodes := [backwards]
  lifecycle := .start "run" .isolate ["join"]

theorem slots_numbered_backwards :
    (backwards.takeSinks stem).1 = (List.range 12).map inputPad ∧
      ∃ q f latest, (backwardsRun.after [.turn (.node "join")]).node? "join" = some q ∧
        q.stage = .merging f latest ∧ Slots (backwardsRun.heard [.turn (.node "join")])
          ((List.range 12).map fun i => backwards.pad (inputPad i)) f latest := by
  have hsinks : backwards.sinks.Perm ((List.range 12).map inputPad ++ [separator, count]) :=
    (List.reverse_perm _).append_right _
  have hothers : ∀ id ∈ [separator, count], ¬ stem.toList <+: id.toList := by decide
  obtain ⟨⟨rest, -, htaken⟩, hrun⟩ := slots_numbered hsinks hothers
  obtain ⟨hbegins, hslots⟩ := hrun backwardsRun rfl rfl rfl
  obtain ⟨q, hq, hstage⟩ := hbegins (List.mem_singleton.mpr rfl) (by decide) (by decide)
  exact ⟨congrArg Prod.fst htaken, q, _, _, hq, hstage,
    hslots [.turn (.node "join")] q _ _ hq hstage⟩

end Join

end Patchbay
