import Patchbay.Proofs.Context.Settled
import Patchbay.Proofs.Outcome
import Patchbay.Proofs.Run.Evolution
import Patchbay.Run.Control

/-!
# What a run keeps

A run reads the constraints of its pads whenever a value comes from outside, and never writes them;
no outcome of a context changes; and what happens to the lifecycle is what can happen to any
lifecycle (`Run.Keeps`). The tasks of the nodes and the supervisor do not touch the data plane, the
transport or the clock either (`Run.Spares`), so these belong to the server and its requests alone.

What travels between the pads changes no task (`Run.Rests`), and the task of a node, with the
readers that work for it, changes no task but its own (`Run.Tends`).

Each function of a run keeps all of that, and so the same is true of any two moments of a run
(`Run.Leads.keeps`).
-/

namespace Patchbay

/-! ### Wiring -/

namespace Wiring

/-- What pads keep, whatever travels between them: the constraints, and the outcomes of contexts
(`Forest.Remembers`). -/
structure Keeps (w w' : Wiring) : Prop where
  constraints : w'.constraints = w.constraints
  outcome : w.forest.Remembers w'.forest

theorem Keeps.refl (w : Wiring) : w.Keeps w := ⟨rfl, fun _ _ h => h⟩

theorem Keeps.trans {w w' w'' : Wiring} (h : w.Keeps w') (h' : w'.Keeps w'') : w.Keeps w'' :=
  ⟨h'.constraints.trans h.constraints, h.outcome.trans h'.outcome⟩

theorem keeps_foldl {α : Type} {f : Wiring → α → Wiring} (hf : ∀ (w : Wiring) a, w.Keeps (f w a))
    (l : List α)
    (w : Wiring) : w.Keeps (l.foldl f w) := by
  induction l generalizing w with
  | nil => exact .refl w
  | cons a l ih => exact (hf w a).trans (ih _)

theorem keeps_forest (w : Wiring) {f : Forest} (h : w.forest.Remembers f) :
    w.Keeps { w with forest := f } :=
  ⟨rfl, h⟩

theorem keeps_complete (w : Wiring) (context : Nat) : w.Keeps (w.complete context) :=
  w.keeps_forest (Forest.remembers_settle _ _)

theorem keeps_completeAll (w : Wiring) (items : List Item) : w.Keeps (w.completeAll items) :=
  keeps_foldl (fun w (item : Item) => w.keeps_complete item.context) items w

theorem keeps_retain (w : Wiring) (pad : PadRef) (v : Json) : w.Keeps (w.retain pad v) :=
  ⟨rfl, .refl _⟩

theorem keeps_offer (w : Wiring) (source sink : PadRef) (v : Json) (context : Nat) :
    w.Keeps (w.offer source sink v context).1 := by
  have hforked : w.Keeps { w.retain sink v with forest := (w.forest.fork context).1 } :=
    (w.keeps_retain sink v).trans (keeps_forest _ (Forest.remembers_fork _ _ _))
  unfold offer
  dsimp only
  split
  · exact hforked.trans (keeps_complete _ _)
  · split
    · exact hforked.trans (keeps_complete _ _)
    · split
      · exact ⟨hforked.constraints, hforked.outcome⟩
      · have h := hforked.trans (keeps_complete _ (w.forest.fork context).2)
        exact ⟨h.constraints, h.outcome⟩

theorem keeps_offerAll (w : Wiring) (source : PadRef) (v : Json) (context : Nat)
    (sinks : List PadRef) :
    w.Keeps (w.offerAll source v context sinks).1 := by
  induction sinks generalizing w with
  | nil => exact .refl w
  | cons sink rest ih =>
    rw [offerAll]
    exact (w.keeps_offer source sink v context).trans (ih _)

theorem keeps_push (w : Wiring) (source : PadRef) (v : Json) (context : Nat) :
    w.Keeps (w.push source v context).1 :=
  (w.keeps_retain source v).trans (keeps_offerAll _ _ _ _ _)

theorem keeps_read {w w' : Wiring} {sink : PadRef} {item : Item}
    (h : w.read sink = some (item, w')) :
    w.Keeps w' := by
  unfold read at h
  split at h
  · obtain ⟨-, rfl⟩ := Prod.mk.inj (Option.some_inj.mp h)
    exact ⟨rfl, .refl _⟩
  · exact absurd h (by simp)

theorem keeps_close (w : Wiring) (sink : PadRef) : w.Keeps (w.close sink) := by
  unfold close
  split
  · exact .refl w
  · have h := keeps_completeAll { w with queues := w.queues.modify sink fun _ => ⟨[], false⟩ }
    exact ⟨(h _).constraints, (h _).outcome⟩

theorem keeps_drain (w : Wiring) (sink : PadRef) : w.Keeps (w.drain sink) := by
  unfold drain
  split
  · exact .refl w
  · have h :=
      keeps_completeAll { w with queues := w.queues.modify sink fun q => { q with waiting := [] } }
    exact ⟨(h _).constraints, (h _).outcome⟩

end Wiring

theorem DataPlane.keeps_begin (d : DataPlane) (w : Wiring) (now : Nat) (q : PendingRequest) :
    w.Keeps (d.begin w now q).1 := by
  rw [DataPlane.begin]
  generalize secondsAfter? d.uptime now d.timeout = deadline
  cases q.request with
  | getValue id pad => cases h : w.getValue pad <;> simp only [h] <;> exact .refl w
  | pushValue id pad value =>
    cases deadline with
    | none => exact .refl w
    | some deadline =>
      cases h : w.accept pad value with
      | error e =>
        simp only [h]
        exact .refl w
      | ok source =>
        simp only [h]
        exact ((w.keeps_forest (Forest.remembers_push _ _)).trans
          (Wiring.keeps_push _ _ _ _)).trans (Wiring.keeps_complete _ _)

/-! ### Names of tasks -/

namespace NodeProcess

variable {p q : NodeProcess} {sink : String}

theorem id_takeSink (h : p.takeSink sink = .ok q) : q.id = p.id := by
  unfold takeSink at h
  split at h
  · rw [← Except.ok.inj h]
  · exact absurd h (by simp)

theorem id_drainSink (h : p.drainSink sink = .ok q) : q.id = p.id := by
  obtain ⟨taken, htaken, rfl⟩ := map_eq_ok_iff.mp h
  have hid : taken.id = p.id := id_takeSink htaken
  exact hid

theorem id_takeEach {sinks : List String} (h : p.takeEach sinks = .ok q) : q.id = p.id := by
  induction sinks generalizing p with
  | nil => rw [Except.ok.inj h]
  | cons sink rest ih =>
    unfold takeEach at h
    split at h
    · exact absurd h (by simp)
    · rename_i htaken
      exact (ih h).trans (id_takeSink htaken)

end NodeProcess

/-! ### Runs -/

namespace Run

open NodeProcess

variable {r r' : Run} {p q : NodeProcess} {id : String}

theorem node?_of_nodes (h : r'.nodes = r.nodes) (id : String) : r'.node? id = r.node? id := by
  rw [node?, node?, h]

theorem id_of_node? (h : r.node? id = some p) : p.id = id := by
  simpa using List.find?_some h

theorem node?_setNode (r : Run) (p : NodeProcess) (id : String) :
    (r.setNode p).node? id = if id = p.id then (r.node? id).map fun _ => p else r.node? id := by
  have hsame : ((fun q : NodeProcess => q.id == id) ∘ fun q => if q.id == p.id then p else q) =
      fun q => q.id == id := by
    funext q
    by_cases hq : q.id = p.id <;> simp [hq]
  rw [node?, setNode, List.find?_map, hsame]
  split
  · rename_i hid
    refine Option.map_congr fun q hq => ?_
    simp [id_of_node? hq, hid]
  · rename_i hid
    refine (Option.map_congr fun q hq => ?_).trans Option.map_id_apply
    simp [id_of_node? hq, hid]

/-- What a run keeps, whatever happens: what its pads keep, and a lifecycle that has evolved
(`Lifecycle.Evolves`). -/
structure Keeps (r r' : Run) : Prop where
  wiring : r.wiring.Keeps r'.wiring
  lifecycle : r.lifecycle.Evolves r'.lifecycle

/-- What the tasks of the nodes do not touch: the data plane, the transport and the clock, besides
what a run keeps anyway (`Run.Keeps`). -/
structure Spares (r r' : Run) : Prop extends Keeps r r' where
  transport : r'.transport = r.transport
  plane : r'.plane = r.plane
  now : r'.now = r.now

/-- No task has changed, as when items travel or the supervisor looks without ending anybody. -/
structure Rests (r r' : Run) : Prop extends Spares r r' where
  nodes : r'.nodes = r.nodes

/-- No task but that of one node has changed, which is what the turn of a task does. -/
structure Tends (id : String) (r r' : Run) : Prop extends Spares r r' where
  others : ∀ other, other ≠ id → r'.node? other = r.node? other

theorem Keeps.refl (r : Run) : r.Keeps r := ⟨.refl _, .refl⟩

theorem Keeps.trans {r'' : Run} (h : r.Keeps r') (h' : r'.Keeps r'') : r.Keeps r'' :=
  ⟨h.wiring.trans h'.wiring, h.lifecycle.trans h'.lifecycle⟩

theorem Spares.refl (r : Run) : r.Spares r := ⟨.refl r, rfl, rfl, rfl⟩

theorem Spares.trans {r'' : Run} (h : r.Spares r') (h' : r'.Spares r'') : r.Spares r'' :=
  ⟨h.toKeeps.trans h'.toKeeps, h'.transport.trans h.transport, h'.plane.trans h.plane,
    h'.now.trans h.now⟩

theorem Rests.refl (r : Run) : r.Rests r := ⟨.refl r, rfl⟩

theorem Rests.trans {r'' : Run} (h : r.Rests r') (h' : r'.Rests r'') : r.Rests r'' :=
  ⟨h.toSpares.trans h'.toSpares, h'.nodes.trans h.nodes⟩

theorem Rests.tends (h : r.Rests r') : r.Tends id r' :=
  ⟨h.toSpares, fun other _ => node?_of_nodes h.nodes other⟩

theorem Tends.refl (r : Run) : r.Tends id r := (Rests.refl r).tends

theorem Tends.trans {r'' : Run} (h : r.Tends id r') (h' : r'.Tends id r'') : r.Tends id r'' :=
  ⟨h.toSpares.trans h'.toSpares, fun other hne => (h'.others other hne).trans (h.others other hne)⟩

theorem rests_wiring (r : Run) {w : Wiring} (h : r.wiring.Keeps w) :
    r.Rests { r with wiring := w } :=
  ⟨⟨⟨h, .refl⟩, rfl, rfl, rfl⟩, rfl⟩

theorem rests_wake (r : Run) (p : Pid) : r.Rests (r.wake p) := by
  unfold wake
  split
  · exact .refl r
  · exact ⟨⟨⟨.refl _, .refl⟩, rfl, rfl, rfl⟩, rfl⟩

theorem rests_wakeAll (r : Run) (ps : List Pid) : r.Rests (r.wakeAll ps) := by
  induction ps generalizing r with
  | nil => exact .refl r
  | cons p ps ih => exact (r.rests_wake p).trans (ih _)

theorem rests_sleep (r : Run) (p : Pid) (time : Nat) : r.Rests (r.sleep p time) :=
  ⟨⟨⟨.refl _, .refl⟩, rfl, rfl, rfl⟩, rfl⟩

theorem rests_wakeListeners (r : Run) (sinks : List PadRef) : r.Rests (r.wakeListeners sinks) :=
  r.rests_wakeAll _

theorem rests_send (r : Run) (source : PadRef) (v : Json) (context : Nat) :
    r.Rests (r.send source v context) :=
  (r.rests_wiring (r.wiring.keeps_push source v context)).trans (rests_wakeListeners _ _)

theorem rests_complete (r : Run) (context : Nat) : r.Rests (r.complete context) :=
  r.rests_wiring (r.wiring.keeps_complete context)

theorem rests_mapForest (r : Run) {f : Forest → Forest}
    (hf : r.wiring.forest.Remembers (f r.wiring.forest)) :
    r.Rests (r.mapForest f) :=
  r.rests_wiring (r.wiring.keeps_forest hf)

theorem rests_addContext (r : Run) (originator : Option String) (timeout : Option Nat) :
    r.Rests (r.addContext originator timeout).1 := by
  have hroot : r.Rests { r with wiring := { r.wiring with
      forest := (r.wiring.forest.addRoot originator none
        (timeout.map fun ms => (r.now + ms) * millisecond)).1 } } :=
    r.rests_wiring (r.wiring.keeps_forest (Forest.remembers_push _ _))
  unfold addContext
  dsimp only
  split
  · exact hroot.trans (rests_wake _ _)
  · exact hroot

theorem rests_setRetained {pad : PadRef} {v : Json} (h : r.setRetained pad v = .ok r') :
    r.Rests r' := by
  unfold setRetained at h
  split at h
  · rw [← Except.ok.inj h]
    exact r.rests_wiring (r.wiring.keeps_retain pad v)
  · exact absurd h (by simp)

theorem tends_setNode (r : Run) (p : NodeProcess) : r.Tends p.id (r.setNode p) := by
  refine ⟨⟨⟨.refl _, .refl⟩, rfl, rfl, rfl⟩, fun other hne => ?_⟩
  rw [node?_setNode, if_neg hne]

theorem tends_setStage (r : Run) (p : NodeProcess) (stage : Stage) :
    r.Tends p.id (r.setStage p stage) :=
  r.tends_setNode { p with stage := stage }

theorem tends_release (r : Run) (id : String) : r.Tends id (r.release id) := by
  unfold release
  split
  · exact .refl r
  · rename_i p hp
    have hid : p.id = id := id_of_node? hp
    subst hid
    exact (r.rests_wiring
      (Wiring.keeps_foldl (fun w sink => w.keeps_close (p.pad sink)) p.allSinks
        r.wiring)).tends.trans
      (tends_setStage _ { p with drained := [] } .over)

theorem tends_endNode (r : Run) (p : NodeProcess) (ending : Ending) :
    r.Tends p.id (r.endNode p ending) := by
  have hended : (r.release p.id).Rests
      { r.release p.id with lifecycle := (r.release p.id).lifecycle.taskEnded p.id ending } :=
    ⟨⟨⟨.refl _, .single (.ended _ p.id ending)⟩, rfl, rfl, rfl⟩, rfl⟩
  exact (r.tends_release p.id).trans (hended.trans (rests_wake _ _)).tends

theorem tends_failNode (r : Run) (p : NodeProcess) (e : Error) : r.Tends p.id (r.failNode p e) :=
  r.tends_endNode p _

/-! ### Tasks -/

theorem rests_deliver {relay : Relay} {item : Item} (h : r.deliver p relay item = .ok r') :
    r.Rests r' := by
  unfold deliver at h
  obtain ⟨a, ha, rfl⟩ := map_eq_ok_iff.mp h
  have hpassed : r.Rests a := by
    split at ha
    · rw [Except.ok.inj ha]
      exact .refl a
    · split at ha
      · exact rests_setRetained ha
      · rw [← Except.ok.inj ha]
        exact r.rests_send _ _ _
  split
  · exact hpassed
  · exact hpassed.trans (a.rests_complete _)

theorem rests_snoozeItem (r : Run) (relay : Relay) (item : Item) :
    r.Rests (r.snoozeItem relay item) := by
  unfold snoozeItem
  split
  · exact .refl r
  · exact r.rests_mapForest (Forest.remembers_snooze _ _ _ _)

theorem tends_relayItem {relay : Relay} {item : Item} {next : Run × Bool}
    (h : r.relayItem p relay item = .ok next) : r.Tends p.id next.1 := by
  have hsnoozed := r.rests_snoozeItem relay item
  unfold relayItem at h
  dsimp only at h
  split at h
  · exact absurd h (by simp)
  · split at h
    · rw [← Except.ok.inj h]
      exact (hsnoozed.tends.trans (tends_setStage _ _ _)).trans (rests_sleep _ _ _).tends
    · obtain ⟨a, ha, rfl⟩ := map_eq_ok_iff.mp h
      exact (hsnoozed.trans (rests_deliver ha)).tends

theorem rests_gateItem {control output : String} {item : Item} {next : Run × Bool}
    (h : r.gateItem p control output item = .ok next) : r.Rests next.1 := by
  unfold gateItem at h
  split at h
  · exact absurd h (by simp)
  · rw [← Except.ok.inj h]
    dsimp only
    split
    · exact (r.rests_send _ _ _).trans (rests_complete _ _)
    · exact r.rests_complete _

theorem rests_retainedItem {input output : String} {replacement : Option Json} {item : Item}
    {next : Run × Bool}
    (h : r.retainedItem p input output replacement item = .ok next) : r.Rests next.1 := by
  unfold retainedItem at h
  dsimp only at h
  split at h
  · exact absurd h (by simp)
  · rename_i a ha
    have hreplaced : r.Rests a := by
      split at ha
      · rw [Except.ok.inj ha]
        exact .refl a
      · exact rests_setRetained ha
    split at h
    · exact absurd h (by simp)
    · rw [← Except.ok.inj h]
      exact (hreplaced.trans (a.rests_send _ _ _)).trans (rests_complete _ _)

theorem tends_handleItem {item : Item} {next : Run × Bool} (h : r.handleItem p item = .ok next) :
    r.Tends p.id next.1 := by
  unfold handleItem at h
  split at h
  · exact tends_relayItem h
  · exact (rests_gateItem h).tends
  · exact (rests_retainedItem h).tends
  · rw [← Except.ok.inj h]
    exact .refl r

theorem tends_endOfStream (r : Run) (p : NodeProcess) : r.Tends p.id (r.endOfStream p) := by
  unfold endOfStream
  split
  · split
    · exact r.tends_setStage p _
    · exact r.tends_endNode p _
  · exact r.tends_endNode p _

theorem tends_readNext (r : Run) (p : NodeProcess) (input : String) :
    r.Tends p.id (r.readNext p input).1 := by
  unfold readNext
  dsimp only
  split
  · split
    · exact .refl r
    · exact r.tends_endOfStream p
  · rename_i item wiring hread
    have htaken := r.rests_wiring (Wiring.keeps_read hread)
    split
    · rename_i next hnext
      exact htaken.tends.trans (tends_handleItem hnext)
    · refine Tends.trans ?_ (tends_failNode _ p _)
      split
      · exact (htaken.trans (rests_complete _ _)).tends
      · exact htaken.tends

theorem tends_endDelay (r : Run) (p : NodeProcess) (item : Item) :
    r.Tends p.id (r.endDelay p item).1 := by
  unfold endDelay
  split
  · split
    · rename_i hdeliver
      exact (rests_deliver hdeliver).tends.trans (tends_setStage _ p _)
    · exact r.tends_failNode p _
  · exact r.tends_setStage p _

theorem rests_mergedItem {latest : List (Option Json)} {item : Item}
    (h : r.mergedItem p latest item = .ok r') :
    r.Rests r' := by
  unfold mergedItem at h
  split at h
  · unfold joinItem at h
    split at h
    · exact absurd h (by simp)
    · rw [← Except.ok.inj h]
      exact (r.rests_send _ _ _).trans (rests_complete _ _)
  · rw [← Except.ok.inj h]
    unfold compareItem
    dsimp only
    split
    · exact (r.rests_send _ _ _).trans (rests_complete _ _)
    · exact r.rests_complete _
  · rw [Except.ok.inj h]
    exact .refl r'

theorem tends_mergeNext (r : Run) (p : NodeProcess) (f : FanIn) (latest : List (Option Json)) :
    r.Tends p.id (r.mergeNext p f latest).1 := by
  unfold mergeNext
  dsimp only
  split
  · split
    · exact .refl r
    · exact r.tends_endNode p _
  · have htaken := fun f latest ps => (r.tends_setStage p (.merging f latest)).trans
      (rests_wakeAll _ ps).tends
    split
    · rename_i hmerged
      exact (htaken _ _ _).trans (rests_mergedItem hmerged).tends
    · exact (htaken _ _ _).trans (tends_failNode _ p _)

theorem tends_readerStep (r : Run) (p : NodeProcess) (slot : Nat) :
    r.Tends p.id (r.readerStep p slot).1 := by
  unfold readerStep
  dsimp only
  split
  · split
    · exact (r.tends_setStage p _).trans (rests_wake _ _).tends
    · split
      · split
        · exact .refl r
        · rename_i hread
          have htaken := fun stage =>
            (r.rests_wiring (Wiring.keeps_read hread)).tends.trans (tends_setStage _ p stage)
          split
          · exact (htaken _).trans (rests_wake _ _).tends
          · exact htaken _
      · exact .refl r
  · exact .refl r

theorem tends_awaitTick (r : Run) (p : NodeProcess) (interval : String) (count : Nat) :
    r.Tends p.id (r.awaitTick p interval count) :=
  (r.tends_setStage p _).trans (rests_sleep _ _ _).tends

theorem tends_tick (r : Run) (p : NodeProcess) (count : Nat) : r.Tends p.id (r.tick p count) := by
  unfold tick
  split
  · exact (((r.rests_addContext _ _).trans (rests_send _ _ _ _)).trans
      (rests_complete _ _)).tends.trans (tends_awaitTick _ p _ _)
  · exact .refl r

theorem rests_reportSinks (r : Run) (p : NodeProcess) (ids : List String) :
    r.Rests (r.reportSinks p ids).2.1 := by
  induction ids generalizing r p with
  | nil => exact .refl r
  | cons id rest ih =>
    unfold reportSinks
    split
    · exact ih r p
    · exact (r.rests_wiring (r.wiring.keeps_close _)).trans (ih _ _)

theorem rests_report (r : Run) (p : NodeProcess) (what : Report) :
    r.Rests (r.report p what).2.1 := by
  unfold report
  dsimp only
  refine Rests.trans ?_ (rests_reportSinks _ _ _)
  split
  · exact .refl r
  · exact r.rests_wiring (Wiring.keeps_foldl (fun w sink => w.keeps_close (p.pad sink)) _ r.wiring)

theorem id_reportSinks (r : Run) (p : NodeProcess) (sinks : List String) :
    (r.reportSinks p sinks).2.2.id = p.id := by
  induction sinks generalizing r p with
  | nil => rfl
  | cons sink rest ih =>
    unfold reportSinks
    split
    · exact ih r p
    · rename_i htaken
      exact (ih _ _).trans (id_takeSink htaken)

theorem id_report (r : Run) (p : NodeProcess) (what : Report) :
    (r.report p what).2.2.id = p.id := by
  unfold report
  dsimp only
  rw [id_reportSinks]
  split <;> rfl

theorem id_setUp {helpers : List Pid} (h : setUp p = .ok (q, helpers)) : q.id = p.id := by
  unfold setUp at h
  split at h
  · obtain ⟨taken, htaken, h⟩ := bind_eq_ok_iff.mp h
    refine Eq.trans ?_ (id_takeSink htaken)
    dsimp only at h
    split at h
    · obtain ⟨-, -, h⟩ := bind_eq_ok_iff.mp h
      rw [← (Prod.mk.inj (Except.ok.inj h)).1]
    · rw [← (Prod.mk.inj (Except.ok.inj h)).1]
  · obtain ⟨taken, htaken, h⟩ := bind_eq_ok_iff.mp h
    obtain ⟨-, -, h⟩ := bind_eq_ok_iff.mp h
    obtain ⟨drained, hdrained, h⟩ := bind_eq_ok_iff.mp h
    rw [← (Prod.mk.inj (Except.ok.inj h)).1]
    exact (id_drainSink hdrained).trans (id_takeSink htaken)
  · obtain ⟨taken, htaken, h⟩ := bind_eq_ok_iff.mp h
    obtain ⟨-, -, h⟩ := bind_eq_ok_iff.mp h
    have hid : taken.id = p.id := id_takeSink htaken
    rw [← (Prod.mk.inj (Except.ok.inj h)).1]
    exact hid
  · obtain ⟨-, -, h⟩ := bind_eq_ok_iff.mp h
    obtain ⟨counted, hcounted, h⟩ := bind_eq_ok_iff.mp h
    obtain ⟨drained, hdrained, h⟩ := bind_eq_ok_iff.mp h
    have hid := (id_drainSink hdrained).trans (id_drainSink hcounted)
    rw [← (Prod.mk.inj (Except.ok.inj h)).1]
    exact hid
  · obtain ⟨-, -, h⟩ := bind_eq_ok_iff.mp h
    obtain ⟨taken, htaken, h⟩ := bind_eq_ok_iff.mp h
    obtain ⟨drained, hdrained, h⟩ := bind_eq_ok_iff.mp h
    rw [← (Prod.mk.inj (Except.ok.inj h)).1]
    exact (id_drainSink hdrained).trans (id_takeEach htaken)
  · obtain ⟨-, -, h⟩ := bind_eq_ok_iff.mp h
    obtain ⟨drained, hdrained, h⟩ := bind_eq_ok_iff.mp h
    rw [← (Prod.mk.inj (Except.ok.inj h)).1]
    exact id_drainSink hdrained
  · rw [← (Prod.mk.inj (Except.ok.inj h)).1]

theorem tends_begin (r : Run) (p : NodeProcess) : r.Tends p.id (r.begin p).1 := by
  unfold begin
  split
  · exact r.tends_endNode p _
  · exact r.tends_failNode p _
  · exact r.tends_endNode p _
  · split
    · rename_i hset
      obtain ⟨v, -, hset⟩ := bind_eq_ok_iff.mp hset
      obtain ⟨pad, -, hset⟩ := bind_eq_ok_iff.mp hset
      exact (rests_setRetained hset).tends.trans (tends_setStage _ p _)
    · exact r.tends_failNode p _
  · rename_i what _
    have hreport := r.rests_report p what
    rw [← r.id_report p what]
    dsimp only
    split
    · rename_i hset
      obtain ⟨pad, -, hset⟩ := bind_eq_ok_iff.mp hset
      exact (hreport.trans (rests_setRetained hset)).tends.trans (tends_setStage _ _ _)
    · exact hreport.tends.trans (tends_failNode _ _ _)
  · split
    · exact r.tends_failNode p _
    · rename_i q helpers hset
      have hbegun := (r.tends_setNode q).trans (rests_wakeAll _ helpers).tends
      rw [← id_setUp hset]
      dsimp only
      split
      · exact hbegun.trans (tends_awaitTick _ _ _ _)
      · exact hbegun

theorem tends_nodeStep (r : Run) (p : NodeProcess) : r.Tends p.id (r.nodeStep p).1 := by
  unfold nodeStep
  split
  · exact r.tends_begin p
  · exact .refl r
  · exact .refl r
  · split
    · exact r.tends_readNext p _
    · exact .refl r
  · split
    · exact r.tends_endDelay p _
    · exact .refl r
  · exact r.tends_mergeNext p _ _
  · split
    · exact r.tends_tick p _
    · exact .refl r

/-! ### Turns -/

theorem spares_foldl_release (ids : List String) (r : Run) : r.Spares (ids.foldl release r) := by
  induction ids generalizing r with
  | nil => exact .refl r
  | cons id ids ih => exact (r.tends_release id).toSpares.trans (ih _)

theorem spares_superviseStep (r : Run) : r.Spares r.superviseStep := by
  have hlook : r.Spares { r with lifecycle := r.lifecycle.supervise.1 } :=
    ⟨⟨.refl _, .single (.supervise _)⟩, rfl, rfl, rfl⟩
  exact hlook.trans (spares_foldl_release _ _)

theorem rests_watchStep (r : Run) (context : Nat) : r.Rests (r.watchStep context) := by
  have hlook :=
    r.rests_mapForest (f := fun _ => (Watch.look ⟨context, r.now⟩ r.wiring.forest r.now).1)
    (Watch.remembers_look _ _ _)
  unfold watchStep
  dsimp only
  split
  · exact hlook.trans (rests_sleep _ _ _)
  · exact hlook

end Run

end Patchbay
