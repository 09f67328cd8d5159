import Mathlib.Data.List.Induction
import Patchbay.Proofs.Run.Traffic
import Patchbay.Run.Control

/-!
# The accounts of the queues

What was offered, read and discarded is read off the acts in the states that they are done to
(`observed`). Over every act a queue keeps its account, so what a sink took is what was read from
it, what was discarded and what still waits (`tally_after`). A sink that was dropped takes nothing
any more.

The accounts begin with idle pads, as every run does (`idle_wire`).
-/

namespace Patchbay.Wiring

variable {w : Wiring} {acts : List PadAct} {a : PadAct} {sink : PadRef}

/-! ### What was done -/

/-- The contexts without a parent that were made. -/
def roots (w : Wiring) (acts : List PadAct) : List Nat := observed perform rootsOf w acts

/-- What was offered, in order: the offers of each act, in the state in which it was done
(`offersOf`). -/
def offered (w : Wiring) (acts : List PadAct) : List Offer := observed perform offersOf w acts

/-- What a sink took, in order (`Offer.takenBy`). -/
def accepted (w : Wiring) (acts : List PadAct) (sink : PadRef) : List Item :=
  Offer.takenBy sink (w.offered acts)

/-- What was read from a sink, in order. -/
def reads (w : Wiring) (acts : List PadAct) (sink : PadRef) : List Item :=
  observed perform (readsOf sink) w acts

/-- What waited at a sink when it was dropped. -/
def discarded (w : Wiring) (acts : List PadAct) (sink : PadRef) : List Item :=
  observed perform (discardsOf sink) w acts

/-- Pads between which nothing has travelled yet: no contexts, and nothing in the queues. What is
known of the pads of a run starts from there. -/
structure Idle (w : Wiring) : Prop where
  forest : w.forest = {}
  queues : ∀ e ∈ w.queues, e.2 = {}

/-! ### Runs -/

@[simp] theorem after_concat (w : Wiring) (acts : List PadAct) (a : PadAct) :
    w.after (acts ++ [a]) = (w.after acts).perform a := by
  rw [after, List.foldl_append]
  rfl

@[simp] theorem offered_concat (w : Wiring) (acts : List PadAct) (a : PadAct) :
    w.offered (acts ++ [a]) = w.offered acts ++ (w.after acts).offersOf a :=
  observed_concat w acts a

@[simp] theorem reads_concat (w : Wiring) (acts : List PadAct) (a : PadAct) (sink : PadRef) :
    w.reads (acts ++ [a]) sink = w.reads acts sink ++ readsOf sink (w.after acts) a :=
  observed_concat w acts a

@[simp] theorem discarded_concat (w : Wiring) (acts : List PadAct) (a : PadAct) (sink : PadRef) :
    w.discarded (acts ++ [a]) sink = w.discarded acts sink ++ discardsOf sink (w.after acts) a :=
  observed_concat w acts a

@[simp] theorem accepted_concat (w : Wiring) (acts : List PadAct) (a : PadAct) (sink : PadRef) :
    w.accepted (acts ++ [a]) sink =
      w.accepted acts sink ++ Offer.takenBy sink ((w.after acts).offersOf a) := by
  rw [accepted, offered_concat, Offer.takenBy_append, accepted]

/-! ### Queues -/

theorem isOpen_after (w : Wiring) (acts : List PadAct) (sink : PadRef) :
    (w.after acts).isOpen sink = true ↔ w.isOpen sink = true ∧ .close sink ∉ acts := by
  induction acts using List.reverseRecOn with
  | nil => simp [after]
  | append_singleton acts a ih =>
    rw [after_concat, isOpen_perform, ih, List.mem_append, List.mem_singleton, not_or, and_assoc,
      ne_comm]

theorem capacity_after (w : Wiring) (acts : List PadAct) :
    (w.after acts).capacity = w.capacity := by
  induction acts using List.reverseRecOn with
  | nil => rfl
  | append_singleton acts a ih => rw [after_concat, capacity_perform, ih]

theorem drops_after (w : Wiring) (acts : List PadAct) :
    (w.after acts).drops = w.drops ++ (w.offered acts).flatMap Offer.report := by
  induction acts using List.reverseRecOn with
  | nil => simp [after, offered, observed]
  | append_singleton acts a ih =>
    rw [after_concat, drops_perform, ih, offered_concat, List.flatMap_append, List.append_assoc]

theorem Idle.waiting (h : w.Idle) (sink : PadRef) : w.waiting sink = [] := by
  rw [Wiring.waiting]
  cases hq : w.queues.get? sink with
  | none => rfl
  | some q =>
    obtain rfl : q = {} := h.queues _ (PadTable.mem_of_get? hq)
    rfl

theorem Idle.isOpen (h : w.Idle) (hsink : w.queues.has sink = true) : w.isOpen sink = true := by
  obtain ⟨q, hq⟩ := Option.isSome_iff_exists.mp hsink
  obtain rfl : q = {} := h.queues _ (PadTable.mem_of_get? hq)
  rw [Wiring.isOpen, hq, Option.any_some]

theorem length_waiting_after (h : w.Idle) (acts : List PadAct) (sink : PadRef) :
    ((w.after acts).waiting sink).length ≤ w.capacity := by
  induction acts using List.reverseRecOn with
  | nil => simp [after, h.waiting]
  | append_singleton acts a ih =>
    rw [after_concat, ← capacity_after w acts] at *
    exact length_waiting_perform a ih

/-- Nothing is discarded before a sink is dropped. -/
theorem discarded_eq_nil (h : .close sink ∉ acts) (w : Wiring) : w.discarded acts sink = [] := by
  induction acts using List.reverseRecOn with
  | nil => rfl
  | append_singleton acts a ih =>
    rw [List.mem_append, List.mem_singleton, not_or] at h
    rw [discarded_concat, ih h.1, List.nil_append]
    cases a with
    | close t => exact if_neg fun ht => h.2 (congrArg PadAct.close ht.symm)
    | root originator metadata deadline => rfl
    | set pad v => rfl
    | offer source sink v context => rfl
    | read t => rfl
    | complete context => rfl

/-- A sink that is not open takes nothing. -/
theorem takenBy_eq_nil (h : w.isOpen sink = false) (a : PadAct) :
    Offer.takenBy sink (w.offersOf a) = [] := by
  cases a with
  | offer source t v context =>
    refine List.eq_nil_iff_forall_not_mem.mpr fun item hitem => ?_
    obtain ⟨o, ho, hsink, htaken, -⟩ := Offer.mem_takenBy.mp hitem
    obtain rfl := List.mem_singleton.mp ho
    have hopen := ((Offer.fate _).taken_iff.mp htaken).1
    rw [hsink] at hopen
    exact absurd (h.symm.trans hopen) (by simp)
  | root originator metadata deadline => rfl
  | set pad v => rfl
  | read t => rfl
  | complete context => rfl
  | close t => rfl

/-- The account of a queue, and what a dropped sink still holds: nothing. What was read, what was
discarded and what waits is what the sink took, in order. -/
theorem tally_after (h : w.Idle) (acts : List PadAct) (sink : PadRef) :
    w.reads acts sink ++ w.discarded acts sink ++ (w.after acts).waiting sink =
        w.accepted acts sink ∧
      (.close sink ∈ acts → (w.after acts).waiting sink = []) := by
  induction acts using List.reverseRecOn with
  | nil => simp [reads, discarded, accepted, offered, observed, after, Offer.takenBy, h.waiting]
  | append_singleton acts a ih =>
    obtain ⟨htally, hclosed⟩ := ih
    have hstep := (w.after acts).tally_perform a sink
    simp only [reads_concat, discarded_concat, accepted_concat, after_concat, ← htally]
    by_cases hmem : .close sink ∈ acts
    · -- Nothing goes in or out any more.
      have hnotOpen : (w.after acts).isOpen sink = false := by
        rw [← Bool.not_eq_true, isOpen_after]
        exact fun h => h.2 hmem
      rw [hclosed hmem, takenBy_eq_nil hnotOpen] at hstep
      obtain ⟨hread, hwaiting⟩ := List.append_eq_nil_iff.mp hstep.symm
      obtain ⟨hread, hdiscard⟩ := List.append_eq_nil_iff.mp hread
      simp [hread, hdiscard, hwaiting, hclosed hmem, takenBy_eq_nil hnotOpen]
    · rw [discarded_eq_nil hmem, List.append_nil,
        List.append_assoc _ ((w.after acts).waiting sink), hstep]
      refine ⟨by simp only [List.nil_append, List.append_assoc], fun hmem' => ?_⟩
      rcases List.mem_append.mp hmem' with h' | h'
      · exact absurd h' hmem
      · obtain rfl := List.mem_singleton.mp h'
        rw [perform, waiting_modify (close_queues _ _), if_pos rfl]
        cases (w.after acts).queues.get? sink <;> rfl

/-! ### Retained values -/

theorem retained_foldl {acts : List PadAct} (h : ∀ a ∈ acts, ¬ a.Writes sink) (w : Wiring) :
    (w.after acts).retained.get? sink = w.retained.get? sink := by
  induction acts using List.reverseRecOn with
  | nil => rfl
  | append_singleton acts a ih =>
    rw [after_concat, retained_perform (h a (by simp)), ih fun b hb => h b (by simp [hb])]

/-- Property pads stay property pads: no act adds or removes a retained value. -/
theorem has_retained_perform (w : Wiring) (a : PadAct) (sink : PadRef) :
    ((w.perform a).retained.get? sink).isSome = (w.retained.get? sink).isSome := by
  by_cases hw : a.Writes sink
  · cases a with
    | set pad v =>
      obtain rfl : pad = sink := hw
      rw [perform, retain, PadTable.get?_modify_self, Option.isSome_map]
    | offer source t v context =>
      obtain rfl : t = sink := hw
      rw [retained_offer, Option.isSome_map]
    | root originator metadata deadline => exact hw.elim
    | read t => exact hw.elim
    | complete context => exact hw.elim
    | close t => exact hw.elim
  · rw [retained_perform hw]

theorem has_retained_after (w : Wiring) (acts : List PadAct) (sink : PadRef) :
    ((w.after acts).retained.get? sink).isSome = (w.retained.get? sink).isSome := by
  induction acts using List.reverseRecOn with
  | nil => rfl
  | append_singleton acts a ih => rw [after_concat, has_retained_perform, ih]

theorem retained_after (w : Wiring) {before later : List PadAct} {source : PadRef} {v : Json}
    {context : Nat}
    (hacts : acts = before ++ .offer source sink v context :: later)
    (hlater : ∀ a ∈ later, ¬ a.Writes sink) :
    (w.after acts).retained.get? sink = (w.retained.get? sink).map fun _ => some v := by
  have hsplit :
      w.after acts = ((w.after before).perform (.offer source sink v context)).after later := by
    rw [hacts, after, List.foldl_append]
    rfl
  have hsome := w.has_retained_after before sink
  rw [hsplit, retained_foldl hlater, retained_offer]
  cases h : (w.after before).retained.get? sink <;> cases h' : w.retained.get? sink <;> simp_all

/-! ### The pads of a run -/

theorem Idle.foldl {α : Type} {f : Wiring → α → Wiring} (hf : ∀ w a, w.Idle → (f w a).Idle)
    (l : List α)
    (h : w.Idle) : (l.foldl f w).Idle := by
  induction l generalizing w with
  | nil => exact h
  | cons a l ih => exact ih (hf w a h)

theorem Idle.addPad (h : w.Idle) (node : String) (p : PadState) : (w.addPad node p).Idle := by
  have hforest : (w.addPad node p).forest = w.forest := by
    unfold Wiring.addPad
    split <;> split <;> rfl
  have hqueues : (w.addPad node p).queues =
      w.queues ++ if p.isSource then [] else [(⟨node, p.id⟩, ({} : SinkQueue))] := by
    unfold Wiring.addPad
    split <;> split <;> simp
  refine ⟨hforest.trans h.forest, fun e he => ?_⟩
  rw [hqueues, List.mem_append] at he
  rcases he with he | he
  · exact h.queues e he
  · split at he
    · exact absurd he List.not_mem_nil
    · rw [List.mem_singleton.mp he]

theorem Idle.seed (h : w.Idle) (l : Link) : (w.seed l).Idle := by
  unfold Wiring.seed
  split
  · split
    · exact ⟨h.forest, h.queues⟩
    · exact h
  · exact h

theorem Idle.addLink (h : w.Idle) (l : Link) : (w.addLink l).Idle := by
  unfold Wiring.addLink
  split
  · exact ⟨h.forest, h.queues⟩
  · exact h

/-- A run begins with nothing under way (`Run.wire`). -/
theorem idle_wire (g : FlatGraph) (capacity : Nat) : (Run.wire g capacity).Idle := by
  have hnone : Idle { capacity := capacity } := ⟨rfl, by simp⟩
  refine Idle.foldl (fun w l h => h.addLink l) _ (Idle.foldl (fun w l h => h.seed l) _ ?_)
  exact Idle.foldl (fun w p h => h.addPad p.1 p.2) _ hnone

end Patchbay.Wiring
