import Patchbay.Proofs.Run.Moves

/-!
# Tasks apart

What becomes of the task of one node. A move changes it by a turn of the task or of one of its
readers only, and the supervisor may end it (`Run.node?_move`). So what a task has become after any
moves is the work of its own turns and those of its readers, until it is over (`Run.Over`).
-/

namespace Patchbay.Run

variable {r r' : Run} {p q : NodeProcess} {id : String}

/-! ### Tasks that are replaced -/

theorem node?_setNode_self (hp : r.node? id = some p) (hid : q.id = id) :
    (r.setNode q).node? id = some q := by
  rw [node?_setNode, if_pos hid.symm, hp, Option.map_some]

theorem node?_release (r : Run) (id : String) :
    (r.release id).node? id = (r.node? id).map fun p =>
    { p with stage := .over, drained := [] } := by
  unfold release
  split
  · rename_i hp
    rw [hp, Option.map_none]
  · rename_i p hp
    have hid : p.id = id := id_of_node? hp
    rw [hp, Option.map_some]
    exact node?_setNode_self hp hid

/-- The task of a node is over, if there is one. It does nothing any more then
(`Run.Over.move_node`). -/
def Over (r : Run) (id : String) : Prop := ∀ p, r.node? id = some p → p.stage = .over

theorem Over.congr (h : r.Over id) (hnode : r'.node? id = r.node? id) : r'.Over id :=
  fun p hp => h p (hnode ▸ hp)

theorem over_release (r : Run) (id : String) : (r.release id).Over id := by
  intro p hp
  rw [node?_release] at hp
  obtain ⟨-, -, rfl⟩ := Option.map_eq_some_iff.mp hp
  rfl

theorem over_endNode (r : Run) (h : p.id = id) (ending : Ending) : (r.endNode p ending).Over id :=
  h ▸ (r.over_release p.id).congr (node?_of_nodes (rests_wake _ _).nodes _)

theorem node?_foldl_release (ids : List String) (r : Run) (id : String) :
    (ids.foldl release r).node? id = r.node? id ∨ (ids.foldl release r).Over id := by
  induction ids generalizing r with
  | nil => exact .inl rfl
  | cons other ids ih =>
    by_cases hid : id = other
    · subst hid
      exact .inr ((ih (r.release id)).elim (r.over_release id).congr fun h => h)
    · exact (ih (r.release other)).imp_left fun h => h.trans
        ((r.tends_release other).others id hid)

/-! ### The data plane -/

theorem nodes_transmit (r : Run) (m : TransportMessage) : (r.transmit m).nodes = r.nodes := by
  unfold transmit
  dsimp only
  split
  · exact (rests_wake _ _).nodes
  · rfl

theorem nodes_serverStep (r : Run) : r.serverStep.nodes = r.nodes := by
  unfold serverStep
  split
  · split
    · exact (rests_wakeAll _ _).nodes
    · rfl
  · rfl

theorem nodes_answer (r : Run) (d : DataPlane) (number : Nat) (sender : String)
    (a : DataResponse) :
    (r.answer d number sender a).nodes = r.nodes :=
  nodes_transmit _ _

theorem nodes_requestStep (r : Run) (number : Nat) : (r.requestStep number).1.nodes = r.nodes := by
  unfold requestStep
  split
  · rfl
  · split
    · rfl
    · split
      · exact nodes_transmit _ _
      · unfold beginRequest
        split
        · rfl
        · exact ((rests_wake _ _).trans (rests_wakeListeners _ _)).nodes
        · rfl
      · exact r.nodes_answer _ _ _ _
      · unfold answerPush
        split
        · exact r.nodes_answer _ _ _ _
        · rfl
      · rfl

/-! ### Moves -/

/-- A move changes the task of a node by a turn of the task or of one of its readers only, and the
supervisor may end it. -/
theorem node?_move (r : Run) (m : Move) (id : String) :
    (r.move m).node? id = r.node? id ∨ m = .turn (.node id) ∨
    (∃ slot, m = .turn (.reader id slot)) ∨ (r.move m).Over id := by
  cases m with
  | turn p =>
    cases p with
    | node other =>
      by_cases hid : id = other
      · exact .inr (.inl (by rw [hid]))
      · refine .inl ?_
        rw [move, turn]
        split
        · rename_i q hq
          exact (r.tends_nodeStep q).others id (id_of_node? hq ▸ hid)
        · rfl
    | reader other slot =>
      by_cases hid : id = other
      · exact .inr (.inr (.inl ⟨slot, by rw [hid]⟩))
      · refine .inl ?_
        rw [move, turn]
        split
        · rename_i q hq
          exact (r.tends_readerStep q slot).others id (id_of_node? hq ▸ hid)
        · rfl
    | drain node sink =>
      refine .inl ?_
      rw [move, turn]
      split <;> rfl
    | supervisor => exact (node?_foldl_release _ _ id).imp_right fun h => .inr (.inr h)
    | watch context => exact .inl (node?_of_nodes (r.rests_watchStep context).nodes id)
    | server => exact .inl (node?_of_nodes r.nodes_serverStep id)
    | request number => exact .inl (node?_of_nodes (r.nodes_requestStep number) id)
  | clock now => exact .inl rfl
  | schedule ready sleepers => exact .inl rfl
  | push pad v timeout leaveOpen =>
    refine .inl ?_
    rw [move]
    split
    · rename_i hpush
      exact node?_of_nodes (rests_push hpush).nodes id
    · rfl
  | complete context => exact .inl rfl
  | cancel context => exact .inl rfl
  | transmit m => exact .inl (node?_of_nodes (r.nodes_transmit m) id)
  | stop => exact .inl (node?_of_nodes r.rests_stop.nodes id)
  | stopServing => exact .inl rfl
  | disown => exact .inl rfl

end Patchbay.Run
