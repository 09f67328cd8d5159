import Patchbay.Proofs.Graph.Operations
import Patchbay.Proofs.Snapshot.Text

/-!
# Failing operations change nothing

An operation works on a copy of the state, and the cursor of the history is moved back when the
entry it came to cannot be restored. So an operation that fails leaves the graph exactly as it was
(`eq_of_perform_error`): its state, its history and the place of the cursor in it. This holds of
all graphs that operations lead to (`Graph.run_unchanged_of_error`).

Two refusals come late, and are shown in full (`Graph.run_unchanged_of_refusals`). An edit may take
all its sub-steps and be refused when the graph is resolved after them (`refuses_clockEdit`); and
an undo may have moved the cursor when the entry that it came to cannot be built
(`refuses_undo_looped`).
-/

namespace Patchbay.Graph

variable {g : Graph} {op : Operation} {e : Error}

/-! ### The history of a graph -/

theorem proper_commit (hg : g.history.Proper) (s : GraphState) : (g.commit s).history.Proper :=
  History.proper_push hg.depth_pos _

theorem proper_adopt (hg : g.history.Proper) (r : Except Error GraphState) :
    (g.adopt r).2.history.Proper := by
  cases r with
  | error e => exact hg
  | ok s => exact proper_commit hg s

/-- Restoring an entry (`Graph.restore`) does not touch the history, and a failure touches nothing.
-/
theorem restore_history (g : Graph) (entry : String) :
    (g.restore entry).2.history = g.history ∧
      ∀ e, (g.restore entry).1 = .error e → (g.restore entry).2 = g := by
  rw [restore]
  split
  · exact ⟨rfl, fun _ _ => rfl⟩
  · split
    · exact ⟨rfl, fun _ h => by cases h⟩
    · exact ⟨rfl, fun _ _ => rfl⟩

/-- A move that fails is taken back by its repair, so that `Graph.moveTo` has no effect then. -/
theorem moveTo_spec {repair : History String → History String}
    {target : Option (History String × String)} (hg : g.history.Proper)
    (htarget : ∀ history entry, target = some (history, entry) →
      history.Proper ∧ repair history = g.history) :
    (g.moveTo repair target).2.history.Proper ∧
      ∀ e, (g.moveTo repair target).1 = .error e → (g.moveTo repair target).2 = g := by
  match target with
  | none => exact ⟨hg, fun _ h => by cases h⟩
  | some (history, entry) =>
    obtain ⟨hproper, hrepair⟩ := htarget history entry rfl
    obtain ⟨hhistory, hfail⟩ := restore_history { g with history := history } entry
    rw [moveTo]
    split
    · rename_i snapshot g' heq
      rw [heq] at hhistory
      exact ⟨hhistory ▸ hproper, fun _ h => by cases h⟩
    · rename_i e g' heq
      rw [heq] at hfail
      have hg' : g' = { g with history := history } := hfail e rfl
      subst hg'
      have hback : ({ g with history := repair history } : Graph) = g := by rw [hrepair]
      exact ⟨hback ▸ hg, fun _ _ => hback⟩

theorem undo_spec (hg : g.history.Proper) :
    g.undo.2.history.Proper ∧ ∀ e, g.undo.1 = .error e → g.undo.2 = g :=
  moveTo_spec hg fun _ _ h => ⟨History.proper_undo hg h, History.forth_of_undo hg h⟩

theorem redo_spec (hg : g.history.Proper) :
    g.redo.2.history.Proper ∧ ∀ e, g.redo.1 = .error e → g.redo.2 = g :=
  moveTo_spec hg fun _ _ h => ⟨History.proper_redo hg h, History.back_of_redo hg h⟩

/-! ### Operations -/

theorem proper_perform (hg : g.history.Proper) (op : Operation) :
    (g.perform op).2.history.Proper := by
  cases op with
  | edit edit => exact proper_adopt hg _
  | load snapshot => exact proper_adopt hg _
  | undo => exact (undo_spec hg).1
  | redo => exact (redo_spec hg).1

theorem proper_run (hg : g.history.Proper) (ops : List Operation) :
    (g.run ops).history.Proper := by
  induction ops generalizing g with
  | nil => exact hg
  | cons op rest ih => exact ih (proper_perform hg op)

theorem adopt_error {r : Except Error GraphState} (h : ((g.adopt r).1.map some) = .error e) :
    (g.adopt r).2 = g := by
  cases r with
  | error e => rfl
  | ok s => cases h

/-- A graph whose cursor stands on an entry (`History.Proper`) is left alone by an operation that
fails. -/
theorem eq_of_perform_error (hg : g.history.Proper) (h : (g.perform op).1 = .error e) :
    (g.perform op).2 = g := by
  cases op with
  | edit edit => exact adopt_error h
  | load snapshot => exact adopt_error h
  | undo => exact (undo_spec hg).2 e h
  | redo => exact (redo_spec hg).2 e h

/-- After any sequence of operations on a new graph, an operation that fails changes nothing: not
the state, and not the history or its cursor. An edit that fails midway, or whose result cannot be
resolved, is dropped as a whole; an undo or redo that fails moves the cursor back. -/
theorem run_unchanged_of_error (library : Library) (config : EngineConfig)
    (ops : List Operation) (op : Operation) (e : Error)
    (h : (((Graph.new library config).run ops).perform op).1 = .error e) :
    (((Graph.new library config).run ops).perform op).2 = (Graph.new library config).run ops :=
  eq_of_perform_error (proper_run (History.proper_ofDepth_push _ _) ops) h

/-! ### Refusals -/

/-- A text that a relay passes on to a display. -/
def relayEdits : List GraphEdit :=
  [.insertNode (some "text") "StringProperty" none none,
    .insertNode (some "relay") "Passthrough" none none,
    .insertNode (some "view") "Display" none none,
    .connectPad ⟨⟨"text", "value"⟩, ⟨"relay", "input"⟩⟩,
    .connectPad ⟨⟨"relay", "output"⟩, ⟨"view", "value"⟩⟩]

/-- The graph with them. -/
def relayed : Graph := (Graph.new Library.builtins {}).run (relayEdits.map .edit)

/-- Puts a subgraph with a clock in the place of the relay, and sets its interval to the text.
Nodes and links have changed when it is found out that the text is no interval. -/
def clockEdit : GraphEdit :=
  .insertInlineSubgraph (some "s") none ⟨[.bare "clock" "Ticker"]⟩
    [⟨⟨"text", "value"⟩, ⟨"clock", "interval_ms"⟩⟩]
    [⟨⟨"clock", "tick"⟩, ⟨"view", "value"⟩⟩] ["relay"] none none

/-- No text is a number of milliseconds. -/
def noInterval : Error :=
  .nothingInCommon ⟨"text", "value"⟩ ⟨"s", "clock:interval_ms"⟩ (some [.string])
    (some [.integer (some 10) none])

/-- Settings under which a graph is given up after two passes (`EngineConfig.maxResolvePasses`). -/
def hasty : EngineConfig := { maxResolvePasses := 2 }

/-- A compare whose outcome is one of its operands. Its type goes round, so that it takes passes to
settle. -/
def loopEdits : List GraphEdit :=
  [.insertNode (some "c") "Compare" none none,
    .connectPad ⟨⟨"c", "result"⟩, ⟨"c", "a"⟩⟩]

/-- Next to the compare there is a display since the last edit. -/
def looped : Graph :=
  (Graph.new Library.builtins hasty).run
    ((loopEdits ++ [GraphEdit.insertNode (some "d") "Display" none none]).map .edit)

/-- Two passes suffice for each of these edits, but not for all of the graph at once, which is what
an undo has to resolve. -/
def unsettled : Error := .nodeResolution "c" "pads did not settle after 2 passes"

/-- The edit removes a node, puts in a subgraph and links it, and is refused when the graph is
resolved after that. -/
theorem refuses_clockEdit : (∃ s, relayed.editState relayed.state clockEdit = .ok s) ∧
    (relayed.perform (.edit clockEdit)).1 = .error noInterval := by
  obtain ⟨s, hs, hedit, hrefused⟩ : ∃ s,
      (Graph.new Library.builtins {}).editedBy relayEdits = .ok s ∧
      (∃ t, (Graph.new Library.builtins {}).editState s clockEdit = .ok t) ∧
      { Graph.new Library.builtins {} with state := s }.edited clockEdit = .error noInterval := by
    have h : ((Graph.new Library.builtins {}).editedBy relayEdits).toOption.any (fun s =>
        ((Graph.new Library.builtins {}).editState s clockEdit).toOption.isSome &&
          decide ({ Graph.new Library.builtins {} with state := s }.edited clockEdit =
            .error noInterval)) = true := by
      decide +kernel
    obtain ⟨s, hs, h⟩ := (Option.any_eq_true _ _).mp h
    rw [Bool.and_eq_true, decide_eq_true_iff] at h
    obtain ⟨t, ht⟩ := Option.isSome_iff_exists.mp h.1
    exact ⟨s, toOption_eq_some_iff.mp hs, ⟨t, toOption_eq_some_iff.mp ht⟩, h.2⟩
  have hlibrary : relayed.library = Library.builtins := library_run _ _
  have hconfig : relayed.config = {} := config_run _ _
  have hstate : relayed.state = s := (run_new_of_editedBy hs).1
  refine ⟨?_, ?_⟩
  · rwa [hstate, editState_congr (g := Graph.new Library.builtins {}) hlibrary hconfig]
  · rw [perform, apply, edited_congr (g := { Graph.new Library.builtins {} with state := s })
      hlibrary hconfig hstate, hrefused]
    rfl

/-- The one link of the compare is named at both of its ends, once in each of the two pads. -/
theorem build_of_named {l : Link} {snapshot : GraphSnapshot}
    (h : (snapshot.nodes.flatMap fun n => n.pads.flatMap (GraphSnapshot.linksOfPad n.id)) = [l, l])
    (library : Library) (config : EngineConfig) :
    (Graph.new library config).build snapshot =
      (GraphState.loadNodes library config snapshot.nodes .empty >>= fun s => s.linkAll [l]) >>=
        GraphState.reconcile config [] := by
  have hlinks : snapshot.links = [l] := by
    have hsorted : [l, l].mergeSort (fun a b => !b.lt a) = [l, l] := by
      refine List.mergeSort_of_pairwise (List.pairwise_pair.mpr ?_)
      simp [Link.lt, PadRef.lt_irrefl]
    rw [GraphSnapshot.links, h, hsorted]
    simp [List.eraseReps, List.eraseRepsBy, List.eraseRepsBy.loop]
  obtain ⟨nodes⟩ := snapshot
  rw [build, GraphState.load, hlinks]
  rfl

/-- The text of the state before the last edit is found in the history and read, and the graph is
not built from it. -/
theorem refuses_undo_looped : (∃ move, looped.history.undo? = some move) ∧
    (looped.perform .undo).1 = .error unsettled := by
  obtain ⟨s, t, hs, ht, hlegible, hrefused⟩ : ∃ s t,
      (Graph.new Library.builtins hasty).editedBy loopEdits = .ok s ∧
      { Graph.new Library.builtins hasty with state := s }.edited
        (.insertNode (some "d") "Display" none none) = .ok t ∧
      s.toSnapshot.readsBack = true ∧
      (Graph.new Library.builtins hasty).build s.toSnapshot = .error unsettled := by
    have h : ((Graph.new Library.builtins hasty).editedBy loopEdits).toOption.any (fun s =>
        ({ Graph.new Library.builtins hasty with state := s }.edited
          (.insertNode (some "d") "Display" none none)).toOption.isSome &&
        s.toSnapshot.readsBack &&
        decide
          ((s.toSnapshot.nodes.flatMap fun n => n.pads.flatMap (GraphSnapshot.linksOfPad n.id)) =
          [⟨⟨"c", "result"⟩, ⟨"c", "a"⟩⟩, ⟨⟨"c", "result"⟩, ⟨"c", "a"⟩⟩]) &&
        decide ((GraphState.loadNodes Library.builtins hasty s.toSnapshot.nodes .empty >>= fun s =>
          s.linkAll [⟨⟨"c", "result"⟩, ⟨"c", "a"⟩⟩]) >>= GraphState.reconcile hasty [] =
            .error unsettled)) = true := by
      decide +kernel
    obtain ⟨s, hs, h⟩ := (Option.any_eq_true _ _).mp h
    simp only [Bool.and_eq_true, decide_eq_true_iff] at h
    obtain ⟨⟨⟨ht, hlegible⟩, hnamed⟩, hrefused⟩ := h
    obtain ⟨t, ht⟩ := Option.isSome_iff_exists.mp ht
    exact ⟨s, t, toOption_eq_some_iff.mp hs, toOption_eq_some_iff.mp ht, hlegible,
      (build_of_named hnamed _ _).trans hrefused⟩
  obtain ⟨before, hbefore⟩ : ∃ before,
      (Graph.new Library.builtins hasty).run (loopEdits.map .edit) = before := ⟨_, rfl⟩
  have hlibrary : before.library = Library.builtins := hbefore ▸ library_run _ _
  have hconfig : before.config = hasty := hbefore ▸ config_run _ _
  have hproper : before.history.Proper :=
    hbefore ▸ proper_run (History.proper_ofDepth_push _ _) _
  obtain ⟨hstate, hdepth, hcurrent⟩ := run_new_of_editedBy hs
  rw [hbefore] at hstate hdepth hcurrent
  have hlooped : looped = before.commit t := by
    rw [looped, List.map_append, run_append, hbefore]
    exact run_edit ((edited_congr hlibrary hconfig hstate _).trans ht) []
  obtain ⟨history, hundo, -⟩ :=
    History.undo?_push hproper (hdepth ▸ by decide) hcurrent t.toSnapshot.write
  have hundo : looped.history.undo? = some (history, s.toSnapshot.write) := hlooped ▸ hundo
  have hread : GraphSnapshot.read? s.toSnapshot.write = some s.toSnapshot :=
    GraphSnapshot.read?_write (GraphSnapshot.legible_of_readsBack hlegible)
  have hbuild : ({ looped with history := history } : Graph).build s.toSnapshot =
      .error unsettled := by
    rw [hlooped, build, commit, hlibrary, hconfig]
    exact hrefused
  refine ⟨⟨_, hundo⟩, ?_⟩
  rw [perform, undo, hundo, moveTo, restore, hread]
  simp only [hbuild]

/-- An edit that fails after its sub-steps were taken changes nothing, and neither does an undo
whose entry cannot be loaded after the cursor was moved to it. -/
theorem run_unchanged_of_refusals :
    ((∃ s, relayed.editState relayed.state clockEdit = .ok s) ∧
      (relayed.perform (.edit clockEdit)).1 = .error noInterval ∧
      (relayed.perform (.edit clockEdit)).2 = relayed) ∧
    ((∃ move, looped.history.undo? = some move) ∧
      (looped.perform .undo).1 = .error unsettled ∧ (looped.perform .undo).2 = looped) :=
  ⟨⟨refuses_clockEdit.1, refuses_clockEdit.2,
      run_unchanged_of_error _ _ _ (.edit clockEdit) noInterval refuses_clockEdit.2⟩,
    ⟨refuses_undo_looped.1, refuses_undo_looped.2,
      run_unchanged_of_error _ _ _ .undo unsettled refuses_undo_looped.2⟩⟩

end Patchbay.Graph
