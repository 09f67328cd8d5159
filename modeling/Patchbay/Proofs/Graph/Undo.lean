import Patchbay.Proofs.Graph.Atomic
import Patchbay.Proofs.Graph.RoundTrip
import Patchbay.Proofs.Snapshot.Text

/-!
# Undo and redo

The history keeps texts of snapshots, and a move through it builds a state anew. The entry under
the cursor always stands for the state (`Graph.Current`, kept by `Graph.current_run`): it is the
text of the state's snapshot, or the state was built from it (`Graph.Recalls`).

So an edit can be undone exactly, and redone exactly, where both states come back from the texts of
their snapshots (`Graph.undo_redo_run`). Two things have to hold of each of them. Its snapshot is
read back from its text, which it is unless it holds `null` as a value (`GraphSnapshot.Exact`). And
the state is built again from its snapshot: it is reloadable (`GraphState.Reloadable`), as
`Graph.build_toSnapshot` asks for.

The witness is the gauge of the round trip, with a graph inside a graph and an operator that holds
more than its default (`Graph.undo_redo_gauge`).
-/

namespace Patchbay

namespace GraphState

variable {s : GraphState}

/-- The pads hold exact values, and show exact constraints: `Json.Exact` for the value and
`Constraints.Exact` for the effective constraints, which a snapshot stores as well. -/
def PadsExact (s : GraphState) : Prop :=
  ∀ e ∈ s.nodes, ∀ p ∈ e.pads, (∀ v ∈ p.value, v.Exact) ∧ p.effective.Exact

/-- The snapshot of a graph is exact (`GraphSnapshot.Exact`) if the pads are at every depth, for it
stores the graphs inside as snapshots of their own. -/
theorem exact_toSnapshot_iff : s.toSnapshot.Exact ↔ s.Everywhere PadsExact := by
  induction s using insideInduction with
  | step s ih =>
    rw [toSnapshot_eq, everywhere_iff]
    refine NodeSnapshot.exactAll_iff.trans ?_
    have hnode : ∀ e ∈ s.nodes, ((storeNode s e).Exact ↔
        (∀ p ∈ e.pads, (∀ v ∈ p.value, v.Exact) ∧ p.effective.Exact) ∧
          e.body.Inside (Everywhere PadsExact)) := by
      intro e he
      rw [storeNode_eq]
      refine and_congr ?_ ?_
      · rw [List.forall_mem_map]
        exact forall₂_congr fun p _ => ⟨fun h => ⟨h.value, h.allowedTypes⟩, fun h => ⟨h.1, h.2⟩⟩
      · cases hb : e.body with
        | plugin type => exact iff_of_true trivial (Body.inside_plugin _ _)
        | subgraph id inner =>
          rw [Body.inside_subgraph]
          exact ih e he id inner hb
    rw [List.forall_mem_map]
    exact (forall₂_congr hnode).trans forall₂_and

/-- No property of the graph holds `null`, if its snapshot is exact. -/
theorem noNulls_of_exact (h : s.toSnapshot.Exact) : s.Everywhere NoNulls :=
  (exact_toSnapshot_iff.mp h).mono fun _ ht e he p hp hnull =>
    ((ht e he p hp).1 _ hnull).not_null rfl

end GraphState

namespace Graph

variable {g : Graph} {entry : String} {s : GraphState}

/-- The state is built from the text of an entry: the text is read as a snapshot
(`GraphSnapshot.read?`), and `Graph.build` makes the state of it. -/
def Recalls (g : Graph) (entry : String) (s : GraphState) : Prop :=
  ∃ snapshot, GraphSnapshot.read? entry = some snapshot ∧ g.build snapshot = .ok s

theorem restore_of_recalls (h : g.Recalls entry s) :
    g.restore entry = (.ok s.toSnapshot, { g with state := s }) := by
  obtain ⟨snapshot, hread, hbuild⟩ := h
  rw [restore, hread]
  simp only [hbuild]

/-- A move that succeeds has built the new state from its entry: `Graph.restore` changes nothing
but the state, and what it answers is the snapshot of that state. -/
theorem recalls_of_restore {snapshot : GraphSnapshot} (h : (g.restore entry).1 = .ok snapshot) :
    ∃ s, g.Recalls entry s ∧ (g.restore entry).2 = { g with state := s } := by
  rw [restore] at h ⊢
  cases hread : GraphSnapshot.read? entry with
  | none => simp [hread] at h
  | some snapshot =>
    cases hbuild : g.build snapshot with
    | error e => simp [hread, hbuild] at h
    | ok s => exact ⟨s, ⟨snapshot, hread, hbuild⟩, by simp [hbuild]⟩

/-- A move to an entry that a state is built from. It answers with the snapshot of that state, and
`repair` is not called. -/
theorem moveTo_of_recalls {history : History String} {repair : History String → History String}
    (h : g.Recalls entry s) : g.moveTo repair (some (history, entry)) =
      (.ok (some s.toSnapshot), { g with history := history, state := s }) := by
  have hrestore := restore_of_recalls (g := { g with history := history }) h
  rw [moveTo, hrestore]

/-! ### The entry under the cursor -/

/-- The cursor stands on an entry that stands for the state. The entry is the text of the state's
snapshot, or the state was built from it. -/
structure Current (g : Graph) : Prop where
  proper : g.history.Proper
  depth : g.history.depth = max g.config.historyDepth 1
  entry : ∃ entry, g.history.current? = some entry ∧
    (entry = g.toSnapshot.write ∨ g.Recalls entry g.state)

theorem current_new (library : Library) (config : EngineConfig) :
    (Graph.new library config).Current where
  proper := History.proper_ofDepth_push _ _
  depth := rfl
  entry := ⟨_, History.current?_ofDepth_push _ _, .inl rfl⟩

theorem current_adopt (hg : g.Current) (r : Except Error GraphState) : (g.adopt r).2.Current := by
  cases r with
  | error e => exact hg
  | ok s =>
    exact ⟨proper_commit hg.proper s, hg.depth, _, History.current?_push hg.proper _, .inl rfl⟩

/-- A move that succeeds comes to an entry, and builds the state from it, so that the new cursor
stands for the new state. If it fails, `repair` puts the cursor back, and the state is the old one.
-/
theorem current_moveTo {repair : History String → History String}
    {target : Option (History String × String)} (hg : g.Current)
    (htarget : ∀ history entry, target = some (history, entry) → history.Proper ∧
      repair history = g.history ∧ history.depth = g.history.depth ∧
      history.current? = some entry) :
    (g.moveTo repair target).2.Current := by
  cases target with
  | none => exact hg
  | some move =>
    obtain ⟨history, entry⟩ := move
    obtain ⟨hproper, hrepair, hdepth, hcurrent⟩ := htarget history entry rfl
    cases hanswer : (({ g with history := history } : Graph).restore entry).1 with
    | ok snapshot =>
      obtain ⟨s, hrecalls, -⟩ := recalls_of_restore hanswer
      have hrecalls : g.Recalls entry s := hrecalls
      rw [moveTo_of_recalls hrecalls]
      exact ⟨hproper, hdepth.trans hg.depth, entry, hcurrent, .inr hrecalls⟩
    | error e =>
      -- the repair brings the cursor back to the entry it came from
      obtain ⟨-, hback⟩ := restore_history { g with history := history } entry
      have hrestore : ({ g with history := history } : Graph).restore entry =
          (.error e, { g with history := history }) := Prod.ext hanswer (hback e hanswer)
      have hmove : (g.moveTo repair (some (history, entry))).2 = g := by
        rw [moveTo, hrestore]
        simp only [hrepair]
      rw [hmove]
      exact hg

theorem current_perform (hg : g.Current) (op : Operation) : (g.perform op).2.Current := by
  cases op with
  | edit edit => exact current_adopt hg _
  | load snapshot => exact current_adopt hg _
  | undo =>
    refine current_moveTo hg fun history entry h => ?_
    obtain ⟨-, rfl, hcurrent⟩ := History.undo?_eq_some h
    exact ⟨History.proper_undo hg.proper h, History.forth_of_undo hg.proper h, rfl, hcurrent⟩
  | redo =>
    refine current_moveTo hg fun history entry h => ?_
    obtain ⟨-, rfl, hcurrent⟩ := History.redo?_eq_some h
    exact ⟨History.proper_redo hg.proper h, History.back_of_redo hg.proper h, rfl, hcurrent⟩

/-- After any operations the entry under the cursor stands for the state (`Graph.Current`): edits
push the text of the new snapshot, moves build the state from their entry, and refused operations
change neither of the two. -/
theorem current_run (hg : g.Current) (ops : List Operation) : (g.run ops).Current := by
  induction ops generalizing g with
  | nil => exact hg
  | cons op rest ih => exact ih (current_perform hg op)

/-! ### An edit undone and redone -/

/-- The text of the snapshot of a reloadable state recalls the state, if it is read back:
`Graph.build_toSnapshot` for the state, `GraphSnapshot.read?` for the text. -/
theorem recalls_write (hlib : g.library.types = Library.builtins.types)
    (hconfig : g.config.maxResolvePasses ≠ 1) (hs : Sane g.library.Has Constraints.Plain s)
    (hfixed : GraphState.reconcile g.config [] s = .ok s) (hlegible : s.toSnapshot.Legible)
    (h : s.Reloadable g.config) : g.Recalls s.toSnapshot.write s :=
  ⟨s.toSnapshot, GraphSnapshot.read?_write hlegible,
    build_toSnapshot hlib hconfig hs hfixed (GraphState.noNulls_of_exact hlegible.exact) h⟩

/-- An edit that succeeds after any operations on a new graph of built-in nodes is undone exactly,
and redone exactly, if both states are reloadable (`GraphState.Reloadable`) and the texts of their
snapshots are read back: the answers are the old snapshot and the new one, and the states are the
old one and the new one. -/
theorem undo_redo_run {library : Library} {config : EngineConfig} {g g' : Graph} {edit : GraphEdit}
    {snapshot : GraphSnapshot} (hlib : library.types = Library.builtins.types)
    (hconfig : config.maxResolvePasses ≠ 1) (hdepth : 2 ≤ config.historyDepth)
    (ops : List Operation)
    (hg : (Graph.new library config).run ops = g) (hedit : g.apply edit = (.ok snapshot, g'))
    (hbefore : g.state.Reloadable config) (hafter : g'.state.Reloadable config)
    (hlegible : g.toSnapshot.Legible) (hlegible' : snapshot.Legible) :
    ∃ undone, g'.undo = (.ok (some g.toSnapshot), undone) ∧ undone.state = g.state ∧
      undone.redo = (.ok (some snapshot), g') := by
  have hg' := run_concat_edit hg hedit
  obtain ⟨hsane, hfixed⟩ := sane_resolved_run hlib config ops
  obtain ⟨hsane', hfixed'⟩ := sane_resolved_run hlib config (ops ++ [.edit edit])
  have hcurrent := current_run (current_new library config) ops
  have hlibrary : g.library = library := hg ▸ library_run (Graph.new library config) ops
  have hsettings : g.config = config := hg ▸ config_run (Graph.new library config) ops
  rw [hg] at hsane hfixed hcurrent
  rw [hg'] at hsane' hfixed'
  obtain ⟨s, rfl, rfl⟩ : ∃ s, g' = g.commit s ∧ snapshot = s.toSnapshot := by
    rw [apply] at hedit
    cases h : g.edited edit with
    | error e => simp [h, adopt] at hedit
    | ok s =>
      rw [h, adopt, Prod.mk.injEq, Except.ok.injEq] at hedit
      exact ⟨s, hedit.2.symm, hedit.1.symm⟩
  subst hlibrary hsettings
  have hredo : g.Recalls s.toSnapshot.write s :=
    recalls_write hlib hconfig hsane' hfixed' hlegible' hafter
  obtain ⟨entry, hentry, hrecords⟩ := hcurrent.entry
  have hundo : g.Recalls entry g.state := by
    rcases hrecords with rfl | h
    · exact recalls_write hlib hconfig hsane hfixed hlegible hbefore
    · exact h
  have hkept : 2 ≤ g.history.depth := by
    rw [hcurrent.depth]
    omega
  obtain ⟨history, hback, hforth⟩ :=
    History.undo?_push hcurrent.proper hkept hentry s.toSnapshot.write
  refine ⟨{ g with history := history }, ?_, rfl, ?_⟩
  · have hback : (g.commit s).history.undo? = some (history, entry) := hback
    have hundo : (g.commit s).Recalls entry g.state := hundo
    rw [undo, hback, moveTo_of_recalls hundo]
    rfl
  · have hforth : ({ g with history := history } : Graph).history.redo? =
        some ((g.commit s).history, s.toSnapshot.write) := hforth
    have hredo : ({ g with history := history } : Graph).Recalls s.toSnapshot.write s := hredo
    rw [redo, hforth, moveTo_of_recalls hredo]
    rfl

/-- To feed the gauge (`feedGauge`) can be undone and redone. Both states hold the number and the
operator (`HoldsGauge`), and the type that comes out of the subgraph goes away and comes back
(`FeedsGauge`). -/
theorem undo_redo_gauge : ∃ g s, (Graph.new Library.builtins {}).run (gaugeEdits.map .edit) = g ∧
    HoldsGauge g.state ∧ g.apply feedGauge = (.ok s.toSnapshot, g.commit s) ∧
      HoldsGauge s ∧ FeedsGauge g.state s ∧
      ∃ undone, (g.commit s).undo = (.ok (some g.toSnapshot), undone) ∧ undone.state = g.state ∧
        undone.redo = (.ok (some s.toSnapshot), g.commit s) := by
  obtain ⟨s, hedit, ⟨hbefore, hafter, hfeeds⟩, hlegible, hlegible'⟩ :=
    apply_of_test Library.builtins {} gaugeEdits feedGauge
      (P := fun s t => (HoldsGauge s ∧ HoldsGauge t ∧ FeedsGauge s t) ∧
        s.toSnapshot.readsBack = true ∧ t.toSnapshot.readsBack = true) (by decide +kernel)
  obtain ⟨g, hg⟩ : ∃ g, (Graph.new Library.builtins {}).run (gaugeEdits.map .edit) = g :=
    ⟨_, rfl⟩
  rw [hg] at hbefore hedit hfeeds hlegible
  have hg' := run_concat_edit hg hedit
  have hreloadable : g.state.Reloadable {} := .inr (recoverable_run rfl (.inl rfl) _ hg hbefore.1)
  have hreloadable' : (g.commit s).state.Reloadable {} :=
    .inr (recoverable_run rfl (.inl rfl) _ hg' hafter.1)
  exact ⟨g, s, hg, hbefore, hedit, hafter, hfeeds,
    undo_redo_run rfl (by decide) (by decide) _ hg hedit hreloadable hreloadable'
      (GraphSnapshot.legible_of_readsBack hlegible) (GraphSnapshot.legible_of_readsBack hlegible')⟩

end Graph

end Patchbay
