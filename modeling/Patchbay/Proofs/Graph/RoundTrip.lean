import Patchbay.Proofs.Graph.Recovery
import Patchbay.Proofs.Graph.Copies
import Patchbay.Proofs.Graph.Loading
import Patchbay.Proofs.Graph.Forward

/-!
# The round trip through a snapshot

A graph of built-in nodes that was built up by operations is rebuilt by loading its snapshot, as
long as it is *reloadable* (`Graph.load_toSnapshot_run`). What is loaded has all nodes and links
and the values that were stored, but only the types that the nodes declare by themselves, and
resolution has to bring the others back before an operator is looked up in a menu that is too
small, and before it runs out of passes.

A graph is reloadable (`GraphState.Reloadable`) in either of two cases.

* It has no subgraphs, and no types flow around its cycles (`GraphState.Untangled`). This holds of
  all graphs without cycles (`GraphState.Acyclic.untangled`).
* At every depth it is recoverable (`GraphState.Recoverable`): there is a timetable for its types
  that is kept by resolution after a load (`GraphState.Paced`), the sources of its subgraphs have
  their types from something else than each other (`GraphState.Grounded`), and what is behind a
  compare decides its operator before the compare is resolved (`GraphState.Decided`).

The second case covers subgraphs of any depth. The conditions are about the links of the graph and
what its pads declare and hold, and for graphs whose links lead forward they can be read off the
graph (`GraphState.recoverable_of_straight`, `Graph.recoverable_run`).

Without them the round trip fails: on a cycle of types, and between two subgraphs that feed each
other's pads, types and the values that were chosen for them keep each other alive.
-/

namespace Patchbay

namespace GraphState

variable {s s₀ t : GraphState} {library : Library} {config : EngineConfig}
  {T : String → NodeType → Prop}

/-- Types come back in time when the graph is loaded, whatever the copy declares at first, and
operators keep their values. All of this is about the graph at rest: its links, the types of its
nodes, and what its pads declare and hold. -/
structure Recoverable (config : EngineConfig) (s : GraphState) : Prop where
  clean : s.Clean
  paced : s.Paced config True
  grounded : s.Grounded
  decided : s.Decided

/-- Either the graph has no subgraphs, and no types flow around its cycles, as in
`reconcile_of_copies`; or it is recoverable at every depth, as in `AtRest.exists_reload`. Neither of
the two covers the other: passes may be too few for a timetable in a graph without subgraphs, and
`Untangled` says nothing of types that come out of subgraphs. -/
def Reloadable (config : EngineConfig) (s : GraphState) : Prop :=
  (∀ e ∈ s.nodes, e.isSubgraph = false) ∧ s.Untangled (config.passLimit s.nodes.length) ∨
    s.Everywhere (Recoverable config)

/-- Graphs that lead forward at every depth are recoverable, if they are decided. Four passes
are enough for them, however long their paths are (`Forward.timed`). -/
theorem recoverable_of_forward {C : Constraints → Prop}
    (hlimit : config.maxResolvePasses = 0 ∨ 4 ≤ config.maxResolvePasses)
    (horderly : s.Everywhere (Orderly T C)) (hwf : s.Everywhere WellFormed)
    (hclean : s.Everywhere Clean) (h : s.Everywhere Forward) (hdecided : s.Everywhere Decided) :
    s.Everywhere (Recoverable config) := by
  refine ((((horderly.and hwf).and hclean).and h).and hdecided).mono ?_
  rintro t ⟨⟨⟨⟨horderly, hwf⟩, hclean⟩, h⟩, hdecided⟩
  exact ⟨hclean, h.paced (hwf.joined horderly.ordered) hwf.distinctNodes hlimit, h.grounded,
    hdecided⟩

/-- So are graphs that are straight at every depth, which can be decided by looking at them. -/
theorem recoverable_of_straight {C : Constraints → Prop}
    (hlimit : config.maxResolvePasses = 0 ∨ 4 ≤ config.maxResolvePasses)
    (horderly : s.Everywhere (Orderly T C)) (hwf : s.Everywhere WellFormed)
    (hslim : s.Everywhere fun t => t.PadsIn Constraints.Slim) (h : s.Everywhere Straight) :
    s.Everywhere (Recoverable config) := by
  refine recoverable_of_forward hlimit horderly hwf ((h.and hslim).mono fun _ h => h.1.1.clean h.2)
    (h.mono fun _ => Straight.forward) (((h.and horderly).and hwf).mono ?_)
  exact fun _ h => h.1.1.decided (h.2.joined h.1.2.ordered)

/-- A graph without subgraphs is loaded as a copy (`Copies`): `load_toSnapshot` gives the nodes and
links, and each node has the pads of `copies_reloaded`. -/
theorem copies_of_load (hT : ∀ name t, T name t → t.Tame)
    (hlib : ∀ name t, T name t → library.create name = .ok t)
    (hs : s.Nested T Constraints.Plain 0) (hwf : s.WellFormed)
    (hfixed : reconcile config [] s = .ok s) (hnull : s.NoNulls) :
    ∃ s₀, load library config s.toSnapshot = .ok s₀ ∧ s₀.Copies s := by
  rw [reconcile, Nat.le_zero.mp hs.1] at hfixed
  have hset := (settled_of_reconcileWithin hT (External.in_nil _) hs hfixed).1
  have hflat := nested_zero_iff.mp hs
  have hnodes : ∀ e ∈ s.nodes, ∃ d, loadNode library config (storeNode s e) = .ok d ∧
      d.Copies e := by
    intro e he
    obtain ⟨type, hb⟩ := OrderlyFlat.exists_plugin hflat he
    have htype : T e.nodeType type := by
      simpa only [hb, Body.OfType] using (hflat.fit e he).types
    have hstateless := hwf.stateless e he
    exact ⟨_, loadNode_eq_reloaded (hset e he) (hT _ _ htype) hb (hlib _ _ htype)
      (hwf.distinctPads e he) hstateless (hnull e he),
      copies_reloaded (hset e he) (hT _ _ htype) hb hstateless (hnull e he)⟩
  obtain ⟨s₀, hload, hlinks, hloaded⟩ := load_toSnapshot hflat hwf hnodes
  exact ⟨s₀, hload, hloaded.imp fun _ _ => And.right, hlinks⟩

/-- A resolved, reloadable graph comes back from its snapshot: `load` succeeds, and `reconcile`
makes the graph of what was loaded. Without subgraphs this is `reconcile_of_copies`, at any depth
it is `AtRest.exists_reload`. -/
theorem reconcile_load_toSnapshot (hT : ∀ name t, T name t → t.IsBuiltin)
    (hlib : ∀ name t, T name t → library.create name = .ok t) (hin : library.In T)
    (hconfig : config.maxResolvePasses ≠ 1) (hs : s.Everywhere (Orderly T Constraints.Plain))
    (hwf : s.Everywhere WellFormed) (hfixed : reconcile config [] s = .ok s)
    (hnull : s.Everywhere NoNulls) (h : s.Reloadable config) :
    ∃ s₀, load library config s.toSnapshot = .ok s₀ ∧ reconcile config [] s₀ = .ok s := by
  have htame : ∀ name t, T name t → t.Tame := fun name t ht => (hT name t ht).tame
  rcases h with ⟨hflat, huntangled⟩ | hrecoverable
  · have hflat : s.Nested T Constraints.Plain 0 := by
      refine ⟨depth_le_zero_iff.mpr fun e he id inner hb => ?_, hs⟩
      have hsub := hflat e he
      rw [NodeEntry.isSubgraph, hb] at hsub
      cases hsub
    obtain ⟨s₀, hload, hcopy⟩ := copies_of_load htame hlib hflat hwf.self hfixed hnull.self
    have hflat₀ : s₀.Nested T Constraints.Plain 0 :=
      ⟨hcopy.depth_le_zero hflat.1, orderly_load (Regime.tame htame) hin s.toSnapshot hload⟩
    exact ⟨s₀, hload, reconcile_of_copies htame hconfig hflat hwf.self hflat₀ hcopy huntangled
      hfixed⟩
  · have hrest : AtRest T config s.depth [] s :=
      ⟨⟨le_rfl, hs⟩, hwf, hrecoverable.mono fun _ h => h.clean, clean_nil, hfixed⟩
    exact hrest.exists_reload hT hlib hin hnull (hrecoverable.mono fun _ h => h.paced)
      (hrecoverable.mono fun _ h => h.grounded) (hrecoverable.mono fun _ h => h.decided)

/-! ### Graphs that are resolved already -/

/-- Resolving what was resolved changes nothing, for tame types and plain constraints
(`reconcileWithin_idempotent`). -/
theorem reconcile_idempotent (hT : ∀ name t, T name t → t.Tame)
    (hs : s.Everywhere (Orderly T Constraints.Plain)) (h : reconcile config [] s = .ok t) :
    reconcile config [] t = .ok t := by
  have hext := External.in_nil Constraints.Plain
  rw [reconcile, depth_reconcileWithin h]
  exact reconcileWithin_idempotent hT s.depth [] s t hext ⟨Nat.le_refl _, hs⟩ h

theorem reconcile_empty (config : EngineConfig) : reconcile config [] .empty = .ok .empty := by
  rw [reconcile, reconcileWithin_eq]
  refine reconcileWith_of_settled (fun e he => ?_) (fun e he => ?_) (fun l hl => ?_) rfl
  · cases he
  · cases he
  · cases hl

end GraphState

/-! ### Built-in nodes -/

/-- The types that a library has under a name. For a library with the built-in types these are
built-in (`Library.isBuiltin_of_has`). -/
def Library.Has (library : Library) (name : String) (t : NodeType) : Prop :=
  library.create name = .ok t

theorem Library.isBuiltin_of_has {library : Library} (h : library.types = Library.builtins.types)
    (name : String) (t : NodeType) (ht : library.Has name t) : t.IsBuiltin := by
  rw [Library.Has, Library.create] at ht
  split at ht
  · cases ht
  · split at ht
    · rename_i t' hlookup
      cases ht
      exact ⟨name, h ▸ mem_of_lookupKey hlookup⟩
    · cases ht

theorem Library.tame_of_has {library : Library} (h : library.types = Library.builtins.types)
    (name : String) (t : NodeType) (ht : library.Has name t) : t.Tame :=
  (library.isBuiltin_of_has h name t ht).tame

/-- Built-in types and slim constraints are a regime: what built-in types declare is slim where
they see slim constraints, and intersections of slim constraints are slim. -/
theorem Regime.slim {T : String → NodeType → Prop} (hT : ∀ name t, T name t → t.IsBuiltin) :
    Regime T Constraints.Slim where
  unconstrained := Constraints.slim_none
  intersect _ _ := Constraints.Slim.intersect
  resolve name t ht view hview specs hspecs :=
    (hT name t ht).steady.slim view specs hspecs fun spec _ _ =>
      NodeView.peerConstraints_in Constraints.slim_none hview spec.id

namespace Graph

variable {g : Graph} {library : Library} {config : EngineConfig}

/-- The state of a graph is resolved after every operation: it is the old one, or was built from a
snapshot, or comes of an edit (`leftBehind_perform`), and building and editing end in
`GraphState.reconcile`. -/
theorem reconcile_perform {T : String → NodeType → Prop} (hT : ∀ name t, T name t → t.Tame)
    (hlib : g.library.In T) (hg : Sane T Constraints.Plain g.state)
    (h : GraphState.reconcile g.config [] g.state = .ok g.state) (op : Operation) :
    GraphState.reconcile g.config [] (g.perform op).2.state = .ok (g.perform op).2.state := by
  have hR := Regime.tame hT
  rcases (leftBehind_perform g op).state with hstate | ⟨snapshot, hbuild⟩ | ⟨edit, hedit⟩
  · rw [hstate]
    exact h
  · obtain ⟨s, hload, hs⟩ := bind_eq_ok_iff.mp hbuild
    exact GraphState.reconcile_idempotent hT (GraphState.orderly_load hR hlib snapshot hload) hs
  · obtain ⟨s, hs, hresolve⟩ := bind_eq_ok_iff.mp hedit
    exact GraphState.reconcile_idempotent hT (orderly_editState hR hlib hg.orderly hs) hresolve

theorem reconcile_run {T : String → NodeType → Prop} (hT : ∀ name t, T name t → t.Tame)
    (hlib : g.library.In T) (hg : Sane T Constraints.Plain g.state)
    (h : GraphState.reconcile g.config [] g.state = .ok g.state) (ops : List Operation) :
    GraphState.reconcile g.config [] (g.run ops).state = .ok (g.run ops).state := by
  induction ops generalizing g with
  | nil => exact h
  | cons op rest ih =>
    have hleft := leftBehind_perform g op
    rw [← hleft.config]
    exact ih (hleft.library ▸ hlib) (sane_perform (Regime.tame hT) hlib hg op)
      (hleft.config ▸ reconcile_perform hT hlib hg h op)

/-- A resolved, reloadable state of built-in nodes is built from its snapshot (`Graph.build`). This
is what loading, undo and redo have in common. -/
theorem build_toSnapshot {s : GraphState} (hlib : g.library.types = Library.builtins.types)
    (hconfig : g.config.maxResolvePasses ≠ 1) (hs : Sane g.library.Has Constraints.Plain s)
    (hfixed : GraphState.reconcile g.config [] s = .ok s)
    (hnull : s.Everywhere GraphState.NoNulls) (h : s.Reloadable g.config) :
    g.build s.toSnapshot = .ok s := by
  obtain ⟨s₀, hload, hresolve⟩ := GraphState.reconcile_load_toSnapshot
    (g.library.isBuiltin_of_has hlib) (fun _ _ ht => ht) (fun _ _ ht => ht) hconfig hs.orderly
    hs.wellFormed hfixed hnull h
  rw [build]
  exact bind_eq_ok_iff.mpr ⟨s₀, hload, hresolve⟩

/-- After any operations on a new graph of built-in nodes the state is sane (`Sane`) and resolved:
`sane_run` and `reconcile_run` from the empty graph. -/
theorem sane_resolved_run (hlib : library.types = Library.builtins.types) (config : EngineConfig)
    (ops : List Operation) :
    Sane library.Has Constraints.Plain ((Graph.new library config).run ops).state ∧
      GraphState.reconcile config [] ((Graph.new library config).run ops).state =
        .ok ((Graph.new library config).run ops).state := by
  have hT := Library.tame_of_has hlib
  have hin : (Graph.new library config).library.In library.Has := fun _ _ ht => ht
  exact ⟨sane_run (Regime.tame hT) hin sane_empty ops,
    reconcile_run hT hin sane_empty (GraphState.reconcile_empty config) ops⟩

/-- After any operations on a new graph of built-in nodes, a fresh graph that loads the snapshot
has the same state and answers with the same snapshot, if the graph is reloadable
(`GraphState.Reloadable`) and no property holds `null` (`GraphState.NoNulls`), which is read as no
value at all. -/
theorem load_toSnapshot_run (hlib : library.types = Library.builtins.types)
    (hconfig : config.maxResolvePasses ≠ 1) (ops : List Operation)
    (hg : (Graph.new library config).run ops = g) (hnull : g.state.Everywhere GraphState.NoNulls)
    (h : g.state.Reloadable config) :
    ((Graph.new library config).load g.toSnapshot).1 = .ok g.toSnapshot ∧
      ((Graph.new library config).load g.toSnapshot).2.state = g.state := by
  obtain ⟨hsane, hfixed⟩ := sane_resolved_run hlib config ops
  rw [hg] at hsane hfixed
  have hbuild : (Graph.new library config).build g.toSnapshot = .ok g.state :=
    build_toSnapshot (g := Graph.new library config) hlib hconfig hsane hfixed hnull h
  rw [load, hbuild]
  exact ⟨rfl, rfl⟩

/-- After any operations on a new graph of built-in nodes all constraints are slim. -/
theorem slim_run (hlib : library.types = Library.builtins.types) (config : EngineConfig)
    (ops : List Operation) : Sane library.Has Constraints.Slim
      ((Graph.new library config).run ops).state :=
  sane_run (g := Graph.new library config) (Regime.slim (library.isBuiltin_of_has hlib))
    (fun _ _ ht => ht) sane_empty ops

/-- After any operations on a new graph of built-in nodes the graph is recoverable, if it is
straight at every depth (`GraphState.Straight`). What else `recoverable_of_straight` asks for holds
of every such run (`slim_run`). -/
theorem recoverable_run (hlib : library.types = Library.builtins.types)
    (hlimit : config.maxResolvePasses = 0 ∨ 4 ≤ config.maxResolvePasses) (ops : List Operation)
    (hg : (Graph.new library config).run ops = g)
    (h : g.state.Everywhere GraphState.Straight) :
    g.state.Everywhere (GraphState.Recoverable config) := by
  subst hg
  have hslim := slim_run hlib config ops
  exact GraphState.recoverable_of_straight hlimit hslim.orderly hslim.wellFormed
    (hslim.orderly.mono fun _ h => h.constraints) h

/-! ### A gauge -/

/-- A number, which is compared with another one, and a passthrough. The number is not the default,
and the operator is `<`, which a compare takes only while one of its operands is known to be a
number. -/
def gauge : GraphSnapshot :=
  ⟨[{ NodeSnapshot.bare "n" "IntegerProperty" with
      pads := [{
        id := "value"
        padType := .propertySource
        value := some (.int 3)
        nextPads := [⟨"c", "a"⟩] }] },
    { NodeSnapshot.bare "c" "Compare" with
      pads := [{ id := "operator", padType := .propertySink, value := some (.str "<") }] },
    .bare "p" "Passthrough"]⟩

/-- Puts the gauge into a subgraph, between a number and a display. The passthrough inside feeds
the display outside. -/
def gaugeEdits : List GraphEdit :=
  [.insertNode (some "a") "IntegerProperty" none none,
    .updatePad ⟨"a", "value"⟩ (.int 5),
    .insertNode (some "d") "Display" none none,
    .insertInlineSubgraph (some "s") none gauge [] [⟨⟨"p", "output"⟩, ⟨"d", "value"⟩⟩] [] none
      none]

/-- Links the number to the passthrough in the subgraph, so that its type goes in at one pad of the
subgraph and out at another. -/
def feedGauge : GraphEdit := .connectPad ⟨⟨"a", "value"⟩, ⟨"s", "p:input"⟩⟩

/-- The number and the operator are there, in a graph that leads straight on at every depth
(`GraphState.Straight`) and has a subgraph. -/
def HoldsGauge (s : GraphState) : Prop :=
  s.Everywhere GraphState.Straight ∧ s.Everywhere GraphState.NoNulls ∧
    (s.node? "s").any (·.isSubgraph) = true ∧
    ((s.pad? ⟨"a", "value"⟩).bind (·.value)).bind Json.int64? = some 5 ∧
    ((s.pad? ⟨"s", "c:operator"⟩).bind (·.value)).bind Json.str? = some "<"

instance : DecidablePred HoldsGauge := fun _ => inferInstanceAs (Decidable (_ ∧ _ ∧ _ ∧ _ ∧ _))

/-- A number comes out of the passthrough in the second graph, and anything in the first: the pad
of the subgraph declares `[.integer none none]` there, and nothing here. -/
def FeedsGauge (s t : GraphState) : Prop :=
  (s.declared? ⟨"s", "p:output"⟩).any (·.same none) = true ∧
    (t.declared? ⟨"s", "p:output"⟩).any (·.same (some [.integer none none])) = true

instance (s : GraphState) : DecidablePred (FeedsGauge s) := fun _ =>
  inferInstanceAs (Decidable (_ ∧ _))

/-- The gauge comes back with its number and its operator, by `load_toSnapshot_run`. The condition
holds because the graph is straight (`recoverable_run`). -/
theorem load_toSnapshot_gauge : ∃ g,
    (Graph.new Library.builtins {}).run ((gaugeEdits ++ [feedGauge]).map .edit) = g ∧
      HoldsGauge g.state ∧
      ((Graph.new Library.builtins {}).load g.toSnapshot).1 = .ok g.toSnapshot ∧
      ((Graph.new Library.builtins {}).load g.toSnapshot).2.state = g.state := by
  have hholds : HoldsGauge ((Graph.new Library.builtins {}).run
      ((gaugeEdits ++ [feedGauge]).map .edit)).state :=
    run_of_test _ _ _ (by decide +kernel)
  exact ⟨_, rfl, hholds, load_toSnapshot_run rfl (by decide) _ rfl hholds.2.1
    (.inr (recoverable_run rfl (.inl rfl) _ rfl hholds.1))⟩

end Graph

end Patchbay
