import Mathlib.Data.List.Count
import Patchbay.Proofs.Run.Moves

/-!
# Every node has one ending

What an observer of a run is told about its nodes, at whatever moment and in whatever order things
happen: each node begins once and ends at most once, after it began; a run that is over has told of
every node, and ends with the word that the graph stopped.

That is a property of lifecycles (`Lifecycle.Tells.ends`), and a run has it because its lifecycle
evolves from a fresh one in whatever order its processes take turns (`FlatGraph.ends_run`).
-/

namespace Patchbay

namespace GraphEvent

/-- The node whose ending is reported. -/
def ended? : GraphEvent → Option String
  | .nodeStopped _ node | .nodeFailed _ node _ => some node
  | _ => none

/-- Whether the event is about a node. -/
def concerns (n : String) : GraphEvent → Bool
  | .nodeStarted _ node | .nodeStopped _ node | .nodeFailed _ node _ => node == n
  | _ => false

@[simp] theorem ended?_event (run node : String) (ending : Ending) :
    (ending.event run node).ended? = some node := by
  cases ending <;> rfl

theorem event_ne_started (run node other n : String) (ending : Ending) :
    ending.event run node ≠ .nodeStarted other n := by
  cases ending <;> simp [Ending.event]

theorem event_ne_graphStopped (run node other : String) (ending : Ending) :
    ending.event run node ≠ .graphStopped other := by
  cases ending <;> simp [Ending.event]

@[simp] theorem concerns_event (run node n : String) (ending : Ending) :
    (ending.event run node).concerns n = (node == n) := by
  cases ending <;> rfl

end GraphEvent

namespace Lifecycle

variable {l l' : Lifecycle} {nodes : List String} {endings : List (String × Ending)} {n : String}

/-- What is told of the nodes of a run: one beginning and at most one ending of each, an ending of
every node when the run is over, and one word of the whole graph, which comes last. -/
structure Ends (nodes : List String) (l : Lifecycle) : Prop where
  started : ∀ n ∈ nodes, l.events.count (.nodeStarted l.run n) = 1
  /-- No ending is reported twice. -/
  ended_le : ∀ n, l.events.countP (·.ended? == some n) ≤ 1
  /-- When the run is over, the ending of every node was reported. -/
  ended : l.isOver = true → ∀ n ∈ nodes, l.events.countP (·.ended? == some n) = 1
  started_before : ∀ before e later n, l.events = before ++ e :: later → e.ended? = some n →
    .nodeStarted l.run n ∈ before
  /-- The end of the run is told once, and after all else. -/
  last : l.isOver = true →
    ∃ before, l.events = before ++ [.graphStopped l.run] ∧ .graphStopped l.run ∉ before
  /-- A node is running until its ending is reported. -/
  state : ∀ n ∈ nodes, l.state? n =
    some (if ∃ e ∈ l.events, e.ended? = some n then .stopped else .running)
  /-- A node that is stopped never runs again. -/
  stays : ∀ l' n, l.Evolves l' → l.state? n = some .stopped → l'.state? n = some .stopped
  /-- The failures are those that were reported, with the same messages. -/
  failures : ∀ n message, l.failure? n = some message ↔ .nodeFailed l.run n message ∈ l.events
  /-- An ending that is noted says nothing about the other nodes. -/
  noted : ∀ node ending n, n ≠ node → (l.note node ending).state? n = l.state? n ∧
    (l.note node ending).events.filter (·.concerns n) = l.events.filter (·.concerns n)
  /-- Where failures are isolated, the supervisor cuts nobody off before it is asked to, and
  whoever is active remains as he was. -/
  isolated : l.policy = .isolate → l.stopRequested = false → l.isOver = false →
    l.supervise.2 = [] ∧ l.supervise.1.active = l.active ∧ ∀ n ∈ l.active,
      l.supervise.1.state? n = l.state? n ∧
        l.supervise.1.events.filter (·.concerns n) = l.events.filter (·.concerns n)

/-! ### What the endings tell -/

theorem lookup_map_self {α : Type} (f : String → α) (nodes : List String) (n : String) :
    (nodes.map fun n => (n, f n)).lookup n = if n ∈ nodes then some (f n) else none := by
  induction nodes with
  | nil => rfl
  | cons node nodes ih =>
    by_cases h : n = node
    · simp [h]
    · have hne : (n == node) = false := by simpa using h
      simp [List.lookup_cons, h, hne, ih]

theorem lookup_eq_some_iff {α : Type} {table : List (String × α)} (h : (table.map (·.1)).Nodup)
    {a : α} :
    table.lookup n = some a ↔ (n, a) ∈ table := by
  induction table with
  | nil => simp
  | cons p table ih =>
    obtain ⟨hp, htable⟩ := List.nodup_cons.mp h
    obtain ⟨node, b⟩ := p
    by_cases hn : n = node
    · subst hn
      have hnot : (n, a) ∉ table := fun hmem => hp (List.mem_map.mpr ⟨_, hmem, rfl⟩)
      simp [hnot, eq_comm]
    · have hne : (n == node) = false := by simpa using hn
      simp [List.lookup_cons, hn, hne, ih htable]

namespace Tells

theorem nodup (h : Tells nodes l endings) (hnodes : nodes.Nodup) : (l.places endings).Nodup := by
  obtain ⟨kept, hperm, hsub⟩ := h.places
  exact hperm.nodup_iff.mp (hnodes.sublist hsub)

theorem endings_nodup (h : Tells nodes l endings) (hnodes : nodes.Nodup) :
    (endings.map (·.1)).Nodup :=
  (h.nodup hnodes).sublist (List.sublist_append_right _ _)

theorem mem_nodes (h : Tells nodes l endings) (hn : n ∈ endings.map (·.1)) : n ∈ nodes :=
  h.places.subset (List.mem_append_right _ hn)

theorem state? (h : Tells nodes l endings) (n : String) : l.state? n =
    if n ∈ nodes then some (if n ∈ endings.map (·.1) then .stopped else .running) else none := by
  rw [Lifecycle.state?, h.states]
  exact lookup_map_self _ nodes n

theorem mem_events (h : Tells nodes l endings) {e : GraphEvent} : e ∈ l.events ↔
    (∃ n ∈ nodes, e = .nodeStarted l.run n) ∨ (∃ p ∈ endings, e = p.2.event l.run p.1) ∨
      l.isOver = true ∧ e = .graphStopped l.run := by
  rw [h.events, List.mem_append, List.mem_append, or_assoc]
  simp only [List.mem_map, List.mem_ite_nil_right, List.mem_singleton, eq_comm]

/-- The nodes whose endings are told. -/
theorem exists_ended_iff (h : Tells nodes l endings) :
    (∃ e ∈ l.events, e.ended? = some n) ↔ n ∈ endings.map (·.1) := by
  constructor
  · rintro ⟨e, he, hend⟩
    rcases h.mem_events.mp he with ⟨node, -, rfl⟩ | ⟨p, hp, rfl⟩ | ⟨-, rfl⟩
    · exact absurd hend (by simp [GraphEvent.ended?])
    · rw [GraphEvent.ended?_event] at hend
      exact List.mem_map.mpr ⟨p, hp, Option.some_inj.mp hend⟩
    · exact absurd hend (by simp [GraphEvent.ended?])
  · intro hn
    obtain ⟨p, hp, rfl⟩ := List.mem_map.mp hn
    exact ⟨_, h.mem_events.mpr (.inr (.inl ⟨p, hp, rfl⟩)), by simp⟩

theorem countP_ended (h : Tells nodes l endings) (n : String) :
    l.events.countP (·.ended? == some n) = (endings.map (·.1)).count n := by
  have hstarted : (nodes.map (GraphEvent.nodeStarted l.run)).countP (·.ended? == some n) = 0 := by
    simp [List.countP_map, List.countP_eq_zero, GraphEvent.ended?]
  have hover : (if l.isOver then [GraphEvent.graphStopped l.run] else []).countP
      (·.ended? == some n) = 0 := by
    split <;> simp [GraphEvent.ended?]
  rw [h.events, List.countP_append, List.countP_append, hstarted, hover, List.countP_map,
    List.count, List.countP_map]
  simp [Function.comp_def]

theorem count_started (h : Tells nodes l endings) (hnodes : nodes.Nodup) (hn : n ∈ nodes) :
    l.events.count (.nodeStarted l.run n) = 1 := by
  have hends : (endings.map fun p => p.2.event l.run p.1).count (.nodeStarted l.run n) = 0 := by
    refine List.count_eq_zero.mpr fun hmem => ?_
    obtain ⟨p, -, hp⟩ := List.mem_map.mp hmem
    exact GraphEvent.event_ne_started _ _ _ _ _ hp
  have hover : (if l.isOver then [GraphEvent.graphStopped l.run] else []).count
      (.nodeStarted l.run n) = 0 := by
    split <;> simp
  have hinj : Function.Injective (GraphEvent.nodeStarted l.run) := fun a b hab => by
    simpa using hab
  rw [h.events, List.count_append, List.count_append, hends, hover,
    List.count_map_of_injective _ _ hinj, List.count_eq_one_of_mem hnodes hn]

/-- An ending is told after all nodes have been started, for these events stand first. -/
theorem started_before (h : Tells nodes l endings) {before later : List GraphEvent}
    {e : GraphEvent}
    (hevents : l.events = before ++ e :: later) (hend : e.ended? = some n) :
    .nodeStarted l.run n ∈ before := by
  have hn : n ∈ nodes := h.mem_nodes (h.exists_ended_iff.mp ⟨e, by simp [hevents], hend⟩)
  have hstarted : GraphEvent.nodeStarted l.run n ∈ nodes.map (.nodeStarted l.run) :=
    List.mem_map.mpr ⟨n, hn, rfl⟩
  have hsplit := h.events.symm.trans hevents
  rw [List.append_assoc] at hsplit
  rcases List.append_eq_append_iff.mp hsplit with ⟨rest, rfl, -⟩ | ⟨rest, hnodes, hrest⟩
  · exact List.mem_append_left _ hstarted
  · cases rest with
    | nil => rwa [hnodes, List.append_nil] at hstarted
    | cons first rest =>
      -- The ending would be among those that say that a node was started.
      obtain ⟨rfl, -⟩ := List.cons.inj hrest
      have hmem : e ∈ nodes.map (.nodeStarted l.run) := by simp [hnodes]
      obtain ⟨node, -, rfl⟩ := List.mem_map.mp hmem
      exact absurd hend (by simp [GraphEvent.ended?])

theorem last (h : Tells nodes l endings) (hover : l.isOver = true) :
    ∃ before, l.events = before ++ [.graphStopped l.run] ∧ .graphStopped l.run ∉ before := by
  refine ⟨_, by rw [h.events, if_pos hover], fun hmem => ?_⟩
  rcases List.mem_append.mp hmem with hmem | hmem
  · obtain ⟨node, -, heq⟩ := List.mem_map.mp hmem
    exact absurd heq (by simp)
  · obtain ⟨p, -, heq⟩ := List.mem_map.mp hmem
    exact GraphEvent.event_ne_graphStopped _ _ _ _ heq

theorem failures_nodup (h : Tells nodes l endings) (hnodes : nodes.Nodup) :
    (l.failures.map (·.1)).Nodup := by
  -- A node that finished is left out of the failures, one that failed is in them once.
  have hsub : ∀ ps : List (String × Ending),
      ((ps.filterMap fun p => p.2.message?.map (p.1, ·)).map (·.1)).Sublist (ps.map (·.1)) := by
    intro ps
    induction ps with
    | nil => exact .slnil
    | cons p ps ih =>
      obtain ⟨node, ending⟩ := p
      cases ending with
      | finished => exact ih.cons _
      | failed message => exact ih.cons_cons _
  rw [h.failures]
  exact (h.endings_nodup hnodes).sublist (hsub endings)

theorem failure?_eq_some_iff (h : Tells nodes l endings) (hnodes : nodes.Nodup)
    (n message : String) :
    l.failure? n = some message ↔ .nodeFailed l.run n message ∈ l.events := by
  rw [failure?, lookup_eq_some_iff (h.failures_nodup hnodes), h.failures, h.mem_events,
    List.mem_filterMap]
  constructor
  · rintro ⟨⟨node, ending⟩, hp, hmessage⟩
    refine .inr (.inl ⟨(node, ending), hp, ?_⟩)
    cases ending with
    | finished => exact absurd hmessage (by simp [Ending.message?])
    | failed m =>
      obtain ⟨rfl, rfl⟩ : node = n ∧ m = message := by simpa [Ending.message?] using hmessage
      rfl
  · rintro (⟨node, -, heq⟩ | ⟨⟨node, ending⟩, hp, heq⟩ | ⟨-, heq⟩)
    · exact absurd heq (by simp)
    · refine ⟨(node, ending), hp, ?_⟩
      cases ending with
      | finished => exact absurd heq (by simp [Ending.event])
      | failed m =>
        obtain ⟨rfl, rfl⟩ : n = node ∧ message = m := by simpa [Ending.event] using heq
        rfl
    · exact absurd heq (by simp)

theorem stays (h : Tells nodes l endings) (hnodes : nodes.Nodup) (hevolves : l.Evolves l')
    (hstopped : l.state? n = some .stopped) : l'.state? n = some .stopped := by
  obtain ⟨more, h'⟩ := h.evolves hnodes hevolves
  rw [h.state?] at hstopped
  obtain ⟨hn, hstate⟩ := Option.ite_none_right_eq_some.mp hstopped
  have hmem : n ∈ endings.map (·.1) := by
    by_contra hmem
    simp [hmem] at hstate
  rw [h'.state?, if_pos hn, List.map_append, if_pos (List.mem_append_left _ hmem)]

end Tells

/-! ### What an ending says nothing about -/

theorem state?_note (l : Lifecycle) {node : String} (hn : n ≠ node) (ending : Ending) :
    (l.note node ending).state? n = l.state? n := by
  rw [state?, state?, note_states]
  induction l.states with
  | nil => rfl
  | cons p states ih =>
    obtain ⟨other, state⟩ := p
    by_cases hother : other = node
    · subst hother
      have hne : (n == other) = false := by simpa using hn
      simpa [List.lookup_cons, hne] using ih
    · have hne : ¬ (other == node) = true := by simpa using hother
      rw [List.map_cons, if_neg hne, List.lookup_cons, List.lookup_cons, ih]

theorem concerned_note (l : Lifecycle) {node : String} (hn : n ≠ node) (ending : Ending) :
    (l.note node ending).events.filter (·.concerns n) = l.events.filter (·.concerns n) := by
  simp [hn.symm]

theorem foldl_note_of_not_mem {α : Type} (view : Lifecycle → α)
    (hview : ∀ (l : Lifecycle) (node : String) (ending : Ending), n ≠ node →
      view (l.note node ending) = view l)
    (l : Lifecycle) {ps : List (String × Ending)} (hn : n ∉ ps.map (·.1)) :
    view (ps.foldl (fun l p => l.note p.1 p.2) l) = view l := by
  induction ps generalizing l with
  | nil => rfl
  | cons p ps ih =>
    rw [List.map_cons, List.mem_cons, not_or] at hn
    rw [List.foldl_cons, ih _ hn.2, hview _ _ _ hn.1]

/-- Where failures are isolated, a look of the supervisor leaves those alone that are active: the
tasks of other nodes go on. -/
theorem Tells.isolated (h : Tells nodes l endings) (hnodes : nodes.Nodup)
    (hpolicy : l.policy = .isolate)
    (hstop : l.stopRequested = false) (hover : l.isOver = false) :
    l.supervise.2 = [] ∧ l.supervise.1.active = l.active ∧ ∀ n ∈ l.active,
      l.supervise.1.state? n = l.state? n ∧
        l.supervise.1.events.filter (·.concerns n) = l.events.filter (·.concerns n) := by
  have habort : l.mustAbort = false := by
    rw [mustAbort, hstop, hpolicy]
    rfl
  have hactive : l.noted.active = l.active := by
    rw [Lifecycle.noted, habort]
    rfl
  rw [supervise_of_not_isOver hover, habort]
  refine ⟨rfl, ?_, fun n hn => ?_⟩
  · dsimp only
    split
    · rw [conclude_active, hactive]
    · exact hactive
  · -- Somebody is active, so the run goes on, and no ending of his is noted.
    have hgoes : ¬ l.noted.active.isEmpty = true := by
      rw [hactive, List.isEmpty_iff]
      exact List.ne_nil_of_mem hn
    have hplaces := h.nodup hnodes
    rw [Lifecycle.places, List.append_assoc] at hplaces
    have hother : n ∉ l.unnoted.map (·.1) := fun hmem =>
      (List.nodup_append.mp hplaces).2.2 _ hn _ (List.mem_append_left _ hmem) rfl
    dsimp only
    rw [if_neg hgoes]
    constructor
    · exact foldl_note_of_not_mem (·.state? n)
        (fun l _ ending hne => state?_note l hne ending) _ hother
    · exact foldl_note_of_not_mem (fun l => l.events.filter (·.concerns n))
        (fun l _ ending hne => concerned_note l hne ending) _ hother

/-! ### Every moment -/

/-- In whatever order things happen to the nodes of a run, each of them has one ending: what
`Lifecycle.Tells` says of the places of nodes comes to `Lifecycle.Ends`. -/
theorem Tells.ends (h : Tells nodes l endings) (hnodes : nodes.Nodup) : Ends nodes l where
  started n hn := h.count_started hnodes hn
  ended_le n := by
    rw [h.countP_ended]
    exact List.nodup_iff_count_le_one.mp (h.endings_nodup hnodes) n
  ended hover n hn := by
    rw [h.countP_ended]
    exact List.count_eq_one_of_mem (h.endings_nodup hnodes) ((h.concluded hover).2.2 hn)
  started_before before e later n hevents hend := h.started_before hevents hend
  last hover := h.last hover
  state n hn := by
    rw [h.state?, if_pos hn]
    simp only [h.exists_ended_iff]
  stays l' n hevolves hstopped := h.stays hnodes hevolves hstopped
  failures n message := h.failure?_eq_some_iff hnodes n message
  noted node ending n hn := ⟨state?_note l hn ending, concerned_note l hn ending⟩
  isolated hpolicy hstop hover := h.isolated hnodes hpolicy hstop hover

theorem ends_of_start (run : String) (policy : ErrorPolicy) (hnodes : nodes.Nodup)
    (hevolves : (start run policy nodes).Evolves l) : Ends nodes l := by
  obtain ⟨endings, h⟩ := (tells_start run policy nodes).evolves hnodes hevolves
  exact h.ends hnodes

end Lifecycle

/-! ### Runs -/

theorem Run.Starts.lifecycle {g : FlatGraph} {r : Run} (h : Run.Starts g r) :
    ∃ run policy, r.lifecycle = Lifecycle.start run policy (g.nodes.map (·.id)) := by
  have hstart : ∀ {r : Run} {config services id hasScheduler},
      Run.start g config services id hasScheduler = .ok r →
        r.lifecycle = Lifecycle.start id config.errorPolicy (g.nodes.map (·.id)) := by
    intro r config services id hasScheduler h
    unfold Run.start at h
    split at h
    · obtain ⟨-, -, rfl⟩ := map_eq_ok_iff.mp h
      rfl
    · exact absurd h (by simp)
  cases h with
  | plain h => exact ⟨_, _, hstart h⟩
  | served h =>
    obtain ⟨r, hr, rfl⟩ := map_eq_ok_iff.mp h
    refine ⟨_, _, Eq.trans ?_ (hstart hr)⟩
    unfold Run.wake
    split <;> rfl

/-- In whatever order its processes take turns, and whatever else happens to its tasks after that
(`Lifecycle.Evolves`), every node of a run has one ending (`Lifecycle.Ends`): a result, a failure,
a panic or a cut-off, after which the end of the whole run is reported once. -/
theorem FlatGraph.ends_run {g : FlatGraph} {r : Run} {l : Lifecycle}
    (hids : (g.nodes.map (·.id)).Nodup)
    (hstart : Run.Starts g r) (ms : List Move) (hevolves : (r.after ms).lifecycle.Evolves l) :
    l.Ends (g.nodes.map (·.id)) := by
  obtain ⟨run, policy, hlifecycle⟩ := hstart.lifecycle
  have hmoved := (r.keeps_after ms).lifecycle
  rw [hlifecycle] at hmoved
  exact Lifecycle.ends_of_start run policy hids (hmoved.trans hevolves)

/-- A node that fails, and one that stays until it is cut off. The first is not linked to the
second. -/
def FlatGraph.brief : FlatGraph where
  nodes := [
    ⟨"a", "Fails",
      { (default : NodeType) with routine := .fail fun node => .runtime node "refused" }, []⟩,
    ⟨"b", "Stays", default, []⟩]
  links := []

/-- The first node fails before the supervisor looks, and the other one begins before the stop. -/
def FlatGraph.briefMoves : List Move :=
  [.turn (.node "a"), .turn .supervisor, .turn (.node "b"), .stop, .turn .supervisor]

/-- The failure is reported when the supervisor looks, and the end of the other node after the
stop. -/
theorem FlatGraph.ends_run_brief : (brief.nodes.map (·.id)).Nodup ∧
    ∃ r l, Run.start brief {} {} "run" true = .ok r ∧ (r.after briefMoves).lifecycle.Evolves l ∧
      l.Ends (brief.nodes.map (·.id)) ∧ l.isOver = true ∧
      l.events = [.nodeStarted "run" "a", .nodeStarted "run" "b",
        .nodeFailed "run" "a" "Node 'a' failed: refused", .nodeStopped "run" "b",
        .graphStopped "run"] := by
  have hids : (brief.nodes.map (·.id)).Nodup := by decide
  obtain ⟨r, hr⟩ : ∃ r, Run.start brief {} {} "run" true = .ok r := ⟨_, rfl⟩
  refine ⟨hids, r, _, hr, .refl, ends_run hids (.plain hr) briefMoves .refl, ?_⟩
  obtain rfl := Except.ok.inj hr
  exact ⟨rfl, rfl⟩

end Patchbay
