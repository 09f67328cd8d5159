import Mathlib.Data.List.Nodup
import Mathlib.Data.List.Perm.Subperm
import Mathlib.Logic.Relation
import Patchbay.Run.Lifecycle

/-!
# How a lifecycle evolves

Tasks end, are cut off, or are asked to end, in any order, and the supervisor takes note of their
endings one at a time; once no task is left it sweeps up whoever still counts as running, and
reports the end of the run. `Lifecycle.Step` allows all of that in any order that the supervisor
can meet, and `Lifecycle.supervise` as a whole.

At every moment each node is in at most one place: its task is active, its ending waits to be
noted, or its ending was reported (`Lifecycle.Tells`). A sweep reports just the nodes that are in
none of these, since their tasks were cut off. So nobody is reported twice, and nobody is missed.
-/

namespace Patchbay

/-- What is reported when a node ends, with one kind of event for each ending. -/
def Ending.event (run node : String) : Ending → GraphEvent
  | .finished => .nodeStopped run node
  | .failed message => .nodeFailed run node message

/-- The message of a failure. -/
def Ending.message? : Ending → Option String
  | .finished => none
  | .failed message => some message

namespace Lifecycle

/-- One thing that happens to the nodes of a run, or that the supervisor does: a task ends, is cut
off or is asked to end, an ending is noted, or a node is swept up. -/
inductive Step : Lifecycle → Lifecycle → Prop where
  /-- A task returns, fails or panics. -/
  | ended (l : Lifecycle) (node : String) (ending : Ending) : Step l (l.taskEnded node ending)
  /-- Some tasks are cut off; they do not tell which they were. -/
  | cut (l : Lifecycle) (keep : String → Bool) : Step l { l with active := l.active.filter keep }
  | stop (l : Lifecycle) : Step l l.requestStop
  /-- The supervisor takes note of one of the endings that it has not noted. -/
  | note (l : Lifecycle) {before after : List (String × Ending)} {node : String} {ending : Ending}
      (hunnoted : l.unnoted = before ++ (node, ending) :: after) (hover : l.isOver = false) :
      Step l ({ l with unnoted := before ++ after }.note node ending)
  /-- No task is left, and a node still counts as running. -/
  | sweep (l : Lifecycle) {node : String} (hactive : l.active = []) (hunnoted : l.unnoted = [])
      (hover : l.isOver = false) (hnode : (node, .running) ∈ l.states) :
      Step l (l.note node .finished)
  /-- No task is left, and no node counts as running. -/
  | conclude (l : Lifecycle) (hactive : l.active = []) (hunnoted : l.unnoted = [])
      (hover : l.isOver = false) (hstates : ∀ p ∈ l.states, p.2 ≠ .running) :
      Step l { l.report (.graphStopped l.run) with isOver := true }
  /-- The supervisor does all it can. -/
  | supervise (l : Lifecycle) : Step l l.supervise.1

/-- What may become of a lifecycle, by any number of steps (`Lifecycle.Step`). -/
def Evolves : Lifecycle → Lifecycle → Prop := Relation.ReflTransGen Step

variable {l l' : Lifecycle} {nodes : List String} {endings : List (String × Ending)}
  {node n : String} {ending : Ending}

/-! ### Taking note -/

@[simp] theorem note_events (l : Lifecycle) (node : String) (ending : Ending) :
    (l.note node ending).events = l.events ++ [ending.event l.run node] := by
  cases ending <;> rfl

@[simp] theorem note_failures (l : Lifecycle) (node : String) (ending : Ending) :
    (l.note node ending).failures = l.failures ++ (ending.message?.map (node, ·)).toList := by
  cases ending with
  | finished => exact (List.append_nil _).symm
  | failed message => rfl

@[simp] theorem note_states (l : Lifecycle) (node : String) (ending : Ending) :
    (l.note node ending).states =
      l.states.map fun p => if p.1 == node then (p.1, .stopped) else p := by
  cases ending <;> rfl

@[simp] theorem note_run (l : Lifecycle) (node : String) (ending : Ending) :
    (l.note node ending).run = l.run := by
  cases ending <;> rfl

@[simp] theorem note_active (l : Lifecycle) (node : String) (ending : Ending) :
    (l.note node ending).active = l.active := by
  cases ending <;> rfl

@[simp] theorem note_unnoted (l : Lifecycle) (node : String) (ending : Ending) :
    (l.note node ending).unnoted = l.unnoted := by
  cases ending <;> rfl

@[simp] theorem note_isOver (l : Lifecycle) (node : String) (ending : Ending) :
    (l.note node ending).isOver = l.isOver := by
  cases ending <;> rfl

/-! ### Where the nodes are -/

/-- The nodes whose tasks are active, those whose endings wait to be noted, and those whose endings
were reported. A node that occurs twice among these would be reported twice. -/
def places (l : Lifecycle) (endings : List (String × Ending)) : List String :=
  l.active ++ l.unnoted.map (·.1) ++ endings.map (·.1)

/-- What a lifecycle says of its nodes, given the endings that were reported. It is the invariant
of `Lifecycle.Step`: the events, the table of failures and the places of nodes agree. -/
structure Tells (nodes : List String) (l : Lifecycle) (endings : List (String × Ending)) :
    Prop where
  events : l.events = nodes.map (.nodeStarted l.run) ++ endings.map
    (fun p => p.2.event l.run p.1) ++ if l.isOver then [.graphStopped l.run] else []
  states : l.states = nodes.map fun n => (n, if n ∈ endings.map (·.1) then .stopped else .running)
  failures : l.failures = endings.filterMap fun p => p.2.message?.map (p.1, ·)
  /-- Every node is in one place at most. -/
  places : (l.places endings).Subperm nodes
  concluded : l.isOver = true → l.active = [] ∧ l.unnoted = [] ∧ nodes ⊆ endings.map (·.1)

/-- A member can be put in front of the others. -/
theorem cons_filter_ne_subperm {names : List String} (h : node ∈ names) :
    (node :: names.filter (· != node)).Subperm names := by
  refine List.subperm_ext_iff.mpr fun n _ => ?_
  by_cases hn : node = n
  · subst hn
    rw [List.count_cons_self, List.count_eq_zero_of_not_mem (by simp)]
    exact List.count_pos_iff.mpr h
  · exact Nat.le_of_eq
      (by rw [List.count_cons_of_ne hn, List.count_filter (by simpa using Ne.symm hn)])

theorem tells_start (run : String) (policy : ErrorPolicy) (nodes : List String) :
    Tells nodes (start run policy nodes) [] where
  events := by simp [start]
  states := by simp [start]
  failures := rfl
  places := by simpa [Lifecycle.places, start] using List.Subperm.refl nodes
  concluded h := absurd h (by simp [start])

theorem Tells.ended (h : Tells nodes l endings) (node : String) (ending : Ending) :
    Tells nodes (l.taskEnded node ending) endings := by
  unfold taskEnded
  split
  · rename_i hmem
    refine ⟨h.events, h.states, h.failures, ?_, fun hover => ?_⟩
    · refine List.Subperm.trans ?_ h.places
      have hactive := cons_filter_ne_subperm (List.contains_iff_mem.mp hmem)
      have hperm : (l.active.filter (· != node) ++ (l.unnoted ++ [(node, ending)]).map (·.1)).Perm
          (node :: l.active.filter (· != node) ++ l.unnoted.map (·.1)) := by
        rw [List.map_append, ← List.append_assoc]
        exact List.perm_append_comm
      exact (hperm.subperm.trans (hactive.append (List.Subperm.refl _))).append
        (List.Subperm.refl _)
    · rw [(h.concluded hover).1] at hmem
      exact absurd hmem (by simp)
  · exact h

theorem Tells.cut (h : Tells nodes l endings) (keep : String → Bool) :
    Tells nodes { l with active := l.active.filter keep } endings := by
  refine ⟨h.events, h.states, h.failures, ?_, fun hover => ?_⟩
  · refine List.Subperm.trans (List.Sublist.subperm ?_) h.places
    exact (List.filter_sublist.append_right _).append_right _
  · obtain ⟨hactive, hrest⟩ := h.concluded hover
    exact ⟨by simp [hactive], hrest⟩

/-- An ending is reported of a node that is in no other place (`Lifecycle.places`). -/
theorem Tells.note (h : Tells nodes l endings) (hover : l.isOver = false)
    (hplaces : (l.places (endings ++ [(node, ending)])).Subperm nodes) :
    Tells nodes (l.note node ending) (endings ++ [(node, ending)]) where
  events := by simp [h.events, hover]
  states := by
    rw [note_states, h.states, List.map_map]
    refine List.map_congr_left fun n _ => ?_
    have hmem : n ∈ (endings ++ [(node, ending)]).map (·.1) ↔ n ∈ endings.map (·.1) ∨
        n = node := by
      simp only [List.map_append, List.mem_append, List.map_cons, List.map_nil, List.mem_singleton]
    simp only [Function.comp_apply, hmem, beq_iff_eq]
    by_cases hn : n = node
    · simp [hn]
    · rw [if_neg hn]
      simp only [or_iff_left hn]
  failures := by
    rw [note_failures, h.failures, List.filterMap_append]
    cases ending <;> rfl
  places := by
    rw [Lifecycle.places] at hplaces ⊢
    rwa [note_active, note_unnoted]
  concluded hover' := absurd hover' (by simp [hover])

theorem Tells.noteUnnoted (h : Tells nodes l endings) {before after : List (String × Ending)}
    (hunnoted : l.unnoted = before ++ (node, ending) :: after) (hover : l.isOver = false) :
    Tells nodes ({ l with unnoted := before ++ after }.note node ending)
    (endings ++ [(node, ending)]) := by
  have hplaces :
      (l.active ++ (before ++ after).map (·.1) ++ (endings ++ [(node, ending)]).map (·.1)).Perm
      (l.places endings) := by
    have hlast :
        (l.active ++ (before ++ after).map (·.1) ++ (endings ++ [(node, ending)]).map (·.1)).Perm
        (node :: (l.active ++ (before ++ after).map (·.1) ++ endings.map (·.1))) := by
      have hmap : (endings ++ [(node, ending)]).map (·.1) = endings.map (·.1) ++ [node] :=
        List.map_append
      rw [hmap, ← List.append_assoc]
      exact List.perm_append_singleton _ _
    have hmiddle : (l.places endings).Perm
        (node :: (l.active ++ (before ++ after).map (·.1) ++ endings.map (·.1))) := by
      simp only [Lifecycle.places, hunnoted, List.map_append, List.map_cons, List.append_assoc,
        List.cons_append]
      rw [← List.append_assoc, ← List.append_assoc]
      exact List.perm_middle
    exact hlast.trans hmiddle.symm
  have hfewer : Tells nodes { l with unnoted := before ++ after } endings := by
    refine ⟨h.events, h.states, h.failures, List.Subperm.trans (List.Sublist.subperm ?_) h.places,
      ?_⟩
    · rw [Lifecycle.places, Lifecycle.places, hunnoted]
      refine List.Sublist.append_right (List.Sublist.append_left (List.Sublist.map _ ?_) _) _
      exact (List.sublist_cons_self _ _).append_left _
    · exact fun hover' => absurd hover' (by simp [hover])
  exact hfewer.note hover (hplaces.subperm.trans h.places)

/-- A node that still counts as running when no task is left is noted as finished, for its task was
cut off. -/
theorem Tells.sweep (h : Tells nodes l endings) (hactive : l.active = [])
    (hunnoted : l.unnoted = [])
    (hover : l.isOver = false) (hnode : (node, .running) ∈ l.states) :
    Tells nodes (l.note node .finished) (endings ++ [(node, .finished)]) := by
  rw [h.states] at hnode
  obtain ⟨n, hn, heq⟩ := List.mem_map.mp hnode
  obtain ⟨rfl, hstate⟩ := Prod.mk.inj heq
  have hmem : n ∉ endings.map (·.1) := fun hmem => by simp [hmem] at hstate
  refine h.note hover ?_
  have hplaces := h.places
  rw [Lifecycle.places, hactive, hunnoted] at hplaces ⊢
  rw [List.map_append]
  refine List.subperm_ext_iff.mpr fun m hm => ?_
  by_cases heq : n = m
  · subst heq
    simpa [List.count_append, List.count_eq_zero_of_not_mem hmem] using List.count_pos_iff.mpr hn
  · simpa [List.count_append, List.count_singleton, heq] using hplaces.count_le m

theorem Tells.conclude (h : Tells nodes l endings) (hactive : l.active = [])
    (hunnoted : l.unnoted = [])
    (hover : l.isOver = false) (hstates : ∀ p ∈ l.states, p.2 ≠ .running) :
    Tells nodes { l.report (.graphStopped l.run) with isOver := true } endings where
  events := by simp [report, h.events, hover]
  states := h.states
  failures := h.failures
  places := h.places
  concluded _ := by
    refine ⟨hactive, hunnoted, fun n hn => ?_⟩
    by_contra hmem
    rw [h.states] at hstates
    exact hstates (n, .running) (List.mem_map.mpr ⟨n, hn, by simp only [if_neg hmem]⟩) rfl

/-! ### The supervisor -/

/-- What noting an ending leaves alone, noting several leaves alone. -/
theorem foldl_note {α : Type} {view : Lifecycle → α}
    (hview : ∀ l node ending, view (l.note node ending) = view l) (l : Lifecycle)
    (ps : List (String × Ending)) : view (ps.foldl (fun l p => l.note p.1 p.2) l) = view l := by
  induction ps generalizing l with
  | nil => rfl
  | cons p ps ih => rw [List.foldl_cons, ih, hview]

@[simp] theorem noteAll_active (l : Lifecycle) : l.noteAll.active = l.active :=
  foldl_note note_active _ _

@[simp] theorem noteAll_unnoted (l : Lifecycle) : l.noteAll.unnoted = [] :=
  foldl_note note_unnoted _ _

@[simp] theorem noteAll_isOver (l : Lifecycle) : l.noteAll.isOver = l.isOver :=
  foldl_note note_isOver _ _

/-- The supervisor notes the endings one after the other. -/
theorem Tells.noteAll (h : Tells nodes l endings) (hover : l.isOver = false) :
    Tells nodes l.noteAll (endings ++ l.unnoted) := by
  have hfold : ∀ (ps : List (String × Ending)) (l : Lifecycle) (endings : List (String × Ending)),
      l.isOver = false → Tells nodes { l with unnoted := ps } endings →
        Tells nodes (ps.foldl (fun l p => l.note p.1 p.2) { l with unnoted := [] })
        (endings ++ ps) := by
    intro ps
    induction ps with
    | nil =>
      intro l endings _ h
      rwa [List.append_nil]
    | cons p ps ih =>
      intro l endings hover h
      have hone : ∀ rest, ({ l with unnoted := rest } : Lifecycle).note p.1 p.2 =
          { l.note p.1 p.2 with unnoted := rest } := by
        intro rest
        cases p.2 <;> rfl
      have hfirst : ({ l with unnoted := p :: ps } : Lifecycle).unnoted = [] ++ (p.1, p.2) :: ps :=
        rfl
      have hnext := h.noteUnnoted hfirst hover
      rw [List.nil_append, hone] at hnext
      rw [List.foldl_cons, hone, ← List.singleton_append, ← List.append_assoc]
      exact ih _ _ (by rw [note_isOver, hover]) hnext
  exact hfold l.unnoted l endings hover h

theorem mem_note_states (hn : (n, .running) ∈ l.states) (hne : n ≠ node) :
    (n, .running) ∈ (l.note node ending).states := by
  rw [note_states]
  exact List.mem_map.mpr ⟨_, hn, if_neg (by simpa using hne)⟩

/-- The supervisor sweeps the nodes up one after the other. -/
theorem Tells.sweepAll (h : Tells nodes l endings) (hactive : l.active = [])
    (hunnoted : l.unnoted = [])
    (hover : l.isOver = false) {names : List String} (hnames : names.Nodup)
    (hrunning : ∀ n ∈ names, (n, .running) ∈ l.states) :
    Tells nodes ((names.map (·, .finished)).foldl (fun l p => l.note p.1 p.2) l)
      (endings ++ names.map (·, .finished)) := by
  induction names generalizing l endings with
  | nil => simpa using h
  | cons node names ih =>
    obtain ⟨hnode, hnames⟩ := List.nodup_cons.mp hnames
    have hnext := h.sweep hactive hunnoted hover (hrunning node List.mem_cons_self)
    rw [List.map_cons, List.foldl_cons, ← List.singleton_append, ← List.append_assoc]
    refine ih hnext (by simpa using hactive) (by simpa using hunnoted)
      (by simpa using hover) hnames ?_
    intro n hn
    refine mem_note_states (hrunning n (List.mem_cons_of_mem _ hn)) ?_
    rintro rfl
    exact hnode hn

/-- The nodes that count as running. -/
def stillRunning (l : Lifecycle) : List String :=
  (l.states.filter fun p => p.2 == .running).map (·.1)

theorem mem_stillRunning : n ∈ l.stillRunning ↔ (n, .running) ∈ l.states := by
  simp [stillRunning]

theorem conclude_eq (l : Lifecycle) : l.conclude =
    { ((l.stillRunning.map (·, Ending.finished)).foldl (fun l p => l.note p.1 p.2) l).report
        (.graphStopped ((l.stillRunning.map (·, Ending.finished)).foldl
          (fun l p => l.note p.1 p.2) l).run) with isOver := true } := by
  rw [List.foldl_map]
  rfl

theorem conclude_active (l : Lifecycle) : l.conclude.active = l.active := by
  rw [conclude_eq]
  exact foldl_note note_active _ _

theorem Tells.concludeAll (h : Tells nodes l endings) (hnodes : nodes.Nodup)
    (hactive : l.active = [])
    (hunnoted : l.unnoted = []) (hover : l.isOver = false) :
    Tells nodes l.conclude (endings ++ l.stillRunning.map (·, .finished)) := by
  have hkeys : l.states.map (·.1) = nodes := by simp [h.states, Function.comp_def]
  have hnodup : l.stillRunning.Nodup := by
    refine List.Nodup.sublist (List.filter_sublist.map _) ?_
    rwa [hkeys]
  have hswept := h.sweepAll hactive hunnoted hover hnodup fun n hn => mem_stillRunning.mp hn
  rw [conclude_eq]
  refine hswept.conclude ?_ ?_ ?_ ?_
  · exact (foldl_note note_active _ _).trans hactive
  · exact (foldl_note note_unnoted _ _).trans hunnoted
  · exact (foldl_note note_isOver _ _).trans hover
  · intro p hp hrunning
    rw [hswept.states] at hp
    obtain ⟨n, hn, rfl⟩ := List.mem_map.mp hp
    have hmem : n ∉ (endings ++ l.stillRunning.map (·, Ending.finished)).map (·.1) := by
      intro hmem
      simp only [if_pos hmem] at hrunning
      exact absurd hrunning (by simp)
    rw [List.map_append, List.mem_append, not_or] at hmem
    refine hmem.2 (List.mem_map.mpr ⟨(n, .finished), List.mem_map.mpr ⟨n, ?_, rfl⟩, rfl⟩)
    rw [mem_stillRunning, h.states]
    exact List.mem_map.mpr ⟨n, hn, by simp only [if_neg hmem.1]⟩

/-- The lifecycle when the supervisor has noted the endings, and has cut the remaining tasks off if
it must: after a failure that is not isolated, or when the run is to stop. -/
def noted (l : Lifecycle) : Lifecycle :=
  { l.noteAll with active := if l.mustAbort then [] else l.active }

theorem supervise_of_isOver (h : l.isOver = true) : l.supervise = (l, []) := if_pos h

theorem supervise_of_not_isOver (h : l.isOver = false) : l.supervise =
    (if l.noted.active.isEmpty then l.noted.conclude else l.noted, if l.mustAbort then l.active
      else []) := by
  rw [Lifecycle.supervise, if_neg (by simp [h])]
  rfl

theorem Tells.noted (h : Tells nodes l endings) (hover : l.isOver = false) :
    Tells nodes l.noted (endings ++ l.unnoted) := by
  have hcut := (h.noteAll hover).cut fun _ => !l.mustAbort
  rw [noteAll_active] at hcut
  rw [Lifecycle.noted]
  cases habort : l.mustAbort <;> simpa [habort] using hcut

/-- All that the supervisor does at once keeps `Tells`: it notes, it cuts off, it sweeps up, and it
reports the end when no task is left. -/
theorem Tells.supervise (h : Tells nodes l endings) (hnodes : nodes.Nodup) :
    ∃ more, Tells nodes l.supervise.1 (endings ++ more) := by
  cases hover : l.isOver with
  | true =>
    refine ⟨[], ?_⟩
    rwa [supervise_of_isOver hover, List.append_nil]
  | false =>
    have hnoted := h.noted hover
    rw [supervise_of_not_isOver hover]
    dsimp only
    split
    · rename_i hempty
      have hconcluded := hnoted.concludeAll hnodes (List.isEmpty_iff.mp hempty) l.noteAll_unnoted
        (l.noteAll_isOver.trans hover)
      rw [List.append_assoc] at hconcluded
      exact ⟨_, hconcluded⟩
    · exact ⟨_, hnoted⟩

/-! ### Steps -/

/-- Every step adds to the endings that were reported, and `Tells` goes on with these. -/
theorem Tells.step (h : Tells nodes l endings) (hnodes : nodes.Nodup) (hstep : Step l l') :
    ∃ more, Tells nodes l' (endings ++ more) := by
  cases hstep with
  | ended node ending => exact ⟨[], by simpa using h.ended node ending⟩
  | cut keep => exact ⟨[], by simpa using h.cut keep⟩
  | stop => exact ⟨[], by simpa using ⟨h.events, h.states, h.failures, h.places, h.concluded⟩⟩
  | note hunnoted hover => exact ⟨_, h.noteUnnoted hunnoted hover⟩
  | sweep hactive hunnoted hover hnode => exact ⟨_, h.sweep hactive hunnoted hover hnode⟩
  | conclude hactive hunnoted hover hstates =>
    exact ⟨[], by simpa using h.conclude hactive hunnoted hover hstates⟩
  | supervise => exact h.supervise hnodes

theorem Tells.evolves (h : Tells nodes l endings) (hnodes : nodes.Nodup)
    (hevolves : l.Evolves l') :
    ∃ more, Tells nodes l' (endings ++ more) := by
  induction hevolves with
  | refl => exact ⟨[], by simpa using h⟩
  | tail _ hstep ih =>
    obtain ⟨more, hmore⟩ := ih
    obtain ⟨last, hlast⟩ := hmore.step hnodes hstep
    exact ⟨more ++ last, by rwa [← List.append_assoc]⟩

end Lifecycle

end Patchbay
