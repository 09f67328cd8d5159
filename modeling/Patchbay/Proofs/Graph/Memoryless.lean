import Patchbay.Proofs.Graph.Memory
import Patchbay.Proofs.Graph.NarrowingStart
import Patchbay.Proofs.Graph.Settling
import Patchbay.Proofs.Graph.Rounds

/-!
# Resolution without memory

A graph of built-in nodes in which no links go round in a cycle is resolved from what is stored in
it alone. What its pads declared before, and the order in which its nodes are listed, leave no
trace: three passes settle it, and narrowing either ends or refuses a link, and does the same
whatever was declared (`reconcile_memoryless`).
-/

/-!
## Narrowing does not depend on the order of nodes

Narrowing goes along the links, and looks pads up by their addresses. So it takes graphs that are
the same but for the order of their nodes to such graphs, or it refuses the same link in both
(`narrow_alike`).
-/

namespace Patchbay.GraphState

variable {s t : GraphState} {l : Link} {r : PadRef} {external : External}

/-! ### Changes of pads -/

/-- With distinct ids the first node with an id is the only one. -/
theorem updateFirst_eq_map {nodes : List NodeEntry} (hnd : (nodes.map (·.id)).Nodup) (id : String)
    (f : NodeEntry → NodeEntry) :
    updateFirst (fun e => e.id == id) f nodes = nodes.map fun e => if e.id = id then f e
    else e := by
  induction nodes with
  | nil => rfl
  | cons e rest ih =>
    obtain ⟨he, hrest⟩ := List.nodup_cons.mp hnd
    rw [updateFirst, List.map_cons]
    by_cases hid : e.id = id
    · have hothers : ∀ d ∈ rest, (if d.id = id then f d else d) = d := by
        intro d hd
        rw [if_neg]
        exact fun h => he (List.mem_map.mpr ⟨d, hd, h.trans hid.symm⟩)
      rw [if_pos (by simpa using hid), if_pos hid, List.map_congr_left hothers, List.map_id']
    · rw [if_neg (by simpa using hid), if_neg hid, ih hrest]

theorem Alike.pad?_eq (h : s.Alike id t) (hs : (s.nodes.map (·.id)).Nodup) (r : PadRef) :
    s.pad? r = t.pad? r := by
  have hnode := h.node? (fun _ => rfl) hs r.node
  rw [Option.map_id, id, id] at hnode
  rw [GraphState.pad?, GraphState.pad?, hnode]

theorem Alike.updatePad (h : s.Alike id t) (hs : (s.nodes.map (·.id)).Nodup) (r : PadRef)
    (f : PadState → PadState) : (s.updatePad r f).Alike id (t.updatePad r f) := by
  refine ⟨?_, h.links⟩
  have ht := h.distinct (fun _ => rfl) hs
  have hperm : s.nodes.Perm t.nodes := by simpa only [List.map_id] using h.nodes
  show (List.map id (updateFirst _ _ s.nodes)).Perm (List.map id (updateFirst _ _ t.nodes))
  rw [List.map_id, List.map_id, updateFirst_eq_map hs, updateFirst_eq_map ht]
  exact hperm.map _

theorem distinct_of_bare (h : t.bare = s.bare) (hs : (s.nodes.map (·.id)).Nodup) :
    (t.nodes.map (·.id)).Nodup :=
  ids_of_bare (bare_eq_iff.mp h).1 ▸ hs

/-! ### Outcomes -/

/-- The same refusal, or the same graph but for the order of the nodes (`Alike`). -/
inductive OutcomesAlike : Except Error (GraphState × Bool) → Except Error (GraphState × Bool) →
    Prop where
  | error (e : Error) : OutcomesAlike (.error e) (.error e)
  | ok {s t : GraphState} (changed : Bool) (alike : s.Alike id t) :
    OutcomesAlike (.ok (s, changed)) (.ok (t, changed))

theorem Alike.narrowLink (h : s.Alike id t) (hs : (s.nodes.map (·.id)).Nodup) (l : Link) :
    OutcomesAlike (s.narrowLink l) (t.narrowLink l) := by
  rw [GraphState.narrowLink, GraphState.narrowLink, h.pad?_eq hs, h.pad?_eq hs]
  split
  · rename_i p q _ _
    dsimp only
    split
    · exact .error _
    · refine .ok _ ?_
      have hset : ∀ {s t : GraphState} (c : Bool) (r : PadRef) (cs : Constraints), s.Alike id t →
          (s.nodes.map (·.id)).Nodup →
          (if c then s.updatePad r ({ · with effective := cs }) else s).Alike id
            (if c then t.updatePad r ({ · with effective := cs }) else t) := by
        intro s t c r cs h hs
        cases c with
        | false => exact h
        | true => exact h.updatePad hs r _
      refine hset _ _ _ (hset _ _ _ h hs) (distinct_of_bare ?_ hs)
      split
      · exact bare_updatePad (f := ({ · with effective := p.effective.intersect q.effective }))
          (fun _ => rfl) s _
      · rfl
  · exact .ok _ h

theorem Alike.narrowLinks (h : s.Alike id t) (hs : (s.nodes.map (·.id)).Nodup) (ls : List Link) :
    OutcomesAlike (s.narrowLinks ls) (t.narrowLinks ls) := by
  induction ls generalizing s t with
  | nil => exact .ok _ h
  | cons l rest ih =>
    rw [GraphState.narrowLinks, GraphState.narrowLinks]
    have hlink := h.narrowLink hs l
    cases hsl : s.narrowLink l with
    | error e =>
      rw [hsl] at hlink
      generalize t.narrowLink l = y at hlink ⊢
      cases hlink with
      | error => exact .error e
    | ok x =>
      obtain ⟨s₁, c⟩ := x
      rw [hsl] at hlink
      generalize t.narrowLink l = y at hlink ⊢
      cases hlink with
      | ok _ halike =>
        have hrest := ih halike (distinct_of_bare (bare_narrowLink hsl) hs)
        simp only [bind, Except.bind]
        generalize s₁.narrowLinks rest = x at hrest ⊢
        generalize GraphState.narrowLinks _ rest = y at hrest ⊢
        cases hrest with
        | error e => exact .error e
        | ok more halike => exact .ok _ halike

/-- The same ending (`Narrowing`), with the same graph but for the order of the nodes. -/
inductive NarrowingsAlike : Narrowing → Narrowing → Prop where
  | settled {s t : GraphState} (alike : s.Alike id t) : NarrowingsAlike (.settled s) (.settled t)
  | refused (e : Error) : NarrowingsAlike (.refused e) (.refused e)
  | unfinished : NarrowingsAlike .unfinished .unfinished

theorem Alike.narrowRounds (h : s.Alike id t) (hs : (s.nodes.map (·.id)).Nodup) (n : Nat) :
    NarrowingsAlike (narrowRounds n s) (narrowRounds n t) := by
  induction n generalizing s t with
  | zero => exact .unfinished
  | succ n ih =>
    rw [GraphState.narrowRounds, GraphState.narrowRounds, ← h.links]
    have hround := h.narrowLinks hs s.links
    cases hsl : s.narrowLinks s.links with
    | error e =>
      rw [hsl] at hround
      generalize t.narrowLinks s.links = y at hround ⊢
      cases hround with
      | error => exact .refused e
    | ok x =>
      obtain ⟨s₁, c⟩ := x
      rw [hsl] at hround
      generalize t.narrowLinks s.links = y at hround ⊢
      cases hround with
      | ok _ halike =>
        have hs₁ : (s₁.nodes.map (·.id)).Nodup := by
          refine narrowLinks_invariant (I := fun t => (t.nodes.map (·.id)).Nodup) ?_
            (fun _ hl => hl) hs hsl
          exact fun _ _ _ _ _ hs h => distinct_of_bare (bare_narrowLink h) hs
        cases c with
        | true => exact ih halike hs₁
        | false => exact .settled halike

/-! ### Narrowing -/

theorem sumOf_perm {α : Type} {f : α → Nat} {as bs : List α} (h : as.Perm bs) :
    sumOf f as = sumOf f bs := by
  induction h with
  | nil => rfl
  | cons a _ ih => rw [sumOf_cons, sumOf_cons, ih]
  | swap a b l => rw [sumOf_cons, sumOf_cons, sumOf_cons, sumOf_cons, Nat.add_left_comm]
  | trans _ _ ih ih' => exact ih.trans ih'

theorem Alike.startNarrowing (h : s.Alike NodeEntry.bare t) (external : External) :
    (s.startNarrowing external).markResolved.Alike id
    (t.startNarrowing external).markResolved := by
  refine ⟨?_, h.links⟩
  simp only [GraphState.startNarrowing, markResolved, List.map_map]
  refine h.map fun e _ d _ hed => ?_
  obtain ⟨hid, htype, heditor, hpads, hbody⟩ := NodeEntry.bare_eq_iff.mp hed
  have hstart : ∀ pads : List PadState, pads.map (startOf external d.id) =
      (pads.map PadState.bare).map (startOf external d.id) := by
    intro pads
    rw [List.map_map]
    exact List.map_congr_left fun p _ => (startOf_bare external d.id p).symm
  simp only [Function.comp_apply, hid, htype, heditor, hbody]
  rw [hstart, hpads, ← hstart]

/-- Graphs that are the same but for effective constraints and for the order of their nodes are
narrowed to graphs that are the same but for that order, or they are refused for the same reason.
Narrowing goes by the table of links, which is the same. -/
theorem Alike.narrow (h : s.Alike NodeEntry.bare t) (hs : (s.nodes.map (·.id)).Nodup) :
    (∃ s' t', (s.narrow external).map markResolved = .ok s' ∧
        (t.narrow external).map markResolved = .ok t' ∧ s'.nodes.Perm t'.nodes ∧
        s'.links = t'.links) ∨
      ∃ e, (s.narrow external).map markResolved = .error e ∧ (t.narrow external).map markResolved =
      .error e := by
  have hstart := h.startNarrowing external
  have hlimit : (s.startNarrowing external).markResolved.roundLimit =
      (t.startNarrowing external).markResolved.roundLimit := by
    have hperm : (s.startNarrowing external).markResolved.nodes.Perm
        (t.startNarrowing external).markResolved.nodes := by
          simpa only [List.map_id] using hstart.nodes
    rw [roundLimit, roundLimit, typeWeight, typeWeight, sumOf_perm hperm]
  have hids : ((s.startNarrowing external).markResolved.nodes.map (·.id)).Nodup :=
    distinct_of_bare ((bare_markResolved _).trans (bare_startNarrowing s external)) hs
  have hend := hstart.narrowRounds hids (s.startNarrowing external).markResolved.roundLimit
  rw [narrow_markResolved_eq, narrow_markResolved_eq, narrowFrom, narrowFrom, ← hlimit]
  generalize GraphState.narrowRounds _ (s.startNarrowing external).markResolved = x at hend ⊢
  generalize GraphState.narrowRounds _ (t.startNarrowing external).markResolved = y at hend ⊢
  cases hend with
  | settled halike =>
    exact .inl ⟨_, _, rfl, rfl, by simpa only [List.map_id] using halike.nodes, halike.links⟩
  | refused e => exact .inr ⟨_, rfl, rfl⟩
  | unfinished => exact .inr ⟨_, rfl, rfl⟩

end Patchbay.GraphState

/-! ## Resolution without memory -/

namespace Patchbay.GraphState

variable {config : EngineConfig} {s s' t u : GraphState} {R : InnerResolver}

/-! ### Slim declarations -/

/-- After a pass all declarations are slim (`Constraints.Slim`), whatever was declared before. -/
theorem Passed.slim (h : s.Passed u) (hs : s.Cascading) :
    ∀ r a, u.declared? r = some a → a.Slim := by
  have hpads : ∀ e ∈ s.nodes, ∀ p ∈ (u.redeclared e).pads, p.declared.Slim := by
    refine hs.acyclic.induction hs.distinct fun e he ih p hp => ?_
    obtain ⟨type, hof⟩ := hs.flat e he
    have hfed : ∀ id, (u.fed e id).Slim := by
      intro id
      rw [fed]
      split
      · cases hf : u.feeder ⟨e.id, id⟩ with
        | none => exact Constraints.slim_none
        | some r =>
          rw [Option.bind_some]
          cases hd : u.declared? r with
          | none => exact Constraints.slim_none
          | some a =>
            obtain ⟨q, hq, rfl⟩ := Option.map_eq_some_iff.mp hd
            obtain ⟨d', hd', hid, hmem, -⟩ := pad?_eq_some hq
            have hfound : d' ∈ s.nodes.map u.redeclared := h.nodes ▸ hd'
            obtain ⟨d, hdmem, rfl⟩ := List.mem_map.mp hfound
            have hl : ⟨r, ⟨e.id, id⟩⟩ ∈ s.links := h.links ▸ feeder_eq_some hf
            exact ih d hdmem ⟨_, hl, hid.symm, rfl⟩ q hmem
      · exact Constraints.slim_none
    obtain ⟨spec, hspec, rfl⟩ := List.mem_map.mp hp
    obtain ⟨value, hmerged, -⟩ := mergedPad_eq e.pads spec
    rw [hmerged]
    refine hof.builtin.steady.slim _ _ (resolve_declares hof)
      (fun spec' hspec' hsink => ?_) spec hspec
    rw [peerConstraints_of_declares hof hspec' hsink]
    exact hfed spec'.id
  intro r a ha
  obtain ⟨p, hp, rfl⟩ := Option.map_eq_some_iff.mp ha
  obtain ⟨e', he', -, hmem, -⟩ := pad?_eq_some hp
  have hfound : e' ∈ s.nodes.map u.redeclared := h.nodes ▸ he'
  obtain ⟨e, he, rfl⟩ := List.mem_map.mp hfound
  exact hpads e he p hmem

/-- Pads that are the same but for effective constraints declare the same. -/
theorem Alike.declared? (h : s.Alike NodeEntry.bare t) (hs : (s.nodes.map (·.id)).Nodup)
    (r : PadRef) :
    s.declared? r = t.declared? r := by
  have hpad := congrArg (Option.map (·.declared)) (h.pad? hs r)
  rw [Option.map_map, Option.map_map] at hpad
  exact hpad

/-! ### Graphs without cycles -/

theorem Alike.cascading (h : s.Alike NodeEntry.stored t) (hs : s.Cascading) : t.Cascading := by
  refine ⟨h.distinct (fun _ => rfl) hs.distinct, fun d hd => ?_,
    hs.acyclic.of_sublist (h.links ▸ .refl _)⟩
  obtain ⟨e, he, hed⟩ := h.symm.exists_eq hd
  obtain ⟨type, hof⟩ := hs.flat e he
  exact ⟨type, hof.of_stored hed⟩

/-- A graph without nodes loses its links, and that is all. -/
theorem settle_nil (external : External) (links : List Link) {limit : Nat} (hlimit : 2 ≤ limit) :
    settle (pass R external []) limit ⟨[], links⟩ = .ok (some ⟨[], []⟩) := by
  have hpass : ∀ links, pass R external [] ⟨[], links⟩ = .ok (⟨[], []⟩, !links.isEmpty) := by
    intro links
    have hsound : ∀ l, isSound ⟨[], links⟩ l = false := fun _ => rfl
    cases links <;> simp [pass, resolveEach, Except.map, pruneLinks, hsound]
  obtain ⟨limit, rfl⟩ := Nat.exists_eq_add_of_le hlimit
  rw [Nat.add_comm, settle, hpass]
  cases links with
  | nil => rfl
  | cons l rest =>
    simp only [List.isEmpty_cons, Bool.not_false, if_true]
    rw [settle, hpass]
    rfl

/-- The graph that passes leave is joined by its links (`Joined`), and declares slim constraints,
so that it can be narrowed in three rounds (`narrow_of_slim`). -/
theorem Cascading.settled (hs : s.Cascading) (hlinks : Ordered s.links) {limit : Nat}
    (hlimit : 3 ≤ limit)
    (h : GraphState.settle (pass R [] s.dependencyOrder) limit s = .ok (some s')) :
    (s'.nodes.map (·.id)).Nodup ∧ s'.Joined ∧ ∀ r a, s'.declared? r = some a → a.Slim := by
  obtain ⟨u₁, u₂, s₂, h₁, h₂, hsettle, halike⟩ := hs.settle hs.acyclic.topological hlimit R
  obtain rfl : s₂ = s' := Option.some.inj (Except.ok.inj (hsettle.symm.trans h))
  have hs₁ := (h₁.cascading hs).pruneLinks
  have hu₂ := (h₂.cascading hs₁).pruneLinks
  have hnd := halike.symm.distinct (fun _ => rfl) hu₂.distinct
  have hordered : Ordered u₂.pruneLinks.1.links := by
    have hone : Ordered u₁.pruneLinks.1.links := Ordered.filter (h₁.links ▸ hlinks) _
    exact Ordered.filter (h₂.links ▸ hone) _
  refine ⟨hnd, ⟨fun l hl => ?_, fun k hk l hl hsink => ?_⟩, fun r a ha => ?_⟩
  · rw [halike.isSound hnd]
    exact isSound_pruneLinks u₂ l (halike.links ▸ hl)
  · exact hordered.eq_of_sink_eq (halike.links ▸ hk) (halike.links ▸ hl) hsink
  · rw [halike.declared? hnd] at ha
    exact h₂.slim hs₁ r a ha

/-- The graph that passes leave is narrowed. -/
theorem reconcile_of_settle {external : External}
    (h : settle (pass (innerResolver config s.depth) external s.dependencyOrder)
      (config.passLimit s.nodes.length) s = .ok (some s')) :
    reconcile config external s = (s'.narrow external).map markResolved := by
  rw [reconcile, reconcileWithin_eq, reconcileWith, h]

theorem reconcile_nil (hconfig : config.maxResolvePasses = 0) (links : List Link) :
    reconcile config [] ⟨[], links⟩ = .ok ⟨[], []⟩ := by
  have horder : dependencyOrder ⟨[], links⟩ = [] := by
    refine List.eq_nil_iff_forall_not_mem.mpr fun i hi => ?_
    exact Nat.not_lt_zero i (((feeding_dependencyOrder _).2.1 i).mp hi)
  refine (reconcile_of_settle ?_).trans (rfl : (narrow ⟨[], []⟩ []).map markResolved = _)
  rw [horder, EngineConfig.passLimit, if_pos hconfig]
  exact settle_nil [] links (Nat.le_refl 2)

/-- Two graphs of built-in nodes in which no links go round in a cycle (`GraphState.Cascading`),
and in which the same is stored (`GraphState.Alike`), are resolved to one graph but for the order
of its nodes, or the same link is refused in both because its ends have nothing in common. What the
pads of the two declare before makes no difference. -/
theorem reconcile_memoryless (hconfig : config.maxResolvePasses = 0) (hs : s.Cascading)
    (hlinks : Ordered s.links) (h : s.Alike NodeEntry.stored t) :
    (∃ s' t', reconcile config [] s = .ok s' ∧ reconcile config [] t = .ok t' ∧
        s'.nodes.Perm t'.nodes ∧ s'.links = t'.links) ∨
      ∃ source sink a b, reconcile config [] s = .error (.nothingInCommon source sink a b) ∧
        reconcile config [] t = .error (.nothingInCommon source sink a b) := by
  by_cases hempty : s.nodes = []
  · obtain ⟨nodes, links⟩ := s
    obtain ⟨nodes', links'⟩ := t
    obtain rfl : nodes = [] := hempty
    obtain rfl : nodes' = [] := List.length_eq_zero_iff.mp h.length.symm
    obtain rfl : links = links' := h.links
    exact .inl ⟨_, _, reconcile_nil hconfig links, reconcile_nil hconfig links, .refl _, rfl⟩
  · have hlimit : 3 ≤ config.passLimit s.nodes.length := by
      have hpos := List.length_pos_of_ne_nil hempty
      rw [EngineConfig.passLimit, if_pos hconfig]
      omega
    have ht := h.cascading hs
    obtain ⟨s', t', hsettle, hsettle', halike⟩ := h.settle hs ht hs.acyclic.topological
      ht.acyclic.topological hlimit (innerResolver config s.depth) (innerResolver config t.depth)
    obtain ⟨hnd, hjoined, hslim⟩ := hs.settled hlinks hlimit hsettle
    rw [reconcile_of_settle hsettle, reconcile_of_settle (h.length ▸ hsettle')]
    rcases halike.narrow hnd with hok | ⟨e, herror, herror'⟩
    · exact .inl hok
    · rcases narrow_of_slim hjoined hslim with ⟨u, hu⟩ | ⟨l, -, a, b, hrefused⟩
      · rw [hu] at herror
        cases herror
      · rw [hrefused] at herror
        obtain rfl : Error.nothingInCommon l.source l.sink a b = e := Except.error.inj herror
        exact .inr ⟨l.source, l.sink, a, b, congrArg _ hrefused, herror'⟩

/-- A number that a passthrough hands to a display, and what the passthrough declares to hand
on. -/
def relayed (cs : Constraints) : GraphState where
  nodes :=
    [{ id := "d", nodeType := "Display", editor := {}, state := .resolved,
       body := .plugin Display.nodeType,
       pads := [{ id := "value", padType := .propertySink }] },
      { id := "i", nodeType := "IntegerProperty", editor := {}, state := .resolved,
        body := .plugin PropertyNode.integer,
        pads := [{ id := "value", padType := .propertySource, value := some (.int 7) }] },
      { id := "p", nodeType := "Passthrough", editor := {}, state := .resolved,
        body := .plugin Passthrough.nodeType,
        pads := [{ id := "input", padType := .statelessSink },
          { id := "output", padType := .statelessSource, declared := cs }] }]
  links := [⟨⟨"p", "output"⟩, ⟨"d", "value"⟩⟩, ⟨⟨"i", "value"⟩, ⟨"p", "input"⟩⟩]

/-- Nobody can tell that the passthrough handed on strings: with this declaration and with the
right one, and in either order of nodes, one graph comes out. -/
theorem reconcile_relayed_reverse :
    (relayed (some [.string])).Cascading ∧ Ordered (relayed (some [.string])).links ∧
      (relayed (some [.string])).Alike NodeEntry.stored ⟨(relayed none).nodes.reverse,
        (relayed none).links⟩ ∧
      ∃ s' t', reconcile {} [] (relayed (some [.string])) = .ok s' ∧
        reconcile {} [] ⟨(relayed none).nodes.reverse, (relayed none).links⟩ = .ok t' ∧
        s'.nodes.Perm t'.nodes ∧ s'.links = t'.links := by
  have hcascading : (relayed (some [.string])).Cascading := by
    refine ⟨by decide, ?_,
      acyclic_of_rank (fun id => if id = "d" then 2 else if id = "p" then 1 else 0) ?_⟩
    · refine List.forall_mem_cons.mpr ⟨⟨_, rfl, ⟨"Display", mem_of_lookupKey rfl⟩, ?_⟩,
        List.forall_mem_cons.mpr ⟨⟨_, rfl, ⟨"IntegerProperty", mem_of_lookupKey rfl⟩, ?_⟩,
          List.forall_mem_singleton.mpr ⟨_, rfl, ⟨"Passthrough", mem_of_lookupKey rfl⟩, ?_⟩⟩⟩
      all_goals
        rintro view _ ⟨⟩
        simp [PropertyNode.value, Display.value, Passthrough.input, Passthrough.output]
    · intro l hl
      simp only [relayed, List.mem_cons, List.not_mem_nil, or_false] at hl
      rcases hl with rfl | rfl <;> decide
  have hordered : Ordered (relayed (some [.string])).links :=
    List.pairwise_cons.mpr ⟨List.forall_mem_singleton.mpr (by decide), List.pairwise_singleton _ _⟩
  have halike : (relayed (some [.string])).Alike NodeEntry.stored
      ⟨(relayed none).nodes.reverse, (relayed none).links⟩ := by
    refine ⟨?_, rfl⟩
    rw [List.map_reverse]
    exact (List.reverse_perm _).symm
  have hok : (reconcile {} [] (relayed (some [.string]))).isOk = true := by decide +kernel
  refine ⟨hcascading, hordered, halike, ?_⟩
  rcases @reconcile_memoryless {} _ _ rfl hcascading hordered halike with hsame | ⟨_, _, _, _,
    herror, -⟩
  · exact hsame
  · rw [herror] at hok
    cases hok

end Patchbay.GraphState
