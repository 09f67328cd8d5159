import Patchbay.Graph.Notes
import Patchbay.Proofs.Graph.Operations
import Patchbay.Proofs.Graph.Proxies

/-!
# Proxies mirror their targets

The pads of a subgraph node are copies: each one stands for a pad inside that has no link there,
and holds what that pad held when the node was resolved (`PadState.Mirrors`). Whatever is done to a
graph, the copies are exact again when it is resolved, and there is one for every such pad, in the
order of the nodes and pads inside (`GraphState.Mirrored`).

No node type is asked for anything: a subgraph node always takes all its pads from its
declarations, and the graph inside is resolved before they are made. Narrowing comes last, and
changes only what its own graph shows as effective, which no proxy of that graph declares.
-/

namespace Patchbay

/-- The pad stands for the pad `d` at an address inside, and is like it: type, group, value and, as
its declaration, the effective constraints. -/
structure PadState.Mirrors (p : PadState) (r : PadRef) (d : PadState) : Prop where
  id : p.id = r.node ++ ":" ++ r.pad
  proxy : p.proxy = some r
  padType : p.padType = d.padType
  group : p.group = d.group
  declared : p.declared = d.effective
  value : p.value = d.value

/-- The pads of a subgraph node are the proxies that the graph inside exposes (`exposedPads`). -/
def NodeEntry.Exposes (e : NodeEntry) : Prop :=
  e.body.Inside fun inner =>
    e.pads.map PadState.bare = (inner.exposedPads.map PadState.ofSpec).map PadState.bare

theorem NodeEntry.Exposes.of_bare {e e' : NodeEntry} (h : e.Exposes) (hb : e.bare = e'.bare) :
    e'.Exposes := by
  obtain ⟨-, -, -, hpads, hbody⟩ := NodeEntry.bare_eq_iff.mp hb
  intro id inner hinner
  rw [← hpads]
  exact h id inner (hbody.trans hinner)

namespace GraphState

instance (s : GraphState) (r : PadRef) : Decidable (s.Unlinked r) :=
  inferInstanceAs (Decidable (∀ l ∈ s.links, l.source ≠ r ∧ l.sink ≠ r))

/-- The pads without a link, with their addresses, in the order of nodes and pads. -/
def unlinkedPads (s : GraphState) : List (PadRef × PadState) :=
  s.nodes.flatMap fun e =>
    (e.pads.filter fun p => s.Unlinked ⟨e.id, p.id⟩).map fun p => (⟨e.id, p.id⟩, p)

/-- The pads of every subgraph node mirror the pads without a link inside (`unlinkedPads`), one by
one. -/
def Mirrored (s : GraphState) : Prop :=
  ∀ e ∈ s.nodes, e.body.Inside fun inner =>
    List.Forall₂ (fun p x => p.Mirrors x.1 x.2) e.pads inner.unlinkedPads

end GraphState

/-- The pads of a node mirror the pads without a link in the graph inside, one by one, in the order
of nodes and pads there. So there is a target for every proxy, and it has no link. -/
structure NodeEntry.MirrorsInside (e : NodeEntry) (inner : GraphState) : Prop where
  pads : List.Forall₂ (fun p x => p.Mirrors x.1 x.2) e.pads inner.unlinkedPads
  targets : ∀ p ∈ e.pads, ∃ r d, p.proxy = some r ∧ inner.pad? r = some d ∧ inner.Unlinked r
  noneMissing : ∀ node, inner.missingTargets node e.pads = []

namespace GraphState

variable {T : String → NodeType → Prop} {C : Constraints → Prop} {R : InnerResolver}
  {config : EngineConfig} {external : External} {s s' inner : GraphState} {e e' : NodeEntry}
  {changed : Bool}

/-! ### Resolving a node -/

/-- A subgraph node that was resolved exposes what it has inside (`NodeEntry.Exposes`), because its
pads are made of the declarations alone. -/
theorem exposes_resolveNode (h : resolveNode R external s e = .ok (e', changed)) : e'.Exposes := by
  obtain ⟨specs, body, hbody, -, rfl, -⟩ := resolveNode_eq_ok h
  intro id inner hinner
  have hinner : body = .subgraph id inner := hinner
  subst hinner
  obtain ⟨-, -, -, rfl⟩ := exists_of_resolveBody hbody
  refine congrArg _ (List.map_congr_left fun spec hspec => mergedPad_of_proxy ?_ _)
  obtain ⟨f, -, d, -, -, rfl⟩ := mem_exposedPads.mp hspec
  rfl

section

variable {D : NodeEntry → Prop}
  (hD : ∀ s e e' changed, resolveNode R external s e = .ok (e', changed) → D e')

include hD

/-- What resolving a node brings about is true of the node at a place that was resolved. -/
theorem forall_resolveAt {i : Nat} (h : resolveAt R external s i = .ok (s', changed)) :
    s'.nodes.length = s.nodes.length ∧
      ∀ j, i = j ∨ (∀ e, s.nodes[j]? = some e → D e) → ∀ e, s'.nodes[j]? = some e → D e := by
  obtain ⟨hnone, rfl⟩ | ⟨e, d, -, hnode, rfl⟩ := resolveAt_cases h
  · refine ⟨rfl, fun j hj e he => ?_⟩
    rcases hj with rfl | hj
    · rw [hnone] at he
      cases he
    · exact hj e he
  · refine ⟨List.length_set, fun j hj e he => ?_⟩
    rw [List.getElem?_set] at he
    split at he
    · split at he
      · cases he
        exact hD _ _ _ _ hnode
      · cases he
    · rename_i hne
      exact hj.resolve_left hne e he

theorem forall_resolveEach {order : List Nat}
    (h : resolveEach R external s order = .ok (s', changed)) :
    s'.nodes.length = s.nodes.length ∧
      ∀ j, j ∈ order ∨ (∀ e, s.nodes[j]? = some e → D e) → ∀ e, s'.nodes[j]? = some e → D e := by
  induction order generalizing s changed with
  | nil =>
    cases h
    exact ⟨rfl, fun j hj => hj.resolve_left List.not_mem_nil⟩
  | cons i rest ih =>
    rw [resolveEach] at h
    obtain ⟨⟨s₁, c₁⟩, h₁, h⟩ := bind_eq_ok_iff.mp h
    obtain ⟨⟨s₂, c₂⟩, h₂, h⟩ := bind_eq_ok_iff.mp h
    cases h
    obtain ⟨hlen, hfirst⟩ := forall_resolveAt hD h₁
    obtain ⟨hlen', hrest⟩ := ih h₂
    refine ⟨hlen'.trans hlen, fun j hj => hrest j ?_⟩
    rw [List.mem_cons, or_assoc] at hj
    rcases hj with rfl | hj | hj
    · exact .inr (hfirst j (.inl rfl))
    · exact .inl hj
    · exact .inr (hfirst j (.inr hj))

/-- What resolving a node brings about, and narrowing does not undo, is true of all nodes of a
resolved graph. -/
theorem forall_reconcileWith (hbare : ∀ e e', D e → e.bare = e'.bare → D e')
    (h : reconcileWith R config external s = .ok s') : ∀ e ∈ s'.nodes, D e := by
  have hstep : ∀ t t' changed, t.nodes.length = s.nodes.length →
      pass R external s.dependencyOrder t = .ok (t', changed) →
      t'.nodes.length = s.nodes.length ∧ ∀ e ∈ t'.nodes, D e := by
    intro t t' changed hlen hpass
    rw [pass] at hpass
    obtain ⟨⟨t₁, c₁⟩, h₁, hpass⟩ := map_eq_ok_iff.mp hpass
    cases hpass
    obtain ⟨hlen', hall⟩ := forall_resolveEach hD h₁
    refine ⟨hlen'.trans hlen, fun e he => ?_⟩
    obtain ⟨i, hi, rfl⟩ := List.mem_iff_getElem.mp he
    have hi' : i < t₁.nodes.length := hi
    exact hall i (.inl (mem_dependencyOrder (by omega))) _ (List.getElem?_eq_getElem hi)
  obtain ⟨s₀, s₁, s₂, hs₀, hpass, hnarrow, rfl⟩ :=
    reconcileWith_eq_ok (I := fun t => t.nodes.length = s.nodes.length) rfl
      (fun t t' changed ht hpass => (hstep t t' changed ht hpass).1) rfl h
  have hb : s₂.markResolved.bare = s₁.bare :=
    (bare_markResolved s₂).trans (narrow_agrees hnarrow).1
  intro e he
  obtain ⟨d, hd, hde⟩ := exists_bare_eq hb he
  exact hbare d e ((hstep s₀ s₁ false hs₀ hpass).2 d hd) hde

end

/-! ### Exposed pads and unlinked pads -/

theorem WellFormed.pad?_eq (h : s.WellFormed) (he : e ∈ s.nodes) {p : PadState} (hp : p ∈ e.pads) :
    s.pad? ⟨e.id, p.id⟩ = some p := by
  rw [pad?_of_mem h.distinctNodes he, findPad_of_mem (h.distinctPads e he) hp]

theorem WellFormed.isLinked_eq_false (h : s.WellFormed) (he : e ∈ s.nodes) {p : PadState}
    (hp : p ∈ e.pads) : s.isLinked ⟨e.id, p.id⟩ p = false ↔ s.Unlinked ⟨e.id, p.id⟩ := by
  refine ⟨h.unlinked (h.pad?_eq he hp), fun hun => ?_⟩
  rw [isLinked]
  split
  · rw [hun.downstream]
    rfl
  · rw [hun.feeder]
    rfl

/-- A well-formed graph exposes the pads without a link, as proxies (`proxySpec`) in the same
order. -/
theorem WellFormed.exposedPads_eq (h : s.WellFormed) :
    s.exposedPads = s.unlinkedPads.map fun x => proxySpec x.1 x.2 := by
  rw [exposedPads, unlinkedPads, List.map_flatMap]
  refine List.flatMap_congr fun e he => ?_
  rw [List.map_map]
  refine congrArg _ (List.filter_congr fun p hp => ?_)
  rw [Bool.eq_iff_iff, Bool.not_eq_true', h.isLinked_eq_false he hp, decide_eq_true_iff]

theorem mem_unlinkedPads {r : PadRef} {d : PadState} : (r, d) ∈ s.unlinkedPads ↔
    ∃ e ∈ s.nodes, d ∈ e.pads ∧ r = ⟨e.id, d.id⟩ ∧ s.Unlinked r := by
  simp only [unlinkedPads, List.mem_flatMap, List.mem_map, List.mem_filter, decide_eq_true_iff,
    Prod.mk.injEq]
  constructor
  · rintro ⟨e, he, p, ⟨hp, hun⟩, rfl, rfl⟩
    exact ⟨e, he, hp, rfl, hun⟩
  · rintro ⟨e, he, hd, rfl, hun⟩
    exact ⟨e, he, d, ⟨hd, hun⟩, rfl, rfl⟩

/-- A node that exposes a well-formed graph mirrors it, for merging keeps what a proxy declares. -/
theorem mirrored_of_exposes (hs : ∀ e ∈ s.nodes, e.Exposes)
    (hwf : ∀ e ∈ s.nodes, e.body.Inside WellFormed) : s.Mirrored := by
  intro e he id inner hb
  have hinner := hwf e he id inner hb
  have hpads : e.pads.map PadState.bare =
      (inner.exposedPads.map PadState.ofSpec).map PadState.bare := hs e he id inner hb
  rw [hinner.exposedPads_eq, List.map_map, List.map_map, ← List.forall₂_eq_eq_eq,
    List.forall₂_map_left_iff, List.forall₂_map_right_iff, List.forall₂_iff_zip] at hpads
  refine List.forall₂_iff_zip.mpr ⟨hpads.1, fun {p x} hmem => ?_⟩
  obtain ⟨r, d⟩ := x
  obtain ⟨f, hf, hd, -, -⟩ := mem_unlinkedPads.mp (List.of_mem_zip hmem).2
  obtain ⟨hid, hgroup, htype, hdecl, hvalue, hproxy⟩ := PadState.bare_eq_iff.mp (hpads.2 hmem)
  refine ⟨hid, hproxy, htype, hgroup, hdecl, ?_⟩
  -- a stateless pad has no value, so there is none to be left out
  rw [hvalue]
  show (if d.isProperty then d.value else none) = d.value
  split
  · rfl
  · rename_i hprop
    exact (hinner.stateless f hf d hd (by simpa using hprop)).symm

/-! ### Resolving a graph -/

/-- The subgraph nodes of a resolved graph mirror the graphs inside them, at every depth. -/
theorem everywhere_mirrored_reconcileWithin (hR : Regime T C) {n : Nat} (hext : external.In C)
    (hs : s.Nested T C n) (h : reconcileWithin config n external s = .ok s') :
    s'.Everywhere Mirrored := by
  have hlevel : ∀ {R : InnerResolver} {s s' : GraphState} {external : External},
      reconcileWith R config external s = .ok s' → s'.Everywhere WellFormed →
      (∀ e ∈ s'.nodes, e.body.Inside (Everywhere Mirrored)) → s'.Everywhere Mirrored := by
    intro R s s' external h hwf hin
    refine everywhere_iff.mpr ⟨mirrored_of_exposes ?_ ?_, hin⟩
    · exact forall_reconcileWith (fun _ _ _ _ => exposes_resolveNode)
        (fun _ _ => NodeEntry.Exposes.of_bare) h
    · exact fun e he => (hwf.body he).mono fun _ ht => ht.self
  have hwf := (reconcileWithin_spec hR hext hs h).2
  induction n generalizing external s s' with
  | zero =>
    have hres : Resolves T C (fun _ => False) (Everywhere Mirrored) fun _ inner => .ok inner :=
      resolves_false
    exact hlevel h hwf (reconcileWith_spec hR hres hext (nested_zero_iff.mp hs) h).2.2
  | succ n ih =>
    have hres : Resolves T C (Nested T C n) (Everywhere Mirrored) (reconcileWithin config n) :=
      ⟨fun _ ht => ht.2.self, fun _ _ _ hext ht hr =>
        have hspec := reconcileWithin_spec hR hext ht hr
        ⟨hspec.1, ih hext ht hr hspec.2⟩⟩
    exact hlevel h hwf (reconcileWith_spec hR hres hext (nested_succ_iff.mp hs) h).2.2

theorem everywhere_mirrored_reconcile (hR : Regime T C) (hext : external.In C)
    (hs : s.Everywhere (Orderly T C)) (h : reconcile config external s = .ok s') :
    s'.Everywhere Mirrored :=
  everywhere_mirrored_reconcileWithin hR hext ⟨Nat.le_refl _, hs⟩ h

/-! ### The targets of proxies -/

variable (hinner : inner.WellFormed)
  (h : List.Forall₂ (fun p x => p.Mirrors x.1 x.2) e.pads inner.unlinkedPads)

include hinner h

/-- Every proxy of a node has its target, which has no link inside, and is like it
(`PadState.Mirrors`). -/
theorem mirrors_target {p : PadState} (hp : p ∈ e.pads) :
    ∃ r d, p.Mirrors r d ∧ inner.pad? r = some d ∧ inner.Unlinked r := by
  obtain ⟨⟨r, d⟩, hmem, hmirror⟩ := exists_of_forall₂ h hp
  obtain ⟨f, hf, hd, rfl, hun⟩ := mem_unlinkedPads.mp hmem
  exact ⟨_, d, hmirror, hinner.pad?_eq hf hd, hun⟩

/-- No target is missing, so the note about missing targets is never given. -/
theorem missingTargets_eq_nil (node : String) : inner.missingTargets node e.pads = [] := by
  rw [missingTargets, List.filterMap_eq_nil_iff]
  intro p hp
  obtain ⟨r, d, hmirror, hd, -⟩ := mirrors_target hinner h hp
  rw [hmirror.proxy]
  show (if (inner.pad? r).isSome then none else _) = none
  rw [hd, Option.isSome_some, if_pos rfl]

theorem mirrorsInside_of_forall₂ : e.MirrorsInside inner := by
  refine ⟨h, fun p hp => ?_, missingTargets_eq_nil hinner h⟩
  obtain ⟨r, d, hrd, hd, hun⟩ := mirrors_target hinner h hp
  exact ⟨r, d, hrd.proxy, hd, hun⟩

end GraphState

/-! ### Notes -/

/-- A node at some depth gives the note of itself. -/
def GraphNote.OwnIn (s : GraphState) (n : GraphNote) : Prop :=
  ∃ t, s.Encloses t ∧ ∃ e ∈ t.nodes, ∃ type, e.body = .plugin type ∧
    n.note ∈ type.notes (t.view [] e)

/-- The note says of a source of the graph that it feeds nothing. -/
def GraphNote.IdleIn (s : GraphState) (n : GraphNote) : Prop :=
  ∃ e ∈ s.nodes, ∃ p ∈ e.pads, p.isSource = true ∧ s.downstream ⟨e.id, p.id⟩ = [] ∧
    n.note = ⟨.info, "source pad has no connections", some p.id⟩

theorem GraphNote.OwnIn.of_inner {s inner : GraphState} {e : NodeEntry} {id : Option String}
    {n : GraphNote} (h : n.OwnIn inner) (he : e ∈ s.nodes) (hb : e.body = .subgraph id inner) :
    n.OwnIn s := by
  obtain ⟨t, ht, hrest⟩ := h
  exact ⟨t, .inner he hb ht, hrest⟩

namespace GraphState

variable {s : GraphState} {e : NodeEntry} {n : GraphNote} {path : String} {outermost : Bool}

/-- The notes listed for a node and the graphs inside it. -/
def notesWithin (s : GraphState) (path : String) (outermost : Bool) (e : NodeEntry) :
    List GraphNote :=
  notesOfBody (path ++ e.id) (s.view [] e) e.body ++
    if outermost then s.idleSources path e.id e.pads else []

theorem notesAt_eq (s : GraphState) (path : String) (outermost : Bool) :
    s.notesAt path outermost = s.nodes.flatMap (s.notesWithin path outermost) := by
  have hnodes : ∀ nodes, notesOfNodes s path outermost nodes = nodes.flatMap
      (s.notesWithin path outermost) := by
    intro nodes
    induction nodes with
    | nil => rfl
    | cons e rest ih =>
      rw [notesOfNodes, ih, List.flatMap_cons]
      cases e
      rfl
  cases s
  exact hnodes _

theorem mem_notesAt : n ∈ s.notesAt path outermost ↔
    ∃ e ∈ s.nodes, n ∈ notesOfBody (path ++ e.id) (s.view [] e) e.body ∨
      outermost = true ∧ n ∈ s.idleSources path e.id e.pads := by
  rw [notesAt_eq, List.mem_flatMap]
  refine exists_congr fun e => and_congr_right fun _ => ?_
  rw [notesWithin, List.mem_append]
  cases outermost <;> simp

theorem idleIn_of_mem (he : e ∈ s.nodes) (h : n ∈ s.idleSources path e.id e.pads) :
    n.IdleIn s := by
  obtain ⟨p, hp, rfl⟩ := List.mem_map.mp h
  obtain ⟨hp, hidle⟩ := List.mem_filter.mp hp
  rw [Bool.and_eq_true, List.isEmpty_iff] at hidle
  exact ⟨e, he, p, hp, hidle.1, hidle.2, rfl⟩

/-- Where proxies mirror their targets (`Mirrored`), every note is a node's own, or it is about an
idle source. -/
theorem own_or_idle_of_mem_notesAt (hwf : s.Everywhere WellFormed) (hs : s.Everywhere Mirrored)
    (h : n ∈ s.notesAt path outermost) : n.OwnIn s ∨ outermost = true ∧ n.IdleIn s := by
  induction s using insideInduction generalizing path outermost with
  | step s ih =>
    obtain ⟨e, he, h | ⟨hout, h⟩⟩ := mem_notesAt.mp h
    · refine .inl ?_
      cases hb : e.body with
      | plugin type =>
        rw [hb, notesOfBody] at h
        obtain ⟨note, hnote, rfl⟩ := List.mem_map.mp h
        exact ⟨s, .refl s, e, he, type, hb, hnote⟩
      | subgraph id inner =>
        have hinner := hwf.body he id inner hb
        rw [hb, notesOfBody, view, missingTargets_eq_nil hinner.self (hs.self e he id inner hb),
          List.nil_append] at h
        rcases ih e he id inner hb hinner (hs.body he id inner hb) h with hown | ⟨hfalse, -⟩
        · exact hown.of_inner he hb
        · cases hfalse
    · exact .inr ⟨hout, idleIn_of_mem he h⟩

end GraphState

/-! ### After any operations -/

namespace Graph

theorem everywhere_mirrored_run (library : Library) (config : EngineConfig)
    (ops : List Operation) :
    ((Graph.new library config).run ops).state.Everywhere GraphState.Mirrored := by
  have hlib : (Graph.new library config).library.In fun _ _ => True := fun _ _ _ => trivial
  refine state_run_of_reconcile (C := fun _ => True) Regime.all hlib sane_empty
    (fun s s' hs h => ?_) ?_ ops
  · exact GraphState.everywhere_mirrored_reconcile Regime.all (by simp [External.In]) hs h
  · refine GraphState.everywhere_iff.mpr ⟨fun e he => ?_, fun e he => ?_⟩
    · cases he
    · cases he

/-- After any sequence of operations on a new graph, whatever the library and the settings, the
pads of every subgraph node at every depth mirror the pads without a link inside, one by one
(`NodeEntry.MirrorsInside`). So every proxy has its target, which has no link inside, and no note
reports a missing one: each note is one that a type gives, or that remarks on an idle source. -/
theorem proxies_mirror_run (library : Library) (config : EngineConfig) (ops : List Operation) :
    (((Graph.new library config).run ops).state.Everywhere fun s =>
      ∀ e ∈ s.nodes, e.body.Inside e.MirrorsInside) ∧
    ∀ n ∈ ((Graph.new library config).run ops).notes,
      n.OwnIn ((Graph.new library config).run ops).state ∨
        n.IdleIn ((Graph.new library config).run ops).state := by
  have hwf := everywhere_wellFormed_run library config ops
  have hmirror := everywhere_mirrored_run library config ops
  refine ⟨fun s hs e he id inner hb => ?_, fun n hn => ?_⟩
  · have hinner := ((hwf.within hs).body he id inner hb).self
    exact GraphState.mirrorsInside_of_forall₂ hinner (hmirror s hs e he id inner hb)
  · exact (GraphState.own_or_idle_of_mem_notesAt hwf hmirror hn).imp id And.right

end Graph

end Patchbay
