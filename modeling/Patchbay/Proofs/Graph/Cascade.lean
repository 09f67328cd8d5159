import Patchbay.Proofs.Graph.Settled
import Patchbay.Proofs.Graph.Proxies
import Patchbay.Proofs.Node.Steady

/-!
# A pass over a graph without cycles

Where no links go round in a cycle, a pass comes to every node after the nodes that feed it. What a
node of a built-in type declares depends on its own properties and on what feeds its sinks, so
after the pass every node is as it declares its pads in sight of the graph that the pass leaves
(`Passed`). Nothing of what the other nodes declared before enters into it.
-/

/-!
## What one pass computes

A pass goes over the nodes in an order, and each node sees the nodes before it as the pass has left
them and those behind it as they were (`Sweep`). Whatever the pass ends in is determined by this.
-/

namespace Patchbay.GraphState

variable {R : InnerResolver} {external : External} {s u : GraphState} {e e' : NodeEntry}
  {order placed rest : List Nat} {i j : Nat} {changed : Bool}

/-- The nodes at some places as `u` has them, and the others as `s` has them. It is the state in
the midst of a pass from `s` to `u`. -/
def partway (s u : GraphState) (placed : List Nat) : GraphState :=
  { s with nodes := s.nodes.mapIdx fun i e => if i ∈ placed then (u.nodes[i]?).getD e else e }

theorem getElem?_partway : (s.partway u placed).nodes[i]? =
    (s.nodes[i]?).map fun e => if i ∈ placed then (u.nodes[i]?).getD e else e := by
  rw [partway, List.getElem?_mapIdx]

theorem partway_nil (s u : GraphState) : s.partway u [] = s := by
  have hnodes : (s.partway u []).nodes = s.nodes := by
    refine List.ext_getElem? fun i => ?_
    rw [getElem?_partway]
    simp
  cases s
  exact congrArg (GraphState.mk · _) hnodes

/-- A place that was resolved already is one more at which the nodes are as `u` has them. -/
theorem partway_cons {t : GraphState} (hlinks : t.links = s.links)
    (hlen : t.nodes.length = s.nodes.length) (hothers : ∀ j, j ≠ i → t.nodes[j]? = s.nodes[j]?)
    (hi : u.nodes[i]? = t.nodes[i]?) : t.partway u placed = s.partway u (i :: placed) := by
  have hnodes : (t.partway u placed).nodes = (s.partway u (i :: placed)).nodes := by
    refine List.ext_getElem? fun j => ?_
    rw [getElem?_partway, getElem?_partway]
    by_cases hj : j = i
    · subst hj
      by_cases hlt : j < s.nodes.length
      · have hlt' : j < t.nodes.length := hlen ▸ hlt
        simp [hi, List.getElem?_eq_getElem hlt, List.getElem?_eq_getElem hlt']
      · have hlt' : ¬ j < t.nodes.length := hlen ▸ hlt
        simp [hlt, hlt']
    · simp [hothers j hj, hj]
  exact congrArg₂ GraphState.mk hnodes hlinks

/-- The nodes of the order are resolved one after the other, and the others stay as they are. Each
is resolved in the state that `partway` gives at its turn. -/
structure Sweep (R : InnerResolver) (external : External) (order : List Nat) (s u : GraphState)
    (changed : Bool) : Prop where
  links : u.links = s.links
  length : u.nodes.length = s.nodes.length
  step : ∀ placed i rest, order = placed ++ i :: rest → ∀ e, s.nodes[i]? = some e →
    ∃ e' c, u.nodes[i]? = some e' ∧ resolveNode R external (s.partway u placed) e = .ok (e', c) ∧
      (changed = false → c = false)
  others : ∀ i, i ∉ order → u.nodes[i]? = s.nodes[i]?

theorem resolveAt_eq_ok (h : resolveAt R external s i = .ok (u, changed)) :
    u.links = s.links ∧ u.nodes.length = s.nodes.length ∧
    (∀ j, j ≠ i → u.nodes[j]? = s.nodes[j]?) ∧
      ∀ e, s.nodes[i]? = some e → ∃ e', u.nodes[i]? = some e' ∧
        resolveNode R external s e = .ok (e', changed) := by
  obtain ⟨hnone, rfl⟩ | ⟨e, e', hi, hnode, rfl⟩ := resolveAt_cases h
  · exact ⟨rfl, rfl, fun _ _ => rfl, by simp [hnone]⟩
  · refine ⟨rfl, List.length_set, fun j hj => List.getElem?_set_ne (Ne.symm hj), fun d hd => ?_⟩
    obtain rfl := Option.some.inj (hi.symm.trans hd)
    exact ⟨e', List.getElem?_set_self (List.getElem?_eq_some_iff.mp hi).1, hnode⟩

theorem sweep_of_resolveEach (hnd : order.Nodup)
    (h : resolveEach R external s order = .ok (u, changed)) :
    Sweep R external order s u changed := by
  induction order generalizing s changed with
  | nil =>
    cases h
    refine ⟨rfl, rfl, fun placed i rest heq => ?_, fun _ _ => rfl⟩
    exact absurd heq.symm (by simp)
  | cons k order ih =>
    obtain ⟨hk, hnd⟩ := List.nodup_cons.mp hnd
    rw [resolveEach] at h
    obtain ⟨⟨s₁, c₁⟩, h₁, h⟩ := bind_eq_ok_iff.mp h
    obtain ⟨⟨s₂, c₂⟩, h₂, h⟩ := bind_eq_ok_iff.mp h
    simp only [Except.ok.injEq, Prod.mk.injEq] at h
    obtain ⟨rfl, rfl⟩ := h
    obtain ⟨hlinks, hlen, hothers, hnode⟩ := resolveAt_eq_ok h₁
    have hsweep := ih hnd h₂
    refine ⟨hsweep.links.trans hlinks, hsweep.length.trans hlen, fun placed i rest heq e he => ?_,
      fun i hi => ?_⟩
    · cases placed with
      | nil =>
        -- the first node of the order sees the graph as it was
        simp only [List.nil_append, List.cons.injEq] at heq
        obtain ⟨rfl, rfl⟩ := heq
        obtain ⟨e', he', hres⟩ := hnode e he
        refine ⟨e', c₁, (hsweep.others k hk).trans he', ?_, fun h => (Bool.or_eq_false_iff.mp h).1⟩
        rw [partway_nil]
        exact hres
      | cons j placed =>
        simp only [List.cons_append, List.cons.injEq] at heq
        obtain ⟨rfl, rfl⟩ := heq
        have hik : i ≠ k := fun hik => hk (hik ▸ List.mem_append_right _ List.mem_cons_self)
        obtain ⟨e', c, he', hres, hc⟩ := hsweep.step placed i rest rfl e ((hothers i hik).trans he)
        refine ⟨e', c, he', ?_, fun h => hc (Bool.or_eq_false_iff.mp h).2⟩
        rw [← partway_cons hlinks hlen hothers (hsweep.others k hk)]
        exact hres
    · obtain ⟨hne, hi⟩ := not_or.mp fun h => hi (List.mem_cons.mpr h)
      exact (hsweep.others i hi).trans (hothers i hne)

namespace Sweep

variable (h : Sweep R external order s u changed)

include h

/-- The nodes keep their ids. -/
theorem getElem?_ids (i : Nat) : (u.nodes[i]?).map (·.id) = (s.nodes[i]?).map (·.id) := by
  by_cases hi : i ∈ order
  · obtain ⟨placed, rest, horder⟩ := List.append_of_mem hi
    cases he : s.nodes[i]? with
    | none => rw [List.getElem?_eq_none_iff.mpr (h.length ▸ List.getElem?_eq_none_iff.mp he)]
    | some e =>
      obtain ⟨e', c, he', hres, -⟩ := h.step placed i rest horder e he
      obtain ⟨specs, body, -, -, rfl, -⟩ := resolveNode_eq_ok hres
      rw [he', Option.map_some, Option.map_some]
  · rw [h.others i hi]

theorem ids : u.nodes.map (·.id) = s.nodes.map (·.id) :=
  List.ext_getElem? fun i => by simpa only [List.getElem?_map] using h.getElem?_ids i

theorem getElem?_partway (hi : i ∈ placed) : (s.partway u placed).nodes[i]? = u.nodes[i]? := by
  rw [GraphState.getElem?_partway]
  by_cases hlt : i < s.nodes.length
  · simp [hi, List.getElem?_eq_getElem hlt, List.getElem?_eq_getElem (h.length ▸ hlt)]
  · simp [hlt, h.length]

theorem partway_ids (placed : List Nat) :
    (s.partway u placed).nodes.map (·.id) = s.nodes.map (·.id) := by
  refine List.ext_getElem? fun i => ?_
  rw [List.getElem?_map, List.getElem?_map]
  by_cases hi : i ∈ placed
  · rw [h.getElem?_partway hi, h.getElem?_ids]
  · rw [GraphState.getElem?_partway]
    simp [hi]

end Sweep

end Patchbay.GraphState

/-! ## A pass over a graph without cycles -/

namespace Patchbay

/-- The node is of a built-in type, and its pads have the direction and kind that the type declares
for their ids. -/
structure NodeEntry.OfBuiltin (e : NodeEntry) (t : NodeType) : Prop where
  body : e.body = .plugin t
  builtin : t.IsBuiltin
  padType : ∀ view specs, t.resolve view = .ok specs → ∀ spec ∈ specs, ∀ p ∈ e.pads,
    p.id = spec.id → p.padType = spec.padType

namespace GraphState

variable {R : InnerResolver} {s t u : GraphState} {e d : NodeEntry} {type : NodeType}
  {spec : PadSpec} {order placed rest : List Nat} {i j : Nat} {id : String} {changed : Bool}

/-- All nodes are of built-in types (`NodeEntry.OfBuiltin`), so that there are no graphs inside. -/
def Flat (s : GraphState) : Prop := ∀ e ∈ s.nodes, ∃ t, e.OfBuiltin t

/-! ### What a node declares -/

/-- The declaration that feeds a sink of a node, or none if nothing does. -/
def fed (s : GraphState) (e : NodeEntry) (id : String) : Constraints :=
  if (findPad id e.pads).isSome then ((s.feeder ⟨e.id, id⟩).bind s.declared?).getD none else none

theorem peerConstraints_eq_fed (h : ∀ p ∈ e.pads, p.id = id → p.isSource = false) :
    (s.view [] e).peerConstraints id = s.fed e id := by
  rw [NodeView.peerConstraints, NodeView.peer, view, peerViews, lookupKey_map, fed]
  cases hp : findPad id e.pads with
  | none => rfl
  | some p =>
    obtain ⟨hmem, rfl⟩ := findPad_eq_some hp
    rw [Option.map_some, Option.getD_some, peerView_sink (h p hmem rfl), Option.isSome_some,
      if_pos rfl]
    cases (s.feeder ⟨e.id, p.id⟩).bind s.declared? <;> rfl

/-- What a node of a type declares in sight of a graph: the specs that its type makes of the values
of its properties and of what feeds its sinks. -/
def declares (s : GraphState) (e : NodeEntry) : List PadSpec :=
  match e.body with
  | .plugin t => (t.resolve (s.view [] e)).toOption.getD []
  | .subgraph .. => []

/-- The node as it declares its pads in sight of a graph (`declares`), merged with the pads that it
has. -/
def redeclared (s : GraphState) (e : NodeEntry) : NodeEntry :=
  { e with pads := (s.declares e).map (mergedPad e.pads) }

theorem resolve_declares (h : e.OfBuiltin type) :
    type.resolve (s.view [] e) = .ok (s.declares e) := by
  obtain ⟨specs, hspecs⟩ := h.builtin.tame.total (s.view [] e)
  rw [declares, h.body]
  simp only [hspecs, Except.toOption, Option.getD_some]

theorem nodup_declares (h : e.OfBuiltin type) : ((s.declares e).map (·.id)).Nodup :=
  h.builtin.steady.distinct _ _ (resolve_declares h)

theorem isSource_of_declares (h : e.OfBuiltin type) (hspec : spec ∈ s.declares e)
    {p : PadState} (hp : p ∈ e.pads) (hid : p.id = spec.id) : p.isSource = spec.padType.isSource :=
  congrArg PadType.isSource (h.padType _ _ (resolve_declares h) spec hspec p hp hid)

/-- What a sink sees that the node declares. -/
theorem peerConstraints_of_declares (h : e.OfBuiltin type) (hspec : spec ∈ s.declares e)
    (hsink : spec.padType.isSource = false) (u : GraphState) :
    (u.view [] e).peerConstraints spec.id = u.fed e spec.id :=
  peerConstraints_eq_fed fun _ hp hid => (isSource_of_declares h hspec hp hid).trans hsink

/-- Two nodes of one type declare the same, if their properties have the same values and their
sinks are fed with the same. -/
theorem declares_congr (he : e.OfBuiltin type) (hd : d.OfBuiltin type)
    (hprops : ∀ spec ∈ s.declares e, spec.padType.isProperty = true → ¬ spec.IsMenu →
      (s.view [] e).property spec.id = (u.view [] d).property spec.id)
    (hfed : ∀ spec ∈ s.declares e, spec.padType.isSource = false →
      s.fed e spec.id = u.fed d spec.id) :
    u.declares d = s.declares e := by
  have hresolve := he.builtin.steady.congr _ (u.view [] d) _ (resolve_declares he) hprops
    fun spec hspec hsink => by
      have hd' : ∀ p ∈ d.pads, p.id = spec.id → p.isSource = false := fun p hp hid => by
        rw [PadState.isSource, hd.padType _ _ (resolve_declares he) spec hspec p hp hid]
        exact hsink
      rw [peerConstraints_of_declares he hspec hsink, peerConstraints_eq_fed hd',
        hfed spec hspec hsink]
  rw [resolve_declares hd] at hresolve
  exact Except.ok.inj hresolve

theorem resolveNode_of_builtin (h : e.OfBuiltin type) :
    resolveNode R [] s e =
      .ok (s.redeclared e, !sameDeclarations e.pads (s.redeclared e).pads) := by
  have hbody : resolveBody R e (s.view [] e) = .ok (s.declares e, .plugin type) := by
    rw [resolveBody, h.body]
    simp only [resolve_declares h, Except.map]
  rw [resolveNode, hbody]
  simp only
  rw [applySpecs_of_nodup (nodup_declares h), redeclared, ← h.body]

theorem ofBuiltin_redeclared (h : e.OfBuiltin type) (s : GraphState) :
    (s.redeclared e).OfBuiltin type := by
  refine ⟨h.body, h.builtin, fun view specs hspecs spec hspec p hp hid => ?_⟩
  obtain ⟨spec', hspec', rfl⟩ := List.mem_map.mp hp
  obtain ⟨value, heq, -⟩ := mergedPad_eq e.pads spec'
  rw [mergedPad_id] at hid
  rw [heq]
  exact h.builtin.steady.padType _ _ _ _ (resolve_declares h) hspecs spec' hspec' spec hspec hid

/-! ### Orders without cycles -/

/-- The order has every place once, and each after the places of the nodes that feed it. For graphs
without cycles `dependencyOrder` is such an order. -/
structure Topological (s : GraphState) (order : List Nat) : Prop where
  distinct : order.Nodup
  mem_iff : ∀ i, i ∈ order ↔ i < s.nodes.length
  feeding : Feeding (fun _ => True) s.nodeEdges [] order

theorem Acyclic.topological (h : s.Acyclic) : s.Topological s.dependencyOrder := by
  obtain ⟨hnd, hall, hfeed⟩ := feeding_dependencyOrder s
  refine ⟨hnd, hall, hfeed.mono fun i j hj _ => ⟨hj, ?_⟩⟩
  obtain ⟨-, l, -, hi, -⟩ := mem_nodeEdges.mp hj
  obtain ⟨e, he, -⟩ := indexOf?_eq_some hi
  exact ⟨e, he, h.ahead _⟩

/-- Links that are dropped do not spoil the order. -/
theorem Topological.of_sublist (h : s.Topological order)
    (hids : t.nodes.map (·.id) = s.nodes.map (·.id)) (hlinks : t.links.Sublist s.links) :
    t.Topological order := by
  have hlen : t.nodes.length = s.nodes.length := by
    simpa only [List.length_map] using congrArg List.length hids
  refine ⟨h.distinct, fun i => hlen ▸ h.mem_iff i, h.feeding.mono fun i j hj _ => ⟨?_, trivial⟩⟩
  rw [mem_nodeEdges, indexOf?_congr hids] at hj
  obtain ⟨hne, l, hl, hsource, hsink⟩ := hj
  exact mem_nodeEdges.mpr ⟨hne, l, hlinks.subset hl, hsource, hsink⟩

theorem Acyclic.of_sublist (h : s.Acyclic) (hlinks : t.links.Sublist s.links) : t.Acyclic :=
  fun a ha => h a (Relation.TransGen.mono
    (fun _ _ ⟨l, hl, hends⟩ => ⟨l, hlinks.subset hl, hends⟩ : t.Feeds ≤ s.Feeds) a a ha)

/-- A link of a graph without cycles leads from one place to another. -/
theorem Acyclic.mem_nodeEdges (h : s.Acyclic) {l : Link} (hl : l ∈ s.links)
    (hj : s.indexOf? l.source.node = some j) (hi : s.indexOf? l.sink.node = some i) :
    (j, i) ∈ s.nodeEdges :=
  mem_nodeEdges_of_ahead hl hj hi (h.ahead _)

/-- What nodes take over from those that feed them holds of all nodes, if there are no cycles. This
is the induction that replaces one on passes. -/
theorem Acyclic.induction (h : s.Acyclic) (hnd : (s.nodes.map (·.id)).Nodup) {Q : NodeEntry → Prop}
    (step : ∀ e ∈ s.nodes, (∀ d ∈ s.nodes, s.Feeds d.id e.id → Q d) → Q e) :
    ∀ e ∈ s.nodes, Q e := by
  have hplace : ∀ i ∈ s.dependencyOrder, ∀ e, s.nodes[i]? = some e → Q e := by
    refine h.topological.feeding.forall nofun fun i hprev e he => ?_
    refine step e (List.mem_of_getElem? he) fun d hd ⟨l, hl, hsource, hsink⟩ => ?_
    obtain ⟨j, hlt, rfl⟩ := List.mem_iff_getElem.mp hd
    have hj := indexOf?_of_getElem? hnd (List.getElem?_eq_getElem hlt)
    have hi := indexOf?_of_getElem? hnd he
    exact hprev j (h.mem_nodeEdges hl (hsource ▸ hj) (hsink ▸ hi)) _ (List.getElem?_eq_getElem hlt)
  intro e he
  obtain ⟨i, hlt, rfl⟩ := List.mem_iff_getElem.mp he
  exact hplace i ((h.topological.mem_iff i).mpr hlt) _ (List.getElem?_eq_getElem hlt)

/-! ### A pass -/

/-- Every node is as it declares its pads in sight of all the others (`redeclared`). Nothing is
said of what was declared before. -/
structure Passed (s u : GraphState) : Prop where
  links : u.links = s.links
  nodes : u.nodes = s.nodes.map u.redeclared

/-- Nodes of built-in types are resolved in any order. -/
theorem exists_resolveEach (R : InnerResolver) (hs : ∀ e ∈ s.nodes, ∃ t, e.OfBuiltin t)
    (order : List Nat) : ∃ u changed, resolveEach R [] s order = .ok (u, changed) := by
  induction order generalizing s with
  | nil => exact ⟨s, false, rfl⟩
  | cons i rest ih =>
    obtain ⟨s₁, c₁, h₁, hs₁⟩ : ∃ s₁ c₁, resolveAt R [] s i = .ok (s₁, c₁) ∧ s₁.Flat := by
      rw [resolveAt]
      cases hi : s.nodes[i]? with
      | none => exact ⟨s, false, rfl, hs⟩
      | some e =>
        obtain ⟨type, he⟩ := hs e (List.mem_of_getElem? hi)
        refine ⟨{ s with nodes := s.nodes.set i (s.redeclared e) },
          !sameDeclarations e.pads (s.redeclared e).pads, ?_, fun d hd => ?_⟩
        · simp only [resolveNode_of_builtin he, Except.map]
        rcases List.mem_or_eq_of_mem_set hd with hd | rfl
        · exact hs d hd
        · exact ⟨type, ofBuiltin_redeclared he s⟩
    obtain ⟨u, c₂, h₂⟩ := ih hs₁
    refine ⟨u, c₁ || c₂, ?_⟩
    rw [resolveEach, h₁]
    simp only [bind, Except.bind, h₂]

/-- A place that the order comes to after the places of the nodes that feed it: what feeds it is
what it will be after the pass. -/
theorem fed_partway (hs : Sweep R [] order s u changed) (hacyclic : s.Acyclic)
    (hord : s.Topological order) (horder : order = placed ++ i :: rest)
    (hnd : (s.nodes.map (·.id)).Nodup) (he : s.nodes[i]? = some e) (id : String) :
    (s.partway u placed).fed e id = u.fed e id := by
  have hfeeder : (s.partway u placed).feeder = u.feeder := by
    funext r
    rw [feeder, feeder, hs.links]
    rfl
  rw [fed, fed, hfeeder]
  cases hf : u.feeder ⟨e.id, id⟩ with
  | none => rfl
  | some r =>
    obtain ⟨l, hl, rfl⟩ := Option.map_eq_some_iff.mp hf
    have hsink : l.sink = ⟨e.id, id⟩ := by simpa using List.find?_some hl
    have hl : l ∈ s.links := hs.links ▸ List.mem_of_find?_eq_some hl
    have hi : s.indexOf? l.sink.node = some i := by
      rw [hsink]
      exact indexOf?_of_getElem? hnd he
    have hids : (s.partway u placed).nodes.map (·.id) = u.nodes.map (·.id) :=
      (hs.partway_ids placed).trans hs.ids.symm
    have hpad : (s.partway u placed).pad? l.source = u.pad? l.source := by
      refine pad?_eq_of_place hids fun j hj => ?_
      have hedge := hacyclic.mem_nodeEdges hl (indexOf?_congr hs.ids ▸ hj) hi
      exact hs.getElem?_partway (by simpa using (horder ▸ hord.feeding).before j hedge trivial)
    rw [Option.bind_some, Option.bind_some, declared?, declared?, hpad]

/-- A pass after which each node is as it declares its pads in sight of the others, by induction
along the order (`fed_partway`). -/
theorem passed_of_sweep (hflat : s.Flat) (hnd : (s.nodes.map (·.id)).Nodup) (hacyclic : s.Acyclic)
    (hord : s.Topological order) (hs : Sweep R [] order s u changed) :
    s.Passed u ∧
      (changed = false → ∀ e ∈ s.nodes, sameDeclarations e.pads (u.redeclared e).pads = true) := by
  have hstep : ∀ (i : Nat) (e : NodeEntry), s.nodes[i]? = some e →
      u.nodes[i]? = some (u.redeclared e) ∧
      (changed = false → sameDeclarations e.pads (u.redeclared e).pads = true) := by
    intro i e he
    obtain ⟨type, hof⟩ := hflat e (List.mem_of_getElem? he)
    obtain ⟨placed, rest, horder⟩ :=
      List.append_of_mem ((hord.mem_iff i).mpr (List.getElem?_eq_some_iff.mp he).1)
    obtain ⟨e', c, he', hres, hc⟩ := hs.step placed i rest horder e he
    have hdecl : (s.partway u placed).declares e = u.declares e :=
      declares_congr hof hof (fun _ _ _ _ => rfl) fun spec _ _ =>
        (fed_partway hs hacyclic hord horder hnd he spec.id).symm
    have hred : (s.partway u placed).redeclared e = u.redeclared e := by
      rw [redeclared, redeclared, hdecl]
    rw [resolveNode_of_builtin hof, hred] at hres
    obtain ⟨rfl, rfl⟩ := Prod.mk.inj (Except.ok.inj hres)
    exact ⟨he', fun h => by simpa using hc h⟩
  refine ⟨⟨hs.links, List.ext_getElem? fun i => ?_⟩, fun h e he => ?_⟩
  · rw [List.getElem?_map]
    cases he : s.nodes[i]? with
    | none => exact List.getElem?_eq_none_iff.mpr (hs.length ▸ List.getElem?_eq_none_iff.mp he)
    | some e => exact (hstep i e he).1
  · obtain ⟨i, hlt, rfl⟩ := List.mem_iff_getElem.mp he
    exact (hstep i _ (List.getElem?_eq_getElem hlt)).2 h

end GraphState

end Patchbay
