import Patchbay.Proofs.Graph.Copies
import Patchbay.Proofs.Graph.Proxies
import Patchbay.Proofs.Node.Flow

/-!
# The plan of a graph

The *plan* of a graph (`GraphState.plan`) is what types have no influence on: its nodes with the
ids and directions of their pads and the values of their properties, its links, and the plans of
the graphs inside. The values of operators are not part of it, for they depend on what the
operands are, and neither are the values that proxies show.

A graph *at rest* (`GraphState.AtRest`) is what resolution made of it under what is seen from
outside. Resolution keeps the plan of every graph that has the plan of a graph at rest
(`plan_reconcileWithin`).
-/

namespace Patchbay

/-- The id and the direction of a pad, what it stands for, and its value, unless it is an operator
or stands for another pad. -/
def PadState.plan (p : PadState) : PadState where
  id := p.id
  padType := p.padType
  value := if p.proxy.isSome ∨ IsOperator p.id then none else p.value
  proxy := p.proxy

mutual

/-- The plan of a graph: the plans of its nodes, and its links. -/
def GraphState.plan : GraphState → GraphState
  | ⟨nodes, links⟩ => ⟨planOfNodes nodes, links⟩

/-- The plans of nodes. -/
def planOfNodes : List NodeEntry → List NodeEntry
  | [] => []
  | e :: rest => e.plan :: planOfNodes rest

/-- The plan of a node: its pads without types, and the plan of its body. -/
def NodeEntry.plan : NodeEntry → NodeEntry
  | ⟨id, nodeType, editor, pads, _, body⟩ =>
    ⟨id, nodeType, editor, pads.map PadState.plan, .resolved, body.plan⟩

/-- The plan of a body: a type of nodes is its own plan. -/
def Body.plan : Body → Body
  | .plugin type => .plugin type
  | .subgraph id inner => .subgraph id inner.plan

end

theorem planOfNodes_eq (nodes : List NodeEntry) :
    planOfNodes nodes = nodes.map NodeEntry.plan := by
  induction nodes with
  | nil => rfl
  | cons e rest ih => rw [planOfNodes, ih, List.map_cons]

/-! ### Pads -/

namespace PadState

variable {p q : PadState} {pads pads' : List PadState} {id : String}

theorem plan_eq_iff : q.plan = p.plan ↔ q.id = p.id ∧ q.padType = p.padType ∧ q.proxy = p.proxy ∧
    (p.proxy = none → ¬ IsOperator p.id → q.value = p.value) := by
  simp only [plan, PadState.mk.injEq, true_and]
  constructor
  · rintro ⟨hid, htype, hvalue, hproxy⟩
    refine ⟨hid, htype, hproxy, fun hnone hop => ?_⟩
    simpa [hproxy, hnone, hid, hop] using hvalue
  · rintro ⟨hid, htype, hproxy, hvalue⟩
    refine ⟨hid, htype, ?_, hproxy⟩
    rw [hproxy, hid]
    by_cases hp : p.proxy.isSome = true ∨ IsOperator p.id
    · rw [if_pos hp, if_pos hp]
    · rw [if_neg hp, if_neg hp]
      rw [not_or] at hp
      exact hvalue (by simpa using hp.1) hp.2

theorem plan_bare (p : PadState) : p.bare.plan = p.plan := rfl

theorem outline_of_plan (h : q.plan = p.plan) : q.outline = p.outline := by
  obtain ⟨hid, htype, hproxy, -⟩ := plan_eq_iff.mp h
  exact outline_eq_iff.mpr ⟨hid, htype, hproxy⟩

theorem isSource_of_plan (h : q.plan = p.plan) : q.isSource = p.isSource :=
  congrArg PadType.isSource (plan_eq_iff.mp h).2.1

theorem findPad_plan (id : String) (pads : List PadState) :
    findPad id (pads.map plan) = (findPad id pads).map plan := by
  rw [findPad, findPad, List.find?_map]
  rfl

theorem map_outline_of_plan (h : pads.map plan = pads'.map plan) :
    pads.map outline = pads'.map outline := by
  rw [← List.forall₂_eq_eq_eq, List.forall₂_map_left_iff, List.forall₂_map_right_iff] at h ⊢
  exact h.imp fun _ _ => outline_of_plan

theorem map_id_of_plan (h : pads.map plan = pads'.map plan) :
    pads.map (·.id) = pads'.map (·.id) := by
  have hids := congrArg (List.map PadState.id) h
  rw [List.map_map, List.map_map] at hids
  exact hids

theorem map_plan_of_bare (h : pads.map bare = pads'.map bare) :
    pads.map plan = pads'.map plan := by
  have hmap := congrArg (List.map plan) h
  simpa only [List.map_map, Function.comp_def, plan_bare] using hmap

/-- Pads with one plan are found together. -/
theorem findPad_of_plan (h : pads.map plan = pads'.map plan) (hp : findPad id pads' = some p) :
    ∃ q, findPad id pads = some q ∧ q.plan = p.plan := by
  have hfind := findPad_plan id pads
  rw [h, findPad_plan, hp, Option.map_some] at hfind
  obtain ⟨q, hq, hqp⟩ := Option.map_eq_some_iff.mp hfind.symm
  exact ⟨q, hq, hqp⟩

end PadState

/-! ### Nodes -/

namespace NodeEntry

variable {e d : NodeEntry}

theorem plan_eq_iff : d.plan = e.plan ↔ d.id = e.id ∧ d.nodeType = e.nodeType ∧
    d.editor = e.editor ∧ d.pads.map PadState.plan = e.pads.map PadState.plan ∧
    d.body.plan = e.body.plan := by
  cases d
  cases e
  simp only [plan, NodeEntry.mk.injEq, true_and]

theorem plan_bare (e : NodeEntry) : e.bare.plan = e.plan := by
  refine plan_eq_iff.mpr ⟨rfl, rfl, rfl, ?_, rfl⟩
  rw [bare, List.map_map]
  rfl

theorem plan_of_bare (h : d.bare = e.bare) : d.plan = e.plan := by
  rw [← plan_bare, h, plan_bare]

/-- Every pad has one that corresponds to it. -/
theorem exists_pad_of_plan {q : PadState} (h : d.plan = e.plan) (hq : q ∈ d.pads) :
    ∃ p ∈ e.pads, p.id = q.id ∧ p.padType = q.padType ∧ p.proxy = q.proxy := by
  have hmem : q.outline ∈ e.pads.map PadState.outline :=
    PadState.map_outline_of_plan (plan_eq_iff.mp h).2.2.2.1 ▸ List.mem_map_of_mem hq
  obtain ⟨p, hp, hpq⟩ := List.mem_map.mp hmem
  exact ⟨p, hp, PadState.outline_eq_iff.mp hpq⟩

end NodeEntry

theorem Body.plugin_of_plan {b b' : Body} {t : NodeType} (h : b'.plan = b.plan)
    (hb : b = .plugin t) : b' = .plugin t := by
  subst hb
  cases b' with
  | plugin t' =>
    rw [plan, plan] at h
    exact h
  | subgraph id inner =>
    rw [plan, plan] at h
    cases h

theorem Body.subgraph_of_plan {b b' : Body} {id : Option String} {inner : GraphState}
    (h : b'.plan = b.plan) (hb : b = .subgraph id inner) :
    ∃ inner', b' = .subgraph id inner' ∧ inner'.plan = inner.plan := by
  subst hb
  cases b' with
  | plugin t' =>
    rw [plan, plan] at h
    cases h
  | subgraph id' inner' =>
    rw [plan, plan, Body.subgraph.injEq] at h
    exact ⟨inner', by rw [h.1], h.2⟩

theorem NodeEntry.isSubgraph_of_plan {e d : NodeEntry} (h : d.plan = e.plan) :
    d.isSubgraph = e.isSubgraph := by
  have hbody := (plan_eq_iff.mp h).2.2.2.2
  rw [isSubgraph, isSubgraph]
  cases hb : e.body with
  | plugin type => rw [Body.plugin_of_plan hbody hb]
  | subgraph id inner =>
    obtain ⟨inner', hb', -⟩ := Body.subgraph_of_plan hbody hb
    rw [hb']

namespace GraphState

variable {s t u : GraphState} {e d : NodeEntry} {p : PadState} {r : PadRef} {i : Nat}

theorem plan_eq_iff : t.plan = s.plan ↔
    t.nodes.map NodeEntry.plan = s.nodes.map NodeEntry.plan ∧ t.links = s.links := by
  cases t
  cases s
  simp only [plan, GraphState.mk.injEq, planOfNodes_eq]

theorem plan_of_bare (h : t.bare = s.bare) : t.plan = s.plan := by
  obtain ⟨hnodes, hlinks⟩ := bare_eq_iff.mp h
  refine plan_eq_iff.mpr ⟨?_, hlinks⟩
  have hmap := congrArg (List.map NodeEntry.plan) hnodes
  simpa only [List.map_map, Function.comp_def, NodeEntry.plan_bare] using hmap

section

variable (h : t.plan = s.plan)

include h

theorem links_of_plan : t.links = s.links := (plan_eq_iff.mp h).2

theorem nodes_of_plan : t.nodes.map NodeEntry.plan = s.nodes.map NodeEntry.plan :=
  (plan_eq_iff.mp h).1

end

/-! ### Nodes with the same plans -/

section

variable (h : t.nodes.map NodeEntry.plan = s.nodes.map NodeEntry.plan)

include h

theorem ids_of_plan : t.nodes.map (·.id) = s.nodes.map (·.id) := by
  have hids : ∀ e : NodeEntry, e.plan.id = e.id := fun e => by cases e; rfl
  have hmap := congrArg (List.map (·.id)) h
  simpa only [List.map_map, Function.comp_def, hids] using hmap

theorem length_of_plan : t.nodes.length = s.nodes.length := by
  have hlen := congrArg List.length (ids_of_plan h)
  simpa only [List.length_map] using hlen

theorem getElem?_of_plan (he : s.nodes[i]? = some e) :
    ∃ d, t.nodes[i]? = some d ∧ d.plan = e.plan := by
  have hmap := congrArg (·[i]?) h
  simp only [List.getElem?_map, he, Option.map_some] at hmap
  exact Option.map_eq_some_iff.mp hmap

theorem mem_of_plan (he : e ∈ s.nodes) : ∃ d ∈ t.nodes, d.plan = e.plan := by
  obtain ⟨i, hi, rfl⟩ := List.mem_iff_getElem.mp he
  obtain ⟨d, hd, hplan⟩ := getElem?_of_plan h (List.getElem?_eq_getElem hi)
  exact ⟨d, List.mem_of_getElem? hd, hplan⟩

theorem pad?_of_plan (hp : s.pad? r = some p) : ∃ q, t.pad? r = some q ∧ q.plan = p.plan := by
  obtain ⟨e, he, hid, -⟩ := pad?_eq_some hp
  have hnodes : (t.nodes.map NodeEntry.plan).find? (fun d => d.id == r.node) =
      (s.nodes.map NodeEntry.plan).find? (fun d => d.id == r.node) := by
    rw [h]
  have hids : ∀ d : NodeEntry, (d.plan.id == r.node) = (d.id == r.node) := fun d => by cases d; rfl
  simp only [List.find?_map, Function.comp_def, hids] at hnodes
  obtain ⟨e, he, hp⟩ := Option.bind_eq_some_iff.mp hp
  rw [node?] at he
  rw [he, Option.map_some] at hnodes
  obtain ⟨d, hd, hde⟩ := Option.map_eq_some_iff.mp hnodes
  obtain ⟨-, -, -, hpads, -⟩ := NodeEntry.plan_eq_iff.mp hde
  obtain ⟨q, hq, hqp⟩ := PadState.findPad_of_plan hpads hp
  exact ⟨q, by rw [pad?, node?, hd]; exact hq, hqp⟩

theorem isSound_of_plan {l : Link} (hl : s.isSound l = true) : t.isSound l = true := by
  rw [isSound, Bool.and_eq_true_iff, Option.any_eq_true, Option.any_eq_true] at hl ⊢
  obtain ⟨⟨q, hq, hqs⟩, p, hp, hps⟩ := hl
  obtain ⟨q', hq', hqq⟩ := pad?_of_plan h hq
  obtain ⟨p', hp', hpp⟩ := pad?_of_plan h hp
  exact ⟨⟨q', hq', by rw [PadState.isSource_of_plan hqq]; exact hqs⟩,
    p', hp', by rw [PadState.isSource_of_plan hpp]; exact hps⟩

end

mutual

theorem depth_plan : ∀ s : GraphState, s.plan.depth = s.depth
  | ⟨nodes, links⟩ => by
    rw [plan, depth, depth]
    exact depth_planOfNodes nodes

theorem depth_planOfNodes : ∀ nodes : List NodeEntry,
    depthOfNodes (planOfNodes nodes) = depthOfNodes nodes
  | [] => rfl
  | e :: rest => by
    rw [planOfNodes, depthOfNodes, depthOfNodes, depth_planOfNodes rest, depth_planOfNode e]

theorem depth_planOfNode : ∀ e : NodeEntry, e.plan.depth = e.depth
  | ⟨id, nodeType, editor, pads, state, body⟩ => by
    rw [NodeEntry.plan, NodeEntry.depth, NodeEntry.depth]
    exact depth_planOfBody body

theorem depth_planOfBody : ∀ b : Body, b.plan.depth = b.depth
  | .plugin type => rfl
  | .subgraph id inner => by rw [Body.plan, Body.depth, Body.depth, depth_plan inner]

end

theorem depth_of_plan (h : t.plan = s.plan) : t.depth = s.depth := by
  rw [← depth_plan t, h, depth_plan]

end GraphState

end Patchbay

/-!
## Resolution keeps plans

A graph *at rest* (`GraphState.AtRest`) is what resolution made of it under what is seen from
outside; then the graphs inside are at rest as well (`AtRest.inner`). What is resolved with the
plan of a node at rest has this plan afterwards (`plan_resolveNode`), and so does a whole graph
(`plan_reconcileWithin`).
-/

namespace Patchbay.GraphState

variable {T : String → NodeType → Prop} {config : EngineConfig} {n : Nat} {R R' : InnerResolver}
  {external external' : External} {s s' t t' u : GraphState} {e d d' : NodeEntry} {p : PadState}
  {v w : NodeView} {type : NodeType} {specs specs' : List PadSpec} {changed : Bool}
  {id : Option String} {inner : GraphState}

/-! ### One node -/

/-- Nodes with one plan show the same properties to their type. -/
theorem sameProperties_of_plan (ht : type.IsBuiltin) (hspecs : type.resolve v = .ok specs)
    (hplan : w.pads.map PadState.plan = v.pads.map PadState.plan)
    (hproxy : ∀ p ∈ v.pads, p.proxy = none) : NodeType.SameProperties specs v w := by
  intro spec hspec hprop hmenu
  have hop : ¬ IsOperator spec.id := by
    intro hop
    obtain ⟨-, rfl⟩ := ht.eq_operatorSpec hspecs hspec hop
    exact hmenu ⟨hprop, _, rfl⟩
  have hvalue : (v.pad? spec.id).bind (·.value) = (w.pad? spec.id).bind (·.value) := by
    rw [NodeView.pad?, NodeView.pad?]
    cases hp : findPad spec.id v.pads with
    | none =>
      have hfind := PadState.findPad_plan spec.id w.pads
      rw [hplan, PadState.findPad_plan, hp, Option.map_none] at hfind
      rw [Option.map_eq_none_iff.mp hfind.symm]
    | some p =>
      obtain ⟨q, hq, hqp⟩ := PadState.findPad_of_plan hplan hp
      obtain ⟨hmem, hid⟩ := findPad_eq_some hp
      obtain ⟨-, -, -, hvalue⟩ := PadState.plan_eq_iff.mp hqp
      rw [hq, Option.bind_some, Option.bind_some, hvalue (hproxy p hmem) (hid ▸ hop)]
  rw [NodeView.property, NodeView.property, hvalue]

/-- The declarations of a type keep the plan of pads that they made before (`mergedPad`): they
change no value but that of an operator. -/
theorem plan_mergedPads (ht : type.IsBuiltin) (hspecs : type.resolve v = .ok specs)
    (hset : (specs.map (mergedPad v.pads)).map PadState.bare = v.pads.map PadState.bare)
    (hspecs' : type.resolve w = .ok specs')
    (hplan : w.pads.map PadState.plan = v.pads.map PadState.plan) :
    (specs'.map (mergedPad w.pads)).map PadState.plan = v.pads.map PadState.plan := by
  have hproxySpec : ∀ spec ∈ specs, spec.proxy = none := fun spec hspec =>
    (ht.tame.consistent _ _ hspecs spec hspec).1
  have hproxy : ∀ p ∈ v.pads, p.proxy = none := by
    intro p hp
    have hmem : p.bare ∈ (specs.map (mergedPad v.pads)).map PadState.bare :=
      hset ▸ List.mem_map_of_mem hp
    obtain ⟨q, hq, hqp⟩ := List.mem_map.mp hmem
    obtain ⟨spec, hspec, rfl⟩ := List.mem_map.mp hq
    obtain ⟨value, hdecl, -⟩ := mergedPad_eq v.pads spec
    rw [hdecl] at hqp
    exact (PadState.bare_eq_iff.mp hqp).2.2.2.2.2.symm.trans (hproxySpec spec hspec)
  have hprop := sameProperties_of_plan ht hspecs hplan hproxy
  have houtline := ht.outline_of_sameProperties hspecs hspecs' hprop
  rw [← PadState.map_plan_of_bare hset, List.map_map, List.map_map]
  rw [outlineOfSpecs, outlineOfSpecs, ← List.forall₂_eq_eq_eq, List.forall₂_map_left_iff,
    List.forall₂_map_right_iff] at houtline
  rw [← List.forall₂_eq_eq_eq, List.forall₂_map_left_iff, List.forall₂_map_right_iff]
  obtain ⟨hlen, hzip⟩ := List.forall₂_iff_zip.mp houtline
  refine List.forall₂_iff_zip.mpr ⟨hlen, fun {spec' spec} hmem => ?_⟩
  have hsame := hzip hmem
  obtain ⟨hspec', hspec⟩ := List.of_mem_zip hmem
  simp only [Prod.mk.injEq] at hsame
  obtain ⟨hid, htype⟩ := hsame
  have hproxy' := (ht.tame.consistent _ _ hspecs' spec' hspec').1
  by_cases hfixed : spec.padType.isProperty = true ∧ ¬ IsOperator spec.id
  · -- the property is declared in the same way, and has the same value
    have hmenu := (ht.harmless hspecs hspec hfixed.2).not_isMenu
    obtain rfl : spec' = spec := List.inj_on_of_nodup_map (ht.steady.distinct _ _ hspecs') hspec'
      (ht.steady.fixed _ _ _ _ hspecs hspecs' spec hspec hfixed.1 hmenu) hid
    rw [Function.comp_apply, Function.comp_apply, mergedPad, mergedPad]
    cases hp : findPad spec'.id v.pads with
    | none =>
      have hfind := PadState.findPad_plan spec'.id w.pads
      rw [hplan, PadState.findPad_plan, hp, Option.map_none] at hfind
      rw [Option.map_eq_none_iff.mp hfind.symm]
    | some p =>
      obtain ⟨q, hq, hqp⟩ := PadState.findPad_of_plan hplan hp
      obtain ⟨hmem, hpid⟩ := findPad_eq_some hp
      obtain ⟨-, hqtype, -, hvalue⟩ := PadState.plan_eq_iff.mp hqp
      have hkept : q.keptValue spec' = p.keptValue spec' := by
        rw [PadState.keptValue, PadState.keptValue, PadState.isProperty, PadState.isProperty,
          hqtype, hvalue (hproxy p hmem) (hpid ▸ hfixed.2)]
      rw [hq]
      simp only [PadState.merge, hkept]
  · obtain ⟨value, hdecl, hstateless⟩ := mergedPad_eq v.pads spec
    obtain ⟨value', hdecl', hstateless'⟩ := mergedPad_eq w.pads spec'
    rw [Function.comp_apply, Function.comp_apply, hdecl, hdecl']
    refine PadState.plan_eq_iff.mpr ⟨hid, htype, hproxy'.trans (hproxySpec spec hspec).symm,
      fun _ hop => ?_⟩
    have hnone : spec.padType.isProperty ≠ true := fun hprop => hfixed ⟨hprop, hop⟩
    have hvalue : value = none := by
      cases value with
      | none => rfl
      | some x => exact absurd (hstateless x rfl).1 hnone
    have hvalue' : value' = none := by
      cases value' with
      | none => rfl
      | some x => exact absurd (htype ▸ (hstateless' x rfl).1) hnone
    rw [hvalue, hvalue']
    rfl

/-- What a graph exposes (`exposedPads`) has a plan that depends on the plan of the graph only. -/
theorem plan_exposedPads (s : GraphState) :
    (s.plan.exposedPads.map PadState.ofSpec).map PadState.plan =
      (s.exposedPads.map PadState.ofSpec).map PadState.plan := by
  obtain ⟨nodes, links⟩ := s
  have hlinked : ∀ (here : PadRef) (p : PadState),
      isLinked ⟨planOfNodes nodes, links⟩ here p.plan = isLinked ⟨nodes, links⟩ here p :=
    fun _ _ => rfl
  rw [plan, exposedPads, exposedPads, planOfNodes_eq]
  simp only [List.map_flatMap, List.flatMap_map, List.map_map]
  refine congrArg (nodes.flatMap ·) (funext fun e => ?_)
  cases e
  simp only [NodeEntry.plan, List.filter_map, List.map_map, Function.comp_def,
    ← planOfNodes_eq, hlinked]
  rfl

theorem plan_exposedPads_congr (h : t.plan = s.plan) :
    (t.exposedPads.map PadState.ofSpec).map PadState.plan =
      (s.exposedPads.map PadState.ofSpec).map PadState.plan := by
  rw [← plan_exposedPads t, h, plan_exposedPads]

theorem map_mergedPad_exposedPads (s : GraphState) (pads : List PadState) :
    s.exposedPads.map (mergedPad pads) = s.exposedPads.map PadState.ofSpec := by
  refine List.map_congr_left fun spec hspec => mergedPad_of_proxy ?_ pads
  obtain ⟨f, -, p, -, -, rfl⟩ := mem_exposedPads.mp hspec
  rfl

/-- What is resolved with the plan of a settled node has this plan afterwards (`SettledAt`). -/
theorem plan_resolveNode (hset : SettledAt R external s e)
    (htype : ∀ type, e.body = .plugin type → type.IsBuiltin)
    (hinner : ∀ id inner inner₁ inner₂, e.body = .subgraph id inner →
      d.body = .subgraph id inner₁ →
      R' (externalOf d.pads (t.peerViews external' d)) inner₁ = .ok inner₂ →
      inner₂.plan = inner.plan)
    (hde : d.plan = e.plan) (h : resolveNode R' external' t d = .ok (d', changed)) :
    d'.plan = e.plan := by
  obtain ⟨hid, hname, heditor, hpads, hbody⟩ := NodeEntry.plan_eq_iff.mp hde
  obtain ⟨specs', body, hresolve, -, rfl, -⟩ := resolveNode_eq_ok h
  cases hb : e.body with
  | plugin type =>
    obtain ⟨specs, hspecs, -, hbare⟩ := hset
    obtain ⟨hspecs, -⟩ := (resolveBody_of_plugin hb).mp hspecs
    obtain ⟨hspecs', rfl⟩ :=
      (resolveBody_of_plugin (Body.plugin_of_plan hbody hb)).mp hresolve
    refine NodeEntry.plan_eq_iff.mpr ⟨hid, hname, heditor, ?_, by rw [hb]⟩
    exact plan_mergedPads (v := s.view external e) (w := t.view external' d) (htype _ hb)
      hspecs hbare hspecs' hpads
  | subgraph id inner =>
    obtain ⟨inner₁, hb₁, -⟩ := Body.subgraph_of_plan hbody hb
    obtain ⟨inner₂, hinner₂, rfl, rfl⟩ := (resolveBody_of_subgraph hb₁).mp hresolve
    have hplan₂ := hinner id inner inner₁ inner₂ hb hb₁ hinner₂
    refine NodeEntry.plan_eq_iff.mpr ⟨hid, hname, heditor, ?_, ?_⟩
    · show (inner₂.exposedPads.map (mergedPad d.pads)).map PadState.plan = _
      rw [map_mergedPad_exposedPads, plan_exposedPads_congr hplan₂,
        PadState.map_plan_of_bare (hset.resolved hb).2]
    · rw [hb, Body.plan, Body.plan, hplan₂]

end Patchbay.GraphState
