import Patchbay.Proofs.Graph.Cut
import Patchbay.Proofs.Graph.Plans
import Patchbay.Proofs.Graph.Settling

/-!
# Graphs at rest

A graph is *at rest* (`GraphState.AtRest`) when resolution leaves it as it is, under what is seen
from outside; then so are the graphs inside of its nodes (`AtRest.inside`). A graph that has the
nodes of such a graph, with other types, is a *draft* of it (`GraphState.Draft`). Whatever comes
of resolving a draft is at rest, with the plan of the draft (`AtRest.of_draft`).

Graphs at rest and drafts are *clean* (`GraphState.Clean`): menus occur on operators only, and
operators are not linked. So all types that nodes see are broad.
-/

namespace Patchbay

/-- What is seen from outside is broad, and operators see nothing. It is what a clean graph shows
inside (`clean_externalOf`). -/
structure External.Clean (external : External) : Prop where
  broad : external.In Constraints.Broad
  noOperator : ∀ x ∈ external, ¬ IsOperator x.1.pad

namespace GraphState

variable {T : String → NodeType → Prop} {config : EngineConfig} {n m : Nat} {R : InnerResolver}
  {external external' : External} {s s' t t' : GraphState} {e d d' : NodeEntry} {p : PadState}
  {r : PadRef} {cs : Constraints} {id : Option String} {inner inner' : GraphState}
  {changed : Bool} {i : Nat}

theorem WellFormed.joined (h : s.WellFormed) (hlinks : Ordered s.links) : s.Joined :=
  ⟨fun _ hl => h.isSound hl, fun _ hk _ hl hsink => hlinks.eq_of_sink_eq hk hl hsink⟩

/-! ### Clean graphs -/

/-- Menus occur on operators only, and operators have no links. So all that pads see is broad
(`broad_peerView`), and types are compared by `Constraints.Under`. -/
structure Clean (s : GraphState) : Prop where
  broad : ∀ e ∈ s.nodes, ∀ p ∈ e.pads, ¬ IsOperator p.id → p.declared.Broad
  unlinked : ∀ l ∈ s.links, ¬ IsOperator l.source.pad ∧ ¬ IsOperator l.sink.pad

theorem broad_externalView (hext : external.Clean) (r : PadRef) :
    (externalView external r).constraints.Broad := by
  rw [externalView]
  split
  · rename_i cs hcs
    exact hext.broad.get? hcs
  · exact Constraints.broad_none

theorem externalView_of_isOperator (hext : external.Clean) (hop : IsOperator r.pad) :
    externalView external r = {} := by
  rw [externalView]
  split
  · rename_i cs hcs
    obtain ⟨x, hx, -⟩ := Option.map_eq_some_iff.mp hcs
    have hr : x.1 = r := by simpa using List.find?_some hx
    exact absurd (hr ▸ hop) (hext.noOperator x (List.mem_of_find?_eq_some hx))
  · rfl

namespace Clean

variable (hs : s.Clean)

include hs

theorem broad_declared? (hr : ¬ IsOperator r.pad) (h : s.declared? r = some cs) : cs.Broad := by
  obtain ⟨p, hp, rfl⟩ := Option.map_eq_some_iff.mp h
  obtain ⟨e, he, -, hmem, hid⟩ := pad?_eq_some hp
  exact hs.broad e he p hmem (hid ▸ hr)

/-- What a pad sees is broad. -/
theorem broad_peerView (hext : external.Clean) (r : PadRef) (p : PadState) :
    (s.peerView external r p).constraints.Broad := by
  have hview := broad_externalView hext r
  cases hp : p.isSource with
  | true =>
    have hall : ∀ cs ∈ (s.downstream r).filterMap s.declared?, cs.Broad := by
      intro cs hcs
      obtain ⟨q, hq, hcs⟩ := List.mem_filterMap.mp hcs
      exact hs.broad_declared? (hs.unlinked _ (mem_downstream.mp hq)).2 hcs
    rw [peerView_source hp]
    split
    · exact hview
    · rename_i sinks heq
      exact Constraints.broad_none.foldl_intersect hall
  | false =>
    rw [peerView_sink hp]
    split
    · rename_i cs hcs
      obtain ⟨q, hq, hcs⟩ := Option.bind_eq_some_iff.mp hcs
      exact hs.broad_declared? (hs.unlinked _ (feeder_eq_some hq)).1 hcs
    · exact hview

theorem peerView_of_isOperator (hext : external.Clean) (hop : IsOperator r.pad) (p : PadState) :
    s.peerView external r p = {} := by
  have hview := externalView_of_isOperator hext hop
  cases hp : p.isSource with
  | true =>
    have hnil : s.downstream r = [] := List.eq_nil_iff_forall_not_mem.mpr fun q hq =>
      (hs.unlinked _ (mem_downstream.mp hq)).1 hop
    rw [peerView_source hp, hnil]
    exact hview
  | false =>
    have hnone : s.feeder r = none := Option.eq_none_iff_forall_not_mem.mpr fun q hq =>
      (hs.unlinked _ (feeder_eq_some hq)).2 hop
    rw [peerView_sink hp, hnone]
    exact hview

/-- What proxies show inside is clean. -/
theorem clean_externalOf (hext : external.Clean)
    (hproxy : ∀ p ∈ e.pads, ∀ r, p.proxy = some r → p.id = proxyPadId r) :
    (externalOf e.pads (s.peerViews external e)).Clean := by
  refine ⟨externalOf_in fun x hx => ?_, fun x hx hop => ?_⟩
  · obtain ⟨p, -, rfl⟩ := List.mem_map.mp hx
    exact hs.broad_peerView hext _ _
  · obtain ⟨p, hp, hx⟩ := List.mem_filterMap.mp hx
    split at hx
    · rename_i target peer htarget hpeer
      split at hx
      · rename_i hconnected
        cases hx
        rw [peerViews, lookupKey_map p.id e.pads fun q => s.peerView external ⟨e.id, q.id⟩ q]
          at hpeer
        obtain ⟨q, hq, rfl⟩ := Option.map_eq_some_iff.mp hpeer
        have hqid := (findPad_eq_some hq).2
        have hop' : IsOperator q.id := by
          rw [hqid, hproxy p hp _ htarget]
          exact (isOperator_proxyPadId _).mpr hop
        rw [hs.peerView_of_isOperator hext hop'] at hconnected
        cases hconnected
      · cases hx
    · cases hx

theorem broad_peerConstraints (hext : external.Clean) (e : NodeEntry) (id : String) :
    ((s.view external e).peerConstraints id).Broad := by
  refine NodeView.peerConstraints_in Constraints.broad_none (fun x hx => ?_) id
  obtain ⟨p, -, rfl⟩ := List.mem_map.mp hx
  exact hs.broad_peerView hext _ _

end Clean

/-! ### Rest -/

/-- Resolution leaves the graph as it is, under what is seen from outside. At the outermost graph
nothing is seen from there, and in the graphs inside it is what the pads of the node show
(`AtRest.inside`). -/
structure AtRest (T : String → NodeType → Prop) (config : EngineConfig) (n : Nat)
    (external : External) (s : GraphState) : Prop where
  nested : s.Nested T Constraints.Plain n
  wellFormed : s.Everywhere WellFormed
  clean : s.Everywhere Clean
  seen : external.Clean
  fixed : reconcileWithin config n external s = .ok s

/-- What has the nodes of the graph `s`, as far as types have no influence on them
(`NodeEntry.plan`), and links that are possible in `s`. Its types are arbitrary, as long as they
are broad. -/
structure Draft (T : String → NodeType → Prop) (n : Nat) (s t : GraphState) : Prop where
  nodes : t.nodes.map NodeEntry.plan = s.nodes.map NodeEntry.plan
  sound : ∀ l ∈ t.links, s.isSound l = true
  nested : t.Nested T Constraints.Plain n
  clean : t.Everywhere Clean

theorem Draft.plan_at (ht : Draft T n s t) (he : s.nodes[i]? = some e)
    (hd : t.nodes[i]? = some d) :
    d.plan = e.plan := by
  obtain ⟨c, hc, hplan⟩ := getElem?_of_plan ht.nodes he
  obtain rfl := Option.some.inj (hd.symm.trans hc)
  exact hplan

theorem AtRest.joined (hs : AtRest T config n external s) : s.Joined :=
  hs.wellFormed.self.joined hs.nested.2.self.ordered

theorem AtRest.plain (hs : AtRest T config n external s) : external.In Constraints.Plain :=
  fun x hx => (hs.seen.broad x hx).plain

theorem Draft.inside (hs : AtRest T config (m + 1) external s) (ht : Draft T (m + 1) s t)
    (he : e ∈ s.nodes) (hd : d ∈ t.nodes) (hde : d.plan = e.plan)
    (hb : e.body = .subgraph id inner) :
    ∃ inner', d.body = .subgraph id inner' ∧ inner'.plan = inner.plan ∧
    Draft T m inner inner' := by
  obtain ⟨inner', hb', hplan⟩ := Body.subgraph_of_plan (NodeEntry.plan_eq_iff.mp hde).2.2.2.2 hb
  refine ⟨inner', hb', hplan, (plan_eq_iff.mp hplan).1, fun l hl => ?_, ?_,
    ht.clean.body hd _ _ hb'⟩
  · exact (hs.wellFormed.body he _ _ hb).self.isSound (links_of_plan hplan ▸ hl)
  · exact ((nested_succ_iff.mp ht.nested).fit d hd).inner _ _ hb'

section

variable (hT : ∀ name type, T name type → type.IsBuiltin)

include hT

theorem Nested.builtin (hs : s.Nested T Constraints.Plain n) (he : e ∈ s.nodes) {type : NodeType}
    (hb : e.body = .plugin type) : type.IsBuiltin :=
  hT e.nodeType type (by simpa only [hb, Body.OfType] using hs.2.self.types e he)

namespace AtRest

variable (hs : AtRest T config n external s)

include hs

theorem reconciled : Reconciled (innerResolver config n) external s :=
  reconciled_of_reconcileWithin (fun name type h => (hT name type h).tame) hs.plain hs.nested
    hs.fixed

theorem settledAt (he : e ∈ s.nodes) : SettledAt (innerResolver config n) external s e :=
  (hs.reconciled hT).settled e he

/-- The ids of proxies are made of what they stand for (`proxyPadId`). -/
theorem proxy_id (he : e ∈ s.nodes) (hde : d.plan = e.plan) (hp : p ∈ d.pads)
    (hr : p.proxy = some r) : p.id = proxyPadId r := by
  obtain ⟨q, hq, hqp⟩ : ∃ q ∈ e.pads, q.outline = p.outline := by
    have hmem : p.outline ∈ e.pads.map PadState.outline :=
      PadState.map_outline_of_plan (NodeEntry.plan_eq_iff.mp hde).2.2.2.1 ▸ List.mem_map_of_mem hp
    exact List.mem_map.mp hmem
  obtain ⟨hid, -, hproxy⟩ := PadState.outline_eq_iff.mp hqp
  have hset := hs.settledAt hT he
  cases hb : e.body with
  | plugin type =>
    obtain ⟨specs, hspecs, -, hbare⟩ := hset
    obtain ⟨spec, hspec, hmerged⟩ : ∃ spec ∈ specs, (mergedPad e.pads spec).bare = q.bare := by
      have hmem : q.bare ∈ (specs.map (mergedPad e.pads)).map PadState.bare :=
        hbare ▸ List.mem_map_of_mem hq
      rw [List.map_map] at hmem
      exact List.mem_map.mp hmem
    obtain ⟨hspecs, -⟩ := (resolveBody_of_plugin hb).mp hspecs
    have hnone := ((hs.nested.builtin hT he hb).tame.consistent _ _ hspecs spec hspec).1
    obtain ⟨value, hdecl, -⟩ := mergedPad_eq e.pads spec
    rw [hdecl] at hmerged
    have hq : spec.proxy = q.proxy := (PadState.bare_eq_iff.mp hmerged).2.2.2.2.2
    rw [hnone, hproxy, hr] at hq
    cases hq
  | subgraph id inner =>
    obtain ⟨_, r', hstands⟩ := mem_pads_of_settled hset hb (hs.wellFormed.body he _ _ hb).self hq
    have hr' := hstands.proxy
    rw [hproxy, hr, Option.some.injEq] at hr'
    rw [← hid, hstands.id, hr']

/-- The graphs inside are at rest as well, under what their nodes see (`externalOf`). The depth is
one less, on which inductions go. -/
theorem inside (he : e ∈ s.nodes) (hb : e.body = .subgraph id inner) :
    ∃ m, n = m + 1 ∧ AtRest T config m (externalOf e.pads (s.peerViews external e)) inner := by
  have hset := (hs.settledAt hT he).resolved hb
  cases n with
  | zero => exact (((nested_zero_iff.mp hs.nested).fit e he).inner _ _ hb).elim
  | succ m =>
    exact ⟨m, rfl, ((nested_succ_iff.mp hs.nested).fit e he).inner _ _ hb,
      hs.wellFormed.body he _ _ hb, hs.clean.body he _ _ hb,
      hs.clean.self.clean_externalOf hs.seen fun _ hp _ => hs.proxy_id hT he rfl hp, hset.1⟩

/-- What a graph at rest exposes is broad, but for operators. -/
theorem broad_of_exposed {spec : PadSpec} (hspec : spec ∈ s.exposedPads)
    (hop : ¬ IsOperator spec.id) : spec.constraints.Broad := by
  obtain ⟨f, hf, q, hq, hlinked, rfl⟩ := mem_exposedPads.mp hspec
  have hwf := hs.wellFormed.self
  have hpad : s.pad? ⟨f.id, q.id⟩ = some q := by
    rw [pad?_of_mem hwf.distinctNodes hf, findPad_of_mem (hwf.distinctPads f hf) hq]
  have hdecl := hs.clean.self.broad f hf q hq ((isOperator_proxyPadId _).not.mp hop)
  have heff := effective_of_narrowed hwf (hs.reconciled hT).narrowed hpad hlinked
  show q.effective.Broad
  rw [heff]
  exact hdecl.narrowedBy (broad_externalView hs.seen _)

end AtRest

/-! ### Drafts -/

/-- What resolution makes of one node of a draft: a node with the same plan, with broad
declarations, and with a graph inside that is at rest. -/
theorem Draft.resolveNode (hs : AtRest T config n external s) (ht : Draft T n s t)
    (hext : external'.Clean) (he : e ∈ s.nodes) (hd : d ∈ t.nodes)
    (hde : d.plan = e.plan)
    (hin : ∀ m ext ext' g g₁ g₂, n = m + 1 → AtRest T config m ext g → Draft T m g g₁ →
      ext'.Clean → reconcileWithin config m ext' g₁ = .ok g₂ →
      AtRest T config m ext' g₂ ∧ g₂.plan = g₁.plan)
    (h : resolveNode (innerResolver config n) external' t d = .ok (d', changed)) :
    d'.plan = e.plan ∧ (∀ p ∈ d'.pads, ¬ IsOperator p.id → p.declared.Broad) ∧
      d'.body.Inside fun g => ∃ m, n = m + 1 ∧
        AtRest T config m (externalOf d.pads (t.peerViews external' d)) g := by
  have hsees := ht.clean.self.clean_externalOf (e := d) hext fun _ hp _ => hs.proxy_id hT he hde hp
  have hinside : ∀ id inner inner₁ inner₂, e.body = .subgraph id inner →
      d.body = .subgraph id inner₁ →
      innerResolver config n (externalOf d.pads (t.peerViews external' d)) inner₁ = .ok inner₂ →
      ∃ m, n = m + 1 ∧ AtRest T config m (externalOf d.pads (t.peerViews external' d)) inner₂ ∧
        inner₂.plan = inner.plan := by
    intro id inner inner₁ inner₂ hb hb₁ hr
    obtain ⟨m, rfl, hrest⟩ := hs.inside hT he hb
    obtain ⟨inner', hb', hplan, hdraft⟩ := ht.inside hs he hd hde hb
    obtain ⟨-, rfl⟩ := Body.subgraph.inj (hb₁.symm.trans hb')
    obtain ⟨hrest', hplan'⟩ := hin m _ _ _ _ _ rfl hrest hdraft hsees hr
    exact ⟨m, rfl, hrest', hplan'.trans hplan⟩
  have hplan := plan_resolveNode (hs.settledAt hT he) (fun type => hs.nested.builtin hT he)
    (fun id inner inner₁ inner₂ hb hb₁ hr =>
      (hinside id inner inner₁ inner₂ hb hb₁ hr).choose_spec.2.2) hde h
  obtain ⟨specs, body, hbody, -, rfl, -⟩ := resolveNode_eq_ok h
  have hspecs : (∀ spec ∈ specs, ¬ IsOperator spec.id → spec.constraints.Broad) ∧
      body.Inside fun g => ∃ m, n = m + 1 ∧
        AtRest T config m (externalOf d.pads (t.peerViews external' d)) g := by
    cases hb : e.body with
    | plugin type =>
      have hb' := Body.plugin_of_plan (NodeEntry.plan_eq_iff.mp hde).2.2.2.2 hb
      obtain ⟨hspecs, rfl⟩ := (resolveBody_of_plugin hb').mp hbody
      exact ⟨fun spec hspec hop => (hs.nested.builtin hT he hb).broad hspecs
        (ht.clean.self.broad_peerConstraints hext d) hspec hop, Body.inside_plugin _ _⟩
    | subgraph id inner =>
      obtain ⟨inner₁, hb₁, -⟩ := Body.subgraph_of_plan (NodeEntry.plan_eq_iff.mp hde).2.2.2.2 hb
      obtain ⟨inner₂, hr, rfl, rfl⟩ := (resolveBody_of_subgraph hb₁).mp hbody
      obtain ⟨m, hm, hrest, -⟩ := hinside id inner inner₁ inner₂ hb hb₁ hr
      exact ⟨fun spec hspec hop => hrest.broad_of_exposed hT hspec hop,
        (Body.inside_subgraph _ _ _).mpr ⟨m, hm, hrest⟩⟩
  refine ⟨hplan, fun p hp hop => ?_, hspecs.2⟩
  obtain ⟨spec, hspec, rfl⟩ := List.mem_map.mp hp
  obtain ⟨value, hdecl, -⟩ := mergedPad_eq d.pads spec
  rw [hdecl] at hop ⊢
  exact hspecs.1 spec hspec hop

/-- How the graphs inside of which subgraphs nest less than `n` deep are resolved, as the lemmas
about passes ask for it (`Resolves`). -/
theorem resolves_innerResolver (config : EngineConfig) (n : Nat) : ∃ P : GraphState → Prop,
    (∀ s : GraphState, s.Nested T Constraints.Plain n ↔ s.OrderlyOver T Constraints.Plain P) ∧
      Resolves T Constraints.Plain P (Everywhere WellFormed) (innerResolver config n) := by
  cases n with
  | zero =>
    exact ⟨_, fun _ => nested_zero_iff, fun _ => False.elim, fun _ _ _ _ => False.elim⟩
  | succ n =>
    exact ⟨_, fun _ => nested_succ_iff, fun _ hg => hg.2.self, fun _ _ _ hext hg hr =>
      reconcileWithin_spec (Regime.tame fun name type h => (hT name type h).tame) hext hg hr⟩

/-- One more node of a draft was resolved, and it is a draft still. -/
theorem Draft.set (ht : Draft T n s t) (hext : external'.Clean)
    (he : s.nodes[i]? = some e) (hd : t.nodes[i]? = some d) (hplan : d'.plan = e.plan)
    (hbroad : ∀ p ∈ d'.pads, ¬ IsOperator p.id → p.declared.Broad)
    (hclean : d'.body.Inside (Everywhere Clean))
    (h : GraphState.resolveNode (innerResolver config n) external' t d = .ok (d', changed)) :
    Draft T n s { t with nodes := t.nodes.set i d' } := by
  obtain ⟨P, hP, hres⟩ := resolves_innerResolver hT config n
  have hstep : resolveAt (innerResolver config n) external' t i =
      .ok ({ t with nodes := t.nodes.set i d' }, changed) := by
    rw [resolveAt, hd]
    simp only [h, Except.map]
  have horderly := (resolveAt_spec (Regime.tame fun name type h => (hT name type h).tame) hres
    (fun x hx => (hext.broad x hx).plain) ((hP t).mp ht.nested) hstep).1.orderly
  have hd₀ := ht.plan_at he hd
  refine ⟨?_, ht.sound, (hP _).mpr horderly, everywhere_iff.mpr ⟨⟨?_, ht.clean.self.unlinked⟩, ?_⟩⟩
  · exact (map_set_of_eq hd (hplan.trans hd₀.symm)).trans ht.nodes
  · intro f hf
    rcases List.mem_or_eq_of_mem_set hf with hf | rfl
    · exact ht.clean.self.broad f hf
    · exact hbroad
  · intro f hf
    rcases List.mem_or_eq_of_mem_set hf with hf | rfl
    · exact ht.clean.body hf
    · exact hclean

/-- What is kept by resolving one node of a draft after the other is kept by resolving the draft,
if the graphs inside come to rest. The nodes that were resolved before can be told. The two forms
without the condition follow from it (`Draft.invariant_ordered`, `Draft.invariant`). -/
theorem Draft.invariant_of {I : List Nat → GraphState → Prop} (hs : AtRest T config n external s)
    (ht : Draft T n s t) (hext : external'.Clean)
    (hin : ∀ m ext ext' g g₁ g₂, n = m + 1 → AtRest T config m ext g → Draft T m g g₁ →
      ext'.Clean → reconcileWithin config m ext' g₁ = .ok g₂ →
      AtRest T config m ext' g₂ ∧ g₂.plan = g₁.plan)
    (hstep : ∀ u i e d d' changed placed, (∀ j, Before t.dependencyOrder j i → j ∈ placed) →
      Draft T n s u → u.links = t.links → I placed u → s.nodes[i]? = some e →
      u.nodes[i]? = some d → d.plan = e.plan →
      GraphState.resolveNode (innerResolver config n) external' u d = .ok (d', changed) →
      d'.plan = e.plan →
      (d'.body.Inside fun g => ∃ m, n = m + 1 ∧
        AtRest T config m (externalOf d.pads (u.peerViews external' d)) g) →
      I (placed ++ [i]) { u with nodes := u.nodes.set i d' })
    (hI : I [] t) (h : reconcileWithin config n external' t = .ok t') :
    ∃ u placed, Draft T n s u ∧ u.links = t.links ∧ I placed u ∧ t'.bare = u.bare := by
  have hone : ∀ u u' i changed placed front rest, t.dependencyOrder = front ++ i :: rest →
      front ⊆ placed → Draft T n s u ∧ u.links = t.links ∧ I placed u →
      resolveAt (innerResolver config n) external' u i = .ok (u', changed) →
      Draft T n s u' ∧ u'.links = t.links ∧ I (placed ++ [i]) u' := by
    rintro u u' i changed placed front rest horder hfront ⟨hu, hlinks, hIu⟩ hres
    obtain ⟨hnone, -⟩ | ⟨d, d', hd, hnode, rfl⟩ := resolveAt_cases hres
    · -- the order has places of nodes only
      have hlt := (t.feeding_dependencyOrder.2.1 i).mp (horder ▸ by simp)
      rw [← length_of_plan ht.nodes.symm, length_of_plan hu.nodes.symm] at hlt
      exact absurd hnone (by simp [hlt])
    · obtain ⟨e, he, hde⟩ := getElem?_of_plan hu.nodes.symm hd
      obtain ⟨hplan, hbroad, hrest⟩ := hu.resolveNode hT hs hext (List.mem_of_getElem? he)
        (List.mem_of_getElem? hd) hde.symm hin hnode
      have hbefore : ∀ j, Before t.dependencyOrder j i → j ∈ placed := by
        intro j hj
        have hnd : (front ++ i :: rest).Nodup := horder ▸ t.feeding_dependencyOrder.1
        rw [horder, before_append_cons_iff
          (List.nodup_cons.mp (List.nodup_append.mp hnd).2.1).1] at hj
        exact hfront hj
      refine ⟨hu.set hT hext he hd hplan hbroad (hrest.mono ?_) hnode, hlinks,
        hstep u i e d d' changed placed hbefore hu hlinks hIu he hd hde.symm hnode hplan hrest⟩
      rintro g ⟨m, -, hg⟩
      exact hg.clean
  have hprune : ∀ placed u, Draft T n s u ∧ u.links = t.links ∧ I placed u →
      Draft T n s u.pruneLinks.1 ∧ u.pruneLinks.1.links = t.links ∧ I placed u.pruneLinks.1 := by
    rintro placed u ⟨hu, hlinks, hIu⟩
    rw [pruneLinks_of_sound fun l hl => isSound_of_plan hu.nodes (hu.sound l hl)]
    exact ⟨hu, hlinks, hIu⟩
  rw [reconcileWithin_eq] at h
  obtain ⟨u₀, u, u₂, ⟨placed, hu₀⟩, hpass, hnarrow, rfl⟩ := reconcileWith_eq_ok
    (I := fun u => ∃ placed, Draft T n s u ∧ u.links = t.links ∧ I placed u) rfl
    (fun u u' changed ⟨placed, hu⟩ hpass => ⟨_, pass_ordered hone hprune hu hpass⟩)
    ⟨[], ht, rfl, hI⟩ h
  obtain ⟨hu, hlinks, hIu⟩ := pass_ordered hone hprune hu₀ hpass
  exact ⟨u, _, hu, hlinks, hIu, (bare_markResolved u₂).trans (narrow_agrees hnarrow).1⟩

/-- What comes of a draft is at rest, with the plan of the draft: resolving is idempotent
(`reconcileWithin_idempotent`), and it does not touch plans (`plan_resolveNode`). -/
theorem AtRest.of_draft (hs : AtRest T config n external s) (ht : Draft T n s t)
    (hext : external'.Clean) (h : reconcileWithin config n external' t = .ok t') :
    AtRest T config n external' t' ∧ t'.plan = t.plan := by
  induction n using Nat.strong_induction_on generalizing external external' s t t'
  rename_i n ih
  -- the graphs inside come to rest
  have hin : ∀ m ext ext' g g₁ g₂, n = m + 1 → AtRest T config m ext g → Draft T m g g₁ →
      ext'.Clean → reconcileWithin config m ext' g₁ = .ok g₂ →
      AtRest T config m ext' g₂ ∧ g₂.plan = g₁.plan := by
    rintro m ext ext' g g₁ g₂ rfl hg hg₁ hext' hg₂
    exact ih m m.lt_succ_self hg hg₁ hext' hg₂
  obtain ⟨u, -, hu, hlinks, -, hbare⟩ := ht.invariant_of hT (I := fun _ _ => True) hs hext hin
    (fun _ _ _ _ _ _ _ _ _ _ _ _ _ _ _ _ _ => trivial) trivial h
  have hplain : external'.In Constraints.Plain := fun x hx => (hext.broad x hx).plain
  have htame : ∀ name type, T name type → type.Tame := fun name type h => (hT name type h).tame
  obtain ⟨hnested, hwf⟩ := reconcileWithin_spec (Regime.tame htame) hplain ht.nested h
  have hclean : t'.Everywhere Clean := by
    refine everywhere_iff.mpr ⟨⟨fun e' he' p hp hop => ?_, fun l hl => ?_⟩, fun e' he' => ?_⟩
    · obtain ⟨e, he, hbare⟩ := exists_bare_eq hbare he'
      obtain ⟨q, hq, hqp⟩ : ∃ q ∈ e.pads, q.bare = p.bare := by
        have hmem : p.bare ∈ e.pads.map PadState.bare :=
          (NodeEntry.bare_eq_iff.mp hbare).2.2.2.1 ▸ List.mem_map_of_mem hp
        exact List.mem_map.mp hmem
      obtain ⟨hid, -, -, hdecl, -⟩ := PadState.bare_eq_iff.mp hqp
      exact hdecl ▸ hu.clean.self.broad e he q hq (hid ▸ hop)
    · exact hu.clean.self.unlinked l ((bare_eq_iff.mp hbare).2 ▸ hl)
    · obtain ⟨e, he, hbare⟩ := exists_bare_eq hbare he'
      exact (NodeEntry.bare_eq_iff.mp hbare).2.2.2.2 ▸ hu.clean.body he
  refine ⟨⟨hnested, hwf, hclean, hext, ?_⟩, (plan_of_bare hbare).trans ?_⟩
  · exact reconcileWithin_idempotent htame n _ _ _ hplain ht.nested h
  · exact plan_eq_iff.mpr ⟨hu.nodes.trans ht.nodes.symm, hlinks⟩

/-- What is kept by resolving one node of a draft after the other is kept by resolving the draft.
The nodes that were resolved before can be told, for an invariant that depends on the order. -/
theorem Draft.invariant_ordered {I : List Nat → GraphState → Prop}
    (hs : AtRest T config n external s) (ht : Draft T n s t) (hext : external'.Clean)
    (hstep : ∀ u i e d d' changed placed, (∀ j, Before t.dependencyOrder j i → j ∈ placed) →
      Draft T n s u → u.links = t.links → I placed u → s.nodes[i]? = some e →
      u.nodes[i]? = some d → d.plan = e.plan →
      GraphState.resolveNode (innerResolver config n) external' u d = .ok (d', changed) →
      d'.plan = e.plan →
      (d'.body.Inside fun g => ∃ m, n = m + 1 ∧
        AtRest T config m (externalOf d.pads (u.peerViews external' d)) g) →
      I (placed ++ [i]) { u with nodes := u.nodes.set i d' })
    (hI : I [] t) (h : reconcileWithin config n external' t = .ok t') :
    ∃ u placed, Draft T n s u ∧ u.links = t.links ∧ I placed u ∧ t'.bare = u.bare :=
  ht.invariant_of hT hs hext (fun _ _ _ _ _ _ _ hg hg₁ hext' hg₂ => hg.of_draft hT hg₁ hext' hg₂)
    hstep hI h

/-- What is kept by resolving one node of a draft after the other is kept by resolving the
draft. -/
theorem Draft.invariant {I : GraphState → Prop} (hs : AtRest T config n external s)
    (ht : Draft T n s t) (hext : external'.Clean)
    (hstep : ∀ u i e d d' changed, Draft T n s u → u.links = t.links → I u →
      s.nodes[i]? = some e → u.nodes[i]? = some d → d.plan = e.plan →
      GraphState.resolveNode (innerResolver config n) external' u d = .ok (d', changed) →
      d'.plan = e.plan →
      (d'.body.Inside fun g => ∃ m, n = m + 1 ∧
        AtRest T config m (externalOf d.pads (u.peerViews external' d)) g) →
      I { u with nodes := u.nodes.set i d' })
    (hI : I t) (h : reconcileWithin config n external' t = .ok t') :
    ∃ u, Draft T n s u ∧ u.links = t.links ∧ I u ∧ t'.bare = u.bare := by
  obtain ⟨u, -, hu⟩ := ht.invariant_ordered hT (I := fun _ => I) hs hext
    (fun u i e d d' changed _ _ => hstep u i e d d' changed) hI h
  exact ⟨u, hu⟩

end

end GraphState

end Patchbay
