import Patchbay.Proofs.Graph.Tuning

/-!
# Operands that are certain

While a graph is loaded, its types are not there yet, and a compare may be resolved before its
operands have theirs. Its operator keeps its value if one of the operands is *certain*: it is fed
by a pad which permits no values to compare but those of one kind, whatever is fed to the graph,
and which is resolved before the compare (`GraphState.Certain`). Such kinds come from pads that
nothing moves, and are passed on through relays, also through those inside subgraphs
(`GraphState.Passes`).

A graph is *decided* if every operator that holds more than an idle value has such an operand
(`GraphState.Decided`). Drafts above it come out of resolution tuned to it (`AtRest.tuned`).
-/

namespace Patchbay.GraphState

variable {T : String → NodeType → Prop} {config : EngineConfig} {n m : Nat}
  {external external' : External} {s t t' u : GraphState} {e d d' : NodeEntry} {p q : PadState}
  {r x : PadRef} {l : Link} {id : Option String} {inner : GraphState} {i j : Nat} {changed : Bool}
  {type : NodeType} {k : Constraint.Kind} {y z : String}

/-! ### Relays -/

/-- What a pad sees is handed on to another pad, from relay to relay, in the graph or inside of its
subgraphs. -/
inductive Passes : GraphState → PadRef → PadRef → Prop
  | relay {s : GraphState} {e : NodeEntry} {type : NodeType} {y : String}
      (node : s.node? y = some e) (body : e.body = .plugin type) (relay : type.IsRelay) :
      Passes s ⟨y, Passthrough.input⟩ ⟨y, Passthrough.output⟩
  | inside {s : GraphState} {e : NodeEntry} {id : Option String} {inner : GraphState}
      {y : String} {x r : PadRef} (node : s.node? y = some e) (body : e.body = .subgraph id inner)
      (free : inner.Unlinked x) (passes : Passes inner x r) :
      Passes s ⟨y, proxyPadId x⟩ ⟨y, proxyPadId r⟩
  | link {s : GraphState} {l : Link} {x r : PadRef} (first : Passes s x l.source)
      (link : l ∈ s.links) (next : Passes s l.sink r) : Passes s x r

/-- What the pad `y` of the node sees is handed on to its pad `z`: the node is a relay, or a
subgraph in which it is passed on (`Passes`). -/
inductive Hands (e : NodeEntry) : String → String → Prop
  | relay {type : NodeType} (body : e.body = .plugin type) (relay : type.IsRelay) :
      Hands e Passthrough.input Passthrough.output
  | inside {id : Option String} {inner : GraphState} {x r : PadRef}
      (body : e.body = .subgraph id inner) (free : inner.Unlinked x)
      (passes : inner.Passes x r) : Hands e (proxyPadId x) (proxyPadId r)

theorem Passes.not_isOperator (h : s.Passes x r) : ¬ IsOperator r.pad := by
  induction h with
  | relay => exact (by decide : ¬ IsOperator Passthrough.output)
  | inside _ _ _ _ ih => exact (isOperator_proxyPadId _).not.mpr ih
  | link _ _ _ _ ih => exact ih

theorem Hands.not_isOperator (h : Hands e y z) : ¬ IsOperator z := by
  cases h with
  | relay => decide
  | inside _ _ passes => exact (isOperator_proxyPadId _).not.mpr passes.not_isOperator

/-- What is handed on depends on the plan of the graph only. -/
theorem Passes.of_plan (h : s.Passes x r) (hwf : s.Everywhere WellFormed)
    (hplan : t.plan = s.plan) :
    t.Passes x r := by
  induction h generalizing t with
  | relay node body relay =>
    obtain ⟨i, d, hd, -, -, hde⟩ :=
      exists_node_of_plan (nodes_of_plan hplan) hwf.self.distinctNodes node
    exact .relay hd (Body.plugin_of_plan (NodeEntry.plan_eq_iff.mp hde).2.2.2.2 body) relay
  | @inside s e id inner y x r node body free passes ih =>
    obtain ⟨i, d, hd, he, -, hde⟩ :=
      exists_node_of_plan (nodes_of_plan hplan) hwf.self.distinctNodes node
    obtain ⟨inner', body', hplan'⟩ :=
      Body.subgraph_of_plan (NodeEntry.plan_eq_iff.mp hde).2.2.2.2 body
    refine .inside hd body' ?_ (ih (hwf.body (List.mem_of_getElem? he) _ _ body) hplan')
    rw [Unlinked, links_of_plan hplan']
    exact free
  | link first link next ih ih' =>
    exact .link (ih hwf hplan) (links_of_plan hplan ▸ link) (ih' hwf hplan)

theorem Hands.of_plan (h : Hands e y z) (hwf : e.body.Inside (Everywhere WellFormed))
    (hplan : d.plan = e.plan) : Hands d y z := by
  have hbody := (NodeEntry.plan_eq_iff.mp hplan).2.2.2.2
  cases h with
  | relay body relay => exact .relay (Body.plugin_of_plan hbody body) relay
  | inside body free passes =>
    obtain ⟨inner', body', hplan'⟩ := Body.subgraph_of_plan hbody body
    refine .inside body' ?_ (passes.of_plan (hwf _ _ body) hplan')
    rw [Unlinked, links_of_plan hplan']
    exact free

/-- The output of a relay declares what its input sees. -/
theorem Outcome.behind_relay (hs : AtRest T config n external s) (he : e ∈ s.nodes)
    (h : Outcome T config n e (u.peerViews external' e) d) (hb : e.body = .plugin type)
    (hrelay : type.IsRelay) : d.behind Passthrough.output =
      u.seen external' e Passthrough.input := by
  obtain ⟨pads, specs, -, hspecs, hbare⟩ := h.plugin type hb
  obtain ⟨front, -, -, hresolve⟩ := hrelay.resolve
  rw [hresolve, Except.ok.injEq, peerConstraints_peerViews] at hspecs
  subst hspecs
  have hmem : (mergedPad pads (relayOutput (u.seen external' e Passthrough.input))).bare ∈
      d.pads.map PadState.bare := by
    rw [hbare]
    exact List.mem_map_of_mem (List.mem_map_of_mem (List.mem_append_right _ List.mem_cons_self))
  obtain ⟨q, hq, hqb⟩ := List.mem_map.mp hmem
  obtain ⟨value, hdecl, -⟩ :=
    mergedPad_eq pads (relayOutput (u.seen external' e Passthrough.input))
  rw [hdecl] at hqb
  obtain ⟨hqid, -, -, hcs, -⟩ := PadState.bare_eq_iff.mp hqb
  have hnd : (d.pads.map (·.id)).Nodup := by
    rw [PadState.map_id_of_plan (NodeEntry.plan_eq_iff.mp h.plan).2.2.2.1]
    exact hs.wellFormed.self.distinctPads e he
  have hfind : findPad Passthrough.output d.pads = some q := by
    have hid : q.id = Passthrough.output := hqid
    exact hid ▸ findPad_of_mem hnd hq
  rw [NodeEntry.behind_of_plugin
    (Body.plugin_of_plan (NodeEntry.plan_eq_iff.mp h.plan).2.2.2.2 hb), hfind, Option.bind_some]
  exact hcs

/-! ### What is handed on -/

/-- What the pad at an address sees, which is `GraphState.seen` at its node. -/
def seenAt (s : GraphState) (external : External) (r : PadRef) : Constraints :=
  (s.node? r.node).bind fun e => s.seen external e r.pad

theorem Passes.exists_node (h : s.Passes x r) :
    (∃ e, s.node? x.node = some e) ∧ ∃ e, s.node? r.node = some e := by
  induction h with
  | relay node => exact ⟨⟨_, node⟩, _, node⟩
  | inside node => exact ⟨⟨_, node⟩, _, node⟩
  | link _ _ _ ih ih' => exact ⟨ih.1, ih'.2⟩

theorem Clean.broad_seenAt (hs : s.Clean) (hext : external.Clean) (r : PadRef) :
    (s.seenAt external r).Broad := by
  rw [seenAt]
  cases s.node? r.node with
  | none => exact Constraints.broad_none
  | some e => exact hs.broad_seen hext e r.pad

section

variable (hT : ∀ name type, T name type → type.IsBuiltin)

include hT

/-- A pad inside without links sees what the pad of the node sees that stands for it. -/
theorem AtRest.seenAt_inside (hs : AtRest T config n external s) (he : e ∈ s.nodes)
    {inner' : GraphState} (hb : e.body = .subgraph id inner) (hplan : inner'.plan = inner.plan)
    (u : GraphState) (ext : External) (hx : ∃ f, inner'.node? x.node = some f)
    (hfree : inner'.Unlinked x) : u.seen ext e (proxyPadId x) = none ∨
      inner'.seenAt (externalOf e.pads (u.peerViews ext e)) x = u.seen ext e (proxyPadId x) := by
  have hnd := hs.wellFormed.self.distinctPads e he
  have hinner := (hs.wellFormed.body he _ _ hb).self
  have hset := hs.settledAt hT he
  have hnodes := nodes_of_plan hplan
  cases hp : findPad (proxyPadId x) e.pads with
  | none => exact .inl (by rw [GraphState.seen, hp]; rfl)
  | some p =>
    right
    obtain ⟨hmem, hpid⟩ := findPad_eq_some hp
    obtain ⟨c, r, hstands⟩ := mem_pads_of_settled hset hb hinner hmem
    obtain ⟨f, hf⟩ := hx
    -- the pad stands for the one at `x`, for there is no colon in the ids of nodes
    obtain ⟨i, f', -, hf₁, hf₂, hff⟩ := exists_node_of_plan hnodes.symm
      (ids_of_plan hnodes ▸ hinner.distinctNodes) hf
    have hcolon : ':' ∉ x.node.toList := by
      rw [← (node?_eq_some hf).2, ← (NodeEntry.plan_eq_iff.mp hff).1]
      exact (hinner.validIds f' (List.mem_of_getElem? hf₂)).2.1
    obtain rfl : r = x := by
      obtain ⟨f'', hf'', hid, -⟩ := pad?_eq_some hstands.pad
      have hparse : parseProxyPadId p.id = some r :=
        parseProxyPadId_eq_some_iff.mpr ⟨hstands.id, hid ▸ (hinner.validIds f'' hf'').2.1⟩
      exact Option.some.inj
        (hparse.symm.trans (parseProxyPadId_eq_some_iff.mpr ⟨hpid, hcolon⟩))
    obtain ⟨c', hc', -⟩ := pad?_of_plan hnodes hstands.pad
    obtain ⟨f₀, hf₀, hc'⟩ := Option.bind_eq_some_iff.mp hc'
    obtain rfl := Option.some.inj (hf.symm.trans hf₀)
    have hc' : findPad r.pad f.pads = some c' := hc'
    obtain ⟨-, hcid⟩ := findPad_eq_some hc'
    rw [seenAt, hf, Option.bind_some, GraphState.seen, hc', Option.bind_some, GraphState.seen, hp,
      Option.bind_some, (node?_eq_some hf).2, hcid, peerView_unlinked hfree,
      externalView_of_settled hnd hset hb hinner u ext hmem hstands.proxy]

/-- A graph at rest hands on no more than what is seen. This is the soundness of `Passes`, by
induction along the relays. -/
theorem Passes.behind_under (h : s.Passes x r) (hs : AtRest T config n external s) :
    (s.behind r).Under (s.seenAt external x) := by
  induction h generalizing n external with
  | @relay s e type y node body relay =>
    obtain ⟨he, rfl⟩ := node?_eq_some node
    rw [behind_of_mem hs.wellFormed.self.distinctNodes he,
      (hs.outcome hT he).behind_relay hs he body relay, seenAt, node, Option.bind_some]
    exact (hs.clean.self.broad_seen hs.seen e _).under_self
  | @inside s e id inner y x r node body free passes ih =>
    obtain ⟨he, rfl⟩ := node?_eq_some node
    obtain ⟨m, rfl, hrest⟩ := hs.inside hT he body
    rw [behind_of_mem hs.wellFormed.self.distinctNodes he, seenAt, node, Option.bind_some]
    obtain ⟨hx, f, hf⟩ := passes.exists_node
    obtain hnone | heq := hs.seenAt_inside hT he body rfl s external hx free
    · rw [hnone]
      exact Constraints.under_none _
    · obtain ⟨hf, hfid⟩ := node?_eq_some hf
      have hcolon : ':' ∉ r.node.toList :=
        hfid ▸ ((hs.wellFormed.body he _ _ body).self.validIds f hf).2.1
      rw [← heq, NodeEntry.behind_of_subgraph body hcolon]
      exact ih hrest
  | @link s l x r first link next ih ih' =>
    obtain ⟨p, q, hp, hq, -, hqs⟩ := hs.joined.ends link
    obtain ⟨hopsource, -⟩ := hs.clean.self.unlinked l link
    have hsink : s.seenAt external l.sink = s.declaredAt l.source := by
      obtain ⟨f, hf, hqf⟩ := Option.bind_eq_some_iff.mp hq
      obtain ⟨hfmem, hfid⟩ := node?_eq_some hf
      obtain ⟨hqmem, hqid⟩ := findPad_eq_some hqf
      rw [seenAt, hf, Option.bind_some, ← hqid]
      exact hs.joined.seen_sink (hs.wellFormed.self.distinctPads f hfmem) hqmem hqs link
        (by rw [hfid, hqid])
    have hlow := broad_behind s hs.clean next.not_isOperator
    have hdecl := hs.clean.self.broad_declaredAt hopsource
    have hsource := broad_behind s hs.clean hopsource
    have hfed := hsink ▸ ih' hs
    exact (hfed.trans (hs.declaredAt_under_behind hT hp hopsource) hlow.toSlim hdecl.toSlim
      hsource.toSlim).trans (ih hs) hlow.toSlim hsource.toSlim
      (hs.clean.self.broad_seenAt hs.seen x).toSlim

/-- What comes of a node hands on no more than what it sees. -/
theorem Outcome.behind_under_of_hands (hs : AtRest T config n external s) (he : e ∈ s.nodes)
    (h : Outcome T config n e (u.peerViews external' e) d) (hu : u.Clean) (hext : external'.Clean)
    (hhands : Hands e y z) : (d.behind z).Under (u.seen external' e y) := by
  have hbody := (NodeEntry.plan_eq_iff.mp h.plan).2.2.2.2
  cases hhands with
  | relay body relay =>
    rw [h.behind_relay hs he body relay]
    exact (hu.broad_seen hext e _).under_self
  | @inside id inner x r body free passes =>
    obtain ⟨inner', body', hplan⟩ := Body.subgraph_of_plan hbody body
    obtain ⟨⟨m, rfl, hrest⟩, -⟩ := h.inside _ _ body'
    have hwf := hs.wellFormed.body he _ _ body
    have hpasses := passes.of_plan hwf hplan
    have hfree : inner'.Unlinked x := by
      rw [Unlinked, links_of_plan hplan]
      exact free
    obtain ⟨hx, f, hf⟩ := hpasses.exists_node
    obtain hnone | heq := hs.seenAt_inside hT he body hplan u external' hx hfree
    · rw [hnone]
      exact Constraints.under_none _
    · obtain ⟨hf, hfid⟩ := node?_eq_some hf
      have hcolon : ':' ∉ r.node.toList := hfid ▸ (hrest.wellFormed.self.validIds f hf).2.1
      rw [← heq, NodeEntry.behind_of_subgraph body' hcolon]
      exact hpasses.behind_under hT hrest

end

/-! ### Certain kinds -/

/-- Of the values that can be compared the pad permits those of the kind only, whatever is fed to
the graph, and from the time on that its node was resolved. -/
inductive Certain (s : GraphState) (k : Constraint.Kind) : PadRef → Prop
  | rigid {r : PadRef} (rigid : s.Rigid r) (sole : Compare.Sole k (s.behind r)) : Certain s k r
  | handed {l : Link} {e : NodeEntry} {z : String} (link : l ∈ s.links)
      (node : s.node? l.sink.node = some e) (before : s.Precedes l.source.node e.id)
      (hands : Hands e l.sink.pad z) (feeder : Certain s k l.source) : Certain s k ⟨e.id, z⟩

/-- Every operator of a compare holds an idle value (`IdleValue`), or one of the operands is
certain before the compare is resolved (`Certain`, `Precedes`). -/
def Decided (s : GraphState) : Prop :=
  ∀ e ∈ s.nodes, e.body = .plugin Compare.nodeType → ∀ p ∈ e.pads, IsOperator p.id →
    IdleValue p.value ∨ ∃ l ∈ s.links, l.sink.node = e.id ∧
      (l.sink.pad = Compare.left ∨ l.sink.pad = Compare.right) ∧
      s.Precedes l.source.node e.id ∧ ∃ k, s.Certain k l.source

/-- Pads that are certain permit one kind, if their nodes are at the places `placed`. It is the
invariant of a pass: places are added as they are resolved (`SoleAt.replaceNode`). -/
def SoleAt (s : GraphState) (placed : List Nat) (u : GraphState) : Prop :=
  ∀ k r p, ¬ IsOperator r.pad → s.Certain k r → s.pad? r = some p →
    (∀ i, s.indexOf? r.node = some i → i ∈ placed) → Compare.Sole k (u.declaredAt r)

/-! ### One node replaced -/

theorem nodes_replaceNode (hu : u.nodes.map NodeEntry.plan = s.nodes.map NodeEntry.plan)
    (hd : u.nodes[i]? = some d) (hplan : d'.plan = d.plan) :
    (u.replaceNode i d').nodes.map NodeEntry.plan = s.nodes.map NodeEntry.plan :=
  (map_set_of_eq hd hplan).trans hu

/-- Pads of the other nodes declare what they did. -/
theorem declaredAt_replaceNode_of_ne (hnd : (u.nodes.map (·.id)).Nodup)
    (hpads : ∀ e ∈ u.nodes, (e.pads.map (·.id)).Nodup) (hd : u.nodes[i]? = some d)
    (hplan : d'.plan = d.plan) (hr : r.node ≠ d.id) :
    (u.replaceNode i d').declaredAt r = u.declaredAt r := by
  refine congrArg (·.getD none) (declared?_of_plan (nodes_replaceNode rfl hd hplan) hnd
    fun j f c hf hc hfid p hp q hq hpid hqid => ?_)
  rw [List.getElem?_set] at hc
  split at hc
  · rename_i hij
    subst hij
    obtain rfl := Option.some.inj (hd.symm.trans hf)
    exact absurd hfid.symm hr
  · obtain rfl := Option.some.inj (hc.symm.trans hf)
    rw [List.inj_on_of_nodup_map (hpads c (List.mem_of_getElem? hf)) hq hp (hqid.trans hpid.symm)]

/-- Pads of the new node declare what they do there. -/
theorem declaredAt_replaceNode_self (hnd : (u.nodes.map (·.id)).Nodup)
    (hpads : (d.pads.map (·.id)).Nodup) (hd : u.nodes[i]? = some d) (hplan : d'.plan = d.plan)
    (hq : q ∈ d'.pads) : (u.replaceNode i d').declaredAt ⟨d.id, q.id⟩ = q.declared := by
  obtain ⟨hid, -, -, hplans, -⟩ := NodeEntry.plan_eq_iff.mp hplan
  have hlt := (List.getElem?_eq_some_iff.mp hd).1
  have hmem : d' ∈ (u.replaceNode i d').nodes :=
    List.mem_of_getElem? (List.getElem?_set_self hlt)
  have hnd' : ((u.replaceNode i d').nodes.map (·.id)).Nodup :=
    ids_of_plan (nodes_replaceNode (s := u) rfl hd hplan) ▸ hnd
  have hpad := pad?_of_mem hnd' hmem q.id
  rw [findPad_of_mem (PadState.map_id_of_plan hplans ▸ hpads) hq, hid] at hpad
  exact declaredAt_of_pad hpad

section

variable (hT : ∀ name type, T name type → type.IsBuiltin) (hs : AtRest T config n external s)
  (hu : Over T n external external' s u) (hlinks : u.links = s.links)

include hT hs hu hlinks

omit hT in
/-- What feeds a pad, in a draft with the same links. -/
theorem Over.seen_link (hl : l ∈ s.links) (he : s.node? l.sink.node = some e) :
    u.seen external' e l.sink.pad = u.declaredAt l.source := by
  obtain ⟨-, q, -, hq, -, hqs⟩ := hs.joined.ends hl
  obtain ⟨f, hf, hqf⟩ := Option.bind_eq_some_iff.mp hq
  obtain rfl := Option.some.inj (he.symm.trans hf)
  obtain ⟨hfmem, hfid⟩ := node?_eq_some hf
  obtain ⟨hqmem, hqid⟩ := findPad_eq_some hqf
  rw [← hqid]
  exact (hu.joined hs).seen_sink (hs.wellFormed.self.distinctPads e hfmem) hqmem hqs
    (hlinks ▸ hl) (by rw [hfid, hqid])

omit hu hlinks in
theorem Outcome.broad_declared (he : e ∈ s.nodes)
    (h : Outcome T config n e (u.peerViews external' e) d') (hu : u.Clean)
    (hext : external'.Clean) (hq : q ∈ d'.pads) (hop : ¬ IsOperator q.id) : q.declared.Broad := by
  have hbroad := h.broad_behind hT hs he hu hext hop
  cases hb : d'.body with
  | subgraph id inner =>
    rw [h.declared_of_subgraph hT hs he hb hq]
    exact hbroad.narrowedBy (hu.broad_seen hext e q.id)
  | plugin type =>
    have hnd : (d'.pads.map (·.id)).Nodup := by
      rw [PadState.map_id_of_plan (NodeEntry.plan_eq_iff.mp h.plan).2.2.2.1]
      exact hs.wellFormed.self.distinctPads e he
    rwa [NodeEntry.behind_of_plugin hb, findPad_of_mem hnd hq] at hbroad

omit hu hlinks in
/-- Nothing else comes to be behind a rigid pad. -/
theorem Outcome.behind_of_rigid (he : e ∈ s.nodes)
    (h : Outcome T config n e (u.peerViews external' e) d') (hrigid : s.Rigid ⟨e.id, z⟩) :
    d'.behind z = e.behind z := by
  have hnode := node?_of_mem hs.wellFormed.self.distinctNodes he
  cases hrigid with
  | plugin node body still =>
    obtain rfl := Option.some.inj (hnode.symm.trans node)
    refine behind_of_declared h.plan body fun p hp q hq hpid hqid => ?_
    exact (hs.outcome hT he).declared_congr hT hs he h body hp hq (hqid.trans hpid.symm)
      fun z hz => absurd (hpid ▸ hz) (still z)
  | @inside _ _ _ id inner x node body target rigid =>
    obtain rfl := Option.some.inj (hnode.symm.trans node)
    obtain ⟨inner', body', hplan⟩ :=
      Body.subgraph_of_plan (NodeEntry.plan_eq_iff.mp h.plan).2.2.2.2 body
    obtain ⟨m, rfl, hrest⟩ := hs.inside hT he body
    obtain ⟨⟨m', hm, hrest'⟩, -⟩ := h.inside _ _ body'
    obtain rfl : m = m' := Nat.succ.inj hm
    have hx : parseProxyPadId z = some x := target
    rw [NodeEntry.behind_of_body body, NodeEntry.behind_of_body body', hx]
    exact rigid.behind hT hrest hrest' (nodes_of_plan hplan)

/-- What is certain permits one kind when a node is resolved: a rigid pad has the same behind it
(`Outcome.behind_of_rigid`), and the others hand on what a certain pad before them declares. -/
theorem Certain.sole (he : s.nodes[i]? = some e)
    (hout : Outcome T config n e (u.peerViews external' e) d') {placed : List Nat}
    (hbefore : ∀ j, Before s.dependencyOrder j i → j ∈ placed) (hsole : SoleAt s placed u)
    (hcertain : s.Certain k ⟨e.id, z⟩) (hop : ¬ IsOperator z) (hq : q ∈ d'.pads)
    (hid : q.id = z) : Compare.Sole k q.declared := by
  subst hid
  have hmem := List.mem_of_getElem? he
  have hbroad := hout.broad_behind hT hs hmem hu.clean.self hu.seen hop
  have hunder := hout.declared_under_behind hT hs hmem hu.clean.self hu.seen hq hop
  refine Compare.Sole.of_under ?_ (hout.broad_declared hT hs hmem hu.clean.self hu.seen hq hop)
    hbroad hunder
  generalize hr : (⟨e.id, q.id⟩ : PadRef) = r at hcertain
  cases hcertain with
  | rigid rigid sole =>
    subst hr
    rw [behind_of_mem hs.wellFormed.self.distinctNodes hmem] at sole
    rwa [hout.behind_of_rigid hT hs hmem rigid]
  | @handed l f z link node before hands feeder =>
    obtain ⟨hid, rfl⟩ := PadRef.mk.inj hr
    obtain ⟨hf, hfid⟩ := node?_eq_some node
    obtain rfl := List.inj_on_of_nodup_map hs.wellFormed.self.distinctNodes hf hmem hid.symm
    obtain ⟨p, -, hp, -⟩ := hs.joined.ends link
    have hopsource := (hs.clean.self.unlinked l link).1
    have hfeeder : Compare.Sole k (u.declaredAt l.source) := by
      refine hsole k _ p hopsource feeder hp fun j hj => ?_
      obtain ⟨j', i', hj', hi', hbefore'⟩ := before
      rw [indexOf?_of_getElem? hs.wellFormed.self.distinctNodes he, Option.some.injEq] at hi'
      obtain rfl := Option.some.inj (hj.symm.trans hj')
      exact hbefore j (hi' ▸ hbefore')
    have hhanded := hout.behind_under_of_hands hT hs hmem hu.clean.self hu.seen hands
    rw [hu.seen_link hs hlinks link node] at hhanded
    exact hfeeder.of_under hbroad (hu.clean.self.broad_declaredAt hopsource) hhanded

/-- Pads that are certain permit one kind when one more node was resolved. -/
theorem SoleAt.replaceNode {placed : List Nat} (hsole : SoleAt s placed u)
    (he : s.nodes[i]? = some e) (hd : u.nodes[i]? = some d) (hplan : d'.plan = e.plan)
    (hout : Outcome T config n e (u.peerViews external' e) d')
    (hbefore : ∀ j, Before s.dependencyOrder j i → j ∈ placed) :
    SoleAt s (placed ++ [i]) (u.replaceNode i d') := by
  intro k r p hop hcertain hp hplaced
  have hnd := hs.wellFormed.self.distinctNodes
  have hids := ids_of_plan hu.nodes
  obtain ⟨e₀, he₀, hde⟩ := getElem?_of_plan hu.nodes.symm hd
  obtain rfl := Option.some.inj (he.symm.trans he₀)
  have hpads : ∀ c ∈ u.nodes, (c.pads.map (·.id)).Nodup := by
    intro c hc
    obtain ⟨f, hf, hfc⟩ := mem_of_plan hu.nodes.symm hc
    rw [← PadState.map_id_of_plan (NodeEntry.plan_eq_iff.mp hfc).2.2.2.1]
    exact hs.wellFormed.self.distinctPads f hf
  have hdid := (NodeEntry.plan_eq_iff.mp hde).1
  by_cases hr : r.node = d.id
  · obtain ⟨e₁, he₁, hpe⟩ := Option.bind_eq_some_iff.mp hp
    obtain ⟨he₁mem, he₁id⟩ := node?_eq_some he₁
    obtain rfl := List.inj_on_of_nodup_map hnd he₁mem (List.mem_of_getElem? he)
      (he₁id.trans (hr.trans hdid.symm))
    obtain ⟨q, hq, -⟩ := PadState.findPad_of_plan (NodeEntry.plan_eq_iff.mp hplan).2.2.2.1 hpe
    obtain ⟨hqmem, hqid⟩ := findPad_eq_some hq
    have haddress : r = ⟨d.id, q.id⟩ := by rw [← hr, hqid]
    rw [haddress, declaredAt_replaceNode_self (hids ▸ hnd) (hpads d (List.mem_of_getElem? hd)) hd
      (hplan.trans hde) hqmem]
    refine Certain.sole hT hs hu hlinks he hout hbefore hsole (z := r.pad) ?_ hop hqmem hqid
    rw [haddress, ← hdid] at hcertain ⊢
    exact hcertain
  · rw [declaredAt_replaceNode_of_ne (hids ▸ hnd) hpads hd (hplan.trans hde) hr]
    refine hsole k r p hop hcertain hp fun j hj => ?_
    have hne : j ≠ i := by
      rintro rfl
      obtain ⟨f, hf, hfid⟩ := indexOf?_eq_some hj
      obtain rfl := Option.some.inj (he.symm.trans hf)
      exact hr (hfid.symm.trans hdid)
    exact (List.mem_append.mp (hplaced j hj)).resolve_right (by simpa using hne)

omit hu hlinks in
/-- The operands of a compare at rest have something in common. -/
theorem AtRest.operand_ne_nil (hfits : external.Fits s) (he : e ∈ s.nodes)
    (hb : e.body = .plugin Compare.nodeType) :
    Compare.operand (s.view external e) ≠ some [] := by
  obtain ⟨specs, hspecs, hpads⟩ := (hs.settledAt hT he).declaredBy hb
  rw [NodeType.Compare.resolve_eq hspecs] at hpads
  obtain ⟨p, hp, hdecl⟩ := exists_of_forall₂ hpads.flip List.mem_cons_self
  have hnd := hs.wellFormed.self.distinctPads e he
  have hid : p.id = Compare.left := hdecl.id
  have hop : ¬ IsOperator p.id := by
    rw [hid]
    decide
  have hlive := hs.live hT hfits e he p hp hop
  have hbroad := hs.clean.self.broad_peerConstraints hs.seen e
  have hseen : s.seen external e p.id = (s.view external e).peerConstraints Compare.left := by
    rw [← hid, view, peerConstraints_peerViews]
  rw [NodeEntry.behind_of_plugin hb, findPad_of_mem hnd hp, Option.bind_some, hseen,
    show p.declared = _ from hdecl.constraints] at hlive
  rw [Compare.operand, Compare.broad_comparable.intersect_assoc (hbroad _).toSlim
    (hbroad _).toSlim, (hbroad _).intersect_comm (hbroad _),
    ← Compare.broad_comparable.intersect_assoc (hbroad _).toSlim (hbroad _).toSlim]
  exact hlive

/-- If an operand is certain, the menu of a compare in a draft is that of the compare at rest,
where the operands have something in common (`AtRest.operand_ne_nil`), so that they have that one
kind. -/
theorem Over.menu_of_decided (hfits : external.Fits s) (hdecided : s.Decided)
    (he : s.nodes[i]? = some e) (hde : d.plan = e.plan)
    (hb : e.body = .plugin Compare.nodeType) {placed : List Nat}
    (hbefore : ∀ j, Before s.dependencyOrder j i → j ∈ placed) (hsole : SoleAt s placed u)
    (hp : p ∈ e.pads) (hop : IsOperator p.id) : IdleValue p.value ∨
      Compare.menu (u.view external' d) = Compare.menu (s.view external e) := by
  have hmem := List.mem_of_getElem? he
  have hnd := hs.wellFormed.self.distinctNodes
  refine (hdecided e hmem hb p hp hop).imp_right ?_
  rintro ⟨l, hl, hsink, hside, ⟨j, i', hj, hi, hprecedes⟩, k, hcertain⟩
  rw [indexOf?_of_getElem? hnd he, Option.some.injEq] at hi
  obtain rfl := hi
  have hopsource := (hs.clean.self.unlinked l hl).1
  obtain ⟨a, -, ha, -⟩ := hs.joined.ends hl
  have hnode : s.node? l.sink.node = some e := hsink ▸ node?_of_mem hnd hmem
  -- what feeds the operand permits one kind, in the draft and in the graph at rest
  have hfed : Compare.Sole k (u.declaredAt l.source) := by
    refine hsole k _ a hopsource hcertain ha fun j' hj' => ?_
    obtain rfl := Option.some.inj (hj.symm.trans hj')
    exact hbefore j hprecedes
  have hrest : Compare.Sole k (s.seen external e l.sink.pad) := by
    refine hfed.of_under (hs.clean.self.broad_seen hs.seen e _)
      (hu.clean.self.broad_declaredAt hopsource) ?_
    rw [← hu.seen_link hs hlinks hl hnode]
    exact hu.seen_under hs e _
  have hview : ∀ z, (u.view external' d).peerConstraints z = u.seen external' e z := fun z => by
    rw [view, peerConstraints_peerViews, seen_of_plan u external' hde]
  have hview' : ∀ z, (s.view external e).peerConstraints z = s.seen external e z := fun z => by
    rw [view, peerConstraints_peerViews]
  have hbroad := hu.clean.self.broad_peerConstraints hu.seen d
  have hbroad' := hs.clean.self.broad_peerConstraints hs.seen e
  have hne := hs.operand_ne_nil hT hfits hmem hb
  have hne' : Compare.operand (u.view external' d) ≠ some [] :=
    (Compare.operand_under hbroad' hbroad fun z => by
      rw [hview, hview']
      exact hu.seen_under hs e z).ne_nil hne
  have hsides : ∀ view : NodeView, Compare.Sole k (view.peerConstraints l.sink.pad) →
      Compare.Sole k (view.peerConstraints Compare.left) ∨
        Compare.Sole k (view.peerConstraints Compare.right) := by
    intro view h
    rcases hside with hside | hside <;> rw [hside] at h
    · exact .inl h
    · exact .inr h
  rw [Compare.menu_of_sole hbroad (hsides _ ?_) hne',
    Compare.menu_of_sole hbroad' (hsides _ ?_) hne]
  · rw [hview']
    exact hrest
  · rw [hview, hu.seen_link hs hlinks hl hnode]
    exact hfed

end

/-- What comes of a draft above a graph at rest is tuned to it (`PadState.Tuned`), if the draft is,
and the graph is decided at every depth. -/
theorem AtRest.tuned (hT : ∀ name type, T name type → type.IsBuiltin)
    (hs : AtRest T config n external s) (hfits : external.Fits s) (hdecided : s.Everywhere Decided)
    (ht : Over T n external external' s t) (hlinks : t.links = s.links)
    (htuned : t.Padwise PadState.Tuned s)
    (h : reconcileWithin config n external' t = .ok t') : t'.Padwise PadState.Tuned s := by
  induction n using Nat.strong_induction_on generalizing external external' s t t'
  rename_i n ih
  have horder : t.dependencyOrder = s.dependencyOrder :=
    dependencyOrder_congr (ids_of_plan ht.nodes) hlinks
  obtain ⟨u, placed, -, -, ⟨-, hu, -⟩, hbare⟩ := ht.toDraft.invariant_ordered hT
    (I := fun placed u => u.Above s ∧ u.Padwise PadState.Tuned s ∧ SoleAt s placed u) hs ht.seen
    (by
      rintro u i e d d' changed placed hbefore hdraft hul ⟨habove, htuned, hsole⟩ he hd hde hnode
        hplan hrest
      have hu : Over T n external external' s u :=
        ⟨hdraft, hul ▸ ht.links, habove, ht.seen, ht.more, ht.spares⟩
      rw [horder] at hbefore
      have hmem := List.mem_of_getElem? he
      have hout := outcome_of_resolveNode hde hplan hrest hnode
      have hdtuned := padwise_iff.mp htuned i e d he hd
      refine ⟨habove.set he (hu.padwise_of_resolveNode hT hs hfits he hd hde
        (fun m ext ext' g g₁ g₂ hm hg hgf hg₁ hr => hg.above hT hgf hg₁ hr) hnode hplan hrest),
        htuned.set he ⟨?_, ?_⟩, hsole.replaceNode hT hs hu (hul.trans hlinks) he hd hplan hout
          hbefore⟩
      · cases hb : e.body with
        | plugin type =>
          refine hs.tuned_resolveNode hT hmem hb hde hplan hnode hdtuned.pads fun p hp hop => ?_
          obtain ⟨rfl, -⟩ := hs.keptValue_operator hT hmem hb hp hop
          exact (hu.menu_of_decided hT hs (hul.trans hlinks) hfits hdecided.self he hde hb hbefore
            hsole hp hop).imp_right .inr
        | subgraph id inner =>
          exact fun p hp q _ _ => hs.tuned_of_subgraph hT hmem hb hp
      · intro id₁ id₂ inner₁ inner₂ hb₁ hb₂
        obtain ⟨specs, body, hbody, -, hd', -⟩ := resolveNode_eq_ok hnode
        obtain rfl : body = .subgraph id₂ inner₂ := by
          rw [← hb₂, hd']
        obtain ⟨inner, hb, hr, -⟩ := exists_of_resolveBody hbody
        obtain ⟨m, rfl, hinner⟩ := hs.inside hT hmem hb₁
        obtain ⟨inner', hb', hover⟩ := hu.inside hT hs he hd hde hb₁
        obtain ⟨-, rfl⟩ := Body.subgraph.inj (hb.symm.trans hb')
        obtain ⟨g, hg, hplan'⟩ :=
          Body.subgraph_of_plan (NodeEntry.plan_eq_iff.mp hde).2.2.2.2 hb₁
        obtain ⟨-, rfl⟩ := Body.subgraph.inj (hb.symm.trans hg)
        exact ih m m.lt_succ_self hinner (hs.fits_inside hT hfits hmem hb₁)
          (hdecided.body hmem _ _ hb₁) hover (links_of_plan hplan')
          (hdtuned.inside _ _ _ _ hb₁ hb') hr)
    ⟨ht.above, htuned, fun k r p _ _ hp hplaced => by
      -- no node was resolved yet
      obtain ⟨e, he, -⟩ := Option.bind_eq_some_iff.mp hp
      obtain ⟨he, hid⟩ := node?_eq_some he
      obtain ⟨i, hi⟩ := List.mem_iff_getElem?.mp he
      cases hplaced i (hid ▸ indexOf?_of_getElem? hs.wellFormed.self.distinctNodes hi)⟩ h
  exact tuned_of_nodes hu (bare_eq_iff.mp hbare).1

end Patchbay.GraphState
