import Patchbay.Proofs.Graph.Floor

/-!
# Sinks that see the same

Types come into a subgraph through its sinks. What it is shown at its sources changes what is
declared by the pads that are exposed there, but not what is behind any pad: a graph at rest that
is resolved again has the same types behind its pads, as long as its sinks see the same from
outside (`AtRest.behind_of_sinksAlike`).
-/

namespace Patchbay

/-- The sinks of a graph see the same from outside. What its sources see there may differ. -/
def External.SinksAlike (external external' : External) (s : GraphState) : Prop :=
  ∀ e ∈ s.nodes, ∀ p ∈ e.pads, p.isSource = false →
    GraphState.externalView external' ⟨e.id, p.id⟩ = GraphState.externalView external ⟨e.id, p.id⟩

namespace GraphState

variable {T : String → NodeType → Prop} {config : EngineConfig} {n m : Nat}
  {external external' : External} {s t t' u : GraphState} {e d d' : NodeEntry} {p q : PadState}
  {r : PadRef} {id : Option String} {inner : GraphState} {i : Nat} {changed : Bool}
  {K : NodeEntry → NodeEntry → Prop}

/-! ### Graphs compared node by node -/

/-- A relation holds between the nodes of two graphs that are at the same places. It is used for
what a single node keeps (`Still`, `Intact`). -/
def Nodewise (K : NodeEntry → NodeEntry → Prop) (t s : GraphState) : Prop :=
  ∀ (i : Nat) (e d : NodeEntry), s.nodes[i]? = some e → t.nodes[i]? = some d → K d e

theorem Nodewise.set (h : t.Nodewise K s) (he : s.nodes[i]? = some e) (hd : K d' e) :
    ({ t with nodes := t.nodes.set i d' } : GraphState).Nodewise K s := by
  intro j f c hf hc
  rw [List.getElem?_set] at hc
  split at hc
  · rename_i hij
    subst hij
    split at hc
    · obtain rfl := Option.some.inj hc
      obtain rfl := Option.some.inj (he.symm.trans hf)
      exact hd
    · cases hc
  · exact h j f c hf hc

/-- Pads at one address declare the same if those of corresponding nodes do. -/
theorem declared?_of_plan (hplan : t.nodes.map NodeEntry.plan = s.nodes.map NodeEntry.plan)
    (hnd : (s.nodes.map (·.id)).Nodup)
    (h : ∀ (i : Nat) (e d : NodeEntry), s.nodes[i]? = some e → t.nodes[i]? = some d →
      e.id = r.node → ∀ p ∈ e.pads, ∀ q ∈ d.pads, p.id = r.pad → q.id = r.pad →
      q.declared = p.declared) :
    t.declared? r = s.declared? r := by
  rw [declared?, declared?]
  cases hp : s.pad? r with
  | none =>
    cases hq : t.pad? r with
    | none => rfl
    | some q =>
      obtain ⟨p, hp', -⟩ := pad?_of_plan hplan.symm hq
      rw [hp] at hp'
      cases hp'
  | some p =>
    obtain ⟨q, hq, -⟩ := pad?_of_plan hplan hp
    obtain ⟨e, he, hpe⟩ := Option.bind_eq_some_iff.mp hp
    obtain ⟨d, hd, hqd⟩ := Option.bind_eq_some_iff.mp hq
    obtain ⟨i, he', hd'⟩ := node?_of_ids (ids_of_plan hplan) hnd he hd
    obtain ⟨hpmem, hpid⟩ := findPad_eq_some hpe
    obtain ⟨hqmem, hqid⟩ := findPad_eq_some hqd
    rw [hq]
    exact congrArg some
      (h i e d he' hd' (node?_eq_some he).2 p hpmem q hqmem hpid hqid)

/-! ### What is seen -/

/-- A pad sees the same if it has the same links, and all pads at them declare the same. No other
parts of the graph have an influence on `GraphState.peerView`. -/
theorem peerView_of_near (hs : s.Joined) (hfeeder : p.isSource = false → t.feeder r = s.feeder r)
    (hdownstream : p.isSource = true → t.downstream r = s.downstream r)
    (hdown : p.isSource = true → ∀ l ∈ s.links, l.source = r →
      t.declared? l.sink = s.declared? l.sink)
    (hfeed : p.isSource = false → ∀ l ∈ s.links, l.sink = r →
      t.declared? l.source = s.declared? l.source)
    (hext : p.isSource = false ∨ (∀ l ∈ s.links, l.source ≠ r) →
      externalView external' r = externalView external r) :
    t.peerView external' r p = s.peerView external r p := by
  cases hp : p.isSource with
  | false =>
    rw [peerView_sink hp, peerView_sink hp, hfeeder hp, hext (.inl hp)]
    cases hk : s.feeder r with
    | none => rfl
    | some k => rw [Option.bind_some, Option.bind_some, hfeed hp _ (feeder_eq_some hk) rfl]
  | true =>
    have hseen : (t.downstream r).filterMap t.declared? =
        (s.downstream r).filterMap s.declared? := by
      rw [hdownstream hp]
      exact List.filterMap_congr fun q hq => hdown hp _ (mem_downstream.mp hq) rfl
    rw [peerView_source hp, peerView_source hp, hseen]
    split
    · rename_i hnil
      refine hext (.inr fun l hl hr => ?_)
      obtain ⟨-, q, -, hq, -⟩ := hs.ends hl
      have hmem : q.declared ∈ (s.downstream r).filterMap s.declared? :=
        List.mem_filterMap.mpr ⟨l.sink, mem_downstream.mpr (hr ▸ hl), by rw [declared?, hq]; rfl⟩
      rw [hnil] at hmem
      cases hmem
    · rfl

/-- A pad sees the same if all pads at its links declare the same. -/
theorem peerView_of_declared? (hs : s.Joined) (hlinks : t.links = s.links)
    (hdown : p.isSource = true → ∀ l ∈ s.links, l.source = r →
      t.declared? l.sink = s.declared? l.sink)
    (hfeed : p.isSource = false → ∀ l ∈ s.links, l.sink = r →
      t.declared? l.source = s.declared? l.source)
    (hext : p.isSource = false ∨ (∀ l ∈ s.links, l.source ≠ r) →
      externalView external' r = externalView external r) :
    t.peerView external' r p = s.peerView external r p :=
  peerView_of_near hs (fun _ => by rw [feeder, feeder, hlinks])
    (fun _ => by rw [downstream, downstream, hlinks]) hdown hfeed hext

/-- The pad `p` of `e` sees the same in both graphs. -/
theorem seen_of_peerView (hnd : (e.pads.map (·.id)).Nodup) (hp : p ∈ e.pads)
    (h : t.peerView external' ⟨e.id, p.id⟩ p = s.peerView external ⟨e.id, p.id⟩ p) :
    t.seen external' e p.id = s.seen external e p.id := by
  rw [seen_of_mem hnd hp, seen_of_mem hnd hp, h]

section

variable (hT : ∀ name type, T name type → type.IsBuiltin) (hs : AtRest T config n external s)

include hT hs

/-- Pads that move others are sinks, as `Moves.isSource` says of declarations. -/
theorem AtRest.isSource_of_moves (he : e ∈ s.nodes) {type : NodeType} (hb : e.body = .plugin type)
    (hp : p ∈ e.pads) {pad : String} (hmoves : type.Moves p.id pad) : p.isSource = false := by
  obtain ⟨specs, hspecs, -, hbare⟩ := hs.settledAt hT he
  obtain ⟨hspecs, -⟩ := (resolveBody_of_plugin hb).mp hspecs
  obtain ⟨spec, hspec, hmerged⟩ : ∃ spec ∈ specs, (mergedPad e.pads spec).bare = p.bare := by
    have hmem : p.bare ∈ (specs.map (mergedPad e.pads)).map PadState.bare :=
      hbare ▸ List.mem_map_of_mem hp
    rw [List.map_map] at hmem
    exact List.mem_map.mp hmem
  obtain ⟨value, hdecl, -⟩ := mergedPad_eq e.pads spec
  rw [hdecl] at hmerged
  obtain ⟨hid, -, htype, -⟩ := PadState.bare_eq_iff.mp hmerged
  rw [← hid] at hmoves
  exact (congrArg PadType.isSource htype).symm.trans (hmoves.isSource hspecs hspec)

/-- The sinks inside a subgraph see the same if those of the node do, for what is seen inside comes
through proxies (`externalOf`). -/
theorem AtRest.sinksAlike_inside (he : e ∈ s.nodes) (hb : e.body = .subgraph id inner)
    {u' : GraphState} {ext ext' : External} (hsee : ∀ p ∈ e.pads, p.isSource = false →
      u'.peerView ext' ⟨e.id, p.id⟩ p = u.peerView ext ⟨e.id, p.id⟩ p) :
    (externalOf e.pads (u.peerViews ext e)).SinksAlike
      (externalOf e.pads (u'.peerViews ext' e)) inner := by
  have hnd := hs.wellFormed.self.distinctPads e he
  have hinner := (hs.wellFormed.body he _ _ hb).self
  have hset := hs.settledAt hT he
  intro f hf c hc hsink
  by_cases hproxy : ∃ p ∈ e.pads, p.proxy = some ⟨f.id, c.id⟩
  · obtain ⟨p, hp, hpr⟩ := hproxy
    rw [externalView_of_settled hnd hset hb hinner u ext hp hpr,
      externalView_of_settled hnd hset hb hinner u' ext' hp hpr]
    obtain ⟨c', r', hstands⟩ := mem_pads_of_settled hset hb hinner hp
    obtain rfl := Option.some.inj (hpr.symm.trans hstands.proxy)
    have hpad : inner.pad? ⟨f.id, c.id⟩ = some c := by
      rw [pad?_of_mem hinner.distinctNodes hf, findPad_of_mem (hinner.distinctPads f hf) hc]
    obtain rfl := Option.some.inj (hpad.symm.trans hstands.pad)
    exact hsee p hp ((congrArg PadType.isSource hstands.padType).trans hsink)
  · have hne : ∀ p ∈ e.pads, p.proxy ≠ some ⟨f.id, c.id⟩ := fun p hp hpr => hproxy ⟨p, hp, hpr⟩
    rw [externalView_externalOf_of_ne hne, externalView_externalOf_of_ne hne]

end

theorem sinksAlike_of_plan (h : external.SinksAlike external' s)
    (hplan : t.nodes.map NodeEntry.plan = s.nodes.map NodeEntry.plan) :
    external.SinksAlike external' t := by
  intro d hd q hq hsink
  obtain ⟨i, hi, rfl⟩ := List.mem_iff_getElem.mp hd
  obtain ⟨e, he, hde⟩ := getElem?_of_plan hplan.symm (List.getElem?_eq_getElem hi)
  obtain ⟨hid, -, -, hpads, -⟩ := NodeEntry.plan_eq_iff.mp hde
  obtain ⟨p, hp, hpq⟩ : ∃ p ∈ e.pads, p.outline = q.outline := by
    have hmem : q.outline ∈ e.pads.map PadState.outline :=
      PadState.map_outline_of_plan hpads ▸ List.mem_map_of_mem hq
    exact List.mem_map.mp hmem
  obtain ⟨hpid, htype, -⟩ := PadState.outline_eq_iff.mp hpq
  rw [← hid, ← hpid]
  exact h e (List.mem_of_getElem? he) p hp ((congrArg PadType.isSource htype).trans hsink)

/-! ### Nodes that stay the same -/

/-- The same is behind a pad of two plugins if they declare the same there. -/
theorem behind_of_declared {type : NodeType} (hde : d.plan = e.plan) (hb : e.body = .plugin type)
    {pad : String}
    (h : ∀ p ∈ e.pads, ∀ q ∈ d.pads, p.id = pad → q.id = pad → q.declared = p.declared) :
    d.behind pad = e.behind pad := by
  obtain ⟨-, -, -, hpads, hbody⟩ := NodeEntry.plan_eq_iff.mp hde
  rw [NodeEntry.behind_of_plugin hb, NodeEntry.behind_of_plugin (Body.plugin_of_plan hbody hb)]
  cases hp : findPad pad e.pads with
  | none =>
    cases hq : findPad pad d.pads with
    | none => rfl
    | some q =>
      obtain ⟨p, hp', -⟩ := PadState.findPad_of_plan hpads.symm hq
      rw [hp] at hp'
      cases hp'
  | some p =>
    obtain ⟨q, hq, -⟩ := PadState.findPad_of_plan hpads hp
    obtain ⟨hpmem, hpid⟩ := findPad_eq_some hp
    obtain ⟨hqmem, hqid⟩ := findPad_eq_some hq
    rw [hq]
    exact h p hpmem q hqmem hpid hqid

/-- What stays the same at a node of a graph at rest whose sinks see the same: what is behind its
pads, and what its sinks and its linked sources declare. The graph inside is at rest under
something that shows the same to its sinks. -/
structure Still (T : String → NodeType → Prop) (config : EngineConfig) (n : Nat)
    (external : External) (s : GraphState) (d e : NodeEntry) : Prop where
  behind : ∀ pad, ¬ IsOperator pad → d.behind pad = e.behind pad
  declared : ∀ p ∈ e.pads, ∀ q ∈ d.pads, q.id = p.id → ¬ IsOperator p.id →
    p.isSource = false ∨ ¬ s.Unlinked ⟨e.id, p.id⟩ → q.declared = p.declared
  inside : d.body.Inside fun g => ∃ m ext, n = m + 1 ∧ AtRest T config m ext g ∧
    (externalOf e.pads (s.peerViews external e)).SinksAlike ext g

section

variable (hT : ∀ name type, T name type → type.IsBuiltin) (hs : AtRest T config n external s)

include hT hs

omit hT in
/-- Sinks and linked sources see the same in a draft whose nodes stayed the same. -/
theorem AtRest.peerView_of_still (hu : Draft T n s u) (hlinks : u.links = s.links)
    (hstill : u.Nodewise (Still T config n external s) s)
    (halike : external.SinksAlike external' s) (he : e ∈ s.nodes) (hp : p ∈ e.pads)
    (hlinked : p.isSource = false ∨ ¬ s.Unlinked ⟨e.id, p.id⟩) :
    u.peerView external' ⟨e.id, p.id⟩ p = s.peerView external ⟨e.id, p.id⟩ p := by
  have hwf := hs.wellFormed.self
  have hends : ∀ l ∈ s.links, ∀ r, r = l.source ∨ r = l.sink →
      u.declared? r = s.declared? r := by
    intro l hl r hr
    refine declared?_of_plan hu.nodes hwf.distinctNodes fun i f c hf hc hfid a ha b hb haid hbid =>
      (hstill i f c hf hc).declared a ha b hb (hbid.trans haid.symm) ?_ (.inr fun hnone => ?_)
    · exact haid ▸ hs.clean.self.not_isOperator_of_link hl hr
    · rw [hfid, haid] at hnone
      exact hr.elim (fun h => (hnone l hl).1 h.symm) fun h => (hnone l hl).2 h.symm
  refine peerView_of_declared? hs.joined hlinks (fun _ l hl _ => hends l hl _ (.inr rfl))
    (fun _ l hl _ => hends l hl _ (.inl rfl)) fun hfree => ?_
  by_cases hsink : p.isSource = false
  · exact halike e he p hp hsink
  · have hpad : s.pad? ⟨e.id, p.id⟩ = some p := by
      rw [pad?_of_mem hwf.distinctNodes he, findPad_of_mem (hwf.distinctPads e he) hp]
    rcases hs.joined.link_of_linked hpad (hlinked.resolve_left hsink) with
      ⟨-, l, hl, hr⟩ | ⟨hsource, -⟩
    · exact absurd hr (hfree.resolve_left hsink l hl)
    · exact absurd hsource hsink

/-- A node that is resolved again stays the same (`Still`): what moves its pads sees the same, and
the graph inside is resolved under the same sinks, to which the induction on the depth applies. -/
theorem AtRest.still_of_resolveNode (hu : Draft T n s u)
    (hlinks : u.links = s.links) (hstill : u.Nodewise (Still T config n external s) s)
    (halike : external.SinksAlike external' s) (he : s.nodes[i]? = some e)
    (hd : u.nodes[i]? = some d) (hde : d.plan = e.plan)
    (hin : ∀ m ext ext' g g', n = m + 1 → AtRest T config m ext g → ext'.Clean →
      ext.SinksAlike ext' g → reconcileWithin config m ext' g = .ok g' →
      ∀ r, ¬ IsOperator r.pad → g'.behind r = g.behind r)
    (hnode : resolveNode (innerResolver config n) external' u d = .ok (d', changed))
    (hplan : d'.plan = e.plan)
    (hrest : d'.body.Inside fun g => ∃ m, n = m + 1 ∧
      AtRest T config m (externalOf d.pads (u.peerViews external' d)) g) :
    Still T config n external s d' e := by
  have hmem := List.mem_of_getElem? he
  have hnd := hs.wellFormed.self.distinctPads e hmem
  have hview := fun p hp hlinked =>
    hs.peerView_of_still hu hlinks hstill halike hmem (p := p) hp hlinked
  have hout := hs.outcome hT hmem
  have hout' := outcome_of_resolveNode hde hplan hrest hnode
  have hbody := (NodeEntry.plan_eq_iff.mp hplan).2.2.2.2
  cases hb : e.body with
  | plugin type =>
    have hdeclared : ∀ p ∈ e.pads, ∀ q ∈ d'.pads, q.id = p.id → q.declared = p.declared := by
      refine fun p hp q hq hid => hout.declared_congr hT hs hmem hout' hb hp hq hid fun z hz => ?_
      cases hz' : findPad z e.pads with
      | none => rw [GraphState.seen, GraphState.seen, hz']; rfl
      | some a =>
        obtain ⟨ha, rfl⟩ := findPad_eq_some hz'
        exact (seen_of_peerView hnd ha (hview a ha
          (.inl (hs.isSource_of_moves hT hmem hb ha hz)))).symm
    refine ⟨fun pad _ => ?_, fun p hp q hq hid _ _ => hdeclared p hp q hq hid, ?_⟩
    · exact behind_of_declared hplan hb fun p hp q hq hpid hqid =>
        hdeclared p hp q hq (hqid.trans hpid.symm)
    · intro id g hg
      rw [Body.plugin_of_plan hbody hb] at hg
      cases hg
  | subgraph id inner =>
    obtain ⟨inner', hb', hplan'⟩ := Body.subgraph_of_plan hbody hb
    obtain ⟨specs, body, hresolve, -, hd', -⟩ := resolveNode_eq_ok hnode
    obtain rfl : body = .subgraph id inner' := by rw [← hb', hd']
    obtain ⟨g, hbg, hr, -⟩ := exists_of_resolveBody hresolve
    have hdstill := hstill i e d he hd
    obtain ⟨m, ext, rfl, hg, hbase⟩ := hdstill.inside id g hbg
    -- the graph that is resolved again is at rest under what shows the same to its sinks
    have hseen : (externalOf e.pads (s.peerViews external e)).SinksAlike
        (externalOf d.pads (u.peerViews external' d)) inner := by
      rw [externalOf_of_plan u external' hde]
      exact hs.sinksAlike_inside hT hmem hb fun p hp hsink => hview p hp (.inl hsink)
    obtain ⟨inner₀, hb₀, hplan₀⟩ := Body.subgraph_of_plan (NodeEntry.plan_eq_iff.mp hde).2.2.2.2 hb
    obtain ⟨-, rfl⟩ := Body.subgraph.inj (hbg.symm.trans hb₀)
    obtain ⟨m', hm', hrest'⟩ := hrest id inner' hb'
    obtain rfl : m = m' := by omega
    have hbehind := hin m _ _ g inner' rfl hg hrest'.seen
      (fun f hf c hc hsink =>
        (sinksAlike_of_plan hseen (nodes_of_plan hplan₀) f hf c hc hsink).trans
        (hbase f hf c hc hsink).symm) hr
    have hsame : ∀ pad, ¬ IsOperator pad → d'.behind pad = e.behind pad := by
      intro pad hop
      rw [← hdstill.behind pad hop, NodeEntry.behind_of_body hb', NodeEntry.behind_of_body hbg]
      cases hx : parseProxyPadId pad with
      | none => rfl
      | some x =>
        refine hbehind x fun hop' => hop ?_
        rw [(parseProxyPadId_eq_some_iff.mp hx).1]
        exact (isOperator_proxyPadId x).mpr hop'
    refine ⟨hsame, fun p hp q hq hid hop hlinked => ?_, fun id' g' hg' => ?_⟩
    · rw [hout'.declared_of_subgraph hT hs hmem hb' hq, hid, hsame p.id hop,
        hout.declared_of_subgraph hT hs hmem hb hp,
        seen_of_peerView hnd hp (hview p hp hlinked)]
    · rw [hb'] at hg'
      obtain ⟨-, rfl⟩ := Body.subgraph.inj hg'
      exact ⟨m, _, rfl, hrest', sinksAlike_of_plan hseen (nodes_of_plan hplan')⟩

/-- If its sinks see the same, a graph at rest that is resolved again has the same behind its pads
(`GraphState.behind`). So what a subgraph is shown at its sources does not come back to it. -/
theorem AtRest.behind_of_sinksAlike (hext : external'.Clean)
    (halike : external.SinksAlike external' s)
    (h : reconcileWithin config n external' s = .ok t) (hop : ¬ IsOperator r.pad) :
    t.behind r = s.behind r := by
  induction n using Nat.strong_induction_on generalizing external external' s t r
  rename_i n ih
  have hdraft : Draft T n s s := ⟨rfl, hs.joined.sound, hs.nested, hs.clean⟩
  have hstart : s.Nodewise (Still T config n external s) s := by
    intro i e d he hd
    obtain rfl := Option.some.inj (he.symm.trans hd)
    have hmem := List.mem_of_getElem? he
    refine ⟨fun _ _ => rfl, fun p hp q hq hid _ _ => ?_, fun id inner hb => ?_⟩
    · rw [List.inj_on_of_nodup_map (hs.wellFormed.self.distinctPads e hmem) hq hp hid]
    · obtain ⟨m, hm, hrest⟩ := hs.inside hT hmem hb
      exact ⟨m, _, hm, hrest, fun _ _ _ _ _ => rfl⟩
  obtain ⟨u, hu, -, hstill, hbare⟩ := hdraft.invariant hT
    (I := fun u => u.Nodewise (Still T config n external s) s) hs hext
    (fun u i e d d' changed hu hul hus he hd hde hnode hplan hrest => hus.set he <|
      hs.still_of_resolveNode hT hu hul hus halike he hd hde
        (by
          rintro m ext ext' g g' rfl hg hext' hga hr x hx
          exact ih m m.lt_succ_self hg hext' hga hr hx)
        hnode hplan hrest) hstart h
  rw [behind_of_bare hbare, behind_eq, behind_eq]
  cases he : s.node? r.node with
  | none =>
    cases hd : u.node? r.node with
    | none => rfl
    | some d =>
      obtain ⟨i, e, he', -⟩ := exists_node_of_plan hu.nodes.symm
        (ids_of_plan hu.nodes ▸ hs.wellFormed.self.distinctNodes) hd
      rw [he] at he'
      cases he'
  | some e =>
    obtain ⟨i, d, hd, he', hd', -⟩ :=
      exists_node_of_plan hu.nodes hs.wellFormed.self.distinctNodes he
    rw [hd]
    exact (hstill i e d he' hd').behind r.pad hop

end

end GraphState

end Patchbay
