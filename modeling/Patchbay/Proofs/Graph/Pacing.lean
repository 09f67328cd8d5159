import Patchbay.Proofs.Graph.Timetable

/-!
# Resolution that keeps to a timetable

In a draft above a graph at rest, a pad whose types are settled is *kept*: it declares the same
when its node is resolved again (`KeptAt`). If there is a timetable, what is due is kept, from one
node to the next and from one pass to the next (`Midway.step`), so that after the last entry of
the timetable all is kept, and the passes come to an end.
-/

namespace Patchbay

/-! ### Echoes -/

/-- A source of a subgraph takes over what its sinks have in common. Sinks that take this over in
turn do not change it, so that an echo (`Echo`) brings nothing new. -/
theorem Constraints.Broad.intersect_echo {α : Type} {b x : Constraints} {qs : List α}
    {f g : α → Constraints} (hb : b.Broad) (hf : ∀ q ∈ qs, (f q).Broad)
    (hx : b.intersect ((qs.map f).foldl Constraints.intersect none) = x)
    (hg : ∀ q ∈ qs, g q = f q ∨ g q = x) :
    b.intersect ((qs.map g).foldl Constraints.intersect none) = x := by
  have hmem : ∀ c ∈ qs.map f, c.Broad := by
    intro c hc
    obtain ⟨q, hq, rfl⟩ := List.mem_map.mp hc
    exact hf q hq
  obtain ⟨-, hunder⟩ := Constraints.broad_none.foldl_under hmem
  have hmeet := Constraints.broad_none.foldl_intersect hmem
  have hxbroad : x.Broad := hx ▸ hb.intersect hmeet
  have hxb : x.Under b := hx ▸ hb.intersect_under_left hmeet
  have hxf : ∀ q ∈ qs, x.Under (f q) := fun q hq =>
    (hx ▸ hb.intersect_under_right hmeet).trans (hunder _ (List.mem_map_of_mem hq))
      hxbroad.toSlim hmeet.toSlim (hf q hq).toSlim
  have hg' : ∀ c ∈ qs.map g, c.Broad ∧ x.Under c := by
    intro c hc
    obtain ⟨q, hq, rfl⟩ := List.mem_map.mp hc
    rcases hg q hq with h | h
    · rw [h]
      exact ⟨hf q hq, hxf q hq⟩
    · rw [h]
      exact ⟨hxbroad, hxbroad.under_self⟩
  obtain ⟨-, hunder'⟩ := Constraints.broad_none.foldl_under fun c hc => (hg' c hc).1
  have hmeet' := Constraints.broad_none.foldl_intersect fun c hc => (hg' c hc).1
  by_cases hall : ∀ q ∈ qs, g q = f q
  · rw [List.map_congr_left hall, hx]
  · -- one of the sinks has taken it over
    push Not at hall
    obtain ⟨q, hq, hne⟩ := hall
    have htaken : g q = x := (hg q hq).resolve_left hne
    have hlow : (b.intersect ((qs.map g).foldl Constraints.intersect none)).Under x :=
      (hb.intersect_under_right hmeet').trans (htaken ▸ hunder' _ (List.mem_map_of_mem hq))
        (hb.intersect hmeet').toSlim hmeet'.toSlim hxbroad.toSlim
    have hhigh : x.Under (b.intersect ((qs.map g).foldl Constraints.intersect none)) :=
      hxb.intersect ((Constraints.under_none x).foldl_intersect hxbroad Constraints.broad_none hg')
        hxbroad.toSlim hb.toSlim hmeet'.toSlim
    exact hlow.antisymm hhigh (hb.intersect hmeet') hxbroad

namespace GraphState

variable {T : String → NodeType → Prop} {config : EngineConfig} {n m : Nat}
  {external external' : External} {s t t' u : GraphState} {e f d c d' : NodeEntry}
  {p q : PadState} {r x : PadRef} {id : Option String} {inner : GraphState} {i j k a b : Nat}
  {placed rest : List Nat} {changed : Bool} {L : Timetable} {echoes : Prop} {wires : List Link}
  {due due' : Nat → Prop}

/-! ### What is kept -/

/-- What is due at a node is kept. The pads of a plugin declare what they would declare anew, the
pads of a subgraph show what is behind them, the graph inside is at rest under something that
shows the same to its sinks, and under all that it is shown if it is idle. -/
structure KeptAt (T : String → NodeType → Prop) (config : EngineConfig) (n : Nat)
    (external : External) (L : Timetable) (due : Nat → Prop) (u : GraphState) (d e : NodeEntry) :
    Prop where
  plugin : ∀ type, e.body = .plugin type → ∀ q ∈ d.pads, ¬ IsOperator q.id →
    due (L.pads ⟨e.id, q.id⟩) → ∃ (g : GraphState) (ext : External) (c : NodeEntry),
    Outcome T config n e (g.peerViews ext e) c ∧
      (∀ z, type.Moves z q.id → g.seen ext e z = u.seen external e z) ∧
      ∃ p ∈ c.pads, p.id = q.id ∧ p.declared = q.declared
  shown : ∀ id g, d.body = .subgraph id g → ∀ q ∈ d.pads, ¬ IsOperator q.id →
    due (L.pads ⟨e.id, q.id⟩) → (∃ m ext, n = m + 1 ∧ AtRest T config m ext g) ∧
      q.declared = (d.behind q.id).narrowedBy (u.seen external e q.id)
  inside : ∀ id g, d.body = .subgraph id g → due (L.nodes e.id) →
    ∃ m ext, n = m + 1 ∧ AtRest T config m ext g ∧
      ext.SinksAlike (externalOf e.pads (u.peerViews external e)) g
  idle : ∀ id g, d.body = .subgraph id g → L.nodes e.id = 0 →
    ∃ m, n = m + 1 ∧ AtRest T config m (externalOf e.pads (u.peerViews external e)) g

theorem KeptAt.mono (h : KeptAt T config n external L due u d e) (hdue : ∀ a, due' a → due a) :
    KeptAt T config n external L due' u d e :=
  ⟨fun type hb q hq hop hd => h.plugin type hb q hq hop (hdue _ hd),
    fun id g hb q hq hop hd => h.shown id g hb q hq hop (hdue _ hd),
    fun id g hb hd => h.inside id g hb (hdue _ hd), h.idle⟩

/-- A subgraph that was resolved, so that its pads declare no more than what is behind them
(`NodeEntry.behind`). Before that they may declare anything. -/
structure ResolvedOnce (T : String → NodeType → Prop) (config : EngineConfig) (n : Nat)
    (d : NodeEntry) : Prop where
  rest : d.body.Inside fun g => ∃ m ext, n = m + 1 ∧ AtRest T config m ext g
  under : d.isSubgraph = true → ∀ q ∈ d.pads, ¬ IsOperator q.id →
    q.declared.Under (d.behind q.id)

/-- The nodes at the places `placed` were resolved for the `k + 1`st time, and the others `k`
times. What is due is kept (`KeptAt`, `Due`). It is the invariant of passes that keep to a
timetable. -/
structure Midway (T : String → NodeType → Prop) (config : EngineConfig) (n : Nat)
    (external external' : External) (L : Timetable) (wires : List Link) (k : Nat)
    (placed : List Nat) (s u : GraphState) : Prop extends Over T n external external' s u where
  same : u.links = wires
  kept : ∀ (i : Nat) (e d : NodeEntry), s.nodes[i]? = some e → u.nodes[i]? = some d →
    KeptAt T config n external' L (fun a => Due k placed a i) u d e
  once : ∀ (i : Nat) (e d : NodeEntry), s.nodes[i]? = some e → u.nodes[i]? = some d →
    1 ≤ k ∨ i ∈ placed → ResolvedOnce T config n d

/-- One step: the node at the place `i` is resolved, and becomes `d'`. The lemmas of this section
say what has stayed the same then for the other nodes, and end in `Step.midway`. -/
structure Step (T : String → NodeType → Prop) (config : EngineConfig) (n : Nat)
    (external external' : External) (L : Timetable) (wires : List Link) (k : Nat)
    (placed : List Nat) (i : Nat) (s u : GraphState) (e d d' : NodeEntry) : Prop
    extends Midway T config n external external' L wires k placed s u where
  order : ∃ rest, ({ s with links := wires } : GraphState).dependencyOrder = placed ++ i :: rest
  before : s.nodes[i]? = some e
  node : u.nodes[i]? = some d
  resolve : ∃ changed, resolveNode (innerResolver config n) external' u d = .ok (d', changed)
  plan : d'.plan = e.plan
  inside : d'.body.Inside fun g =>
    ∃ m, n = m + 1 ∧ AtRest T config m (externalOf d.pads (u.peerViews external' d)) g

/-- The graph after a step. -/
abbrev replaceNode (u : GraphState) (i : Nat) (d' : NodeEntry) : GraphState :=
  { u with nodes := u.nodes.set i d' }

section

variable (hT : ∀ name type, T name type → type.IsBuiltin) (hs : AtRest T config n external s)

include hT hs

omit hT in
theorem AtRest.nodup_pads (hf : s.nodes[j]? = some f) (hc : c.plan = f.plan) :
    (c.pads.map (·.id)).Nodup := by
  rw [PadState.map_id_of_plan (NodeEntry.plan_eq_iff.mp hc).2.2.2.1]
  exact hs.wellFormed.self.distinctPads f (List.mem_of_getElem? hf)

/-- Something that a linked pad permits at rest is behind it, and seen by it, in every draft above.
So narrowing by what is seen always has an effect. -/
theorem Over.exists_under (hu : Over T n external external' s u) (he : s.nodes[i]? = some e)
    (hd : u.nodes[i]? = some d) (hp : p ∈ e.pads) (hop : ¬ IsOperator p.id)
    (hlinked : ¬ s.Unlinked ⟨e.id, p.id⟩) : ∃ c : Constraints, c.Broad ∧ c ≠ some [] ∧
      c.Under (d.behind p.id) ∧ c.Under (u.seen external' e p.id) := by
  have hmem := List.mem_of_getElem? he
  have hids := ids_of_plan hu.nodes
  have hnd := hs.wellFormed.self.distinctNodes
  obtain ⟨c, hc, hne, hdecl, hseen⟩ := hs.exists_under_link hT hmem hp hop hlinked
  have hbehind := hs.declared_under_behind hT hmem hp hop
  have habove := hu.above.behind hu.nodes hs.wellFormed (r := ⟨e.id, p.id⟩) hop
  have hd' : u.behind ⟨e.id, p.id⟩ = d.behind p.id := by
    obtain ⟨hid, -⟩ := NodeEntry.plan_eq_iff.mp (hu.plan_at he hd)
    rw [← hid]
    exact behind_of_mem (hids ▸ hnd) (List.mem_of_getElem? hd) _
  have hbroad := (hs.narrows hT _ p (by
    rw [pad?_of_mem hnd hmem, findPad_of_mem (hs.wellFormed.self.distinctPads e hmem) hp]) hop).1
  have hbroad' := hs.broad_behind_pad hT hmem hop
  have hbroad'' := GraphState.broad_behind u hu.clean (r := ⟨e.id, p.id⟩) hop
  rw [behind_of_mem hnd hmem] at habove
  refine ⟨c, hc, hne, ?_, hseen.trans (hu.seen_under hs e p.id) hc.toSlim
    (hs.clean.self.broad_seen hs.seen e p.id).toSlim
    (hu.clean.self.broad_seen hu.seen e p.id).toSlim⟩
  rw [← hd']
  exact (hdecl.trans hbehind hc.toSlim hbroad.toSlim hbroad'.toSlim).trans habove hc.toSlim
    hbroad'.toSlim hbroad''.toSlim

end

/-- What the pad at an address declares; nothing if there is none. -/
def declaredAt (s : GraphState) (r : PadRef) : Constraints := (s.declared? r).getD none

theorem declaredAt_of_pad (hp : s.pad? r = some p) : s.declaredAt r = p.declared := by
  rw [declaredAt, declared?, hp]
  rfl

theorem Clean.broad_declaredAt (hs : s.Clean) (hop : ¬ IsOperator r.pad) :
    (s.declaredAt r).Broad := by
  rw [declaredAt]
  cases hr : s.declared? r with
  | none => exact Constraints.broad_none
  | some cs => exact hs.broad_declared? hop hr

/-- A linked source sees what its sinks declare. -/
theorem Joined.seen_source (hs : s.Joined) (hnd : (e.pads.map (·.id)).Nodup) (hp : p ∈ e.pads)
    (hsource : p.isSource = true) {l : Link} (hl : l ∈ s.links) (hr : l.source = ⟨e.id, p.id⟩) :
    s.seen external e p.id = ((s.downstream ⟨e.id, p.id⟩).map s.declaredAt).foldl
      Constraints.intersect none := by
  have hmap : (s.downstream ⟨e.id, p.id⟩).filterMap s.declared? =
      (s.downstream ⟨e.id, p.id⟩).map s.declaredAt := by
    rw [← List.filterMap_eq_map]
    refine List.filterMap_congr fun z hz => ?_
    obtain ⟨-, q, -, hq, -⟩ := hs.ends (mem_downstream.mp hz)
    rw [Function.comp_apply, declaredAt_of_pad hq, declared?, hq]
    rfl
  have hmem : l.sink ∈ s.downstream ⟨e.id, p.id⟩ := mem_downstream.mpr (hr ▸ hl)
  rw [seen_of_mem hnd hp, peerView_source hsource, hmap]
  split
  · rename_i hnil
    rw [List.map_eq_nil_iff.mp hnil] at hmem
    cases hmem
  · rfl

/-- A linked sink sees what feeds it. -/
theorem Joined.seen_sink (hs : s.Joined) (hnd : (e.pads.map (·.id)).Nodup) (hp : p ∈ e.pads)
    (hsink : p.isSource = false) {l : Link} (hl : l ∈ s.links) (hr : l.sink = ⟨e.id, p.id⟩) :
    s.seen external e p.id = s.declaredAt l.source := by
  obtain ⟨q, -, hq, -⟩ := hs.ends hl
  rw [seen_of_mem hnd hp, peerView_sink hsink, ← hr, hs.feeder_sink hl, Option.bind_some,
    declaredAt_of_pad hq, declared?, hq]
  rfl

/-! ### One step -/

namespace Step

section

variable (hT : ∀ name type, T name type → type.IsBuiltin) (hs : AtRest T config n external s)
  (h : Step T config n external external' L wires k placed i s u e d d')

include h

theorem plan_before : d.plan = e.plan := h.toMidway.plan_at h.before h.node

theorem mem : e ∈ s.nodes := List.mem_of_getElem? h.before

theorem outcome : Outcome T config n e (u.peerViews external' e) d' := by
  obtain ⟨changed, hnode⟩ := h.resolve
  exact outcome_of_resolveNode h.plan_before h.plan h.inside hnode

/-- The graph inside a subgraph was resolved under what the subgraph sees (`externalOf`). -/
theorem exists_inner {g' : GraphState} (hb : d'.body = .subgraph id g') : ∃ m g, n = m + 1 ∧
    d.body = .subgraph id g ∧ g'.plan = g.plan ∧
    reconcileWithin config m (externalOf e.pads (u.peerViews external' e)) g = .ok g' ∧
    AtRest T config m (externalOf e.pads (u.peerViews external' e)) g' := by
  obtain ⟨changed, hnode⟩ := h.resolve
  obtain ⟨specs, body, hresolve, -, hd', -⟩ := resolveNode_eq_ok hnode
  obtain rfl : body = .subgraph id g' := by rw [← hb, hd']
  obtain ⟨g, hbg, hr, -⟩ := exists_of_resolveBody hresolve
  obtain ⟨m, rfl, hrest⟩ := h.inside id g' hb
  have hbody : d'.body.plan = d.body.plan :=
    (NodeEntry.plan_eq_iff.mp (h.plan.trans h.plan_before.symm)).2.2.2.2
  obtain ⟨g'', hb'', hplan⟩ := Body.subgraph_of_plan hbody hbg
  obtain ⟨-, rfl⟩ := Body.subgraph.inj (hb.symm.trans hb'')
  have hsame := externalOf_of_plan u external' h.plan_before
  exact ⟨m, g, rfl, hbg, hplan, hsame ▸ hr, hsame ▸ hrest⟩

include hT hs

/-- The same is behind a pad if it is rigid (`RigidBehind`), or if the graph inside is settled. -/
theorem behind_eq {pad : String} (hop : ¬ IsOperator pad) (hb : d.body = .subgraph id inner)
    (hrest : ∃ m ext, n = m + 1 ∧ AtRest T config m ext inner)
    (hdue : RigidBehind e pad ∨ L.nodes e.id ≤ k) : d'.behind pad = d.behind pad := by
  obtain ⟨inner', hb', -⟩ := Body.subgraph_of_plan
    (NodeEntry.plan_eq_iff.mp (h.plan.trans h.plan_before.symm)).2.2.2.2 hb
  obtain ⟨m, g, hm, hbg, hplan, hr, hrest'⟩ := h.exists_inner hb'
  obtain ⟨-, rfl⟩ := Body.subgraph.inj (hb.symm.trans hbg)
  rw [NodeEntry.behind_of_body hb, NodeEntry.behind_of_body hb']
  rcases hdue with ⟨id₀, inner₀, x, hb₀, hx, hrigid⟩ | hdue
  · obtain ⟨m', ext, hm', hg⟩ := hrest
    obtain rfl : m = m' := Nat.succ.inj (hm.symm.trans hm')
    obtain ⟨g₀, hbg₀, hplan₀⟩ :=
      Body.subgraph_of_plan (NodeEntry.plan_eq_iff.mp h.plan_before).2.2.2.2 hb₀
    obtain ⟨-, rfl⟩ := Body.subgraph.inj (hbg.symm.trans hbg₀)
    have hrigid' := hrigid.of_plan (hs.wellFormed.body h.mem _ _ hb₀) (nodes_of_plan hplan₀)
    rw [hx]
    exact hrigid'.behind hT hg hrest' (nodes_of_plan hplan)
  · obtain ⟨m', ext, hm', hg, halike⟩ :=
      (h.kept i e d h.before h.node).inside id inner hb (.of_le hdue)
    obtain rfl : m = m' := Nat.succ.inj (hm.symm.trans hm')
    cases hx : parseProxyPadId pad with
    | none => rfl
    | some x =>
      refine hg.behind_of_sinksAlike hT hrest'.seen halike hr fun hop' => hop ?_
      rw [(parseProxyPadId_eq_some_iff.mp hx).1]
      exact (isOperator_proxyPadId x).mpr hop'

variable (htimed : ({ s with links := wires } : GraphState).Timed echoes L
  (config.passLimit s.nodes.length))

include htimed

/-- What is settled is declared again. -/
theorem declared_eq {q' : PadState} (hq : q ∈ d.pads) (hq' : q' ∈ d'.pads) (hid : q'.id = q.id)
    (hop : ¬ IsOperator q.id) (hdue : L.pads ⟨e.id, q.id⟩ ≤ k) : q'.declared = q.declared := by
  have hkept := h.kept i e d h.before h.node
  have hout := h.outcome
  cases hb : e.body with
  | plugin type =>
    obtain ⟨g, ext, c, hc, hsee, p, hp, hpid, hpdecl⟩ :=
      hkept.plugin type hb q hq hop (.of_le hdue)
    rw [← hpdecl]
    exact hc.declared_congr hT hs h.mem hout hb hp hq' (hid.trans hpid.symm) fun z hz =>
      hsee z (hpid ▸ hz)
  | subgraph id inner =>
    have hbody := (NodeEntry.plan_eq_iff.mp h.plan_before).2.2.2.2
    obtain ⟨g, hbg, -⟩ := Body.subgraph_of_plan hbody hb
    obtain ⟨g', hbg', -⟩ := Body.subgraph_of_plan (NodeEntry.plan_eq_iff.mp h.plan).2.2.2.2 hb
    obtain ⟨hrest, hdecl⟩ := hkept.shown id g hbg q hq hop (.of_le hdue)
    obtain ⟨p, hp, hpid, -⟩ := NodeEntry.exists_pad_of_plan h.plan_before hq
    have hsub : e.isSubgraph = true := by rw [NodeEntry.isSubgraph, hb]
    have hshown := htimed.shown e h.mem hsub p hp (hpid ▸ hop)
    rw [hpid] at hshown
    rw [hout.declared_of_subgraph hT hs h.mem hbg' hq', hid, hdecl,
      h.behind_eq hT hs hop hbg hrest (hshown.imp_right fun hle => hle.trans hdue)]

/-- Away from the node, and where its types are settled, the same is declared after the step. -/
theorem declared?_eq (hop : ¬ IsOperator x.pad) (hdue : x.node = e.id → L.pads x ≤ k) :
    (u.replaceNode i d').declared? x = u.declared? x := by
  have hids := ids_of_plan h.nodes
  refine declared?_of_plan (map_set_of_eq h.node (h.plan.trans h.plan_before.symm))
    (hids ▸ hs.wellFormed.self.distinctNodes) fun j c c' hc hc' hcid q hq q' hq' hqid hqid' => ?_
  obtain ⟨f, hf, hfc⟩ := getElem?_of_plan h.nodes.symm hc
  rw [List.getElem?_set] at hc'
  split at hc'
  · rename_i hij
    subst hij
    split at hc'
    · obtain rfl := Option.some.inj hc'
      obtain rfl := Option.some.inj (h.node.symm.trans hc)
      obtain ⟨hid, -⟩ := NodeEntry.plan_eq_iff.mp h.plan_before
      obtain rfl : x = ⟨e.id, q.id⟩ := by rw [← hid, hcid, hqid]
      exact h.declared_eq hT hs htimed hq hq' (hqid'.trans hqid.symm) (hqid ▸ hop) (hdue rfl)
    · cases hc'
  · obtain rfl := Option.some.inj (hc'.symm.trans hc)
    rw [List.inj_on_of_nodup_map (hs.nodup_pads hf hfc.symm) hq' hq (hqid'.trans hqid.symm)]

/-- A pad sees the same after the step if what the node shows to it is settled. -/
theorem peerView_eq
    (hfeed : p.isSource = false → ∀ l ∈ wires, l.sink = r → l.source.node = e.id →
      L.pads l.source ≤ k)
    (hdown : p.isSource = true → ∀ l ∈ wires, l.source = r → l.sink.node = e.id →
      L.pads l.sink ≤ k) :
    (u.replaceNode i d').peerView external' r p = u.peerView external' r p := by
  have hop : ∀ l ∈ u.links, ¬ IsOperator l.source.pad ∧ ¬ IsOperator l.sink.pad :=
    h.clean.self.unlinked
  refine peerView_of_declared? (h.toOver.joined hs) rfl (fun hp l hl hr => ?_)
    (fun hp l hl hr => ?_) fun _ => rfl
  · exact h.declared?_eq hT hs htimed (hop l hl).2 (hdown hp l (h.same ▸ hl) hr)
  · exact h.declared?_eq hT hs htimed (hop l hl).1 (hfeed hp l (h.same ▸ hl) hr)

omit hT htimed in
/-- What is due at a node rests on what the resolved node showed before: `InTime` compares passes,
and places within a pass. -/
theorem le_of_inTime (hf : s.nodes[j]? = some f)
    (hin : ({ s with links := wires } : GraphState).InTime e.id a f.id b)
    (hdue : Due k (placed ++ [i]) b j) : a ≤ k := by
  obtain ⟨rest, horder⟩ := h.order
  have hnd := hs.wellFormed.self.distinctNodes
  exact GraphState.le_of_inTime horder (indexOf?_of_getElem? hnd h.before)
    (indexOf?_of_getElem? hnd hf) hin hdue

/-- A sink of a node at which something is due sees the same after the step, if what feeds the
sink is in time. -/
theorem peerView_of_sink (hf : s.nodes[j]? = some f) (hp : p.isSource = false)
    (hdue : Due k (placed ++ [i]) b j)
    (hin : ∀ l ∈ wires, l.sink = ⟨f.id, p.id⟩ →
      ({ s with links := wires } : GraphState).InTime l.source.node (L.pads l.source) f.id b) :
    (u.replaceNode i d').peerView external' ⟨f.id, p.id⟩ p =
      u.peerView external' ⟨f.id, p.id⟩ p := by
  refine h.peerView_eq hT hs htimed (fun _ l hl hr hnode => ?_) fun hsource => ?_
  · have hin' := hin l hl hr
    rw [hnode] at hin'
    exact h.le_of_inTime hs hf hin' hdue
  · rw [hp] at hsource
    cases hsource

/-- The sinks that move a pad of a plugin see the same after the step. -/
theorem seen_of_moves (hf : s.nodes[j]? = some f) {type : NodeType} (hb : f.body = .plugin type)
    {pad z : String} (hop : ¬ IsOperator pad) (hz : type.Moves z pad)
    (hdue : Due k (placed ++ [i]) (L.pads ⟨f.id, pad⟩) j) :
    (u.replaceNode i d').seen external' f z = u.seen external' f z := by
  have hmem := List.mem_of_getElem? hf
  cases hz' : findPad z f.pads with
  | none => rw [GraphState.seen, GraphState.seen, hz']; rfl
  | some p =>
    obtain ⟨hp, rfl⟩ := findPad_eq_some hz'
    have hsink := hs.isSource_of_moves hT hmem hb hp hz
    refine seen_of_peerView (hs.wellFormed.self.distinctPads f hmem) hp
      (h.peerView_of_sink hT hs htimed hf hsink hdue fun l hl hr => ?_)
    exact htimed.moved f hmem type hb pad hop l hl (by rw [hr]) (by rw [hr]; exact hz)

/-- The sinks of a subgraph see the same after the step (`External.SinksAlike`) if its inside is
due. -/
theorem sinksAlike (hf : s.nodes[j]? = some f) (hb : f.body = .subgraph id inner)
    (hdue : Due k (placed ++ [i]) (L.nodes f.id) j) :
    (externalOf f.pads (u.peerViews external' f)).SinksAlike
      (externalOf f.pads ((u.replaceNode i d').peerViews external' f)) inner := by
  have hmem := List.mem_of_getElem? hf
  have hsub : f.isSubgraph = true := by rw [NodeEntry.isSubgraph, hb]
  refine hs.sinksAlike_inside hT hmem hb fun p hp hsink =>
    h.peerView_of_sink hT hs htimed hf hsink hdue fun l hl hr => ?_
  exact (htimed.fed f hmem hsub l hl (by rw [hr])).1

/-- An idle subgraph sees the same after the step. -/
theorem peerViews_of_idle (hf : s.nodes[j]? = some f) (hsub : f.isSubgraph = true)
    (hidle : L.nodes f.id = 0) :
    (u.replaceNode i d').peerViews external' f = u.peerViews external' f := by
  have hmem := List.mem_of_getElem? hf
  refine List.map_congr_left fun p hp => congrArg (Prod.mk p.id) ?_
  refine h.peerView_eq hT hs htimed (fun _ l hl hr _ => ?_) fun _ l hl hr _ => ?_
  · rw [(htimed.idle f hmem hsub hidle l hl).2 (by rw [hr])]
    exact Nat.zero_le k
  · rw [(htimed.idle f hmem hsub hidle l hl).1 (by rw [hr])]
    exact Nat.zero_le k

omit htimed in
/-- The sink of an echo takes over what its source declares, if that is not more than the sink
declared before. This is where a source that has been kept makes its sinks follow. -/
theorem declaredAt_of_echo {l : Link} (hl : l ∈ wires) (hsink : l.sink.node = e.id)
    (hsource : s.nodes[j]? = some f) (hnode : l.source.node = f.id)
    (hdue : Due k (placed ++ [i]) (L.pads l.source) j)
    (hecho : ({ s with links := wires } : GraphState).Echo L l e)
    (hne : u.declaredAt l.source ≠ some [])
    (hunder : (u.declaredAt l.source).Under (u.declaredAt l.sink)) :
    (u.replaceNode i d').declaredAt l.sink = u.declaredAt l.source := by
  have hjoined := h.toOver.joined hs
  have hl' : l ∈ u.links := h.same ▸ hl
  obtain ⟨hop, hop'⟩ := h.clean.self.unlinked l hl'
  have hbroad := h.clean.self.broad_declaredAt hop
  have hbroad' := h.clean.self.broad_declaredAt hop'
  have hin : ∀ {a}, ({ s with links := wires } : GraphState).InTime l.sink.node a l.source.node
      (L.pads l.source) → a ≤ k := by
    intro a hin
    rw [hsink, hnode] at hin
    exact h.le_of_inTime hs hsource hin hdue
  -- the pad, before and after
  obtain ⟨hid, -⟩ := NodeEntry.plan_eq_iff.mp h.plan_before
  have hids := ids_of_plan h.nodes
  have hdistinct : (u.nodes.map (·.id)).Nodup := hids ▸ hs.wellFormed.self.distinctNodes
  have hmem := List.mem_of_getElem? h.node
  obtain ⟨-, q, -, hq, -, hqsink⟩ := hjoined.ends hl'
  obtain ⟨d₀, hd₀, hd₀id, hqmem, hqid⟩ := pad?_eq_some hq
  obtain rfl : d₀ = d := by
    have h₁ := node?_of_mem hdistinct hd₀
    rw [hd₀id, hsink, ← hid, node?_of_mem hdistinct hmem] at h₁
    exact (Option.some.inj h₁).symm
  obtain ⟨p, hp, hpid, hptype, -⟩ := NodeEntry.exists_pad_of_plan h.plan_before hqmem
  obtain ⟨q', hq', hqid', -⟩ :=
    NodeEntry.exists_pad_of_plan (h.plan_before.trans h.plan.symm) hqmem
  have hafter : (u.replaceNode i d').pad? l.sink = some q' := by
    have hd' : d' ∈ (u.replaceNode i d').nodes :=
      List.mem_of_getElem? (List.getElem?_set_self (List.getElem?_eq_some_iff.mp h.node).1)
    have hid' : d'.id = l.sink.node := (NodeEntry.plan_eq_iff.mp h.plan).1.trans hsink.symm
    have hnodes : ((u.replaceNode i d').nodes.map (·.id)).Nodup := by
      rw [map_set_of_eq h.node ((NodeEntry.plan_eq_iff.mp h.plan).1.trans hid.symm)]
      exact hdistinct
    have hpad := pad?_of_mem hnodes hd' q'.id
    rw [findPad_of_mem (hs.nodup_pads h.before h.plan) hq'] at hpad
    rw [← hpad, hid', hqid', hqid]
  -- what it declares is what is behind it, narrowed by what the source declares
  have hsub : e.isSubgraph = true := hecho.subgraph
  have hsees : u.seen external' e q'.id = u.declaredAt l.source := by
    rw [hqid', ← hpid]
    refine hjoined.seen_sink (hs.wellFormed.self.distinctPads e h.mem) hp ?_ hl' ?_
    · exact (congrArg PadType.isSource hptype).trans hqsink
    · rw [hpid, hqid, ← hsink]
  obtain ⟨id, inner, hb⟩ : ∃ id inner, e.body = .subgraph id inner := by
    cases hb : e.body with
    | plugin type => rw [NodeEntry.isSubgraph, hb] at hsub; cases hsub
    | subgraph id inner => exact ⟨id, inner, rfl⟩
  obtain ⟨g, hbg, -⟩ :=
    Body.subgraph_of_plan (NodeEntry.plan_eq_iff.mp h.plan_before).2.2.2.2 hb
  obtain ⟨g', hbg', -⟩ := Body.subgraph_of_plan (NodeEntry.plan_eq_iff.mp h.plan).2.2.2.2 hb
  have honce := h.once i e d₀ h.before h.node (.inl (hin hecho.once))
  have hqop : ¬ IsOperator q.id := hqid ▸ hop'
  have hbehind := h.behind_eq hT hs hqop hbg (honce.rest _ _ hbg) (by
    rw [hqid]
    exact hecho.behind.imp_right fun hb => hsink ▸ hin hb)
  have hlow : (u.declaredAt l.source).Under (d₀.behind q.id) := by
    have hq'' := honce.under (by rw [NodeEntry.isSubgraph, hbg]) q hqmem hqop
    rw [declaredAt_of_pad hq] at hunder hbroad'
    refine hunder.trans hq'' hbroad.toSlim hbroad'.toSlim ?_
    have hb' := GraphState.broad_behind u h.clean (r := ⟨d₀.id, q.id⟩) hqop
    rw [behind_of_mem hdistinct hmem] at hb'
    exact hb'.toSlim
  have hbroad₀ : (d₀.behind q.id).Broad := by
    have hb' := GraphState.broad_behind u h.clean (r := ⟨d₀.id, q.id⟩) hqop
    rwa [behind_of_mem hdistinct hmem] at hb'
  rw [declaredAt_of_pad hafter, h.outcome.declared_of_subgraph hT hs h.mem hbg' hq', hsees, hqid',
    hbehind, hbroad₀.narrowedBy_eq hbroad hbroad hne hlow hbroad.under_self]
  exact hlow.eq_of_intersect hbroad hbroad₀

/-- A subgraph that did not come about in the step still shows what is behind it. -/
theorem shown_of_ne (hover : Over T n external external' s (u.replaceNode i d')) (hji : j ≠ i)
    (hf : s.nodes[j]? = some f) (hc : u.nodes[j]? = some c) (hsub : f.isSubgraph = true)
    (hq : q ∈ c.pads) (hop : ¬ IsOperator q.id)
    (hdue : Due k (placed ++ [i]) (L.pads ⟨f.id, q.id⟩) j)
    (hx : q.declared = (c.behind q.id).narrowedBy (u.seen external' f q.id)) :
    q.declared = (c.behind q.id).narrowedBy ((u.replaceNode i d').seen external' f q.id) := by
  have hmem := List.mem_of_getElem? hf
  have hnd := hs.wellFormed.self.distinctPads f hmem
  have hjoined := h.toOver.joined hs
  obtain ⟨p, hp, hpid, htype, -⟩ := NodeEntry.exists_pad_of_plan (h.toMidway.plan_at hf hc) hq
  rw [← hpid] at hdue hx hop ⊢
  by_cases hfree : p.isSource = false ∨ ∀ l ∈ wires, l.source ≠ ⟨f.id, p.id⟩
  · rw [seen_of_peerView hnd hp, ← hx]
    cases hsink : p.isSource with
    | false =>
      exact h.peerView_of_sink hT hs htimed hf hsink hdue fun l hl hr => by
        have hin := (htimed.fed f hmem hsub l hl (by rw [hr])).2
        rwa [hr] at hin
    | true =>
      rw [hsink] at hfree
      exact h.peerView_eq hT hs htimed (fun hsink' => by rw [hsink] at hsink'; cases hsink')
        fun _ l hl hr => absurd hr (hfree.resolve_left (by simp) l hl)
  · -- the sinks declare the same, or take over what the pad declares
    obtain ⟨hsource, l₀, hl₀, hr₀⟩ :
        p.isSource = true ∧ ∃ l ∈ wires, l.source = ⟨f.id, p.id⟩ := by
      simpa only [not_or, Bool.not_eq_false, not_forall, not_not, exists_prop] using hfree
    have hl₀' : l₀ ∈ u.links := h.same ▸ hl₀
    have hlinked : ¬ s.Unlinked ⟨f.id, p.id⟩ := fun hn => (hn l₀ (h.links hl₀')).1 hr₀
    have hc' : (u.replaceNode i d').nodes[j]? = some c := by
      rw [List.getElem?_set_ne hji.symm]
      exact hc
    obtain ⟨b₁, hb₁, hne₁, hbehind₁, hsees₁⟩ :=
      h.toOver.exists_under hT hs hf hc hp hop hlinked
    obtain ⟨b₂, hb₂, hne₂, hbehind₂, hsees₂⟩ := hover.exists_under hT hs hf hc' hp hop hlinked
    have hbroad : (c.behind p.id).Broad := by
      have hb := GraphState.broad_behind u h.clean (r := ⟨c.id, p.id⟩) hop
      rwa [behind_of_mem (ids_of_plan h.nodes ▸ hs.wellFormed.self.distinctNodes)
        (List.mem_of_getElem? hc)] at hb
    have hpad : u.declaredAt ⟨f.id, p.id⟩ = q.declared := by
      refine declaredAt_of_pad ?_
      have hpad := pad?_of_mem (ids_of_plan h.nodes ▸ hs.wellFormed.self.distinctNodes)
        (List.mem_of_getElem? hc) q.id
      rw [findPad_of_mem (hs.nodup_pads hf (h.toMidway.plan_at hf hc)) hq] at hpad
      rw [← hpad, (NodeEntry.plan_eq_iff.mp (h.toMidway.plan_at hf hc)).1, hpid]
    have hsees := h.clean.self.broad_seen h.seen f p.id
    have hne : q.declared ≠ some [] := by
      rw [hx]
      exact (hbroad.under_narrowedBy hsees hb₁ hne₁ hbehind₁ hsees₁).ne_nil hne₁
    rw [hbroad.narrowedBy_eq hsees hb₁ hne₁ hbehind₁ hsees₁,
      hjoined.seen_source hnd hp hsource hl₀' hr₀] at hx
    rw [hbroad.narrowedBy_eq (hover.clean.self.broad_seen hover.seen f p.id) hb₂ hne₂ hbehind₂
      hsees₂, (hover.joined hs).seen_source hnd hp hsource hl₀' hr₀]
    refine (hbroad.intersect_echo (fun z hz => ?_) hx.symm fun z hz => ?_).symm
    · exact h.clean.self.broad_declaredAt (h.clean.self.unlinked _ (mem_downstream.mp hz)).2
    · have hl : ⟨⟨f.id, p.id⟩, z⟩ ∈ u.links := mem_downstream.mp hz
      have hzop : ¬ IsOperator z.pad := (h.clean.self.unlinked _ hl).2
      have hsame : (z.node = e.id → L.pads z ≤ k) →
          (u.replaceNode i d').declaredAt z = u.declaredAt z := fun hle => by
        rw [declaredAt, declaredAt, h.declared?_eq hT hs htimed hzop hle]
      by_cases hz' : z.node = e.id
      · have hnode : ({ s with links := wires } : GraphState).node? f.id = some f :=
          node?_of_mem hs.wellFormed.self.distinctNodes hmem
        rcases htimed.feeding _ (h.same ▸ hl) f hnode hsub with hin | ⟨-, e', hecho⟩
        · refine .inl (hsame fun _ => ?_)
          rw [show z.node = e.id from hz'] at hin
          exact h.le_of_inTime hs hf hin hdue
        · have he' : s.node? z.node = some e' := hecho.node
          rw [hz', node?_of_mem hs.wellFormed.self.distinctNodes h.mem] at he'
          obtain rfl := Option.some.inj he'
          right
          rw [← hpad]
          refine h.declaredAt_of_echo hT hs (h.same ▸ hl) hz' hf rfl hdue hecho
            (hpad ▸ hne) ?_
          rw [hpad, hx]
          have hall : ∀ a ∈ (u.downstream ⟨f.id, p.id⟩).map u.declaredAt, a.Broad := by
            intro a ha
            obtain ⟨y, hy, rfl⟩ := List.mem_map.mp ha
            exact h.clean.self.broad_declaredAt
              (h.clean.self.unlinked _ (mem_downstream.mp hy)).2
          have hmeet := Constraints.broad_none.foldl_intersect hall
          exact (hbroad.intersect_under_right hmeet).trans
            ((Constraints.broad_none.foldl_under hall).2 _ (List.mem_map_of_mem hz))
            (hbroad.intersect hmeet).toSlim hmeet.toSlim
            (h.clean.self.broad_declaredAt hzop).toSlim
      · exact .inl (hsame fun h' => absurd h' hz')

/-- What is due at the other nodes is kept: what they see of the resolved node was settled before,
or they are not due yet. -/
theorem kept_of_ne (hover : Over T n external external' s (u.replaceNode i d')) (hji : j ≠ i)
    (hf : s.nodes[j]? = some f) (hc : u.nodes[j]? = some c) :
    KeptAt T config n external' L (fun a => Due k (placed ++ [i]) a j) (u.replaceNode i d') c
      f := by
  have hkept := (h.kept j f c hf hc).mono fun a => (due_append_of_ne hji).mp
  have hbody := (NodeEntry.plan_eq_iff.mp (h.toMidway.plan_at hf hc)).2.2.2.2
  refine ⟨fun type hb q hq hop hdue => ?_, fun id g hb q hq hop hdue => ?_,
    fun id g hb hdue => ?_, fun id g hb hidle => ?_⟩
  · obtain ⟨g, ext, c', hout, hsee, hpad⟩ := hkept.plugin type hb q hq hop hdue
    exact ⟨g, ext, c', hout, fun z hz =>
      (hsee z hz).trans (h.seen_of_moves hT hs htimed hf hb hop hz hdue).symm, hpad⟩
  · obtain ⟨inner, hb', -⟩ := Body.subgraph_of_plan hbody.symm hb
    obtain ⟨hrest, hdecl⟩ := hkept.shown id g hb q hq hop hdue
    exact ⟨hrest, h.shown_of_ne hT hs htimed hover hji hf hc
      (by rw [NodeEntry.isSubgraph, hb']) hq hop hdue hdecl⟩
  · obtain ⟨inner, hb', hplan⟩ := Body.subgraph_of_plan hbody.symm hb
    obtain ⟨m, ext, hm, hrest, halike⟩ := hkept.inside id g hb hdue
    have hstep := sinksAlike_of_plan (h.sinksAlike hT hs htimed hf hb' hdue)
      (nodes_of_plan hplan.symm)
    exact ⟨m, ext, hm, hrest, fun x hx y hy hsink =>
      (hstep x hx y hy hsink).trans (halike x hx y hy hsink)⟩
  · obtain ⟨inner, hb', -⟩ := Body.subgraph_of_plan hbody.symm hb
    rw [h.peerViews_of_idle hT hs htimed hf (by rw [NodeEntry.isSubgraph, hb']) hidle]
    exact hkept.idle id g hb hidle

/-- What is due at the node itself is kept: it was resolved under what it still sees. -/
theorem kept_self :
    KeptAt T config n external' L (fun a => Due k (placed ++ [i]) a i) (u.replaceNode i d') d'
      e := by
  have hout := h.outcome
  have hbody := (NodeEntry.plan_eq_iff.mp h.plan).2.2.2.2
  refine ⟨fun type hb q hq hop hdue => ?_, fun id g hb q hq hop hdue => ?_,
    fun id g hb hdue => ?_, fun id g hb hidle => ?_⟩
  · exact ⟨u, external', d', hout, fun z hz =>
      (h.seen_of_moves hT hs htimed h.before hb hop hz hdue).symm, q, hq, rfl, rfl⟩
  · obtain ⟨inner, hb', -⟩ := Body.subgraph_of_plan hbody.symm hb
    have hsub : e.isSubgraph = true := by rw [NodeEntry.isSubgraph, hb']
    obtain ⟨m, -, hm, -, -, -, hrest⟩ := h.exists_inner hb
    refine ⟨⟨m, _, hm, hrest⟩, ?_⟩
    rw [hout.declared_of_subgraph hT hs h.mem hb hq]
    obtain ⟨p, hp, hpid, -⟩ := NodeEntry.exists_pad_of_plan h.plan hq
    have hnd := hs.wellFormed.self.distinctPads e h.mem
    rw [← hpid] at hdue ⊢
    refine congrArg _ (seen_of_peerView hnd hp ?_).symm
    cases hsink : p.isSource with
    | false =>
      exact h.peerView_of_sink hT hs htimed h.before hsink hdue fun l hl hr => by
        have hin := (htimed.fed e h.mem hsub l hl (by rw [hr])).2
        rwa [hr] at hin
    | true =>
      -- no echo comes from the node itself
      refine h.peerView_eq hT hs htimed (fun hsink' => by rw [hsink] at hsink'; cases hsink')
        fun _ l hl hr hnode => ?_
      have hsource : ({ s with links := wires } : GraphState).node? l.source.node = some e := by
        rw [hr]
        exact node?_of_mem hs.wellFormed.self.distinctNodes h.mem
      rcases htimed.feeding l hl e hsource hsub with hin | ⟨-, f, hecho⟩
      · rw [hnode, hr] at hin
        exact h.le_of_inTime hs h.before hin hdue
      · exact absurd (hnode.trans (by rw [hr])) hecho.ne
  · obtain ⟨inner, hb', hplan⟩ := Body.subgraph_of_plan hbody.symm hb
    obtain ⟨m, -, hm, -, -, -, hrest⟩ := h.exists_inner hb
    exact ⟨m, _, hm, hrest, sinksAlike_of_plan (h.sinksAlike hT hs htimed h.before hb' hdue)
      (nodes_of_plan hplan.symm)⟩
  · obtain ⟨inner, hb', -⟩ := Body.subgraph_of_plan hbody.symm hb
    obtain ⟨m, -, hm, -, -, -, hrest⟩ := h.exists_inner hb
    rw [h.peerViews_of_idle hT hs htimed h.before (by rw [NodeEntry.isSubgraph, hb']) hidle]
    exact ⟨m, hm, hrest⟩

omit htimed in
/-- The graph after the step is above the graph at rest, too. -/
theorem still_over (hfits : external.Fits s) :
    Over T n external external' s (u.replaceNode i d') := by
  obtain ⟨changed, hnode⟩ := h.resolve
  have hmem := List.mem_of_getElem? h.node
  obtain ⟨-, hbroad, -⟩ := h.toDraft.resolveNode hT hs h.seen h.mem hmem h.plan_before
    (fun _ _ _ _ _ _ _ hg hg₁ hext' hg₂ => hg.of_draft hT hg₁ hext' hg₂) hnode
  refine ⟨h.toDraft.set hT h.seen h.before h.node h.plan hbroad (fun id g hb => ?_) hnode,
    h.links, h.above.set h.before ?_, h.seen, h.more, h.spares⟩
  · obtain ⟨m, -, hrest⟩ := h.inside id g hb
    exact hrest.clean
  · exact Over.padwise_of_resolveNode hT hs h.toOver hfits h.before h.node h.plan_before
      (fun m ext ext' g g₁ g₂ _ hg hgf hg₁ hr => hg.above hT hgf hg₁ hr) hnode h.plan h.inside

/-- One more node was resolved, and `Midway` holds of it as well. -/
theorem midway (hfits : external.Fits s) :
    Midway T config n external external' L wires k (placed ++ [i]) s (u.replaceNode i d') := by
  have hover := h.still_over hT hs hfits
  have hcases : ∀ j f c, s.nodes[j]? = some f → (u.replaceNode i d').nodes[j]? = some c →
      j = i ∧ f = e ∧ c = d' ∨ j ≠ i ∧ u.nodes[j]? = some c := by
    intro j f c hf hc
    by_cases hji : j = i
    · subst hji
      rw [List.getElem?_set_self (List.getElem?_eq_some_iff.mp h.node).1] at hc
      exact .inl ⟨rfl, Option.some.inj (hf.symm.trans h.before), (Option.some.inj hc).symm⟩
    · rw [List.getElem?_set_ne (Ne.symm hji)] at hc
      exact .inr ⟨hji, hc⟩
  refine ⟨hover, h.same, fun j f c hf hc => ?_, fun j f c hf hc hdone => ?_⟩
  · rcases hcases j f c hf hc with ⟨rfl, rfl, rfl⟩ | ⟨hji, hc⟩
    · exact h.kept_self hT hs htimed
    · exact h.kept_of_ne hT hs htimed hover hji hf hc
  · rcases hcases j f c hf hc with ⟨rfl, rfl, rfl⟩ | ⟨hji, hc⟩
    · refine ⟨fun id g hb => ?_, fun _ q hq hop => ?_⟩
      · obtain ⟨m, -, hm, -, -, -, hrest⟩ := h.exists_inner hb
        exact ⟨m, _, hm, hrest⟩
      · exact h.outcome.declared_under_behind hT hs h.mem h.clean.self h.seen hq hop
    · refine h.once j f c hf hc (hdone.imp_right fun hj => ?_)
      exact (List.mem_append.mp hj).resolve_right fun hj => hji (List.mem_singleton.mp hj)

end

end Step

end GraphState

end Patchbay
