import Patchbay.Proofs.Graph.Certainty
import Patchbay.Proofs.Graph.Between
import Patchbay.Proofs.Graph.Cut
import Patchbay.Proofs.Graph.Success
import Patchbay.Proofs.Graph.Forward

/-!
# Links that are made and taken away again

A link can be *traced* (`GraphState.Traceable`) if there is a timetable for all that it reaches:
types that come in with the link then come from somewhere else than the pads they go to, and are
gone when the link is gone. With the link the graph comes to rest beneath what it was, and without
it again between the two. There it is what it was before (`Linked.reconcile`).
-/

/-!
## What a link leaves alone

When two pads are linked, types move along with the link, and when the link is taken away, they
move back. Everything that a timetable has settled from the start is left alone by both, if what
the link reaches is not settled from the start (`GraphState.Stirs`): the pads declare what they
did, and the graphs inside of idle subgraphs are what they were (`GraphState.Intact`,
`Draft.intact`).
-/

namespace Patchbay.GraphState

variable {T : String → NodeType → Prop} {config : EngineConfig} {n m : Nat}
  {external external' : External} {s t t' u : GraphState} {e d d' : NodeEntry} {p q : PadState}
  {r : PadRef} {id : Option String} {inner : GraphState} {i passes : Nat} {changed : Bool}
  {L : Timetable} {l k : Link} {on : Bool} {type : NodeType}

/-- What the link reaches at its ends is not settled from the start: the pads that its sink moves,
and subgraphs, with the pads that are linked. All else that it reaches comes later, as `Timed`
says. -/
structure Stirs (s : GraphState) (L : Timetable) (l : Link) : Prop where
  moved : ∀ e ∈ s.nodes, ∀ type, e.body = .plugin type → l.sink.node = e.id →
    ∀ pad, ¬ IsOperator pad → type.Moves l.sink.pad pad → L.pads ⟨e.id, pad⟩ ≠ 0
  fed : ∀ e ∈ s.nodes, e.isSubgraph = true → l.sink.node = e.id →
    L.nodes e.id ≠ 0 ∧ L.pads l.sink ≠ 0
  feeding : ∀ e ∈ s.nodes, e.isSubgraph = true → l.source.node = e.id →
    L.nodes e.id ≠ 0 ∧ L.pads l.source ≠ 0

/-- What is settled from the start has not changed at a node: the pads at time `0` declare what
they did, and a subgraph that is idle at time `0` has the same graph inside. -/
structure Intact (L : Timetable) (d e : NodeEntry) : Prop where
  pads : ∀ p ∈ e.pads, ∀ q ∈ d.pads, q.id = p.id → ¬ IsOperator p.id →
    L.pads ⟨e.id, p.id⟩ = 0 → q.declared = p.declared
  body : e.isSubgraph = true → L.nodes e.id = 0 → d.body = e.body

/-- What is settled from the start rests on what is settled from the start, for no time is before
it. -/
theorem InTime.eq_zero {x y : String} {a b : Nat} (h : s.InTime x a y b) (hb : b = 0) :
    a = 0 := by
  rcases h with h | h | ⟨h, -⟩ <;> omega

theorem RigidBehind.rigid (hnd : (s.nodes.map (·.id)).Nodup) (he : e ∈ s.nodes) {pad : String}
    (h : RigidBehind e pad) : s.Rigid ⟨e.id, pad⟩ := by
  obtain ⟨id, inner, x, hb, hx, hrigid⟩ := h
  exact .inside (node?_of_mem hnd he) hb hx hrigid

theorem intact_refl (hnd : ∀ e ∈ s.nodes, (e.pads.map (·.id)).Nodup) :
    s.Nodewise (Intact L) s := by
  intro i e d he hd
  obtain rfl := Option.some.inj (he.symm.trans hd)
  refine ⟨fun p hp q hq hid _ _ => ?_, fun _ _ => rfl⟩
  rw [List.inj_on_of_nodup_map (hnd e (List.mem_of_getElem? he)) hq hp hid]

theorem Nodewise.intact_of_nodes (h : t.Nodewise (Intact L) s)
    (hnodes : u.nodes.map NodeEntry.bare = t.nodes.map NodeEntry.bare) :
    u.Nodewise (Intact L) s := by
  intro i e c he hc
  have hnodes := congrArg (·[i]?) hnodes
  simp only [List.getElem?_map, hc, Option.map_some] at hnodes
  obtain ⟨d, hd, hdc⟩ := Option.map_eq_some_iff.mp hnodes.symm
  obtain ⟨-, -, -, hpads, hbody⟩ := NodeEntry.bare_eq_iff.mp hdc
  obtain ⟨hintact, hsame⟩ := h i e d he hd
  refine ⟨fun p hp q hq hid hop hzero => ?_, fun hsub hzero => hbody.symm.trans (hsame hsub hzero)⟩
  obtain ⟨q', hq', hqq⟩ : ∃ q' ∈ d.pads, q'.bare = q.bare := by
    have hmem : q.bare ∈ d.pads.map PadState.bare := hpads ▸ List.mem_map_of_mem hq
    exact List.mem_map.mp hmem
  obtain ⟨hid', -, -, hdecl, -⟩ := PadState.bare_eq_iff.mp hqq
  exact hdecl.symm.trans (hintact p hp q' hq' (hid'.trans hid) hop hzero)

/-! ### What pads see -/

section

variable (hs : AtRest T config n external s)
  (hplan : u.nodes.map NodeEntry.plan = s.nodes.map NodeEntry.plan)
  (hintact : u.Nodewise (Intact L) s)

include hs hplan hintact

theorem declared?_of_intact (hop : ¬ IsOperator r.pad) (hzero : L.pads r = 0) :
    u.declared? r = s.declared? r := by
  refine declared?_of_plan hplan hs.wellFormed.self.distinctNodes
    fun i e d he hd hid p hp q hq hpid hqid => ?_
  obtain rfl : (⟨e.id, p.id⟩ : PadRef) = r := by rw [hid, hpid]
  exact (hintact i e d he hd).pads p hp q hq (hqid.trans hpid.symm) hop hzero

/-- A pad that is not at the link sees the same if all pads at its links are settled from the
start. -/
theorem peerView_of_intact (hlinks : u.links = s.wired l on) (hfree : s.feeder l.sink = none)
    (hsink : p.isSource = false → r ≠ l.sink ∧ ∀ k ∈ s.links, k.sink = r → L.pads k.source = 0)
    (hsource : p.isSource = true → r ≠ l.source ∧
      ∀ k ∈ s.links, k.source = r → L.pads k.sink = 0) :
    u.peerView external r p = s.peerView external r p := by
  have hops := fun k hk => hs.clean.self.unlinked k hk
  exact peerView_of_near hs.joined (fun hp => feeder_of_wired hlinks r (hsink hp).1)
    (fun hp => downstream_of_wired hlinks hfree (hsource hp).1)
    (fun hp k hk hr => declared?_of_intact hs hplan hintact (hops k hk).2
      ((hsource hp).2 k hk hr))
    (fun hp k hk hr => declared?_of_intact hs hplan hintact (hops k hk).1 ((hsink hp).2 k hk hr))
    fun _ => rfl

end

/-! ### Runs -/

section

variable (hT : ∀ name type, T name type → type.IsBuiltin) (hs : AtRest T config n external s)
  (hfree : s.feeder l.sink = none) (htimed : s.Timed False L passes) (hstirs : s.Stirs L l)

include hT hs hfree htimed hstirs

section

variable (hplan : u.nodes.map NodeEntry.plan = s.nodes.map NodeEntry.plan)
  (hlinks : u.links = s.wired l on) (hintact : u.Nodewise (Intact L) s) (he : e ∈ s.nodes)

include hplan hlinks hintact he

/-- What moves a pad that is settled from the start sees the same. -/
theorem seen_of_intact_of_moves (hb : e.body = .plugin type) {z pad : String}
    (hop : ¬ IsOperator pad) (hzero : L.pads ⟨e.id, pad⟩ = 0) (hz : type.Moves z pad) :
    u.seen external e z = s.seen external e z := by
  cases ha : findPad z e.pads with
  | none => rw [GraphState.seen, GraphState.seen, ha]; rfl
  | some a =>
    obtain ⟨hmem, rfl⟩ := findPad_eq_some ha
    have hsink := hs.isSource_of_moves hT he hb hmem hz
    refine seen_of_peerView (hs.wellFormed.self.distinctPads e he) hmem
      (peerView_of_intact hs hplan hintact hlinks hfree
        (fun _ => ⟨fun hr => ?_, fun k hk hr => ?_⟩)
        fun hsource => absurd hsink (by rw [hsource]; decide))
    · exact hstirs.moved e he type hb (by rw [← hr]) pad hop (by rw [← hr]; exact hz) hzero
    · exact InTime.eq_zero
        (htimed.moved e he type hb pad hop k hk (by rw [hr]) (by rw [hr]; exact hz)) hzero

omit hT in
/-- The pads of an idle subgraph see the same. -/
theorem peerViews_of_intact_of_idle (hsub : e.isSubgraph = true) (hidle : L.nodes e.id = 0) :
    u.peerViews external e = s.peerViews external e := by
  refine List.map_congr_left fun p hp => congrArg (Prod.mk p.id) (peerView_of_intact hs hplan
    hintact hlinks hfree (fun _ => ⟨fun hr => ?_, fun k hk hr => ?_⟩)
    fun _ => ⟨fun hr => ?_, fun k hk hr => ?_⟩)
  · exact (hstirs.fed e he hsub (by rw [← hr])).1 hidle
  · exact (htimed.idle e he hsub hidle k hk).2 (by rw [hr])
  · exact (hstirs.feeding e he hsub (by rw [← hr])).1 hidle
  · exact (htimed.idle e he hsub hidle k hk).1 (by rw [hr])

omit hT in
/-- A pad of a subgraph that is settled from the start sees the same. -/
theorem seen_of_intact_of_subgraph (hsub : e.isSubgraph = true) (hp : p ∈ e.pads)
    (hzero : L.pads ⟨e.id, p.id⟩ = 0) : u.seen external e p.id = s.seen external e p.id := by
  have hnd := hs.wellFormed.self.distinctNodes
  refine seen_of_peerView (hs.wellFormed.self.distinctPads e he) hp (peerView_of_intact hs hplan
    hintact hlinks hfree (fun _ => ⟨fun hr => ?_, fun k hk hr => ?_⟩)
    fun _ => ⟨fun hr => ?_, fun k hk hr => ?_⟩)
  · exact (hstirs.fed e he hsub (by rw [← hr])).2 (by rw [← hr]; exact hzero)
  · exact InTime.eq_zero (htimed.fed e he hsub k hk (by rw [hr])).2 (by rw [hr]; exact hzero)
  · exact (hstirs.feeding e he hsub (by rw [← hr])).2 (by rw [← hr]; exact hzero)
  · rcases htimed.feeding k hk e (by rw [hr]; exact node?_of_mem hnd he) hsub with hin | ⟨h, -⟩
    · exact InTime.eq_zero hin (by rw [hr]; exact hzero)
    · exact h.elim

end

/-- What is settled from the start does not change at a node that is resolved. Its pads see the
same (`seen_of_intact_of_moves`, `seen_of_intact_of_subgraph`), and so does an idle graph inside
(`peerViews_of_intact_of_idle`). -/
theorem Draft.intact_of_resolveNode (hu : Draft T n s u) (hlinks : u.links = s.wired l on)
    (hintact : u.Nodewise (Intact L) s) (he : s.nodes[i]? = some e) (hd : u.nodes[i]? = some d)
    (hnode : GraphState.resolveNode (innerResolver config n) external u d = .ok (d', changed))
    (hplan : d'.plan = e.plan)
    (hrest : d'.body.Inside fun g => ∃ m, n = m + 1 ∧
      AtRest T config m (externalOf d.pads (u.peerViews external d)) g) : Intact L d' e := by
  have hmem := List.mem_of_getElem? he
  have hde := hu.plan_at he hd
  have hout := hs.outcome hT hmem
  have hout' := outcome_of_resolveNode hde hplan hrest hnode
  have hbody := (NodeEntry.plan_eq_iff.mp hplan).2.2.2.2
  cases hb : e.body with
  | plugin type =>
    refine ⟨fun p hp q hq hid hop hzero => ?_, fun hsub => ?_⟩
    · exact hout.declared_congr hT hs hmem hout' hb hp hq hid fun z hz =>
        (seen_of_intact_of_moves hT hs hfree htimed hstirs hu.nodes hlinks hintact hmem hb hop
          hzero hz).symm
    · rw [NodeEntry.isSubgraph, hb] at hsub
      cases hsub
  | subgraph id inner =>
    have hsub : e.isSubgraph = true := by rw [NodeEntry.isSubgraph, hb]
    have hsame : L.nodes e.id = 0 → d'.body = e.body := by
      intro hidle
      obtain ⟨specs, body, hresolve, -, rfl, -⟩ := resolveNode_eq_ok hnode
      have hbd := ((hintact i e d he hd).body hsub hidle).trans hb
      obtain ⟨inner', hr, -, rfl⟩ := (resolveBody_of_subgraph hbd).mp hresolve
      obtain ⟨m, rfl, hinner⟩ := hs.inside hT hmem hb
      have hshown : externalOf d.pads (u.view external d).peers =
          externalOf e.pads (s.peerViews external e) := by
        rw [← peerViews_of_intact_of_idle hs hfree htimed hstirs hu.nodes hlinks hintact hmem
          hsub hidle]
        exact externalOf_of_plan u external hde
      rw [hshown] at hr
      obtain rfl := Except.ok.inj (hinner.fixed.symm.trans hr)
      exact hb.symm
    refine ⟨fun p hp q hq hid hop hzero => ?_, fun _ => hsame⟩
    obtain ⟨inner', hb', -⟩ := Body.subgraph_of_plan hbody hb
    have hbehind : d'.behind p.id = e.behind p.id := by
      rcases htimed.shown e hmem hsub p hp hop with hrigid | hle
      · exact hout'.behind_of_rigid hT hs hmem
          (hrigid.rigid hs.wellFormed.self.distinctNodes hmem)
      · rw [NodeEntry.behind_of_body ((hsame (by omega)).trans hb), NodeEntry.behind_of_body hb]
    rw [hout'.declared_of_subgraph hT hs hmem hb' hq, hout.declared_of_subgraph hT hs hmem hb hp,
      hid, hbehind, seen_of_intact_of_subgraph hs hfree htimed hstirs hu.nodes hlinks hintact
        hmem hsub hp hzero]

/-- What is settled from the start is left alone when the link is made, or taken away again
(`s.wired l on`): `Intact` is kept by every node and every pass, and narrowing does not touch what
is declared. -/
theorem Draft.intact (ht : Draft T n s t) (hlinks : t.links = s.wired l on)
    (hintact : t.Nodewise (Intact L) s) (h : reconcileWithin config n external t = .ok t') :
    t'.Nodewise (Intact L) s := by
  obtain ⟨u, -, -, hu, hbare⟩ := ht.invariant hT (I := fun u => u.Nodewise (Intact L) s) hs hs.seen
    (fun u i e d d' changed hu hul hintact he hd _ hnode hplan hrest => hintact.set he
      (hu.intact_of_resolveNode hT hs hfree htimed hstirs (hul.trans hlinks) hintact he hd hnode
        hplan hrest)) hintact h
  exact hu.intact_of_nodes (bare_eq_iff.mp hbare).1

end

end Patchbay.GraphState

/-! ## Links that are made and taken away again -/

namespace Patchbay.GraphState

variable {T : String → NodeType → Prop} {config : EngineConfig} {n m : Nat}
  {external external' : External} {s t u g a b : GraphState} {e d : NodeEntry} {p q : PadState}
  {r : PadRef} {i passes : Nat} {L : Timetable} {l : Link} {echoes : Prop} {wires : List Link}
  {P : PadState → PadState → Prop}

/-! ### Graphs and themselves -/

/-- A graph is compared with itself pad by pad, at every depth, if the relation holds of each pad
with itself. -/
theorem padwise_self (hwf : s.Everywhere WellFormed)
    (hP : s.Everywhere fun t => ∀ e ∈ t.nodes, ∀ p ∈ e.pads, P p p) : s.Padwise P s := by
  induction s using insideInduction with
  | step s ih =>
    refine ⟨fun i e d he hd p hp q hq hid => ?_, fun i e d id id' inner inner' he hd hb hb' => ?_⟩
    · obtain rfl := Option.some.inj (he.symm.trans hd)
      have hmem := List.mem_of_getElem? he
      obtain rfl := List.inj_on_of_nodup_map (hwf.self.distinctPads e hmem) hq hp hid
      exact hP.self e hmem q hp
    · obtain rfl := Option.some.inj (he.symm.trans hd)
      obtain ⟨-, rfl⟩ := Body.subgraph.inj (hb.symm.trans hb')
      have hmem := List.mem_of_getElem? he
      exact ih e hmem _ _ hb (hwf.body hmem _ _ hb) (hP.body hmem _ _ hb)

theorem above_self (hwf : s.Everywhere WellFormed) (hclean : s.Everywhere Clean) : s.Above s :=
  padwise_self hwf <| hclean.mono fun _ h e he p hp hop => (h.broad e he p hp hop).under_self

theorem tuned_self (hwf : s.Everywhere WellFormed) : s.Padwise PadState.Tuned s :=
  padwise_self hwf <| hwf.mono fun _ _ _ _ _ _ _ _ => .inl rfl

/-! ### Drafts that differ in their links -/

theorem plan_of_nodes (h : t.nodes.map NodeEntry.bare = s.nodes.map NodeEntry.bare) :
    t.nodes.map NodeEntry.plan = s.nodes.map NodeEntry.plan :=
  (plan_eq_iff.mp (plan_of_bare (s := { s with links := [] }) (t := { t with links := [] })
    (bare_eq_iff.mpr ⟨h, rfl⟩))).1

/-- How deep a graph is does not depend on its links. -/
theorem depth_of_nodes (h : t.nodes.map NodeEntry.bare = s.nodes.map NodeEntry.bare) :
    t.depth = s.depth :=
  depth_congr (bodyDepths_of_bare (s := { t with links := [] }) (t := { s with links := [] })
    (bare_eq_iff.mpr ⟨h, rfl⟩))

/-- Graphs that differ in their links only are drafts of each other (`Draft`), if the links join
what they should. -/
theorem AtRest.draft_of_nodes (hs : AtRest T config n external s)
    (hnodes : t.nodes.map NodeEntry.bare = s.nodes.map NodeEntry.bare)
    (horderly : t.Everywhere (Orderly T Constraints.Plain))
    (hsound : ∀ l ∈ t.links, s.isSound l = true)
    (hops : ∀ l ∈ t.links, ¬ IsOperator l.source.pad ∧ ¬ IsOperator l.sink.pad) :
    Draft T n s t := by
  have hmem : ∀ d ∈ t.nodes, ∃ e ∈ s.nodes, e.bare = d.bare := fun d hd =>
    List.mem_map.mp (hnodes ▸ List.mem_map_of_mem hd)
  refine ⟨plan_of_nodes hnodes, hsound, ⟨(depth_of_nodes hnodes).trans_le hs.nested.1, horderly⟩,
    everywhere_iff.mpr ⟨⟨fun d hd q hq hop => ?_, hops⟩, fun d hd => ?_⟩⟩
  · obtain ⟨e, he, hde⟩ := hmem d hd
    have hmem : q.bare ∈ e.pads.map PadState.bare :=
      (NodeEntry.bare_eq_iff.mp hde).2.2.2.1 ▸ List.mem_map_of_mem hq
    obtain ⟨p, hp, hpq⟩ := List.mem_map.mp hmem
    obtain ⟨hid, -, -, hdecl, -⟩ := PadState.bare_eq_iff.mp hpq
    exact hdecl ▸ hs.clean.self.broad e he p hp (hid ▸ hop)
  · obtain ⟨e, he, hde⟩ := hmem d hd
    exact (NodeEntry.bare_eq_iff.mp hde).2.2.2.2 ▸ hs.clean.body he

theorem Draft.of_plan (ht : Draft T n s t)
    (hplan : u.nodes.map NodeEntry.plan = s.nodes.map NodeEntry.plan) : Draft T n u t :=
  ⟨ht.nodes.trans hplan.symm, fun l hl => isSound_of_plan hplan (ht.sound l hl), ht.nested,
    ht.clean⟩

/-! ### Timetables for graphs with one plan -/

section

variable (hT : ∀ name type, T name type → type.IsBuiltin)

include hT

/-- What is settled from the start without the help of others is the same in graphs at rest with
one plan. -/
theorem StartsCold.of_plan (h : s.StartsCold L) (hs : AtRest T config n external s)
    (ht : AtRest T config n external' t) (hplan : t.plan = s.plan) : t.StartsCold L := by
  have hnodes := nodes_of_plan hplan
  refine ⟨fun d hd type hb q hq hop hzero => ?_, fun d hd hsub q hq => ?_, fun d hd hsub => ?_⟩
  · obtain ⟨e, he, hed⟩ := mem_of_plan hnodes.symm hd
    obtain ⟨p, hp, hpid, -⟩ := NodeEntry.exists_pad_of_plan hed.symm hq
    have hid := (NodeEntry.plan_eq_iff.mp hed).1
    have hb' := Body.plugin_of_plan (NodeEntry.plan_eq_iff.mp hed).2.2.2.2 hb
    obtain ⟨hnone, hstill⟩ := h.plugin e he type hb' p hp (hpid ▸ hop) (by rwa [hid, hpid])
    refine ⟨?_, hpid ▸ hstill⟩
    rw [← hnone]
    exact (hs.outcome hT he).declared_congr hT hs he (ht.outcome_of_plan hT hd hed.symm) hb' hp hq
      hpid.symm fun z hz => absurd hz (hstill z)
  · obtain ⟨e, he, hed⟩ := mem_of_plan hnodes.symm hd
    obtain ⟨p, hp, hpid, -⟩ := NodeEntry.exists_pad_of_plan hed.symm hq
    rw [← (NodeEntry.plan_eq_iff.mp hed).1, ← hpid]
    exact h.pads e he (NodeEntry.isSubgraph_of_plan hed ▸ hsub) p hp
  · obtain ⟨e, he, hed⟩ := mem_of_plan hnodes.symm hd
    rw [← (NodeEntry.plan_eq_iff.mp hed).1]
    exact h.nodes e he (NodeEntry.isSubgraph_of_plan hed ▸ hsub)

/-- Two graphs at rest with one plan have the same timetables at every depth: `Timed` speaks of
plans and of what is behind rigid pads, which is the same in both (`Rigid.behind`). -/
theorem AtRest.paced_of_plan (hs : AtRest T config n external s)
    (ht : AtRest T config n external' t) (hplan : t.plan = s.plan)
    (h : s.Everywhere (Paced config echoes)) : t.Everywhere (Paced config echoes) := by
  induction n using Nat.strong_induction_on generalizing external external' s t
  rename_i n ih
  refine everywhere_iff.mpr ⟨?_, fun d hd id inner' hb' => ?_⟩
  · obtain ⟨L, htimed, hcold⟩ := h.self
    exact ⟨L, length_of_plan (nodes_of_plan hplan) ▸ htimed.of_plan hs.wellFormed hplan,
      hcold.of_plan hT hs ht hplan⟩
  · obtain ⟨e, he, hed⟩ := mem_of_plan (nodes_of_plan hplan).symm hd
    obtain ⟨inner, hb, hinner⟩ := Body.subgraph_of_plan (NodeEntry.plan_eq_iff.mp hed).2.2.2.2 hb'
    obtain ⟨m, rfl, hrest⟩ := hs.inside hT he hb
    obtain ⟨m', hm, hrest'⟩ := ht.inside hT hd hb'
    obtain rfl : m = m' := Nat.succ.inj hm
    exact ih m m.lt_succ_self hrest hrest' hinner.symm (h.body he _ _ hb)

theorem AtRest.paced_inside_of_plan (hs : AtRest T config n external s)
    (ht : AtRest T config n external' t) (he : e ∈ s.nodes) (hd : d ∈ t.nodes)
    (hde : d.plan = e.plan) (h : e.body.Inside (Everywhere (Paced config echoes))) :
    d.body.Inside (Everywhere (Paced config echoes)) := by
  intro id inner' hb'
  obtain ⟨inner, hb, hinner⟩ :=
    Body.subgraph_of_plan (NodeEntry.plan_eq_iff.mp hde).2.2.2.2.symm hb'
  obtain ⟨m, rfl, hrest⟩ := hs.inside hT he hb
  obtain ⟨m', hm, hrest'⟩ := ht.inside hT hd hb'
  obtain rfl : m = m' := Nat.succ.inj hm
  exact hrest.paced_of_plan hT hrest' hinner.symm (h _ _ hb)

end

/-! ### Graphs at rest that have the same from the start -/

/-- Two graphs at rest have the same of what is settled from the start. -/
theorem Nodewise.intact_symm (hplan : t.nodes.map NodeEntry.plan = s.nodes.map NodeEntry.plan)
    (h : t.Nodewise (Intact L) s) : s.Nodewise (Intact L) t := by
  intro i d e hd he
  obtain ⟨d', hd', hde⟩ := getElem?_of_plan hplan he
  obtain rfl := Option.some.inj (hd.symm.trans hd')
  obtain ⟨hpads, hbody⟩ := h i e d he hd
  have hid := (NodeEntry.plan_eq_iff.mp hde).1
  refine ⟨fun q hq p hp hpq hop hzero => ?_, fun hsub hzero => ?_⟩
  · exact (hpads p hp q hq hpq.symm (hpq ▸ hop) (by rwa [← hid, hpq])).symm
  · exact (hbody (NodeEntry.isSubgraph_of_plan hde ▸ hsub) (hid ▸ hzero)).symm

/-- A graph at rest is above another one with more links that has the same from the start
(`Intact`), if there is a timetable for it: it is a ceiling (`GraphState.Ceiling`), and what a
ceiling leaves open at time `0` is the same. -/
theorem AtRest.above_of_intact (hT : ∀ name type, T name type → type.IsBuiltin)
    (hs : AtRest T config n [] s) (hu : AtRest T config n [] u)
    (hplan : u.nodes.map NodeEntry.plan = s.nodes.map NodeEntry.plan) (hlinks : s.links ⊆ u.links)
    (hintact : u.Nodewise (Intact L) s) (htimed : s.Timed False L passes)
    (hinside : ∀ e ∈ s.nodes, L.nodes e.id ≠ 0 →
      e.body.Inside (Everywhere (Paced config False))) : s.Above u := by
  have hnd := hs.wellFormed.self.distinctNodes
  have hceiling : Ceiling [] [] L s u := by
    refine ⟨hplan, hlinks, fun _ _ => ⟨rfl, rfl⟩, External.fits_nil u,
      fun _ _ _ _ _ => Constraints.under_none _, fun r hop hzero => ?_,
      fun e he hsub hzero pad hop => ?_⟩
    · rw [declaredAt, declaredAt, declared?_of_intact hs hplan hintact hop hzero]
      exact (hs.clean.self.broad_declaredAt hop).under_self
    · obtain ⟨i, d, -, he', hd, hde⟩ := exists_node_of_plan hplan hnd (node?_of_mem hnd he)
      have hbody := (hintact i e d he' hd).body hsub hzero
      have hbroad := hs.broad_behind_pad hT he hop
      have heq : d.behind pad = e.behind pad := by
        cases hb : e.body with
        | plugin type =>
          rw [NodeEntry.isSubgraph, hb] at hsub
          cases hsub
        | subgraph id inner =>
          rw [NodeEntry.behind_of_body (hbody.trans hb), NodeEntry.behind_of_body hb]
      rw [behind_of_mem hnd he, ← (NodeEntry.plan_eq_iff.mp hde).1,
        behind_of_mem (ids_of_plan hplan ▸ hnd) (List.mem_of_getElem? hd), heq]
      exact hbroad.under_self
  refine hceiling.above hT hs hu htimed (fun h => h.elim) (fun e he _ => hinside e he)
    (fun i e d id id' inner inner' he hd hb hb' hzero => ?_) fun r => Constraints.under_none _
  have hmem := List.mem_of_getElem? he
  have hsame := (hintact i e d he hd).body (by rw [NodeEntry.isSubgraph, hb]) hzero
  obtain ⟨-, rfl⟩ := Body.subgraph.inj (hb.symm.trans (hsame.symm.trans hb'))
  exact above_self (hs.wellFormed.body hmem _ _ hb) (hs.clean.body hmem _ _ hb)

/-! ### There and back -/

/-- A link that can be traced: there is a timetable for all that it reaches (`Stirs`), also inside
the subgraphs that are not idle in it, and it does not end at an operator, as no other link does.
What it does not reach may have any links, cycles and subgraphs. -/
structure Traceable (config : EngineConfig) (s : GraphState) (l : Link) : Prop where
  clean : s.Everywhere Clean
  ends : ¬ IsOperator l.source.pad ∧ ¬ IsOperator l.sink.pad
  timed : ∃ L : Timetable, s.Timed False L (config.passLimit s.nodes.length) ∧ s.Stirs L l ∧
    ∀ e ∈ s.nodes, L.nodes e.id ≠ 0 → e.body.Inside (Everywhere (Paced config False))

/-- In a graph that leads forward at every depth (`Forward`), all links can be traced but those to
operators: nothing is settled from the start there (`Forward.exists_timetable`). -/
theorem traceable_of_forward (hlimit : config.maxResolvePasses = 0 ∨ 4 ≤ config.maxResolvePasses)
    (horderly : s.Everywhere (Orderly T Constraints.Plain)) (hwf : s.Everywhere WellFormed)
    (hclean : s.Everywhere Clean) (h : s.Everywhere Forward)
    (hends : ¬ IsOperator l.source.pad ∧ ¬ IsOperator l.sink.pad) : s.Traceable config l := by
  have hjoined := (horderly.and hwf).mono fun _ h => h.2.joined h.1.ordered
  obtain ⟨L, htimed, hne⟩ :=
    h.self.exists_timetable hjoined.self hwf.self.distinctNodes hlimit
  refine ⟨hclean, hends, L, htimed, ⟨fun e he _ _ _ _ _ _ => ?_, fun e he _ _ => ?_,
    fun e he _ _ => ?_⟩, fun e he _ id inner hb => ?_⟩
  · exact (hne (List.ne_nil_of_mem he)).1 _
  · exact ⟨(hne (List.ne_nil_of_mem he)).2 _, (hne (List.ne_nil_of_mem he)).1 _⟩
  · exact ⟨(hne (List.ne_nil_of_mem he)).2 _, (hne (List.ne_nil_of_mem he)).1 _⟩
  · exact (((hjoined.and hwf).and h).body he id inner hb).mono fun _ h =>
      h.2.paced h.1.1 h.1.2.distinctNodes hlimit

section

variable (hT : ∀ name type, T name type → type.IsBuiltin) (hs : AtRest T config n [] s)
  (hfree : s.feeder l.sink = none) (htimed : s.Timed False L (config.passLimit s.nodes.length))
  (hstirs : s.Stirs L l) (hg : AtRest T config n [] g)
  (hplan : g.nodes.map NodeEntry.plan = s.nodes.map NodeEntry.plan)
  (hwires : g.links = s.wired l true) (hintact : g.Nodewise (Intact L) s)
  (hnodes : b.nodes.map NodeEntry.bare = g.nodes.map NodeEntry.bare) (hlinks : b.links = s.links)

include hT hs hfree htimed hstirs hg hplan hwires hintact hnodes hlinks

/-- Without the link, all that is settled from the start is settled already (`KeptAt` at time `0`),
because the link has left it alone. -/
theorem kept_of_intact (he : g.nodes[i]? = some e) (hd : b.nodes[i]? = some d) :
    KeptAt T config n [] L (fun a => a = 0) b d e := by
  have hintact' : b.Nodewise (Intact L) s := hintact.intact_of_nodes hnodes
  have hplan' := (plan_of_nodes hnodes).trans hplan
  have hlinks' : b.links = s.wired l false := hlinks
  obtain ⟨c, hc, hce⟩ := getElem?_of_plan hplan.symm he
  have hcmem := List.mem_of_getElem? hc
  have hmem := List.mem_of_getElem? he
  have hbare : d.bare = e.bare := by
    have hat := congrArg (·[i]?) hnodes
    simpa only [List.getElem?_map, he, hd, Option.map_some, Option.some.injEq] using hat
  obtain ⟨-, -, -, hpads, hbody⟩ := NodeEntry.bare_eq_iff.mp hbare
  have hid := (NodeEntry.plan_eq_iff.mp hce).1
  have hpad : ∀ q ∈ d.pads, ∃ p ∈ e.pads, p.id = q.id ∧ p.declared = q.declared := by
    intro q hq
    have hqmem : q.bare ∈ e.pads.map PadState.bare := hpads ▸ List.mem_map_of_mem hq
    obtain ⟨p, hp, hpq⟩ := List.mem_map.mp hqmem
    obtain ⟨hpid, -, -, hdecl, -⟩ := PadState.bare_eq_iff.mp hpq
    exact ⟨p, hp, hpid, hdecl⟩
  have hsub : ∀ {id inner}, d.body = .subgraph id inner → c.isSubgraph = true := by
    intro id inner hb
    rw [NodeEntry.isSubgraph_of_plan hce, NodeEntry.isSubgraph, ← hbody, hb]
  -- what is seen with the link and without it, by way of the graph before
  have hseen : ∀ z, g.seen [] c z = s.seen [] c z → b.seen [] c z = s.seen [] c z →
      g.seen [] e z = b.seen [] e z := fun z hz hz' => by
    rw [← seen_of_plan g [] hce, ← seen_of_plan b [] hce, hz, hz']
  have hshown : ∀ id inner, d.body = .subgraph id inner → L.nodes e.id = 0 →
      externalOf e.pads (g.peerViews [] e) = externalOf e.pads (b.peerViews [] e) := by
    intro id inner hb hzero
    rw [← externalOf_of_plan g [] hce, ← externalOf_of_plan b [] hce,
      peerViews_of_intact_of_idle hs hfree htimed hstirs hplan hwires hintact hcmem (hsub hb)
        (hid ▸ hzero),
      peerViews_of_intact_of_idle hs hfree htimed hstirs hplan' hlinks' hintact' hcmem (hsub hb)
        (hid ▸ hzero)]
  refine ⟨fun type hb q hq hop hzero => ?_, fun id inner hb q hq hop hzero => ?_,
    fun id inner hb hzero => ?_, fun id inner hb hzero => ?_⟩
  · obtain ⟨p, hp, hpid, hdecl⟩ := hpad q hq
    have hb' := Body.plugin_of_plan (NodeEntry.plan_eq_iff.mp hce).2.2.2.2 hb
    have hzero' : L.pads ⟨c.id, q.id⟩ = 0 := by rwa [hid]
    refine ⟨g, [], e, hg.outcome hT hmem, fun z hz => hseen z ?_ ?_, p, hp, hpid, hdecl⟩
    · exact seen_of_intact_of_moves hT hs hfree htimed hstirs hplan hwires hintact hcmem hb' hop
        hzero' hz
    · exact seen_of_intact_of_moves hT hs hfree htimed hstirs hplan' hlinks' hintact' hcmem hb' hop
        hzero' hz
  · obtain ⟨p, hp, hpid, hdecl⟩ := hpad q hq
    obtain ⟨a, ha, haid, -⟩ := NodeEntry.exists_pad_of_plan hce.symm hp
    have hb' := hbody.symm.trans hb
    have haq : a.id = q.id := haid.trans hpid
    have hzero' : L.pads ⟨c.id, a.id⟩ = 0 := by rwa [hid, haq]
    obtain ⟨m, hn, hrest⟩ := hg.inside hT hmem hb'
    refine ⟨⟨m, _, hn, hrest⟩, ?_⟩
    rw [← hdecl, (hg.outcome hT hmem).declared_of_subgraph hT hg hmem hb' hp, hpid,
      NodeEntry.behind_of_body hb', NodeEntry.behind_of_body hb, ← haq, hseen a.id ?_ ?_]
    · exact seen_of_intact_of_subgraph hs hfree htimed hstirs hplan hwires hintact hcmem (hsub hb)
        ha hzero'
    · exact seen_of_intact_of_subgraph hs hfree htimed hstirs hplan' hlinks' hintact' hcmem
        (hsub hb) ha hzero'
  · obtain ⟨m, hn, hrest⟩ := hg.inside hT hmem (hbody.symm.trans hb)
    refine ⟨m, _, hn, hrest, ?_⟩
    rw [hshown id inner hb hzero]
    exact fun _ _ _ _ _ => rfl
  · obtain ⟨m, hn, hrest⟩ := hg.inside hT hmem (hbody.symm.trans hb)
    exact ⟨m, hn, hshown id inner hb hzero ▸ hrest⟩

end

/-- With a link that can be traced, the graph `s` came to rest as the graph `g`: with the same plan
and the link, beneath `s`, with the operators of `s`, and with the same from the start. -/
structure Linked (T : String → NodeType → Prop) (config : EngineConfig) (n : Nat) (L : Timetable)
    (l : Link) (s g : GraphState) : Prop where
  rest : AtRest T config n [] g
  plan : g.nodes.map NodeEntry.plan = s.nodes.map NodeEntry.plan
  links : g.links = s.wired l true
  intact : g.Nodewise (Intact L) s
  beneath : s.Above g
  tuned : g.Padwise PadState.Tuned s

section

variable (hT : ∀ name type, T name type → type.IsBuiltin) (hs : AtRest T config n [] s)
  (hfree : s.feeder l.sink = none) (htimed : s.Timed False L (config.passLimit s.nodes.length))
  (hstirs : s.Stirs L l)
  (hinside : ∀ e ∈ s.nodes, L.nodes e.id ≠ 0 → e.body.Inside (Everywhere (Paced config False)))

include hT hs hfree htimed hstirs hinside

/-- With the link, the graph comes to rest beneath what it was. The upper bound is
`AtRest.above_of_intact`, and operators keep their values on the way down (`Amid.reconcile`). -/
theorem AtRest.linked (hsound : s.isSound l = true)
    (hops : ¬ IsOperator l.source.pad ∧ ¬ IsOperator l.sink.pad)
    (hnodes : a.nodes.map NodeEntry.bare = s.nodes.map NodeEntry.bare)
    (hlinks : a.links = s.wired l true) (ha : a.Everywhere (Orderly T Constraints.Plain))
    (h : reconcileWithin config n [] a = .ok g) : Linked T config n L l s g := by
  have hwf := hs.wellFormed
  have hwider : s.links ⊆ a.links := subset_of_wired hlinks hfree
  have hends : ∀ k ∈ a.links, s.isSound k = true ∧ ¬ IsOperator k.source.pad ∧
      ¬ IsOperator k.sink.pad := by
    intro k hk
    rcases mem_of_wired hlinks hk with rfl | hk
    · exact ⟨hsound, hops⟩
    · exact ⟨hwf.self.isSound hk, hs.clean.self.unlinked k hk⟩
  have hdraft := hs.draft_of_nodes hnodes ha (fun k hk => (hends k hk).1) fun k hk =>
    (hends k hk).2
  obtain ⟨hg, hgplan⟩ := hs.of_draft hT hdraft hs.seen h
  have hplan := (nodes_of_plan hgplan).trans (plan_of_nodes hnodes)
  have hsame := links_of_plan hgplan
  have hself : s.Nodewise (Intact L) s := intact_refl hwf.self.distinctPads
  have hintact := hdraft.intact hT hs hfree htimed hstirs hlinks (hself.intact_of_nodes hnodes) h
  have hbeneath : s.Above g :=
    hs.above_of_intact hT hg hplan (hsame ▸ hwider) hintact htimed hinside
  -- so the graph with the link is between the two while it is resolved
  have hover : Over T n [] [] g a := ⟨hdraft.of_plan hplan, hsame ▸ List.Subset.refl _,
    hbeneath.of_nodes hnodes, hs.seen, fun _ => Constraints.under_none _, fun _ _ => ⟨rfl, rfl⟩⟩
  have hamid : Amid T n [] [] [] g s a := ⟨hover, hplan, hwider,
    (above_self hwf hs.clean).of_nodes_right hnodes, fun _ => Constraints.under_none _,
    fun _ _ => ⟨rfl, rfl⟩⟩
  exact ⟨hg, hplan, hsame.trans hlinks, hintact, hbeneath,
    (hamid.reconcile hT hg hs (External.fits_nil g) (tuned_of_nodes (tuned_self hwf) hnodes) h).2⟩

/-- Without the link again, the graph comes to rest where it was: resolution succeeds above `g`
(`AtRest.exists_reconcile`), it ends below `s` and above `s` again, so that all types and operators
are those of `s`. -/
theorem Linked.reconcile (hg : Linked T config n L l s g)
    (hnodes : b.nodes.map NodeEntry.bare = g.nodes.map NodeEntry.bare) (hlinks : b.links = s.links)
    (hb : b.Everywhere (Orderly T Constraints.Plain)) :
    reconcileWithin config n [] b = .ok s := by
  have hwf := hs.wellFormed
  have hplan := (plan_of_nodes hnodes).trans hg.plan
  have hwider : s.links ⊆ g.links := subset_of_wired hg.links hfree
  have hdraft : Draft T n g b := hg.rest.draft_of_nodes hnodes hb
    (fun k hk => hg.rest.wellFormed.self.isSound (hwider (hlinks ▸ hk)))
    fun k hk => hs.clean.self.unlinked k (hlinks ▸ hk)
  have hover : Over T n [] [] g b := ⟨hdraft, hlinks ▸ hwider,
    (above_self hg.rest.wellFormed hg.rest.clean).of_nodes hnodes, hs.seen,
    fun _ => Constraints.under_none _, fun _ _ => ⟨rfl, rfl⟩⟩
  have hamid : Amid T n [] [] [] g s b := ⟨hover, hg.plan, hlinks ▸ List.Subset.refl _,
    hg.beneath.of_nodes_right hnodes, fun _ => Constraints.under_none _, fun _ _ => ⟨rfl, rfl⟩⟩
  -- it comes to rest
  obtain ⟨t, ht⟩ : ∃ t, reconcileWithin config n [] b = .ok t := by
    have htimed' : ({ g with links := b.links } : GraphState).Timed False L
        (config.passLimit g.nodes.length) := by
      rw [length_of_plan hg.plan]
      exact htimed.of_plan hwf (plan_eq_iff.mpr ⟨hg.plan, hlinks⟩)
    refine hg.rest.exists_reconcile hT (External.fits_nil g) hover htimed' ?_
      fun i e d he hd => kept_of_intact hT hs hfree htimed hstirs hg.rest hg.plan hg.links
      hg.intact hnodes hlinks he hd
    intro d hd hne
    obtain ⟨e, he, hed⟩ := mem_of_plan hg.plan.symm hd
    have hid := (NodeEntry.plan_eq_iff.mp hed).1
    exact hs.paced_inside_of_plan hT hg.rest he hd hed.symm (hinside e he (hid ▸ hne))
  obtain ⟨hrest, htplan⟩ := hg.rest.of_draft hT hdraft hs.seen ht
  have htplan : t.plan = s.plan := htplan.trans (plan_eq_iff.mpr ⟨hplan, hlinks⟩)
  obtain ⟨hbelow, htuned⟩ :=
    hamid.reconcile hT hg.rest hs (External.fits_nil g) (tuned_of_nodes hg.tuned hnodes) ht
  have hunlinked : b.links = s.wired l false := hlinks
  have hintact := (hdraft.of_plan hg.plan.symm).intact hT hs hfree htimed hstirs hunlinked
    (hg.intact.intact_of_nodes hnodes) ht
  have habove : t.Above s := hrest.above_of_intact hT hs (nodes_of_plan htplan).symm
    (links_of_plan htplan ▸ List.Subset.refl _) (hintact.intact_symm (nodes_of_plan htplan))
    (htimed.of_plan hwf htplan) fun d hd hne => by
      obtain ⟨e, he, hed⟩ := mem_of_plan (nodes_of_plan htplan).symm hd
      have hid := (NodeEntry.plan_eq_iff.mp hed).1
      exact hs.paced_inside_of_plan hT hrest he hd hed.symm (hinside e he (hid ▸ hne))
  obtain rfl := hs.eq_of_same hT hrest ⟨htplan, habove, hbelow, htuned⟩
  exact ht

end

end Patchbay.GraphState
