import Patchbay.Proofs.Graph.Pacing

/-!
# Graphs beneath a graph at rest

A graph at rest is a floor for its drafts, whatever its links are like. If there is a timetable for
it, it is a *ceiling*, too (`GraphState.Ceiling`): a graph at rest with the same nodes, at least
the same links and no more to be seen from outside permits no more than it does at any pad. What
types depend on is settled earlier, so that this is seen by induction on the time
(`GraphState.rank`). First it is shown of what is behind the pads (`Ceiling.behind_under`), for
which only sinks count, and then of all pads (`Ceiling.above`).

The sources of a graph at rest with a type that nothing but the sinks they feed accounts for would
be below others. In a *grounded* graph (`GraphState.Grounded`) there are none.
-/

namespace Patchbay.GraphState

variable {T : String → NodeType → Prop} {config : EngineConfig} {n m : Nat}
  {external external' : External} {s t u : GraphState} {e f d c : NodeEntry} {p q : PadState}
  {r x : PadRef} {l : Link} {id id' : Option String} {inner inner' : GraphState} {i j a b : Nat}
  {L : Timetable} {echoes : Prop} {passes : Nat} {y z : String}

/-! ### Time -/

/-- The place of a node in the order of resolution (`dependencyOrder`). -/
def place (s : GraphState) (node : String) : Nat :=
  ((s.indexOf? node).map (s.dependencyOrder.idxOf ·)).getD 0

/-- When the node is resolved for the `a`th time: passes count first, then places in the order. The
induction on time is an induction on this number. -/
def rank (s : GraphState) (node : String) (a : Nat) : Nat :=
  a * (s.dependencyOrder.length + 1) + s.place node

theorem place_le (s : GraphState) (node : String) : s.place node ≤ s.dependencyOrder.length := by
  rw [place]
  cases s.indexOf? node with
  | none => exact Nat.zero_le _
  | some i => exact List.idxOf_le_length

theorem Precedes.place_lt (h : s.Precedes y z) : s.place y < s.place z := by
  obtain ⟨i, j, hy, hz, front, rest, horder, hi⟩ := h
  have hnd : (front ++ j :: rest).Nodup := horder ▸ s.feeding_dependencyOrder.1
  have hj : j ∉ front := fun h => (List.nodup_append.mp hnd).2.2 j h j List.mem_cons_self rfl
  rw [place, place, hy, hz, horder]
  show (front ++ j :: rest).idxOf i < (front ++ j :: rest).idxOf j
  rw [List.idxOf_append_of_mem hi, List.idxOf_append_of_notMem hj]
  exact Nat.lt_of_lt_of_le (List.idxOf_lt_length_of_mem hi) (Nat.le_add_right _ _)

/-- What is in time (`InTime`) comes before, unless it is settled from the start. -/
theorem InTime.rank_lt (h : s.InTime y a z b) (ha : a ≠ 0) : s.rank y a < s.rank z b := by
  have hplace := s.place_le y
  rcases h with hzero | hlt | ⟨hle, hprecedes⟩
  · exact absurd hzero ha
  · have hmul := Nat.mul_le_mul_right (s.dependencyOrder.length + 1) (Nat.succ_le_of_lt hlt)
    rw [Nat.succ_mul] at hmul
    rw [rank, rank]
    omega
  · have hmul := Nat.mul_le_mul_right (s.dependencyOrder.length + 1) hle
    have hlt := hprecedes.place_lt
    rw [rank, rank]
    omega

theorem rank_mono (node : String) (h : a ≤ b) : s.rank node a ≤ s.rank node b :=
  Nat.add_le_add_right (Nat.mul_le_mul_right _ h) _

/-! ### Ceilings -/

/-- The source of a subgraph that feeds another subgraph permits all that is behind the pads at its
links (`GraphState.behind`): it has no type that only the two of them account for. -/
def Grounded (s : GraphState) : Prop :=
  ∀ l ∈ s.links, ∀ e f, s.node? l.source.node = some e → s.node? l.sink.node = some f →
    e.isSubgraph = true → f.isSubgraph = true →
      s.declaredAt l.source = (s.behind l.source).intersect
        (((s.downstream l.source).map s.behind).foldl Constraints.intersect none)

theorem StartsCold.declaredAt_eq_none (hcold : s.StartsCold L) (hop : ¬ IsOperator r.pad)
    (hzero : L.pads r = 0) : s.declaredAt r = none := by
  rw [declaredAt, declared?]
  cases hp : s.pad? r with
  | none => rfl
  | some p =>
    obtain ⟨f, hf, hid, hpmem, hpid⟩ := pad?_eq_some hp
    obtain rfl : (⟨f.id, p.id⟩ : PadRef) = r := by rw [hid, hpid]
    cases hb : f.body with
    | plugin type => exact (hcold.plugin f hf type hb p hpmem hop hzero).1
    | subgraph id inner =>
      exact absurd hzero (hcold.pads f hf (by rw [NodeEntry.isSubgraph, hb]) p hpmem)

/-- The second graph has the nodes of the first one, at least its links, and its sinks are shown no
more from outside. What is settled from the start permits no more. The name says what is proved of
it: with a timetable, all of the second graph is under the first one (`Ceiling.above`). -/
structure Ceiling (external external' : External) (L : Timetable) (s u : GraphState) : Prop where
  nodes : u.nodes.map NodeEntry.plan = s.nodes.map NodeEntry.plan
  links : s.links ⊆ u.links
  spares : external.Spares u
  fits : external'.Fits u
  less : ∀ e ∈ s.nodes, ∀ p ∈ e.pads, p.isSource = false →
    (externalView external' ⟨e.id, p.id⟩).constraints.Under
      (externalView external ⟨e.id, p.id⟩).constraints
  pads : ∀ r, ¬ IsOperator r.pad → L.pads r = 0 → (u.declaredAt r).Under (s.declaredAt r)
  bodies : ∀ e ∈ s.nodes, e.isSubgraph = true → L.nodes e.id = 0 → ∀ pad, ¬ IsOperator pad →
    (u.behind ⟨e.id, pad⟩).Under (s.behind ⟨e.id, pad⟩)

theorem seen_of_plan (u : GraphState) (external : External) (hde : d.plan = e.plan)
    (pad : String) :
    u.seen external d pad = u.seen external e pad := by
  obtain ⟨hid, -, -, hpads, -⟩ := NodeEntry.plan_eq_iff.mp hde
  rw [← peerConstraints_peerViews d.id d.pads, ← peerConstraints_peerViews d.id d.pads,
    peerViews_congr rfl rfl hid (PadState.map_outline_of_plan hpads)]

section

variable (hT : ∀ name type, T name type → type.IsBuiltin) (hs : AtRest T config n external s)
  (hu : AtRest T config n external' u) (h : Ceiling external external' L s u)

include hs hu h

/-! ### What is seen -/

/-- A sink sees no more if what feeds it declares no more. -/
theorem Ceiling.seen_sink_under (he : e ∈ s.nodes) (hp : p ∈ e.pads) (hsink : p.isSource = false)
    (hfeed : ∀ l ∈ s.links, l.sink = ⟨e.id, p.id⟩ →
      (u.declaredAt l.source).Under (s.declaredAt l.source)) :
    (u.seen external' e p.id).Under (s.seen external e p.id) := by
  have hnd := hs.wellFormed.self.distinctPads e he
  by_cases hlinked : ∃ l ∈ s.links, l.sink = ⟨e.id, p.id⟩
  · obtain ⟨l, hl, hr⟩ := hlinked
    rw [hu.joined.seen_sink hnd hp hsink (h.links hl) hr, hs.joined.seen_sink hnd hp hsink hl hr]
    exact hfeed l hl hr
  · have hfeeder : s.feeder ⟨e.id, p.id⟩ = none := Option.eq_none_iff_forall_not_mem.mpr
      fun k hk => hlinked ⟨_, feeder_eq_some hk, rfl⟩
    rw [seen_of_mem hnd hp, seen_of_mem hnd hp, peerView_sink hsink, peerView_sink hsink, hfeeder]
    cases hk : u.feeder ⟨e.id, p.id⟩ with
    | none => exact h.less e he p hp hsink
    | some k =>
      have hquiet := (h.spares _ (feeder_eq_some hk)).2
      show Constraints.Under _ (externalView external ⟨e.id, p.id⟩).constraints
      rw [hquiet]
      exact Constraints.under_none _

/-- A linked source sees no more if its sinks declare no more. -/
theorem Ceiling.seen_source_under (he : e ∈ s.nodes) (hp : p ∈ e.pads)
    (hsource : p.isSource = true)
    (hl : l ∈ s.links) (hr : l.source = ⟨e.id, p.id⟩)
    (hsinks : ∀ l ∈ s.links, l.source = ⟨e.id, p.id⟩ →
      (u.declaredAt l.sink).Under (s.declaredAt l.sink)) :
    (u.seen external' e p.id).Under (s.seen external e p.id) := by
  have hnd := hs.wellFormed.self.distinctPads e he
  have hbroad := hu.clean.self.broad_seen hu.seen e p.id
  rw [hu.joined.seen_source hnd hp hsource (h.links hl) hr] at hbroad ⊢
  rw [hs.joined.seen_source hnd hp hsource hl hr]
  refine (Constraints.under_none _).foldl_intersect hbroad Constraints.broad_none fun cs hcs => ?_
  obtain ⟨q, hq, rfl⟩ := List.mem_map.mp hcs
  have hq := mem_downstream.mp hq
  have hop := (hs.clean.self.unlinked _ hq).2
  have hmem : u.declaredAt q ∈ (u.downstream ⟨e.id, p.id⟩).map u.declaredAt :=
    List.mem_map_of_mem (mem_downstream.mpr (h.links hq))
  have hall : ∀ cs ∈ (u.downstream ⟨e.id, p.id⟩).map u.declaredAt, cs.Broad := by
    intro cs hcs
    obtain ⟨q, hq, rfl⟩ := List.mem_map.mp hcs
    exact hu.clean.self.broad_declaredAt (hu.clean.self.unlinked _ (mem_downstream.mp hq)).2
  exact ⟨hs.clean.self.broad_declaredAt hop,
    ((Constraints.broad_none.foldl_under hall).2 _ hmem).trans (hsinks _ hq rfl) hbroad.toSlim
      (hu.clean.self.broad_declaredAt hop).toSlim (hs.clean.self.broad_declaredAt hop).toSlim⟩

/-! ### What is declared -/

include hT

/-- A pad of a plugin declares no more if what feeds the pads that it depends on does not
(`IsBuiltin.spec_under`). -/
theorem Ceiling.plugin_under (he : s.nodes[i]? = some e) (hd : u.nodes[i]? = some d)
    {type : NodeType} (hb : e.body = .plugin type) (hp : p ∈ e.pads) (hq : q ∈ d.pads)
    (hid : q.id = p.id) (hop : ¬ IsOperator p.id)
    (hfeed : ∀ l ∈ s.links, l.sink.node = e.id → type.Moves l.sink.pad p.id →
      (u.declaredAt l.source).Under (s.declaredAt l.source)) :
    q.declared.Under p.declared := by
  have hmem := List.mem_of_getElem? he
  obtain ⟨d', hd', hde⟩ := getElem?_of_plan h.nodes he
  obtain rfl := Option.some.inj (hd.symm.trans hd')
  refine (hu.outcome_of_plan hT (List.mem_of_getElem? hd) hde).declared_under hT hs hmem
    (hs.outcome hT hmem) hb hu.clean.self hu.seen hs.clean.self hs.seen hq hp hid.symm
    (hid ▸ hop) fun z hz => ?_
  cases hz' : findPad z e.pads with
  | none =>
    rw [GraphState.seen, GraphState.seen, hz']
    exact Constraints.under_none none
  | some a =>
    obtain ⟨ha, rfl⟩ := findPad_eq_some hz'
    refine h.seen_sink_under hs hu hmem ha (hs.isSource_of_moves hT hmem hb ha hz)
      fun l hl hr => ?_
    exact hfeed l hl (by rw [hr]) (by rw [hr]; exact hid ▸ hz)

/-- A pad of a subgraph declares no more if no more is behind it, and it sees no more
(`AtRest.declared_eq`). -/
theorem Ceiling.subgraph_under (he : s.nodes[i]? = some e) (hd : u.nodes[i]? = some d)
    (hb : e.body = .subgraph id inner) (hp : p ∈ e.pads) (hq : q ∈ d.pads) (hid : q.id = p.id)
    (hop : ¬ IsOperator p.id) (hbehind : (d.behind p.id).Under (e.behind p.id))
    (hsee : (u.seen external' e p.id).Under (s.seen external e p.id)) :
    q.declared.Under p.declared := by
  have hmem := List.mem_of_getElem? he
  have hmem' := List.mem_of_getElem? hd
  obtain ⟨d', hd', hde⟩ := getElem?_of_plan h.nodes he
  obtain rfl := Option.some.inj (hd.symm.trans hd')
  obtain ⟨inner', hb', -⟩ := Body.subgraph_of_plan (NodeEntry.plan_eq_iff.mp hde).2.2.2.2 hb
  have hlive := hu.live hT h.fits d hmem' q hq (hid ▸ hop)
  rw [seen_of_plan u external' hde, hid] at hlive
  rw [(hu.outcome_of_plan hT hmem' hde).declared_of_subgraph hT hs hmem hb' hq,
    (hs.outcome hT hmem).declared_of_subgraph hT hs hmem hb hp, hid]
  exact (hu.broad_behind_pad hT hmem' hop).narrowedBy_under_narrowedBy
    (hs.broad_behind_pad hT hmem hop) (hu.clean.self.broad_seen hu.seen e p.id)
    (hs.clean.self.broad_seen hs.seen e p.id) hbehind hsee hlive

end

/-- The pads at one address of two graphs, and the nodes that they belong to. Later lemmas take it
instead of a dozen look-ups. -/
structure Facing (s u : GraphState) (r : PadRef) (i : Nat) (e d : NodeEntry) (p q : PadState) :
    Prop where
  node : s.nodes[i]? = some e
  node' : u.nodes[i]? = some d
  pad : p ∈ e.pads
  pad' : q ∈ d.pads
  address : r = ⟨e.id, p.id⟩
  id : q.id = p.id
  declaredAt : s.declaredAt r = p.declared
  declaredAt' : u.declaredAt r = q.declared
  behind : s.behind r = e.behind p.id
  behind' : u.behind r = d.behind p.id

/-- There are pads at one address in graphs with the same nodes. -/
theorem exists_facing (hplan : u.nodes.map NodeEntry.plan = s.nodes.map NodeEntry.plan)
    (hnd : (s.nodes.map (·.id)).Nodup) (hp : s.pad? r = some p) :
    ∃ i e d q, Facing s u r i e d p q := by
  have hids := ids_of_plan hplan
  obtain ⟨q, hq, -⟩ := pad?_of_plan hplan hp
  obtain ⟨e, he, hpe⟩ := Option.bind_eq_some_iff.mp hp
  obtain ⟨d, hd, hqd⟩ := Option.bind_eq_some_iff.mp hq
  obtain ⟨i, he', hd'⟩ := node?_of_ids hids hnd he hd
  obtain ⟨hpmem, hpid⟩ := findPad_eq_some hpe
  obtain ⟨hqmem, hqid⟩ := findPad_eq_some hqd
  refine ⟨i, e, d, q, he', hd', hpmem, hqmem, ?_, hqid.trans hpid.symm, declaredAt_of_pad hp,
    declaredAt_of_pad hq, ?_, ?_⟩
  · rw [(node?_eq_some he).2, hpid]
  · rw [behind_eq, he, hpid]
    rfl
  · rw [behind_eq, hd, hpid]
    rfl

section

variable (hT : ∀ name type, T name type → type.IsBuiltin) (hs : AtRest T config n external s)

include hT hs

theorem AtRest.declaredAt_under_behind (hp : s.pad? r = some p) (hop : ¬ IsOperator r.pad) :
    (s.declaredAt r).Under (s.behind r) := by
  obtain ⟨i, e, d, q, h⟩ := exists_facing rfl hs.wellFormed.self.distinctNodes hp
  obtain rfl := h.address
  rw [h.declaredAt, h.behind]
  exact hs.declared_under_behind hT (List.mem_of_getElem? h.node) h.pad hop

/-- The source of a subgraph declares no more than the sinks that it feeds. -/
theorem AtRest.source_under_sink (hfits : external.Fits s) (hl : l ∈ s.links)
    (he : s.node? l.source.node = some e) (hsub : e.isSubgraph = true) :
    (s.declaredAt l.source).Under (s.declaredAt l.sink) := by
  obtain ⟨p, q, hp, hq, hps, -⟩ := hs.joined.ends hl
  obtain ⟨hopsource, hopsink⟩ := hs.clean.self.unlinked l hl
  obtain ⟨i, e', d, p', h⟩ := exists_facing rfl hs.wellFormed.self.distinctNodes hp
  obtain ⟨hmem, hid⟩ := node?_eq_some he
  have hmem' := List.mem_of_getElem? h.node
  obtain rfl := List.inj_on_of_nodup_map hs.wellFormed.self.distinctNodes hmem' hmem
    ((congrArg PadRef.node h.address).symm.trans hid.symm)
  have hop : ¬ IsOperator p.id := by
    rw [h.address] at hopsource
    exact hopsource
  obtain ⟨id, inner, hb⟩ : ∃ id inner, e'.body = .subgraph id inner := by
    cases hb : e'.body with
    | plugin type => rw [NodeEntry.isSubgraph, hb] at hsub; cases hsub
    | subgraph id inner => exact ⟨id, inner, rfl⟩
  have hnd := hs.wellFormed.self.distinctPads e' hmem'
  have hbehind := hs.broad_behind_pad hT hmem' hop
  have hsee := hs.clean.self.broad_seen hs.seen e' p.id
  have hlow := hbehind.intersect hsee
  have hdecl : p.declared = (e'.behind p.id).intersect (s.seen external e' p.id) :=
    ((hs.outcome hT hmem').declared_of_subgraph hT hs hmem' hb h.pad).trans
      (hbehind.narrowedBy_eq hsee hlow (hs.live hT hfits e' hmem' p h.pad hop)
        (hbehind.intersect_under_left hsee) (hbehind.intersect_under_right hsee))
  have hall : ∀ cs ∈ (s.downstream ⟨e'.id, p.id⟩).map s.declaredAt, cs.Broad := by
    intro cs hcs
    obtain ⟨q, hq, rfl⟩ := List.mem_map.mp hcs
    exact hs.clean.self.broad_declaredAt (hs.clean.self.unlinked _ (mem_downstream.mp hq)).2
  have hsink : (s.seen external e' p.id).Under (s.declaredAt l.sink) := by
    rw [hs.joined.seen_source hnd h.pad hps hl h.address]
    exact (Constraints.broad_none.foldl_under hall).2 _
      (List.mem_map_of_mem (mem_downstream.mpr (h.address ▸ hl)))
  rw [h.declaredAt, hdecl]
  exact (hbehind.intersect_under_right hsee).trans hsink hlow.toSlim hsee.toSlim
    (hs.clean.self.broad_declaredAt hopsink).toSlim

end

section

variable (hT : ∀ name type, T name type → type.IsBuiltin) (hs : AtRest T config n external s)
  (hu : AtRest T config n external' u) (h : Ceiling external external' L s u)

include hT hs hu h

/-- A source of a subgraph that feeds another one declares no more, if no more is behind the pads
at its links. This is where `Grounded` comes in: above, that source permits all that is behind
them. -/
theorem Ceiling.grounded_under (hgrounded : s.Grounded) (hl : l ∈ s.links)
    (he : s.node? l.source.node = some e) (hf : s.node? l.sink.node = some f)
    (hsub : e.isSubgraph = true) (hsub' : f.isSubgraph = true)
    (hsource : (u.behind l.source).Under (s.behind l.source))
    (hsinks : ∀ k ∈ s.links, k.source = l.source → (u.declaredAt k.sink).Under (s.behind k.sink)) :
    (u.declaredAt l.source).Under (s.declaredAt l.source) := by
  obtain ⟨p, -, hp, -⟩ := hu.joined.ends (h.links hl)
  obtain ⟨i, d, hd, -, -, hde⟩ := exists_node_of_plan h.nodes hs.wellFormed.self.distinctNodes he
  have hop := (hs.clean.self.unlinked l hl).1
  have hbroad := hu.clean.self.broad_declaredAt hop
  have hbehind := broad_behind s hs.clean hop
  have hdsub : d.isSubgraph = true := by
    obtain ⟨-, -, -, -, hbody⟩ := NodeEntry.plan_eq_iff.mp hde
    cases hb : d.body with
    | plugin type =>
      rw [NodeEntry.isSubgraph, Body.plugin_of_plan hbody.symm hb] at hsub
      cases hsub
    | subgraph id inner => rw [NodeEntry.isSubgraph, hb]
  have hall : ∀ cs ∈ (s.downstream l.source).map s.behind, cs.Broad ∧
      (u.declaredAt l.source).Under cs := by
    intro cs hcs
    obtain ⟨q, hq, rfl⟩ := List.mem_map.mp hcs
    have hk := mem_downstream.mp hq
    have hopq := (hs.clean.self.unlinked _ hk).2
    refine ⟨broad_behind s hs.clean hopq, ?_⟩
    exact (hu.source_under_sink hT h.fits (h.links hk) hd hdsub).trans (hsinks _ hk rfl)
      hbroad.toSlim (hu.clean.self.broad_declaredAt hopq).toSlim
      (broad_behind s hs.clean hopq).toSlim
  rw [hgrounded l hl e f he hf hsub hsub']
  refine Constraints.Under.intersect ?_ ?_ hbroad.toSlim hbehind.toSlim
    (Constraints.broad_none.foldl_intersect fun cs hcs => (hall cs hcs).1).toSlim
  · exact (hu.declaredAt_under_behind hT hp hop).trans hsource hbroad.toSlim
      (broad_behind u hu.clean hop).toSlim hbehind.toSlim
  · exact (Constraints.under_none _).foldl_intersect hbroad Constraints.broad_none hall

end

/-! ### Time after time -/

/-- No more is permitted by what is settled before some time (`rank`). It is the invariant of the
induction on time. -/
structure Until (L : Timetable) (s u : GraphState) (time : Nat) : Prop where
  pads : ∀ l ∈ s.links, ∀ r, r = l.source ∨ r = l.sink → s.rank r.node (L.pads r) < time →
    (u.declaredAt r).Under (s.declaredAt r)
  bodies : ∀ e ∈ s.nodes, e.isSubgraph = true → s.rank e.id (L.nodes e.id) < time → ∀ pad,
    ¬ IsOperator pad → (u.behind ⟨e.id, pad⟩).Under (s.behind ⟨e.id, pad⟩)

section

variable (hT : ∀ name type, T name type → type.IsBuiltin) (hs : AtRest T config n external s)
  (hu : AtRest T config n external' u) (h : Ceiling external external' L s u)

include hT hs hu h

omit hT hu in
/-- What is in time for the present: a pad that is settled before declares no more, by `Until`. -/
theorem Ceiling.pad_of_inTime (hup : Until L s u i) (hl : l ∈ s.links)
    (hr : r = l.source ∨ r = l.sink) (hin : s.InTime r.node (L.pads r) z b) (hb : s.rank z b ≤ i) :
    (u.declaredAt r).Under (s.declaredAt r) := by
  by_cases hzero : L.pads r = 0
  · exact h.pads r (hs.clean.self.not_isOperator_of_link hl hr) hzero
  · exact hup.pads l hl r hr (Nat.lt_of_lt_of_le (hin.rank_lt hzero) hb)

omit hT in
/-- The sinks of a subgraph see no more when it is resolved. -/
theorem Ceiling.sinks_under (htimed : s.Timed echoes L passes) (hup : Until L s u j)
    (he : e ∈ s.nodes) (hsub : e.isSubgraph = true) (hj : s.rank e.id (L.nodes e.id) ≤ j) :
    ∀ p ∈ e.pads, p.isSource = false →
      (u.seen external' e p.id).Under (s.seen external e p.id) := by
  intro p hp hsink
  refine h.seen_sink_under hs hu he hp hsink fun l hl hr => ?_
  exact h.pad_of_inTime hs hup hl (.inl rfl) (htimed.fed e he hsub l hl (by rw [hr])).1 hj

/-- A sink that the source of a subgraph feeds declares no more than what is behind it above. -/
theorem Ceiling.sink_under_behind (htimed : s.Timed echoes L passes) (hup : Until L s u j)
    (hl : l ∈ s.links) (he : s.node? l.source.node = some e) (hsub : e.isSubgraph = true)
    (hj : s.rank l.source.node (L.pads l.source) ≤ j) :
    (u.declaredAt l.sink).Under (s.behind l.sink) := by
  obtain ⟨-, q, -, hq, -⟩ := hs.joined.ends hl
  obtain ⟨-, q', -, hq', -⟩ := hu.joined.ends (h.links hl)
  have hop := (hs.clean.self.unlinked l hl).2
  have hlow := hu.clean.self.broad_declaredAt hop
  have hhigh := broad_behind s hs.clean hop
  rcases htimed.feeding l hl e he hsub with hin | ⟨-, f, hecho⟩
  · exact (h.pad_of_inTime hs hup hl (.inr rfl) hin hj).trans
      (hs.declaredAt_under_behind hT hq hop) hlow.toSlim
      (hs.clean.self.broad_declaredAt hop).toSlim hhigh.toSlim
  · have hbehind : (u.behind l.sink).Under (s.behind l.sink) := by
      obtain ⟨hf, hfid⟩ := node?_eq_some hecho.node
      rcases hecho.behind with ⟨id, g, x, hb, hx, hrigid⟩ | hin
      · have hrigid : s.Rigid l.sink := .inside hecho.node hb hx hrigid
        rw [hrigid.behind hT hs hu h.nodes]
        exact hhigh.under_self
      · rw [show l.sink = ⟨f.id, l.sink.pad⟩ by rw [hfid]]
        rw [← hfid] at hin
        by_cases hzero : L.nodes f.id = 0
        · exact h.bodies f hf hecho.subgraph hzero _ hop
        · exact hup.bodies f hf hecho.subgraph (Nat.lt_of_lt_of_le (hin.rank_lt hzero) hj) _ hop
    exact (hu.declaredAt_under_behind hT hq' hop).trans hbehind hlow.toSlim
      (broad_behind u hu.clean hop).toSlim hhigh.toSlim

/-- A linked pad declares no more, if no more is behind the pads of its node, and what it takes its
type from is in time. The link of an echo (`Echo`) is the case in which a source of a subgraph
feeds another one. -/
theorem Ceiling.pad_under (htimed : s.Timed echoes L passes) (hgrounded : echoes → s.Grounded)
    (hup : Until L s u j)
    (hbodies : ∀ e ∈ s.nodes, e.isSubgraph = true → s.rank e.id (L.nodes e.id) ≤ j → ∀ pad,
      ¬ IsOperator pad → (u.behind ⟨e.id, pad⟩).Under (s.behind ⟨e.id, pad⟩))
    (hl : l ∈ s.links) (hr : r = l.source ∨ r = l.sink) (hj : s.rank r.node (L.pads r) ≤ j) :
    (u.declaredAt r).Under (s.declaredAt r) := by
  obtain ⟨p, hp, hps⟩ : ∃ p, s.pad? r = some p ∧ (p.isSource = true → r = l.source) := by
    obtain ⟨p, q, hp, hq, hps, hqs⟩ := hs.joined.ends hl
    rcases hr with rfl | rfl
    · exact ⟨p, hp, fun _ => rfl⟩
    · exact ⟨q, hq, fun h => by rw [hqs] at h; cases h⟩
  have hop := hs.clean.self.not_isOperator_of_link hl hr
  obtain ⟨i, e, d, q, hface⟩ := exists_facing h.nodes hs.wellFormed.self.distinctNodes hp
  have hmem := List.mem_of_getElem? hface.node
  obtain ⟨-, hde⟩ := getElem?_of_plan h.nodes hface.node
  rw [hface.declaredAt', hface.declaredAt]
  obtain rfl := hface.address
  cases hb : e.body with
  | plugin type =>
    refine h.plugin_under hT hs hu hface.node hface.node' hb hface.pad hface.pad' hface.id hop
      fun k hk hsink hmoves => ?_
    exact h.pad_of_inTime hs hup hk (.inl rfl)
      (htimed.moved e hmem type hb p.id hop k hk hsink hmoves) hj
  | subgraph id inner =>
    have hsub : e.isSubgraph = true := by rw [NodeEntry.isSubgraph, hb]
    -- what is behind the pad is settled with the pad at the latest
    have hbehind : (u.behind ⟨e.id, p.id⟩).Under (s.behind ⟨e.id, p.id⟩) := by
      rcases htimed.shown e hmem hsub p hface.pad hop with ⟨id', g, x, hb', hx, hrigid⟩ | hle
      · have hrigid : s.Rigid ⟨e.id, p.id⟩ :=
          .inside (node?_of_mem hs.wellFormed.self.distinctNodes hmem) hb' hx hrigid
        rw [hrigid.behind hT hs hu h.nodes]
        exact (broad_behind s hs.clean hop).under_self
      · exact hbodies e hmem hsub ((rank_mono e.id hle).trans hj) p.id hop
    rw [hface.behind', hface.behind] at hbehind
    have hunder := fun hsee => h.subgraph_under hT hs hu hface.node hface.node' hb hface.pad
      hface.pad' hface.id hop hbehind hsee
    cases hsource : p.isSource with
    | false =>
      refine hunder (h.seen_sink_under hs hu hmem hface.pad hsource fun k hk hsink => ?_)
      refine h.pad_of_inTime hs hup hk (.inl rfl)
        (htimed.fed e hmem hsub k hk (by rw [hsink])).2 ?_
      rw [hsink]
      exact hj
    | true =>
      have hl' := hps hsource
      have hnode : s.node? l.source.node = some e := by
        rw [← hl']
        exact node?_of_mem hs.wellFormed.self.distinctNodes hmem
      rw [hl'] at hj
      by_cases hall : ∀ k ∈ s.links, k.source = ⟨e.id, p.id⟩ →
          s.InTime k.sink.node (L.pads k.sink) k.source.node (L.pads k.source)
      · refine hunder (h.seen_source_under hs hu hmem hface.pad hsource hl hl'.symm
          fun k hk hk' => ?_)
        refine h.pad_of_inTime hs hup hk (.inr rfl) (hall k hk hk') ?_
        rw [hk', hl']
        exact hj
      · -- the source and another subgraph take their types from each other
        push Not at hall
        obtain ⟨k, hk, hk', hlate⟩ := hall
        rw [hl'] at hk'
        have hnode' : s.node? k.source.node = some e := hk' ▸ hnode
        obtain ⟨hecho, f, hf⟩ := (htimed.feeding k hk e hnode' hsub).resolve_left hlate
        rw [← hface.declaredAt', ← hface.declaredAt, hl', ← hk']
        rw [← hface.behind', ← hface.behind, hl', ← hk'] at hbehind
        refine h.grounded_under hT hs hu (hgrounded hecho) hk hnode' hf.node hsub hf.subgraph
          hbehind fun k' hk'' hsame => ?_
        have heq : k'.source = l.source := hsame.trans hk'
        exact h.sink_under_behind hT hs hu htimed hup hk'' (heq ▸ hnode) hsub (heq ▸ hj)

/-! ### Inside -/

omit hu h in
/-- The sinks inside a subgraph are shown no more if those of the node see no more, which is what
`Ceiling` asks for inside. -/
theorem AtRest.less_inside (he : e ∈ s.nodes) (hb : e.body = .subgraph id inner)
    (hsee : ∀ p ∈ e.pads, p.isSource = false →
      (u.seen external' e p.id).Under (s.seen external e p.id)) (hf : f ∈ inner.nodes)
    (hp : p ∈ f.pads) (hsink : p.isSource = false) :
    (externalView (externalOf e.pads (u.peerViews external' e)) ⟨f.id, p.id⟩).constraints.Under
      (externalView (externalOf e.pads (s.peerViews external e)) ⟨f.id, p.id⟩).constraints := by
  have hinner := (hs.wellFormed.body he _ _ hb).self
  refine hs.shown_inside hT he hb u s _ _ fun q hq hqr => hsee q hq ?_
  obtain ⟨c, r, hstands⟩ := mem_pads_of_settled (hs.settledAt hT he) hb hinner hq
  obtain rfl := Option.some.inj (hqr.symm.trans hstands.proxy)
  have hpad : inner.pad? ⟨f.id, p.id⟩ = some p := by
    rw [pad?_of_mem hinner.distinctNodes hf, findPad_of_mem (hinner.distinctPads f hf) hp]
  obtain rfl := Option.some.inj (hpad.symm.trans hstands.pad)
  exact (congrArg PadType.isSource hstands.padType).trans hsink

/-- If the sinks of a subgraph see no more, the graph inside is a ceiling again, under its own
timetable. -/
theorem Ceiling.inside {L' : Timetable} (he : s.nodes[i]? = some e) (hd : u.nodes[i]? = some d)
    (hb : e.body = .subgraph id inner) (hb' : d.body = .subgraph id' inner')
    (hsee : ∀ p ∈ e.pads, p.isSource = false →
      (u.seen external' e p.id).Under (s.seen external e p.id)) (hcold : inner.StartsCold L') :
    Ceiling (externalOf e.pads (s.peerViews external e))
      (externalOf d.pads (u.peerViews external' d)) L' inner inner' := by
  have hmem := List.mem_of_getElem? he
  have hmem' := List.mem_of_getElem? hd
  obtain ⟨d', hd', hde⟩ := getElem?_of_plan h.nodes he
  obtain rfl := Option.some.inj (hd.symm.trans hd')
  obtain ⟨g, hbg, hplan⟩ := Body.subgraph_of_plan (NodeEntry.plan_eq_iff.mp hde).2.2.2.2 hb
  obtain ⟨-, rfl⟩ := Body.subgraph.inj (hb'.symm.trans hbg)
  have hlinks := links_of_plan hplan
  have hinner := (hs.wellFormed.body hmem _ _ hb).self
  refine ⟨nodes_of_plan hplan, fun l hl => hlinks ▸ hl, ?_, hu.fits_inside hT h.fits hmem' hb', ?_,
    fun r hop hzero => ?_, fun f hf hsub hzero => absurd hzero (hcold.nodes f hf hsub)⟩
  · rw [External.Spares, hlinks]
    exact hs.spares_inside hT hmem hb _
  · rw [externalOf_of_plan u external' hde]
    exact fun f hf p hp hsink => hs.less_inside hT hmem hb hsee hf hp hsink
  · -- what is settled from the start permits everything
    rw [hcold.declaredAt_eq_none hop hzero]
    exact Constraints.under_none _

/-- If this goes on for all time, no more is behind any pad, for every pad has a time. -/
theorem Ceiling.behind_of_until (htimed : s.Timed echoes L passes)
    (hup : ∀ time, Until L s u time) (hop : ¬ IsOperator r.pad) :
    (u.behind r).Under (s.behind r) := by
  have hnd := hs.wellFormed.self.distinctNodes
  rw [behind_eq, behind_eq]
  cases he : s.node? r.node with
  | none =>
    have hnone : u.node? r.node = none := by
      rw [Option.eq_none_iff_forall_not_mem]
      intro d hd
      obtain ⟨i, e, he', -⟩ := exists_node_of_plan h.nodes.symm (ids_of_plan h.nodes ▸ hnd) hd
      rw [he] at he'
      cases he'
    rw [hnone]
    exact Constraints.under_none none
  | some e =>
    obtain ⟨i, d, hd, he', hd', hde⟩ := exists_node_of_plan h.nodes hnd he
    obtain ⟨hmem, hid⟩ := node?_eq_some he
    rw [hd, Option.bind_some, Option.bind_some]
    cases hb : e.body with
    | plugin type =>
      obtain ⟨-, -, -, hpads, hbody⟩ := NodeEntry.plan_eq_iff.mp hde
      rw [NodeEntry.behind_of_plugin hb, NodeEntry.behind_of_plugin (Body.plugin_of_plan hbody hb)]
      cases hp : findPad r.pad e.pads with
      | none => exact Constraints.under_none _
      | some p =>
        obtain ⟨q, hq, -⟩ := PadState.findPad_of_plan hpads hp
        obtain ⟨hpmem, hpid⟩ := findPad_eq_some hp
        obtain ⟨hqmem, hqid⟩ := findPad_eq_some hq
        rw [hq]
        refine h.plugin_under hT hs hu he' hd' hb hpmem hqmem (hqid.trans hpid.symm) (hpid ▸ hop)
          fun l hl hsink hmoves => ?_
        exact h.pad_of_inTime hs (hup _) hl (.inl rfl)
          (htimed.moved e hmem type hb p.id (hpid ▸ hop) l hl hsink hmoves) le_rfl
    | subgraph id inner =>
      have hsub : e.isSubgraph = true := by rw [NodeEntry.isSubgraph, hb]
      have hunder := (hup _).bodies e hmem hsub (Nat.lt_succ_self _) r.pad hop
      rw [behind_of_mem hnd hmem] at hunder
      rw [← (NodeEntry.plan_eq_iff.mp hde).1,
        behind_of_mem (ids_of_plan h.nodes ▸ hnd) (List.mem_of_getElem? hd')] at hunder
      exact hunder

end

/-- Graphs at rest with more links, and shown no more at their sinks, permit no more at any time,
if there is a timetable. The induction is on the depth, and on the time (`rank`) in it. -/
theorem Ceiling.until (hT : ∀ name type, T name type → type.IsBuiltin)
    (hs : AtRest T config n external s) (hu : AtRest T config n external' u)
    (h : Ceiling external external' L s u) (htimed : s.Timed echoes L passes)
    (hgrounded : echoes → s.Everywhere Grounded)
    (hinside : ∀ e ∈ s.nodes, e.isSubgraph = true → L.nodes e.id ≠ 0 →
      e.body.Inside (Everywhere (Paced config echoes))) (time : Nat) : Until L s u time := by
  induction n using Nat.strong_induction_on generalizing external external' s u L passes time
  rename_i n ih
  induction time with
  | zero => exact ⟨fun _ _ _ _ h => absurd h (Nat.not_lt_zero _),
      fun _ _ _ h => absurd h (Nat.not_lt_zero _)⟩
  | succ time hup =>
    have hbodies : ∀ e ∈ s.nodes, e.isSubgraph = true → s.rank e.id (L.nodes e.id) ≤ time →
        ∀ pad, ¬ IsOperator pad → (u.behind ⟨e.id, pad⟩).Under (s.behind ⟨e.id, pad⟩) := by
      intro e he hsub hle pad hop
      by_cases hzero : L.nodes e.id = 0
      · exact h.bodies e he hsub hzero pad hop
      have hnd := hs.wellFormed.self.distinctNodes
      obtain ⟨i, d, hd, he', hd', hde⟩ := exists_node_of_plan h.nodes hnd (node?_of_mem hnd he)
      obtain ⟨id, inner, hb⟩ : ∃ id inner, e.body = .subgraph id inner := by
        cases hb : e.body with
        | plugin type => rw [NodeEntry.isSubgraph, hb] at hsub; cases hsub
        | subgraph id inner => exact ⟨id, inner, rfl⟩
      obtain ⟨inner', hb', -⟩ := Body.subgraph_of_plan (NodeEntry.plan_eq_iff.mp hde).2.2.2.2 hb
      obtain ⟨m, rfl, hrest⟩ := hs.inside hT he hb
      obtain ⟨m', hm, hrest'⟩ := hu.inside hT (List.mem_of_getElem? hd') hb'
      obtain rfl : m = m' := Nat.succ.inj hm
      have hpaced := hinside e he hsub hzero id inner hb
      obtain ⟨L', htimed', hcold⟩ := hpaced.self
      have hceiling := h.inside hT hs hu he' hd' hb hb'
        (h.sinks_under hs hu htimed hup he hsub hle) hcold
      have hinner := fun r hop => hceiling.behind_of_until hT hrest hrest' htimed' (r := r)
        (ih m m.lt_succ_self hrest hrest' hceiling htimed'
          (fun hecho => (hgrounded hecho).body he _ _ hb)
          fun f hf _ _ _ g hg => hpaced.body hf _ g hg) hop
      rw [behind_of_mem hnd he, ← (NodeEntry.plan_eq_iff.mp hde).1,
        behind_of_mem (ids_of_plan h.nodes ▸ hnd) (List.mem_of_getElem? hd'),
        NodeEntry.behind_of_body hb, NodeEntry.behind_of_body hb']
      cases hx : parseProxyPadId pad with
      | none => exact Constraints.under_none none
      | some x =>
        refine hinner x fun hop' => hop ?_
        rw [(parseProxyPadId_eq_some_iff.mp hx).1]
        exact (isOperator_proxyPadId x).mpr hop'
    exact ⟨fun l hl r hr hlt => h.pad_under hT hs hu htimed (fun hecho => (hgrounded hecho).self)
      hup hbodies hl hr (Nat.le_of_lt_succ hlt),
      fun e he hsub hlt => hbodies e he hsub (Nat.le_of_lt_succ hlt)⟩

section

variable (hT : ∀ name type, T name type → type.IsBuiltin) (hs : AtRest T config n external s)
  (hu : AtRest T config n external' u) (h : Ceiling external external' L s u)
  (hmore : external.Above external') (hup : ∀ time, Until L s u time)

include hs hu h hmore hup

/-- If this goes on for all time, and no more is shown from outside at sources either, no pad sees
more. -/
theorem Ceiling.seen_under (he : e ∈ s.nodes) (hp : p ∈ e.pads) :
    (u.seen external' e p.id).Under (s.seen external e p.id) := by
  have hnd := hs.wellFormed.self.distinctPads e he
  have hends : ∀ l ∈ s.links, ∀ r, r = l.source ∨ r = l.sink →
      (u.declaredAt r).Under (s.declaredAt r) := fun l hl r hr =>
    (hup _).pads l hl r hr (Nat.lt_succ_self _)
  cases hsource : p.isSource with
  | false =>
    exact h.seen_sink_under hs hu he hp hsource fun l hl _ => hends l hl _ (.inl rfl)
  | true =>
    by_cases hlinked : ∃ l ∈ s.links, l.source = ⟨e.id, p.id⟩
    · obtain ⟨l, hl, hr⟩ := hlinked
      exact h.seen_source_under hs hu he hp hsource hl hr fun k hk _ => hends k hk _ (.inr rfl)
    · have hpad : s.pad? ⟨e.id, p.id⟩ = some p := by
        rw [pad?_of_mem hs.wellFormed.self.distinctNodes he, findPad_of_mem hnd hp]
      have hfree : s.Unlinked ⟨e.id, p.id⟩ := by
        by_contra hnot
        rcases hs.joined.link_of_linked hpad hnot with ⟨-, hex⟩ | ⟨hsink, -⟩
        · exact hlinked hex
        · rw [hsource] at hsink
          cases hsink
      rw [seen_of_mem hnd hp, seen_of_mem hnd hp, peerView_unlinked hfree]
      by_cases hfree' : u.Unlinked ⟨e.id, p.id⟩
      · rw [peerView_unlinked hfree']
        exact hmore _
      · -- links that are there below only
        have hquiet : externalView external ⟨e.id, p.id⟩ = {} := by
          rw [Unlinked] at hfree'
          push Not at hfree'
          obtain ⟨l, hl, hr⟩ := hfree'
          by_cases hsrc : l.source = ⟨e.id, p.id⟩
          · exact hsrc ▸ (h.spares l hl).1
          · exact hr hsrc ▸ (h.spares l hl).2
        rw [hquiet]
        exact Constraints.under_none _

end

/-- A graph at rest with a timetable permits at least what a graph at rest does that has more links
and is shown no more from outside, at every depth (`GraphState.Above`). -/
theorem Ceiling.above (hT : ∀ name type, T name type → type.IsBuiltin)
    (hs : AtRest T config n external s) (hu : AtRest T config n external' u)
    (h : Ceiling external external' L s u) (htimed : s.Timed echoes L passes)
    (hgrounded : echoes → s.Everywhere Grounded)
    (hinside : ∀ e ∈ s.nodes, e.isSubgraph = true → L.nodes e.id ≠ 0 →
      e.body.Inside (Everywhere (Paced config echoes)))
    (hidle : ∀ (i : Nat) (e d : NodeEntry) (id id' : Option String) (inner inner' : GraphState),
      s.nodes[i]? = some e → u.nodes[i]? = some d → e.body = .subgraph id inner →
      d.body = .subgraph id' inner' → L.nodes e.id = 0 → inner.Above inner')
    (hmore : external.Above external') : s.Above u := by
  induction n using Nat.strong_induction_on generalizing external external' s u L passes
  rename_i n ih
  have hup := h.until hT hs hu htimed hgrounded hinside
  refine padwise_iff.mpr fun i d e hd he => ?_
  have hmem := List.mem_of_getElem? he
  have hmem' := List.mem_of_getElem? hd
  obtain ⟨d', hd', hde⟩ := getElem?_of_plan h.nodes he
  obtain rfl := Option.some.inj (hd.symm.trans hd')
  refine ⟨fun q hq p hp hid hop => ?_, fun id' id inner' inner hb' hb => ?_⟩
  · have hop' : ¬ IsOperator p.id := hid ▸ hop
    cases hb : e.body with
    | plugin type =>
      refine h.plugin_under hT hs hu he hd hb hp hq hid.symm hop' fun l hl hsink hmoves => ?_
      exact h.pad_of_inTime hs (hup _) hl (.inl rfl)
        (htimed.moved e hmem type hb p.id hop' l hl hsink hmoves) le_rfl
    | subgraph id inner =>
      have hbehind := h.behind_of_until hT hs hu htimed hup (r := ⟨e.id, p.id⟩) hop'
      rw [behind_of_mem hs.wellFormed.self.distinctNodes hmem, ← (NodeEntry.plan_eq_iff.mp hde).1,
        behind_of_mem hu.wellFormed.self.distinctNodes hmem'] at hbehind
      exact h.subgraph_under hT hs hu he hd hb hp hq hid.symm hop' hbehind
        (h.seen_under hs hu hmore hup hmem hp)
  · by_cases hzero : L.nodes e.id = 0
    · exact hidle i e d id id' inner inner' he hd hb hb' hzero
    have hsub : e.isSubgraph = true := by rw [NodeEntry.isSubgraph, hb]
    obtain ⟨m, rfl, hrest⟩ := hs.inside hT hmem hb
    obtain ⟨m', hm, hrest'⟩ := hu.inside hT hmem' hb'
    obtain rfl : m = m' := Nat.succ.inj hm
    have hpaced := hinside e hmem hsub hzero id inner hb
    obtain ⟨L', htimed', hcold⟩ := hpaced.self
    have hsee := fun p hp => h.seen_under hs hu hmore hup hmem (p := p) hp
    refine ih m m.lt_succ_self hrest hrest'
      (h.inside hT hs hu he hd hb hb' (fun p hp _ => hsee p hp) hcold) htimed'
      (fun hecho => (hgrounded hecho).body hmem _ _ hb)
      (fun f hf _ _ _ g hg => hpaced.body hf _ g hg)
      (fun j f c _ _ g g' hf _ hbf _ hfzero => absurd hfzero
        (hcold.nodes f (List.mem_of_getElem? hf) (by rw [NodeEntry.isSubgraph, hbf]))) fun r => ?_
    rw [externalOf_of_plan u external' hde]
    exact hs.shown_inside hT hmem hb u s _ _ fun p hp _ => hsee p hp

end Patchbay.GraphState
