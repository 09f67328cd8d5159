import Patchbay.Proofs.Graph.Certainty

/-!
# Between two graphs at rest

If a draft lies between two graphs at rest (`GraphState.Amid`), so does everything that comes up
while it is resolved. Compares then keep the menu that they have in the upper graph: where there is
one kind of operands above, and one is left below, it is the same in between. So operators hold
what they held above, and what comes of the draft is tuned to the upper graph (`Amid.reconcile`).
-/

namespace Patchbay.GraphState

variable {T : String → NodeType → Prop} {config : EngineConfig} {n m : Nat}
  {low mid high : External} {g s t t' u : GraphState} {c d d' e : NodeEntry} {p q : PadState}
  {id : Option String} {inner : GraphState} {i : Nat} {changed : Bool} {type : NodeType}
  {P : PadState → PadState → Prop}

/-! ### The second graph of a comparison -/

theorem Padwise.flip (h : t.Padwise P s) : s.Padwise (fun p q => P q p) t := by
  induction h with
  | intro pads _ ih =>
    exact ⟨fun i e d he hd p hp q hq hid => pads i d e hd he q hq p hp hid.symm,
      fun i e d id id' inner inner' he hd hb hb' => ih i d e id' id inner' inner hd he hb' hb⟩

theorem NodeEntry.Padwise.flip (h : d.Padwise P e) : e.Padwise (fun p q => P q p) d :=
  ⟨fun p hp q hq hid => h.pads q hq p hp hid.symm,
    fun id id' inner inner' hb hb' => (h.inside id' id inner' inner hb' hb).flip⟩

/-- One more node of the second graph was replaced. -/
theorem Padwise.set_right (h : t.Padwise P s) (hd : t.nodes[i]? = some d) (he : d.Padwise P e) :
    t.Padwise P { s with nodes := s.nodes.set i e } :=
  (h.flip.set hd (NodeEntry.Padwise.flip he)).flip

theorem Above.of_nodes_right (h : s.Above t)
    (hnodes : u.nodes.map NodeEntry.bare = t.nodes.map NodeEntry.bare) : s.Above u :=
  (Padwise.of_nodes (P := fun p q => q.Above p) (fun q q' p hqq hq hop => by
    obtain ⟨hid, -, -, hdecl, -⟩ := PadState.bare_eq_iff.mp hqq
    exact hdecl ▸ hq (hid ▸ hop)) h.flip hnodes).flip

/-! ### Drafts between graphs at rest -/

/-- A draft between the graph `g` below it and the graph `s` above it: it permits no less than the
one and no more than the other, and has no more links than the one and no less than the other. What
is seen from outside lies in between, too. -/
structure Amid (T : String → NodeType → Prop) (n : Nat) (low mid high : External)
    (g s u : GraphState) : Prop extends Over T n low mid g u where
  same : g.nodes.map NodeEntry.plan = s.nodes.map NodeEntry.plan
  fewer : s.links ⊆ u.links
  below : s.Above u
  less : high.Above mid
  quiet : high.Spares u

section

variable (hT : ∀ name type, T name type → type.IsBuiltin) (hg : AtRest T config n low g)
  (hs : AtRest T config n high s) (hfits : low.Fits g) (hu : Amid T n low mid high g s u)

namespace Amid

include hu

theorem plan_upper : u.nodes.map NodeEntry.plan = s.nodes.map NodeEntry.plan :=
  hu.nodes.trans hu.same

include hg hs

theorem seen_under_upper (e : NodeEntry) (pad : String) :
    (u.seen mid e pad).Under (s.seen high e pad) := by
  have hids := ids_of_plan hu.plan_upper
  rw [GraphState.seen, GraphState.seen]
  cases findPad pad e.pads with
  | none => exact Constraints.under_none _
  | some p =>
    exact hu.below.peerView hu.plan_upper.symm hu.clean.self hs.clean.self (hu.joined hg)
      (hids ▸ hs.wellFormed.self.distinctNodes) hu.fewer hu.seen hu.less hu.quiet _ p

omit hg hs hu in
include hT in
/-- The graphs inside lie between those inside of the graphs at rest, under what the nodes show
them. So the induction goes on inside. -/
theorem inside {m : Nat} (hg : AtRest T config (m + 1) low g)
    (hs : AtRest T config (m + 1) high s) (hu : Amid T (m + 1) low mid high g s u)
    (hc : g.nodes[i]? = some c) (he : s.nodes[i]? = some e) (hd : u.nodes[i]? = some d)
    (hdc : d.plan = c.plan) (hde : d.plan = e.plan) {inner' : GraphState}
    (hb : c.body = .subgraph id inner') (hb' : e.body = .subgraph id inner) :
    ∃ inner₁, d.body = .subgraph id inner₁ ∧
      Amid T m (externalOf c.pads (g.peerViews low c)) (externalOf d.pads (u.peerViews mid d))
        (externalOf e.pads (s.peerViews high e)) inner' inner inner₁ := by
  have hmem := List.mem_of_getElem? he
  obtain ⟨inner₁, hb₁, hover⟩ := hu.toOver.inside hT hg hc hd hdc hb
  obtain ⟨inner₂, hb₂, hplan⟩ := Body.subgraph_of_plan (NodeEntry.plan_eq_iff.mp hde).2.2.2.2 hb'
  obtain ⟨-, rfl⟩ := Body.subgraph.inj (hb₁.symm.trans hb₂)
  have hlinks := links_of_plan hplan
  refine ⟨inner₁, hb₁, hover, hover.nodes.symm.trans (nodes_of_plan hplan),
    hlinks ▸ List.Subset.refl _, (padwise_iff.mp hu.below i d e hd he).inside _ _ _ _ hb₁ hb', ?_,
    ?_⟩
  · rw [externalOf_of_plan u mid hde]
    exact fun r => hs.shown_inside hT hmem hb' u s _ _ fun p _ _ =>
      hu.seen_under_upper hg hs e p.id
  · rw [External.Spares, hlinks]
    exact hs.spares_inside hT hmem hb' _

theorem view_under_upper (hde : d.plan = e.plan) (id : String) :
    ((u.view mid d).peerConstraints id).Under ((s.view high e).peerConstraints id) := by
  rw [view, view, peerConstraints_peerViews, peerConstraints_peerViews, seen_of_plan u mid hde]
  exact hu.seen_under_upper hg hs e id

include hT hfits

/-- Where there is one kind of operands above, it is the only one in between: the operands in
between permit less than above, and as much as below, where something is left
(`AtRest.operand_ne_nil`). -/
theorem menu_eq (hc : g.nodes[i]? = some c) (hdc : d.plan = c.plan) (hde : d.plan = e.plan)
    (hb : c.body = .plugin Compare.nodeType) (hmenu : Compare.menu (s.view high e) ≠ []) :
    Compare.menu (u.view mid d) = Compare.menu (s.view high e) := by
  have hbroad := hu.clean.self.broad_peerConstraints hu.seen d
  refine Compare.menu_of_under (hs.clean.self.broad_peerConstraints hs.seen e) hbroad
    (hu.view_under_upper hg hs hde) hmenu ?_
  refine (Compare.operand_under (hg.clean.self.broad_peerConstraints hg.seen c) hbroad
    fun id => ?_).ne_nil (hg.operand_ne_nil hT hfits (List.mem_of_getElem? hc) hb)
  rw [view, view, peerConstraints_peerViews, peerConstraints_peerViews, seen_of_plan u mid hdc]
  exact hu.toOver.seen_under hg c id

section

variable (hc : g.nodes[i]? = some c) (he : s.nodes[i]? = some e) (hd : u.nodes[i]? = some d)
  (hdc : d.plan = c.plan) (hde : d.plan = e.plan)
  (hnode : resolveNode (innerResolver config n) mid u d = .ok (d', changed))
  (hplan : d'.plan = c.plan)

include hc he hd hdc hde hnode hplan

/-- What resolution makes of one node is below the upper graph, because the node sees less than
there (`Over.seen_under_upper`). -/
theorem below_of_resolveNode (hrest : d'.body.Inside fun g => ∃ m, n = m + 1 ∧
      AtRest T config m (externalOf d.pads (u.peerViews mid d)) g)
    (hafter : d'.Padwise PadState.Above c)
    (hin : ∀ id₁ id₂ inner₁ inner₂, d'.body = .subgraph id₁ inner₁ →
      e.body = .subgraph id₂ inner₂ → inner₂.Above inner₁) : e.Padwise PadState.Above d' := by
  have hmem := List.mem_of_getElem? he
  have hcmem := List.mem_of_getElem? hc
  have hplan' : d'.plan = d.plan := hplan.trans hdc.symm
  have hout := outcome_of_resolveNode hde (hplan'.trans hde) hrest hnode
  refine hout.above hT hs hmem (hs.outcome hT hmem) hu.clean.self hu.seen hs.clean.self hs.seen
    (hu.seen_under_upper hg hs e) (fun pad hop hnil => ?_) hin
  have hbehind := hout.broad_behind hT hs hmem hu.clean.self hu.seen hop
  have hseen := hu.clean.self.broad_seen hu.seen e pad
  cases hp : findPad pad c.pads with
  | none =>
    have hnone : u.seen mid e pad = none := by
      rw [← seen_of_plan u mid (hdc.symm.trans hde), GraphState.seen, hp]
      rfl
    rwa [hnone, hbehind.intersect_comm Constraints.broad_none, Constraints.none_intersect] at hnil
  | some p =>
    -- what is behind the pad in the lower graph has something in common with what the pad sees
    obtain ⟨hpmem, rfl⟩ := findPad_eq_some hp
    have hnodes := nodes_replaceNode hu.nodes hd hplan'
    have hd' : d' ∈ (u.replaceNode i d').nodes :=
      List.mem_of_getElem? (List.getElem?_set_self (List.getElem?_eq_some_iff.mp hd).1)
    have hunder :=
      Above.behind (hu.above.set hc hafter) hnodes hg.wellFormed (r := ⟨c.id, p.id⟩) hop
    rw [behind_of_mem hg.wellFormed.self.distinctNodes hcmem, ← (NodeEntry.plan_eq_iff.mp hplan).1,
      behind_of_mem (ids_of_plan hnodes ▸ hg.wellFormed.self.distinctNodes) hd'] at hunder
    have hsee := hu.toOver.seen_under hg c p.id
    rw [seen_of_plan u mid (hdc.symm.trans hde)] at hsee
    exact absurd hnil ((hunder.intersect_intersect hsee (hg.broad_behind_pad hT hcmem hop) hbehind
      (hg.clean.self.broad_seen hg.seen c _) hseen).ne_nil (hg.live hT hfits c hcmem p hpmem hop))

omit hd in
/-- A node stays tuned to the upper graph when it is resolved: a compare has the menu that it has
above (`menu_eq`), under which its operator keeps its value. -/
theorem tuned_of_resolveNode (hb : e.body = .plugin type)
    (htuned : ∀ p ∈ e.pads, ∀ q ∈ d.pads, q.id = p.id → q.Tuned p) :
    ∀ p ∈ e.pads, ∀ q ∈ d'.pads, q.id = p.id → q.Tuned p := by
  have hmem := List.mem_of_getElem? he
  have hbc := Body.plugin_of_plan (NodeEntry.plan_eq_iff.mp (hdc.symm.trans hde)).2.2.2.2 hb
  refine hs.tuned_resolveNode hT hmem hb hde (hplan.trans (hdc.symm.trans hde)) hnode htuned
    fun p hp hop => ?_
  obtain ⟨rfl, hprop, hkept⟩ := hs.keptValue_operator hT hmem hb hp hop
  by_cases hmenu : Compare.menu (s.view high e) = []
  · rw [hmenu] at hkept
    exact (PadState.value_of_noOptions hprop hkept).imp_right .inl
  · exact .inr (.inr (hu.menu_eq hT hg hs hfits hc hdc hde hbc hmenu))

end

end Amid

/-- What comes of a draft between two graphs at rest is not above the upper one, and it is tuned to
it (`PadState.Tuned`), if the draft is. The induction is on the depth, then on the passes and their
nodes. -/
theorem Amid.reconcile (hT : ∀ name type, T name type → type.IsBuiltin)
    (hg : AtRest T config n low g) (hs : AtRest T config n high s) (hfits : low.Fits g)
    (ht : Amid T n low mid high g s t) (htuned : t.Padwise PadState.Tuned s)
    (h : reconcileWithin config n mid t = .ok t') : s.Above t' ∧ t'.Padwise PadState.Tuned s := by
  induction n using Nat.strong_induction_on generalizing low mid high g s t t'
  rename_i n ih
  obtain ⟨u, -, -, ⟨-, hbelow, htuned'⟩, hbare⟩ := ht.toDraft.invariant hT
    (I := fun u => u.Above g ∧ s.Above u ∧ u.Padwise PadState.Tuned s) hg ht.seen (by
      rintro u i c d d' changed hdraft hul ⟨habove, hbelow, htuned⟩ hc hd hdc hnode hplan hrest
      have hu : Amid T n low mid high g s u := ⟨⟨hdraft, hul ▸ ht.links, habove, ht.seen, ht.more,
        ht.spares⟩, ht.same, hul.symm ▸ ht.fewer, hbelow, ht.less,
        fun l hl => ht.quiet l (hul ▸ hl)⟩
      obtain ⟨e, he, hec⟩ := getElem?_of_plan ht.same.symm hc
      have hde := hdc.trans hec.symm
      have hcmem := List.mem_of_getElem? hc
      have hmem := List.mem_of_getElem? he
      have hafter := hu.toOver.padwise_of_resolveNode hT hg hfits hc hd hdc
        (fun m ext ext' g g₁ g₂ hm hg hgf hg₁ hr => hg.above hT hgf hg₁ hr) hnode hplan hrest
      have hdtuned := padwise_iff.mp htuned i e d he hd
      -- the graphs inside, by induction
      have hinside : ∀ id₁ id₂ inner₁ inner₂, d'.body = .subgraph id₁ inner₁ →
          e.body = .subgraph id₂ inner₂ →
            inner₂.Above inner₁ ∧ inner₁.Padwise PadState.Tuned inner₂ := by
        intro id₁ id₂ inner₁ inner₂ hb₁ hb₂
        obtain ⟨specs, body, hbody, -, hd', -⟩ := resolveNode_eq_ok hnode
        obtain rfl : body = .subgraph id₁ inner₁ := by
          rw [← hb₁, hd']
        obtain ⟨inner, hb, hr, -⟩ := exists_of_resolveBody hbody
        obtain ⟨inner', hb', -⟩ :=
          Body.subgraph_of_plan (NodeEntry.plan_eq_iff.mp hec).2.2.2.2.symm hb₂
        obtain ⟨m, rfl, hrest'⟩ := hg.inside hT hcmem hb'
        obtain ⟨m', hm, hrest₂⟩ := hs.inside hT hmem hb₂
        obtain rfl : m = m' := Nat.succ.inj hm
        obtain ⟨inner₀, hb₀, hamid⟩ := Amid.inside hT hg hs hu hc he hd hdc hde hb' hb₂
        obtain ⟨-, rfl⟩ := Body.subgraph.inj (hb.symm.trans hb₀)
        exact ih m m.lt_succ_self hrest' hrest₂ (hg.fits_inside hT hfits hcmem hb') hamid
          (hdtuned.inside _ _ _ _ hb₂ hb₀) hr
      refine ⟨habove.set hc hafter, Padwise.set_right hbelow he <|
        hu.below_of_resolveNode hT hg hs hfits hc he hd hdc hde hnode hplan hrest hafter
          fun id₁ id₂ inner₁ inner₂ hb₁ hb₂ => (hinside _ _ _ _ hb₁ hb₂).1,
        htuned.set he ⟨?_, fun id₁ id₂ inner₁ inner₂ hb₁ hb₂ => (hinside _ _ _ _ hb₂ hb₁).2⟩⟩
      cases hb : e.body with
      | plugin type =>
        exact hu.tuned_of_resolveNode hT hg hs hfits hc he hdc hde hnode hplan hb hdtuned.pads
      | subgraph id inner =>
        exact fun p hp q _ _ => hs.tuned_of_subgraph hT hmem hb hp)
    ⟨ht.above, ht.below, htuned⟩ h
  have hnodes := (bare_eq_iff.mp hbare).1
  exact ⟨hbelow.of_nodes_right hnodes, tuned_of_nodes htuned' hnodes⟩

end

end Patchbay.GraphState
