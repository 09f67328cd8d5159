import Patchbay.Proofs.Graph.Above
import Patchbay.Proofs.Graph.ColdStart
import Patchbay.Proofs.Graph.Rounds

/-!
# Graphs above a graph at rest

A graph at rest is *live* (`GraphState.Live`): what is behind a pad and what the pad sees have
something in common. Links have agreed on it, and what is seen from outside has to fit
(`External.Fits`), as it does in the graphs inside (`AtRest.fits_inside`).

So a graph at rest is a floor for its drafts: what comes of a draft that is above it, and sees
more, is above it again (`AtRest.above`), and narrowing such a draft does not fail
(`AtRest.narrow`).
-/

namespace Patchbay

/-- What is seen from outside has something in common with what is behind the pad that sees it.
Nothing is seen of the outermost graph, so that it fits there. -/
def External.Fits (external : External) (s : GraphState) : Prop :=
  ∀ e ∈ s.nodes, ∀ p ∈ e.pads, ¬ IsOperator p.id → s.Unlinked ⟨e.id, p.id⟩ →
    (GraphState.externalView external ⟨e.id, p.id⟩).connected = true →
      (e.behind p.id).intersect (GraphState.externalView external ⟨e.id, p.id⟩).constraints ≠
      some []

theorem External.fits_nil (s : GraphState) : External.Fits [] s := by
  intro e _ p _ _ _ hconnected
  cases hconnected

namespace GraphState

variable {T : String → NodeType → Prop} {config : EngineConfig} {n m : Nat}
  {external external' : External} {s t t' u : GraphState} {e d : NodeEntry} {p q : PadState}
  {r : PadRef} {l : Link} {id : Option String} {inner : GraphState} {d' : NodeEntry} {i : Nat}
  {changed : Bool}

/-- What is behind a pad and what the pad sees have something in common, so that narrowing the one
by the other has an effect (`Constraints.narrowedBy`). -/
def Live (s : GraphState) (external : External) : Prop :=
  ∀ e ∈ s.nodes, ∀ p ∈ e.pads, ¬ IsOperator p.id →
    (e.behind p.id).intersect (s.seen external e p.id) ≠ some []

/-! ### Links -/

theorem Clean.not_isOperator_of_link (hs : s.Clean) (hl : l ∈ s.links)
    (hr : r = l.source ∨ r = l.sink) : ¬ IsOperator r.pad := by
  obtain ⟨hsource, hsink⟩ := hs.unlinked l hl
  rcases hr with rfl | rfl
  · exact hsource
  · exact hsink

/-- Every pad but operators has broad effective constraints, and they are no more than it
declares. -/
def Narrows (s : GraphState) : Prop :=
  ∀ r p, s.pad? r = some p → ¬ IsOperator r.pad →
    p.declared.Broad ∧ p.effective.Broad ∧ p.effective.Under p.declared

theorem Narrows.narrowLink (ht : t.Narrows) (hjoined : t.Joined) (hclean : t.Clean)
    (hl : l ∈ t.links) {changed : Bool} (h : t.narrowLink l = .ok (t', changed)) : t'.Narrows := by
  intro r p' hp' hop
  rcases pad?_narrowLink (hjoined.source_ne_sink hl hl) h hp' with hp |
    ⟨p, q, hp, hq, ⟨rfl, rfl⟩ | ⟨rfl, rfl⟩⟩
  · exact ht r p' hp hop
  all_goals
    obtain ⟨hdp, hep, hup⟩ := ht _ p hp (hclean.unlinked l hl).1
    obtain ⟨hdq, heq, huq⟩ := ht _ q hq (hclean.unlinked l hl).2
    have hmeet := hep.intersect heq
  · exact ⟨hdp, hmeet, (hep.intersect_under_left heq).trans hup hmeet.toSlim hep.toSlim hdp.toSlim⟩
  · exact ⟨hdq, hmeet,
      (hep.intersect_under_right heq).trans huq hmeet.toSlim heq.toSlim hdq.toSlim⟩

theorem narrows_startNarrowing (hclean : t.Clean) (hext : external.Clean) :
    (t.startNarrowing external).Narrows := by
  intro r p hp hop
  rw [pad?_startNarrowing] at hp
  obtain ⟨q, hq, rfl⟩ := Option.map_eq_some_iff.mp hp
  have hdecl := hclean.broad_declared? hop (congrArg (Option.map PadState.declared) hq)
  rw [startOf_eq]
  have hview := broad_externalView hext ⟨r.node, q.id⟩
  exact ⟨hdecl, hdecl.narrowedBy hview, hdecl.narrowedBy_under hview⟩

theorem Joined.of_bare (hs : s.Joined) (h : t.bare = s.bare) : t.Joined := by
  have hlinks := (bare_eq_iff.mp h).2
  refine ⟨fun l hl => ?_, fun k hk l hl => hs.once k (hlinks ▸ hk) l (hlinks ▸ hl)⟩
  rw [← isSound_bare, h, isSound_bare]
  exact hs.sound l (hlinks ▸ hl)

theorem Clean.of_bare (hs : s.Clean) (h : t.bare = s.bare) : t.Clean := by
  refine ⟨fun e he p hp hop => ?_, (bare_eq_iff.mp h).2 ▸ hs.unlinked⟩
  obtain ⟨d, hd, hde⟩ := exists_bare_eq h he
  obtain ⟨q, hq, hqp⟩ : ∃ q ∈ d.pads, q.bare = p.bare := by
    have hmem : p.bare ∈ d.pads.map PadState.bare :=
      (NodeEntry.bare_eq_iff.mp hde).2.2.2.1 ▸ List.mem_map_of_mem hp
    exact List.mem_map.mp hmem
  obtain ⟨hid, -, -, hdecl, -⟩ := PadState.bare_eq_iff.mp hqp
  exact hdecl ▸ hs.broad d hd q hq (hid ▸ hop)

/-- A linked pad is a source with a link from it, or a sink with a link to it. -/
theorem Joined.link_of_linked (hs : s.Joined) (hp : s.pad? r = some p) (hlinked : ¬ s.Unlinked r) :
    (p.isSource = true ∧ ∃ l ∈ s.links, l.source = r) ∨
      (p.isSource = false ∧ ∃ l ∈ s.links, l.sink = r) := by
  obtain ⟨l, hl, hends⟩ : ∃ l ∈ s.links, l.source = r ∨ l.sink = r := by
    simpa only [Unlinked, not_forall, not_and_or, not_not, exists_prop] using hlinked
  obtain ⟨a, b, ha, hb, hsource, hsink⟩ := hs.ends hl
  rcases hends with rfl | rfl
  · obtain rfl := Option.some.inj (hp.symm.trans ha)
    exact .inl ⟨hsource, l, hl, rfl⟩
  · obtain rfl := Option.some.inj (hp.symm.trans hb)
    exact .inr ⟨hsink, l, hl, rfl⟩

theorem narrows_narrow (hjoined : s.Joined) (hclean : s.Clean) (hext : external.Clean)
    (h : s.narrow external = .ok t) : t.Narrows := by
  have hstart := bare_startNarrowing s external
  obtain ⟨⟨-, hnarrows⟩, -⟩ := narrow_invariant (I := fun u => u.bare = s.bare ∧ u.Narrows)
    (fun u l u' changed hl hu hstep => ⟨(bare_narrowLink hstep).trans hu.1,
      hu.2.narrowLink (hjoined.of_bare hu.1) (hclean.of_bare hu.1) hl hstep⟩)
    ⟨hstart, narrows_startNarrowing hclean hext⟩ h
  exact hnarrows

section

variable (hT : ∀ name type, T name type → type.IsBuiltin) (hs : AtRest T config n external s)

include hT hs

namespace AtRest

theorem narrows : s.Narrows := by
  obtain ⟨u, hu, hmark⟩ := map_eq_ok_iff.mp (hs.reconciled hT).narrowed
  have hnarrows := narrows_narrow hs.joined hs.clean.self hs.seen hu
  intro r p hp
  rw [← hmark, pad?_markResolved] at hp
  exact hnarrows r p hp

/-- The ends of a link have the same effective constraints, and these permit something. -/
theorem effective_link (hl : l ∈ s.links) : ∃ p q, s.pad? l.source = some p ∧
    s.pad? l.sink = some q ∧ p.effective = q.effective ∧ p.effective ≠ some [] := by
  obtain ⟨p, q, hp, hq, -⟩ := hs.joined.ends hl
  obtain ⟨u, hu, hmark⟩ := map_eq_ok_iff.mp (hs.reconciled hT).narrowed
  have hlinks : u.links = s.links := by
    rw [← hmark]
    rfl
  have hagree := (narrow_agrees hu).2 l (hlinks ▸ hl)
  rw [← hmark, pad?_markResolved] at hp hq
  obtain ⟨hsame, hne, -⟩ := hagree p q hp hq
  rw [← pad?_markResolved, hmark] at hp hq
  obtain ⟨hop, hop'⟩ := hs.clean.self.unlinked l hl
  refine ⟨p, q, hp, hq, ?_, fun hnil => ?_⟩
  · exact Constraints.Slim.eq_of_same (hs.narrows hT _ p hp hop).2.1.toSlim
      (hs.narrows hT _ q hq hop').2.1.toSlim hsame
  · rw [hnil] at hne
    cases hne

/-- A linked pad permits something that it declares itself and that it sees: the effective
constraints at its link (`effective_link`). -/
theorem exists_under_link (he : e ∈ s.nodes) (hp : p ∈ e.pads) (hop : ¬ IsOperator p.id)
    (hlinked : ¬ s.Unlinked ⟨e.id, p.id⟩) : ∃ c : Constraints, c.Broad ∧ c ≠ some [] ∧
      c.Under p.declared ∧ c.Under (s.seen external e p.id) := by
  have hwf := hs.wellFormed.self
  have hpad : s.pad? ⟨e.id, p.id⟩ = some p := by
    rw [pad?_of_mem hwf.distinctNodes he, findPad_of_mem (hwf.distinctPads e he) hp]
  obtain ⟨-, hbroad, hunder⟩ := hs.narrows hT _ p hpad hop
  rw [seen_of_mem (hwf.distinctPads e he) hp]
  rcases hs.joined.link_of_linked hpad hlinked with ⟨hsource, l, hl, hr⟩ | ⟨hsink, l, hl, hr⟩
  · have hend : ∀ k ∈ s.links, k.source = ⟨e.id, p.id⟩ → ∃ q, s.pad? k.sink = some q ∧
        q.effective = p.effective ∧ p.effective ≠ some [] := by
      intro k hk hsource
      obtain ⟨p', q, hp', hq, heq, hne⟩ := hs.effective_link hT hk
      rw [hsource, hpad, Option.some.injEq] at hp'
      subst hp'
      exact ⟨q, hq, heq.symm, hne⟩
    have hall : ∀ cs ∈ (s.downstream ⟨e.id, p.id⟩).filterMap s.declared?,
        cs.Broad ∧ p.effective.Under cs := by
      intro cs hcs
      obtain ⟨r, hr, hcs⟩ := List.mem_filterMap.mp hcs
      have hk := mem_downstream.mp hr
      obtain ⟨q, hq, heq, -⟩ := hend _ hk rfl
      obtain ⟨q', hq', rfl⟩ := Option.map_eq_some_iff.mp hcs
      obtain rfl := Option.some.inj (hq.symm.trans hq')
      obtain ⟨hd, -, hu⟩ := hs.narrows hT _ q hq (hs.clean.self.unlinked _ hk).2
      exact ⟨hd, heq ▸ hu⟩
    obtain ⟨q, hq, -, hne⟩ := hend l hl hr
    refine ⟨p.effective, hbroad, hne, hunder, ?_⟩
    rw [peerView_source hsource]
    split
    · rename_i hnil
      have hmem : q.declared ∈ (s.downstream ⟨e.id, p.id⟩).filterMap s.declared? :=
        List.mem_filterMap.mpr ⟨l.sink, mem_downstream.mpr (hr ▸ hl), congrArg (Option.map _) hq⟩
      rw [hnil] at hmem
      cases hmem
    · exact (Constraints.under_none _).foldl_intersect hbroad Constraints.broad_none hall
  · obtain ⟨q, p', hq, hp', heq, hne⟩ := hs.effective_link hT hl
    rw [hr, hpad, Option.some.injEq] at hp'
    subst hp'
    have hfeeder := hs.joined.feeder_sink hl
    rw [hr] at hfeeder
    refine ⟨p.effective, hbroad, heq ▸ hne, hunder, ?_⟩
    rw [peerView_sink hsink, hfeeder, Option.bind_some, GraphState.declared?, hq, Option.map_some]
    exact heq ▸ (hs.narrows hT _ q hq (hs.clean.self.unlinked l hl).1).2.2

end AtRest

/-! ### Live graphs -/

/-- A pad of an outcome declares no more than what is behind it. -/
theorem Outcome.declared_under_behind (h : Outcome T config n e (t.peerViews external' e) d)
    (he : e ∈ s.nodes) (ht : t.Clean) (hext : external'.Clean) (hp : p ∈ d.pads)
    (hop : ¬ IsOperator p.id) : p.declared.Under (d.behind p.id) := by
  have hbroad := h.broad_behind hT hs he ht hext hop
  cases hb : d.body with
  | subgraph id inner =>
    rw [h.declared_of_subgraph hT hs he hb hp]
    exact hbroad.narrowedBy_under (ht.broad_seen hext e p.id)
  | plugin type =>
    have hids : d.pads.map (·.id) = e.pads.map (·.id) :=
      PadState.map_id_of_plan (NodeEntry.plan_eq_iff.mp h.plan).2.2.2.1
    have hnd : (d.pads.map (·.id)).Nodup := hids ▸ hs.wellFormed.self.distinctPads e he
    rw [NodeEntry.behind_of_plugin hb, findPad_of_mem hnd hp] at hbroad ⊢
    exact hbroad.under_self

namespace AtRest

theorem declared_under_behind (he : e ∈ s.nodes) (hp : p ∈ e.pads) (hop : ¬ IsOperator p.id) :
    p.declared.Under (e.behind p.id) :=
  (hs.outcome hT he).declared_under_behind hT hs he hs.clean.self hs.seen hp hop

theorem broad_behind_pad (he : e ∈ s.nodes) {pad : String} (hop : ¬ IsOperator pad) :
    (e.behind pad).Broad :=
  (hs.outcome hT he).broad_behind hT hs he hs.clean.self hs.seen hop

/-- A linked pad sees something that is behind it. -/
theorem live_of_linked (he : e ∈ s.nodes) (hp : p ∈ e.pads) (hop : ¬ IsOperator p.id)
    (hlinked : ¬ s.Unlinked ⟨e.id, p.id⟩) :
    (e.behind p.id).intersect (s.seen external e p.id) ≠ some [] := by
  obtain ⟨c, hc, hne, hdecl, hseen⟩ := hs.exists_under_link hT he hp hop hlinked
  have hbehind := hs.broad_behind_pad hT he hop
  have hsees := hs.clean.self.broad_seen hs.seen e p.id
  have hbroad : p.declared.Broad := hs.clean.self.broad e he p hp hop
  have hunder : c.Under (e.behind p.id) := hdecl.trans (hs.declared_under_behind hT he hp hop)
    hc.toSlim hbroad.toSlim hbehind.toSlim
  exact (hunder.intersect hseen hc.toSlim hbehind.toSlim hsees.toSlim).ne_nil hne

/-- What proxies show inside fits, because the graph is live. So `External.Fits` is handed on from
depth to depth. -/
theorem fits_inside (hfits : external.Fits s) (he : e ∈ s.nodes)
    (hb : e.body = .subgraph id inner) :
    (externalOf e.pads (s.peerViews external e)).Fits inner := by
  intro f hf c hc hop hr hconnected
  have hwf := hs.wellFormed.self
  have hinner := (hs.wellFormed.body he _ _ hb).self
  have hset := hs.settledAt hT he
  obtain ⟨p, hp, hproxy⟩ : ∃ p ∈ e.pads, p.proxy = some ⟨f.id, c.id⟩ := by
    by_contra hnone
    rw [externalView_externalOf_of_ne fun p hp hpr => hnone ⟨p, hp, hpr⟩] at hconnected
    cases hconnected
  have hpid := hs.proxy_id hT he rfl hp hproxy
  rw [externalView_of_settled (hwf.distinctPads e he) hset hb hinner s external hp hproxy]
    at hconnected ⊢
  have hbehind : f.behind c.id = e.behind p.id := by
    rw [hpid, NodeEntry.behind_of_subgraph hb (hinner.validIds f hf).2.1,
      behind_of_mem hinner.distinctNodes hf]
  have hop' : ¬ IsOperator p.id := by
    rw [hpid]
    exact (isOperator_proxyPadId _).not.mpr hop
  rw [hbehind]
  by_cases hlinked : s.Unlinked ⟨e.id, p.id⟩
  · rw [peerView_unlinked hlinked] at hconnected ⊢
    exact hfits e he p hp hop' hlinked hconnected
  · rw [← seen_of_mem (hwf.distinctPads e he) hp]
    exact hs.live_of_linked hT he hp hop' hlinked

/-- A pad sees nothing, or something that is behind it: its links have agreed on it, or what is
seen from outside fits. -/
theorem seen_eq_none_or (hfits : external.Fits s) (he : e ∈ s.nodes) (hp : p ∈ e.pads)
    (hop : ¬ IsOperator p.id) : s.seen external e p.id = none ∨
      (e.behind p.id).intersect (s.seen external e p.id) ≠ some [] := by
  by_cases hlinked : s.Unlinked ⟨e.id, p.id⟩
  · rw [seen_of_mem (hs.wellFormed.self.distinctPads e he) hp, peerView_unlinked hlinked]
    cases hconnected : (externalView external ⟨e.id, p.id⟩).connected with
    | true => exact .inr (hfits e he p hp hop hlinked hconnected)
    | false =>
      rw [externalView_eq_default hconnected]
      exact .inl rfl
  · exact .inr (hs.live_of_linked hT he hp hop hlinked)

/-- What is seen from outside fits, so the graph is live. -/
theorem live (hfits : external.Fits s) : s.Live external := by
  induction n using Nat.strong_induction_on generalizing external s
  rename_i n ih
  intro e he p hp hop
  have hwf := hs.wellFormed.self
  rcases hs.seen_eq_none_or hT hfits he hp hop with hnone | hne
  swap
  · exact hne
  have hbehind := hs.broad_behind_pad hT he hop
  rw [hnone, hbehind.intersect_comm Constraints.broad_none, Constraints.none_intersect]
  have hset := hs.settledAt hT he
  cases hb : e.body with
  | plugin type =>
    have hdeclares : ∀ q ∈ e.pads, e.behind q.id = q.declared := by
      intro q hq
      rw [NodeEntry.behind_of_plugin hb, findPad_of_mem (hwf.distinctPads e he) hq,
        Option.bind_some]
    obtain ⟨specs, hspecs, -, hbare⟩ := hset
    obtain ⟨hspecs, -⟩ := (resolveBody_of_plugin hb).mp hspecs
    obtain ⟨spec, hspec, hmerged⟩ := exists_spec_of_settled hbare hp
    obtain ⟨value, hdecl, -⟩ := mergedPad_eq e.pads spec
    rw [hdecl] at hmerged
    have hid : spec.id = p.id := (PadState.bare_eq_iff.mp hmerged).1
    have hcs : spec.constraints = p.declared := (PadState.bare_eq_iff.mp hmerged).2.2.2.1
    rw [hdeclares p hp, ← hcs]
    refine (hs.nested.builtin hT he hb).ne_nil hspecs
      (hs.clean.self.broad_peerConstraints hs.seen e) hspec (hid ▸ hop)
      fun front hfront hmoves => ?_
    obtain ⟨q, hq, hqbare⟩ := exists_pad_of_settled hbare hfront
    obtain ⟨value, hdecl, -⟩ := mergedPad_eq e.pads front
    rw [hdecl] at hqbare
    have hqid : q.id = front.id := (PadState.bare_eq_iff.mp hqbare).1
    have hqcs : q.declared = front.constraints := (PadState.bare_eq_iff.mp hqbare).2.2.2.1
    have hqop : ¬ IsOperator q.id := hqid ▸ hmoves.not_isOperator
    have hsees := hs.seen_eq_none_or hT hfits he hq hqop
    rw [hdeclares q hq, hqid, hqcs] at hsees
    rw [view, peerConstraints_peerViews]
    exact hsees
  | subgraph id inner =>
    obtain ⟨m, rfl, hrest⟩ := hs.inside hT he hb
    have hinner := (hs.wellFormed.body he _ _ hb).self
    obtain ⟨c, r, hstands⟩ := mem_pads_of_settled hset hb hinner hp
    obtain ⟨f, hf, hfid, hc, hcid⟩ := pad?_eq_some hstands.pad
    obtain rfl : r = ⟨f.id, c.id⟩ := by rw [hfid, hcid]
    have hcop : ¬ IsOperator c.id := fun h => hop (hstands.id ▸ (isOperator_proxyPadId _).mpr h)
    have hlive := ih m m.lt_succ_self hrest (hs.fits_inside hT hfits he hb) f hf c hc hcop
    rw [hstands.id, NodeEntry.behind_of_subgraph hb (hinner.validIds f hf).2.1,
      behind_of_mem hinner.distinctNodes hf]
    intro hnil
    rw [hnil] at hlive
    exact hlive (Constraints.nil_under _)

/-- What a pad sees has nothing in common with what is behind it only if nothing is behind it. -/
theorem behind_eq_nil (hfits : external.Fits s) (he : e ∈ s.nodes) {pad : String}
    (hop : ¬ IsOperator pad)
    (hnil : (e.behind pad).intersect (s.seen external e pad) = some []) :
    e.behind pad = some [] := by
  cases hp : findPad pad e.pads with
  | none =>
    have hnone : s.seen external e pad = none := by
      rw [GraphState.seen, hp]
      rfl
    rwa [hnone, (hs.broad_behind_pad hT he hop).intersect_comm Constraints.broad_none,
      Constraints.none_intersect] at hnil
  | some p =>
    obtain ⟨hp', rfl⟩ := findPad_eq_some hp
    exact absurd hnil (hs.live hT hfits e he p hp' hop)

end AtRest

/-! ### Drafts above a graph at rest -/

namespace AtRest

/-- What the proxies of a node show inside, they show to pads without links. -/
theorem spares_inside (he : e ∈ s.nodes) (hb : e.body = .subgraph id inner)
    (peers : List (String × PeerView)) : (externalOf e.pads peers).Spares inner := by
  have hinner := (hs.wellFormed.body he _ _ hb).self
  have hquiet : ∀ r, ¬ inner.Unlinked r → externalView (externalOf e.pads peers) r = {} := by
    intro r hr
    refine externalView_externalOf_of_ne fun p hp hpr => hr ?_
    obtain ⟨c, r', hstands⟩ := mem_pads_of_settled (hs.settledAt hT he) hb hinner hp
    obtain rfl := Option.some.inj (hpr.symm.trans hstands.proxy)
    exact hinner.unlinked hstands.pad hstands.unlinked
  exact fun l hl => ⟨hquiet _ fun hr => (hr l hl).1 rfl, hquiet _ fun hr => (hr l hl).2 rfl⟩

/-- Where pads see more, more is shown to the pads inside that they stand for, so that drafts
inside are above again (`Over`). -/
theorem shown_inside (he : e ∈ s.nodes) (hb : e.body = .subgraph id inner) (t u : GraphState)
    (ext ext' : External) (hsee : ∀ p ∈ e.pads, p.proxy = some r →
      (t.seen ext e p.id).Under (u.seen ext' e p.id)) :
    (externalView (externalOf e.pads (t.peerViews ext e)) r).constraints.Under
      (externalView (externalOf e.pads (u.peerViews ext' e)) r).constraints := by
  have hnd := hs.wellFormed.self.distinctPads e he
  have hinner := (hs.wellFormed.body he _ _ hb).self
  by_cases hproxy : ∃ p ∈ e.pads, p.proxy = some r
  · obtain ⟨p, hp, hpr⟩ := hproxy
    have hset := hs.settledAt hT he
    rw [externalView_of_settled hnd hset hb hinner t ext hp hpr,
      externalView_of_settled hnd hset hb hinner u ext' hp hpr, ← seen_of_mem hnd hp,
      ← seen_of_mem hnd hp]
    exact hsee p hp hpr
  · have hne : ∀ p ∈ e.pads, p.proxy ≠ some r := fun p hp hpr => hproxy ⟨p, hp, hpr⟩
    rw [externalView_externalOf_of_ne hne, externalView_externalOf_of_ne hne]
    exact Constraints.under_none none

end AtRest

end

/-- A draft of the graph `s` that is above it (`GraphState.Above`), with no more links, and seen
from outside with more. -/
structure Over (T : String → NodeType → Prop) (n : Nat) (external external' : External)
    (s u : GraphState) : Prop extends Draft T n s u where
  links : u.links ⊆ s.links
  above : u.Above s
  seen : external'.Clean
  more : external'.Above external
  spares : external'.Spares s

section

variable (hT : ∀ name type, T name type → type.IsBuiltin) (hs : AtRest T config n external s)

include hT hs

namespace Over

variable (hu : Over T n external external' s u)

include hu

omit hT in
theorem peerView (r : PadRef) (p : PadState) : (s.peerView external r p).constraints.Under
    (u.peerView external' r p).constraints :=
  hu.above.peerView hu.nodes hs.clean.self hu.clean.self hs.joined hs.wellFormed.self.distinctNodes
    hu.links hs.seen hu.more hu.spares r p

omit hT in
theorem seen_under (e : NodeEntry) (pad : String) :
    (s.seen external e pad).Under (u.seen external' e pad) := by
  rw [GraphState.seen, GraphState.seen]
  cases findPad pad e.pads with
  | none => exact Constraints.under_none _
  | some p => exact hu.peerView hs _ p

omit hs hu in
/-- The graphs inside are over those inside of the graph at rest. -/
theorem inside {m : Nat} (hs : AtRest T config (m + 1) external s)
    (hu : Over T (m + 1) external external' s u) (he : s.nodes[i]? = some e)
    (hd : u.nodes[i]? = some d) (hde : d.plan = e.plan) (hb : e.body = .subgraph id inner) :
    ∃ inner', d.body = .subgraph id inner' ∧
      Over T m (externalOf e.pads (s.peerViews external e))
        (externalOf d.pads (u.peerViews external' d)) inner inner' := by
  have hmem := List.mem_of_getElem? he
  obtain ⟨inner', hb', hplan, hdraft⟩ := hu.toDraft.inside hs hmem (List.mem_of_getElem? hd) hde hb
  refine ⟨inner', hb', hdraft, (links_of_plan hplan) ▸ List.Subset.refl _,
    (padwise_iff.mp hu.above i e d he hd).inside _ _ _ _ hb hb', ?_, ?_, ?_⟩
  · exact hu.clean.self.clean_externalOf hu.seen fun _ hp _ => hs.proxy_id hT hmem hde hp
  · rw [externalOf_of_plan u external' hde]
    exact fun r => hs.shown_inside hT hmem hb s u _ _ fun p _ _ => hu.seen_under hs e p.id
  · rw [externalOf_of_plan u external' hde]
    exact hs.spares_inside hT hmem hb _

/-- What resolution makes of one node is above it: built-in types are monotone
(`IsBuiltin.spec_under`), and for a subgraph there is the induction on the depth. -/
theorem padwise_of_resolveNode (hfits : external.Fits s)
    (he : s.nodes[i]? = some e) (hd : u.nodes[i]? = some d) (hde : d.plan = e.plan)
    (hin : ∀ m ext ext' g g₁ g₂, n = m + 1 → AtRest T config m ext g → ext.Fits g →
      Over T m ext ext' g g₁ → reconcileWithin config m ext' g₁ = .ok g₂ → g₂.Above g)
    (hnode : resolveNode (innerResolver config n) external' u d = .ok (d', changed))
    (hplan : d'.plan = e.plan)
    (hrest : d'.body.Inside fun g => ∃ m, n = m + 1 ∧
      AtRest T config m (externalOf d.pads (u.peerViews external' d)) g) :
    d'.Padwise PadState.Above e := by
  have hmem := List.mem_of_getElem? he
  refine (hs.outcome hT hmem).above hT hs hmem (outcome_of_resolveNode hde hplan hrest hnode)
    hs.clean.self hs.seen hu.clean.self hu.seen (hu.seen_under hs e)
    (fun pad hop => hs.behind_eq_nil hT hfits hmem hop) ?_
  · intro id₁ id₂ inner₁ inner₂ hb₁ hb₂
    obtain ⟨specs, body, hbody, -, hd', -⟩ := resolveNode_eq_ok hnode
    obtain rfl : body = .subgraph id₂ inner₂ := by
      rw [← hb₂, hd']
    obtain ⟨inner, hb, hr, -⟩ := exists_of_resolveBody hbody
    obtain ⟨m, rfl, hinner⟩ := hs.inside hT hmem hb₁
    obtain ⟨inner', hb', hover⟩ := hu.inside hT hs he hd hde hb₁
    obtain ⟨-, rfl⟩ := Body.subgraph.inj (hb.symm.trans hb')
    exact hin m _ _ _ _ _ rfl hinner (hs.fits_inside hT hfits hmem hb₁) hover hr

end Over

/-- What comes of a draft above a graph at rest is above it. Nodes, passes and the graphs inside
keep this, and a draft that is above stays above when links are pruned. -/
theorem AtRest.above (hfits : external.Fits s) (ht : Over T n external external' s t)
    (h : reconcileWithin config n external' t = .ok t') : t'.Above s := by
  induction n using Nat.strong_induction_on generalizing external external' s t t'
  rename_i n ih
  obtain ⟨u, -, -, hu, hbare⟩ := ht.toDraft.invariant hT (I := fun u => u.Above s) hs ht.seen
    (fun u i e d d' changed hu hul hua he hd hde hnode hplan hrest => hua.set he <|
      Over.padwise_of_resolveNode hT hs
        ⟨hu, hul ▸ ht.links, hua, ht.seen, ht.more, ht.spares⟩ hfits he hd hde
        (by
          rintro m ext ext' g g₁ g₂ rfl hg hgf hg₁ hr
          exact ih m m.lt_succ_self hg hgf hg₁ hr)
        hnode hplan hrest) ht.above h
  exact hu.of_nodes (bare_eq_iff.mp hbare).1

/-! ### Narrowing -/

/-- On the pads with links, the constraints are not below those of the graph `s`. It is the
invariant of the rounds of narrowing. -/
def Bears (s u : GraphState) : Prop :=
  ∀ l ∈ u.links, ∀ r, r = l.source ∨ r = l.sink → ∀ p q, s.pad? r = some p → u.pad? r = some q →
    p.effective.Under q.effective

omit hT in
theorem Over.joined (hu : Over T n external external' s u) : u.Joined :=
  ⟨fun l hl => isSound_of_plan hu.nodes (hu.sound l hl),
    fun k hk l hl => hs.joined.once k (hu.links hk) l (hu.links hl)⟩

theorem bears_startNarrowing (hu : Over T n external external' s u) :
    s.Bears (u.startNarrowing external') := by
  intro l hl r hr p q' hp hq'
  have hop := hs.clean.self.not_isOperator_of_link (hu.links hl) hr
  have hquiet : externalView external' r = {} := by
    obtain ⟨hsource, hsink⟩ := hu.spares l (hu.links hl)
    rcases hr with rfl | rfl
    · exact hsource
    · exact hsink
  rw [pad?_startNarrowing] at hq'
  obtain ⟨q, hq, rfl⟩ := Option.map_eq_some_iff.mp hq'
  obtain ⟨-, -, -, -, hqid⟩ := pad?_eq_some hq
  obtain ⟨-, -, -, -, hpid⟩ := pad?_eq_some hp
  obtain ⟨hdecl, heff, hunder⟩ := hs.narrows hT r p hp hop
  have habove := hu.above.pad? (ids_of_plan hu.nodes) hs.wellFormed.self.distinctNodes hp hq
    (hpid ▸ hop)
  have hbroad : q.declared.Broad :=
    hu.clean.self.broad_declared? hop (congrArg (Option.map PadState.declared) hq)
  rw [startOf_eq, hqid, hquiet, Constraints.narrowedBy_none]
  exact hunder.trans habove heff.toSlim hdecl.toSlim hbroad.toSlim

/-- What the ends of a link have in common is not below what they have in common at rest. -/
theorem under_intersect_of_bears (hbears : s.Bears u) (hnarrows : u.Narrows) (hl : l ∈ u.links)
    (hlinks : u.links ⊆ s.links) (hp : u.pad? l.source = some p) (hq : u.pad? l.sink = some q) :
    ∃ a b, s.pad? l.source = some a ∧ s.pad? l.sink = some b ∧ a.effective = b.effective ∧
      a.effective ≠ some [] ∧ a.effective.Under (p.effective.intersect q.effective) := by
  obtain ⟨a, b, ha, hb, heq, hne⟩ := hs.effective_link hT (hlinks hl)
  obtain ⟨hop, hop'⟩ := hs.clean.self.unlinked l (hlinks hl)
  have hle := hbears l hl _ (.inl rfl) a p ha hp
  have hle' := hbears l hl _ (.inr rfl) b q hb hq
  rw [← heq] at hle'
  exact ⟨a, b, ha, hb, heq, hne, hle.intersect hle' (hs.narrows hT _ a ha hop).2.1.toSlim
    (hnarrows _ p hp hop).2.1.toSlim (hnarrows _ q hq hop').2.1.toSlim⟩

theorem bears_narrowLink (hbears : s.Bears u) (hnarrows : u.Narrows) (hjoined : u.Joined)
    (hlinks : u.links ⊆ s.links) (hl : l ∈ u.links)
    (h : u.narrowLink l = .ok (t, changed)) : s.Bears t := by
  have hsame : t.links = u.links := (bare_eq_iff.mp (bare_narrowLink h)).2
  intro k hk r hr p q' hp hq'
  rcases pad?_narrowLink (hjoined.source_ne_sink hl hl) h hq' with hq |
    ⟨a, b, ha, hb, hends⟩
  · exact hbears k (hsame ▸ hk) r hr p q' hp hq
  · obtain ⟨a', b', ha', hb', heq, -, hunder⟩ :=
      under_intersect_of_bears hT hs hbears hnarrows hl hlinks ha hb
    rcases hends with ⟨rfl, rfl⟩ | ⟨rfl, rfl⟩
    · obtain rfl := Option.some.inj (hp.symm.trans ha')
      exact hunder
    · obtain rfl := Option.some.inj (hp.symm.trans hb')
      exact heq ▸ hunder

/-- Narrowing a draft above a graph at rest does not fail: at each link something is left, because
the graph at rest has agreed on something there. -/
theorem Over.narrow (hu : Over T n external external' s u) :
    ∃ u', u.narrow external' = .ok u' := by
  have hjoined := hu.joined hs
  have hclean := hu.clean.self
  have hstart : u.Narrowed (u.startNarrowing external') := by
    refine ⟨bare_startNarrowing u external', fun l hl r hr a ha => ?_⟩
    obtain ⟨p, hp, rfl⟩ := Option.map_eq_some_iff.mp ha
    exact (narrows_startNarrowing hclean hu.seen r p hp
      (hclean.not_isOperator_of_link hl hr)).2.1.toSlim
  refine (hstart.narrow_cases hjoined).resolve_right ?_
  rintro ⟨k, err, hrefused, -⟩
  refine narrowRounds_refused (Q := fun _ => False)
    (I := fun v => v.bare = u.bare ∧ v.Narrows ∧ s.Bears v) ?_ ?_ ?_ hrefused
  · rintro v l v' changed hl ⟨hbare, hnarrows, hbears⟩ hstep
    have hlinks : v.links ⊆ s.links := (bare_eq_iff.mp hbare).2 ▸ hu.links
    exact ⟨(bare_narrowLink hstep).trans hbare,
      hnarrows.narrowLink (hjoined.of_bare hbare) (hclean.of_bare hbare) hl hstep,
      bears_narrowLink hT hs hbears hnarrows (hjoined.of_bare hbare) hlinks hl hstep⟩
  · rintro v l err hl ⟨hbare, hnarrows, hbears⟩ hstep
    have hlinks : v.links ⊆ s.links := (bare_eq_iff.mp hbare).2 ▸ hu.links
    rw [GraphState.narrowLink] at hstep
    split at hstep
    · rename_i p q hp hq
      dsimp only at hstep
      split at hstep
      · rename_i hempty
        obtain ⟨a, b, -, -, -, hne, hunder⟩ :=
          under_intersect_of_bears hT hs hbears hnarrows hl hlinks hp hq
        exact hunder.ne_nil hne (Constraints.isIncompatible_iff.mp hempty)
      · cases hstep
    · cases hstep
  · exact ⟨bare_startNarrowing u external', narrows_startNarrowing hclean hu.seen,
      bears_startNarrowing hT hs hu⟩

end

end GraphState

end Patchbay
