import Patchbay.Proofs.Graph.Sights
import Patchbay.Proofs.Graph.Groups
import Patchbay.Proofs.Graph.Retreat
import Patchbay.Proofs.Graph.Retracing
import Patchbay.Proofs.Graph.RoundTrip

/-!
# Disconnecting

To link a source to a sink that nothing feeds, and to unlink the two again, leaves the graph as it
was, if the link is clear of subgraphs, or can be traced (`Graph.disconnect_connect_run`).

* A link is clear (`GraphState.Clear`) if no type goes along it to a subgraph or to a sink beside
  one. Then all that changes is what pads see, and that goes back from pad to pad
  (`GraphState.settle_retreat`). Cycles do no harm here.
* A link can be traced (`GraphState.Traceable`) if there is a timetable for what it reaches, also
  inside the subgraphs that it goes to or comes from. Then the graph with the link is a ceiling for
  the one without, and what the link has brought is gone in time (`GraphState.Linked.reconcile`).
  In graphs whose links lead forward at every depth this is so for all links but those to operators
  (`GraphState.traceable_of_forward`, `Graph.traceable_run`).

A subgraph that feeds another one may spoil this: its sources take their types from the pads that
they feed, so that a type that came in with the link can keep itself alive when the link is gone
(`GraphState.disconnected_wrappings`).
-/

/-!
## Operands in narrowed graphs

An operand of a compare is declared with what feeds the other operand. So where narrowing succeeds,
the operands have something in common (`operand_ne_nil`).
-/

namespace Patchbay.GraphState

variable {R : InnerResolver} {s s' t t' : GraphState} {l : Link} {r : PadRef} {e : NodeEntry}
  {p q : PadState} {spec : PadSpec} {id : String} {changed : Bool}

theorem groupTypes_of_narrow (hs : s.Joined) (h : s.narrow [] = .ok s') : s.GroupTypes s' := by
  rw [narrow] at h
  split at h
  · rename_i hsettled
    cases h
    exact (narrowRounds_groups hs _).1 s' hsettled
  · cases h
  · cases h

/-- Where a pad was declared without a menu, none comes in. -/
theorem menuless_of_narrow (hs : s.Joined) (hq : s.pad? r = some q) (hmenu : q.declared.Menuless)
    (h : s.narrow [] = .ok s') (hp : s'.pad? r = some p) : p.effective.Menuless := by
  refine (narrow_invariant
    (I := fun t => t.bare = s.bare ∧ ∀ p, t.pad? r = some p → p.effective.Menuless)
    (fun t l t' changed hl ⟨hbare, ht⟩ hstep => ⟨(bare_narrowLink hstep).trans hbare,
      fun p' hp' => ?_⟩)
    ⟨bare_startNarrowing s [], fun p hp => ?_⟩ h).1.2 p hp
  · have hmem : l ∈ s.links := (bare_eq_iff.mp hbare).2 ▸ hl
    rcases pad?_narrowLink (hs.source_ne_sink hmem hmem) hstep hp' with
      hp' | ⟨a, b, ha, hb, ⟨rfl, rfl⟩ | ⟨rfl, rfl⟩⟩
    · exact ht p' hp'
    · exact .intersect (.inl (ht a ha))
    · exact .intersect (.inr (ht b hb))
  · rw [pad?_startNarrowing, hq] at hp
    cases hp
    exact hmenu

/-- The ends of a link permit something in common, if its sink has no menu: narrowing has left
something to them, and no slim shape is empty (`Slim.exists_permits`). -/
theorem exists_permits_of_narrow (hs : s.Joined) (hslim : s.PadsIn Constraints.Slim)
    (h : s.narrow [] = .ok s') (hl : l ∈ s.links) (hp : s.pad? l.source = some p)
    (hq : s.pad? l.sink = some q) (hmenu : q.declared.Menuless) :
    ∃ k : Constraint.Kind, k.Extensional ∧ ∃ v : Json, v ≠ .null ∧ p.declared.permitsAs k v =
    true ∧ q.declared.permitsAs k v = true := by
  have htypes := groupTypes_of_narrow hs h
  obtain ⟨p', q', hp', hq', hsame, -, hne⟩ := htypes.ends l hl
  have hslim' : q'.effective.Slim :=
    ((hslim.narrow (fun _ _ => Constraints.Slim.intersect) (by simp [External.In]) h).pad hq').2
  obtain ⟨cs, hcs, hkinds⟩ := menuless_of_narrow hs hq hmenu h hq'
  obtain ⟨k, hk, v, hv, hpermits⟩ := hslim'.exists_permits hne fun hempty => by
    rw [hempty, Option.some.injEq] at hcs
    exact hkinds (.enumeration []) (hcs ▸ List.mem_cons_self) rfl
  rw [htypes.exact _ _ hq' k hk v hv, groupPermits_iff] at hpermits
  refine ⟨k, hk, v, hv, hpermits _ ?_ p hp, hpermits _ (mem_group_self s _) q hq⟩
  rw [hs.group_sink hl]
  exact hs.group_source hl ▸ List.mem_cons_self

/-- What feeds a pad, and the pad, permit something in common, if the pad has no menu. -/
theorem Joined.exists_permits (hs : s.Joined) (hslim : s.PadsIn Constraints.Slim)
    (h : s.narrow [] = .ok s') (hnd : (s.nodes.map (·.id)).Nodup) (he : e ∈ s.nodes)
    {type : NodeType}
    (hstands : e.Stands type fun id => s.sight ⟨e.id, id⟩) {fed : PadRef}
    (hspec : spec ∈ e.declaresUnder fun id => s.sight ⟨e.id, id⟩)
    (hfed : s.feeder ⟨e.id, spec.id⟩ = some fed) (hmenu : spec.constraints.Menuless) :
    ∃ k : Constraint.Kind, k.Extensional ∧ ∃ v : Json, v ≠ .null ∧
      (s.sight ⟨e.id, spec.id⟩).permitsAs k v = true ∧ spec.constraints.permitsAs k v = true := by
  have hlink := feeder_eq_some hfed
  obtain ⟨p, -, hp, -⟩ := hs.ends hlink
  obtain ⟨q, hq, hid, -⟩ := hstands.exists_pad hspec
  have hdecl : q.declared = spec.constraints := (hstands.declaredBy hq hspec hid).constraints
  have hpad : s.pad? ⟨e.id, spec.id⟩ = some q := by
    rw [pad?_of_mem hnd he, ← hid, findPad_of_mem hstands.nodup_pads hq]
  have hsight : s.sight ⟨e.id, spec.id⟩ = p.declared := by
    rw [sight, hfed, Option.bind_some, declared?, hp]
    rfl
  rw [hsight, ← hdecl]
  exact exists_permits_of_narrow hs hslim h hlink hp hpad (hdecl ▸ hmenu)

/-- In a graph that can be narrowed the operands of a compare have something in common
(`Compare.operand`), so that the compare has a menu only where one kind is left. -/
theorem operand_ne_nil (hs : s.Joined) (hslim : s.PadsIn Constraints.Slim)
    (h : s.narrow [] = .ok s')
    (hnd : (s.nodes.map (·.id)).Nodup) (he : e ∈ s.nodes)
    (hstands : e.Stands Compare.nodeType fun id => s.sight ⟨e.id, id⟩) :
    Compare.operand (e.viewUnder fun id => s.sight ⟨e.id, id⟩) ≠ some [] := by
  have hresolve := hstands.resolve_declaresUnder fun id => s.sight ⟨e.id, id⟩
  have hseen : ∀ spec ∈ e.declaresUnder fun id => s.sight ⟨e.id, id⟩,
      (e.viewUnder fun id => s.sight ⟨e.id, id⟩).peerConstraints spec.id = s.sight
      ⟨e.id, spec.id⟩ := by
    intro spec hspec
    obtain ⟨q, hq, hid, -⟩ := hstands.exists_pad hspec
    rw [NodeEntry.peerConstraints_viewUnder, ← hid, findPad_of_mem hstands.nodup_pads hq]
    rfl
  have hunfed : ∀ {id}, s.feeder ⟨e.id, id⟩ = none → s.sight ⟨e.id, id⟩ = none := by
    intro id hid
    rw [sight, hid]
    rfl
  obtain ⟨left, hleft, hleftid, hleftdecl⟩ : ∃ spec ∈ e.declaresUnder fun id => s.sight ⟨e.id, id⟩,
      spec.id = Compare.left ∧ spec.constraints = Compare.comparable.intersect
        ((e.viewUnder fun id => s.sight ⟨e.id, id⟩).peerConstraints Compare.right) := by
    rw [← Except.ok.inj hresolve]
    exact ⟨_, List.mem_cons_self, rfl, rfl⟩
  obtain ⟨right, hright, hrightid, hrightdecl⟩ :
    ∃ spec ∈ e.declaresUnder fun id => s.sight ⟨e.id, id⟩,
      spec.id = Compare.right ∧ spec.constraints = Compare.comparable.intersect
        ((e.viewUnder fun id => s.sight ⟨e.id, id⟩).peerConstraints Compare.left) := by
    rw [← Except.ok.inj hresolve]
    exact ⟨_, List.mem_cons_of_mem _ List.mem_cons_self, rfl, rfl⟩
  have hmenuless : ∀ cs, (Compare.comparable.intersect cs).Menuless := fun _ =>
    .intersect (.inl Compare.menuless_comparable)
  cases hl : s.feeder ⟨e.id, Compare.left⟩ with
  | some fed =>
    obtain ⟨k, hk, v, hv, hfed, hpermits⟩ :=
      hs.exists_permits hslim h hnd he hstands hleft (hleftid ▸ hl) (hleftdecl ▸ hmenuless _)
    rw [hleftdecl, Constraints.permitsAs_intersect hk hv, Bool.and_eq_true] at hpermits
    exact Compare.operand_ne_nil hk hv hpermits.1 (hleftid ▸ (hseen left hleft).symm ▸ hfed)
      hpermits.2
  | none =>
    cases hr : s.feeder ⟨e.id, Compare.right⟩ with
    | some fed =>
      obtain ⟨k, hk, v, hv, hfed, hpermits⟩ :=
        hs.exists_permits hslim h hnd he hstands hright (hrightid ▸ hr) (hrightdecl ▸ hmenuless _)
      rw [hrightdecl, Constraints.permitsAs_intersect hk hv, Bool.and_eq_true] at hpermits
      exact Compare.operand_ne_nil hk hv hpermits.1 hpermits.2
        (hrightid ▸ (hseen right hright).symm ▸ hfed)
    | none =>
      have hleft' := hleftid ▸ hseen left hleft
      have hright' := hrightid ▸ hseen right hright
      rw [Compare.operand, hleft', hright', hunfed hl, hunfed hr]
      intro hnil
      cases hnil

end Patchbay.GraphState

/-! ## Disconnecting -/

namespace Patchbay

namespace GraphState

variable {R : InnerResolver} {config : EngineConfig} {s u a b : GraphState} {l : Link}
  {e : NodeEntry}

/-- A resolved graph of built-in nodes and subgraphs, with slim constraints. It is what the state
is after any operations (`Graph.rested_run`). -/
structure Rested (R : InnerResolver) (s : GraphState) : Prop extends Reconciled R [] s where
  distinct : (s.nodes.map (·.id)).Nodup
  joined : s.Joined
  builtin : ∀ e ∈ s.nodes, ∀ t, e.body = .plugin t → t.IsBuiltin
  slim : s.PadsIn Constraints.Slim

theorem Rested.linkable (h : Rested R s) (hsource : (s.pad? l.source).any (·.isSource) = true)
    (hsink : (s.pad? l.sink).any (!·.isSource) = true) (hfree : s.feeder l.sink = none)
    (hclear : s.Clear l) : Linkable R s l where
  distinct := h.distinct
  settled := h.settled
  builtin := h.builtin
  slim r a ha := by
    obtain ⟨p, hp, rfl⟩ := Option.map_eq_some_iff.mp ha
    exact (h.slim.pad hp).1
  joined := h.joined
  source := hsource
  sink := hsink
  free := hfree
  clear := hclear

/-- Without subgraphs every link is clear of them. -/
theorem clear_of_flat (hflat : ∀ e ∈ s.nodes, e.isSubgraph = false) (l : Link) : s.Clear l := by
  intro e he hsub
  rw [hflat e he] at hsub
  cases hsub

section

variable {seen : Sights} (hb : b.bare = (s.under seen).bare)

include hb

theorem ids_of_under : b.nodes.map (·.id) = s.nodes.map (·.id) :=
  (ids_of_bare (bare_eq_iff.mp hb).1).trans (ids_under s seen)

theorem length_of_under : b.nodes.length = s.nodes.length := by
  simpa only [List.length_map] using congrArg List.length (ids_of_under hb)

theorem dependencyOrder_of_under : b.dependencyOrder = s.dependencyOrder :=
  dependencyOrder_congr (ids_of_under hb) (bare_eq_iff.mp hb).2

end

theorem complete_of_under {seen : Sights} {on : Bool}
    (hb : b.bare = ((s.wire l on).under seen).bare) :
    s.Complete b.dependencyOrder := by
  obtain ⟨hnd, hmem, -⟩ := feeding_dependencyOrder b
  have hlen : b.nodes.length = (s.wire l on).nodes.length := length_of_under hb
  exact ⟨hnd, fun i hi => (hmem i).mpr (hlen ▸ hi)⟩

/-- How resolution ends: the passes have settled, and narrowing has changed effective constraints
only. -/
theorem exists_settle_of_reconcileWith (h : reconcileWith R config [] a = .ok u) :
    ∃ a', settle (pass R [] a.dependencyOrder) (config.passLimit a.nodes.length) a =
    .ok (some a') ∧ u.bare = a'.bare := by
  rw [reconcileWith] at h
  split at h
  · cases h
  · cases h
  · rename_i a' hsettle
    obtain ⟨t, ht, rfl⟩ := map_eq_ok_iff.mp h
    exact ⟨a', hsettle, (bare_markResolved t).trans (narrow_agrees ht).1⟩

namespace Linkable

variable (h : Linkable R s l)

include h

/-- Once the type of the source has come to all sinks, that is what they see. -/
theorem sight_under_filled : ((s.wire l true).under (s.filled l)).sight = s.filled l := by
  refine (h.spread_sight_under (spread_filled s l)).eq_of_carries (spread_filled s l)
    fun q hq => ?_
  rw [filled_of_carries hq]
  cases hq with
  | start => exact h.sight_under_sink (spread_filled s l)
  | relay he hrelay hlink hin => rw [h.sight_under_relay he hrelay hlink, filled_of_carries hin]

/-- In the resolved graph with the link, the operands of every compare have something in common. -/
theorem operand_filled_ne_nil (hu : Rested R u)
    (hbare : u.bare = ((s.wire l true).under (s.filled l)).bare)
    (he : e ∈ s.nodes) (hb : e.body = .plugin Compare.nodeType) :
    Compare.operand (e.viewUnder fun id => s.filled l ⟨e.id, id⟩) ≠ some [] := by
  have hstands := h.stands he hb
  obtain ⟨d, hd, hde⟩ :
    ∃ d ∈ u.nodes, d.bare = (e.under fun id => s.filled l ⟨e.id, id⟩).bare := by
      refine List.mem_map.mp ((bare_eq_iff.mp hbare).1 ▸ List.mem_map_of_mem ?_)
      exact List.mem_map_of_mem (f := fun e => e.under fun id => s.filled l ⟨e.id, id⟩) he
  obtain ⟨hid, -, -, hpads, hbody⟩ := NodeEntry.bare_eq_iff.mp hde
  rw [NodeEntry.under_id] at hid
  rw [NodeEntry.under_body, hb] at hbody
  obtain ⟨t, ht, -⟩ := map_eq_ok_iff.mp hu.narrowed
  have hne := operand_ne_nil hu.joined hu.slim ht hu.distinct hd
    ((hu.settled d hd).stands hbody (hu.builtin d hd _ hbody))
  have hsight : u.sight = s.filled l := (sight_of_bare hbare).trans h.sight_under_filled
  have hseen : ∀ id, (d.viewUnder fun id => u.sight ⟨d.id, id⟩).peerConstraints id =
      (e.viewUnder fun id => s.filled l ⟨e.id, id⟩).peerConstraints id := by
    intro id
    have hpad : (findPad id d.pads).isSome = (findPad id e.pads).isSome := by
      have hold := congrArg Option.isSome
        (hstands.padType_under (fun id => s.filled l ⟨e.id, id⟩) id)
      have hnew := congrArg (fun pads => (findPad id pads).isSome) hpads
      simp only [findPad_bare, Option.isSome_map] at hold hnew
      exact hnew.trans hold
    rw [NodeEntry.peerConstraints_viewUnder, NodeEntry.peerConstraints_viewUnder, hpad, hsight,
      hid]
  rwa [Compare.operand, hseen, hseen] at hne

/-- Right after connecting the pads are as the sinks saw things without the link (`under`), for
only the table of links has changed. -/
theorem bare_connected (ha : a.bare = { s.bare with links := insertLink l s.links }) :
    a.bare = ((s.wire l true).under s.sight).bare := by
  obtain ⟨hnodes, hlinks⟩ := GraphState.mk.inj ha
  exact bare_eq_iff.mpr ⟨hnodes.trans (bare_eq_iff.mp h.under_sight).1.symm, hlinks⟩

/-- Right after disconnecting the pads are as the sinks saw things with the link. -/
theorem bare_disconnected (hu : u.bare = ((s.wire l true).under (s.filled l)).bare)
    (hb : b.bare = { u.bare with links := u.links.filter fun k => k.sink != l.sink }) :
    b.bare = ((s.wire l false).under (s.filled l)).bare := by
  obtain ⟨hnodes, hlinks⟩ := GraphState.mk.inj hb
  obtain ⟨hunodes, hulinks⟩ := bare_eq_iff.mp hu
  refine bare_eq_iff.mpr ⟨hnodes.trans hunodes, hlinks.trans ?_⟩
  rw [hulinks]
  exact filter_wired h.free

/-- Connecting leaves all sinks that the link is carried to (`Carries`) with the type of its
source. -/
theorem bare_of_connect (ha : a.bare = ((s.wire l true).under s.sight).bare)
    (hconnect : reconcileWith R config [] a = .ok u) :
    u.bare = ((s.wire l true).under (s.filled l)).bare := by
  obtain ⟨a', hsettle, hbare⟩ := exists_settle_of_reconcileWith hconnect
  exact hbare.trans (h.settle_filled (complete_of_under ha) h.rising_sight ha hsettle)

/-- What connecting has made of a graph, disconnecting resolves to the graph before: the passes go
back from what the link has brought to what was seen without it (`settle_retreat`). -/
theorem reconcileWith_disconnect (hs : Reconciled R [] s) (hu : Rested R u)
    (ha : a.bare = ((s.wire l true).under s.sight).bare)
    (hconnect : reconcileWith R config [] a = .ok u)
    (hb : b.bare = ((s.wire l false).under (s.filled l)).bare) :
    reconcileWith R config [] b = .ok s := by
  obtain ⟨a', hsettle, -⟩ := exists_settle_of_reconcileWith hconnect
  have hcommon :=
    fun e he hc => h.operand_filled_ne_nil (e := e) hu (h.bare_of_connect ha hconnect) he hc
  have hbefore : ∀ j i, (j, i) ∈ s.nodeEdges → Before a.dependencyOrder j i →
      Before b.dependencyOrder j i := by
    have hwired : (s.wire l true).links = s.wired l true := rfl
    have hsub : (s.wire l false).links ⊆ (s.wire l true).links := subset_of_wired hwired h.free
    rw [dependencyOrder_of_under ha, dependencyOrder_of_under hb]
    exact fun j i => before_of_subset rfl hsub
  obtain ⟨b', hsettle', hbare⟩ := h.settle_retreat hcommon hs.reads (complete_of_under ha)
    (complete_of_under hb)
    hbefore h.rising_sight (spread_filled s l)
    (fun q hq => .inl (h.sight_of_carries hq)) ha hb hsettle
  have hlen : b.nodes.length = a.nodes.length :=
    (length_of_under hb).trans (length_of_under ha).symm
  rw [reconcileWith, hlen, hsettle']
  exact (narrow_congr hbare).trans hs.narrowed

end Linkable

/-- To disconnect what has been connected, and to resolve the graph, is to have the graph before,
if the link is clear of subgraphs (`Clear`). -/
theorem Rested.reconcile_disconnect {source sink : PadRef}
    (hs : s.Rested (innerResolver config s.depth))
    (hsource : (s.pad? source).any (·.isSource) = true) (hfree : s.feeder sink = none)
    (hclear : s.Clear ⟨source, sink⟩) (hlink : s.connect source sink = .ok (a, l))
    (hresolve : reconcile config [] a = .ok u) (hu : u.Rested (innerResolver config u.depth)) :
    ∃ b, u.disconnect source sink = .ok b ∧ reconcile config [] b = .ok s := by
  obtain ⟨horient, ha⟩ := connect_eq_ok hlink
  have hsink := sink_of_orient hsource horient
  obtain rfl := Except.ok.inj (horient.symm.trans (orient_eq_ok hsource hsink))
  have h := hs.linkable hsource hsink hfree hclear
  have hstart := h.bare_connected ha
  -- both edits are resolved to the depth of the graph before
  have hadepth : a.depth = s.depth := depth_of_nodes (GraphState.mk.inj ha).1
  have hudepth : u.depth = s.depth := (depth_reconcileWithin hresolve).trans hadepth
  rw [hudepth] at hu
  rw [reconcile, hadepth, reconcileWithin_eq] at hresolve
  have hfull := h.bare_of_connect hstart hresolve
  have hlinked : ⟨source, sink⟩ ∈ u.links := by
    rw [(bare_eq_iff.mp hfull).2]
    exact mem_insertLink_self _ _
  obtain ⟨p, q, hp, hq, hps, hqs⟩ := hu.joined.ends hlinked
  obtain ⟨b, hunlink, hb⟩ := disconnect_eq_ok
    (orient_eq_ok (by rw [hp]; exact hps) (by rw [hq, Option.any_some, hqs]; rfl))
    (hu.joined.feeder_sink hlinked)
  have hbdepth : b.depth = s.depth := (depth_of_nodes (GraphState.mk.inj hb).1).trans hudepth
  refine ⟨b, hunlink, ?_⟩
  rw [reconcile, hbdepth, reconcileWithin_eq]
  exact h.reconcileWith_disconnect hs.toReconciled hu hstart hresolve
    (h.bare_disconnected hfull hb)

/-- So it is if the link can be traced (`Traceable`): `AtRest.linked` for the way there,
`Linked.reconcile` for the way back. -/
theorem AtRest.reconcile_disconnect {T : String → NodeType → Prop} {source sink : PadRef}
    (hT : ∀ name type, T name type → type.IsBuiltin) (hs : AtRest T config s.depth [] s)
    (hsource : (s.pad? source).any (·.isSource) = true) (hfree : s.feeder sink = none)
    (htrace : s.Traceable config ⟨source, sink⟩) (hlink : s.connect source sink = .ok (a, l))
    (hresolve : reconcile config [] a = .ok u) :
    ∃ b, u.disconnect source sink = .ok b ∧ reconcile config [] b = .ok s := by
  obtain ⟨horient, hbare⟩ := connect_eq_ok hlink
  have hsink := sink_of_orient hsource horient
  obtain rfl := Except.ok.inj (horient.symm.trans (orient_eq_ok hsource hsink))
  obtain ⟨hnodes, hlinks⟩ := GraphState.mk.inj hbare
  have hsound : s.isSound ⟨source, sink⟩ = true := Bool.and_eq_true_iff.mpr ⟨hsink, hsource⟩
  have hadepth : a.depth = s.depth := depth_of_nodes hnodes
  have hudepth : u.depth = s.depth := (depth_reconcileWithin hresolve).trans hadepth
  rw [reconcile, hadepth] at hresolve
  obtain ⟨L, htimed, hstirs, hinside⟩ := htrace.timed
  have hu := hs.linked hT hfree htimed hstirs hinside hsound htrace.ends hnodes hlinks
    (orderly_connect hs.nested.2 hlink) hresolve
  have hlinked : ⟨source, sink⟩ ∈ u.links := by
    rw [hu.links]
    exact mem_insertLink_self _ _
  obtain ⟨p, q, hp, hq, hps, hqs⟩ := hu.rest.joined.ends hlinked
  obtain ⟨b, hunlink, hb⟩ := disconnect_eq_ok
    (orient_eq_ok (by rw [hp]; exact hps) (by rw [hq, Option.any_some, hqs]; rfl))
    (hu.rest.joined.feeder_sink hlinked)
  obtain ⟨hbnodes, hblinks⟩ := GraphState.mk.inj hb
  have hbdepth : b.depth = s.depth := (depth_of_nodes hbnodes).trans hudepth
  refine ⟨b, hunlink, ?_⟩
  rw [reconcile, hbdepth]
  refine hu.reconcile hT hs hfree htimed hstirs hinside hbnodes ?_
    (orderly_disconnect hu.rest.nested.2 hunlink)
  rw [hblinks]
  exact (congrArg _ hu.links).trans (filter_wired hfree)

end GraphState

namespace Graph

variable {library : Library} {config : EngineConfig} {g g' : Graph}

/-- After any operations on a new graph of built-in nodes the state is at rest. -/
theorem rested_run (hlib : library.types = Library.builtins.types) (config : EngineConfig)
    (ops : List Operation) (hg : (Graph.new library config).run ops = g) :
    g.state.Rested (GraphState.innerResolver config g.state.depth) := by
  subst hg
  have hin : (Graph.new library config).library.In library.Has := fun _ _ ht => ht
  obtain ⟨hsane, hfixed⟩ := sane_resolved_run hlib config ops
  have hslim := sane_run (Regime.slim (library.isBuiltin_of_has hlib)) hin sane_empty ops
  have hext := External.in_nil Constraints.Plain
  have hwf := hsane.wellFormed.self
  have horderly := hsane.orderly.self
  refine ⟨GraphState.reconciled_of_reconcileWithin (Library.tame_of_has hlib) hext
    ⟨Nat.le_refl _, hsane.orderly⟩
    hfixed, hwf.distinctNodes, hwf.joined horderly.ordered, fun e he t hb => ?_,
    hslim.orderly.self.constraints⟩
  have htype := horderly.types e he
  rw [hb] at htype
  exact library.isBuiltin_of_has hlib _ t htype

/-- So it is together with all graphs inside, if it is clean at every depth. -/
theorem atRest_run (hlib : library.types = Library.builtins.types) (config : EngineConfig)
    (ops : List Operation) (hg : (Graph.new library config).run ops = g)
    (hclean : g.state.Everywhere GraphState.Clean) :
    GraphState.AtRest library.Has config g.state.depth [] g.state := by
  subst hg
  obtain ⟨hsane, hfixed⟩ := sane_resolved_run hlib config ops
  exact ⟨⟨le_rfl, hsane.orderly⟩, hsane.wellFormed, hclean, GraphState.clean_nil, hfixed⟩

/-- After any operations on a new graph of built-in nodes, to connect a source to a sink that
nothing feeds, and to disconnect the two again, leaves the snapshot and the state as they were, if
the link is clear of subgraphs (`GraphState.Clear`), or can be traced (`GraphState.Traceable`). -/
theorem disconnect_connect_run {source sink : PadRef} {snapshot : GraphSnapshot}
    (hlib : library.types = Library.builtins.types) (ops : List Operation)
    (hg : (Graph.new library config).run ops = g)
    (hsource : (g.state.pad? source).any (·.isSource) = true) (hfree : g.state.feeder sink = none)
    (hclear : g.state.Clear ⟨source, sink⟩ ∨ g.state.Traceable config ⟨source, sink⟩)
    (hconnect : g.apply (.connectPad ⟨source, sink⟩) = (.ok snapshot, g')) :
    ∃ g'', g'.apply (.disconnectPad ⟨source, sink⟩) = (.ok g.toSnapshot, g'') ∧
    g''.state = g.state := by
  have hs := rested_run hlib config ops hg
  have hu := rested_run hlib config _ (run_concat_edit hg hconnect)
  have hsettings : g.config = config := hg ▸ config_run (Graph.new library config) ops
  obtain ⟨u, hedited, rfl, rfl⟩ := apply_eq_ok.mp hconnect
  obtain ⟨a, hedit, hresolve⟩ := bind_eq_ok_iff.mp hedited
  obtain ⟨⟨a, l⟩, hlink, rfl⟩ := map_eq_ok_iff.mp hedit
  rw [hsettings] at hresolve
  obtain ⟨b, hunlink, hback⟩ : ∃ b, u.disconnect source sink = .ok b ∧
      GraphState.reconcile config [] b = .ok g.state := by
    rcases hclear with hclear | htrace
    · exact hs.reconcile_disconnect hsource hfree hclear hlink hresolve hu
    · exact (atRest_run hlib config ops hg htrace.clean).reconcile_disconnect
        (library.isBuiltin_of_has hlib) hsource hfree htrace hlink hresolve
  have hconfig : (g.commit u).config = config := hsettings
  have hedited : (g.commit u).edited (.disconnectPad ⟨source, sink⟩) = .ok g.state :=
    bind_eq_ok_iff.mpr ⟨b, hunlink, hconfig ▸ hback⟩
  exact ⟨(g.commit u).commit g.state, apply_eq_ok.mpr ⟨_, hedited, rfl, rfl⟩, rfl⟩

/-- After any operations on a new graph of built-in nodes all links can be traced but those to
operators, if the graph is straight at every depth (`GraphState.Straight`). -/
theorem traceable_run {l : Link} (hlib : library.types = Library.builtins.types)
    (hlimit : config.maxResolvePasses = 0 ∨ 4 ≤ config.maxResolvePasses) (ops : List Operation)
    (hg : (Graph.new library config).run ops = g)
    (h : g.state.Everywhere GraphState.Straight)
    (hends : ¬ IsOperator l.source.pad ∧ ¬ IsOperator l.sink.pad) :
    g.state.Traceable config l := by
  have hrecoverable := recoverable_run hlib hlimit ops hg h
  subst hg
  obtain ⟨hsane, -⟩ := sane_resolved_run hlib config ops
  exact GraphState.traceable_of_forward hlimit hsane.orderly hsane.wellFormed
    (hrecoverable.mono fun _ h => h.clean) (h.mono fun _ => GraphState.Straight.forward) hends

/-- The number goes through the gauge when it is connected, and comes out no more when it is
disconnected (`FeedsGauge`). The link is traced into the subgraph and out of it. -/
theorem disconnect_connect_gauge : ∃ g s,
    (Graph.new Library.builtins {}).run (gaugeEdits.map .edit) = g ∧ HoldsGauge g.state ∧
      g.apply feedGauge = (.ok s.toSnapshot, g.commit s) ∧ FeedsGauge g.state s ∧
      ∃ g'', (g.commit s).apply (.disconnectPad ⟨⟨"a", "value"⟩, ⟨"s", "p:input"⟩⟩) =
        (.ok g.toSnapshot, g'') ∧ g''.state = g.state := by
  obtain ⟨s, hedit, hholds, hfeeds, hsource, hfree⟩ :=
    apply_of_test Library.builtins {} gaugeEdits feedGauge
      (P := fun s t => HoldsGauge s ∧ FeedsGauge s t ∧
        (s.pad? ⟨"a", "value"⟩).any (·.isSource) = true ∧ s.feeder ⟨"s", "p:input"⟩ = none)
      (by decide +kernel)
  exact ⟨_, s, rfl, hholds, hedit, hfeeds, disconnect_connect_run rfl _ rfl hsource hfree
    (.inr (traceable_run rfl (.inl rfl) _ rfl hholds.1 (by decide))) hedit⟩

end Graph

namespace GraphState

/-! ### A type that keeps itself alive -/

/-- A subgraph with a passthrough inside. -/
def wrapped (id inner : String) : NodeEntry where
  id := id
  nodeType := subgraphType
  editor := {}
  pads := []
  state := .unresolved
  body := .subgraph none ⟨[.plugin inner "Passthrough" Passthrough.nodeType], []⟩

/-- A whole number, and two subgraphs with a passthrough inside each of them. -/
def wrappings : GraphState :=
  ⟨[.plugin "i" "IntegerProperty" PropertyNode.integer, wrapped "s" "p", wrapped "t" "q"], []⟩

/-- Connects two pads and resolves the graph. -/
def connected (a b : PadRef) (s : GraphState) : Except Error GraphState :=
  (s.connect a b).bind fun t => reconcile {} [] t.1

/-- Disconnects two pads and resolves the graph. -/
def disconnected (a b : PadRef) (s : GraphState) : Except Error GraphState :=
  (s.disconnect a b).bind (reconcile {} [])

/-- Where one subgraph feeds another one, the type of a number that was connected to the first one
is still there when it is disconnected again: each of them takes it from the other. -/
theorem disconnected_wrappings : ∃ r s u t, reconcile {} [] wrappings = .ok r ∧
    connected ⟨"s", "p:output"⟩ ⟨"t", "q:input"⟩ r = .ok s ∧
    connected ⟨"i", "value"⟩ ⟨"s", "p:input"⟩ s = .ok u ∧
    disconnected ⟨"i", "value"⟩ ⟨"s", "p:input"⟩ u = .ok t ∧
    (s.declared? ⟨"s", "p:output"⟩).any (·.same none) = true ∧
    (t.declared? ⟨"s", "p:output"⟩).any (·.same (some [.integer none none])) = true := by
  have h : ((reconcile {} [] wrappings).toOption.bind fun r =>
      (connected ⟨"s", "p:output"⟩ ⟨"t", "q:input"⟩ r).toOption.bind fun s =>
      (connected ⟨"i", "value"⟩ ⟨"s", "p:input"⟩ s).toOption.bind fun u =>
      (disconnected ⟨"i", "value"⟩ ⟨"s", "p:input"⟩ u).toOption.map fun t =>
        ((s.declared? ⟨"s", "p:output"⟩).any (·.same none),
          (t.declared? ⟨"s", "p:output"⟩).any (·.same (some [.integer none none])))) = some
          (true, true) := by
    decide +kernel
  obtain ⟨r, hr, h⟩ := Option.bind_eq_some_iff.mp h
  obtain ⟨s, hs, h⟩ := Option.bind_eq_some_iff.mp h
  obtain ⟨u, hu, h⟩ := Option.bind_eq_some_iff.mp h
  obtain ⟨t, ht, h⟩ := Option.map_eq_some_iff.mp h
  rw [Prod.mk.injEq] at h
  exact ⟨r, s, u, t, toOption_eq_some_iff.mp hr, toOption_eq_some_iff.mp hs,
    toOption_eq_some_iff.mp hu, toOption_eq_some_iff.mp ht, h⟩

end GraphState

end Patchbay
