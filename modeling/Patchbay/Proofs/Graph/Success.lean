import Patchbay.Proofs.Graph.Pacing
import Patchbay.Proofs.Graph.Settling

/-!
# Resolution that succeeds

A draft above a graph at rest is resolved without an error, if there is a timetable for it and for
the graphs inside (`AtRest.exists_reconcile`): nothing is in the way of resolving any node, after
the last entry of the timetable nothing changes any more, and narrowing does not fail because the
draft stays above the graph at rest.
-/

namespace Patchbay.GraphState

variable {T : String → NodeType → Prop} {config : EngineConfig} {n m : Nat}
  {external external' : External} {s t t' u : GraphState} {e f d c d' : NodeEntry}
  {p q : PadState} {r x : PadRef} {id : Option String} {inner : GraphState} {i j k a b : Nat}
  {placed rest : List Nat} {changed : Bool} {L : Timetable} {echoes : Prop} {wires : List Link}

section

variable (hT : ∀ name type, T name type → type.IsBuiltin) (hs : AtRest T config n external s)

include hT hs

/-! ### Resolving a node -/

/-- A node is resolved without an error if the graph inside is: built-in types do not fail for the
properties that the node has, and its ids are distinct. -/
theorem Draft.exists_resolveNode (hu : Draft T n s u) (hext : external'.Clean)
    (he : s.nodes[i]? = some e) (hd : u.nodes[i]? = some d) (hde : d.plan = e.plan)
    (hin : ∀ id g, d.body = .subgraph id g → ∃ m g', n = m + 1 ∧
      reconcileWithin config m (externalOf d.pads (u.peerViews external' d)) g = .ok g') :
    ∃ d' changed, GraphState.resolveNode (innerResolver config n) external' u d =
      .ok (d', changed) := by
  have hmem := List.mem_of_getElem? he
  have hbody := (NodeEntry.plan_eq_iff.mp hde).2.2.2.2
  obtain ⟨specs, body, hresolve, hnd⟩ : ∃ specs body,
      resolveBody (innerResolver config n) d (u.view external' d) = .ok (specs, body) ∧
        (specs.map (·.id)).Nodup := by
    cases hb : e.body with
    | plugin type =>
      have hbuiltin := hs.nested.builtin hT hmem hb
      obtain ⟨specs, hspecs⟩ := hbuiltin.tame.total (u.view external' d)
      exact ⟨specs, _, (resolveBody_of_plugin (Body.plugin_of_plan hbody hb)).mpr ⟨hspecs, rfl⟩,
        hbuiltin.steady.distinct _ _ hspecs⟩
    | subgraph id inner =>
      obtain ⟨g, hbg, hplan⟩ := Body.subgraph_of_plan hbody hb
      obtain ⟨m, g', rfl, hr⟩ := hin id g hbg
      refine ⟨g'.exposedPads, _, (resolveBody_of_subgraph hbg).mpr ⟨g', hr, rfl, rfl⟩, ?_⟩
      -- the pads have the ids that they have in the graph at rest
      obtain ⟨m', hm, hrest⟩ := hs.inside hT hmem hb
      obtain rfl : m = m' := Nat.succ.inj hm
      obtain ⟨g'', hb'', -, hdraft⟩ :=
        hu.inside hs hmem (List.mem_of_getElem? hd) hde hb
      obtain ⟨-, rfl⟩ := Body.subgraph.inj (hbg.symm.trans hb'')
      have hclean : (externalOf d.pads (u.peerViews external' d)).Clean :=
        hu.clean.self.clean_externalOf hext fun _ hp _ => hs.proxy_id hT hmem hde hp
      obtain ⟨-, hplan'⟩ := hrest.of_draft hT hdraft hclean hr
      have hids : g'.exposedPads.map (·.id) = e.pads.map (·.id) := by
        have h₁ := PadState.map_id_of_plan (plan_exposedPads_congr (hplan'.trans hplan))
        have h₂ := congrArg (List.map PadState.id) ((hs.settledAt hT hmem).resolved hb).2
        simp only [List.map_map] at h₁ h₂
        exact h₁.trans h₂
      rw [hids]
      exact hs.wellFormed.self.distinctPads e hmem
  have happly := applySpecs_of_nodup hnd { d with body := body }
  exact ⟨_, _, by rw [GraphState.resolveNode, hresolve]; exact happly⟩

namespace Step

variable (h : Step T config n external external' L wires k placed i s u e d d')
  (htimed : ({ s with links := wires } : GraphState).Timed echoes L
    (config.passLimit s.nodes.length)) (hpads : ∀ r, L.pads r ≤ k)

include h htimed hpads

/-- After the last entry of the timetable nobody sees anything else when a node is resolved, for
its pads declare what they did (`KeptAt`). -/
theorem peerViews_eq (c : NodeEntry) :
    (u.replaceNode i d').peerViews external' c = u.peerViews external' c :=
  List.map_congr_left fun _ _ => congrArg (Prod.mk _)
    (h.peerView_eq hT hs htimed (fun _ _ _ _ _ => hpads _) fun _ _ _ _ _ => hpads _)

theorem settledAt_of_settledAt (hc : SettledAt (innerResolver config n) external' u c) :
    SettledAt (innerResolver config n) external' (u.replaceNode i d') c := by
  rw [SettledAt, view, h.peerViews_eq hT hs htimed hpads]
  exact hc

/-- After the last entry of the timetable a node that was resolved is settled (`SettledAt`). -/
theorem settledAt_self :
    SettledAt (innerResolver config n) external' (u.replaceNode i d') d' := by
  obtain ⟨changed, hnode⟩ := h.resolve
  obtain ⟨specs, body, hresolve, hnd, hd', -⟩ := resolveNode_eq_ok hnode
  have hplan := h.plan.trans h.plan_before.symm
  obtain ⟨hid, -, -, hpads', hbody⟩ := NodeEntry.plan_eq_iff.mp hplan
  have hpeers : (u.replaceNode i d').peerViews external' d' = u.peerViews external' d := by
    rw [h.peerViews_eq hT hs htimed hpads]
    exact peerViews_congr rfl rfl hid (PadState.map_outline_of_plan hpads')
  refine ⟨specs, ?_, hnd, ?_⟩
  · rw [view, hpeers, hid]
    cases hb : d.body with
    | plugin type =>
      obtain ⟨hspecs, hbody'⟩ := (resolveBody_of_plugin hb).mp hresolve
      have hb' : d'.body = .plugin type := by rw [hd', hbody']
      have hb₀ := Body.plugin_of_plan
        (NodeEntry.plan_eq_iff.mp h.plan_before).2.2.2.2.symm hb
      have hbuiltin := hs.nested.builtin hT h.mem hb₀
      have hprop := sameProperties_of_plan (v := u.view external' d)
        (w := ⟨d.id, d'.pads, u.peerViews external' d⟩) hbuiltin hspecs hpads'
        (hs.proxy_eq_none hT h.mem hb₀ (NodeEntry.plan_eq_iff.mp h.plan_before).2.2.2.1)
      exact hb'.symm ▸ (resolveBody_of_plugin hb').mpr
        ⟨hbuiltin.steady.congr _ _ _ hspecs hprop fun _ _ _ => rfl, rfl⟩
    | subgraph id g =>
      obtain ⟨g', hr, hspecs, hbody'⟩ := (resolveBody_of_subgraph hb).mp hresolve
      have hb' : d'.body = .subgraph id g' := by rw [hd', hbody']
      obtain ⟨m, rfl, hrest⟩ := h.inside id g' hb'
      rw [hb']
      refine (resolveBody_of_subgraph hb').mpr ⟨g', ?_, hspecs, rfl⟩
      rw [externalOf_congr _ (PadState.map_outline_of_plan hpads')]
      exact hrest.fixed
  · have hsame : ∀ spec ∈ specs, mergedPad d'.pads spec = mergedPad d.pads spec := by
      intro spec hspec
      rw [hd']
      cases hb : d.body with
      | plugin type =>
        obtain ⟨hspecs, -⟩ := (resolveBody_of_plugin hb).mp hresolve
        have hb₀ := Body.plugin_of_plan
          (NodeEntry.plan_eq_iff.mp h.plan_before).2.2.2.2.symm hb
        exact mergedPad_mergedPad hnd hspec
          ((hs.nested.builtin hT h.mem hb₀).tame.consistent _ _ hspecs spec hspec) _
      | subgraph id g =>
        obtain ⟨g', -, rfl, -⟩ := (resolveBody_of_subgraph hb).mp hresolve
        obtain ⟨f, -, y, -, -, rfl⟩ := mem_exposedPads.mp hspec
        rw [mergedPad_of_proxy rfl, mergedPad_of_proxy rfl]
    rw [List.map_congr_left hsame, hd']

end Step

/-! ### Passes -/

theorem Draft.readsValues (hu : Draft T n s u) : u.ReadsValues := by
  intro d hd type hb
  obtain ⟨i, hi, rfl⟩ := List.mem_iff_getElem.mp hd
  obtain ⟨e, he, hde⟩ := getElem?_of_plan hu.nodes.symm (List.getElem?_eq_getElem hi)
  exact (hs.nested.builtin hT (List.mem_of_getElem? he) (Body.plugin_of_plan
    (NodeEntry.plan_eq_iff.mp hde).2.2.2.2 hb)).tame.readsValues

namespace Midway

/-- A node that is resolved makes a step (`Step`), so that what `Step` keeps is kept by the pass.
-/
theorem step_of_resolve (hu : Midway T config n external external' L wires k placed s u)
    (horder : ({ s with links := wires } : GraphState).dependencyOrder = placed ++ i :: rest)
    (he : s.nodes[i]? = some e) (hd : u.nodes[i]? = some d)
    (hnode : resolveNode (innerResolver config n) external' u d = .ok (d', changed)) :
    Step T config n external external' L wires k placed i s u e d d' := by
  obtain ⟨hplan, -, hinside⟩ := hu.toDraft.resolveNode hT hs hu.seen (List.mem_of_getElem? he)
    (List.mem_of_getElem? hd) (hu.plan_at he hd)
    (fun _ _ _ _ _ _ _ hg hg₁ hext' hg₂ => hg.of_draft hT hg₁ hext' hg₂) hnode
  exact ⟨hu, ⟨rest, horder⟩, he, hd, ⟨changed, hnode⟩, hplan, hinside⟩

variable (hfits : external.Fits s) (htimed : ({ s with links := wires } : GraphState).Timed echoes
    L (config.passLimit s.nodes.length))
  (hresolve : ∀ (k : Nat) (placed : List Nat) (u : GraphState) (i : Nat) (e d : NodeEntry),
    Midway T config n external external' L wires k placed s u → s.nodes[i]? = some e →
      u.nodes[i]? = some d → ∃ d' changed,
        resolveNode (innerResolver config n) external' u d = .ok (d', changed))

include hfits htimed hresolve

/-- The places that are left in a pass are resolved. After the last entry of the timetable their
nodes are settled then. The induction is on these places, with `Midway` as the invariant. -/
theorem exists_resolveEach (hu : Midway T config n external external' L wires k placed s u)
    (horder : ({ s with links := wires } : GraphState).dependencyOrder = placed ++ rest)
    (hset : (∀ r, L.pads r ≤ k) → ∀ j ∈ placed, ∀ c, u.nodes[j]? = some c →
      SettledAt (innerResolver config n) external' u c) :
    ∃ u' changed, resolveEach (innerResolver config n) external' u rest = .ok (u', changed) ∧
      Midway T config n external external' L wires k (placed ++ rest) s u' ∧
      ((∀ r, L.pads r ≤ k) → ∀ j ∈ placed ++ rest, ∀ c, u'.nodes[j]? = some c →
        SettledAt (innerResolver config n) external' u' c) := by
  induction rest generalizing placed u with
  | nil =>
    rw [List.append_nil]
    exact ⟨u, false, rfl, hu, hset⟩
  | cons i rest ih =>
    have hi : i < s.nodes.length := by
      refine (({ s with links := wires } : GraphState).feeding_dependencyOrder.2.1 i).mp ?_
      rw [horder]
      exact List.mem_append_right _ List.mem_cons_self
    have he : s.nodes[i]? = some s.nodes[i] := List.getElem?_eq_getElem hi
    obtain ⟨d, hd, -⟩ := getElem?_of_plan hu.nodes he
    obtain ⟨d', changed, hnode⟩ := hresolve k placed u i _ d hu he hd
    have hstep := hu.step_of_resolve hT hs horder he hd hnode
    obtain ⟨u', more, heach, hu', hset'⟩ := ih (hstep.midway hT hs htimed hfits)
      (by rw [horder, List.append_assoc, List.singleton_append]) fun hle j hj c hc => by
        by_cases hji : j = i
        · subst hji
          rw [List.getElem?_set_self (List.getElem?_eq_some_iff.mp hd).1] at hc
          obtain rfl := Option.some.inj hc
          exact hstep.settledAt_self hT hs htimed hle
        · rw [List.getElem?_set_ne (Ne.symm hji)] at hc
          refine hstep.settledAt_of_settledAt hT hs htimed hle (hset hle j ?_ c hc)
          exact (List.mem_append.mp hj).resolve_right fun hj => hji (List.mem_singleton.mp hj)
    rw [List.append_assoc, List.singleton_append] at hu' hset'
    refine ⟨u', changed || more, ?_, hu', hset'⟩
    rw [resolveEach, resolveAt, hd]
    simp only [hnode, Except.map, bind, Except.bind]
    rw [show resolveEach (innerResolver config n) external' { u with nodes := u.nodes.set i d' }
      rest = .ok (u', more) from heach]

/-- A pass is gone through, and `Midway` holds before the next one. After the last entry of the
timetable the graph is settled then. -/
theorem exists_pass (hu : Midway T config n external external' L wires k [] s u) :
    ∃ u' changed, GraphState.pass (innerResolver config n) external'
      ({ s with links := wires } : GraphState).dependencyOrder u = .ok (u', changed) ∧
      Midway T config n external external' L wires (k + 1) [] s u' ∧
      ((∀ r, L.pads r ≤ k) → Settled (innerResolver config n) external' u') := by
  obtain ⟨u', changed, heach, hu', hset⟩ := exists_resolveEach hT hs hfits htimed hresolve hu
    (List.nil_append _).symm (fun _ j hj => by cases hj)
  rw [List.nil_append] at hu' hset
  have hall : ∀ j, j < s.nodes.length →
      j ∈ ({ s with links := wires } : GraphState).dependencyOrder := fun j hj =>
    (({ s with links := wires } : GraphState).feeding_dependencyOrder.2.1 j).mpr hj
  have hlen : u'.nodes.length = s.nodes.length := length_of_plan hu'.nodes
  have hkeep : u'.pruneLinks = (u', false) := pruneLinks_of_sound (hu'.toOver.joined hs).sound
  refine ⟨u', changed, ?_, ⟨hu'.toOver, hu'.same, fun i e d he hd => ?_, fun i e d he hd _ => ?_⟩,
    fun hle c hc => ?_⟩
  · rw [GraphState.pass, heach]
    simp only [Except.map, hkeep, Bool.or_false]
  · have hi := hall i (List.getElem?_eq_some_iff.mp he).1
    exact (hu'.kept i e d he hd).mono fun a => (due_succ_iff hi).mpr
  · exact hu'.once i e d he hd (.inr (hall i (List.getElem?_eq_some_iff.mp he).1))
  · obtain ⟨j, hj, rfl⟩ := List.mem_iff_getElem.mp hc
    exact hset hle j (hall j (hlen ▸ hj)) _ (List.getElem?_eq_getElem hj)

/-- Passes follow each other until nothing changes. In the last two passes that the limit allows
everything is settled, so that the loop does not run out of fuel. -/
theorem exists_settle (fuel : Nat)
    (hu : Midway T config n external external' L wires k [] s u) (hfuel : 1 ≤ fuel)
    (hpads : ∀ r, L.pads r + 2 ≤ k + fuel)
    (hset : (∀ r, L.pads r + 1 ≤ k) → Settled (innerResolver config n) external' u) :
    ∃ u', GraphState.settle (GraphState.pass (innerResolver config n) external'
      ({ s with links := wires } : GraphState).dependencyOrder) fuel u = .ok (some u') ∧
      Over T n external external' s u' := by
  induction fuel generalizing k u with
  | zero => omega
  | succ fuel ih =>
    obtain ⟨u', changed, hpass, hu', hset'⟩ := exists_pass hT hs hfits htimed hresolve hu
    rw [GraphState.settle, hpass]
    cases changed with
    | false => exact ⟨u', rfl, hu'.toOver⟩
    | true =>
      simp only [if_true]
      cases fuel with
      | zero =>
        -- everything was settled before the last pass, which so has changed nothing
        obtain ⟨t', hpass', -⟩ := pass_of_settled
          ({ s with links := wires } : GraphState).dependencyOrder
          (hset fun r => by have := hpads r; omega) (hu.toDraft.readsValues hT hs)
          (hu.toOver.joined hs).sound
        rw [hpass] at hpass'
        cases hpass'
      | succ fuel =>
        exact ih hu' (by omega) (fun r => by have := hpads r; omega)
          fun hle => hset' fun r => by have := hle r; omega

end Midway

/-! ### Cold starts -/

/-- Where nothing is settled from the start (`StartsCold`), all that is settled is kept. -/
theorem StartsCold.kept (hcold : s.StartsCold L) (ht : Over T n external external' s t)
    (he : s.nodes[i]? = some e) (hd : t.nodes[i]? = some d) (hde : d.plan = e.plan) :
    KeptAt T config n external' L (fun a => a = 0) t d e := by
  have hmem := List.mem_of_getElem? he
  have hbody := (NodeEntry.plan_eq_iff.mp hde).2.2.2.2
  have hnone : ∀ {cs : Constraints}, Constraints.Under none cs → cs = none := fun h => h
  have hsub : ∀ {id g}, d.body = .subgraph id g → e.isSubgraph = true := by
    intro id g hb
    obtain ⟨inner, hb', -⟩ := Body.subgraph_of_plan hbody.symm hb
    rw [NodeEntry.isSubgraph, hb']
  refine ⟨fun type hb q hq hop hzero => ?_, fun id g hb q hq hop hzero => ?_,
    fun id g hb hzero => ?_, fun id g hb hzero => ?_⟩
  · obtain ⟨p, hp, hpid, -⟩ := NodeEntry.exists_pad_of_plan hde hq
    obtain ⟨hpnone, hstill⟩ := hcold.plugin e hmem type hb p hp (hpid ▸ hop) (hpid ▸ hzero)
    have habove := (padwise_iff.mp ht.above i e d he hd).pads p hp q hq hpid.symm (hpid ▸ hop)
    rw [hpnone] at habove
    refine ⟨s, external, e, hs.outcome hT hmem, fun z hz => ?_, p, hp, hpid, ?_⟩
    · exact absurd (hpid ▸ hz) (hstill z)
    · rw [hpnone]
      exact (hnone habove).symm
  · obtain ⟨p, hp, hpid, -⟩ := NodeEntry.exists_pad_of_plan hde hq
    exact absurd (hpid ▸ hzero) (hcold.pads e hmem (hsub hb) p hp)
  · exact absurd hzero (hcold.nodes e hmem (hsub hb))
  · exact absurd hzero (hcold.nodes e hmem (hsub hb))

end

/-! ### All depths -/

section

variable (hT : ∀ name type, T name type → type.IsBuiltin)

include hT

/-- A draft above a graph at rest is resolved without an error, if there is a timetable for it
(`Timed`), what is settled from the start is kept (`KeptAt`), and there are timetables for the
graphs inside (`Paced`), except for those that are idle from the start. -/
theorem AtRest.exists_reconcile (hs : AtRest T config n external s) (hfits : external.Fits s)
    (ht : Over T n external external' s t)
    (htimed : ({ s with links := t.links } : GraphState).Timed echoes L
      (config.passLimit s.nodes.length))
    (hinside : ∀ e ∈ s.nodes, L.nodes e.id ≠ 0 → e.body.Inside (Everywhere (Paced config echoes)))
    (hstart : ∀ (i : Nat) (e d : NodeEntry), s.nodes[i]? = some e → t.nodes[i]? = some d →
      KeptAt T config n external' L (fun a => a = 0) t d e) :
    ∃ t', reconcileWithin config n external' t = .ok t' := by
  induction n using Nat.strong_induction_on generalizing external external' s t L
  rename_i n ih
  have hresolve : ∀ (k : Nat) (placed : List Nat) (u : GraphState) (i : Nat) (e d : NodeEntry),
      Midway T config n external external' L t.links k placed s u → s.nodes[i]? = some e →
        u.nodes[i]? = some d → ∃ d' changed,
          resolveNode (innerResolver config n) external' u d = .ok (d', changed) := by
    intro k placed u i e d hu he hd
    have hmem := List.mem_of_getElem? he
    have hde := hu.plan_at he hd
    refine hu.toDraft.exists_resolveNode hT hs hu.seen he hd hde fun id g hbg => ?_
    obtain ⟨inner, hb, -⟩ :=
      Body.subgraph_of_plan (NodeEntry.plan_eq_iff.mp hde).2.2.2.2.symm hbg
    by_cases hidle : L.nodes e.id = 0
    · obtain ⟨m, hm, hrest⟩ := (hu.kept i e d he hd).idle id g hbg hidle
      rw [externalOf_of_plan u external' hde]
      exact ⟨m, g, hm, hrest.fixed⟩
    · obtain ⟨m, rfl, hrest⟩ := hs.inside hT hmem hb
      obtain ⟨g', hbg', hover⟩ := hu.toOver.inside hT hs he hd hde hb
      obtain ⟨-, rfl⟩ := Body.subgraph.inj (hbg.symm.trans hbg')
      have hpaced := hinside e hmem hidle id inner hb
      obtain ⟨L', htimed', hcold⟩ := hpaced.self
      obtain ⟨inner', hb', hplan', -⟩ := hu.toDraft.inside hs hmem (List.mem_of_getElem? hd) hde hb
      obtain ⟨-, rfl⟩ := Body.subgraph.inj (hbg.symm.trans hb')
      have hlinks : ({ inner with links := g.links } : GraphState) = inner := by
        rw [links_of_plan hplan']
        cases inner
        rfl
      obtain ⟨t', ht'⟩ := ih m m.lt_succ_self hrest (hs.fits_inside hT hfits hmem hb) hover
        (hlinks.symm ▸ htimed') (fun f hf _ id' g' hg' => hpaced.body hf _ _ hg')
        fun j f c hf hc => hcold.kept hT hrest hover hf hc (hover.plan_at hf hc)
      exact ⟨m, t', rfl, ht'⟩
  have hstart' : Midway T config n external external' L t.links 0 [] s t := by
    refine ⟨ht, rfl, fun i e d he hd => (hstart i e d he hd).mono fun a ha => ?_,
      fun i e d _ _ hdone => ?_⟩
    · rcases ha with ha | ⟨-, ha⟩
      · exact Nat.le_zero.mp ha
      · cases ha
    · rcases hdone with hdone | hdone
      · omega
      · cases hdone
  have hlimit := htimed.pads_le ⟨"", ""⟩
  obtain ⟨u, hsettle, hu⟩ := Midway.exists_settle hT hs hfits htimed hresolve
    (config.passLimit s.nodes.length) hstart' (by omega)
    (fun r => by have := htimed.pads_le r; omega) fun hle => by
      have := hle ⟨"", ""⟩
      omega
  obtain ⟨u', hnarrow⟩ := hu.narrow hT hs
  refine ⟨u'.markResolved, ?_⟩
  rw [reconcileWithin_eq, reconcileWith, length_of_plan ht.nodes,
    dependencyOrder_congr (t := t) (s := { s with links := t.links }) (ids_of_plan ht.nodes) rfl,
    hsettle]
  simp only [hnarrow, Except.map]

/-- A draft above a graph at rest is resolved without an error, if there are timetables at every
depth (`Paced`), whatever its pads declare before. -/
theorem AtRest.exists_reconcile_of_paced (hs : AtRest T config n external s)
    (hfits : external.Fits s) (hpaced : s.Everywhere (Paced config echoes))
    (ht : Over T n external external' s t) (hlinks : t.links = s.links) :
    ∃ t', reconcileWithin config n external' t = .ok t' := by
  obtain ⟨L, htimed, hcold⟩ := hpaced.self
  have hsame : ({ s with links := t.links } : GraphState) = s := by
    rw [hlinks]
    cases s
    rfl
  exact hs.exists_reconcile hT hfits ht (hsame.symm ▸ htimed)
    (fun _ he _ _ _ hb => hpaced.body he _ _ hb)
    fun _ _ _ he hd => hcold.kept hT hs ht he hd (ht.plan_at he hd)

end

end Patchbay.GraphState
