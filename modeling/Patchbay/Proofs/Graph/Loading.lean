import Patchbay.Proofs.Graph.Reload
import Patchbay.Proofs.Graph.Success
import Patchbay.Proofs.Graph.Certainty

/-!
# Loading graphs with subgraphs

While a graph is loaded, the graphs inside are resolved by themselves first, without what the graph
around them feeds to them. If there are timetables at every depth, they come to rest above what
they were, and if they are decided, tuned to it. So what is loaded is a draft above the graph
that was stored (`AtRest.exists_load`). Resolution brings the graph back from it, if the sources of
subgraphs are grounded (`AtRest.exists_reload`).
-/

namespace Patchbay.GraphState

variable {T : String → NodeType → Prop} {config : EngineConfig} {n m : Nat}
  {external external' : External} {s t t' u : GraphState} {e d d' : NodeEntry} {p q : PadState}
  {id : Option String} {inner inner' : GraphState} {type : NodeType} {library : Library}
  {echoes : Prop}

/-! ### Nodes -/

/-- What is known of a node that was loaded for a node at rest: it has its plan, it is above it and
tuned to it at every depth, and what it declares is broad and clean, as drafts are to be. -/
structure Loaded (d e : NodeEntry) : Prop where
  plan : d.plan = e.plan
  above : d.Padwise PadState.Above e
  tuned : d.Padwise PadState.Tuned e
  broad : ∀ p ∈ d.pads, ¬ IsOperator p.id → p.declared.Broad
  clean : d.body.Inside (Everywhere Clean)

theorem seededPad_declared (x : PadSnapshot) : (seededPad x).declared = none := by
  rw [seededPad]
  split <;> rfl

theorem clean_nil : External.Clean [] :=
  ⟨by simp [External.In], fun _ h => by cases h⟩

theorem peerView_of_noLinks (nodes : List NodeEntry) (r : PadRef) (p : PadState) :
    (⟨nodes, []⟩ : GraphState).peerView [] r p = {} := by
  rw [peerView]
  split <;> rfl

/-- Without links, nothing is shown to the graph inside. Links are added only when all nodes are
loaded. -/
theorem externalOf_of_noLinks (nodes : List NodeEntry) (e : NodeEntry) :
    externalOf e.pads ((⟨nodes, []⟩ : GraphState).peerViews [] e) = [] := by
  refine List.filterMap_eq_nil_iff.mpr fun p _ => ?_
  split
  · rename_i peer _ hpeer
    obtain ⟨q, -, hq⟩ := List.mem_map.mp (mem_of_lookupKey hpeer)
    rw [peerView_of_noLinks, Prod.mk.injEq] at hq
    rw [← hq.2]
    rfl
  · rfl

section

variable (hT : ∀ name type, T name type → type.IsBuiltin) (hs : AtRest T config n external s)
  (he : e ∈ s.nodes)

include hT hs he

/-- A node of a type declares nothing but its own when it is loaded, and has all values
(`reloaded`). So it is above the node at rest. -/
theorem AtRest.loaded_plugin (hb : e.body = .plugin type)
    (hnull : ∀ p ∈ e.pads, p.value ≠ some .null) : Loaded (reloaded s e type) e := by
  have hwf := hs.wellFormed.self
  have hnone := hs.proxy_eq_none hT he hb rfl
  have hseeded : ∀ p ∈ e.pads, (seededPad (storePad s e.id p)).Copies p ∧
      (seededPad (storePad s e.id p)).value = p.value := fun p hp =>
    seededPad_storePad s e.id (hnone p hp) (hnull p hp) (hwf.stateless e he p hp)
  have hpad : ∀ p ∈ e.pads, ∀ q ∈ (reloaded s e type).pads, q.id = p.id →
      q = seededPad (storePad s e.id p) := by
    intro p hp q hq hid
    obtain ⟨p', hp', rfl⟩ := List.mem_map.mp hq
    rw [seededPad_id] at hid
    rw [List.inj_on_of_nodup_map (hwf.distinctPads e he) hp' hp hid]
  refine ⟨NodeEntry.plan_eq_iff.mpr ⟨rfl, rfl, rfl, ?_, ?_⟩, ⟨fun p hp q hq hid _ => ?_, ?_⟩,
    ⟨fun p hp q hq hid _ _ => ?_, ?_⟩, fun q hq _ => ?_, Body.inside_plugin _ _⟩
  · rw [reloaded, List.map_map]
    refine List.map_congr_left fun p hp => ?_
    obtain ⟨hid, htype, hproxy⟩ := PadState.outline_eq_iff.mp (hseeded p hp).1.outline
    exact PadState.plan_eq_iff.mpr ⟨hid, htype, hproxy, fun _ _ => (hseeded p hp).2⟩
  · rw [hb]
    rfl
  · rw [hpad p hp q hq hid, seededPad_declared]
    exact Constraints.under_none _
  · rintro _ _ _ _ _ ⟨⟩
  · rw [hpad p hp q hq hid]
    exact .inl (hseeded p hp).2
  · rintro _ _ _ _ _ ⟨⟩
  · obtain ⟨p', hp', rfl⟩ := List.mem_map.mp hq
    rw [seededPad_declared]
    exact Constraints.broad_none

/-- Around a graph that came to rest above the one that was stored, a subgraph node is loaded above
the one that was stored. -/
theorem AtRest.loaded_subgraph (hfits : external.Fits s) (hb : e.body = .subgraph id inner)
    {inner₁ : GraphState} (hn : n = m + 1) (hrest : AtRest T config m [] inner₁)
    (hplan : inner₁.plan = inner.plan) (habove : inner₁.Above inner)
    (htuned : inner₁.Padwise PadState.Tuned inner) : Loaded (reloadedAround e id inner₁) e := by
  have hwf := hs.wellFormed.self
  have hset := hs.settledAt hT he
  have hout : Outcome T config n e ((⟨s.nodes, []⟩ : GraphState).peerViews [] e)
      (reloadedAround e id inner₁) := by
    refine ⟨NodeEntry.plan_eq_iff.mpr ⟨rfl, ?_, rfl, ?_, ?_⟩, fun type hb' => ?_, ?_⟩
    · have htypes := ((everywhere_orderly_iff.mp hs.nested.2).fit e he).types
      rw [hb] at htypes
      exact htypes.symm
    · exact (plan_exposedPads_congr hplan).trans (PadState.map_plan_of_bare (hset.resolved hb).2)
    · rw [hb, reloadedAround, Body.plan, Body.plan, hplan]
    · cases hb.symm.trans hb'
    · rintro _ _ ⟨⟩
      rw [externalOf_of_noLinks]
      exact ⟨⟨m, hn, hrest⟩, rfl⟩
  have hclean : (⟨s.nodes, []⟩ : GraphState).Clean :=
    ⟨hs.clean.self.broad, fun _ h => by cases h⟩
  refine ⟨hout.plan, ?_, ⟨fun p hp q _ _ => hs.tuned_of_subgraph hT he hb hp, ?_⟩,
    fun q hq hop => ?_, ?_⟩
  · refine (hs.outcome hT he).above hT hs he hout hs.clean.self hs.seen hclean clean_nil
      (fun z => ?_) (fun pad hop hnil => ?_) ?_
    · have hnone : (⟨s.nodes, []⟩ : GraphState).seen [] e z = none := by
        rw [GraphState.seen]
        cases findPad z e.pads with
        | none => rfl
        | some p => exact congrArg PeerView.constraints (peerView_of_noLinks _ _ _)
      rw [hnone]
      exact Constraints.under_none _
    · exact hs.behind_eq_nil hT hfits he hop hnil
    · rintro id₁ id₂ inner₁' inner₂ hb₁ ⟨⟩
      obtain ⟨-, rfl⟩ := Body.subgraph.inj (hb.symm.trans hb₁)
      exact habove
  · rintro id₁ id₂ inner₁' inner₂ hb₁ ⟨⟩
    obtain ⟨-, rfl⟩ := Body.subgraph.inj (hb.symm.trans hb₁)
    exact htuned
  · obtain ⟨spec, hspec, rfl⟩ := List.mem_map.mp hq
    exact hrest.broad_of_exposed hT hspec hop
  · exact (Body.inside_subgraph _ _ _).mpr hrest.clean

end

/-! ### All depths -/

/-- What is loaded from the snapshot of a graph at rest is a draft above it (`Over`), and tuned to
it. The graphs inside are loaded and come to rest first (`AtRest.exists_reconcile_of_paced`), so
that the induction is on the depth. -/
theorem AtRest.exists_load (hT : ∀ name type, T name type → type.IsBuiltin)
    (hlib : ∀ name type, T name type → library.create name = .ok type) (hin : library.In T)
    (hs : AtRest T config n external s) (hfits : external.Fits s)
    (hnull : s.Everywhere NoNulls) (hpaced : s.Everywhere (Paced config echoes))
    (hdecided : s.Everywhere Decided) :
    ∃ s₀, load library config s.toSnapshot = .ok s₀ ∧ Over T n external [] s s₀ ∧
      s₀.links = s.links ∧ s₀.Padwise PadState.Tuned s := by
  induction n using Nat.strong_induction_on generalizing external s
  rename_i n ih
  have horderly := everywhere_orderly_iff.mp hs.nested.2
  have hwf := hs.wellFormed.self
  have hnodes : ∀ e ∈ s.nodes, ∃ d, loadNode library config (storeNode s e) = .ok d ∧
      d.Copies e ∧ Loaded d e := by
    intro e he
    have hset := hs.settledAt hT he
    have hfit := horderly.fit e he
    cases hb : e.body with
    | plugin type =>
      have htype : T e.nodeType type := by simpa only [hb, Body.OfType] using hfit.types
      have htame := (hT _ _ htype).tame
      have hnull := hnull.self e he
      have hstateless := hwf.stateless e he
      exact ⟨_, loadNode_eq_reloaded hset htame hb (hlib _ _ htype) (hwf.distinctPads e he)
        hstateless hnull, copies_reloaded hset htame hb hstateless hnull,
        hs.loaded_plugin hT he hb hnull⟩
    | subgraph id inner =>
      have htypes : e.nodeType = subgraphType := by
        simpa only [hb, Body.OfType] using hfit.types
      obtain ⟨m, rfl, hrest⟩ := hs.inside hT he hb
      have hfits' := hs.fits_inside hT hfits he hb
      have hpaced' := hpaced.body he _ _ hb
      obtain ⟨inner₀, hload, hover, hlinks, htuned⟩ := ih m m.lt_succ_self hrest hfits'
        (hnull.body he _ _ hb) hpaced' (hdecided.body he _ _ hb)
      -- the graph inside comes to rest by itself, above what it was
      obtain ⟨inner₁, hr⟩ := hrest.exists_reconcile_of_paced hT hfits' hpaced' hover hlinks
      obtain ⟨hrest₁, hplan₀⟩ := hrest.of_draft hT hover.toDraft hover.seen hr
      have hplan : inner₁.plan = inner.plan := hplan₀.trans (plan_eq_iff.mpr ⟨hover.nodes, hlinks⟩)
      have houtline := PadState.map_outline_of_plan (plan_exposedPads_congr hplan)
      have hresolve : reconcile config [] inner₀ = .ok inner₁ := by
        rw [reconcile, reconcileWithin_of_depth_le le_rfl hover.nested.1]
        exact hr
      exact ⟨_, loadNode_eq_reloadedAround hset hb htypes houtline hload hresolve,
        copies_reloadedAround hset hb htypes houtline,
        hs.loaded_subgraph hT he hfits hb rfl hrest₁ hplan (hrest.above hT hfits' hover hr)
          (hrest.tuned hT hfits' (hdecided.body he _ _ hb) hover hlinks htuned hr)⟩
  obtain ⟨s₀, hload, hlinks, hloaded⟩ := load_toSnapshot horderly hwf fun e he =>
    (hnodes e he).imp fun d hd => ⟨hd.1, hd.2.1⟩
  obtain ⟨hlength, hzip⟩ := List.forall₂_iff_zip.mp hloaded
  have hat : ∀ (i : Nat) (e d : NodeEntry), s.nodes[i]? = some e → s₀.nodes[i]? = some d →
      Loaded d e := by
    intro i e d he hd
    have hmem : (d, e) ∈ s₀.nodes.zip s.nodes :=
      List.mem_of_getElem? (List.getElem?_zip_eq_some.mpr ⟨hd, he⟩)
    obtain ⟨d', hd', -, hde⟩ := hnodes e (List.mem_of_getElem? he)
    obtain rfl := Except.ok.inj ((hzip hmem).1.symm.trans hd')
    exact hde
  have hmem : ∀ d ∈ s₀.nodes, ∃ e ∈ s.nodes, Loaded d e := by
    intro d hd
    obtain ⟨i, hi, rfl⟩ := List.mem_iff_getElem.mp hd
    have hi' : i < s.nodes.length := hlength ▸ hi
    exact ⟨_, List.getElem_mem hi', hat i _ _ (List.getElem?_eq_getElem hi')
      (List.getElem?_eq_getElem hi)⟩
  have hplan : s₀.nodes.map NodeEntry.plan = s.nodes.map NodeEntry.plan := by
    rw [← List.forall₂_eq_eq_eq, List.forall₂_map_left_iff, List.forall₂_map_right_iff]
    refine List.forall₂_iff_get.mpr ⟨hlength, fun i hi hi' => ?_⟩
    exact (hat i _ _ (List.getElem?_eq_getElem hi') (List.getElem?_eq_getElem hi)).plan
  refine ⟨s₀, hload, ⟨⟨hplan, fun l hl => hwf.isSound (hlinks ▸ hl), ⟨?_, ?_⟩,
    everywhere_iff.mpr ⟨⟨fun d hd => ?_, hlinks ▸ hs.clean.self.unlinked⟩, fun d hd => ?_⟩⟩,
    hlinks ▸ List.Subset.refl _, padwise_iff.mpr fun i e d he hd => (hat i e d he hd).above,
    clean_nil, fun r => Constraints.under_none _, fun _ _ => ⟨rfl, rfl⟩⟩, hlinks,
    padwise_iff.mpr fun i e d he hd => (hat i e d he hd).tuned⟩
  · rw [depth_of_plan (plan_eq_iff.mpr ⟨hplan, hlinks⟩)]
    exact hs.nested.1
  · exact orderly_load (Regime.tame fun name type h => (hT name type h).tame) hin _ hload
  · obtain ⟨e, -, hde⟩ := hmem d hd
    exact hde.broad
  · obtain ⟨e, -, hde⟩ := hmem d hd
    exact hde.clean

/-- A recoverable graph at rest comes back when its snapshot is loaded and resolved: the result is
above the graph (`AtRest.above`), which is a ceiling for it (`Ceiling.above`), and tuned to it
(`AtRest.tuned`). -/
theorem AtRest.exists_reload (hT : ∀ name type, T name type → type.IsBuiltin)
    (hlib : ∀ name type, T name type → library.create name = .ok type) (hin : library.In T)
    (hs : AtRest T config n [] s) (hnull : s.Everywhere NoNulls)
    (hpaced : s.Everywhere (Paced config True)) (hgrounded : s.Everywhere Grounded)
    (hdecided : s.Everywhere Decided) :
    ∃ s₀, load library config s.toSnapshot = .ok s₀ ∧ reconcile config [] s₀ = .ok s := by
  have hfits := External.fits_nil s
  obtain ⟨s₀, hload, hover, hlinks, htuned⟩ :=
    hs.exists_load hT hlib hin hfits hnull hpaced hdecided
  obtain ⟨t, ht⟩ := hs.exists_reconcile_of_paced hT hfits hpaced hover hlinks
  obtain ⟨hrest, hplan⟩ := hs.of_draft hT hover.toDraft hover.seen ht
  have hplan := hplan.trans (plan_eq_iff.mpr ⟨hover.nodes, hlinks⟩)
  have habove := hs.above hT hfits hover ht
  obtain ⟨L, htimed, hcold⟩ := hpaced.self
  -- nothing is settled from the start that could permit more
  have hceiling : Ceiling [] [] L s t := by
    refine ⟨nodes_of_plan hplan, fun l hl => links_of_plan hplan ▸ hl, fun _ _ => ⟨rfl, rfl⟩,
      External.fits_nil t, fun _ _ _ _ _ => Constraints.under_none _, fun r hop hzero => ?_,
      fun e he hsub hzero => absurd hzero (hcold.nodes e he hsub)⟩
    rw [hcold.declaredAt_eq_none hop hzero]
    exact Constraints.under_none _
  have hbelow : s.Above t := hceiling.above hT hs hrest htimed (fun _ => hgrounded)
    (fun e he _ _ => fun _ _ hb => hpaced.body he _ _ hb)
    (fun i e d _ _ _ _ he _ hb _ hzero => absurd hzero
      (hcold.nodes e (List.mem_of_getElem? he) (by rw [NodeEntry.isSubgraph, hb])))
    fun r => Constraints.under_none _
  obtain rfl := hs.eq_of_same hT hrest
    ⟨hplan, habove, hbelow, hs.tuned hT hfits hdecided hover hlinks htuned ht⟩
  refine ⟨s₀, hload, ?_⟩
  rw [reconcile, reconcileWithin_of_depth_le le_rfl hover.nested.1]
  exact ht

end Patchbay.GraphState
