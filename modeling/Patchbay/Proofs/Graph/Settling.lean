import Patchbay.Proofs.Graph.Memory

/-!
# Three passes

A graph without cycles is settled after two passes, and the third one finds that nothing changes.
The first pass settles the values of all properties but menus, so that the second one declares the
pads for good. The links that it drops led to sinks that have vanished, and to drop them shows
nowhere.
-/

namespace Patchbay

/-! ### Declaring the same again -/

namespace PadState

variable {spec : PadSpec}

/-- Under the same declaration a pad stays as that declaration has made it. -/
theorem merge_merge (hspec : spec.Consistent) (p : PadState) :
    (p.merge spec).merge spec = p.merge spec := by
  have hkept : (p.merge spec).keptValue spec = p.keptValue spec := by
    have hvalue : (p.merge spec).value = p.keptValue spec := rfl
    have hprop : (p.merge spec).isProperty = spec.padType.isProperty := rfl
    rw [keptValue, hvalue, hprop, hspec.1]
    cases hkind : spec.padType.isProperty with
    | false => rw [keptValue, hkind]; rfl
    | true =>
      simp only [Bool.not_true, Bool.false_eq_true, if_false, Option.isSome_none, Bool.or_self]
      cases hv : p.keptValue spec with
      | none =>
        rw [keptValue, hkind, hspec.1] at hv
        simp only [Bool.not_true, Bool.false_eq_true, if_false, Option.isSome_none,
          Bool.false_or] at hv
        split at hv
        · exact hv
        · split at hv
          · split at hv
            · cases hv
            · exact hv
          · exact hv
      | some v =>
        have hacc : spec.constraints.accept v = true :=
          (keptValue_eq_some hv).2.elim (fun h => h) (hspec.2 v)
        simp only [hacc, if_true]
  exact congrArg (declare spec) hkept

theorem merge_ofSpec (hspec : spec.Consistent) : (ofSpec spec).merge spec = ofSpec spec := by
  have hempty : ofSpec spec = (declare spec none).merge spec := by
    rw [ofSpec, merge]
    refine congrArg (declare spec) ?_
    have hprop : (declare spec none).isProperty = spec.padType.isProperty := rfl
    have hvalue : (declare spec none).value = none := rfl
    rw [keptValue, hprop, hvalue]
    cases spec.padType.isProperty <;> simp
  rw [hempty, merge_merge hspec]

end PadState

namespace GraphState

variable {R : InnerResolver} {s s₁ u u₁ u₂ : GraphState} {e d : NodeEntry} {type : NodeType}
  {pads : List PadState} {spec : PadSpec} {specs : List PadSpec} {order : List Nat}

theorem findPad_mergedPad (hnd : (specs.map (·.id)).Nodup) (hspec : spec ∈ specs)
    (pads : List PadState) :
    findPad spec.id (specs.map (mergedPad pads)) = some (mergedPad pads spec) := by
  have hids : ((specs.map (mergedPad pads)).map (·.id)).Nodup := by
    rw [List.map_map]
    simpa only [Function.comp_def, mergedPad_id] using hnd
  rw [← mergedPad_id pads spec]
  exact findPad_of_mem hids (List.mem_map_of_mem hspec)

/-- Under the same declarations the pads of a node stay as they are. -/
theorem mergedPad_mergedPad (hnd : (specs.map (·.id)).Nodup) (hspec : spec ∈ specs)
    (hcons : spec.Consistent) (pads : List PadState) :
    mergedPad (specs.map (mergedPad pads)) spec = mergedPad pads spec := by
  rw [mergedPad, findPad_mergedPad hnd hspec]
  simp only [mergedPad]
  split
  · exact PadState.merge_merge hcons _
  · exact PadState.merge_ofSpec hcons

/-- What is stored in a node is the same, if its declarations are unchanged. -/
theorem stored_of_unchanged (hcons : ∀ spec ∈ specs, spec.Consistent)
    (hnd : (specs.map (·.id)).Nodup)
    (h : sameDeclarations pads (specs.map (mergedPad pads)) = true) :
    (specs.map (mergedPad pads)).map PadState.stored = pads.map PadState.stored := by
  refine map_of_unchanged hnd h fun p _ spec hspec hsame => ?_
  have hvalue := PadState.value_merge_of_same (hcons spec hspec) hsame
  simp only [PadState.sameDeclaration, Bool.and_eq_true, beq_iff_eq] at hsame
  exact PadState.stored_eq_iff.mpr ⟨hsame.1.1.1.1.1.symm, hsame.1.1.1.2.symm, fun _ => hvalue⟩

theorem consistent_declares (h : e.OfBuiltin type) : ∀ spec ∈ s.declares e, spec.Consistent :=
  h.builtin.tame.consistent _ _ (resolve_declares h)

/-! ### One pass -/

/-- The result of a pass. -/
theorem Cascading.exists_pass (hs : s.Cascading) (hord : s.Topological order) (R : InnerResolver) :
    ∃ u changed, pass R [] order s = .ok (u.pruneLinks.1, changed) ∧ s.Passed u ∧
      (changed = false → u.pruneLinks.1.Alike NodeEntry.stored s) := by
  obtain ⟨u, changed, hres⟩ := exists_resolveEach R hs.flat order
  obtain ⟨hpassed, hsame⟩ := passed_of_sweep hs.flat hs.distinct hs.acyclic hord
    (sweep_of_resolveEach hord.distinct hres)
  refine ⟨u, changed || u.pruneLinks.2, ?_, hpassed, fun hflag => ?_⟩
  · rw [pass, hres]
    rfl
  · obtain ⟨hflag, hsound⟩ := Bool.or_eq_false_iff.mp hflag
    have hkeep : u.links.filter u.isSound = u.links :=
      List.filter_eq_self.mpr (List.all_eq_true.mp (by simpa [GraphState.pruneLinks] using hsound))
    refine ⟨?_, hkeep.trans hpassed.links⟩
    show (u.nodes.map NodeEntry.stored).Perm _
    rw [hpassed.nodes, List.map_map]
    refine List.Perm.of_eq (List.map_congr_left fun e he => ?_)
    obtain ⟨type, hof⟩ := hs.flat e he
    exact NodeEntry.stored_eq_iff.mpr ⟨rfl, rfl, rfl,
      stored_of_unchanged (consistent_declares hof) (nodup_declares hof) (hsame hflag e he), rfl⟩

/-! ### After the second pass -/

/-- The pads of a node after a pass. -/
theorem Passed.mem_pads (h : s.Passed u) (he : e ∈ s.nodes) (hu : u.Cascading) (id : String) :
    u.pad? ⟨e.id, id⟩ = findPad id (u.redeclared e).pads := by
  have hmem : u.redeclared e ∈ u.nodes := by
    rw [h.nodes]
    exact List.mem_map_of_mem he
  exact pad?_of_mem hu.distinct hmem id

section

variable (hs : s.Cascading) (h₁ : s.Passed u₁) (h₂ : u₁.pruneLinks.1.Passed u₂)

include hs h₁ h₂

/-- A source that was there after a pass is there after the next one. -/
theorem isSource_of_passed {r : PadRef} (h : (u₁.pad? r).any (·.isSource) = true) :
    (u₂.pad? r).any (·.isSource) = true := by
  have hu₁ := h₁.cascading hs
  have hu₂ := h₂.cascading hu₁.pruneLinks
  obtain ⟨p, hp, hsource⟩ := (Option.any_eq_true _ _).mp h
  obtain ⟨e', he', hid, hmem, hpid⟩ := pad?_eq_some hp
  have hfound : e' ∈ s.nodes.map u₁.redeclared := h₁.nodes ▸ he'
  obtain ⟨e, he, rfl⟩ := List.mem_map.mp hfound
  obtain ⟨type, hof⟩ := hs.flat e he
  have hof' := ofBuiltin_redeclared hof u₁
  obtain ⟨spec, hspec, rfl⟩ := List.mem_map.mp hmem
  obtain ⟨value, hmerged, -⟩ := mergedPad_eq e.pads spec
  have htype : spec.padType.isSource = true := by
    rw [hmerged] at hsource
    exact hsource
  have hsteady := hof.builtin.steady
  obtain ⟨spec', hspec', hid'⟩ := hsteady.kept _ _ _ _ (resolve_declares hof)
    (resolve_declares (s := u₂) hof') spec hspec (.inl htype)
  have hpt := hsteady.padType _ _ _ _ (resolve_declares hof) (resolve_declares (s := u₂) hof')
    spec hspec spec' hspec' hid'.symm
  have hr : r = ⟨(u₁.redeclared e).id, spec'.id⟩ := by
    cases r
    rw [mergedPad_id] at hpid
    simp only [PadRef.mk.injEq]
    exact ⟨hid.symm, hpid.symm.trans hid'.symm⟩
  obtain ⟨value', hmerged', -⟩ := mergedPad_eq (u₁.redeclared e).pads spec'
  have hpad : u₂.pad? r = some (mergedPad (u₁.redeclared e).pads spec') := by
    rw [hr, h₂.mem_pads he' hu₂]
    exact findPad_mergedPad (nodup_declares hof') hspec' _
  rw [hpad, hmerged']
  exact (congrArg PadType.isSource hpt).symm.trans htype

/-- A node sees after the second pass what it saw in it. -/
theorem fed_of_passed (he : e ∈ s.nodes) (hof : e.OfBuiltin type)
    (hspec : spec ∈ u₂.declares (u₁.redeclared e)) (hsink : spec.padType.isSource = false) :
    u₂.fed (u₁.redeclared e) spec.id =
      u₂.pruneLinks.1.fed (u₂.redeclared (u₁.redeclared e)) spec.id := by
  have hu₁ := h₁.cascading hs
  have hu₂ := h₂.cascading hu₁.pruneLinks
  have hof' := ofBuiltin_redeclared hof u₁
  have he' : u₁.redeclared e ∈ u₁.pruneLinks.1.nodes := by
    show u₁.redeclared e ∈ u₁.nodes
    rw [h₁.nodes]
    exact List.mem_map_of_mem he
  have hfound := findPad_mergedPad (nodup_declares hof') hspec (u₁.redeclared e).pads
  have hlinks : u₂.links = u₁.links.filter u₁.isSound := h₂.links
  -- a link to the sink was sound after the first pass
  have hsound : ∀ l ∈ u₂.links, l.sink = ⟨e.id, spec.id⟩ →
      (findPad spec.id (u₁.redeclared e).pads).isSome = true ∧ u₂.isSound l = true := by
    intro l hl hlsink
    obtain ⟨-, hsound⟩ := List.mem_filter.mp (hlinks ▸ hl)
    obtain ⟨hsinkOld, hsource⟩ := Bool.and_eq_true_iff.mp hsound
    refine ⟨?_, Bool.and_eq_true_iff.mpr ⟨?_, isSource_of_passed hs h₁ h₂ hsource⟩⟩
    · rw [hlsink, h₁.mem_pads he hu₁] at hsinkOld
      obtain ⟨p, hp, -⟩ := (Option.any_eq_true _ _).mp hsinkOld
      rw [hp]
      rfl
    · obtain ⟨value, hmerged, -⟩ := mergedPad_eq (u₁.redeclared e).pads spec
      have hpad : u₂.pad? l.sink = some (mergedPad (u₁.redeclared e).pads spec) := by
        rw [hlsink]
        exact (h₂.mem_pads he' hu₂ spec.id).trans hfound
      have hdirection : (PadState.declare spec value).isSource = false := hsink
      rw [hpad, hmerged, Option.any_some, hdirection]
      rfl
  have hfeeder : u₂.pruneLinks.1.feeder ⟨e.id, spec.id⟩ = u₂.feeder ⟨e.id, spec.id⟩ := by
    refine congrArg (Option.map _) ?_
    show (u₂.links.filter u₂.isSound).find? _ = u₂.links.find? _
    exact find?_filter_of_imp fun l hl hlsink => (hsound l hl (by simpa using hlsink)).2
  have hpads : (findPad spec.id (u₂.redeclared (u₁.redeclared e)).pads).isSome = true := by
    rw [redeclared, hfound]
    rfl
  rw [fed, fed, if_pos hpads]
  split
  · exact congrArg (fun r => (Option.bind r u₂.declared?).getD none) hfeeder.symm
  · rename_i hnew
    have hnone : u₂.feeder ⟨e.id, spec.id⟩ = none := by
      rw [feeder, Option.map_eq_none_iff, List.find?_eq_none]
      intro l hl hlsink
      exact hnew (hsound l hl (by simpa using hlsink)).1
    rw [show u₂.pruneLinks.1.feeder ⟨(u₂.redeclared (u₁.redeclared e)).id, spec.id⟩ = none from
      hfeeder.trans hnone]
    rfl

/-- After two passes every node declares the pads that it has. -/
theorem settled_of_passed (R : InnerResolver) : Settled R [] u₂.pruneLinks.1 := by
  intro e₂ he₂
  have hfound : e₂ ∈ u₁.pruneLinks.1.nodes.map u₂.redeclared := h₂.nodes ▸ he₂
  obtain ⟨e₁, he₁, rfl⟩ := List.mem_map.mp hfound
  have hfound : e₁ ∈ s.nodes.map u₁.redeclared := h₁.nodes ▸ he₁
  obtain ⟨e, he, rfl⟩ := List.mem_map.mp hfound
  obtain ⟨type, hof⟩ := hs.flat e he
  have hof₁ := ofBuiltin_redeclared hof u₁
  have hof₂ := ofBuiltin_redeclared hof₁ u₂
  have hcons := consistent_declares (s := u₂) hof₁
  have hnd := nodup_declares (s := u₂) hof₁
  have hsame : u₂.pruneLinks.1.declares (u₂.redeclared (u₁.redeclared e)) =
      u₂.declares (u₁.redeclared e) := by
    refine declares_congr hof₁ hof₂ (fun spec hspec hprop hmenu => ?_) fun spec hspec hsink =>
      fed_of_passed hs h₁ h₂ he hof hspec hsink
    -- a property that is no menu was declared in the same way in the first pass
    have hspec₁ : spec ∈ u₁.declares e := hof.builtin.steady.fixed _ _ _ _ (resolve_declares hof₁)
      (resolve_declares hof) spec hspec hprop hmenu
    have hold : findPad spec.id (u₁.redeclared e).pads = some (mergedPad e.pads spec) :=
      findPad_mergedPad (nodup_declares hof) hspec₁ _
    have hnew : findPad spec.id (u₂.redeclared (u₁.redeclared e)).pads =
        some (mergedPad e.pads spec) := by
      rw [redeclared, findPad_mergedPad hnd hspec, redeclared,
        mergedPad_mergedPad (nodup_declares hof) hspec₁ (hcons spec hspec)]
    simp only [NodeView.property, NodeView.pad?, view, hold, hnew]
  refine ⟨u₂.declares (u₁.redeclared e), ?_, hnd, ?_⟩
  · rw [resolveBody, hof₂.body]
    simp only [resolve_declares hof₂, Except.map, hsame]
  · refine congrArg _ (List.map_congr_left fun spec hspec => ?_)
    rw [redeclared]
    exact mergedPad_mergedPad hnd hspec (hcons spec hspec) _

end

/-! ### Passes until nothing changes -/

theorem Cascading.readsValues (hs : s.Cascading) : s.ReadsValues := by
  intro e he t hb
  obtain ⟨type, hof⟩ := hs.flat e he
  obtain rfl := Body.plugin.inj (hof.body.symm.trans hb)
  exact hof.builtin.tame.readsValues

/-- Nothing is pruned where no link lost an end. -/
theorem pruneLinks_of_sound (h : ∀ l ∈ s.links, s.isSound l = true) :
    s.pruneLinks = (s, false) := by
  have hfilter : s.links.filter s.isSound = s.links := List.filter_eq_self.mpr h
  have hall : s.links.all s.isSound = true := List.all_eq_true.mpr h
  rw [pruneLinks, hfilter, hall]
  cases s
  rfl

theorem isSound_pruneLinks (s : GraphState) : ∀ l ∈ s.pruneLinks.1.links,
    s.pruneLinks.1.isSound l = true :=
  fun _ hl => (List.mem_filter.mp hl).2

/-- Passes end after three at most, with the graph as two of them leave it. -/
theorem Cascading.settle (hs : s.Cascading) (hord : s.Topological order) {limit : Nat}
    (hlimit : 3 ≤ limit)
    (R : InnerResolver) : ∃ u₁ u₂ s', s.Passed u₁ ∧ u₁.pruneLinks.1.Passed u₂ ∧
      settle (pass R [] order) limit s = .ok (some s') ∧
      s'.Alike NodeEntry.bare u₂.pruneLinks.1 := by
  obtain ⟨u₁, c₁, hpass₁, h₁, hc₁⟩ := hs.exists_pass hord R
  have hu₁ := h₁.cascading hs
  have hs₁ := hu₁.pruneLinks
  have hord₁ : u₁.pruneLinks.1.Topological order := hord.of_sublist h₁.ids
    (h₁.links ▸ List.filter_sublist)
  obtain ⟨u₂, c₂, hpass₂, h₂, -⟩ := hs₁.exists_pass hord₁ R
  have hu₂ := h₂.cascading hs₁
  refine ⟨u₁, u₂, ?_⟩
  obtain ⟨limit, rfl⟩ := Nat.exists_eq_add_of_le hlimit
  rw [Nat.add_comm, GraphState.settle, hpass₁]
  cases c₁ with
  | false =>
    -- the second pass starts from what was stored for the first one
    have halike := (hc₁ rfl).passed hs₁ h₂ h₁
    exact ⟨_, h₁, h₂, rfl, (halike.symm.pruneLinks hu₁.distinct)⟩
  | true =>
    simp only [if_true]
    rw [GraphState.settle, hpass₂]
    cases c₂ with
    | false => exact ⟨_, h₁, h₂, rfl, .refl _ _⟩
    | true =>
      obtain ⟨t, hpass₃, hbare⟩ := pass_of_settled order (settled_of_passed hs h₁ h₂ R)
        hu₂.pruneLinks.readsValues (isSound_pruneLinks u₂)
      simp only [if_true]
      rw [GraphState.settle, hpass₃]
      exact ⟨t, h₁, h₂, rfl, .of_eq (bare_eq_iff.mp hbare).1, (bare_eq_iff.mp hbare).2⟩

/-- Graphs in which the same is stored settle alike. -/
theorem Alike.settle {t : GraphState} (h : s.Alike NodeEntry.stored t) (hs : s.Cascading)
    (ht : t.Cascading)
    {order' : List Nat} (hord : s.Topological order) (hord' : t.Topological order') {limit : Nat}
    (hlimit : 3 ≤ limit) (R R' : InnerResolver) :
    ∃ s' t', GraphState.settle (pass R [] order) limit s = .ok (some s') ∧
      GraphState.settle (pass R' [] order') limit t = .ok (some t') ∧
      s'.Alike NodeEntry.bare t' := by
  obtain ⟨u₁, u₂, s', hu₁, hu₂, hsettle, halike⟩ := hs.settle hord hlimit R
  obtain ⟨v₁, v₂, t', hv₁, hv₂, hsettle', halike'⟩ := ht.settle hord' hlimit R'
  have hone := (h.passed hs hu₁ hv₁).pruneLinks (hu₁.cascading hs).distinct
  have hs₁ := (hu₁.cascading hs).pruneLinks
  have htwo := ((hone.of_comp fun _ _ => NodeEntry.stored_of_bare).passed hs₁ hu₂ hv₂).pruneLinks
    (hu₂.cascading hs₁).distinct
  exact ⟨s', t', hsettle, hsettle', halike.trans (htwo.trans halike'.symm)⟩

end GraphState

end Patchbay
