import Patchbay.Proofs.Graph.Proxies

/-!
# Starting cold

A graph without subgraphs is resolved anew from a copy of it, whose pads may declare anything. A
node of the copy becomes the node copied when its sinks see what they see in the graph copied
(`resolveBody_of_copy`). Of a calm node what is firm comes back whatever it sees
(`resolveBody_of_calm`).
-/

namespace Patchbay.GraphState

/-- An orderly graph without subgraphs: all nodes are of types for which `T` holds. -/
abbrev OrderlyFlat (T : String → NodeType → Prop) (s : GraphState) : Prop :=
  s.OrderlyOver T Constraints.Plain fun _ => False

/-- A settled graph `s` without subgraphs, and a copy of it (`GraphState.Copies`). Resolution
starts from the copy, and is to come to `s`. -/
structure Cold (T : String → NodeType → Prop) (R : InnerResolver) (s₀ s : GraphState) :
    Prop where
  tame : ∀ name t, T name t → t.Tame
  orderly : s.OrderlyFlat T
  wellFormed : s.WellFormed
  settled : Settled R [] s
  copy : s₀.Copies s
  orderly₀ : s₀.OrderlyFlat T

variable {T : String → NodeType → Prop} {R : InnerResolver} {external external' : External}
  {s s₀ t t' : GraphState} {e d : NodeEntry} {p : PadState} {type : NodeType}

theorem OrderlyFlat.exists_plugin (h : s.OrderlyFlat T) (he : e ∈ s.nodes) :
    ∃ type, e.body = .plugin type := by
  cases hb : e.body with
  | plugin type => exact ⟨type, rfl⟩
  | subgraph id inner => exact ((h.fit e he).inner id inner hb).elim

/-! ### One node -/

theorem peer_of_mem (hnd : (e.pads.map (·.id)).Nodup) (hp : p ∈ e.pads) :
    (s.view external e).peer p.id = s.peerView external ⟨e.id, p.id⟩ p := by
  rw [NodeView.peer, view, peerViews,
    lookupKey_map_of_mem hnd hp fun q => s.peerView external ⟨e.id, q.id⟩ q]
  rfl

section

variable {pads pads' : List PadState} {spec : PadSpec} {specs : List PadSpec}

/-- A pad of a settled node is what its declaration makes of it. -/
theorem exists_spec_of_settled (hbare : (specs.map (mergedPad pads)).map PadState.bare =
    pads.map PadState.bare) (hp : p ∈ pads) :
    ∃ spec ∈ specs, (mergedPad pads spec).bare = p.bare := by
  have hmem : p.bare ∈ (specs.map (mergedPad pads)).map PadState.bare :=
    hbare ▸ List.mem_map_of_mem hp
  obtain ⟨q, hq, hqp⟩ := List.mem_map.mp hmem
  obtain ⟨spec, hspec, rfl⟩ := List.mem_map.mp hq
  exact ⟨spec, hspec, hqp⟩

/-- A declaration of a settled node made a pad of it. -/
theorem exists_pad_of_settled (hbare : (specs.map (mergedPad pads)).map PadState.bare =
    pads.map PadState.bare) (hspec : spec ∈ specs) :
    ∃ p ∈ pads, p.bare = (mergedPad pads spec).bare := by
  have hmem : (mergedPad pads spec).bare ∈ pads.map PadState.bare :=
    hbare ▸ List.mem_map_of_mem (List.mem_map_of_mem hspec)
  exact List.mem_map.mp hmem

/-- A declaration of a settled node makes the same of a copied pad (`mergedPad`): the value that
may be missing is the first one of the menu, which comes back. -/
theorem mergedPad_of_copies (hcopy : List.Forall₂ PadState.Copies pads' pads)
    (hnd : (pads.map (·.id)).Nodup)
    (hbare : (specs.map (mergedPad pads)).map PadState.bare = pads.map PadState.bare)
    (hproxy : spec.proxy = none)
    (hmenu : spec.padType.isProperty = true → ∀ option rest,
      spec.constraints = some [.enumeration (option :: rest)] → spec.default = some (.str option))
    (hspec : spec ∈ specs) : mergedPad pads' spec = mergedPad pads spec := by
  obtain ⟨p, hp, hmerge⟩ := exists_pad_of_settled hbare hspec
  obtain ⟨value, hdecl, hvalue⟩ := mergedPad_eq pads spec
  have hmerge' := hmerge
  rw [hdecl] at hmerge
  obtain ⟨hid, -, htype, hcs, hpvalue, hpproxy⟩ := PadState.bare_eq_iff.mp hmerge
  have hid : p.id = spec.id := hid
  have hfind : findPad spec.id pads = some p := hid ▸ findPad_of_mem hnd hp
  rcases findPad_of_copies hcopy spec.id with ⟨-, hnone⟩ | ⟨q, p', hq, hp', hqp⟩
  · rw [hfind] at hnone
    cases hnone
  · rw [hfind, Option.some.injEq] at hp'
    subst hp'
    obtain ⟨-, hqtype, -⟩ := PadState.outline_eq_iff.mp hqp.outline
    rw [mergedPad, mergedPad, hq, hfind]
    simp only [PadState.merge]
    refine congrArg _ ?_
    rcases hqp.value (hpproxy.trans hproxy) with heq | ⟨hnone, option, rest, hfirst, hvalue'⟩
    · rw [PadState.keptValue, PadState.keptValue, PadState.isProperty, hqtype, heq]
      rfl
    · -- a value that is missing is the default, which is what the pad holds
      have hkept : p.keptValue spec = some (.str option) := by
        rw [mergedPad, hfind] at hmerge'
        exact (PadState.bare_eq_iff.mp hmerge').2.2.2.2.1.symm.trans hvalue'
      have hprop := (PadState.keptValue_eq_some hkept).1
      have hdefault := hmenu hprop option rest (hcs.symm.trans hfirst)
      rw [hkept, PadState.keptValue, hprop, hproxy, hnone, hdefault]
      simp

/-- The values that are not from menus are copied. -/
theorem property_of_copies (hcopy : List.Forall₂ PadState.Copies pads' pads)
    (hbare : (specs.map (mergedPad pads)).map PadState.bare = pads.map PadState.bare)
    (hproxy : ∀ spec ∈ specs, spec.proxy = none) {id : String}
    (hid : ∀ spec ∈ specs, spec.id = id → ¬ spec.IsMenu) (node : String)
    (peers peers' : List (String × PeerView)) :
    (⟨node, pads', peers⟩ : NodeView).property id = (⟨node, pads, peers'⟩ : NodeView).property
    id := by
  have hvalue : (findPad id pads').bind (·.value) = (findPad id pads).bind (·.value) := by
    rcases findPad_of_copies hcopy id with ⟨hq, hp⟩ | ⟨q, p, hq, hp, hqp⟩
    · rw [hq, hp]
    · obtain ⟨hmem, hpid⟩ := findPad_eq_some hp
      obtain ⟨spec, hspec, hmerge⟩ := exists_spec_of_settled hbare hmem
      obtain ⟨value, hdecl, hprop⟩ := mergedPad_eq pads spec
      rw [hdecl] at hmerge
      obtain ⟨hsid, -, -, hcs, hpvalue, hpproxy⟩ := PadState.bare_eq_iff.mp hmerge
      rw [hq, hp, Option.bind_some, Option.bind_some]
      refine (hqp.value (hpproxy.symm.trans (hproxy spec hspec))).resolve_right ?_
      rintro ⟨-, option, rest, hfirst, hheld⟩
      exact hid spec hspec (hsid.trans hpid)
        ⟨(hprop _ (hpvalue.trans hheld)).1, option :: rest, hcs.trans hfirst⟩
  simp only [NodeView.property, NodeView.pad?, hvalue]

end

/-- A sink of a settled node sees the same when the pads of the node do. -/
theorem peerConstraints_of_alike {specs : List PadSpec} {spec : PadSpec}
    (hnd : (e.pads.map (·.id)).Nodup)
    (houtline : d.pads.map PadState.outline = e.pads.map PadState.outline)
    (hid : d.id = e.id)
    (hbare : (specs.map (mergedPad e.pads)).map PadState.bare = e.pads.map PadState.bare)
    (hspec : spec ∈ specs) (hsink : spec.padType.isSource = false)
    (hsinks : ∀ p ∈ e.pads, p.isSource = false → p.id = spec.id →
      t.peerView external' ⟨e.id, p.id⟩ p = s.peerView external ⟨e.id, p.id⟩ p) :
    (s.view external e).peerConstraints spec.id =
    (t.view external' d).peerConstraints spec.id := by
  obtain ⟨p, hp, hpbare⟩ := exists_pad_of_settled hbare hspec
  obtain ⟨value, hmerged, -⟩ := mergedPad_eq e.pads spec
  rw [hmerged] at hpbare
  obtain ⟨hpid, -, htype, -⟩ := PadState.bare_eq_iff.mp hpbare
  have hpid : p.id = spec.id := hpid
  have hp' : p.isSource = false := by rw [PadState.isSource, htype]; exact hsink
  have hd : (t.view external' d).peer p.id = (t.view external' e).peer p.id := by
    rw [view, peerViews_congr rfl rfl hid houtline]
    rfl
  rw [NodeView.peerConstraints, NodeView.peerConstraints, ← hpid, hd, peer_of_mem hnd hp,
    peer_of_mem hnd hp, hsinks p hp hp' hpid]

section

variable (hset : SettledAt R external s e) (hnd : (e.pads.map (·.id)).Nodup)
  (hcopy : d.Copies e) (hb : e.body = .plugin type) (htame : type.Tame)

include hset hnd hcopy hb htame

/-- A copy of a settled node becomes that node, if its sinks see the same. The sources need not,
since types of nodes take no notice of what is fed by them. -/
theorem resolveBody_of_copy (hsinks : ∀ p ∈ e.pads, p.isSource = false →
      t.peerView external' ⟨e.id, p.id⟩ p = s.peerView external ⟨e.id, p.id⟩ p) :
    ∃ specs, resolveBody R d (t.view external' d) = .ok (specs, e.body) ∧
      (specs.map (·.id)).Nodup ∧
      (specs.map (mergedPad d.pads)).map PadState.bare = e.pads.map PadState.bare := by
  obtain ⟨specs, hspecs, hndspecs, hpads⟩ := hset
  have houtline := map_outline_of_copies hcopy.pads
  have hview : t.view external' d = ⟨e.id, d.pads, t.peerViews external' e⟩ := by
    rw [view, hcopy.id, peerViews_congr rfl rfl hcopy.id houtline]
  have hbd := hcopy.body.plugin_eq hb
  rw [resolveBody, hb] at hspecs
  obtain ⟨specs', hspecs', heq⟩ := map_eq_ok_iff.mp hspecs
  simp only [Prod.mk.injEq, and_true] at heq
  subst heq
  have hproxy : ∀ spec ∈ specs', spec.proxy = none :=
    fun spec hspec => (htame.consistent _ _ hspecs' spec hspec).1
  have hcongr := htame.congr _ (t.view external' d) specs' hspecs'
    (fun id hid => by
      rw [hview]
      exact (property_of_copies hcopy.pads hpads hproxy hid _ _ _).symm)
    fun spec hspec hsink => peerConstraints_of_alike hnd houtline hcopy.id hpads hspec hsink
      fun p hp hp' _ => hsinks p hp hp'
  refine ⟨specs', ?_, hndspecs, ?_⟩
  · rw [resolveBody, hbd, hb]
    simp only [hcongr, Except.map]
  · rw [← hpads]
    exact congrArg _ (List.map_congr_left fun spec hspec =>
      mergedPad_of_copies hcopy.pads hnd hpads (hproxy spec hspec)
        (htame.menu _ _ hspecs' spec hspec) hspec)

/-- Of a copy of a calm, settled node what is firm comes back (`PadState.firm`). All of it does, if
the sinks that the node takes types from (`NodeType.Calm`) see the same. -/
theorem resolveBody_of_calm {K : List String} (hcalm : type.Calm K) (t : GraphState)
    (external' : External) :
    ∃ specs, resolveBody R d (t.view external' d) = .ok (specs, e.body) ∧
      (specs.map (·.id)).Nodup ∧
      (specs.map (mergedPad d.pads)).map PadState.firm = e.pads.map PadState.firm ∧
      ((∀ p ∈ e.pads, p.isSource = false → p.id ∈ K →
          t.peerView external' ⟨e.id, p.id⟩ p = s.peerView external ⟨e.id, p.id⟩ p) →
        (specs.map (mergedPad d.pads)).map PadState.bare = e.pads.map PadState.bare) := by
  obtain ⟨specs, hspecs, hndspecs, hpads⟩ := hset
  have houtline := map_outline_of_copies hcopy.pads
  have hbd := hcopy.body.plugin_eq hb
  rw [resolveBody, hb] at hspecs
  obtain ⟨specs', hspecs', heq⟩ := map_eq_ok_iff.mp hspecs
  simp only [Prod.mk.injEq, and_true] at heq
  subst heq
  have hproxy : ∀ spec ∈ specs', spec.proxy = none :=
    fun spec hspec => (htame.consistent _ _ hspecs' spec hspec).1
  have hprop : ∀ id, (s.view external e).property id = (t.view external' d).property id := by
    intro id
    rw [view, view, hcopy.id]
    exact (property_of_copies hcopy.pads hpads hproxy
      (fun spec hspec _ => hcalm.noMenu _ _ hspecs' spec hspec) _ _ _).symm
  have hmerge : (specs'.map (mergedPad d.pads)).map PadState.bare = e.pads.map PadState.bare := by
    rw [← hpads]
    exact congrArg _ (List.map_congr_left fun spec hspec =>
      mergedPad_of_copies hcopy.pads hnd hpads (hproxy spec hspec)
        (htame.menu _ _ hspecs' spec hspec) hspec)
  obtain ⟨specs, hspecs⟩ := htame.total (t.view external' d)
  have hfirm : specs'.map PadSpec.firm = specs.map PadSpec.firm :=
    hcalm.firm _ _ _ _ hprop hspecs' hspecs
  refine ⟨specs, ?_, ?_, ?_, fun hsinks => ?_⟩
  · rw [resolveBody, hbd]
    simp only [hspecs, Except.map, hb]
  · have hids := congrArg (List.map (·.id)) hfirm
    simp only [List.map_map, Function.comp_def, PadSpec.firm_id] at hids
    exact hids ▸ hndspecs
  · rw [← map_firm_of_bare hmerge]
    rw [← List.forall₂_eq_eq_eq, List.forall₂_map_left_iff, List.forall₂_map_right_iff] at hfirm
    rw [List.map_map, List.map_map, ← List.forall₂_eq_eq_eq, List.forall₂_map_left_iff,
      List.forall₂_map_right_iff]
    exact hfirm.flip.imp fun _ _ h => firm_mergedPad_congr d.pads h.symm
  · have hthrough := hcalm.through _ (t.view external' d) specs' hprop hspecs'
      fun spec hspec hsink hK => peerConstraints_of_alike hnd houtline hcopy.id hpads hspec hsink
        fun p hp hp' hid => hsinks p hp hp' (hid ▸ hK)
    obtain rfl : specs' = specs := Except.ok.inj (hthrough.symm.trans hspecs)
    exact hmerge

end

end Patchbay.GraphState
