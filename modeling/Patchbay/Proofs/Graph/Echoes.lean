import Patchbay.Proofs.Graph.Stores

/-!
# Written values at rest

A value is written to a resolved graph at the end of a chain of proxies, and to the proxies on the
way. If the type of the node there declares its pads without looking at values
(`NodeType.Heedless`), and the pad accepts the value, then resolution has nothing else to do: all
nodes show the faces that they have shown before (`GraphState.Echoes`), level by level
(`echoes_reconcileWithin`). So the pad still accepts the value, and keeps it.
-/

namespace Patchbay

/-- What a node of the type declares is determined by its id and by what its pads see. The values
of its properties have no influence. -/
def NodeType.Heedless (t : NodeType) : Prop :=
  ∀ view view' : NodeView, view.node = view'.node → view.peers = view'.peers →
    t.resolve view = t.resolve view'

namespace GraphState

/-- Beyond effective constraints, the graphs differ in one node only, and this shows the same face
(`NodeEntry.face`). -/
structure SameBut (s : GraphState) (i : Nat) (e d : NodeEntry) (t : GraphState) : Prop where
  links : t.links = s.links
  place : s.nodes[i]? = some e
  nodes : t.nodes.map NodeEntry.bare = (s.nodes.map NodeEntry.bare).set i d.bare
  face : d.face = e.face

/-- The graph `t` is `s`, but at the end of the chain of targets that begins at an address a pad of
a node of the type bears the value. -/
inductive Echoes (type : NodeType) (pad : String) (v : Json) : GraphState → PadRef → GraphState →
    Prop where
  | plugin {s t : GraphState} {i : Nat} {e d : NodeEntry} {p : PadState}
      (level : s.SameBut i e d t)
      (body : e.body = .plugin type) (same : d.body = e.body) (here : findPad pad d.pads = some p)
      (bears : p.Bears v) (accepts : p.declared.accept v = true) :
      Echoes type pad v s ⟨e.id, pad⟩ t
  | proxy {s t inner inner' : GraphState} {i : Nat} {e d : NodeEntry} {id id' : Option String}
      {q : PadRef}
      (level : s.SameBut i e d t) (body : e.body = .subgraph id inner)
      (body' : d.body = .subgraph id' inner')
      (unlinked : inner.Unlinked q) (inside : Echoes type pad v inner q inner') :
      Echoes type pad v s ⟨e.id, proxyPadId q⟩ t

variable {type : NodeType} {pad : String} {v : Json} {R : InnerResolver} {config : EngineConfig}
  {external : External} {s s' t t' u inner inner' : GraphState} {e d c : NodeEntry} {p : PadState}
  {r q : PadRef}
  {id : Option String} {i j : Nat} {changed : Bool}

/-! ### Graphs that differ in one node -/

namespace SameBut

variable (h : s.SameBut i e d t)

include h

theorem mem : e ∈ s.nodes := List.mem_of_getElem? h.place

theorem faces : t.faces = s.faces := by
  have hface : ∀ s : GraphState, s.faces = (s.nodes.map NodeEntry.bare).map NodeEntry.face := by
    intro s
    rw [GraphState.faces, List.map_map]
    exact List.map_congr_left fun e _ => e.face_bare.symm
  have hplace : (s.nodes.map NodeEntry.bare)[i]? = some e.bare := by
    rw [List.getElem?_map, h.place, Option.map_some]
  rw [hface t, h.nodes,
    map_set_of_eq hplace (by rw [NodeEntry.face_bare, NodeEntry.face_bare, h.face]), ← hface]

/-- Every node of the second graph is one of the first, or the one that differs. -/
theorem node (hc : t.nodes[j]? = some c) :
    (∃ b ∈ s.nodes, b.bare = c.bare) ∧ i ≠ j ∨ i = j ∧ c.bare = d.bare := by
  have hbare : (t.nodes.map NodeEntry.bare)[j]? = some c.bare := by
    rw [List.getElem?_map, hc, Option.map_some]
  rw [h.nodes, List.getElem?_set] at hbare
  by_cases hij : i = j
  · subst hij
    rw [if_pos rfl] at hbare
    split at hbare
    · exact .inr ⟨rfl, (Option.some.inj hbare).symm⟩
    · cases hbare
  · rw [if_neg hij, List.getElem?_map] at hbare
    obtain ⟨b, hb, hbc⟩ := Option.map_eq_some_iff.mp hbare
    exact .inl ⟨⟨b, List.mem_of_getElem? hb, hbc⟩, hij⟩

/-- The node that differs is there. -/
theorem exists_mem : ∃ c ∈ t.nodes, c.bare = d.bare := by
  have hlt : i < (s.nodes.map NodeEntry.bare).length := by
    simpa using (List.getElem?_eq_some_iff.mp h.place).1
  have hmem : d.bare ∈ t.nodes.map NodeEntry.bare := h.nodes ▸ List.mem_set hlt _
  exact List.mem_map.mp hmem

theorem congr (hlinks : t'.links = t.links)
    (hnodes : t'.nodes.map NodeEntry.bare = t.nodes.map NodeEntry.bare) : s.SameBut i e d t' :=
  ⟨hlinks.trans h.links, h.place, hnodes.trans h.nodes, h.face⟩

theorem of_bare (hbare : t'.bare = t.bare) : s.SameBut i e d t' :=
  h.congr (bare_eq_iff.mp hbare).2 (bare_eq_iff.mp hbare).1

/-- The node that differs may be replaced by one of the same face. -/
theorem replace (hc : c.face = e.face) : s.SameBut i e c { t with nodes := t.nodes.set i c } :=
  ⟨h.links, h.place, by rw [List.map_set, h.nodes, List.set_set], hc⟩

theorem view_peers (hc : c.bare = d.bare) (external : External) :
    c.id = e.id ∧ c.pads.map PadState.face = e.pads.map PadState.face ∧
      t.peerViews external c = s.peerViews external e := by
  obtain ⟨hid, -, -, hpads, -⟩ := NodeEntry.bare_eq_iff.mp hc
  obtain ⟨hid', hfaces⟩ := Prod.mk.inj h.face
  have hface := (map_face_of_bare hpads).trans hfaces
  exact ⟨hid.trans hid', hface,
    peerViews_congr h.links h.faces (hid.trans hid') (map_outline_of_face hface)⟩

end SameBut

/-! ### Echoes -/

theorem Echoes.of_bare (h : s.Echoes type pad v r t) (hbare : t'.bare = t.bare) :
    s.Echoes type pad v r t' := by
  cases h with
  | plugin level body same here bears accepts =>
    exact .plugin (level.of_bare hbare) body same here bears accepts
  | proxy level body body' unlinked inside =>
    exact .proxy (level.of_bare hbare) body body' unlinked inside

theorem Echoes.same (h : s.Echoes type pad v r t) : t.links = s.links ∧ t.faces = s.faces := by
  cases h with
  | plugin level => exact ⟨level.links, level.faces⟩
  | proxy level => exact ⟨level.links, level.faces⟩

/-- What is written is stored (`GraphState.Stores`), at the end of the chain and at all proxies on
the way. -/
theorem Echoes.stores (h : s.Echoes type pad v r t) : t.Stores type pad v r := by
  induction h with
  | plugin level body same here bears accepts =>
    obtain ⟨c, hc, hcd⟩ := level.exists_mem
    obtain ⟨hid, -, -, hpads, hbody⟩ := NodeEntry.bare_eq_iff.mp hcd
    obtain ⟨p', hp', hpp⟩ := findPad_of_bare hpads here
    rw [← (Prod.mk.inj level.face).1, ← hid]
    exact .plugin hc (hbody.trans (same.trans body)) hp' (bears.of_bare hpp)
  | proxy level body body' unlinked inside ih =>
    obtain ⟨c, hc, hcd⟩ := level.exists_mem
    obtain ⟨hid, -, -, -, hbody⟩ := NodeEntry.bare_eq_iff.mp hcd
    rw [← (Prod.mk.inj level.face).1, ← hid]
    exact .proxy hc (hbody.trans body') (fun l hl => unlinked l (inside.same.1 ▸ hl)) ih

/-! ### What a graph exposes -/

/-- What a graph exposes, without values (`PadState.face`). -/
def exposedFaces (s : GraphState) : List PadState :=
  s.exposedPads.map fun spec => (PadState.ofSpec spec).face

/-- Narrowing leaves to a pad without links what it starts with. -/
theorem effective_of_narrow (h : u.narrow external = .ok t) (hr : u.Unlinked r)
    (hp : t.pad? r = some p) :
    p.effective = (startOf external r.node p).effective := by
  rw [pad?_narrow_of_unlinked hr h] at hp
  obtain ⟨q, -, rfl⟩ := Option.map_eq_some_iff.mp hp
  rw [startOf_eq, startOf_eq]

/-- What a narrowed graph exposes is determined by its links, its faces, and what is seen from
outside. So a written value does not show in the declarations outside. -/
theorem exposedFaces_eq (hs : s.WellFormed) (hlinks : t.links = s.links)
    (hfaces : t.faces = s.faces)
    (h : (u.narrow external).map markResolved = .ok t) :
    t.exposedFaces = s.faces.flatMap fun x => (x.2.filter fun f => !s.isLinked ⟨x.1, f.id⟩ f).map
    fun f =>
      (PadState.ofSpec (proxySpec ⟨x.1, f.id⟩ (startOf external x.1 f))).face := by
  obtain ⟨w, hw, rfl⟩ := map_eq_ok_iff.mp h
  have hids : (w.markResolved.nodes.map (·.id)).Nodup := by
    have hmap := congrArg (List.map Prod.fst) hfaces
    simp only [faces, List.map_map, Function.comp_def, NodeEntry.face] at hmap
    exact hmap ▸ hs.distinctNodes
  have hlinked : w.markResolved.isLinked = s.isLinked := by
    funext here p
    rw [isLinked, isLinked, downstream, downstream, feeder, feeder, hlinks]
  rw [← hfaces, exposedFaces, exposedPads, faces, List.flatMap_map, List.map_flatMap, hlinked]
  refine List.flatMap_congr fun e he => ?_
  rw [NodeEntry.face, List.filter_map, List.map_map, List.map_map]
  refine List.map_congr_left fun p hp => ?_
  obtain ⟨hp, hun⟩ := List.mem_filter.mp hp
  -- the pad has its face in the other graph, where it has no links either
  have hface : e.face ∈ s.faces := hfaces ▸ List.mem_map_of_mem he
  obtain ⟨c, hc, hce⟩ := List.mem_map.mp hface
  obtain ⟨hid, hpads⟩ := Prod.mk.inj hce
  have hpface : p.face ∈ c.pads.map PadState.face := hpads ▸ List.mem_map_of_mem hp
  obtain ⟨d, hd, hdp⟩ := List.mem_map.mp hpface
  obtain ⟨hdid, -, htype, -⟩ := PadState.face_eq_iff.mp hdp
  have hnd : (e.pads.map (·.id)).Nodup := by
    have hmap := congrArg (List.map (·.id)) hpads
    simp only [List.map_map, Function.comp_def, PadState.face] at hmap
    exact hmap ▸ hs.distinctPads c hc
  have hunlinked : s.Unlinked ⟨c.id, d.id⟩ := by
    have hsame : s.isLinked ⟨c.id, d.id⟩ d = s.isLinked ⟨e.id, p.id⟩ p := by
      rw [hid, hdid, isLinked, isLinked, PadState.isSource, htype, PadState.isSource]
    exact (hs.isLinked_eq_false hc hd).mp (hsame.trans (by simpa using hun))
  have hpad : w.pad? ⟨e.id, p.id⟩ = some p := by
    rw [← pad?_markResolved, pad?_of_mem hids he, findPad_of_mem hnd hp]
  have heffective := effective_of_narrow hw (r := ⟨e.id, p.id⟩) (fun l hl => ?_) hpad
  · rw [Function.comp_apply, Function.comp_apply, startOf_eq]
    rw [startOf_eq] at heffective
    exact PadState.face_eq_iff.mpr ⟨rfl, rfl, rfl, heffective, rfl⟩
  · rw [← hid, ← hdid]
    exact hunlinked l (hlinks ▸ (bare_eq_iff.mp (narrow_agrees hw).1).2 ▸ hl)

/-! ### Resolution -/

theorem face_mergedPad (pads : List PadState) (spec : PadSpec) :
    (mergedPad pads spec).face = (PadState.ofSpec spec).face := by
  obtain ⟨value, h, -⟩ := mergedPad_eq pads spec
  rw [h]
  rfl

/-- How graphs inside the nodes of a resolved graph are resolved if they echo what they were: they
echo it still, and expose the same. It is the hypothesis of the induction on the depth. -/
def Repeats (type : NodeType) (pad : String) (v : Json) (R : InnerResolver) (external : External)
    (s : GraphState) :
    Prop :=
  ∀ e ∈ s.nodes, ∀ id inner, e.body = .subgraph id inner → ∀ q t t', inner.Echoes type pad v q t →
    R (externalOf e.pads (s.peerViews external e)) t = .ok t' →
    inner.Echoes type pad v q t' ∧ t'.exposedFaces = inner.exposedFaces

section

variable (hheed : type.Heedless) (htame : type.Tame) (hset : Settled R external s)
  (hreads : s.ReadsValues) (hR : Repeats type pad v R external s)

include hheed htame hset hreads hR

/-- Resolved once more, a node comes back to what it was, or it is the one where the value is
written, which shows the same face and keeps the value (`SameBut`). -/
theorem echoes_resolveNode (h : s.Echoes type pad v r t) (hj : t.nodes[j]? = some c)
    (hnode : resolveNode R external t c = .ok (d, changed)) :
    s.Echoes type pad v r { t with nodes := t.nodes.set j d } := by
  have hother : ∀ {i e b}, s.SameBut i e b t → (∃ b ∈ s.nodes, b.bare = c.bare) →
      ({ t with nodes := t.nodes.set j d } : GraphState).bare = t.bare := by
    rintro i e d₀ level ⟨b, hb, hbc⟩
    obtain ⟨d', hd', hbare⟩ :=
      ((hset b hb).congr (hreads b hb) level.links.symm level.faces.symm hbc).resolveNode
    obtain rfl : d = d' := (Prod.mk.inj (Except.ok.inj (hnode.symm.trans hd'))).1
    exact bare_eq_iff.mpr ⟨map_set_of_eq hj hbare, rfl⟩
  obtain ⟨specs, body, hbody, hnd, hd, -⟩ := resolveNode_eq_ok hnode
  -- declarations that show the face of the resolved node make it one with this face
  have hface : ∀ {e : NodeEntry}, c.id = e.id →
      (specs.map fun spec => (PadState.ofSpec spec).face) =
      e.pads.map PadState.face → d.face = e.face := by
    intro e hid hspecs
    rw [hd, NodeEntry.face, NodeEntry.face, hid, ← hspecs, List.map_map]
    exact congrArg _ (List.map_congr_left fun spec _ => face_mergedPad _ _)
  cases h with
  | @plugin s t i e b p level hb same here bears accepts =>
    rcases level.node hj with ⟨hc, -⟩ | ⟨rfl, hcb⟩
    · exact Echoes.of_bare (.plugin level hb same here bears accepts) (hother level hc)
    · obtain ⟨hid, hfaces, hpeers⟩ := level.view_peers hcb external
      obtain ⟨-, -, -, hpads, hcbody⟩ := NodeEntry.bare_eq_iff.mp hcb
      obtain ⟨hspecs, rfl⟩ := (resolveBody_of_plugin (hcbody.trans (same.trans hb))).mp hbody
      -- seen from this node everything is as before
      obtain ⟨specs₀, hspecs₀, -, hbare⟩ := hset e level.mem
      rw [hheed _ (s.view external e) hid hpeers] at hspecs
      obtain rfl : specs₀ = specs :=
        Except.ok.inj (((resolveBody_of_plugin hb).mp (hb ▸ hspecs₀)).1.symm.trans hspecs)
      have hdeclared := map_face_of_bare hbare
      rw [List.map_map] at hdeclared
      have hof : (specs₀.map fun spec => (PadState.ofSpec spec).face) = e.pads.map PadState.face :=
        (List.map_congr_left fun spec _ => (face_mergedPad e.pads spec).symm).trans hdeclared
      obtain ⟨p', hp', hpp⟩ := findPad_of_bare hpads here
      obtain ⟨hmem, rfl⟩ := findPad_eq_some hp'
      have hpface : p'.face ∈ specs₀.map fun spec => (PadState.ofSpec spec).face :=
        hof ▸ hfaces ▸ List.mem_map_of_mem hmem
      obtain ⟨spec, hspec, heq⟩ := List.mem_map.mp hpface
      obtain ⟨hspecid, -, htype, hconstraints, -⟩ := PadState.face_eq_iff.mp heq
      have hbears := bears.of_bare hpp
      have haccepts : spec.constraints.accept v = true := by
        rw [← (PadState.bare_eq_iff.mp hpp).2.2.2.1, ← hconstraints] at accepts
        exact accepts
      have hretains : spec.Retains v := by
        refine ⟨?_, (htame.consistent _ _ hspecs spec hspec).1, haccepts⟩
        exact (congrArg PadType.isProperty htype).trans hbears.property
      have hspecid : spec.id = p'.id := hspecid
      rw [← hspecid] at hp'
      obtain ⟨p'', hp'', hbears'', hdecl⟩ := exists_bears_of_retains hnd hspec hretains hp' hbears
      rw [hspecid] at hp''
      exact .plugin (level.replace (hface hid hof)) hb (by rw [hd, hb]) (by rw [hd, hp'']) hbears''
        (hdecl ▸ haccepts)
  | @proxy s t inner inner' i e b id id' q level hb hb' unlinked inside =>
    rcases level.node hj with ⟨hc, -⟩ | ⟨rfl, hcb⟩
    · exact Echoes.of_bare (.proxy level hb hb' unlinked inside) (hother level hc)
    · obtain ⟨hid, hfaces, hpeers⟩ := level.view_peers hcb external
      obtain ⟨-, -, -, -, hcbody⟩ := NodeEntry.bare_eq_iff.mp hcb
      obtain ⟨inner'', hinner, rfl, rfl⟩ := (resolveBody_of_subgraph (hcbody.trans hb')).mp hbody
      rw [view, externalOf_congr _ (map_outline_of_face hfaces), hpeers] at hinner
      obtain ⟨hinside, hexposed⟩ := hR e level.mem id inner hb q inner' inner'' inside hinner
      have hpads := map_face_of_bare ((hset e level.mem).resolved hb).2
      rw [List.map_map] at hpads
      exact .proxy (level.replace (hface hid (hexposed.trans hpads))) hb
        (by rw [hd]) unlinked hinside

end

section

variable (hheed : type.Heedless) (htame : type.Tame)

include hheed htame

/-- A graph in which a value was written to a resolved one comes out as one (`Echoes`), and exposes
what the other does. -/
theorem echoes_reconcileWith (hs : s.WellFormed) (hrest : Reconciled R external s)
    (hR : Repeats type pad v R external s) (h : s.Echoes type pad v r t)
    (hrec : reconcileWith R config external t = .ok t') :
    s.Echoes type pad v r t' ∧ t'.exposedFaces = s.exposedFaces := by
  have hpass : ∀ u u' changed, s.Echoes type pad v r u →
      pass R external t.dependencyOrder u = .ok (u', changed) → s.Echoes type pad v r u' := by
    refine fun u u' changed => pass_invariant (fun u u' j changed hu hstep => ?_) fun u hu => ?_
    · obtain ⟨-, rfl⟩ | ⟨c, d, hj, hnode, rfl⟩ := resolveAt_cases hstep
      · exact hu
      · exact echoes_resolveNode hheed htame hrest.settled hrest.reads hR hu hj hnode
    · refine hu.of_bare (bare_eq_iff.mpr ⟨rfl, List.filter_eq_self.mpr fun l hl => ?_⟩)
      rw [isSound_congr hu.same.2]
      exact hrest.sound l (hu.same.1 ▸ hl)
  obtain ⟨s₀, s₁, s₂, hs₀, hlast, hnarrow, rfl⟩ :=
    reconcileWith_eq_ok (I := s.Echoes type pad v r) rfl hpass h hrec
  have hecho := (hpass _ _ _ hs₀ hlast).of_bare
    ((bare_markResolved s₂).trans (narrow_agrees hnarrow).1)
  refine ⟨hecho, ?_⟩
  rw [exposedFaces_eq hs hecho.same.1 hecho.same.2 (map_eq_ok_iff.mpr ⟨s₂, hnarrow, rfl⟩),
    exposedFaces_eq hs rfl rfl hrest.narrowed]

theorem echoes_reconcileWithin {T : String → NodeType → Prop} (hT : ∀ name t, T name t → t.Tame)
    {n : Nat}
    (hext : external.In Constraints.Plain) (hnested : s.Nested T Constraints.Plain n)
    (hs : s.Everywhere WellFormed) (hrest : Reconciled (innerResolver config n) external s)
    (h : s.Echoes type pad v r t) (hrec : reconcileWithin config n external t = .ok t') :
    s.Echoes type pad v r t' ∧ t'.exposedFaces = s.exposedFaces := by
  induction n generalizing external s t t' r with
  | zero =>
    refine echoes_reconcileWith hheed htame hs.self hrest (fun e he id inner hb => ?_) h hrec
    exact ((nested_zero_iff.mp hnested).fit e he).inner id inner hb |>.elim
  | succ n ih =>
    have horderly := nested_succ_iff.mp hnested
    refine echoes_reconcileWith hheed htame hs.self hrest
      (fun e he id inner hb q u u' hu hrec => ?_) h hrec
    have hin : (externalOf e.pads (s.peerViews external e)).In Constraints.Plain :=
      externalOf_in (peerViews_in (Regime.tame hT) hext horderly.padsIn e)
    have hinner := (horderly.fit e he).inner id inner hb
    exact ih hin hinner (hs.body he id inner hb)
      (reconciled_of_reconcileWithin hT hin hinner ((hrest.settled e he).resolved hb).1) hu hrec

end

end GraphState

end Patchbay
