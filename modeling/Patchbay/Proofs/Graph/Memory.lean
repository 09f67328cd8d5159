import Patchbay.Proofs.Graph.Cascade

/-!
# A pass without memory

Of a graph without cycles the next pass reads what is *stored*: which pads there are, of which
direction and kind, the values of properties, and the links. Two graphs in which the same is stored
come out of a pass as one and the same graph, but for the order of their nodes (`Alike.pass`),
whatever the pads of either declared before.
-/

namespace Patchbay

/-! ### What is stored -/

/-- The id, the direction and kind, and the value if the pad retains one. Constraints are not
stored, but inferred anew. -/
def PadState.stored (p : PadState) : PadState where
  id := p.id
  padType := p.padType
  value := if p.isProperty then p.value else none

/-- The node without what resolution infers: the stored parts of its pads (`PadState.stored`), and
no mark. -/
def NodeEntry.stored (e : NodeEntry) : NodeEntry :=
  { e with pads := e.pads.map PadState.stored, state := .unresolved }

theorem PadState.stored_eq_iff {p q : PadState} :
    p.stored = q.stored ↔ p.id = q.id ∧ p.padType = q.padType ∧
      (p.isProperty = true → p.value = q.value) := by
  simp only [stored, PadState.mk.injEq, true_and, and_true]
  refine and_congr_right fun _ => and_congr_right fun htype => ?_
  rw [isProperty, isProperty, htype]
  cases q.padType.isProperty <;> simp

theorem NodeEntry.stored_eq_iff {e d : NodeEntry} :
    e.stored = d.stored ↔ e.id = d.id ∧ e.nodeType = d.nodeType ∧ e.editor = d.editor ∧
      e.pads.map PadState.stored = d.pads.map PadState.stored ∧ e.body = d.body := by
  simp only [stored, NodeEntry.mk.injEq, true_and]

theorem NodeEntry.stored_of_bare {e d : NodeEntry} (h : e.bare = d.bare) :
    e.stored = d.stored := by
  obtain ⟨hid, htype, heditor, hpads, hbody⟩ := NodeEntry.bare_eq_iff.mp h
  refine NodeEntry.stored_eq_iff.mpr ⟨hid, htype, heditor, ?_, hbody⟩
  have hbare : ∀ pads : List PadState,
      (pads.map PadState.bare).map PadState.stored = pads.map PadState.stored := by
    intro pads
    rw [List.map_map]
    rfl
  rw [← hbare, hpads, hbare]

theorem findPad_stored (id : String) (pads : List PadState) :
    findPad id (pads.map PadState.stored) = (findPad id pads).map PadState.stored := by
  rw [findPad, List.find?_map]
  rfl

/-- What a declaration makes of a pad depends on what is stored. -/
theorem GraphState.mergedPad_of_stored {pads pads' : List PadState}
    (h : pads.map PadState.stored = pads'.map PadState.stored)
    (spec : PadSpec) : mergedPad pads spec = mergedPad pads' spec := by
  have hkept : ∀ p : PadState, p.merge spec = p.stored.merge spec := by
    intro p
    have hprop : p.stored.isProperty = p.isProperty := rfl
    rw [PadState.merge, PadState.merge, PadState.keptValue, PadState.keptValue, hprop,
      PadState.stored]
    cases p.isProperty <;> simp
  have hmap : ∀ pads : List PadState, mergedPad pads spec = mergedPad
      (pads.map PadState.stored) spec := by
    intro pads
    rw [mergedPad, mergedPad, findPad_stored]
    cases findPad spec.id pads with
    | none => rfl
    | some p => exact hkept p
  rw [hmap, h, ← hmap]

/-- The value of a property is stored. -/
theorem NodeView.property_of_stored {view view' : NodeView}
    (h : view.pads.map PadState.stored = view'.pads.map PadState.stored) {id : String}
    (hprop : ∀ p ∈ view.pads, p.id = id → p.isProperty = true) :
    view.property id = view'.property id := by
  have hfind : (findPad id view.pads).map PadState.stored =
      (findPad id view'.pads).map PadState.stored := by
    rw [← findPad_stored, h, findPad_stored]
  have hvalue : (findPad id view.pads).bind (·.value) = (findPad id view'.pads).bind
      (·.value) := by
    cases hp : findPad id view.pads with
    | none =>
      rw [hp] at hfind
      rw [Option.map_eq_none_iff.mp hfind.symm]
    | some p =>
      rw [hp] at hfind
      obtain ⟨q, hq, hqp⟩ := Option.map_eq_some_iff.mp hfind.symm
      obtain ⟨hmem, hid⟩ := findPad_eq_some hp
      rw [hq]
      exact (PadState.stored_eq_iff.mp hqp.symm).2.2 (hprop p hmem hid)
  simp only [property, pad?, hvalue]

/-- A node in which the same is stored is of the same built-in type. -/
theorem NodeEntry.OfBuiltin.of_stored {e d : NodeEntry} {type : NodeType} (h : e.OfBuiltin type)
    (hstored : e.stored = d.stored) : d.OfBuiltin type := by
  obtain ⟨-, -, -, hpads, hbody⟩ := NodeEntry.stored_eq_iff.mp hstored
  refine ⟨hbody ▸ h.body, h.builtin, fun view specs hspecs spec hspec q hq hid => ?_⟩
  obtain ⟨p, hp, hpq⟩ := List.mem_map.mp (hpads ▸ List.mem_map_of_mem hq)
  obtain ⟨hpid, htype, -⟩ := PadState.stored_eq_iff.mp hpq
  exact htype.symm.trans (h.padType view specs hspecs spec hspec p hp (hpid.trans hid))

namespace GraphState

variable {R : InnerResolver} {s t u v : GraphState} {f : NodeEntry → NodeEntry} {e d : NodeEntry}
  {type : NodeType} {order order' : List Nat}

/-! ### Graphs alike -/

/-- The same links, and nodes that are the same in what `f` keeps of them, in any order. For `f`
there are the stored parts before a pass, and the bare ones after it. -/
structure Alike (f : NodeEntry → NodeEntry) (s t : GraphState) : Prop where
  nodes : (s.nodes.map f).Perm (t.nodes.map f)
  links : s.links = t.links

theorem Alike.refl (f : NodeEntry → NodeEntry) (s : GraphState) : s.Alike f s := ⟨.refl _, rfl⟩

theorem Alike.symm (h : s.Alike f t) : t.Alike f s := ⟨h.nodes.symm, h.links.symm⟩

theorem Alike.trans (h : s.Alike f t) (h' : t.Alike f u) : s.Alike f u :=
  ⟨h.nodes.trans h'.nodes, h.links.trans h'.links⟩

theorem Alike.length (h : s.Alike f t) : s.nodes.length = t.nodes.length := by
  simpa only [List.length_map] using h.nodes.length_eq

theorem Alike.exists_eq (h : s.Alike f t) (he : e ∈ s.nodes) : ∃ d ∈ t.nodes, f d = f e :=
  List.mem_map.mp (h.nodes.mem_iff.mp (List.mem_map_of_mem he))

theorem Alike.distinct (h : s.Alike f t) (hf : ∀ e, (f e).id = e.id)
    (hs : (s.nodes.map (·.id)).Nodup) : (t.nodes.map (·.id)).Nodup := by
  have hids : ∀ s : GraphState, s.nodes.map (·.id) = (s.nodes.map f).map (·.id) := by
    intro s
    rw [List.map_map]
    exact List.map_congr_left fun e _ => (hf e).symm
  rw [hids] at hs ⊢
  exact (h.nodes.map _).nodup_iff.mp hs

/-- Nodes of the same id are the same in what is kept. -/
theorem Alike.node? (h : s.Alike f t) (hf : ∀ e, (f e).id = e.id)
    (hs : (s.nodes.map (·.id)).Nodup) (id : String) : (s.node? id).map f = (t.node? id).map f := by
  have ht := h.distinct hf hs
  cases he : s.node? id with
  | some e =>
    obtain ⟨hmem, rfl⟩ := node?_eq_some he
    obtain ⟨d, hd, hde⟩ := h.exists_eq hmem
    have hid : d.id = e.id := by rw [← hf d, hde, hf e]
    rw [← hid, node?_of_mem ht hd, Option.map_some, Option.map_some, hde]
  | none =>
    cases hd : t.node? id with
    | none => rfl
    | some d =>
      obtain ⟨hmem, rfl⟩ := node?_eq_some hd
      obtain ⟨e, he', hed⟩ := h.symm.exists_eq hmem
      have hid : e.id = d.id := by rw [← hf e, hed, hf d]
      rw [← hid, node?_of_mem hs he'] at he
      cases he

/-- Changes that what is kept determines are alike, whatever order the nodes are in. -/
theorem Alike.map (h : s.Alike f t) {g k : NodeEntry → NodeEntry}
    (hgk : ∀ e ∈ s.nodes, ∀ d ∈ t.nodes, f e = f d → g e = k d) :
    (s.nodes.map g).Perm (t.nodes.map k) := by
  have hperm : ∀ as bs : List NodeEntry, (as.map f).Perm (bs.map f) →
      (∀ a ∈ as, ∀ b ∈ bs, f a = f b → g a = k b) → (as.map g).Perm (bs.map k) := by
    intro as
    induction as with
    | nil =>
      intro bs hbs _
      rw [List.map_nil, List.nil_perm, List.map_eq_nil_iff] at hbs
      rw [hbs]
      exact .nil
    | cons a as ih =>
      intro bs hbs heq
      obtain ⟨b, hb, hba⟩ := List.mem_map.mp (hbs.mem_iff.mp List.mem_cons_self)
      obtain ⟨l₁, l₂, rfl⟩ := List.append_of_mem hb
      have hrest : (as.map f).Perm ((l₁ ++ l₂).map f) := by
        rw [List.map_append, List.map_cons, List.map_cons, hba] at hbs
        rw [List.map_append]
        exact (hbs.trans List.perm_middle).cons_inv
      have hsub : ∀ c ∈ l₁ ++ l₂, c ∈ l₁ ++ b :: l₂ := by
        intro c hc
        rw [List.mem_append, List.mem_cons]
        exact (List.mem_append.mp hc).imp_right .inr
      have htail := ih _ hrest fun c hc d hd => heq c (List.mem_cons_of_mem _ hc) d (hsub d hd)
      rw [List.map_cons, heq a List.mem_cons_self b hb hba.symm, List.map_append, List.map_cons]
      rw [List.map_append] at htail
      exact (htail.cons _).trans List.perm_middle.symm
  exact hperm _ _ h.nodes hgk

/-- What is kept may be kept in part only. -/
theorem Alike.of_comp (h : s.Alike f t) {g : NodeEntry → NodeEntry}
    (hg : ∀ e d, f e = f d → g e = g d) : s.Alike g t :=
  ⟨h.map fun e _ d _ => hg e d, h.links⟩

/-- Pads at the same address are the same but for their effective constraints. -/
theorem Alike.pad? (h : s.Alike NodeEntry.bare t) (hs : (s.nodes.map (·.id)).Nodup) (r : PadRef) :
    (s.pad? r).map PadState.bare = (t.pad? r).map PadState.bare := by
  have hnode := h.node? (fun _ => rfl) hs r.node
  have hpad : ∀ s : GraphState, (s.pad? r).map PadState.bare =
      ((s.node? r.node).map NodeEntry.bare).bind (·.pad? r.pad) := by
    intro s
    rw [GraphState.pad?]
    cases s.node? r.node with
    | none => rfl
    | some e => exact (findPad_bare r.pad e.pads).symm
  rw [hpad, hnode, ← hpad]

theorem Alike.isSound (h : s.Alike NodeEntry.bare t) (hs : (s.nodes.map (·.id)).Nodup) (l : Link) :
    s.isSound l = t.isSound l := by
  have hany : ∀ (s : GraphState) (r : PadRef) (g : PadState → Bool), (∀ p, g p.bare = g p) →
      (s.pad? r).any g = ((s.pad? r).map PadState.bare).any g := by
    intro s r g hg
    rw [Option.any_map]
    exact congrArg (Option.any · _) (funext fun p => (hg p).symm)
  rw [GraphState.isSound, GraphState.isSound, hany s _ _ fun _ => rfl, hany s _ _ fun _ => rfl,
    hany t _ _ fun _ => rfl, hany t _ _ fun _ => rfl, h.pad? hs, h.pad? hs]

/-- Dropping links that lost an end keeps graphs alike. -/
theorem Alike.pruneLinks (h : s.Alike NodeEntry.bare t) (hs : (s.nodes.map (·.id)).Nodup) :
    s.pruneLinks.1.Alike NodeEntry.bare t.pruneLinks.1 := by
  refine ⟨h.nodes, ?_⟩
  show s.links.filter s.isSound = t.links.filter t.isSound
  rw [h.links, funext (h.isSound hs)]

/-! ### Graphs without cycles -/

/-- A graph of nodes of built-in types in which no node feeds itself, directly or through others
(`Flat`, `Acyclic`). -/
structure Cascading (s : GraphState) : Prop where
  distinct : (s.nodes.map (·.id)).Nodup
  flat : s.Flat
  acyclic : s.Acyclic

namespace Passed

variable (h : s.Passed u)

include h

theorem ids : u.nodes.map (·.id) = s.nodes.map (·.id) := by
  rw [h.nodes, List.map_map]
  rfl

theorem node? (id : String) : u.node? id = (s.node? id).map u.redeclared := by
  rw [GraphState.node?, h.nodes, List.find?_map]
  rfl

theorem cascading (hs : s.Cascading) : u.Cascading := by
  refine ⟨h.ids ▸ hs.distinct, fun e' he' => ?_, hs.acyclic.of_sublist (h.links ▸ .refl _)⟩
  rw [h.nodes] at he'
  obtain ⟨e, he, rfl⟩ := List.mem_map.mp he'
  obtain ⟨type, hof⟩ := hs.flat e he
  exact ⟨type, ofBuiltin_redeclared hof u⟩

end Passed

theorem Cascading.pruneLinks (h : s.Cascading) : s.pruneLinks.1.Cascading :=
  ⟨h.distinct, h.flat, h.acyclic.of_sublist List.filter_sublist⟩

/-- In graphs in which the same is stored a node comes out of a pass as the same node, by induction
along the links (`Acyclic.induction`). -/
theorem pads_redeclared_of_alike (hs : s.Cascading) (h : s.Alike NodeEntry.stored t)
    (hsu : s.Passed u) (htv : t.Passed v) :
    ∀ e ∈ s.nodes, ∀ d ∈ t.nodes, e.stored = d.stored →
      (u.redeclared e).pads = (v.redeclared d).pads := by
  refine hs.acyclic.induction hs.distinct fun e he ih d hd hed => ?_
  obtain ⟨type, hof⟩ := hs.flat e he
  obtain ⟨hid, -, -, hpads, -⟩ := NodeEntry.stored_eq_iff.mp hed
  have hdecl : v.declares d = u.declares e := by
    refine declares_congr hof (hof.of_stored hed) (fun spec hspec hprop _ => ?_)
      fun spec hspec hsink => ?_
    · refine NodeView.property_of_stored hpads fun p hp hpid => ?_
      rw [PadState.isProperty, hof.padType _ _ (resolve_declares hof) spec hspec p hp hpid]
      exact hprop
    · have hfind : (findPad spec.id e.pads).isSome = (findPad spec.id d.pads).isSome := by
        have hmap := congrArg (fun pads => (findPad spec.id pads).isSome) hpads
        simpa only [findPad_stored, Option.isSome_map] using hmap
      have hfeeder : u.feeder = v.feeder := by
        funext r
        rw [feeder, feeder, hsu.links, htv.links, h.links]
      rw [fed, fed, hfind, hfeeder, hid]
      cases hf : v.feeder ⟨d.id, spec.id⟩ with
      | none => rfl
      | some r =>
        obtain ⟨l, hl, rfl⟩ := Option.map_eq_some_iff.mp hf
        have hlsink : l.sink = ⟨d.id, spec.id⟩ := by simpa using List.find?_some hl
        have hl : l ∈ s.links := h.links ▸ htv.links ▸ List.mem_of_find?_eq_some hl
        have hpad : u.pad? l.source = v.pad? l.source := by
          have hnode := h.node? (fun _ => rfl) hs.distinct l.source.node
          rw [GraphState.pad?, GraphState.pad?, hsu.node?, htv.node?]
          cases hg : s.node? l.source.node with
          | none =>
            rw [hg] at hnode
            rw [Option.map_eq_none_iff.mp hnode.symm]
            rfl
          | some g =>
            rw [hg] at hnode
            obtain ⟨k, hk, hkg⟩ := Option.map_eq_some_iff.mp hnode.symm
            obtain ⟨hgmem, hgid⟩ := node?_eq_some hg
            have hfeeds : s.Feeds g.id e.id := ⟨l, hl, hgid.symm, by rw [hlsink, hid]⟩
            have hsame := ih g hgmem hfeeds k (node?_eq_some hk).1 hkg.symm
            rw [hk, Option.map_some, Option.map_some, Option.bind_some, Option.bind_some,
              NodeEntry.pad?, NodeEntry.pad?, hsame]
        rw [Option.bind_some, Option.bind_some, declared?, declared?, hpad]
  rw [redeclared, redeclared, hdecl]
  exact List.map_congr_left fun spec _ => mergedPad_of_stored hpads spec

/-- Graphs in which the same is stored come out of a pass alike (`Passed`), up to effective
constraints. -/
theorem Alike.passed (h : s.Alike NodeEntry.stored t) (hs : s.Cascading) (hsu : s.Passed u)
    (htv : t.Passed v) : u.Alike NodeEntry.bare v := by
  refine ⟨?_, hsu.links.trans (h.links.trans htv.links.symm)⟩
  rw [hsu.nodes, htv.nodes, List.map_map, List.map_map]
  refine h.map fun e he d hd hed => ?_
  obtain ⟨hid, htype, heditor, -, hbody⟩ := NodeEntry.stored_eq_iff.mp hed
  have hpads := pads_redeclared_of_alike hs h hsu htv e he d hd hed
  exact NodeEntry.bare_eq_iff.mpr ⟨hid, htype, heditor, congrArg _ hpads, hbody⟩

end GraphState

end Patchbay
