import Patchbay.Proofs.Graph.Settling
import Patchbay.Proofs.Graph.FixedPoint
import Patchbay.Proofs.Node.Heeds

/-!
# Nodes under given sights

What a node of a built-in type declares depends on its properties and on what feeds its sinks. So
we can say how it would declare its pads if they were fed with something else (`NodeEntry.under`).
A node that stands as it declares its pads (`NodeEntry.Stands`) goes from one such state to the
next whenever it is resolved, and comes back to itself as soon as it is fed as before.
-/

namespace Patchbay

/-! ### Menus that come and go -/

namespace PadState

variable {p : PadState} {m₀ m₁ m₂ : List String}

open Compare (operatorSpec)

theorem keptValue_operatorSpec (hp : p.isProperty = true) (m : List String) :
    p.keptValue (operatorSpec m) =
      match p.value with
      | none => m.head?.map .str
      | some v =>
      if Constraints.accept (some [.enumeration m]) v then some v else m.head?.map .str := by
  rw [keptValue, hp]
  cases p.value <;> rfl

theorem accept_menu (m : List String) (v : Json) :
    Constraints.accept (some [.enumeration m]) v = (v.isNull || v.str?.any m.contains) := by
  rw [Constraints.accept, Constraint.anyAccepts, Constraint.anyAccepts, Bool.or_false,
    Constraint.accepts_enumeration]

/-- Under one menu after the other an operator ends up as under the second one alone, if the first
one is the one that it was declared with, or the second one, or if the operator was declared
without any options. -/
theorem merge_operatorSpec (hp : p.DeclaredBy (operatorSpec m₀))
    (hm₁ : m₁.head? = none ∨ m₁.head? = some "==") (hm₂ : m₂.head? = none ∨ m₂.head? = some "==")
    (h : m₁ = m₀ ∨ m₀ = [] ∨ m₁ = m₂) :
    (p.merge (operatorSpec m₁)).merge (operatorSpec m₂) = p.merge (operatorSpec m₂) := by
  have hprop : p.isProperty = true := congrArg PadType.isProperty hp.padType
  have hmerged : ∀ m, (p.merge (operatorSpec m)).isProperty = true := fun _ => rfl
  have hvalue : ∀ m, (p.merge (operatorSpec m)).value = p.keptValue (operatorSpec m) :=
    fun _ => rfl
  refine congrArg (declare _) ?_
  rcases h with rfl | rfl | rfl
  · rw [keptValue_operatorSpec (hmerged _), keptValue_operatorSpec hprop, hp.value]
  · have hkept := hp.value
    rw [hvalue, keptValue_operatorSpec hprop] at hkept
    rw [keptValue_operatorSpec (hmerged _), hvalue, keptValue_operatorSpec hprop,
      keptValue_operatorSpec hprop]
    cases hv : p.value with
    | none =>
      rw [hv] at hkept
      cases m₁ with
      | nil => rfl
      | cons o rest =>
        obtain rfl : o = "==" := by simpa using hm₁
        cases m₂ with
        | nil => rfl
        | cons o' rest' =>
          obtain rfl : o' = "==" := by simpa using hm₂
          simp [accept_menu, Json.str?]
    | some v =>
      -- only an unset value is kept without any options
      obtain rfl : v = .null := by
        rw [hv] at hkept
        cases v <;> simp [accept_menu, Json.str?, Json.isNull] at hkept ⊢
      simp [accept_menu, Json.isNull]
  · have hcons : (operatorSpec m₁).Consistent := by
      refine ⟨rfl, fun v hv => ?_⟩
      obtain ⟨o, ho, rfl⟩ := Option.map_eq_some_iff.mp hv
      simpa [operatorSpec, accept_menu, Json.str?, Json.isNull] using List.mem_of_mem_head? ho
    exact congrArg (·.value) (merge_merge hcons p)

end PadState

/-! ### Nodes that are fed otherwise -/

namespace NodeEntry

/-- What a node sees if its pads are fed with given constraints. -/
def viewUnder (e : NodeEntry) (see : String → Constraints) : NodeView :=
  ⟨e.id, e.pads, e.pads.map fun p => (p.id, ⟨true, see p.id⟩)⟩

/-- What a node of a type declares if its pads are fed with given constraints. -/
def declaresUnder (e : NodeEntry) (see : String → Constraints) : List PadSpec :=
  match e.body with
  | .plugin t => (t.resolve (e.viewUnder see)).toOption.getD []
  | .subgraph .. => []

/-- The node as it declares its pads if they are fed with given constraints. -/
def under (e : NodeEntry) (see : String → Constraints) : NodeEntry :=
  match e.body with
  | .plugin _ => { e with pads := (e.declaresUnder see).map (GraphState.mergedPad e.pads) }
  | .subgraph .. => e

/-- A node of a built-in type that is as it declares its pads, fed with given constraints. -/
structure Stands (e : NodeEntry) (t : NodeType) (see : String → Constraints) :
    Prop extends e.OfBuiltin t where
  pads : List.Forall₂ PadState.DeclaredBy e.pads (e.declaresUnder see)

variable {e d : NodeEntry} {t : NodeType} {see see₀ see₁ see₂ : String → Constraints}
  {p : PadState} {spec : PadSpec}

theorem under_id (e : NodeEntry) (see : String → Constraints) : (e.under see).id = e.id := by
  rw [under]
  split <;> rfl

theorem under_body (e : NodeEntry) (see : String → Constraints) : (e.under see).body = e.body := by
  rw [under]
  split <;> rfl

theorem under_of_subgraph (h : e.isSubgraph = true) (see : String → Constraints) :
    e.under see = e := by
  rw [isSubgraph] at h
  rw [under]
  split
  · rename_i hb
    rw [hb] at h
    cases h
  · rfl

theorem peerConstraints_viewUnder (e : NodeEntry) (see : String → Constraints) (id : String) :
    (e.viewUnder see).peerConstraints id = if (findPad id e.pads).isSome then see id
    else none := by
  rw [NodeView.peerConstraints, NodeView.peer, viewUnder, lookupKey_map]
  cases hp : findPad id e.pads with
  | none => rfl
  | some p =>
    obtain ⟨-, rfl⟩ := findPad_eq_some hp
    rfl

theorem slim_viewUnder (h : ∀ id, (see id).Slim) (id : String) :
    ((e.viewUnder see).peerConstraints id).Slim := by
  rw [peerConstraints_viewUnder]
  split
  · exact h id
  · exact Constraints.slim_none

theorem OfBuiltin.resolve_declaresUnder (h : e.OfBuiltin t) (see : String → Constraints) :
    t.resolve (e.viewUnder see) = .ok (e.declaresUnder see) := by
  obtain ⟨specs, hspecs⟩ := h.builtin.tame.total (e.viewUnder see)
  rw [declaresUnder, h.body]
  simp only [hspecs, Except.toOption, Option.getD_some]

theorem OfBuiltin.nodup_declaresUnder (h : e.OfBuiltin t) (see : String → Constraints) :
    ((e.declaresUnder see).map (·.id)).Nodup :=
  h.builtin.steady.distinct _ _ (h.resolve_declaresUnder see)

theorem OfBuiltin.pads_under (h : e.OfBuiltin t) (see : String → Constraints) :
    (e.under see).pads = (e.declaresUnder see).map (GraphState.mergedPad e.pads) := by
  rw [under, h.body]

theorem OfBuiltin.slim_declaresUnder (h : e.OfBuiltin t) (hsee : ∀ id, (see id).Slim) :
    ∀ spec ∈ e.declaresUnder see, spec.constraints.Slim :=
  h.builtin.steady.slim _ _ (h.resolve_declaresUnder see) fun _ _ _ => slim_viewUnder hsee _

namespace Stands

variable (h : e.Stands t see₀)

include h

/-- Which pads there are does not depend on what feeds them. -/
theorem outline (see : String → Constraints) :
    outlineOfSpecs (e.declaresUnder see) = e.pads.map fun p => (p.id, p.padType) := by
  rw [h.builtin.tame.outline (e.viewUnder see) (e.viewUnder see₀) _ _ (fun _ => rfl)
    (h.resolve_declaresUnder see) (h.resolve_declaresUnder see₀), outlineOfSpecs,
    ← List.forall₂_eq_eq_eq, List.forall₂_map_left_iff, List.forall₂_map_right_iff]
  exact h.pads.flip.imp fun _ _ hp => Prod.ext hp.id.symm hp.padType.symm

theorem nodup_pads : (e.pads.map (·.id)).Nodup := by
  have hids := congrArg (List.map Prod.fst) (h.outline see₀)
  rw [outlineOfSpecs, List.map_map, List.map_map] at hids
  exact hids ▸ h.nodup_declaresUnder see₀

/-- Every declaration is one of a pad. -/
theorem exists_pad (hspec : spec ∈ e.declaresUnder see) :
    ∃ p ∈ e.pads, p.id = spec.id ∧ p.padType = spec.padType := by
  have hmem : (spec.id, spec.padType) ∈ outlineOfSpecs (e.declaresUnder see) :=
    List.mem_map_of_mem hspec
  rw [h.outline] at hmem
  obtain ⟨p, hp, heq⟩ := List.mem_map.mp hmem
  exact ⟨p, hp, congrArg Prod.fst heq, congrArg Prod.snd heq⟩

/-- Every pad is declared, whatever feeds the node. -/
theorem exists_spec (hp : p ∈ e.pads) (see : String → Constraints) :
    ∃ spec ∈ e.declaresUnder see, spec.id = p.id ∧ spec.padType = p.padType := by
  have hmem : (p.id, p.padType) ∈ e.pads.map fun p => (p.id, p.padType) := List.mem_map_of_mem hp
  rw [← h.outline see] at hmem
  obtain ⟨spec, hspec, heq⟩ := List.mem_map.mp hmem
  exact ⟨spec, hspec, congrArg Prod.fst heq, congrArg Prod.snd heq⟩

/-- The pad of a declaration is as this declaration says. -/
theorem declaredBy (hp : p ∈ e.pads) (hspec : spec ∈ e.declaresUnder see₀) (hid : p.id = spec.id) :
    p.DeclaredBy spec := by
  obtain ⟨hlen, hzip⟩ := List.forall₂_iff_zip.mp h.pads
  obtain ⟨i, hi, rfl⟩ := List.mem_iff_getElem.mp hp
  have hi' : i < (e.declaresUnder see₀).length := hlen ▸ hi
  have hmem : (e.pads[i], (e.declaresUnder see₀)[i]) ∈ e.pads.zip (e.declaresUnder see₀) :=
    List.mem_iff_getElem.mpr ⟨i, by simp [hi, hi'], List.getElem_zip⟩
  have hdecl := hzip hmem
  have heq := List.inj_on_of_nodup_map (h.nodup_declaresUnder see₀) (List.getElem_mem hi') hspec
    (hdecl.id.symm.trans hid)
  exact heq ▸ hdecl

theorem mergedPad_eq (hp : p ∈ e.pads) (hid : p.id = spec.id) :
    GraphState.mergedPad e.pads spec = p.merge spec :=
  GraphState.mergedPad_of_mem h.nodup_pads hp hid

/-- Fed as before, the node stays as it is. -/
theorem under_bare : (e.under see₀).bare = e.bare := by
  have hpads : ((e.declaresUnder see₀).map (GraphState.mergedPad e.pads)).map PadState.bare =
      e.pads.map PadState.bare := by
    rw [List.map_map, ← List.forall₂_eq_eq_eq, List.forall₂_map_left_iff,
      List.forall₂_map_right_iff]
    obtain ⟨hlen, hzip⟩ := List.forall₂_iff_zip.mp h.pads
    refine (List.forall₂_iff_zip.mpr ⟨hlen, fun {p spec} hmem => ?_⟩).flip
    have hdecl := hzip hmem
    show (GraphState.mergedPad e.pads spec).bare = p.bare
    rw [h.mergedPad_eq (List.of_mem_zip hmem).1 hdecl.id]
    exact hdecl.bare_merge
  rw [bare_eq_iff, h.pads_under]
  exact ⟨under_id e see₀, by rw [under, h.body], by rw [under, h.body], hpads, under_body e see₀⟩

/-- A pad under another declaration. -/
theorem findPad_under (hp : p ∈ e.pads) (hspec : spec ∈ e.declaresUnder see)
    (hid : p.id = spec.id) :
    findPad spec.id (e.under see).pads = some (p.merge spec) := by
  rw [h.pads_under, GraphState.findPad_mergedPad (h.nodup_declaresUnder see) hspec,
    h.mergedPad_eq hp hid]

/-- The direction and kind of a pad does not depend on what feeds it. -/
theorem padType_under (see : String → Constraints) (id : String) :
    (findPad id (e.under see).pads).map (·.padType) = (findPad id e.pads).map (·.padType) := by
  have hpairs : ∀ pads : List PadState, (findPad id pads).map (·.padType) =
      ((pads.map fun p => (p.id, p.padType)).find? fun x => x.1 == id).map (·.2) := by
    intro pads
    rw [findPad, List.find?_map, Option.map_map]
    rfl
  have houtline : (e.under see).pads.map (fun p => (p.id, p.padType)) =
      e.pads.map fun p => (p.id, p.padType) := by
    rw [← h.outline see, h.pads_under, outlineOfSpecs, List.map_map]
    refine List.map_congr_left fun spec _ => ?_
    obtain ⟨value, heq, -⟩ := GraphState.mergedPad_eq e.pads spec
    rw [Function.comp_apply, heq]
    rfl
  rw [hpairs, houtline, ← hpairs]

/-- A property that is no menu has its value, whatever feeds the node. -/
theorem value_under (hspec : spec ∈ e.declaresUnder see) (hprop : spec.padType.isProperty = true)
    (hmenu : ¬ spec.IsMenu) (see' : String → Constraints) :
    (findPad spec.id (e.under see').pads).bind (·.value) = (findPad spec.id e.pads).bind
    (·.value) := by
  have hfixed : ∀ see', spec ∈ e.declaresUnder see' := fun see' =>
    h.builtin.steady.fixed _ _ _ _ (h.resolve_declaresUnder see)
      (h.resolve_declaresUnder see') spec hspec hprop hmenu
  obtain ⟨p, hp, hid, -⟩ := h.exists_pad hspec
  rw [h.findPad_under hp (hfixed see') hid, ← hid, findPad_of_mem h.nodup_pads hp]
  exact (h.declaredBy hp (hfixed see₀) hid).value

theorem ofBuiltin_under (see : String → Constraints) : (e.under see).OfBuiltin t := by
  refine ⟨(under_body e see).trans h.body, h.builtin,
    fun view specs hspecs spec hspec p hp hid => ?_⟩
  rw [h.pads_under] at hp
  obtain ⟨spec', hspec', rfl⟩ := List.mem_map.mp hp
  obtain ⟨value, heq, -⟩ := GraphState.mergedPad_eq e.pads spec'
  rw [GraphState.mergedPad_id] at hid
  rw [heq]
  exact h.builtin.steady.padType _ _ _ _ (h.resolve_declaresUnder see) hspecs spec' hspec' spec
    hspec hid

/-- Fed with one thing and then with another one, the node ends up as if it had been fed with the
latter alone, unless a compare lost its menu on the way. -/
theorem mergedPad_under (hmenu : t = Compare.nodeType →
      Compare.menu (e.viewUnder see₁) = Compare.menu (e.viewUnder see₀) ∨
        Compare.menu (e.viewUnder see₀) = [] ∨
        Compare.menu (e.viewUnder see₁) = Compare.menu (e.viewUnder see₂)) :
    ∀ spec ∈ e.declaresUnder see₂,
      GraphState.mergedPad (e.under see₁).pads spec = GraphState.mergedPad e.pads spec := by
  intro spec hspec
  obtain ⟨p, hp, hid, -⟩ := h.exists_pad hspec
  obtain ⟨spec₁, hspec₁, hid₁, -⟩ := h.exists_spec hp see₁
  have hids : spec₁.id = spec.id := hid₁.trans hid
  rw [h.mergedPad_eq hp hid, GraphState.mergedPad, ← hids, h.findPad_under hp hspec₁ hid₁.symm]
  show (p.merge spec₁).merge spec = p.merge spec
  cases hprop : spec.padType.isProperty with
  | false =>
    have hkept : ∀ q : PadState, q.keptValue spec = none := fun q => by
      rw [PadState.keptValue, hprop]
      rfl
    rw [PadState.merge, hkept, PadState.merge, hkept]
  | true =>
    have heq : ∀ {spec'}, spec' ∈ e.declaresUnder see₁ → spec'.id = spec.id → spec₁ = spec' :=
      fun hspec' hid' => List.inj_on_of_nodup_map (h.nodup_declaresUnder see₁) hspec₁ hspec'
        (hids.trans hid'.symm)
    rcases h.builtin.property (h.resolve_declaresUnder see₂) (h.resolve_declaresUnder see₁)
      (fun _ => rfl) hspec hprop with hsame | ⟨rfl, rfl⟩
    · rw [heq hsame rfl]
      exact PadState.merge_merge
        (h.builtin.tame.consistent _ _ (h.resolve_declaresUnder see₂) spec hspec) p
    · have hdecl := h.declaredBy hp (Compare.operatorSpec_mem (h.resolve_declaresUnder see₀)) hid
      rw [heq (Compare.operatorSpec_mem (h.resolve_declaresUnder see₁)) rfl]
      exact PadState.merge_operatorSpec hdecl (Compare.head?_menu _) (Compare.head?_menu _)
        (hmenu rfl)

/-- The source of a relay is its output, and declares what feeds the input. -/
theorem declared_relay (hrelay : t.IsRelay) (hp : p ∈ e.pads) (hsource : p.isSource = true)
    (see : String → Constraints) : p.id = Passthrough.output ∧
      (findPad p.id (e.under see).pads).map (·.declared) = some (see Passthrough.input) := by
  obtain ⟨spec, hspec, hid, htype⟩ := h.exists_spec hp see
  obtain rfl := hrelay.source (h.resolve_declaresUnder see) hspec (htype ▸ hsource)
  obtain ⟨front, -, ⟨input, hinput, hinputid⟩, hresolve⟩ := hrelay.resolve
  have hspecs :=
    Except.ok.inj ((hresolve (e.viewUnder see)).symm.trans (h.resolve_declaresUnder see))
  obtain ⟨q, hq, hqid, -⟩ := h.exists_pad (hspecs ▸ List.mem_append_left _ hinput)
  have hsome : (findPad Passthrough.input e.pads).isSome = true := by
    rw [← hinputid, ← hqid, findPad_of_mem h.nodup_pads hq]
    rfl
  refine ⟨hid.symm, ?_⟩
  rw [← hid, h.findPad_under hp hspec hid.symm, Option.map_some]
  show some ((e.viewUnder see).peerConstraints Passthrough.input) = _
  rw [peerConstraints_viewUnder, if_pos hsome]

/-- A source of any other node does not take notice of what feeds it. -/
theorem declared_source (hrelay : ¬ t.IsRelay) (hp : p ∈ e.pads) (hsource : p.isSource = true)
    (see : String → Constraints) :
    (findPad p.id (e.under see).pads).map (·.declared) = some p.declared := by
  obtain ⟨spec, hspec, hid, htype⟩ := h.exists_spec hp see₀
  have hmem : spec ∈ e.declaresUnder see := h.builtin.source hrelay (h.resolve_declaresUnder see₀)
    (h.resolve_declaresUnder see) (fun _ => rfl) hspec (htype ▸ hsource)
  rw [← hid, h.findPad_under hp hmem hid.symm, Option.map_some]
  exact congrArg some (h.declaredBy hp hspec hid.symm).constraints.symm

end Stands

end NodeEntry

namespace GraphState

variable {R : InnerResolver} {s u : GraphState} {e d : NodeEntry} {t : NodeType}
  {see₀ see₁ : String → Constraints}

/-- What feeds each pad of a graph. -/
abbrev Sights := PadRef → Constraints

/-- What feeds the pads as things are. -/
def sight (s : GraphState) : Sights := fun q => ((s.feeder q).bind s.declared?).getD none

theorem sight_of_bare (h : s.bare = u.bare) : s.sight = u.sight := by
  have hdecl : s.declared? = u.declared? := funext (declared?_congr (faces_of_bare h))
  funext q
  rw [sight, sight, feeder, feeder, (bare_eq_iff.mp h).2, hdecl]

/-- A settled node stands under what feeds it. -/
theorem SettledAt.stands (h : SettledAt R [] s e) (hb : e.body = .plugin t) (ht : t.IsBuiltin) :
    e.Stands t fun id => s.sight ⟨e.id, id⟩ := by
  obtain ⟨specs, hspecs, hpads⟩ := h.declaredBy hb
  have hof : e.OfBuiltin t := by
    refine ⟨hb, ht, fun view specs' hspecs' spec hspec p hp hid => ?_⟩
    obtain ⟨spec₀, hspec₀, hdecl⟩ := exists_of_forall₂ hpads hp
    rw [hdecl.padType]
    exact ht.steady.padType _ _ _ _ hspecs hspecs' spec₀ hspec₀ spec hspec
      (hdecl.id.symm.trans hid)
  have hunder : t.resolve (e.viewUnder fun id => s.sight ⟨e.id, id⟩) = .ok specs := by
    refine ht.steady.congr _ _ _ hspecs (fun _ _ _ _ => rfl) fun spec hspec hsink => ?_
    have hpeer : ∀ p ∈ e.pads, p.id = spec.id → p.isSource = false := fun p hp hid =>
      (congrArg PadType.isSource (hof.padType _ _ hspecs spec hspec p hp hid)).trans hsink
    rw [peerConstraints_eq_fed hpeer, NodeEntry.peerConstraints_viewUnder]
    rfl
  rw [hof.resolve_declaresUnder] at hunder
  exact ⟨hof, Except.ok.inj hunder ▸ hpads⟩

/-- In sight of a graph a node declares what it declares if it is fed as by this graph, whatever it
was fed with before. -/
theorem declares_under (h : e.Stands t see₀) (hd : d.bare = (e.under see₁).bare) (u : GraphState) :
    u.declares d = e.declaresUnder fun id => u.sight ⟨e.id, id⟩ := by
  have hbare := NodeEntry.bare_eq_iff.mp hd
  have hid : d.id = e.id := hbare.1.trans (NodeEntry.under_id e see₁)
  have hof : d.OfBuiltin t := (h.ofBuiltin_under see₁).of_stored (NodeEntry.stored_of_bare hd).symm
  have hfind : ∀ id, (findPad id d.pads).map PadState.bare =
      (findPad id (e.under see₁).pads).map PadState.bare := fun id => by
    rw [← findPad_bare, ← findPad_bare, hbare.2.2.2.1]
  have hresolve :
      t.resolve (u.view [] d) = .ok (e.declaresUnder fun id => u.sight ⟨e.id, id⟩) := by
    refine h.builtin.steady.congr _ _ _ (h.resolve_declaresUnder _)
      (fun spec hspec hprop hmenu => ?_) fun spec hspec hsink => ?_
    · have hvalue := h.value_under hspec hprop hmenu see₁
      have hbind := congrArg (Option.bind · (·.value)) (hfind spec.id)
      simp only [Option.bind_map, Function.comp_def, PadState.bare] at hbind
      have hsame : ∀ {view view' : NodeView}, (view.pad? spec.id).bind (·.value) =
          (view'.pad? spec.id).bind (·.value) →
          view.property spec.id = view'.property spec.id := fun h => by
        rw [NodeView.property, NodeView.property, h]
      exact hsame (hvalue.symm.trans hbind.symm)
    · have hpeer : ∀ p ∈ d.pads, p.id = spec.id → p.isSource = false := fun p hp hid =>
        (congrArg PadType.isSource
          (hof.padType _ _ (h.resolve_declaresUnder _) spec hspec p hp hid)).trans hsink
      obtain ⟨p, hp, hpid, -⟩ := h.exists_pad hspec
      obtain ⟨spec₁, hspec₁, hid₁, -⟩ := h.exists_spec hp see₁
      have hsome : (findPad spec.id e.pads).isSome = true := by
        rw [← hpid, findPad_of_mem h.nodup_pads hp]
        rfl
      have hsome' : (findPad spec.id d.pads).isSome = true := by
        have hmap := congrArg Option.isSome (hfind spec.id)
        rw [Option.isSome_map, Option.isSome_map] at hmap
        rw [hmap, ← hpid, ← hid₁, h.findPad_under hp hspec₁ hid₁.symm]
        rfl
      rw [peerConstraints_eq_fed hpeer, NodeEntry.peerConstraints_viewUnder, fed, if_pos hsome,
        if_pos hsome', hid, sight]
  rw [resolve_declares hof] at hresolve
  exact Except.ok.inj hresolve

/-- Resolved in sight of a graph, a node comes to stand under what this graph feeds it with. -/
theorem resolveNode_under (h : e.Stands t see₀) (hd : d.bare = (e.under see₁).bare)
    (u : GraphState)
    (hsee : ∀ id, (see₁ id).Slim) (hsight : ∀ id, (u.sight ⟨e.id, id⟩).Slim)
    (hmerge : ∀ spec ∈ e.declaresUnder fun id => u.sight ⟨e.id, id⟩,
      mergedPad (e.under see₁).pads spec = mergedPad e.pads spec) :
    ∃ d' changed, resolveNode R [] u d = .ok (d', changed) ∧
      d'.bare = (e.under fun id => u.sight ⟨e.id, id⟩).bare ∧
      (changed = false → d'.bare = d.bare) := by
  have hbare := NodeEntry.bare_eq_iff.mp hd
  have hof : d.OfBuiltin t := (h.ofBuiltin_under see₁).of_stored (NodeEntry.stored_of_bare hd).symm
  have hdecl := declares_under h hd u
  have hpads : (u.redeclared d).pads = (e.under fun id => u.sight ⟨e.id, id⟩).pads := by
    rw [h.pads_under, redeclared, hdecl]
    refine List.map_congr_left fun spec hspec => ?_
    rw [mergedPad_congr hbare.2.2.2.1, hmerge spec hspec]
  refine ⟨u.redeclared d, _, resolveNode_of_builtin hof, ?_, fun hsame => ?_⟩
  · refine NodeEntry.bare_eq_iff.mpr ⟨?_, ?_, ?_, congrArg _ hpads, ?_⟩
    · exact hbare.1.trans ((NodeEntry.under_id e see₁).trans (NodeEntry.under_id e _).symm)
    · exact hbare.2.1.trans (by rw [NodeEntry.under, NodeEntry.under, h.body])
    · exact hbare.2.2.1.trans (by rw [NodeEntry.under, NodeEntry.under, h.body])
    · exact hbare.2.2.2.2.trans
        ((NodeEntry.under_body e see₁).trans (NodeEntry.under_body e _).symm)
  · refine NodeEntry.bare_eq_iff.mpr ⟨rfl, rfl, rfl, ?_, rfl⟩
    have hsame : sameDeclarations d.pads (u.redeclared d).pads = true := by simpa using hsame
    refine bare_of_unchanged (fun p hp => ?_) (fun spec hspec => ⟨?_, ?_⟩)
      (nodup_declares hof) hsame
    · have hmem : p.bare ∈ (e.under see₁).pads.map PadState.bare :=
        hbare.2.2.2.1 ▸ List.mem_map_of_mem hp
      obtain ⟨q, hq, hqp⟩ := List.mem_map.mp hmem
      rw [h.pads_under] at hq
      obtain ⟨spec, hspec, rfl⟩ := List.mem_map.mp hq
      obtain ⟨value, hmerged, -⟩ := mergedPad_eq e.pads spec
      rw [hmerged] at hqp
      rw [← (PadState.bare_eq_iff.mp hqp).2.2.2.1]
      exact (h.slim_declaresUnder hsee spec hspec).plain
    · exact (h.slim_declaresUnder hsight spec (hdecl ▸ hspec)).plain
    · exact consistent_declares hof spec hspec

end GraphState

end Patchbay
