import Patchbay.Proofs.Graph.WellFormed
import Patchbay.Proofs.Graph.NarrowingStart
import Patchbay.Proofs.Graph.Narrowing
import Mathlib.Data.List.Forall2

/-!
# Settled graphs

A graph is *settled* when each of its nodes, resolved once more, declares the pads it has. Where
the nodes are of a class whose resolution is repeatable (`Repeatable`), a pass that changes nothing
leaves a settled graph (`settled_of_pass`), and a pass over a settled graph changes nothing
(`pass_of_settled`). So a graph that was resolved is resolved to itself
(`reconcileWith_idempotent`).

The resolution of tame types is repeatable (`repeatable_tame`), at every depth
(`reconcileWithin_idempotent`).
-/

namespace Patchbay

/-! ### Pads that do not change -/

namespace PadState

variable {p q : PadState} {spec : PadSpec}

theorem sameDeclaration_of_bare (h : p.bare = q.bare) : p.sameDeclaration q = true := by
  obtain ⟨hid, hgroup, htype, hdecl, hvalue, hproxy⟩ := bare_eq_iff.mp h
  simp only [sameDeclaration, hid, hgroup, htype, hdecl, hvalue, hproxy, beq_self_eq_true,
    Constraints.same_refl, Constraint.sameValue_refl, Bool.and_self]

/-- An unchanged declaration shows the same face, if equality tells its constraints apart. -/
theorem face_eq_of_sameDeclaration
    (hdecl : Constraints.same p.declared q.declared = true → p.declared = q.declared)
    (h : p.sameDeclaration q = true) : p.face = q.face := by
  simp only [sameDeclaration, Bool.and_eq_true, beq_iff_eq] at h
  obtain ⟨⟨⟨⟨⟨hid, hgroup⟩, htype⟩, hsame⟩, -⟩, hproxy⟩ := h
  exact face_eq_iff.mpr ⟨hid, hgroup, htype, hdecl hsame, hproxy⟩

/-- A pad that merging with a consistent declaration leaves the same keeps its value to the
digit. -/
theorem value_merge_of_same (hspec : spec.Consistent)
    (h : p.sameDeclaration (p.merge spec) = true) : (p.merge spec).value = p.value := by
  simp only [sameDeclaration, Bool.and_eq_true, beq_iff_eq] at h
  obtain ⟨⟨⟨⟨-, htype⟩, -⟩, hvalue⟩, -⟩ := h
  have htype : p.padType = spec.padType := htype
  have hvalue : Constraint.sameValue p.value (p.keptValue spec) = true := hvalue
  have hprop : p.isProperty = spec.padType.isProperty := congrArg PadType.isProperty htype
  show p.keptValue spec = p.value
  rw [keptValue, hprop, hspec.1] at hvalue ⊢
  cases hkind : spec.padType.isProperty with
  | false =>
    rw [hkind] at hvalue
    cases hv : p.value with
    | none => rfl
    | some v => simp [hv, Constraint.sameValue] at hvalue
  | true =>
    rw [hkind] at hvalue
    cases hv : p.value with
    | none =>
      cases hd : spec.default with
      | none => rfl
      | some d => simp [hv, hd, Constraint.sameValue] at hvalue
    | some v =>
      cases hacc : spec.constraints.accept v with
      | true => simp [hacc]
      | false =>
        -- the default is accepted, and equal to a value that is not
        cases hd : spec.default with
        | none => simp [hv, hacc, hd, Constraint.sameValue] at hvalue
        | some d =>
          have hsame : v.same d = true := by
            simpa [hv, hacc, hd, Constraint.sameValue] using hvalue
          have hd' := hspec.2 d hd
          rw [← Constraints.accept_eq_of_same _ hsame, hacc] at hd'
          cases hd'

theorem bare_merge_of_same (hp : p.declared.Plain) (hq : spec.constraints.Plain)
    (hspec : spec.Consistent) (h : p.sameDeclaration (p.merge spec) = true) :
    (p.merge spec).bare = p.bare := by
  obtain ⟨hid, hgroup, htype, hdecl, hproxy⟩ :=
    face_eq_iff.mp (face_eq_of_sameDeclaration (Constraints.eq_of_same hp hq) h)
  exact bare_eq_iff.mpr ⟨hid.symm, hgroup.symm, htype.symm, hdecl.symm,
    value_merge_of_same hspec h, hproxy.symm⟩

end PadState

theorem sameDeclarations_iff {ps qs : List PadState} :
    sameDeclarations ps qs = true ↔
    List.Forall₂ (fun p q => p.sameDeclaration q = true) ps qs := by
  induction ps generalizing qs with
  | nil =>
    cases qs with
    | nil => simp [sameDeclarations]
    | cons q qs => simp [sameDeclarations]
  | cons p ps ih =>
    cases qs with
    | nil => simp [sameDeclarations]
    | cons q qs => simp [sameDeclarations, ih]

theorem sameDeclarations_of_bare {ps qs : List PadState}
    (h : ps.map PadState.bare = qs.map PadState.bare) : sameDeclarations ps qs = true := by
  rw [sameDeclarations_iff]
  have h₂ : List.Forall₂ (fun p q : PadState => p.bare = q.bare) ps qs := by
    rw [← List.forall₂_eq_eq_eq, List.forall₂_map_left_iff, List.forall₂_map_right_iff] at h
    exact h
  exact h₂.imp fun p q => PadState.sameDeclaration_of_bare

/-- Unchanged declarations agree in every part in which they agree pad by pad. -/
theorem map_eq_of_sameDeclarations {β : Type} {g : PadState → β} {ps qs : List PadState}
    (h : sameDeclarations ps qs = true)
    (hg : ∀ p ∈ ps, ∀ q ∈ qs, p.sameDeclaration q = true → g p = g q) : ps.map g = qs.map g := by
  rw [sameDeclarations_iff, List.forall₂_iff_zip] at h
  rw [← List.forall₂_eq_eq_eq, List.forall₂_map_left_iff, List.forall₂_map_right_iff,
    List.forall₂_iff_zip]
  refine ⟨h.1, fun {p q} hmem => ?_⟩
  obtain ⟨hp, hq⟩ := List.of_mem_zip hmem
  exact hg p hp q hq (h.2 hmem)

/-! ### What types read -/

/-- What a node sees of its own pads: their ids, with the values that they hold. -/
def NodeView.values (view : NodeView) : List (String × Option Json) :=
  view.pads.map fun p => (p.id, p.value)

theorem NodeView.property_congr {view view' : NodeView} (h : view.values = view'.values)
    (id : String) : view.property id = view'.property id := by
  have hvalue : ∀ view : NodeView,
      (view.pad? id).bind (·.value) = (view.values.find? fun x => x.1 == id).bind (·.2) := by
    intro view
    rw [values, List.find?_map, Option.bind_map]
    rfl
  rw [property, property, hvalue, hvalue, h]

/-- What a type declares is determined by the node's id, the values of its pads, and what they
see. -/
def NodeType.ReadsValues (t : NodeType) : Prop :=
  ∀ view view' : NodeView, view.node = view'.node → view.values = view'.values →
    view.peers = view'.peers → t.resolve view = t.resolve view'

theorem NodeType.Tame.readsValues {t : NodeType} (h : t.Tame) : t.ReadsValues := by
  intro view view' _ hvalues hpeers
  obtain ⟨specs, hspecs⟩ := h.total view
  have hspecs' : t.resolve view' = .ok specs :=
    h.congr view view' specs hspecs (fun id _ => NodeView.property_congr hvalues id)
      fun spec _ _ => by
        rw [NodeView.peerConstraints, NodeView.peerConstraints, NodeView.peer, NodeView.peer,
          hpeers]
  rw [hspecs, hspecs']

namespace GraphState

variable {pads pads' : List PadState} {spec : PadSpec} {specs : List PadSpec}

/-- What a declaration makes of a pad does not depend on effective constraints. -/
theorem mergedPad_congr (h : pads.map PadState.bare = pads'.map PadState.bare) (spec : PadSpec) :
    mergedPad pads spec = mergedPad pads' spec := by
  have hfind : ∀ pads : List PadState,
      mergedPad pads spec = mergedPad (pads.map PadState.bare) spec := by
    intro pads
    rw [mergedPad, mergedPad, findPad_bare]
    cases findPad spec.id pads <;> rfl
  rw [hfind, h, ← hfind]

theorem mergedPad_of_mem {p : PadState} (hnd : (pads.map (·.id)).Nodup) (hp : p ∈ pads)
    (hid : p.id = spec.id) : mergedPad pads spec = p.merge spec := by
  rw [mergedPad, ← hid, findPad_of_mem hnd hp]

/-- A proxy is what its declaration says, whatever was there before. -/
theorem mergedPad_of_proxy (h : spec.proxy.isSome = true) (pads : List PadState) :
    mergedPad pads spec = .ofSpec spec := by
  rw [mergedPad]
  split
  · rw [PadState.merge, PadState.keptValue, PadState.ofSpec, h]
    cases spec.padType.isProperty <;> rfl
  · rfl

/-- An unchanged declaration leaves the pads the same in every part in which it leaves each of
them. -/
theorem map_of_unchanged {β : Type} {g : PadState → β} (hnd : (specs.map (·.id)).Nodup)
    (h : sameDeclarations pads (specs.map (mergedPad pads)) = true)
    (hg : ∀ p ∈ pads, ∀ spec ∈ specs, p.sameDeclaration (p.merge spec) = true →
      g (p.merge spec) = g p) : (specs.map (mergedPad pads)).map g = pads.map g := by
  rw [sameDeclarations_iff, List.forall₂_map_right_iff] at h
  have hid : ∀ (p : PadState) (spec : PadSpec), p.sameDeclaration (mergedPad pads spec) = true →
      p.id = spec.id := by
    intro p spec hp
    simp only [PadState.sameDeclaration, Bool.and_eq_true, beq_iff_eq] at hp
    rw [hp.1.1.1.1.1, mergedPad_id]
  have hids : pads.map (·.id) = specs.map (·.id) := by
    rw [← List.forall₂_eq_eq_eq, List.forall₂_map_left_iff, List.forall₂_map_right_iff]
    exact h.imp hid
  refine Eq.symm ?_
  rw [← List.forall₂_eq_eq_eq, List.forall₂_map_left_iff, List.forall₂_map_right_iff,
    List.forall₂_map_right_iff, List.forall₂_iff_zip]
  obtain ⟨hlen, hzip⟩ := List.forall₂_iff_zip.mp h
  refine ⟨hlen, fun {p spec} hmem => ?_⟩
  have hsame := hzip hmem
  obtain ⟨hp, hspec⟩ := List.of_mem_zip hmem
  have hmerge := mergedPad_of_mem (hids ▸ hnd) hp (hid p spec hsame)
  rw [hmerge] at hsame ⊢
  exact (hg p hp spec hspec hsame).symm

/-- An unchanged declaration by a tame type leaves the pads the same. -/
theorem bare_of_unchanged (hpads : ∀ p ∈ pads, p.declared.Plain)
    (hspecs : ∀ spec ∈ specs, spec.constraints.Plain ∧ spec.Consistent)
    (hnd : (specs.map (·.id)).Nodup)
    (h : sameDeclarations pads (specs.map (mergedPad pads)) = true) :
    (specs.map (mergedPad pads)).map PadState.bare = pads.map PadState.bare :=
  map_of_unchanged hnd h fun p hp spec hspec =>
    PadState.bare_merge_of_same (hpads p hp) (hspecs spec hspec).1 (hspecs spec hspec).2

/-! ### Settled nodes -/

/-- Resolved once more, the node declares the pads that it has. -/
def SettledAt (R : InnerResolver) (external : External) (s : GraphState) (e : NodeEntry) : Prop :=
  ∃ specs, resolveBody R e (s.view external e) = .ok (specs, e.body) ∧ (specs.map (·.id)).Nodup ∧
    (specs.map (mergedPad e.pads)).map PadState.bare = e.pads.map PadState.bare

/-- All nodes of the graph are settled. -/
def Settled (R : InnerResolver) (external : External) (s : GraphState) : Prop :=
  ∀ e ∈ s.nodes, SettledAt R external s e

variable {T : String → NodeType → Prop} {C : Constraints → Prop} {N : NodeEntry → Prop}
  {P Q : GraphState → Prop} {R : InnerResolver} {external : External} {s s' t : GraphState}
  {e e' d : NodeEntry} {i j : Nat} {changed : Bool}

/-- Whether a node is settled does not depend on effective constraints, nor on the values of
others. -/
theorem SettledAt.congr (h : SettledAt R external s e)
    (ht : ∀ t, e.body = .plugin t → t.ReadsValues) (hlinks : s.links = t.links)
    (hfaces : s.faces = t.faces) (hbare : e.bare = d.bare) : SettledAt R external t d := by
  obtain ⟨specs, hspecs, hnd, hpads⟩ := h
  obtain ⟨hid, -, -, hbpads, hbody⟩ := NodeEntry.bare_eq_iff.mp hbare
  have houtline := map_outline_of_bare hbpads
  have hpeers : s.peerViews external e = t.peerViews external d :=
    peerViews_congr hlinks hfaces hid houtline
  refine ⟨specs, ?_, hnd, ?_⟩
  · rw [resolveBody] at hspecs ⊢
    rw [← hbody]
    cases hb : e.body with
    | plugin type =>
      have hvalues : (s.view external e).values = (t.view external d).values := by
        have hmap := congrArg (List.map fun p : PadState => (p.id, p.value)) hbpads
        simpa only [List.map_map, Function.comp_def, PadState.bare, NodeView.values,
          view] using hmap
      have hresolve := ht type hb _ (t.view external d) hid hvalues hpeers
      rw [hb] at hspecs
      show (type.resolve (t.view external d)).map _ = _
      rw [← hresolve]
      exact hspecs
    | subgraph id inner =>
      rw [hb] at hspecs
      have hext : externalOf e.pads (s.view external e).peers =
          externalOf d.pads (t.view external d).peers := by
        simp only [view, hpeers]
        exact externalOf_congr _ houtline
      rw [← hext]
      exact hspecs
  · rw [← hbpads, ← hpads]
    exact congrArg _ (List.map_congr_left fun spec _ => (mergedPad_congr hbpads spec).symm)

/-! ### Classes of nodes -/

/-- All nodes of the graph are in a class. -/
def NodesIn (N : NodeEntry → Prop) (s : GraphState) : Prop := ∀ e ∈ s.nodes, N e

/-- What makes the resolution of nodes repeatable that are in a class `N`, with constraints in a
class `C`: resolution does not leave the class, and what it finds unchanged is the same to the
digit. -/
structure Repeatable (R : InnerResolver) (external : External) (C : Constraints → Prop)
    (N : NodeEntry → Prop) : Prop where
  eq_of_same : ∀ a b, C a → C b → Constraints.same a b = true → a = b
  declared : ∀ e, N e → ∀ p ∈ e.pads, C p.declared
  reads : ∀ e, N e → ∀ t, e.body = .plugin t → t.ReadsValues
  kept : ∀ s : GraphState, s.NodesIn N → ∀ e ∈ s.nodes, ∀ e' changed,
    resolveNode R external s e = .ok (e', changed) → N e'
  pads : ∀ s : GraphState, s.NodesIn N → ∀ e ∈ s.nodes, ∀ e',
    resolveNode R external s e = .ok (e', false) → ∀ t, e.body = .plugin t →
    e'.pads.map PadState.bare = e.pads.map PadState.bare
  /-- A graph inside that was resolved is resolved to itself. -/
  inner : ∀ s : GraphState, s.NodesIn N → ∀ e ∈ s.nodes, ∀ id inner inner',
    e.body = .subgraph id inner →
    R (externalOf e.pads (s.peerViews external e)) inner = .ok inner' →
    R (externalOf e.pads (s.peerViews external e)) inner' = .ok inner'

namespace Repeatable

variable (hrep : Repeatable R external C N)

include hrep

theorem nodesIn_resolveAt (hs : s.NodesIn N) (h : resolveAt R external s i = .ok (s', changed)) :
    s'.NodesIn N ∧ s'.nodes.length = s.nodes.length := by
  obtain ⟨-, rfl⟩ | ⟨e, e', hi, hnode, rfl⟩ := resolveAt_cases h
  · exact ⟨hs, rfl⟩
  · refine ⟨fun d hd => ?_, List.length_set⟩
    rcases List.mem_or_eq_of_mem_set hd with hd | rfl
    · exact hs d hd
    · exact hrep.kept s hs e (List.mem_of_getElem? hi) _ _ hnode

theorem nodesIn_pass {order : List Nat} (hs : s.NodesIn N)
    (h : pass R external order s = .ok (s', changed)) :
    s'.NodesIn N ∧ s'.nodes.length = s.nodes.length := by
  refine pass_invariant (I := fun t => t.NodesIn N ∧ t.nodes.length = s.nodes.length)
    (fun t t' i changed ht hstep => ?_) (fun _ ht => ht) ⟨hs, rfl⟩ h
  obtain ⟨ht', hlen⟩ := hrep.nodesIn_resolveAt ht.1 hstep
  exact ⟨ht', hlen.trans ht.2⟩

/-! ### A pass that changes nothing -/

/-- A node that does not change shows the same face. -/
theorem face_of_unchanged (hs : s.NodesIn N) (he : e ∈ s.nodes)
    (h : resolveNode R external s e = .ok (e', false)) : e'.face = e.face := by
  have he' := hrep.kept s hs e he _ _ h
  obtain ⟨specs, body, -, -, rfl, hflag⟩ := resolveNode_eq_ok h
  have hsame : sameDeclarations e.pads (specs.map (mergedPad e.pads)) = true := by
    simpa using hflag.symm
  have hpads : e.pads.map PadState.face = (specs.map (mergedPad e.pads)).map PadState.face :=
    map_eq_of_sameDeclarations hsame fun p hp q hq => PadState.face_eq_of_sameDeclaration
      (hrep.eq_of_same _ _ (hrep.declared e (hs e he) p hp) (hrep.declared _ he' q hq))
  exact Prod.ext rfl hpads.symm

/-- A node that does not change is settled then. -/
theorem settledAt_of_unchanged (hs : s.NodesIn N) (he : e ∈ s.nodes) (hlinks : s.links = t.links)
    (hfaces : s.faces = t.faces) (h : resolveNode R external s e = .ok (e', false)) :
    SettledAt R external t e' := by
  have hface := hrep.face_of_unchanged hs he h
  have houtline : e.pads.map PadState.outline = e'.pads.map PadState.outline :=
    map_outline_of_face (congrArg Prod.snd hface).symm
  have hpeers : s.peerViews external e = t.peerViews external e' :=
    peerViews_congr hlinks hfaces (congrArg Prod.fst hface).symm houtline
  have hpads := hrep.pads s hs e he e' h
  obtain ⟨specs, body, hbody, hnd, rfl, -⟩ := resolveNode_eq_ok h
  have hbody' := hbody
  rw [resolveBody] at hbody'
  cases hb : e.body with
  | plugin type =>
    -- the pads are the same to the digit, so the node was settled already
    rw [hb] at hbody'
    obtain ⟨specs', -, heq⟩ := map_eq_ok_iff.mp hbody'
    cases heq
    have hbare := hpads type hb
    have hsettled : SettledAt R external s e := ⟨specs, hb ▸ hbody, hnd, hbare⟩
    exact hsettled.congr (hrep.reads e (hs e he)) hlinks hfaces
      (NodeEntry.bare_eq_iff.mpr ⟨rfl, rfl, rfl, hbare.symm, hb⟩)
  | subgraph id inner =>
    -- the graph inside is resolved already, and proxies mirror what is inside
    rw [hb] at hbody'
    obtain ⟨inner', hinner', heq⟩ := map_eq_ok_iff.mp hbody'
    cases heq
    have hin := hrep.inner s hs e he id inner inner' hb hinner'
    refine ⟨inner'.exposedPads, ?_, hnd, ?_⟩
    · rw [resolveBody]
      simp only [view]
      rw [← hpeers, ← externalOf_congr _ houtline, hin]
      rfl
    · refine congrArg _ (List.map_congr_left fun spec hspec => ?_)
      have hproxy : spec.proxy.isSome = true := by
        obtain ⟨d, -, hspec⟩ := List.mem_flatMap.mp hspec
        obtain ⟨p, -, rfl⟩ := List.mem_map.mp hspec
        rfl
      rw [mergedPad_of_proxy hproxy, mergedPad_of_proxy hproxy]

end Repeatable

/-- The node at a place, if there is one, is settled. -/
def SettledPlace (R : InnerResolver) (external : External) (s : GraphState) (i : Nat) : Prop :=
  ∀ e, s.nodes[i]? = some e → SettledAt R external s e

/-- A node that a step leaves unchanged is settled after it, and the settled ones stay so. -/
theorem settled_of_resolveAt (hrep : Repeatable R external C N) (hs : s.NodesIn N)
    (h : resolveAt R external s i = .ok (s', false)) :
    s'.links = s.links ∧ s'.faces = s.faces ∧
      ∀ j, i = j ∨ SettledPlace R external s j → SettledPlace R external s' j := by
  obtain ⟨hnone, rfl⟩ | ⟨e, e', hi, hnode, rfl⟩ := resolveAt_cases h
  · refine ⟨rfl, rfl, fun j hj => hj.elim ?_ id⟩
    rintro rfl e he
    rw [hnone] at he
    cases he
  · have he : e ∈ s.nodes := List.mem_of_getElem? hi
    have hface := hrep.face_of_unchanged hs he hnode
    have hfaces : ({ s with nodes := s.nodes.set i e' } : GraphState).faces = s.faces :=
      map_set_of_eq hi hface
    refine ⟨rfl, hfaces, fun j hj d hd => ?_⟩
    rw [List.getElem?_set] at hd
    split at hd
    · obtain ⟨hlt, -⟩ := List.getElem?_eq_some_iff.mp hi
      rw [if_pos hlt, Option.some.injEq] at hd
      exact hd ▸ hrep.settledAt_of_unchanged hs he rfl hfaces.symm hnode
    · rename_i hne
      have hd' : d ∈ s.nodes := List.mem_of_getElem? hd
      exact ((hj.resolve_left hne) d hd).congr (hrep.reads d (hs d hd')) rfl hfaces.symm rfl

theorem settled_of_resolveEach (hrep : Repeatable R external C N) {order : List Nat}
    (hs : s.NodesIn N) (h : resolveEach R external s order = .ok (s', false)) :
    ∀ j, j ∈ order ∨ SettledPlace R external s j → SettledPlace R external s' j := by
  induction order generalizing s with
  | nil =>
    cases h
    exact fun j hj => hj.resolve_left (by simp)
  | cons i rest ih =>
    rw [resolveEach] at h
    obtain ⟨⟨s₁, c₁⟩, h₁, h⟩ := bind_eq_ok_iff.mp h
    obtain ⟨⟨s₂, c₂⟩, h₂, h⟩ := bind_eq_ok_iff.mp h
    simp only [Except.ok.injEq, Prod.mk.injEq, Bool.or_eq_false_iff] at h
    obtain ⟨rfl, rfl, rfl⟩ := h
    have hs₁ := (hrep.nodesIn_resolveAt hs h₁).1
    obtain ⟨-, -, hstep⟩ := settled_of_resolveAt hrep hs h₁
    refine fun j hj => ih hs₁ h₂ j ?_
    rw [List.mem_cons, or_assoc] at hj
    rcases hj with rfl | hj | hj
    · exact .inr (hstep j (.inl rfl))
    · exact .inl hj
    · exact .inr (hstep j (.inr hj))

/-- A pass that changes nothing drops no link. -/
theorem resolveEach_of_pass {order : List Nat} (h : pass R external order s = .ok (s', false)) :
    resolveEach R external s order = .ok (s', false) := by
  rw [pass] at h
  obtain ⟨⟨t, c⟩, ht, h⟩ := map_eq_ok_iff.mp h
  simp only [pruneLinks, Prod.mk.injEq, Bool.or_eq_false_iff, Bool.not_eq_false'] at h
  obtain ⟨rfl, rfl, hsound⟩ := h
  have hkeep : t.links.filter t.isSound = t.links :=
    List.filter_eq_self.mpr (List.all_eq_true.mp hsound)
  rw [hkeep]
  cases t
  exact ht

/-- A pass over all places that changes nothing leaves a settled graph. -/
theorem settled_of_pass (hrep : Repeatable R external C N) {order : List Nat} (hs : s.NodesIn N)
    (hall : ∀ i, i < s.nodes.length → i ∈ order)
    (h : pass R external order s = .ok (s', false)) : Settled R external s' := by
  have hlen := (hrep.nodesIn_pass hs h).2
  intro e he
  obtain ⟨i, hi, rfl⟩ := List.mem_iff_getElem.mp he
  exact settled_of_resolveEach hrep hs (resolveEach_of_pass h) i (.inl (hall i (hlen ▸ hi))) _
    (List.getElem?_eq_getElem hi)

/-! ### A pass over a settled graph -/

/-- All types in a graph read no more than values. -/
def ReadsValues (s : GraphState) : Prop := ∀ e ∈ s.nodes, ∀ t, e.body = .plugin t → t.ReadsValues

theorem readsValues_of_bare (hs : s.ReadsValues) (h : s.bare = t.bare) : t.ReadsValues := by
  intro d hd type hb
  obtain ⟨e, he, hbare⟩ := exists_bare_eq h.symm hd
  obtain ⟨-, -, -, -, hbody⟩ := NodeEntry.bare_eq_iff.mp hbare
  exact hs e he type (hbody.trans hb)

theorem Settled.congr (hs : Settled R external s) (hreads : s.ReadsValues) (h : s.bare = t.bare) :
    Settled R external t := by
  intro d hd
  obtain ⟨e, he, hbare⟩ := exists_bare_eq h.symm hd
  exact (hs e he).congr (hreads e he) (bare_eq_iff.mp h).2 (faces_of_bare h) hbare

/-- A settled node is resolved to itself. -/
theorem SettledAt.resolveNode (h : SettledAt R external s e) :
    ∃ e', resolveNode R external s e = .ok (e', false) ∧ e'.bare = e.bare := by
  obtain ⟨specs, hspecs, hnd, hpads⟩ := h
  refine ⟨{ e with pads := specs.map (mergedPad e.pads) }, ?_, ?_⟩
  · rw [GraphState.resolveNode, hspecs]
    simp only
    rw [applySpecs_of_nodup hnd, sameDeclarations_of_bare hpads.symm]
    rfl
  · exact NodeEntry.bare_eq_iff.mpr ⟨rfl, rfl, rfl, hpads, rfl⟩

theorem resolveEach_of_settled (order : List Nat) (hs : Settled R external s)
    (hreads : s.ReadsValues) :
    ∃ t, resolveEach R external s order = .ok (t, false) ∧ t.bare = s.bare := by
  induction order generalizing s with
  | nil => exact ⟨s, rfl, rfl⟩
  | cons i rest ih =>
    have hstep : ∃ t, resolveAt R external s i = .ok (t, false) ∧ t.bare = s.bare := by
      rw [resolveAt]
      cases hi : s.nodes[i]? with
      | none => exact ⟨s, rfl, rfl⟩
      | some e =>
        obtain ⟨e', he', hbare⟩ := (hs e (List.mem_of_getElem? hi)).resolveNode
        refine ⟨{ s with nodes := s.nodes.set i e' }, ?_, ?_⟩
        · simp only [he', Except.map]
        · exact bare_eq_iff.mpr ⟨map_set_of_eq hi hbare, rfl⟩
    obtain ⟨s₁, h₁, hbare₁⟩ := hstep
    obtain ⟨s₂, h₂, hbare₂⟩ := ih (hs.congr hreads hbare₁.symm)
      (readsValues_of_bare hreads hbare₁.symm)
    refine ⟨s₂, ?_, hbare₂.trans hbare₁⟩
    rw [resolveEach, h₁]
    simp only [bind, Except.bind, h₂, Bool.or_self]

theorem pass_of_settled (order : List Nat) (hs : Settled R external s) (hreads : s.ReadsValues)
    (hsound : ∀ l ∈ s.links, s.isSound l = true) :
    ∃ t, pass R external order s = .ok (t, false) ∧ t.bare = s.bare := by
  obtain ⟨t, ht, hbare⟩ := resolveEach_of_settled order hs hreads
  have hall : ∀ l ∈ t.links, t.isSound l = true := by
    intro l hl
    rw [← isSound_bare, hbare, isSound_bare]
    exact hsound l ((bare_eq_iff.mp hbare).2 ▸ hl)
  have hkeep : t.links.filter t.isSound = t.links := List.filter_eq_self.mpr hall
  refine ⟨t, ?_, hbare⟩
  rw [pass, ht]
  simp only [Except.map, pruneLinks, hkeep, List.all_eq_true.mpr hall, Bool.not_true,
    Bool.or_self]
  cases t
  rfl

/-! ### Resolution is idempotent -/

theorem passLimit_pos (config : EngineConfig) (n : Nat) : 1 ≤ config.passLimit n := by
  rw [EngineConfig.passLimit]
  split <;> omega

variable {config : EngineConfig}

/-- A settled graph comes through resolution with nothing but the narrowing done anew. -/
theorem reconcileWith_of_settled (hs : Settled R external s) (hreads : s.ReadsValues)
    (hsound : ∀ l ∈ s.links, s.isSound l = true)
    (hnarrow : (s.narrow external).map markResolved = .ok s') :
    reconcileWith R config external s = .ok s' := by
  obtain ⟨t, ht, hbare⟩ := pass_of_settled s.dependencyOrder hs hreads hsound
  obtain ⟨limit, hlimit⟩ := Nat.exists_eq_add_of_le (passLimit_pos config s.nodes.length)
  rw [reconcileWith, hlimit, Nat.add_comm, settle, ht]
  simp only [Bool.false_eq_true, if_false]
  rw [narrow_congr hbare, hnarrow]

/-- A graph that resolution leaves behind: settled, with sound links, and narrowed. -/
structure Reconciled (R : InnerResolver) (external : External) (s : GraphState) : Prop where
  settled : Settled R external s
  reads : s.ReadsValues
  sound : ∀ l ∈ s.links, s.isSound l = true
  narrowed : (s.narrow external).map markResolved = .ok s

theorem Reconciled.reconcileWith (h : Reconciled R external s) :
    reconcileWith R config external s = .ok s :=
  reconcileWith_of_settled h.settled h.reads h.sound h.narrowed

/-- A graph that was resolved is reconciled, and it was narrowed from a graph with nodes in the
class. -/
theorem reconciled_of_reconcileWith (hrep : Repeatable R external C N) (hs : s.NodesIn N)
    (h : reconcileWith R config external s = .ok s') :
    Reconciled R external s' ∧
      ∃ t t' : GraphState, t.NodesIn N ∧ t.narrow external = .ok t' ∧ s' = t'.markResolved := by
  obtain ⟨s₀, s₁, s₂, ⟨hs₀, hlen₀⟩, hpass, hnarrow, rfl⟩ :=
    reconcileWith_eq_ok (I := fun t => t.NodesIn N ∧ t.nodes.length = s.nodes.length) rfl
      (fun t t' _ ht hpass => ⟨(hrep.nodesIn_pass ht.1 hpass).1,
        (hrep.nodesIn_pass ht.1 hpass).2.trans ht.2⟩) ⟨hs, rfl⟩ h
  have hs₁ := (hrep.nodesIn_pass hs₀ hpass).1
  have hreads : s₁.ReadsValues := fun e he => hrep.reads e (hs₁ e he)
  have hsettled := settled_of_pass hrep hs₀ (fun i hi => mem_dependencyOrder (hlen₀ ▸ hi)) hpass
  have hbare : s₂.markResolved.bare = s₁.bare :=
    (bare_markResolved s₂).trans (narrow_agrees hnarrow).1
  refine ⟨⟨hsettled.congr hreads hbare.symm, readsValues_of_bare hreads hbare.symm,
    fun l hl => ?_, ?_⟩, s₁, s₂, hs₁, hnarrow, rfl⟩
  · rw [← isSound_bare, hbare, isSound_bare]
    exact isSound_of_pass hpass l ((bare_eq_iff.mp hbare).2 ▸ hl)
  · rw [narrow_congr hbare, hnarrow]
    rfl

/-- A graph that was resolved is resolved to itself. -/
theorem reconcileWith_idempotent (hrep : Repeatable R external C N) (hs : s.NodesIn N)
    (h : reconcileWith R config external s = .ok s') :
    reconcileWith R config external s' = .ok s' :=
  (reconciled_of_reconcileWith hrep hs h).1.reconcileWith

/-- Resolution does not change a graph that it has resolved already. -/
def Idempotent (C : Constraints → Prop) (P : GraphState → Prop) (R : InnerResolver) : Prop :=
  ∀ external s s', external.In C → P s → R external s = .ok s' → R external s' = .ok s'

/-- How graphs inside are resolved where subgraphs nest at most `n` deep. -/
def innerResolver (config : EngineConfig) : Nat → InnerResolver
  | 0 => fun _ inner => .ok inner
  | n + 1 => reconcileWithin config n

theorem reconcileWithin_eq (config : EngineConfig) (n : Nat) :
    reconcileWithin config n = reconcileWith (innerResolver config n) config := by
  cases n <;> rfl

/-! ### Tame types -/

section

variable (hT : ∀ name t, T name t → t.Tame)

include hT

theorem OrderlyOver.tame (hs : s.OrderlyOver T Constraints.Plain P) (he : e ∈ s.nodes)
    {t : NodeType} (hb : e.body = .plugin t) : t.Tame :=
  hT e.nodeType t (by simpa only [hb, Body.OfType] using (hs.fit e he).types)

theorem OrderlyOver.readsValues (hs : s.OrderlyOver T Constraints.Plain P) : s.ReadsValues :=
  fun _ he _ hb => (hs.tame hT he hb).readsValues

/-- The resolution of tame types is repeatable. -/
theorem repeatable_tame (hres : Resolves T Constraints.Plain P Q R)
    (hidem : Idempotent Constraints.Plain P R) (hext : external.In Constraints.Plain) :
    Repeatable R external Constraints.Plain (NodeEntry.FitOver T Constraints.Plain P) := by
  have hR := Regime.tame hT
  have hpadsIn : ∀ s : GraphState, s.NodesIn (NodeEntry.FitOver T Constraints.Plain P) →
      s.PadsIn Constraints.Plain := fun s hs e he => (hs e he).constraints
  have htame : ∀ e : NodeEntry, e.FitOver T Constraints.Plain P → ∀ t, e.body = .plugin t →
      t.Tame :=
    fun e he t hb => hT e.nodeType t (by simpa only [hb, Body.OfType] using he.types)
  refine ⟨fun a b => Constraints.eq_of_same, fun e he p hp => (he.constraints p hp).1,
    fun e he t hb => (htame e he t hb).readsValues, fun s hs e he e' changed h => ?_,
    fun s hs e he e' h type hb => ?_, fun s hs e he id inner inner' hb h => ?_⟩
  · exact (resolveNode_spec hR hres hext (hpadsIn s hs) (hs e he) h).2.1
  · obtain ⟨specs, body, hbody, hnd, rfl, hflag⟩ := resolveNode_eq_ok h
    have hplain := (resolveBody_spec hR hres (hs e he)
      (peerViews_in hR hext (hpadsIn s hs) e) hbody).1
    rw [resolveBody, hb] at hbody
    obtain ⟨specs', hspecs, heq⟩ := map_eq_ok_iff.mp hbody
    cases heq
    have hconsistent := (htame e (hs e he) type hb).consistent _ _ hspecs
    exact bare_of_unchanged (fun p hp => ((hs e he).constraints p hp).1)
      (fun spec hspec => ⟨hplain spec hspec, hconsistent spec hspec⟩) hnd
      (by simpa using hflag.symm)
  · have hin : (externalOf e.pads (s.peerViews external e)).In Constraints.Plain :=
      externalOf_in (peerViews_in hR hext (hpadsIn s hs) e)
    exact hidem _ _ _ hin ((hs e he).inner id inner hb) h

/-- A resolved graph is reconciled, at every depth. -/
theorem reconciled_of_reconcileWithin {n : Nat} (hext : external.In Constraints.Plain)
    (hs : s.Nested T Constraints.Plain n) (h : reconcileWithin config n external s = .ok s') :
    Reconciled (innerResolver config n) external s' := by
  induction n generalizing external s s' with
  | zero =>
    have hrep := repeatable_tame (P := fun _ => False) (Q := fun _ => False)
      (R := innerResolver config 0) hT resolves_false
      (fun _ _ _ _ => False.elim) hext
    exact (reconciled_of_reconcileWith hrep (nested_zero_iff.mp hs).fit h).1
  | succ n ih =>
    have hidem : Idempotent Constraints.Plain (Nested T Constraints.Plain n)
        (innerResolver config (n + 1)) := by
      intro external s s' hext hs h
      rw [innerResolver, reconcileWithin_eq]
      exact (ih hext hs h).reconcileWith
    have hrep := repeatable_tame hT ⟨fun _ ht => ht.2.self, fun _ _ _ hext ht hr =>
      reconcileWithin_spec (Regime.tame hT) hext ht hr⟩ hidem hext
    exact (reconciled_of_reconcileWith hrep (nested_succ_iff.mp hs).fit h).1

/-- Resolution is idempotent, at every depth. -/
theorem reconcileWithin_idempotent (n : Nat) :
    Idempotent Constraints.Plain (Nested T Constraints.Plain n) (reconcileWithin config n) := by
  intro external s s' hext hs h
  rw [reconcileWithin_eq]
  exact (reconciled_of_reconcileWithin hT hext hs h).reconcileWith

/-- A resolved graph is settled, and narrowed, at every depth. -/
theorem settled_of_reconcileWithin {n : Nat} (hext : external.In Constraints.Plain)
    (hs : s.Nested T Constraints.Plain n) (h : reconcileWithin config n external s = .ok s') :
    Settled (innerResolver config n) external s' ∧
      (s'.narrow external).map markResolved = .ok s' := by
  have hrest := reconciled_of_reconcileWithin hT hext hs h
  exact ⟨hrest.settled, hrest.narrowed⟩

end

theorem WellFormed.isSound (h : s.WellFormed) {l : Link} (hl : l ∈ s.links) :
    s.isSound l = true := by
  obtain ⟨p, q, hp, hq, hsource, hsink, -⟩ := h.linked l hl
  rw [GraphState.isSound, hp, hq]
  simp [hsource, hsink]

end GraphState

end Patchbay
