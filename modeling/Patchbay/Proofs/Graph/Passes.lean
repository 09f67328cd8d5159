import Patchbay.Graph.Resolve
import Patchbay.Proofs.Outcome
import Patchbay.Proofs.Node.Builtin
import Patchbay.Proofs.Graph.Narrowing

/-!
# Passes

One pass resolves the nodes of a graph one after the other. It keeps the graph orderly, every node
that it comes to has declared its pads (`NodeEntry.Declared`), and the graphs inside these nodes
are resolved. The order of resolution has all nodes in it, so after a pass this holds of all of
them, and every link joins a source and a sink.
-/

/-!
## Declared pads

When a node declares its pads, each declaration becomes one pad, which takes over the value of the
pad that was there before. So the pads of the node are distinct, a stateless pad has no value, and
the values of a node of a built-in type are accepted where they are held.
-/

namespace Patchbay

/-! ### A pad under a new declaration -/

namespace PadState

variable {p : PadState} {spec : PadSpec} {v : Json}

/-- A value is kept, or it is the default. -/
theorem keptValue_eq_some (h : p.keptValue spec = some v) :
    spec.padType.isProperty = true ∧
    (spec.constraints.accept v = true ∨ spec.default = some v) := by
  rw [keptValue] at h
  split at h
  · cases h
  · rename_i hprop
    refine ⟨by simpa using hprop, ?_⟩
    split at h
    · exact .inr h
    · split at h
      · split at h
        · rename_i hacc
          cases h
          exact .inl hacc
        · exact .inr h
      · exact .inr h

end PadState

namespace GraphState

variable {pads : List PadState} {spec : PadSpec} {specs : List PadSpec}

/-- A declared pad is what its declaration says (`PadState.declare`), with a value kept or taken
from the default. -/
theorem mergedPad_eq (pads : List PadState) (spec : PadSpec) :
    ∃ value, mergedPad pads spec = .declare spec value ∧
      ∀ v, value = some v → spec.padType.isProperty = true ∧
        (spec.constraints.accept v = true ∨ spec.default = some v) := by
  rw [mergedPad]
  split
  · rename_i p _
    exact ⟨p.keptValue spec, rfl, fun v hv => PadState.keptValue_eq_some hv⟩
  · refine ⟨_, rfl, fun v hv => ?_⟩
    split at hv
    · rename_i hprop
      exact ⟨hprop, .inr hv⟩
    · cases hv

@[simp] theorem mergedPad_id (pads : List PadState) (spec : PadSpec) :
    (mergedPad pads spec).id = spec.id := by
  obtain ⟨value, h, -⟩ := mergedPad_eq pads spec
  rw [h, PadState.declare]

/-- Ids are distinct when none repeats, nor occurs among those seen before. -/
theorem nodup_of_firstRepeat {seen : List String} (h : firstRepeat seen specs = none) :
    (specs.map (·.id)).Nodup ∧ ∀ spec ∈ specs, spec.id ∉ seen := by
  induction specs generalizing seen with
  | nil => exact ⟨List.nodup_nil, fun _ h => by cases h⟩
  | cons spec rest ih =>
    rw [firstRepeat] at h
    split at h
    · cases h
    · rename_i hseen
      obtain ⟨hnd, hrest⟩ := ih h
      have hnew : spec.id ∉ seen := by simpa using hseen
      refine ⟨?_, List.forall_mem_cons.mpr ⟨hnew, fun d hd hmem => ?_⟩⟩
      · rw [List.map_cons, List.nodup_cons]
        refine ⟨fun hmem => ?_, hnd⟩
        obtain ⟨d, hd, hid⟩ := List.mem_map.mp hmem
        exact hrest d hd (hid ▸ List.mem_cons_self)
      · exact hrest d hd (List.mem_cons_of_mem _ hmem)

/-- Declarations with distinct ids pass the test for repeats. -/
theorem firstRepeat_of_nodup {seen : List String} (hnd : (specs.map (·.id)).Nodup)
    (hseen : ∀ spec ∈ specs, spec.id ∉ seen) : firstRepeat seen specs = none := by
  induction specs generalizing seen with
  | nil => rfl
  | cons spec rest ih =>
    obtain ⟨hspec, hrest⟩ := List.nodup_cons.mp hnd
    obtain ⟨hnew, hseen⟩ := List.forall_mem_cons.mp hseen
    rw [firstRepeat, if_neg (by simpa using hnew)]
    refine ih hrest fun d hd hmem => ?_
    rcases List.mem_cons.mp hmem with hid | hmem
    · exact hspec (List.mem_map.mpr ⟨d, hd, hid⟩)
    · exact hseen d hd hmem

end GraphState

/-! ### The pads of a node -/

/-- What the pads of a node are like once it has declared them: distinct ids, defaults that are
accepted, values only where they belong, and proxies only on subgraph nodes. -/
structure NodeEntry.Declared (e : NodeEntry) : Prop where
  distinct : (e.pads.map (·.id)).Nodup
  stateless : ∀ p ∈ e.pads, p.isProperty = false → p.value = none
  accepted : ∀ t, e.body = .plugin t → t.IsBuiltin →
    ∀ p ∈ e.pads, ∀ v, p.value = some v → p.declared.accept v = true

namespace GraphState

variable {e e' : NodeEntry} {specs : List PadSpec} {changed : Bool}

theorem applySpecs_eq_ok (h : applySpecs e specs = .ok (e', changed)) :
    (specs.map (·.id)).Nodup ∧ e' = { e with pads := specs.map (mergedPad e.pads) } ∧
      changed = !sameDeclarations e.pads (specs.map (mergedPad e.pads)) := by
  rw [applySpecs] at h
  split at h
  · cases h
  · rename_i hfresh
    simp only [Except.ok.injEq, Prod.mk.injEq] at h
    exact ⟨(nodup_of_firstRepeat hfresh).1, h.1.symm, h.2.symm⟩

theorem applySpecs_of_nodup (hnd : (specs.map (·.id)).Nodup) (e : NodeEntry) :
    applySpecs e specs = .ok ({ e with pads := specs.map (mergedPad e.pads) },
      !sameDeclarations e.pads (specs.map (mergedPad e.pads))) := by
  rw [applySpecs, firstRepeat_of_nodup hnd (by simp)]

/-- A node has declared its pads when the declarations were applied, if those of a built-in type
are consistent. -/
theorem declared_applySpecs (h : applySpecs e specs = .ok (e', changed))
    (hspecs : ∀ t, e.body = .plugin t → t.IsBuiltin → ∀ spec ∈ specs, spec.Consistent) :
    e'.Declared := by
  obtain ⟨hnd, rfl, -⟩ := applySpecs_eq_ok h
  refine ⟨?_, ?_, ?_⟩
  · rw [List.map_map]
    simpa only [Function.comp_def, mergedPad_id] using hnd
  · intro p hp hprop
    obtain ⟨spec, -, rfl⟩ := List.mem_map.mp hp
    obtain ⟨value, heq, hvalue⟩ := mergedPad_eq e.pads spec
    rw [heq] at hprop ⊢
    cases value with
    | none => rfl
    | some v => exact absurd (hvalue v rfl).1 (Bool.not_eq_true _ ▸ hprop)
  · intro t ht hb p hp v hv
    obtain ⟨spec, hspec, rfl⟩ := List.mem_map.mp hp
    obtain ⟨value, heq, hvalue⟩ := mergedPad_eq e.pads spec
    rw [heq] at hv ⊢
    exact (hvalue v hv).2.elim id ((hspecs t ht hb spec hspec).2 v)

end GraphState

end Patchbay

/-! ## Passes -/

namespace Patchbay

/-- A class of types and a class of constraints that resolution does not leave: the types declare
constraints of the class when they are fed with such, and intersections stay in it. -/
structure Regime (T : String → NodeType → Prop) (C : Constraints → Prop) : Prop where
  unconstrained : C none
  intersect : ∀ a b, C a → C b → C (a.intersect b)
  resolve : ∀ name t, T name t → ∀ view : NodeView, (∀ x ∈ view.peers, C x.2.constraints) →
    ∀ specs, t.resolve view = .ok specs → ∀ spec ∈ specs, C spec.constraints

/-- All types and all constraints. -/
theorem Regime.all : Regime (fun _ _ => True) (fun _ => True) :=
  ⟨trivial, fun _ _ _ _ => trivial, fun _ _ _ _ _ _ _ _ _ => trivial⟩

/-- Tame types and plain constraints (`NodeType.Tame`, `Constraints.Plain`) are a regime. -/
theorem Regime.tame {T : String → NodeType → Prop} (hT : ∀ name t, T name t → t.Tame) :
    Regime T Constraints.Plain where
  unconstrained := Constraints.plain_none
  intersect _ _ := Constraints.plain_intersect
  resolve name t ht := (hT name t ht).plain

namespace GraphState

/-- What is known of a way to resolve the graphs inside nodes: `P` holds of them before and after,
and `Q` after. Facts about passes are proved for every such way, and the depth comes in last. -/
structure Resolves (T : String → NodeType → Prop) (C : Constraints → Prop)
    (P Q : GraphState → Prop)
    (resolveInner : InnerResolver) : Prop where
  orderly : ∀ s, P s → s.Orderly T C
  spec : ∀ external s s', external.In C → P s → resolveInner external s = .ok s' → P s' ∧ Q s'

variable {T : String → NodeType → Prop} {C : Constraints → Prop} {P Q : GraphState → Prop}
  {R : InnerResolver} {external : External} {s s' : GraphState} {e e' : NodeEntry} {changed : Bool}

/-- There is nothing to be resolved inside, if there are no graphs inside. -/
theorem resolves_false : Resolves T C (fun _ => False) Q R :=
  ⟨fun _ => False.elim, fun _ _ _ _ => False.elim⟩

theorem OrderlyOver.padsIn (h : s.OrderlyOver T C P) : s.PadsIn C :=
  fun e he => (h.fit e he).constraints

/-! ### What a node sees -/

theorem externalView_in (hR : Regime T C) (hext : external.In C) (here : PadRef) :
    C (externalView external here).constraints := by
  rw [externalView]
  split
  · rename_i cs hcs
    exact hext.get? hcs
  · exact hR.unconstrained

theorem peerView_in (hR : Regime T C) (hext : external.In C) (hs : s.PadsIn C) (here : PadRef)
    (p : PadState) : C (s.peerView external here p).constraints := by
  rw [peerView]
  split
  · split
    · exact externalView_in hR hext here
    · refine List.foldlRecOn (motive := C) _ _ hR.unconstrained fun cs hcs q hq => ?_
      obtain ⟨r, -, hr⟩ := List.mem_filterMap.mp hq
      exact hR.intersect _ _ hcs (hs.pad hr).1
  · split
    · rename_i q hq
      obtain ⟨r, -, hr⟩ := Option.bind_eq_some_iff.mp hq
      exact (hs.pad hr).1
    · exact externalView_in hR hext here

theorem peerViews_in (hR : Regime T C) (hext : external.In C) (hs : s.PadsIn C) (e : NodeEntry) :
    ∀ x ∈ s.peerViews external e, C x.2.constraints := by
  intro x hx
  obtain ⟨p, -, rfl⟩ := List.mem_map.mp hx
  exact peerView_in hR hext hs _ p

theorem externalOf_in {pads : List PadState} {peers : List (String × PeerView)}
    (h : ∀ x ∈ peers, C x.2.constraints) : (externalOf pads peers).In C := by
  intro x hx
  obtain ⟨p, -, hx⟩ := List.mem_filterMap.mp hx
  split at hx
  · rename_i peer _ hpeer
    split at hx
    · cases hx
      exact h _ (mem_of_lookupKey hpeer)
    · cases hx
  · cases hx

theorem exposedPads_in (hs : s.Orderly T C) : ∀ spec ∈ s.exposedPads, C spec.constraints := by
  intro spec hspec
  obtain ⟨e, he, hspec⟩ := List.mem_flatMap.mp hspec
  obtain ⟨p, hp, rfl⟩ := List.mem_map.mp hspec
  exact (hs.constraints e he p (List.mem_filter.mp hp).1).2

/-! ### One node -/

/-- A node of a type is what its type declares. -/
theorem resolveBody_of_plugin {type : NodeType} (hb : e.body = .plugin type) {view : NodeView}
    {specs : List PadSpec} {body : Body} : resolveBody R e view = .ok (specs, body) ↔
      type.resolve view = .ok specs ∧ body = .plugin type := by
  rw [resolveBody, hb, map_eq_ok_iff]
  simp only [Prod.mk.injEq, eq_comm (b := body)]
  grind

/-- A subgraph node is what the graph inside exposes, once that is resolved. -/
theorem resolveBody_of_subgraph {id : Option String} {inner : GraphState}
    (hb : e.body = .subgraph id inner)
    {view : NodeView} {specs : List PadSpec} {body : Body} :
    resolveBody R e view = .ok (specs, body) ↔
      ∃ inner', R (externalOf e.pads view.peers) inner = .ok inner' ∧ specs = inner'.exposedPads ∧
        body = .subgraph id inner' := by
  rw [resolveBody, hb, map_eq_ok_iff]
  simp only [Prod.mk.injEq, eq_comm (b := body), eq_comm (b := specs)]

/-- A subgraph node was one before. -/
theorem exists_of_resolveBody {id : Option String} {inner' : GraphState} {view : NodeView}
    {specs : List PadSpec} (h : resolveBody R e view = .ok (specs, .subgraph id inner')) :
    ∃ inner, e.body = .subgraph id inner ∧ R (externalOf e.pads view.peers) inner = .ok inner' ∧
      specs = inner'.exposedPads := by
  cases hb : e.body with
  | plugin type => cases ((resolveBody_of_plugin hb).mp h).2
  | subgraph id₀ inner =>
    obtain ⟨inner₁, hinner, hspecs, heq⟩ := (resolveBody_of_subgraph hb).mp h
    cases heq
    exact ⟨inner, rfl, hinner, hspecs⟩

/-- What is known of a body that was resolved, and of the declarations with it: it fits
(`NodeEntry.FitOver`), `Q` holds inside, and the constraints are of the class. -/
theorem resolveBody_spec (hR : Regime T C) (hres : Resolves T C P Q R) (he : e.FitOver T C P)
    {view : NodeView} (hview : ∀ x ∈ view.peers, C x.2.constraints) {specs : List PadSpec}
    {body : Body} (h : resolveBody R e view = .ok (specs, body)) :
    (∀ spec ∈ specs, C spec.constraints) ∧ body.OfType T e.nodeType ∧ body.Inside P ∧
      body.Inside Q ∧
      ∀ t, body = .plugin t → t.IsBuiltin → ∀ spec ∈ specs, spec.Consistent := by
  rw [resolveBody] at h
  split at h
  · rename_i t hbody
    obtain ⟨specs', hspecs, h⟩ := map_eq_ok_iff.mp h
    simp only [Prod.mk.injEq] at h
    obtain ⟨rfl, rfl⟩ := h
    have ht : T e.nodeType t := by simpa only [hbody, Body.OfType] using he.types
    refine ⟨hR.resolve _ t ht view hview _ hspecs, ht, Body.inside_plugin P t,
      Body.inside_plugin Q t, fun t' ht' hbuiltin spec hspec => ?_⟩
    cases ht'
    exact hbuiltin.tame.consistent _ _ hspecs spec hspec
  · rename_i id inner hbody
    obtain ⟨inner', hinner, h⟩ := map_eq_ok_iff.mp h
    simp only [Prod.mk.injEq] at h
    obtain ⟨rfl, rfl⟩ := h
    obtain ⟨hP, hQ⟩ := hres.spec _ _ _ (externalOf_in hview) (he.inner id inner hbody) hinner
    have ht : e.nodeType = subgraphType := by simpa only [hbody, Body.OfType] using he.types
    exact ⟨exposedPads_in (hres.orderly _ hP), ht, (Body.inside_subgraph P id inner').mpr hP,
      (Body.inside_subgraph Q id inner').mpr hQ, by simp⟩

/-- A node that was resolved: it has declared its pads (`NodeEntry.Declared`), and `Q` holds of the
graph inside it. -/
structure Done (Q : GraphState → Prop) (e : NodeEntry) : Prop where
  declared : e.Declared
  inner : e.body.Inside Q

/-- What resolving a node comes to: its body is resolved (`resolveBody`), and its pads are declared
anew (`applySpecs`). -/
theorem resolveNode_eq_ok (h : resolveNode R external s e = .ok (e', changed)) :
    ∃ specs body, resolveBody R e (s.view external e) = .ok (specs, body) ∧
      (specs.map (·.id)).Nodup ∧
      e' = { e with body := body, pads := specs.map (mergedPad e.pads) } ∧
      changed = !sameDeclarations e.pads (specs.map (mergedPad e.pads)) := by
  rw [resolveNode] at h
  split at h
  · cases h
  · rename_i specs body hbody
    obtain ⟨hnd, rfl, hchanged⟩ := applySpecs_eq_ok h
    exact ⟨specs, body, hbody, hnd, rfl, hchanged⟩

theorem resolveNode_spec (hR : Regime T C) (hres : Resolves T C P Q R) (hext : external.In C)
    (hs : s.PadsIn C) (he : e.FitOver T C P)
    (h : resolveNode R external s e = .ok (e', changed)) :
    e'.id = e.id ∧ e'.FitOver T C P ∧ Done Q e' := by
  rw [resolveNode] at h
  split at h
  · cases h
  · rename_i specs body hbody
    obtain ⟨hC, hT, hP, hQ, hcons⟩ :=
      resolveBody_spec hR hres he (peerViews_in hR hext hs e) hbody
    have hdecl := declared_applySpecs h hcons
    obtain ⟨-, rfl, -⟩ := applySpecs_eq_ok h
    refine ⟨rfl, ⟨he.valid, hT, fun p hp => ?_, hP⟩, hdecl, hQ⟩
    obtain ⟨spec, hspec, rfl⟩ := List.mem_map.mp hp
    obtain ⟨value, heq, -⟩ := mergedPad_eq e.pads spec
    rw [heq]
    exact ⟨hC spec hspec, hC spec hspec⟩

/-! ### What every step preserves -/

/-- Resolving the node at a place puts the resolved node there, if there is one, and changes
nothing else. -/
theorem resolveAt_cases {i : Nat} (h : resolveAt R external s i = .ok (s', changed)) :
    s.nodes[i]? = none ∧ s' = s ∨ ∃ e e', s.nodes[i]? = some e ∧
      resolveNode R external s e = .ok (e', changed) ∧
      s' = { s with nodes := s.nodes.set i e' } := by
  rw [resolveAt] at h
  split at h
  · rename_i hnone
    cases h
    exact .inl ⟨hnone, rfl⟩
  · rename_i e hi
    obtain ⟨⟨e', c⟩, hnode, h⟩ := map_eq_ok_iff.mp h
    cases h
    exact .inr ⟨e, e', hi, hnode, rfl⟩

section

variable {I : List Nat → GraphState → Prop} {order placed front rest : List Nat}
  (hstep : ∀ t t' i changed placed front rest, order = front ++ i :: rest → front ⊆ placed →
    I placed t → resolveAt R external t i = .ok (t', changed) → I (placed ++ [i]) t')

include hstep

/-- What the resolution of every node preserves, the resolution of one after the other preserves.
The places that were resolved before can be told, for invariants that depend on them. -/
theorem resolveEach_ordered (horder : order = front ++ rest) (hfront : front ⊆ placed)
    (hs : I placed s) (h : resolveEach R external s rest = .ok (s', changed)) :
    I (placed ++ rest) s' := by
  induction rest generalizing s changed placed front with
  | nil =>
    cases h
    rwa [List.append_nil]
  | cons i rest ih =>
    rw [resolveEach] at h
    obtain ⟨⟨s₁, c₁⟩, h₁, h⟩ := bind_eq_ok_iff.mp h
    obtain ⟨⟨s₂, c₂⟩, h₂, h⟩ := bind_eq_ok_iff.mp h
    cases h
    have hfront' : front ++ [i] ⊆ placed ++ [i] :=
      List.append_subset.mpr ⟨List.subset_append_of_subset_left _ hfront,
        List.subset_append_right _ _⟩
    have hnext := ih (horder.trans (by simp)) hfront' (hstep _ _ _ _ _ _ _ horder hfront hs h₁) h₂
    rwa [List.append_assoc] at hnext

/-- What the dropping of links preserves as well, a pass preserves. -/
theorem pass_ordered (hprune : ∀ placed t, I placed t → I placed t.pruneLinks.1) (hs : I placed s)
    (h : pass R external order s = .ok (s', changed)) : I (placed ++ order) s' := by
  rw [pass] at h
  obtain ⟨⟨t, c⟩, ht, h⟩ := map_eq_ok_iff.mp h
  cases h
  exact hprune _ t (resolveEach_ordered hstep (List.nil_append _).symm (List.nil_subset _) hs ht)

end

/-- What every node and the dropping of links preserves, a pass preserves. -/
theorem pass_invariant {I : GraphState → Prop} {order : List Nat}
    (hstep : ∀ t t' i changed, I t → resolveAt R external t i = .ok (t', changed) → I t')
    (hprune : ∀ t, I t → I t.pruneLinks.1) (hs : I s)
    (h : pass R external order s = .ok (s', changed)) : I s' :=
  @pass_ordered R external s s' changed (fun _ => I) order []
    (fun t t' i c _ _ _ _ _ ht => hstep t t' i c ht) (fun _ => hprune) hs h

/-! ### All nodes -/

/-- The node at a place, if there is one, was resolved. -/
def DoneAt (Q : GraphState → Prop) (s : GraphState) (i : Nat) : Prop :=
  ∀ e, s.nodes[i]? = some e → Done Q e

/-- What a step over nodes keeps, apart from what it resolves: the graph stays orderly, and ids,
links and places stay as they are. -/
structure Steps (T : String → NodeType → Prop) (C : Constraints → Prop) (P : GraphState → Prop)
    (s s' : GraphState) : Prop where
  orderly : s'.OrderlyOver T C P
  length : s'.nodes.length = s.nodes.length
  links : s'.links = s.links

theorem resolveAt_spec (hR : Regime T C) (hres : Resolves T C P Q R) (hext : external.In C)
    (hs : s.OrderlyOver T C P) {i : Nat} (h : resolveAt R external s i = .ok (s', changed)) :
    Steps T C P s s' ∧ ∀ j, i = j ∨ DoneAt Q s j → DoneAt Q s' j := by
  obtain ⟨hnone, rfl⟩ | ⟨e, e', hi, hnode, rfl⟩ := resolveAt_cases h
  · refine ⟨⟨hs, rfl, rfl⟩, fun j hj => ?_⟩
    rcases hj with rfl | hj
    · intro e he
      rw [hnone] at he
      cases he
    · exact hj
  · obtain ⟨hlt, rfl⟩ := List.getElem?_eq_some_iff.mp hi
    obtain ⟨hid, hfit, hdone⟩ :=
      resolveNode_spec hR hres hext hs.padsIn (hs.fit _ (List.getElem_mem hlt)) hnode
    refine ⟨⟨⟨?_, hs.ordered, fun d hd => ?_⟩, List.length_set, rfl⟩, fun j hj d hd => ?_⟩
    · -- the new node stands in the old one's place, under the same id
      rw [map_set_of_eq hi hid]
      exact hs.distinct
    · rcases List.mem_or_eq_of_mem_set hd with hd | rfl
      · exact hs.fit d hd
      · exact hfit
    · rw [List.getElem?_set] at hd
      split at hd
      · rename_i heq
        subst heq
        rw [Option.some.injEq] at hd
        exact hd ▸ hdone
      · rename_i hne
        exact (hj.resolve_left hne) d hd

theorem Steps.trans {s₁ s₂ : GraphState} (h : Steps T C P s s₁) (h' : Steps T C P s₁ s₂) :
    Steps T C P s s₂ :=
  ⟨h'.orderly, h'.length.trans h.length, h'.links.trans h.links⟩

theorem resolveEach_spec (hR : Regime T C) (hres : Resolves T C P Q R) (hext : external.In C)
    {order : List Nat} (hs : s.OrderlyOver T C P)
    (h : resolveEach R external s order = .ok (s', changed)) :
    Steps T C P s s' ∧ ∀ j, j ∈ order ∨ DoneAt Q s j → DoneAt Q s' j := by
  induction order generalizing s changed with
  | nil =>
    cases h
    exact ⟨⟨hs, rfl, rfl⟩, fun j hj => hj.resolve_left (by simp)⟩
  | cons i rest ih =>
    rw [resolveEach] at h
    obtain ⟨⟨s₁, c₁⟩, h₁, h⟩ := bind_eq_ok_iff.mp h
    obtain ⟨⟨s₂, c₂⟩, h₂, h⟩ := bind_eq_ok_iff.mp h
    cases h
    obtain ⟨hstep, hdone⟩ := resolveAt_spec hR hres hext hs h₁
    obtain ⟨hsteps, hrest⟩ := ih hstep.orderly h₂
    refine ⟨hstep.trans hsteps, fun j hj => hrest j ?_⟩
    rw [List.mem_cons, or_assoc] at hj
    rcases hj with rfl | hj | hj
    · exact .inr (hdone j (.inl rfl))
    · exact .inl hj
    · exact .inr (hdone j (.inr hj))

/-! ### Passes -/

/-- Every place of the node list occurs in the order of resolution. -/
theorem mem_dependencyOrder {i : Nat} (h : i < s.nodes.length) : i ∈ s.dependencyOrder := by
  rw [dependencyOrder]
  by_cases hi : i ∈ placeWaiting s.nodeEdges s.nodes.length
    (inDegrees s.nodes.length s.nodeEdges)
    ((List.range s.nodes.length).filter fun i =>
      (inDegrees s.nodes.length s.nodeEdges).getD i 0 == 0)
  · exact List.mem_append_left _ hi
  · refine List.mem_append_right _ (List.mem_filter.mpr ⟨List.mem_range.mpr h, ?_⟩)
    simpa using hi

/-- A pass leaves no link that has lost an end (`isSound`), because it drops them last. -/
theorem isSound_of_pass {order : List Nat} (h : pass R external order s = .ok (s', changed)) :
    ∀ l ∈ s'.links, s'.isSound l = true := by
  rw [pass] at h
  obtain ⟨⟨s₁, c₁⟩, -, h⟩ := map_eq_ok_iff.mp h
  cases h
  intro l hl
  exact (List.mem_filter.mp hl).2

/-- After a pass every place in its order is done (`DoneAt`), and no link has lost an end. -/
theorem pass_spec (hR : Regime T C) (hres : Resolves T C P Q R) (hext : external.In C)
    {order : List Nat} (hs : s.OrderlyOver T C P)
    (h : pass R external order s = .ok (s', changed)) :
    s'.OrderlyOver T C P ∧ s'.nodes.length = s.nodes.length ∧ (∀ j ∈ order, DoneAt Q s' j) ∧
      ∀ l ∈ s'.links, s'.isSound l = true := by
  have hsound := isSound_of_pass h
  rw [pass] at h
  obtain ⟨⟨s₁, c₁⟩, h₁, h⟩ := map_eq_ok_iff.mp h
  cases h
  obtain ⟨hsteps, hdone⟩ := resolveEach_spec hR hres hext hs h₁
  exact ⟨⟨hsteps.orderly.distinct, hsteps.orderly.ordered.filter _, hsteps.orderly.fit⟩,
    hsteps.length, fun j hj => hdone j (.inl hj), hsound⟩

/-- A graph that has settled comes from a pass that changed nothing, in a state in which the
invariant holds. -/
theorem settle_eq_some {step : GraphState → Except Error (GraphState × Bool)}
    {I : GraphState → Prop} (hstep : ∀ s s' changed, I s → step s = .ok (s', changed) → I s')
    {n : Nat} (hs : I s) (h : settle step n s = .ok (some s')) :
    ∃ s₀, I s₀ ∧ step s₀ = .ok (s', false) := by
  induction n generalizing s with
  | zero => cases h
  | succ n ih =>
    rw [settle] at h
    split at h
    · cases h
    · rename_i s₁ changed h₁
      split at h
      · exact ih (hstep _ _ _ hs h₁) h
      · rename_i hc
        cases h
        rw [Bool.not_eq_true] at hc
        exact ⟨s, hs, hc ▸ h₁⟩

end GraphState

end Patchbay
