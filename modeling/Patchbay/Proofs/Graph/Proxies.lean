import Patchbay.Proofs.Graph.Copies

/-!
# What proxies pass on

In a settled graph the pads of a subgraph node are the proxies of the pads without links inside
(`mem_pads_of_settled`), and each of them shows inside what it sees outside
(`externalView_of_settled`). Narrowing leaves of a pad without links what is permitted outside, too
(`effective_of_narrowed`).
-/

namespace Patchbay

theorem lookupKey_map {β : Type} (id : String) (pads : List PadState) (f : PadState → β) :
    lookupKey id (pads.map fun q => (q.id, f q)) = (findPad id pads).map f := by
  induction pads with
  | nil => rfl
  | cons q rest ih =>
    rw [List.map_cons, lookupKey, ih, findPad, findPad]
    by_cases h : q.id = id
    · rw [if_pos h, List.find?_cons_of_pos (by simpa using h), Option.map_some]
    · rw [if_neg h, List.find?_cons_of_neg (by simpa using h)]

theorem lookupKey_map_of_mem {β : Type} {pads : List PadState} {p : PadState}
    (hnd : (pads.map (·.id)).Nodup) (hp : p ∈ pads) (f : PadState → β) :
    lookupKey p.id (pads.map fun q => (q.id, f q)) = some (f p) := by
  rw [lookupKey_map, findPad_of_mem hnd hp, Option.map_some]

namespace GraphState

variable {s t inner : GraphState} {external external' : External} {e : NodeEntry} {p : PadState}
  {r : PadRef} {R : InnerResolver} {id : Option String}

/-! ### Showing inside what is seen outside -/

theorem startOf_eq (external : External) (node : String) (p : PadState) :
    startOf external node p = { p with
      effective := p.declared.narrowedBy (externalView external ⟨node, p.id⟩).constraints } := by
  rw [startOf, externalView]
  cases external.get? ⟨node, p.id⟩ with
  | none => rw [Constraints.narrowedBy_none]
  | some outer => rfl

theorem externalView_eq_default (h : (externalView external r).connected = false) :
    externalView external r = {} := by
  revert h
  rw [externalView]
  split
  · intro h
    cases h
  · exact fun _ => rfl

/-- A view that shows no connection shows nothing. -/
theorem peerView_eq_default (h : (s.peerView external r p).connected = false) :
    s.peerView external r p = {} := by
  cases hp : p.isSource with
  | true =>
    rw [peerView_source hp] at h ⊢
    split at h
    · exact externalView_eq_default h
    · cases h
  | false =>
    rw [peerView_sink hp] at h ⊢
    split at h
    · cases h
    · exact externalView_eq_default h

/-- What the proxies of a node show inside. -/
theorem mem_externalOf {pads : List PadState} {V : PadState → PeerView}
    (hnd : (pads.map (·.id)).Nodup) {x : PadRef × Constraints} :
    x ∈ externalOf pads (pads.map fun q => (q.id, V q)) ↔
      ∃ p ∈ pads, p.proxy = some x.1 ∧ (V p).connected = true ∧ (V p).constraints = x.2 := by
  rw [externalOf, List.mem_filterMap]
  refine exists_congr fun p => and_congr_right fun hp => ?_
  rw [lookupKey_map_of_mem hnd hp]
  cases p.proxy with
  | none => simp
  | some r =>
    cases hc : (V p).connected with
    | false => simp [hc]
    | true => simp [hc, Prod.ext_iff]

/-- The pad behind a proxy sees what the proxy sees. -/
theorem externalView_externalOf {pads : List PadState} {V : PadState → PeerView}
    (hnd : (pads.map (·.id)).Nodup)
    (hproxy : ∀ q ∈ pads, q.proxy = some r → q = p)
    (hV : (V p).connected = false → V p = {}) (hp : p ∈ pads) (hr : p.proxy = some r) :
    externalView (externalOf pads (pads.map fun q => (q.id, V q))) r = V p := by
  have hmem : ∀ x ∈ externalOf pads (pads.map fun q => (q.id, V q)), x.1 = r →
      (V p).connected = true ∧ (V p).constraints = x.2 := by
    intro x hx hxr
    obtain ⟨q, hq, hqr, hview⟩ := (mem_externalOf hnd).mp hx
    exact hproxy q hq (hxr ▸ hqr) ▸ hview
  rw [externalView, External.get?]
  cases hfind : (externalOf pads (pads.map fun q => (q.id, V q))).find? fun x => x.1 == r with
  | none =>
    have hc : (V p).connected = false := by
      by_contra hc
      have hx := (mem_externalOf (x := (r, (V p).constraints)) hnd).mpr
        ⟨p, hp, hr, by simpa using hc, rfl⟩
      simpa using List.find?_eq_none.mp hfind _ hx
    exact (hV hc).symm
  | some x =>
    obtain ⟨hc, hcs⟩ := hmem x (List.mem_of_find?_eq_some hfind)
      (by simpa using List.find?_some hfind)
    simp only [Option.map_some, ← hcs, ← hc]

/-- A pad that no proxy stands for sees nothing. -/
theorem externalView_externalOf_of_ne {pads : List PadState} {peers : List (String × PeerView)}
    (h : ∀ p ∈ pads, p.proxy ≠ some r) : externalView (externalOf pads peers) r = {} := by
  have hnone : (externalOf pads peers).get? r = none := by
    rw [External.get?, Option.map_eq_none_iff, List.find?_eq_none]
    intro x hx hxr
    obtain ⟨p, hp, hx⟩ := List.mem_filterMap.mp hx
    split at hx
    · rename_i target peer hproxy _
      split at hx
      · cases hx
        exact h p hp (by simpa [hproxy] using hxr)
      · cases hx
    · cases hx
  rw [externalView, hnone]

/-! ### The pads of a settled subgraph node -/

/-- A proxy stands for a pad without links inside. -/
structure StandsFor (inner : GraphState) (p d : PadState) (r : PadRef) : Prop where
  pad : inner.pad? r = some d
  unlinked : inner.isLinked r d = false
  id : p.id = proxyPadId r
  padType : p.padType = d.padType
  declared : p.declared = d.effective
  proxy : p.proxy = some r

theorem SettledAt.resolved (h : SettledAt R external s e) (hb : e.body = .subgraph id inner) :
    R (externalOf e.pads (s.peerViews external e)) inner = .ok inner ∧
      (inner.exposedPads.map PadState.ofSpec).map PadState.bare = e.pads.map PadState.bare := by
  obtain ⟨specs, hspecs, -, hpads⟩ := h
  obtain ⟨inner', hinner, rfl, heq⟩ := (resolveBody_of_subgraph hb).mp hspecs
  obtain ⟨-, rfl⟩ := Body.subgraph.inj (hb.symm.trans heq)
  refine ⟨hinner, ?_⟩
  rw [← hpads]
  refine congrArg _ (List.map_congr_left fun spec hspec => (mergedPad_of_proxy ?_ _).symm)
  obtain ⟨d, -, hspec⟩ := List.mem_flatMap.mp hspec
  obtain ⟨p, -, rfl⟩ := List.mem_map.mp hspec
  rfl

theorem mem_exposedPads {spec : PadSpec} : spec ∈ inner.exposedPads ↔
    ∃ f ∈ inner.nodes, ∃ d ∈ f.pads, inner.isLinked ⟨f.id, d.id⟩ d = false ∧
      proxySpec ⟨f.id, d.id⟩ d = spec := by
  simp only [exposedPads, List.mem_flatMap, List.mem_map, List.mem_filter, Bool.not_eq_true',
    and_assoc]

theorem mem_pads_of_settled (h : SettledAt R external s e) (hb : e.body = .subgraph id inner)
    (hinner : inner.WellFormed) (hp : p ∈ e.pads) : ∃ d r, inner.StandsFor p d r := by
  have hmem : p.bare ∈ (inner.exposedPads.map PadState.ofSpec).map PadState.bare :=
    (h.resolved hb).2 ▸ List.mem_map_of_mem hp
  obtain ⟨q, hq, hbare⟩ := List.mem_map.mp hmem
  obtain ⟨spec, hspec, rfl⟩ := List.mem_map.mp hq
  obtain ⟨f, hf, d, hd, hlinked, rfl⟩ := mem_exposedPads.mp hspec
  obtain ⟨hid, -, htype, hdecl, -, hproxy⟩ := PadState.bare_eq_iff.mp hbare
  refine ⟨d, ⟨f.id, d.id⟩, ?_, hlinked, hid.symm, htype.symm, hdecl.symm, hproxy.symm⟩
  rw [pad?_of_mem hinner.distinctNodes hf, findPad_of_mem (hinner.distinctPads f hf) hd]

theorem WellFormed.unlinked (h : s.WellFormed) {d : PadState} (hd : s.pad? r = some d)
    (hlinked : s.isLinked r d = false) : s.Unlinked r := by
  intro l hl
  obtain ⟨p, q, hp, hq, hsource, hsink, -⟩ := h.linked l hl
  rw [isLinked] at hlinked
  constructor
  · rintro rfl
    rw [hd, Option.some.injEq] at hp
    subst hp
    rw [if_pos hsource, Bool.not_eq_false', List.isEmpty_iff] at hlinked
    have hmem : l.sink ∈ s.downstream l.source :=
      List.mem_map_of_mem (List.mem_filter.mpr ⟨hl, beq_self_eq_true _⟩)
    rw [hlinked] at hmem
    cases hmem
  · rintro rfl
    rw [hd, Option.some.injEq] at hq
    subst hq
    rw [if_neg (by simp [hsink]), feeder, Option.isSome_map, Option.isSome_eq_false_iff,
      Option.isNone_iff_eq_none] at hlinked
    simpa using List.find?_eq_none.mp hlinked l hl

/-! ### From outside to inside -/

/-- What narrowing leaves of a pad without links. -/
theorem effective_of_narrowed (hinner : inner.WellFormed) {d : PadState}
    (hnarrow : (inner.narrow external).map markResolved = .ok inner)
    (hd : inner.pad? r = some d) (hlinked : inner.isLinked r d = false) :
    d.effective = d.declared.narrowedBy (externalView external r).constraints := by
  obtain ⟨u, hu, hmark⟩ := map_eq_ok_iff.mp hnarrow
  have hpad := pad?_narrow_of_unlinked (hinner.unlinked hd hlinked) hu
  rw [← pad?_markResolved, hmark, hd, Option.map_some, startOf_eq, Option.some.injEq] at hpad
  obtain ⟨f, -, -, -, hid⟩ := pad?_eq_some hd
  have hr : (⟨r.node, d.id⟩ : PadRef) = r := by
    cases r
    rw [hid]
  rw [hr] at hpad
  exact congrArg PadState.effective hpad

section

variable (hnd : (e.pads.map (·.id)).Nodup) (hset : SettledAt R external s e)
  (hb : e.body = .subgraph id inner) (hinner : inner.WellFormed)

include hnd hset hb hinner

/-- No two proxies of a node stand for the same pad. -/
theorem eq_of_proxy_eq {q : PadState} (hp : p ∈ e.pads) (hq : q ∈ e.pads) (hpr : p.proxy = some r)
    (hqr : q.proxy = some r) : q = p := by
  obtain ⟨d, r₁, hd⟩ := mem_pads_of_settled hset hb hinner hp
  obtain ⟨d', r₂, hd'⟩ := mem_pads_of_settled hset hb hinner hq
  rw [hd.proxy, Option.some.injEq] at hpr
  rw [hd'.proxy, Option.some.injEq] at hqr
  have hid : q.id = p.id := by rw [hd'.id, hd.id, hpr, hqr]
  have hfind := findPad_of_mem hnd hp
  rw [← hid, findPad_of_mem hnd hq] at hfind
  exact Option.some.inj hfind

/-- The pad behind a proxy sees what the proxy sees. -/
theorem externalView_of_settled (t : GraphState) (external' : External) (hp : p ∈ e.pads)
    (hpr : p.proxy = some r) :
    externalView (externalOf e.pads (t.peerViews external' e)) r =
      t.peerView external' ⟨e.id, p.id⟩ p :=
  externalView_externalOf (V := fun q => t.peerView external' ⟨e.id, q.id⟩ q) hnd
    (fun _ hq hqr => eq_of_proxy_eq hnd hset hb hinner hp hq hpr hqr) peerView_eq_default hp hpr

end

end GraphState

end Patchbay
