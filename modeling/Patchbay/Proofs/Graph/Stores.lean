import Patchbay.Proofs.Graph.Prefixes
import Patchbay.Proofs.Graph.Settling
import Patchbay.Proofs.Graph.Storing

/-!
# Stored values

A proxy stands for a pad inside, which may be a proxy in turn, and so on down to a pad of a node of
a type. There the value is stored (`GraphState.Stores`), and the proxies on the way hold it too, in
the graph and in its snapshot (`Stores.shows`).

Resolution leaves a stored value alone if the type of the node has no other way than to declare a
property that accepts it (`NodeType.Retains`): nodes do not go away, and pads without links are not
linked (`sustains_reconcileWithin`).
-/

namespace Patchbay

/-- A property whose declaration accepts the value. -/
structure PadSpec.Retains (spec : PadSpec) (v : Json) : Prop where
  property : spec.padType.isProperty = true
  proxy : spec.proxy = none
  accepts : spec.constraints.accept v = true

/-- Whatever a node of the type sees, it declares a property that accepts the value. -/
def NodeType.Retains (t : NodeType) (pad : String) (v : Json) : Prop :=
  ∀ view specs, t.resolve view = .ok specs → ∃ spec ∈ specs, spec.id = pad ∧ spec.Retains v

/-- The pad is a property that holds the value. -/
structure PadState.Bears (p : PadState) (v : Json) : Prop where
  property : p.isProperty = true
  value : p.value = some v

theorem PadState.Bears.of_bare {p p' : PadState} {v : Json} (h : p.Bears v)
    (hbare : p'.bare = p.bare) :
    p'.Bears v := by
  obtain ⟨-, -, htype, -, hvalue, -⟩ := PadState.bare_eq_iff.mp hbare
  exact ⟨(congrArg PadType.isProperty htype).trans h.property, hvalue.trans h.value⟩

/-- The pad at an address holds the value. If it is one of a graph inside a node, so does the pad
that its id addresses there, and so on down to a pad of a node without a graph. -/
inductive GraphSnapshot.Shows (v : Json) : GraphSnapshot → PadRef → Prop where
  | plugin {g : GraphSnapshot} {n : NodeSnapshot} {p : PadSnapshot} {r : PadRef}
      (node : g.node? r.node = some n)
      (pad : n.pad? r.pad = some p) (value : p.value = some v) (plain : n.subgraph = none) :
      Shows v g r
  | proxy {g inner : GraphSnapshot} {n : NodeSnapshot} {p : PadSnapshot} {r q : PadRef}
      {id : Option String}
      (node : g.node? r.node = some n) (pad : n.pad? r.pad = some p) (value : p.value = some v)
      (graph : n.subgraph = some ⟨id, inner⟩) (target : parseProxyPadId r.pad = some q)
      (inside : Shows v inner q) :
      Shows v g r

namespace GraphState

/-- At the end of the chain of targets that begins at an address, a pad of a node of the type bears
the value. -/
inductive Stores (type : NodeType) (pad : String) (v : Json) : GraphState → PadRef → Prop where
  | plugin {s : GraphState} {e : NodeEntry} {p : PadState} (mem : e ∈ s.nodes)
      (body : e.body = .plugin type)
      (here : findPad pad e.pads = some p) (bears : p.Bears v) : Stores type pad v s ⟨e.id, pad⟩
  | proxy {s inner : GraphState} {e : NodeEntry} {id : Option String} {q : PadRef}
      (mem : e ∈ s.nodes)
      (body : e.body = .subgraph id inner) (unlinked : inner.Unlinked q)
      (inside : Stores type pad v inner q) :
      Stores type pad v s ⟨e.id, proxyPadId q⟩

variable {type : NodeType} {pad : String} {v : Json} {R : InnerResolver} {config : EngineConfig}
  {external : External} {s s' t : GraphState} {e e' : NodeEntry} {p : PadState} {r : PadRef}
  {spec : PadSpec}
  {specs : List PadSpec} {pads : List PadState} {changed : Bool}

/-! ### Pads -/

/-- A new declaration that accepts the value of a property leaves it there. -/
theorem exists_bears_of_retains (hnd : (specs.map (·.id)).Nodup) (hspec : spec ∈ specs)
    (hretains : spec.Retains v)
    (hp : findPad spec.id pads = some p) (hbears : p.Bears v) :
    ∃ p', findPad spec.id (specs.map (mergedPad pads)) = some p' ∧ p'.Bears v ∧
    p'.declared = spec.constraints := by
  refine ⟨_, findPad_mergedPad hnd hspec pads, ?_⟩
  rw [mergedPad, hp]
  refine ⟨⟨hretains.property, ?_⟩, rfl⟩
  show p.keptValue spec = some v
  simp [PadState.keptValue, hretains.property, hretains.proxy, hbears.property, hbears.value,
    hretains.accepts]

theorem findPad_of_bare {pads' : List PadState}
    (h : pads'.map PadState.bare = pads.map PadState.bare)
    (hp : findPad pad pads = some p) : ∃ p', findPad pad pads' = some p' ∧ p'.bare = p.bare := by
  have hfind : (findPad pad pads').map PadState.bare = some p.bare := by
    rw [← findPad_bare, h, findPad_bare, hp, Option.map_some]
  exact Option.map_eq_some_iff.mp hfind

/-! ### What is stored is stored in the nodes -/

theorem Stores.mono (h : s.Stores type pad v r) (hnodes : ∀ e ∈ s.nodes, e ∈ t.nodes) :
    t.Stores type pad v r := by
  cases h with
  | plugin mem body here bears => exact .plugin (hnodes _ mem) body here bears
  | proxy mem body unlinked inside => exact .proxy (hnodes _ mem) body unlinked inside

theorem Stores.of_bare (h : s.Stores type pad v r) (hbare : t.bare = s.bare) :
    t.Stores type pad v r := by
  cases h with
  | @plugin s e p mem body here bears =>
    obtain ⟨d, hd, hde⟩ := exists_bare_eq hbare.symm mem
    obtain ⟨hid, -, -, hpads, hbody⟩ := NodeEntry.bare_eq_iff.mp hde
    obtain ⟨q, hq, hqp⟩ := findPad_of_bare hpads here
    exact hid ▸ .plugin hd (hbody.trans body) hq (bears.of_bare hqp)
  | @proxy s inner e id q mem body unlinked inside =>
    obtain ⟨d, hd, hde⟩ := exists_bare_eq hbare.symm mem
    obtain ⟨hid, -, -, -, hbody⟩ := NodeEntry.bare_eq_iff.mp hde
    exact hid ▸ .proxy hd (hbody.trans body) unlinked inside

/-! ### Resolution -/

/-- What is stored stays there, and pads without links are not linked. -/
def Sustains (type : NodeType) (pad : String) (v : Json) (R : InnerResolver) : Prop :=
  ∀ external s s' r, s.Stores type pad v r → R external s = .ok s' →
    (∀ q, s.Unlinked q → s'.Unlinked q) ∧ s'.Stores type pad v r

section

variable (hretains : type.Retains pad v) (hR : Sustains type pad v R)

include hretains hR

theorem stores_resolveAt {i : Nat} (h : s.Stores type pad v r)
    (hstep : resolveAt R external s i = .ok (s', changed)) :
    s'.links = s.links ∧ s'.Stores type pad v r := by
  obtain ⟨-, rfl⟩ | ⟨e, e', hi, hnode, rfl⟩ := resolveAt_cases hstep
  · exact ⟨rfl, h⟩
  refine ⟨rfl, ?_⟩
  have he' : e' ∈ s.nodes.set i e' := List.mem_set (List.getElem?_eq_some_iff.mp hi).1 _
  -- the chain begins at the node that is resolved, or at another one
  have hother : ∀ d ∈ s.nodes, d = e ∨ d ∈ s.nodes.set i e' := by
    intro d hd
    obtain ⟨j, hj, rfl⟩ := List.mem_iff_getElem.mp hd
    by_cases hji : i = j
    · subst hji
      exact .inl (List.getElem?_eq_some_iff.mp hi).2
    · exact .inr (List.mem_iff_getElem.mpr ⟨j, by simpa using hj, List.getElem_set_of_ne hji _ _⟩)
  obtain ⟨specs, body, hbody, hnd, heq, -⟩ := resolveNode_eq_ok hnode
  have hid : e'.id = e.id := by rw [heq]
  have hb' : e'.body = body := by rw [heq]
  have hpads : e'.pads = specs.map (mergedPad e.pads) := by rw [heq]
  cases h with
  | plugin mem body here bears =>
    rcases hother _ mem with rfl | hd
    · obtain ⟨hspecs, rfl⟩ := (resolveBody_of_plugin body).mp hbody
      obtain ⟨spec, hspec, rfl, hspecv⟩ := hretains _ _ hspecs
      obtain ⟨p', hp', hbears', -⟩ := exists_bears_of_retains hnd hspec hspecv here bears
      exact hid ▸ .plugin he' hb' (hpads ▸ hp') hbears'
    · exact .plugin hd body here bears
  | proxy mem body unlinked inside =>
    rcases hother _ mem with rfl | hd
    · obtain ⟨inner', hinner, rfl, rfl⟩ := (resolveBody_of_subgraph body).mp hbody
      obtain ⟨hun, hinside⟩ := hR _ _ _ _ inside hinner
      exact hid ▸ .proxy he' hb' (hun _ unlinked) hinside
    · exact .proxy hd body unlinked inside

theorem sustains_reconcileWith : Sustains type pad v (reconcileWith R config) := by
  intro external s s' r hstores h
  have hpass : ∀ t t' changed, (∀ l ∈ t.links, l ∈ s.links) ∧ t.Stores type pad v r →
      pass R external s.dependencyOrder t = .ok (t', changed) →
      (∀ l ∈ t'.links, l ∈ s.links) ∧ t'.Stores type pad v r := by
    refine fun t t' changed => pass_invariant
      (I := fun t => (∀ l ∈ t.links, l ∈ s.links) ∧ t.Stores type pad v r)
      (fun t t' i changed ht hstep => ?_) fun t ht => ?_
    · obtain ⟨hlinks, hstores⟩ := stores_resolveAt hretains hR ht.2 hstep
      exact ⟨hlinks ▸ ht.1, hstores⟩
    · exact ⟨fun l hl => ht.1 l (List.mem_filter.mp hl).1, ht.2.mono fun _ => id⟩
  obtain ⟨s₀, s₁, s₂, hs₀, hlast, hnarrow, rfl⟩ :=
    reconcileWith_eq_ok (I := fun t => (∀ l ∈ t.links, l ∈ s.links) ∧ t.Stores type pad v r) rfl
      hpass ⟨fun _ => id, hstores⟩ h
  obtain ⟨hlinks, hstores₁⟩ := hpass _ _ _ hs₀ hlast
  have hbare : s₂.markResolved.bare = s₁.bare :=
    (bare_markResolved s₂).trans (narrow_agrees hnarrow).1
  exact ⟨fun q hq l hl => hq l (hlinks l ((bare_eq_iff.mp hbare).2 ▸ hl)), hstores₁.of_bare hbare⟩

end

theorem sustains_reconcileWithin (hretains : type.Retains pad v) (n : Nat) :
    Sustains type pad v (reconcileWithin config n) := by
  induction n with
  | zero =>
    refine sustains_reconcileWith hretains fun _ s s' _ hstores h => ?_
    cases h
    exact ⟨fun _ => id, hstores⟩
  | succ n ih => exact sustains_reconcileWith hretains ih

/-! ### What is seen of a stored value -/

theorem node?_toSnapshot (s : GraphState) (id : String) :
    s.toSnapshot.node? id = (s.node? id).map (storeNode s) := by
  rw [toSnapshot_eq, GraphSnapshot.node?, List.find?_map, node?]
  refine congrArg _ (congrArg (s.nodes.find? ·) (funext fun e => ?_))
  rw [Function.comp_apply, storeNode_eq]

theorem pad?_storeNode (s : GraphState) (e : NodeEntry) (id : String) :
    (storeNode s e).pad? id = (findPad id e.pads).map (storePad s e.id) := by
  rw [storeNode_eq, NodeSnapshot.pad?, List.find?_map, findPad]
  rfl

/-- Every pad without links has a proxy. -/
theorem exists_mirror (hs : s.Everywhere Exact) (he : e ∈ s.nodes) {id : Option String}
    {inner : GraphState}
    (hb : e.body = .subgraph id inner) (hp : inner.pad? r = some p) (hr : inner.Unlinked r) :
    ∃ q ∈ e.pads, q.Mirrors r p := by
  obtain ⟨d, hd, hid, hmem, hpid⟩ := pad?_eq_some hp
  obtain rfl : r = ⟨d.id, p.id⟩ := by rw [hid, hpid]
  obtain ⟨q, hq, hmirror⟩ := exists_of_forall₂ (hs.self.mirrored e he id inner hb).flip
    (mem_unlinkedPads.mpr ⟨d, hd, hmem, rfl, hr⟩)
  exact ⟨q, hq, hmirror⟩

/-- What is stored at the end of a chain is held by the pads on the way. -/
theorem Stores.shows (h : s.Stores type pad v r) (hs : s.Everywhere Exact) :
    (∃ p, s.pad? r = some p ∧ p.value = some v) ∧ s.toSnapshot.Shows v r := by
  induction h with
  | @plugin s e p mem body here bears =>
    have hnode : s.toSnapshot.node? e.id = some (storeNode s e) := by
      rw [node?_toSnapshot, node?_of_mem hs.self.wellFormed.distinctNodes mem, Option.map_some]
    refine ⟨⟨p, ?_, bears.value⟩, .plugin (p := storePad s e.id p) hnode ?_ bears.value ?_⟩
    · rw [pad?_of_mem hs.self.wellFormed.distinctNodes mem, here]
    · rw [pad?_storeNode, here, Option.map_some]
    · rw [storeNode_eq, body, storeBody]
  | @proxy s inner e id q mem body unlinked inside ih =>
    have hin := hs.body mem id inner body
    obtain ⟨⟨d, hd, hvalue⟩, hshows⟩ := ih hin
    obtain ⟨p, hp, hmirror⟩ := exists_mirror hs mem body hd unlinked
    have hpad : findPad (proxyPadId q) e.pads = some p := by
      rw [proxyPadId, ← hmirror.id, findPad_of_mem (hs.self.wellFormed.distinctPads e mem) hp]
    have hnode : s.toSnapshot.node? e.id = some (storeNode s e) := by
      rw [node?_toSnapshot, node?_of_mem hs.self.wellFormed.distinctNodes mem, Option.map_some]
    have hgraph : (storeNode s e).subgraph = some ⟨id, inner.toSnapshot⟩ := by
      rw [storeNode_eq, body, storeBody]
    have htarget : parseProxyPadId (proxyPadId q) = some q := by
      obtain ⟨f, hf, hfid, -⟩ := pad?_eq_some hd
      exact parseProxyPadId_eq_some_iff.mpr ⟨rfl, hfid ▸ (hin.self.wellFormed.validIds f hf).2.1⟩
    have hvalue := hmirror.value.trans hvalue
    refine ⟨⟨p, ?_, hvalue⟩, .proxy (p := storePad s e.id p) hnode ?_ hvalue hgraph htarget hshows⟩
    · rw [pad?_of_mem hs.self.wellFormed.distinctNodes mem, hpad]
    · rw [pad?_storeNode, hpad, Option.map_some]

end GraphState

end Patchbay
