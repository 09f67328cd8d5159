import Patchbay.Proofs.Graph.Cycles
import Patchbay.Proofs.Constraint.Under

/-!
# Copies of a graph

A *copy* of a graph has the same nodes, the same pads with the same values, and the same links
(`GraphState.Copies`). It may lack a value that is the first one of a menu. What the pads of a copy
declare may be anything, and so may the graphs inside its nodes.
-/

namespace Patchbay

/-- The value of the pad is the first one of the menu that it declares, which resolution puts there
if nothing is stored. -/
def PadState.HoldsFirst (p : PadState) : Prop :=
  ∃ option rest, p.declared = some [.enumeration (option :: rest)] ∧ p.value = some (.str option)

/-- The same pad, perhaps under another type. A value that is the first one of a menu may be
missing (`PadState.HoldsFirst`), and the value of a proxy may be anything. -/
structure PadState.Copies (q p : PadState) : Prop where
  outline : q.outline = p.outline
  value : p.proxy = none → q.value = p.value ∨ q.value = none ∧ p.HoldsFirst

theorem PadState.Copies.refl (p : PadState) : p.Copies p := ⟨rfl, fun _ => .inl rfl⟩

/-- The same type, or graphs inside, whatever they are. -/
def Body.Copies : Body → Body → Prop
  | .plugin t, .plugin t' => t = t'
  | .subgraph id _, .subgraph id' _ => id = id'
  | _, _ => False

theorem Body.Copies.refl (b : Body) : b.Copies b := by
  cases b <;> rfl

theorem Body.Copies.plugin_eq {b b' : Body} {type : NodeType} (h : b.Copies b')
    (hb : b' = .plugin type) : b = .plugin type := by
  subst hb
  cases b with
  | plugin t => exact congrArg Body.plugin h
  | subgraph id inner => exact h.elim

/-- The same node with the same pads and values, pad by pad (`PadState.Copies`). -/
structure NodeEntry.Copies (d e : NodeEntry) : Prop where
  id : d.id = e.id
  nodeType : d.nodeType = e.nodeType
  editor : d.editor = e.editor
  pads : List.Forall₂ PadState.Copies d.pads e.pads
  body : d.body.Copies e.body

/-- The same nodes and the same links, in the same order, so that both have one order of
resolution. -/
structure GraphState.Copies (t s : GraphState) : Prop where
  nodes : List.Forall₂ NodeEntry.Copies t.nodes s.nodes
  links : t.links = s.links

theorem map_outline_of_copies {pads pads' : List PadState}
    (h : List.Forall₂ PadState.Copies pads pads') :
    pads.map PadState.outline = pads'.map PadState.outline := by
  rw [← List.forall₂_eq_eq_eq, List.forall₂_map_left_iff, List.forall₂_map_right_iff]
  exact h.imp fun _ _ hp => hp.outline

/-- In lists that are related member by member, related members are found. -/
theorem find?_of_forall₂ {α β : Type} {r : α → β → Prop} {as : List α} {bs : List β}
    (h : List.Forall₂ r as bs) {f : α → Bool} {g : β → Bool} (hfg : ∀ a b, r a b → f a = g b) :
    as.find? f = none ∧ bs.find? g = none ∨
      ∃ a b, as.find? f = some a ∧ bs.find? g = some b ∧ r a b := by
  induction h with
  | nil => exact .inl ⟨rfl, rfl⟩
  | @cons a b as bs hab _ ih =>
    cases hb : g b with
    | true =>
      exact .inr ⟨a, b, List.find?_cons_of_pos ((hfg a b hab).trans hb), List.find?_cons_of_pos hb,
        hab⟩
    | false =>
      rw [List.find?_cons_of_neg (by simp [hfg a b hab, hb]),
        List.find?_cons_of_neg (by simp [hb])]
      exact ih

/-- In lists that are related member by member, every member of the first is related to one of the
second. -/
theorem exists_of_forall₂ {α β : Type} {r : α → β → Prop} {as : List α} {bs : List β}
    (h : List.Forall₂ r as bs) {a : α} (ha : a ∈ as) : ∃ b ∈ bs, r a b := by
  induction h with
  | nil => cases ha
  | @cons a' b as bs hab _ ih =>
    rcases List.mem_cons.mp ha with rfl | ha
    · exact ⟨b, List.mem_cons_self, hab⟩
    · obtain ⟨b', hb', hrest⟩ := ih ha
      exact ⟨b', List.mem_cons_of_mem _ hb', hrest⟩

theorem findPad_of_copies {pads pads' : List PadState}
    (h : List.Forall₂ PadState.Copies pads pads') (id : String) :
    findPad id pads = none ∧ findPad id pads' = none ∨
      ∃ q p, findPad id pads = some q ∧ findPad id pads' = some p ∧ q.Copies p :=
  find?_of_forall₂ h fun q p hqp => by rw [(PadState.outline_eq_iff.mp hqp.outline).1]

namespace GraphState

variable {s t : GraphState} {i : Nat} {e d : NodeEntry}

/-- A copy has copies of all pads. -/
theorem pad?_of_copies (h : List.Forall₂ NodeEntry.Copies t.nodes s.nodes) {r : PadRef}
    {p : PadState} (hp : s.pad? r = some p) : ∃ q, t.pad? r = some q ∧ q.Copies p := by
  obtain ⟨e, he, hp⟩ := Option.bind_eq_some_iff.mp hp
  have hnodes := find?_of_forall₂ h (f := fun d => d.id == r.node) (g := fun e => e.id == r.node)
    fun d e hde => by rw [hde.id]
  rw [node?] at he
  rw [he] at hnodes
  rcases hnodes with ⟨-, hnone⟩ | ⟨d, e', hd, he', hde⟩
  · cases hnone
  · rw [Option.some.injEq] at he'
    subst he'
    rw [NodeEntry.pad?] at hp
    rcases findPad_of_copies hde.pads r.pad with ⟨-, hnone⟩ | ⟨q, p', hq, hp', hqp⟩
    · rw [hp] at hnone
      cases hnone
    · rw [hp, Option.some.injEq] at hp'
      subst hp'
      refine ⟨q, ?_, hqp⟩
      rw [pad?, node?, hd]
      exact hq

theorem Copies.ids (h : t.Copies s) : t.nodes.map (·.id) = s.nodes.map (·.id) := by
  rw [← List.forall₂_eq_eq_eq, List.forall₂_map_left_iff, List.forall₂_map_right_iff]
  exact h.nodes.imp fun _ _ he => he.id

theorem Copies.getElem? (h : t.Copies s) (he : s.nodes[i]? = some e) :
    ∃ d, t.nodes[i]? = some d ∧ d.Copies e := by
  obtain ⟨hlt, rfl⟩ := List.getElem?_eq_some_iff.mp he
  obtain ⟨hlen, hget⟩ := List.forall₂_iff_get.mp h.nodes
  exact ⟨t.nodes[i], List.getElem?_eq_getElem (hlen ▸ hlt), hget i (hlen ▸ hlt) hlt⟩

/-- A copy of a graph without subgraphs has none. -/
theorem Copies.depth_le_zero (h : t.Copies s) (hs : s.depth ≤ 0) : t.depth ≤ 0 := by
  refine depth_le_zero_iff.mpr fun d hd id inner hb => ?_
  obtain ⟨e, he, hde⟩ := exists_of_forall₂ h.nodes hd
  have hbody := hde.body
  rw [hb] at hbody
  cases hb' : e.body with
  | plugin type =>
    rw [hb'] at hbody
    exact hbody
  | subgraph id' inner' => exact depth_le_zero_iff.mp hs e he id' inner' hb'

/-! ### What depends on ids and links only -/

/-- A pad is the same if the node at its place is. -/
theorem pad?_eq_of_place (hids : t.nodes.map (·.id) = s.nodes.map (·.id)) {r : PadRef}
    (h : ∀ j, s.indexOf? r.node = some j → t.nodes[j]? = s.nodes[j]?) : t.pad? r = s.pad? r := by
  cases hj : s.indexOf? r.node with
  | some j => rw [pad?_of_indexOf? hj, pad?_of_indexOf? (indexOf?_congr hids ▸ hj), h j hj]
  | none =>
    have hnone : ∀ {s : GraphState}, s.indexOf? r.node = none → s.pad? r = none := by
      intro s hs
      have hnode : s.node? r.node = none :=
        List.find?_eq_none.mpr fun e he => by simpa using List.findIdx?_eq_none_iff.mp hs e he
      rw [pad?, hnode, Option.bind_none]
    rw [hnone hj, hnone (indexOf?_congr hids ▸ hj)]

/-- The order of resolution is that of the graph copied. -/
theorem dependencyOrder_congr (hids : t.nodes.map (·.id) = s.nodes.map (·.id))
    (hlinks : t.links = s.links) : t.dependencyOrder = s.dependencyOrder := by
  have hlen : t.nodes.length = s.nodes.length := by
    have := congrArg List.length hids
    simpa only [List.length_map] using this
  rw [dependencyOrder, dependencyOrder, nodeEdges, nodeEdges, indexOf?_congr hids, hlinks, hlen]

end GraphState

end Patchbay

/-!
## Depth is kept

How deep subgraphs nest in a graph is determined by how deep they nest in the bodies of its nodes.
Resolution leaves that alone (`depth_reconcileWithin`), so it does the same for every bound on the
depth (`reconcileWithin_of_depth_le`).
-/

namespace Patchbay.GraphState

variable {s s' t : GraphState} {R : InnerResolver} {config : EngineConfig} {external : External}
  {e e' : NodeEntry} {changed : Bool} {n : Nat}

/-- How deep subgraphs nest in the bodies of the nodes. -/
def bodyDepths (s : GraphState) : List Nat := s.nodes.map fun e => e.body.depth

theorem depth_congr (h : s.bodyDepths = t.bodyDepths) : s.depth = t.depth := by
  have hnodes : ∀ nodes : List NodeEntry,
      depthOfNodes nodes = (nodes.map fun e => e.body.depth).foldr max 0 := by
    intro nodes
    induction nodes with
    | nil => rfl
    | cons e rest ih =>
      rw [depthOfNodes, ih]
      cases e
      rfl
  cases s
  cases t
  rw [depth, depth, hnodes, hnodes]
  exact congrArg _ h

theorem bodyDepths_of_bare (h : s.bare = t.bare) : s.bodyDepths = t.bodyDepths := by
  have hbody := congrArg (List.map fun e : NodeEntry => e.body.depth) (bare_eq_iff.mp h).1
  simpa only [List.map_map, Function.comp_def, NodeEntry.bare, bodyDepths] using hbody

/-! ### Resolution -/

section

variable (hR : ∀ external s s', R external s = .ok s' → s'.depth = s.depth)

include hR

theorem bodyDepths_resolveAt {i : Nat} (h : resolveAt R external s i = .ok (s', changed)) :
    s'.bodyDepths = s.bodyDepths := by
  obtain ⟨-, rfl⟩ | ⟨e, e', hi, hnode, rfl⟩ := resolveAt_cases h
  · rfl
  · refine map_set_of_eq hi ?_
    obtain ⟨specs, body, hbody, -, rfl, -⟩ := resolveNode_eq_ok hnode
    show body.depth = e.body.depth
    rw [resolveBody] at hbody
    split at hbody
    · rename_i type heq
      obtain ⟨specs', -, hbody⟩ := map_eq_ok_iff.mp hbody
      cases hbody
      rw [heq]
    · rename_i id inner heq
      obtain ⟨inner', hinner, hbody⟩ := map_eq_ok_iff.mp hbody
      cases hbody
      rw [heq, Body.depth, Body.depth, hR _ _ _ hinner]

theorem bodyDepths_pass {order : List Nat} (h : pass R external order s = .ok (s', changed)) :
    s'.bodyDepths = s.bodyDepths :=
  pass_invariant (I := fun t => t.bodyDepths = s.bodyDepths)
    (fun _ _ _ _ ht hstep => (bodyDepths_resolveAt hR hstep).trans ht) (fun _ ht => ht) rfl h

theorem depth_reconcileWith (h : reconcileWith R config external s = .ok s') :
    s'.depth = s.depth := by
  obtain ⟨s₀, s₁, s₂, hs₀, hpass, hnarrow, rfl⟩ :=
    reconcileWith_eq_ok (I := fun t => t.bodyDepths = s.bodyDepths) rfl
      (fun t t' _ ht hpass => (bodyDepths_pass hR hpass).trans ht) rfl h
  refine depth_congr ?_
  rw [bodyDepths_of_bare ((bare_markResolved s₂).trans (narrow_agrees hnarrow).1),
    bodyDepths_pass hR hpass, hs₀]

end

theorem depth_reconcileWithin (h : reconcileWithin config n external s = .ok s') :
    s'.depth = s.depth := by
  induction n generalizing external s s' with
  | zero =>
    refine depth_reconcileWith (fun external s s' hR => ?_) h
    cases hR
    rfl
  | succ n ih => exact depth_reconcileWith (fun _ _ _ => ih) h

/-! ### Bounds on the depth -/

section

variable {R' : InnerResolver} {k : Nat}
  (hR : ∀ external s s', R external s = .ok s' → s'.depth = s.depth)
  (hRR : ∀ external inner, inner.depth < k → R external inner = R' external inner)

include hRR

theorem resolveAt_of_depth (hs : s.depth ≤ k) (i : Nat) :
    resolveAt R external s i = resolveAt R' external s i := by
  rw [resolveAt, resolveAt]
  cases hi : s.nodes[i]? with
  | none => rfl
  | some e =>
    have hbody : resolveBody R e (s.view external e) = resolveBody R' e (s.view external e) := by
      have hdepth := depth_le_iff.mp hs e (List.mem_of_getElem? hi)
      rw [resolveBody, resolveBody]
      cases hb : e.body with
      | plugin type => rfl
      | subgraph id inner =>
        rw [hb, Body.depth] at hdepth
        simp only [hRR _ inner hdepth]
    simp only [resolveNode, hbody]

include hR

theorem resolveEach_of_depth (order : List Nat) (hs : s.depth ≤ k) :
    resolveEach R external s order = resolveEach R' external s order := by
  induction order generalizing s with
  | nil => rfl
  | cons i rest ih =>
    rw [resolveEach, resolveEach, ← resolveAt_of_depth hRR hs i]
    cases h : resolveAt R external s i with
    | error e => rfl
    | ok next =>
      obtain ⟨t, changed⟩ := next
      have ht : t.depth ≤ k := (depth_congr (bodyDepths_resolveAt hR h)).trans_le hs
      simp only [bind, Except.bind, ih ht]

theorem reconcileWith_of_depth (hs : s.depth ≤ k) :
    reconcileWith R config external s = reconcileWith R' config external s := by
  have hpass : ∀ (order : List Nat) (t : GraphState), t.depth ≤ k →
      pass R external order t = pass R' external order t := fun order t ht => by
    rw [pass, pass, resolveEach_of_depth hR hRR order ht]
  have hsettle : ∀ (limit : Nat) (order : List Nat) (t : GraphState), t.depth ≤ k →
      settle (pass R external order) limit t = settle (pass R' external order) limit t := by
    intro limit order
    induction limit with
    | zero => exact fun _ _ => rfl
    | succ limit ih =>
      intro t ht
      rw [settle, settle, ← hpass order t ht]
      cases h : pass R external order t with
      | error e => rfl
      | ok next =>
        obtain ⟨u, changed⟩ := next
        have hu : u.depth ≤ k := (depth_congr (bodyDepths_pass hR h)).trans_le ht
        simp only [ih u hu]
  rw [reconcileWith, reconcileWith, hsettle _ _ _ hs]

end

/-- Resolution does the same whatever the bound on the depth is. -/
theorem reconcileWithin_of_depth_le {m : Nat} (hm : s.depth ≤ m) (hn : s.depth ≤ n) :
    reconcileWithin config m external s = reconcileWithin config n external s := by
  induction m generalizing n external s with
  | zero =>
    rw [reconcileWithin_eq, reconcileWithin_eq]
    refine reconcileWith_of_depth (k := 0) (fun _ _ _ h => ?_) (fun _ _ h => absurd h (by simp)) hm
    cases h
    rfl
  | succ m ih =>
    rw [reconcileWithin_eq, reconcileWithin_eq]
    refine reconcileWith_of_depth (k := s.depth) (fun _ _ _ h => depth_reconcileWithin h)
      (fun external inner h => ?_) le_rfl
    cases n with
    | zero => exact absurd (h.trans_le hn) (by simp)
    | succ n => exact ih (by omega) (by omega)

end Patchbay.GraphState
