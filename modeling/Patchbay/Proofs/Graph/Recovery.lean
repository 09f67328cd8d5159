import Patchbay.Proofs.Graph.ColdStart

/-!
# Recovering a graph from a copy

Resolution brings a copy of a resolved graph without subgraphs back to that graph, whatever the
pads of the copy declare, if no types flow around its cycles (`reconcile_of_copies`). In the first
pass the nodes that no cycle leads to come back one after the other: those that feed them come
first. After it all other nodes are firm, and each pass brings back those of one more rank
(`Cold.step`).
-/

namespace Patchbay.GraphState

/-- A state on the way from a copy `s₀` to `s`: some places are firm already, some of them done,
and the others are as in the copy. -/
structure Halfway (T : String → NodeType → Prop) (s s₀ t : GraphState) (seen done : Nat → Prop) :
    Prop where
  orderly : t.OrderlyFlat T
  links : t.links = s.links
  length : t.nodes.length = s.nodes.length
  waiting : ∀ i, ¬ seen i → t.nodes[i]? = s₀.nodes[i]?
  firm : ∀ i, seen i → ∀ e, s.nodes[i]? = some e → ∃ d, t.nodes[i]? = some d ∧ d.firm = e.firm
  done : ∀ i, done i → ∀ e, s.nodes[i]? = some e → ∃ d, t.nodes[i]? = some d ∧ d.bare = e.bare

variable {T : String → NodeType → Prop} {R : InnerResolver} {s s₀ t t' : GraphState}
  {e d : NodeEntry} {p : PadState} {seen done done' : Nat → Prop} {rank : String → Nat}
  {placed : List Nat} {i j k : Nat}

/-! ### What a state on the way shows -/

/-- Firm parts show which node was copied. -/
theorem NodeEntry.copies_of_firm (h : d.firm = e.firm) : d.Copies e := by
  obtain ⟨hid, htype, heditor, hpads, hb⟩ := NodeEntry.firm_eq_iff.mp h
  refine ⟨hid, htype, heditor, ?_, hb ▸ .refl d.body⟩
  rw [← List.forall₂_eq_eq_eq, List.forall₂_map_left_iff, List.forall₂_map_right_iff] at hpads
  refine hpads.imp fun q p hqp => ⟨PadState.outline_of_firm hqp, fun _ => .inl ?_⟩
  rw [← PadState.firm_value q, hqp, PadState.firm_value]

namespace Halfway

variable (h : Halfway T s s₀ t seen done)

include h

/-- Every node has a counterpart that is a copy of it. -/
theorem copy_at (hcopy : s₀.Copies s) (he : s.nodes[i]? = some e) :
    ∃ d, t.nodes[i]? = some d ∧ d.Copies e := by
  by_cases hi : seen i
  · obtain ⟨d, hd, hfirm⟩ := h.firm i hi e he
    exact ⟨d, hd, NodeEntry.copies_of_firm hfirm⟩
  · rw [h.waiting i hi]
    exact hcopy.getElem? he

theorem ids (hcopy : s₀.Copies s) : t.nodes.map (·.id) = s.nodes.map (·.id) := by
  refine List.ext_getElem? fun i => ?_
  rw [List.getElem?_map, List.getElem?_map]
  cases he : s.nodes[i]? with
  | none =>
    have hlen : t.nodes.length ≤ i := h.length ▸ List.getElem?_eq_none_iff.mp he
    rw [List.getElem?_eq_none_iff.mpr hlen]
  | some e =>
    by_cases hi : seen i
    · obtain ⟨d, hd, hfirm⟩ := h.firm i hi e he
      rw [hd, Option.map_some, Option.map_some, (NodeEntry.firm_eq_iff.mp hfirm).1]
    · obtain ⟨d, hd, hde⟩ := hcopy.getElem? he
      rw [h.waiting i hi, hd, Option.map_some, Option.map_some, hde.id]

theorem declared?_of_done (hcopy : s₀.Copies s) {r : PadRef}
    (hj : s.indexOf? r.node = some j) (hdone : done j) : t.declared? r = s.declared? r := by
  obtain ⟨e, he, -⟩ := indexOf?_eq_some hj
  obtain ⟨d, hd, hbare⟩ := h.done j hdone e he
  obtain ⟨-, -, -, hpads, -⟩ := NodeEntry.bare_eq_iff.mp hbare
  rw [declared?, declared?, pad?_of_indexOf? hj,
    pad?_of_indexOf? (indexOf?_congr (h.ids hcopy) ▸ hj), he, hd]
  have hfind : ∀ pads : List PadState, (findPad r.pad pads).map (·.declared) =
      (findPad r.pad (pads.map PadState.bare)).map (·.declared) := by
    intro pads
    rw [findPad_bare, Option.map_map]
    rfl
  rw [Option.bind_some, Option.bind_some, hfind, hpads, ← hfind]

/-- One more node is firm, or done. -/
theorem set {seen' done' : Nat → Prop} {e' : NodeEntry}
    (hfit : OrderlyFlat T { t with nodes := t.nodes.set i e' })
    (he : s.nodes[i]? = some e) (hfirm : e'.firm = e.firm) (hseen : ∀ j, seen' j ↔ j = i ∨ seen j)
    (hdone : ∀ j, done' j → j = i ∧ e'.bare = e.bare ∨ j ≠ i ∧ done j) :
    Halfway T s s₀ { t with nodes := t.nodes.set i e' } seen' done' := by
  have hlt : i < t.nodes.length := h.length ▸ (List.getElem?_eq_some_iff.mp he).1
  refine ⟨hfit, h.links, List.length_set.trans h.length, fun j hj => ?_, fun j hj f hf => ?_,
    fun j hj f hf => ?_⟩
  · rw [hseen, not_or] at hj
    rw [List.getElem?_set_ne (Ne.symm hj.1)]
    exact h.waiting j hj.2
  · by_cases hji : j = i
    · subst hji
      obtain rfl : e = f := Option.some.inj (he.symm.trans hf)
      exact ⟨e', List.getElem?_set_self hlt, hfirm⟩
    · rw [List.getElem?_set_ne (Ne.symm hji)]
      exact h.firm j (((hseen j).mp hj).resolve_left hji) f hf
  · rcases hdone j hj with ⟨rfl, hbare⟩ | ⟨hji, hj⟩
    · obtain rfl : e = f := Option.some.inj (he.symm.trans hf)
      exact ⟨e', List.getElem?_set_self hlt, hbare⟩
    · rw [List.getElem?_set_ne (Ne.symm hji)]
      exact h.done j hj f hf

theorem firm_eq (hall : ∀ i < s.nodes.length, seen i) : t.firm = s.firm := by
  have hnodes : t.nodes.map NodeEntry.firm = s.nodes.map NodeEntry.firm := by
    refine List.ext_getElem? fun i => ?_
    rw [List.getElem?_map, List.getElem?_map]
    cases he : s.nodes[i]? with
    | none =>
      have hlen : t.nodes.length ≤ i := h.length ▸ List.getElem?_eq_none_iff.mp he
      rw [List.getElem?_eq_none_iff.mpr hlen]
    | some e =>
      obtain ⟨d, hd, hde⟩ := h.firm i (hall i (List.getElem?_eq_some_iff.mp he).1) e he
      rw [hd, Option.map_some, Option.map_some, hde]
  simp only [GraphState.firm, hnodes, h.links]

theorem bare_eq (hall : ∀ i < s.nodes.length, done i) : t.bare = s.bare := by
  refine bare_eq_iff.mpr ⟨List.ext_getElem? fun i => ?_, h.links⟩
  rw [List.getElem?_map, List.getElem?_map]
  cases he : s.nodes[i]? with
  | none =>
    have hlen : t.nodes.length ≤ i := h.length ▸ List.getElem?_eq_none_iff.mp he
    rw [List.getElem?_eq_none_iff.mpr hlen]
  | some e =>
    obtain ⟨d, hd, hde⟩ := h.done i (hall i (List.getElem?_eq_some_iff.mp he).1) e he
    rw [hd, Option.map_some, Option.map_some, hde]

/-- When all places are firm, all links join what they should. -/
theorem isSound (hwf : s.WellFormed) (hall : ∀ i < s.nodes.length, seen i) {l : Link}
    (hl : l ∈ t.links) : t.isSound l = true := by
  rw [← isSound_firm, h.firm_eq hall, isSound_firm]
  exact hwf.isSound (h.links ▸ hl)

end Halfway

/-! ### One node -/

namespace Cold

variable (h : Cold T R s₀ s)

include h

theorem indexOf?_source {l : Link} (hl : l ∈ s.links) :
    ∃ j, s.indexOf? l.source.node = some j := by
  obtain ⟨p, q, hp, -⟩ := h.wellFormed.linked l hl
  obtain ⟨e, he, hid, -⟩ := pad?_eq_some hp
  obtain ⟨j, hlt, rfl⟩ := List.mem_iff_getElem.mp he
  exact ⟨j, hid ▸ indexOf?_of_getElem? h.orderly.distinct (List.getElem?_eq_getElem hlt)⟩

variable (hhalf : Halfway T s s₀ t seen done)

include hhalf

/-- A sink sees the same when the node that feeds it is done. -/
theorem sink_alike (hsink : p.isSource = false)
    (hfed : ∀ l ∈ s.links, l.sink = ⟨e.id, p.id⟩ → ∀ j, s.indexOf? l.source.node = some j →
      done j) :
    t.peerView [] ⟨e.id, p.id⟩ p = s.peerView [] ⟨e.id, p.id⟩ p := by
  have hfeeder : t.feeder ⟨e.id, p.id⟩ = s.feeder ⟨e.id, p.id⟩ := by
    rw [feeder, feeder, hhalf.links]
  rw [peerView_sink hsink, peerView_sink hsink, hfeeder]
  cases hf : s.feeder ⟨e.id, p.id⟩ with
  | none => rfl
  | some r =>
    obtain ⟨l, hl, rfl⟩ := Option.map_eq_some_iff.mp hf
    have hlsink : l.sink = ⟨e.id, p.id⟩ := by simpa using List.find?_some hl
    have hl := List.mem_of_find?_eq_some hl
    obtain ⟨j, hj⟩ := h.indexOf?_source hl
    rw [Option.bind_some, Option.bind_some,
      hhalf.declared?_of_done h.copy hj (hfed l hl hlsink j hj)]

variable (he : s.nodes[i]? = some e)

include he

/-- A node comes back when all nodes that feed it are done. -/
theorem resolveNode_of_fed (hcopy : d.Copies e)
    (hfed : ∀ l ∈ s.links, l.sink.node = e.id → ∀ j, s.indexOf? l.source.node = some j → done j) :
    ∃ e' c, resolveNode R [] t d = .ok (e', c) ∧ e'.bare = e.bare := by
  have hmem := List.mem_of_getElem? he
  obtain ⟨type, hb⟩ := h.orderly.exists_plugin hmem
  obtain ⟨specs, hbody, hnd, hpads⟩ := resolveBody_of_copy (h.settled e hmem)
    (h.wellFormed.distinctPads e hmem) hcopy hb (h.orderly.tame h.tame hmem hb)
    fun p _ hsink => h.sink_alike hhalf hsink fun l hl hlsink j hj =>
      hfed l hl (by rw [hlsink]) j hj
  -- the new node has the pads and the body of the one in `s`, and the rest it has from the copy
  refine ⟨{ d with body := e.body, pads := specs.map (mergedPad d.pads) },
    !sameDeclarations d.pads (specs.map (mergedPad d.pads)), ?_,
    NodeEntry.bare_eq_iff.mpr ⟨hcopy.id, hcopy.nodeType, hcopy.editor, hpads, rfl⟩⟩
  rw [resolveNode, hbody]
  exact applySpecs_of_nodup hnd { d with body := e.body }

/-- A calm node comes back firm, and as it was when the nodes that it takes types from are done. -/
theorem resolveNode_of_calm (hcopy : d.Copies e) {type : NodeType} {K : List String}
    (hb : e.body = .plugin type) (hcalm : type.Calm K) :
    ∃ e' c, resolveNode R [] t d = .ok (e', c) ∧ e'.firm = e.firm ∧
      ((∀ l ∈ s.links, l.sink.node = e.id → l.sink.pad ∈ K →
          ∀ j, s.indexOf? l.source.node = some j → done j) → e'.bare = e.bare) := by
  have hmem := List.mem_of_getElem? he
  obtain ⟨specs, hbody, hnd, hfirm, hbare⟩ := resolveBody_of_calm (h.settled e hmem)
    (h.wellFormed.distinctPads e hmem) hcopy hb (h.orderly.tame h.tame hmem hb) hcalm t []
  refine ⟨{ d with body := e.body, pads := specs.map (mergedPad d.pads) },
    !sameDeclarations d.pads (specs.map (mergedPad d.pads)), ?_,
    NodeEntry.firm_eq_iff.mpr ⟨hcopy.id, hcopy.nodeType, hcopy.editor, hfirm, rfl⟩, fun hfed => ?_⟩
  · rw [resolveNode, hbody]
    exact applySpecs_of_nodup hnd { d with body := e.body }
  · refine NodeEntry.bare_eq_iff.mpr ⟨hcopy.id, hcopy.nodeType, hcopy.editor, hbare ?_, rfl⟩
    intro p hp hsink hK
    exact h.sink_alike hhalf hsink fun l hl hlsink j hj =>
      hfed l hl (by rw [hlsink]) (by rw [hlsink]; exact hK) j hj

end Cold

/-! ### One pass -/

/-- The places that are firm in pass `k`, when those in `placed` were resolved in it. -/
def FirmBy (k : Nat) (placed : List Nat) (i : Nat) : Prop := i ∈ placed ∨ 1 ≤ k

/-- The places that are done in pass `k`, when those in `placed` were resolved in it. -/
def DoneBy (s : GraphState) (rank : String → Nat) (k : Nat) (placed : List Nat) (i : Nat) : Prop :=
  ∀ e, s.nodes[i]? = some e →
    s.Ahead e.id ∧ FirmBy k placed i ∨ rank e.id < k ∨ rank e.id ≤ k ∧ i ∈ placed

/-- How far pass `k` has come when the places in `placed` were resolved in it. -/
abbrev Reached (T : String → NodeType → Prop) (s s₀ : GraphState) (rank : String → Nat) (k : Nat)
    (placed : List Nat) (t : GraphState) : Prop :=
  Halfway T s s₀ t (FirmBy k placed) (DoneBy s rank k placed)

theorem FirmBy.append_iff : FirmBy k (placed ++ [i]) j ↔ j = i ∨ FirmBy k placed j := by
  rw [FirmBy, FirmBy, List.mem_append, List.mem_singleton]
  tauto

theorem DoneBy.of_append (h : DoneBy s rank k (placed ++ [i]) j) (hji : j ≠ i) :
    DoneBy s rank k placed j := by
  intro e he
  have hmem : j ∈ placed ++ [i] ↔ j ∈ placed := by simp [hji]
  rcases h e he with ⟨hahead, hfirm⟩ | hrank | ⟨hrank, hj⟩
  · exact .inl ⟨hahead, (FirmBy.append_iff.mp hfirm).resolve_left hji⟩
  · exact .inr (.inl hrank)
  · exact .inr (.inr ⟨hrank, hmem.mp hj⟩)

namespace Cold

variable (h : Cold T R s₀ s)
  (hflow : ∀ e ∈ s.nodes, s.Ahead e.id ∨ s.Relays rank e)

include h hflow

/-- One more node is firm, and done if its rank is low enough. -/
theorem step (hreach : Reached T s s₀ rank k placed t) (he : s.nodes[i]? = some e)
    (hfed : ∀ j, (j, i) ∈ s.nodeEdges → s.AheadAt j → j ∈ placed) :
    ∃ t' c, resolveAt R [] t i = .ok (t', c) ∧
      Reached T s s₀ rank k (placed ++ [i]) t' := by
  have hmem := List.mem_of_getElem? he
  have hi := indexOf?_of_getElem? h.orderly.distinct he
  obtain ⟨d, hd, hcopy⟩ := hreach.copy_at h.copy he
  have hplaced : ∀ l ∈ s.links, l.sink.node = e.id → s.Ahead l.source.node →
      ∀ j, s.indexOf? l.source.node = some j → DoneBy s rank k placed j := by
    intro l hl hsink hahead j hj f hf
    obtain ⟨f', hf', hid⟩ := indexOf?_eq_some hj
    obtain rfl : f = f' := Option.some.inj (hf.symm.trans hf')
    have hedge := mem_nodeEdges_of_ahead hl hj (by rw [hsink]; exact hi) hahead
    exact .inl ⟨hid ▸ hahead, .inl (hfed j hedge ⟨f, hf, hid ▸ hahead⟩)⟩
  obtain ⟨e', c, hnode, hfirm, hbare⟩ : ∃ e' c, resolveNode R [] t d = .ok (e', c) ∧
      e'.firm = e.firm ∧ (s.Ahead e.id ∨ rank e.id ≤ k → e'.bare = e.bare) := by
    by_cases hahead : s.Ahead e.id
    · have hfed' : ∀ l ∈ s.links, l.sink.node = e.id → s.Ahead l.source.node :=
        fun l hl hsink => hahead.of_transGen (.single ⟨l, hl, rfl, hsink⟩)
      obtain ⟨e', c, hnode, hbare⟩ := h.resolveNode_of_fed hreach he hcopy
        fun l hl hsink => hplaced l hl hsink (hfed' l hl hsink)
      exact ⟨e', c, hnode, NodeEntry.firm_of_bare hbare, fun _ => hbare⟩
    · obtain ⟨type, K, hb, hcalm, hrelay⟩ := (hflow e hmem).resolve_left hahead
      obtain ⟨e', c, hnode, hfirm, hbare⟩ := h.resolveNode_of_calm hreach he hcopy hb hcalm
      refine ⟨e', c, hnode, hfirm, fun hrank => hbare fun l hl hsink hK j hj => ?_⟩
      rcases hrelay l hl hsink hK with hsource | hlower
      · exact hplaced l hl hsink hsource j hj
      · intro f hf
        obtain ⟨f', hf', hid⟩ := indexOf?_eq_some hj
        obtain rfl : f = f' := Option.some.inj (hf.symm.trans hf')
        exact .inr (.inl (hid ▸ lt_of_lt_of_le hlower (hrank.resolve_left hahead)))
  have hat : resolveAt R [] t i = .ok ({ t with nodes := t.nodes.set i e' }, c) := by
    simp only [resolveAt, hd, hnode, Except.map]
  have hfit := (resolveAt_spec (Q := fun _ => True) (Regime.tame h.tame) resolves_false
    (External.in_nil _) hreach.orderly hat).1.orderly
  refine ⟨_, c, hat, hreach.set hfit he hfirm (fun j => FirmBy.append_iff) fun j hj => ?_⟩
  by_cases hji : j = i
  · refine .inl ⟨hji, hbare ?_⟩
    rcases hj e (hji ▸ he) with ⟨hahead, -⟩ | hrank | ⟨hrank, -⟩
    · exact .inl hahead
    · exact .inr hrank.le
    · exact .inr hrank
  · exact .inr ⟨hji, hj.of_append hji⟩

/-- A pass in which what no cycle leads to comes first resolves all nodes. -/
theorem run {order : List Nat} (hreach : Reached T s s₀ rank k placed t)
    (hfeed : Feeding s.AheadAt s.nodeEdges placed order) (hlt : ∀ i ∈ order, i < s.nodes.length) :
    ∃ t' c, resolveEach R [] t order = .ok (t', c) ∧
      Reached T s s₀ rank k (placed ++ order) t' := by
  induction order generalizing t placed with
  | nil => exact ⟨t, false, rfl, by simpa using hreach⟩
  | cons i rest ih =>
    obtain ⟨hfed, hfeed⟩ := hfeed
    obtain ⟨hi, hrest⟩ := List.forall_mem_cons.mp hlt
    obtain ⟨t₁, c₁, h₁, hreach₁⟩ := h.step hflow hreach (List.getElem?_eq_getElem hi) hfed
    obtain ⟨t₂, c₂, h₂, hreach₂⟩ := ih hreach₁ hfeed hrest
    refine ⟨t₂, c₁ || c₂, ?_, by rw [List.append_cons]; exact hreach₂⟩
    rw [resolveEach, h₁]
    simp only [bind, Except.bind, h₂]

/-- A pass brings the nodes of one more rank back. -/
theorem pass (hreach : Reached T s s₀ rank k [] t) :
    ∃ t' c, pass R [] s.dependencyOrder t = .ok (t', c) ∧
      Reached T s s₀ rank (k + 1) [] t' := by
  obtain ⟨-, hall, hfeed⟩ := feeding_dependencyOrder s
  obtain ⟨t', c, heach, hend⟩ := h.run hflow hreach hfeed fun i hi => (hall i).mp hi
  rw [List.nil_append] at hend
  have hmem : ∀ i e, s.nodes[i]? = some e → i ∈ s.dependencyOrder :=
    fun i e he => (hall i).mpr (List.getElem?_eq_some_iff.mp he).1
  have hkeep : t'.links.filter t'.isSound = t'.links := List.filter_eq_self.mpr fun l hl =>
    hend.isSound h.wellFormed (fun i hi => .inl ((hall i).mpr hi)) hl
  refine ⟨t', c || !t'.links.all t'.isSound, ?_, hend.orderly, hend.links, hend.length,
    fun i hi => ?_, fun i _ e he => ?_, fun i hi e he => ?_⟩
  · rw [GraphState.pass, heach]
    simp only [Except.map, pruneLinks, hkeep]
    cases t'
    rfl
  · exact absurd (.inr (Nat.le_add_left 1 k)) hi
  · exact hend.firm i (.inl (hmem i e he)) e he
  · refine hend.done i (fun f hf => ?_) e he
    have hplaced := hmem i e he
    rcases hi f hf with ⟨hahead, -⟩ | hrank | ⟨-, hnil⟩
    · exact .inl ⟨hahead, .inl hplaced⟩
    · exact .inr (.inr ⟨Nat.le_of_lt_succ hrank, hplaced⟩)
    · cases hnil

end Cold

/-! ### Passes enough -/

/-- After passes enough everything but the effective constraints is back. -/
theorem bare_of_reached (hreach : Reached T s s₀ rank k [] t) (hk : 1 ≤ k)
    (hrank : ∀ e ∈ s.nodes, s.Ahead e.id ∨ rank e.id < k) : t.bare = s.bare := by
  refine hreach.bare_eq fun i _ e he => ?_
  rcases hrank e (List.mem_of_getElem? he) with hahead | hlt
  · exact .inl ⟨hahead, .inr hk⟩
  · exact .inr (.inl hlt)

namespace Cold

variable (h : Cold T R s₀ s) {passes : Nat}
  (hflow : ∀ e ∈ s.nodes, s.Ahead e.id ∨ rank e.id + 2 ≤ passes ∧ s.Relays rank e)

include h hflow

/-- A pass that changes nothing has everything back, for no later one would change anything. -/
theorem bare_of_unchanged (hreach : Reached T s s₀ rank k [] t)
    (hpass : GraphState.pass R [] s.dependencyOrder t = .ok (t', false)) :
    t'.bare = s.bare := by
  have hrelays : ∀ e ∈ s.nodes, s.Ahead e.id ∨ s.Relays rank e :=
    fun e he => (hflow e he).imp_right And.right
  obtain ⟨t₁, c₁, hpass₁, hreach₁⟩ := h.pass hrelays hreach
  rw [hpass, Except.ok.injEq, Prod.mk.injEq] at hpass₁
  obtain ⟨rfl, rfl⟩ := hpass₁
  have hsettled : Settled R [] t' := by
    have hrep := repeatable_tame (R := R) (Q := fun _ => True) h.tame resolves_false
      (fun _ _ _ _ => False.elim) (External.in_nil _)
    refine settled_of_pass hrep hreach.orderly.fit (fun i hi => ?_) hpass
    exact ((feeding_dependencyOrder s).2.1 i).mpr (hreach.length ▸ hi)
  have hlater : ∀ m, ∃ u, Reached T s s₀ rank (k + 1 + m) [] u ∧ Settled R [] u ∧
      u.bare = t'.bare := by
    intro m
    induction m with
    | zero => exact ⟨t', hreach₁, hsettled, rfl⟩
    | succ m ih =>
      obtain ⟨u, hu, hset, hbare⟩ := ih
      have hreads : u.ReadsValues := hu.orderly.readsValues h.tame
      obtain ⟨u', c, hpass', hu'⟩ := h.pass hrelays hu
      obtain ⟨u'', hpass'', hbare'⟩ := pass_of_settled s.dependencyOrder hset hreads fun l hl =>
        hu.isSound h.wellFormed (fun i _ => .inr (by omega)) hl
      rw [hpass', Except.ok.injEq, Prod.mk.injEq] at hpass''
      obtain ⟨rfl, rfl⟩ := hpass''
      exact ⟨u', hu', hset.congr hreads hbare'.symm, hbare'.trans hbare⟩
  obtain ⟨u, hu, -, hbare⟩ := hlater passes
  rw [← hbare]
  refine bare_of_reached hu (by omega) fun e he => ?_
  exact (hflow e he).imp_right fun hrank => by omega

/-- Passes follow each other until everything is back. -/
theorem settle (fuel : Nat) (hreach : Reached T s s₀ rank k [] t) (hfuel : 1 ≤ fuel)
    (hpasses : 2 ≤ k + fuel) (hrank : ∀ e ∈ s.nodes, s.Ahead e.id ∨ rank e.id + 2 ≤ k + fuel) :
    ∃ u, settle (GraphState.pass R [] s.dependencyOrder) fuel t = .ok (some u) ∧
      u.bare = s.bare := by
  induction fuel generalizing k t with
  | zero => omega
  | succ fuel ih =>
    obtain ⟨t₁, c, hpass, hreach₁⟩ := h.pass (fun e he => (hflow e he).imp_right And.right) hreach
    rw [GraphState.settle, hpass]
    cases c with
    | false =>
      simp only [Bool.false_eq_true, if_false]
      exact ⟨t₁, rfl, h.bare_of_unchanged hflow hreach hpass⟩
    | true =>
      simp only [if_true]
      cases fuel with
      | zero =>
        -- everything was back before the last pass, which so has changed nothing
        have hbare : t.bare = s.bare := bare_of_reached hreach (by omega) fun e he =>
          (hrank e he).imp_right fun hlt => by omega
        have hreads : s.ReadsValues := h.orderly.readsValues h.tame
        obtain ⟨t', hpass', -⟩ := pass_of_settled s.dependencyOrder
          (h.settled.congr hreads hbare.symm) (readsValues_of_bare hreads hbare.symm)
          fun l hl =>
            hreach.isSound h.wellFormed (fun i _ => .inr (by omega)) hl
        rw [hpass] at hpass'
        cases hpass'
      | succ fuel =>
        refine ih hreach₁ (by omega) (by omega) fun e he => ?_
        exact (hrank e he).imp_right fun hlt => by omega

/-- Resolution brings the copy back. -/
theorem reconcile {config : EngineConfig} (hpasses : config.passLimit s.nodes.length = passes)
    (htwo : 2 ≤ passes) (hnarrow : (s.narrow []).map markResolved = .ok s) :
    reconcileWith R config [] s₀ = .ok s := by
  have hlen : s₀.nodes.length = s.nodes.length := by
    have hids := congrArg List.length h.copy.ids
    simpa only [List.length_map] using hids
  have hstart : Reached T s s₀ rank 0 [] s₀ := by
    refine ⟨h.orderly₀, h.copy.links, hlen, fun _ _ => rfl, fun i hi => ?_, fun i hi e he => ?_⟩
    · rcases hi with hi | hi
      · cases hi
      · omega
    · rcases hi e he with ⟨-, hi | hi⟩ | hi | ⟨-, hi⟩
      · cases hi
      · omega
      · omega
      · cases hi
  obtain ⟨u, hsettle, hbare⟩ := h.settle hflow passes hstart (by omega) (by omega) fun e he =>
    (hflow e he).imp_right fun hrank => by omega
  rw [reconcileWith, hlen, hpasses, dependencyOrder_congr h.copy.ids h.copy.links, hsettle]
  rw [← hnarrow]
  exact (narrow_congr hbare.symm).symm

end Cold

/-! ### Graphs without subgraphs -/

theorem two_le_passLimit {config : EngineConfig} (h : config.maxResolvePasses ≠ 1) (n : Nat) :
    2 ≤ config.passLimit n := by
  rw [EngineConfig.passLimit]
  split <;> omega

/-- A resolved graph without subgraphs comes out of every orderly copy of it, if no types flow
around its cycles. -/
theorem reconcile_of_copies {config : EngineConfig} (hT : ∀ name t, T name t → t.Tame)
    (hconfig : config.maxResolvePasses ≠ 1) (hs : s.Nested T Constraints.Plain 0)
    (hwf : s.WellFormed) (hs₀ : s₀.Nested T Constraints.Plain 0) (hcopy : s₀.Copies s)
    (huntangled : s.Untangled (config.passLimit s.nodes.length))
    (h : reconcile config [] s = .ok s) : reconcile config [] s₀ = .ok s := by
  rw [reconcile, Nat.le_zero.mp hs.1] at h
  rw [reconcile, Nat.le_zero.mp hs₀.1, reconcileWithin_eq]
  obtain ⟨hset, hnarrow⟩ := settled_of_reconcileWithin hT (External.in_nil _) hs h
  obtain ⟨rank, hflow⟩ := huntangled
  have hcold : Cold T (innerResolver config 0) s₀ s :=
    ⟨hT, nested_zero_iff.mp hs, hwf, hset, hcopy, nested_zero_iff.mp hs₀⟩
  exact hcold.reconcile hflow rfl (two_le_passLimit hconfig _) hnarrow

end Patchbay.GraphState
