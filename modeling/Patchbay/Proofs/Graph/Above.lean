import Patchbay.Proofs.Graph.Behind
import Patchbay.Proofs.Graph.Mirrors

/-!
# Graphs compared pad by pad

Two graphs with one plan are compared pad by pad, at every depth (`GraphState.Padwise`). Mostly
one of them permits *more*: it is *above* the other one (`GraphState.Above`) if every pad declares
at least what it declares there. Then more is behind every pad (`Above.behind`), and every pad sees
more (`Above.peerView`). Operators are left out of this, for their menus go the other way.
-/

namespace Patchbay

/-- A relation holds between the pads of two graphs that correspond to each other, at every depth.
It is defined by recursion into the graphs inside, so that it can be used of types (`Above`) and of
operators (`Tuned`). -/
inductive GraphState.Padwise (P : PadState → PadState → Prop) : GraphState → GraphState → Prop
  | intro {t s : GraphState}
      (pads : ∀ (i : Nat) (e d : NodeEntry), s.nodes[i]? = some e → t.nodes[i]? = some d →
        ∀ p ∈ e.pads, ∀ q ∈ d.pads, q.id = p.id → P q p)
      (inside : ∀ (i : Nat) (e d : NodeEntry) (id id' : Option String) (inner inner' : GraphState),
        s.nodes[i]? = some e → t.nodes[i]? = some d → e.body = .subgraph id inner →
          d.body = .subgraph id' inner' → Padwise P inner' inner) : Padwise P t s

/-- A relation holds between the pads of two nodes that correspond to each other, and at every
depth inside. -/
structure NodeEntry.Padwise (P : PadState → PadState → Prop) (d e : NodeEntry) : Prop where
  pads : ∀ p ∈ e.pads, ∀ q ∈ d.pads, q.id = p.id → P q p
  inside : ∀ id id' inner inner', e.body = .subgraph id inner → d.body = .subgraph id' inner' →
    inner'.Padwise P inner

/-- Unless it is an operator (`IsOperator`), the first pad declares at least what the second one
does. -/
def PadState.Above (q p : PadState) : Prop := ¬ IsOperator p.id → p.declared.Under q.declared

/-- Every pad of the first graph declares at least what it does in the second one, at every depth,
but for operators. -/
abbrev GraphState.Above (t s : GraphState) : Prop := t.Padwise PadState.Above s

/-- Every pad is shown at least what the second view from outside shows it, in the order of
`Constraints.Under`. -/
def External.Above (external' external : External) : Prop :=
  ∀ r, (GraphState.externalView external r).constraints.Under
    (GraphState.externalView external' r).constraints

/-- Pads with links are shown nothing from outside. Only exposed pads have a proxy, and these have
no links. -/
def External.Spares (external : External) (s : GraphState) : Prop :=
  ∀ l ∈ s.links, GraphState.externalView external l.source = {} ∧
    GraphState.externalView external l.sink = {}

namespace GraphState

variable {P Q : PadState → PadState → Prop} {s t u : GraphState} {e d d' : NodeEntry}
  {p q : PadState} {r : PadRef} {i : Nat} {external external' : External}

theorem padwise_iff : t.Padwise P s ↔
    ∀ (i : Nat) (e d : NodeEntry), s.nodes[i]? = some e → t.nodes[i]? = some d →
      d.Padwise P e := by
  constructor
  · rintro ⟨pads, inside⟩ i e d he hd
    exact ⟨pads i e d he hd, fun id id' inner inner' => inside i e d id id' inner inner' he hd⟩
  · intro h
    exact ⟨fun i e d he hd => (h i e d he hd).pads,
      fun i e d id id' inner inner' he hd => (h i e d he hd).inside id id' inner inner'⟩

/-- One more node of a graph was replaced. -/
theorem Padwise.set (h : t.Padwise P s) (he : s.nodes[i]? = some e) (hd : d'.Padwise P e) :
    ({ t with nodes := t.nodes.set i d' } : GraphState).Padwise P s := by
  refine padwise_iff.mpr fun j f c hf hc => ?_
  rw [List.getElem?_set] at hc
  split at hc
  · rename_i hij
    subst hij
    split at hc
    · obtain rfl := Option.some.inj hc
      obtain rfl := Option.some.inj (he.symm.trans hf)
      exact hd
    · cases hc
  · exact padwise_iff.mp h j f c hf hc

/-- Nodes that differ in their effective constraints only (`NodeEntry.bare`) are compared alike. -/
theorem Padwise.of_nodes (hP : ∀ q q' p, q.bare = q'.bare → P q p → P q' p) (h : t.Padwise P s)
    (hnodes : u.nodes.map NodeEntry.bare = t.nodes.map NodeEntry.bare) : u.Padwise P s := by
  refine padwise_iff.mpr fun i e c he hc => ?_
  have hnodes := congrArg (·[i]?) hnodes
  simp only [List.getElem?_map, hc, Option.map_some] at hnodes
  obtain ⟨d, hd, hdc⟩ := Option.map_eq_some_iff.mp hnodes.symm
  obtain ⟨-, -, -, hpads, hbody⟩ := NodeEntry.bare_eq_iff.mp hdc
  have hde := padwise_iff.mp h i e d he hd
  refine ⟨fun p hp q hq hid => ?_, fun id id' inner inner' hb hb' =>
    hde.inside id id' inner inner' hb (hbody.trans hb')⟩
  obtain ⟨q', hq', hqq⟩ : ∃ q' ∈ d.pads, q'.bare = q.bare := by
    have hmem : q.bare ∈ d.pads.map PadState.bare := hpads ▸ List.mem_map_of_mem hq
    exact List.mem_map.mp hmem
  exact hP q' q p hqq (hde.pads p hp q' hq' ((PadState.bare_eq_iff.mp hqq).1.trans hid))

theorem Padwise.mono (h : t.Padwise P s) (hPQ : ∀ q p, P q p → Q q p) : t.Padwise Q s := by
  induction h with
  | intro pads _ ih =>
    exact ⟨fun i e d he hd p hp q hq hid => hPQ q p (pads i e d he hd p hp q hq hid), ih⟩

theorem Above.of_nodes (h : t.Above s)
    (hnodes : u.nodes.map NodeEntry.bare = t.nodes.map NodeEntry.bare) : u.Above s := by
  refine Padwise.of_nodes (fun q q' p hqq hq hop => ?_) h hnodes
  exact (PadState.bare_eq_iff.mp hqq).2.2.2.1 ▸ hq hop

/-! ### Pads at one address -/

/-- Nodes with one id correspond to each other. -/
theorem node?_of_ids (hids : t.nodes.map (·.id) = s.nodes.map (·.id))
    (hnd : (s.nodes.map (·.id)).Nodup) {id : String} (he : s.node? id = some e)
    (hd : t.node? id = some d) : ∃ i : Nat, s.nodes[i]? = some e ∧ t.nodes[i]? = some d := by
  obtain ⟨hmem, rfl⟩ := node?_eq_some he
  obtain ⟨i, hi, rfl⟩ := List.mem_iff_getElem.mp hmem
  obtain ⟨hmem', hid⟩ := node?_eq_some hd
  obtain ⟨j, hj, rfl⟩ := List.mem_iff_getElem.mp hmem'
  have hi' := List.getElem?_eq_getElem hi
  have hj' := List.getElem?_eq_getElem hj
  have heq := indexOf?_of_getElem? (hids ▸ hnd) hj'
  rw [hid, indexOf?_congr hids, indexOf?_of_getElem? hnd hi', Option.some.injEq] at heq
  subst heq
  exact ⟨i, hi', hj'⟩

theorem Padwise.pad? (h : t.Padwise P s) (hids : t.nodes.map (·.id) = s.nodes.map (·.id))
    (hnd : (s.nodes.map (·.id)).Nodup) (hp : s.pad? r = some p) (hq : t.pad? r = some q) :
    P q p := by
  obtain ⟨e, he, hp⟩ := Option.bind_eq_some_iff.mp hp
  obtain ⟨d, hd, hq⟩ := Option.bind_eq_some_iff.mp hq
  obtain ⟨i, he, hd⟩ := node?_of_ids hids hnd he hd
  obtain ⟨hp, hpid⟩ := findPad_eq_some hp
  obtain ⟨hq, hqid⟩ := findPad_eq_some hq
  exact (padwise_iff.mp h i e d he hd).pads p hp q hq (hqid.trans hpid.symm)

theorem exists_node_of_plan (hplan : t.nodes.map NodeEntry.plan = s.nodes.map NodeEntry.plan)
    (hnd : (s.nodes.map (·.id)).Nodup) {id : String} (he : s.node? id = some e) :
    ∃ (i : Nat) (d : NodeEntry), t.node? id = some d ∧ s.nodes[i]? = some e ∧
      t.nodes[i]? = some d ∧ d.plan = e.plan := by
  have hids := ids_of_plan hplan
  obtain ⟨hmem, rfl⟩ := node?_eq_some he
  obtain ⟨i, hi, rfl⟩ := List.mem_iff_getElem.mp hmem
  have hi' := List.getElem?_eq_getElem hi
  obtain ⟨d, hd, hde⟩ := getElem?_of_plan hplan hi'
  refine ⟨i, d, ?_, hi', hd, hde⟩
  rw [← (NodeEntry.plan_eq_iff.mp hde).1]
  exact node?_of_mem (hids ▸ hnd) (List.mem_of_getElem? hd)

/-- What is behind the pads of two graphs (`GraphState.behind`) is related as the innermost pads
are. -/
theorem Padwise.behind (rel : Constraints → Constraints → Prop) (G : String → Prop)
    (hrel : rel none none) (hG : ∀ r : PadRef, G (proxyPadId r) → G r.pad)
    (hP : ∀ q p, P q p → G p.id → rel q.declared p.declared) (h : t.Padwise P s)
    (hplan : t.nodes.map NodeEntry.plan = s.nodes.map NodeEntry.plan)
    (hwf : s.Everywhere WellFormed) (hr : G r.pad) : rel (t.behind r) (s.behind r) := by
  induction h generalizing r with
  | @intro t s pads inside ih =>
    rw [behind_eq, behind_eq]
    cases he : s.node? r.node with
    | none =>
      have hnone : t.node? r.node = none := by
        rw [Option.eq_none_iff_forall_not_mem]
        intro d hd
        obtain ⟨i, e, he', -⟩ := exists_node_of_plan hplan.symm
          (ids_of_plan hplan ▸ hwf.self.distinctNodes) hd
        rw [he] at he'
        cases he'
      rw [hnone]
      exact hrel
    | some e =>
      obtain ⟨i, d, hd, he', hd', hde⟩ := exists_node_of_plan hplan hwf.self.distinctNodes he
      obtain ⟨-, -, -, hpads, hbody⟩ := NodeEntry.plan_eq_iff.mp hde
      rw [hd, Option.bind_some, Option.bind_some]
      cases hb : e.body with
      | plugin type =>
        rw [NodeEntry.behind_of_plugin hb,
          NodeEntry.behind_of_plugin (Body.plugin_of_plan hbody hb)]
        cases hp : findPad r.pad e.pads with
        | none =>
          have hfind := PadState.findPad_plan r.pad d.pads
          rw [hpads, PadState.findPad_plan, hp, Option.map_none] at hfind
          rw [Option.map_eq_none_iff.mp hfind.symm]
          exact hrel
        | some p =>
          obtain ⟨q, hq, -⟩ := PadState.findPad_of_plan hpads hp
          obtain ⟨hpmem, hpid⟩ := findPad_eq_some hp
          obtain ⟨hqmem, hqid⟩ := findPad_eq_some hq
          rw [hq]
          exact hP q p (pads i e d he' hd' p hpmem q hqmem (hqid.trans hpid.symm)) (hpid ▸ hr)
      | subgraph id inner =>
        obtain ⟨inner', hb', hplan'⟩ := Body.subgraph_of_plan hbody hb
        rw [NodeEntry.behind_of_body hb, NodeEntry.behind_of_body hb']
        cases hparse : parseProxyPadId r.pad with
        | none => exact hrel
        | some x =>
          have hid := (parseProxyPadId_eq_some_iff.mp hparse).1
          exact ih i e d id id inner inner' he' hd' hb hb' (nodes_of_plan hplan')
            (hwf.body (List.mem_of_getElem? he') _ _ hb) (hG x (by rw [hid] at hr; exact hr))

theorem Above.behind (h : t.Above s)
    (hplan : t.nodes.map NodeEntry.plan = s.nodes.map NodeEntry.plan)
    (hwf : s.Everywhere WellFormed) (hr : ¬ IsOperator r.pad) :
    (s.behind r).Under (t.behind r) :=
  Padwise.behind (fun b a => a.Under b) (fun id => ¬ IsOperator id) (Constraints.under_none none)
    (fun x hx hop => hx ((isOperator_proxyPadId x).mpr hop)) (fun _ _ hqp hop => hqp hop) h hplan
    hwf hr

/-! ### What pads see -/

theorem Above.declared? (h : t.Above s)
    (hplan : t.nodes.map NodeEntry.plan = s.nodes.map NodeEntry.plan)
    (hnd : (s.nodes.map (·.id)).Nodup) (hr : ¬ IsOperator r.pad) {cs : Constraints}
    (hcs : s.declared? r = some cs) : ∃ cs', t.declared? r = some cs' ∧ cs.Under cs' := by
  obtain ⟨p, hp, rfl⟩ := Option.map_eq_some_iff.mp hcs
  obtain ⟨q, hq, -⟩ := pad?_of_plan hplan hp
  obtain ⟨-, -, -, -, hid⟩ := pad?_eq_some hp
  exact ⟨q.declared, by rw [GraphState.declared?, hq]; rfl,
    h.pad? (ids_of_plan hplan) hnd hp hq (hid ▸ hr)⟩

/-- Where every pad declares more and there are no more links, every pad sees more. -/
theorem Above.peerView (h : t.Above s)
    (hplan : t.nodes.map NodeEntry.plan = s.nodes.map NodeEntry.plan) (hs : s.Clean)
    (ht : t.Clean) (hjoined : s.Joined) (hnd : (s.nodes.map (·.id)).Nodup)
    (hlinks : t.links ⊆ s.links) (hext : external.Clean) (hmore : external'.Above external)
    (hspares : external'.Spares s) (r : PadRef) (p : PadState) :
    (s.peerView external r p).constraints.Under (t.peerView external' r p).constraints := by
  -- what a linked pad declares, there and here
  have hpair : ∀ l ∈ s.links, ∀ q, (q = l.source ∨ q = l.sink) → ∃ cs cs',
      s.declared? q = some cs ∧
      t.declared? q = some cs' ∧ cs.Under cs' ∧ cs.Broad ∧ cs'.Broad := by
    intro l hl q hq
    have hop : ¬ IsOperator q.pad := by
      rcases hq with rfl | rfl
      · exact (hs.unlinked l hl).1
      · exact (hs.unlinked l hl).2
    obtain ⟨c, hc⟩ : ∃ c, s.declared? q = some c := by
      obtain ⟨p, p', hp, hp', -⟩ := hjoined.ends hl
      rcases hq with rfl | rfl
      · exact ⟨_, by rw [GraphState.declared?, hp]; rfl⟩
      · exact ⟨_, by rw [GraphState.declared?, hp']; rfl⟩
    obtain ⟨c', hc', hunder⟩ := h.declared? hplan hnd hop hc
    exact ⟨c, c', hc, hc', hunder, hs.broad_declared? hop hc, ht.broad_declared? hop hc'⟩
  have hbroad := hs.broad_peerView hext r p
  cases hp : p.isSource with
  | true =>
    have hsinks : ∀ cs' ∈ (t.downstream r).filterMap t.declared?,
        cs'.Broad ∧ (s.peerView external r p).constraints.Under cs' := by
      intro cs' hcs'
      obtain ⟨q, hq, hcs'⟩ := List.mem_filterMap.mp hcs'
      have hl := hlinks (mem_downstream.mp hq)
      obtain ⟨c, c', hc, hc', hunder, hcb, hcb'⟩ := hpair _ hl q (.inr rfl)
      obtain rfl : c' = cs' := Option.some.inj (hc'.symm.trans hcs')
      have hmem : c ∈ (s.downstream r).filterMap s.declared? :=
        List.mem_filterMap.mpr ⟨q, mem_downstream.mpr hl, hc⟩
      have hall : ∀ c ∈ (s.downstream r).filterMap s.declared?, c.Broad := by
        intro c hc
        obtain ⟨q, hq, hc⟩ := List.mem_filterMap.mp hc
        exact hs.broad_declared? (hs.unlinked _ (mem_downstream.mp hq)).2 hc
      refine ⟨hcb', ?_⟩
      rw [peerView_source hp] at hbroad ⊢
      cases hlist : (s.downstream r).filterMap s.declared? with
      | nil =>
        rw [hlist] at hmem
        cases hmem
      | cons _ _ =>
        rw [hlist] at hmem hall hbroad
        exact ((Constraints.broad_none.foldl_under hall).2 c hmem).trans hunder hbroad.toSlim
          hcb.toSlim hcb'.toSlim
    rw [peerView_source hp (s := t)]
    cases hlist : (t.downstream r).filterMap t.declared? with
    | cons _ _ =>
      exact (Constraints.under_none _).foldl_intersect hbroad Constraints.broad_none
        (hlist ▸ hsinks)
    | nil =>
      rw [peerView_source hp]
      cases hlist' : (s.downstream r).filterMap s.declared? with
      | nil => exact hmore r
      | cons c rest =>
        obtain ⟨q, hq, -⟩ := List.mem_filterMap.mp (hlist' ▸ List.mem_cons_self)
        have hquiet := (hspares _ (mem_downstream.mp hq)).1
        show Constraints.Under _ (externalView external' r).constraints
        rw [hquiet]
        exact Constraints.under_none _
  | false =>
    rw [peerView_sink hp, peerView_sink hp]
    cases hf : t.feeder r with
    | some q =>
      have hl := hlinks (feeder_eq_some hf)
      obtain ⟨c, c', hc, hc', hunder, -⟩ := hpair _ hl q (.inl rfl)
      rw [hjoined.feeder_sink hl, Option.bind_some, Option.bind_some, hc, hc']
      exact hunder
    | none =>
      rw [Option.bind_none]
      cases hf' : s.feeder r with
      | none => exact hmore r
      | some q =>
        have hl := feeder_eq_some hf'
        have hquiet := (hspares _ hl).2
        show Constraints.Under _ (externalView external' r).constraints
        rw [hquiet]
        exact Constraints.under_none _

end GraphState

end Patchbay

/-!
## Outcomes compared

What resolution makes of a node depends on what its pads see. If the pads that a pad depends on see
the same, it declares the same (`Outcome.declared_congr`), and if they see more, it declares more
(`Outcome.declared_under`). Where all pads of a node see more, and more is inside, all of them
declare more (`Outcome.above`).
-/

namespace Patchbay.GraphState

variable {T : String → NodeType → Prop} {config : EngineConfig} {n m : Nat}
  {external external' external₁ external₂ : External} {s t g₁ g₂ : GraphState}
  {e d d₁ d₂ : NodeEntry} {p q : PadState} {r : PadRef} {id : Option String} {inner : GraphState}
  {type : NodeType}

/-- What a pad of a node sees, by the id of the pad: what its links offer, or else what is seen
from outside. -/
def seen (s : GraphState) (external : External) (e : NodeEntry) (pad : String) : Constraints :=
  (findPad pad e.pads).bind fun p => (s.peerView external ⟨e.id, p.id⟩ p).constraints

theorem peerConstraints_peerViews (node : String) (pads : List PadState) (pad : String) :
    (⟨node, pads, s.peerViews external e⟩ : NodeView).peerConstraints pad =
      s.seen external e pad := by
  rw [NodeView.peerConstraints, NodeView.peer, peerViews,
    lookupKey_map pad e.pads fun q => s.peerView external ⟨e.id, q.id⟩ q, seen]
  cases findPad pad e.pads <;> rfl

theorem seen_of_mem (hnd : (e.pads.map (·.id)).Nodup) (hp : p ∈ e.pads) :
    s.seen external e p.id = (s.peerView external ⟨e.id, p.id⟩ p).constraints := by
  rw [seen, findPad_of_mem hnd hp, Option.bind_some]

theorem Clean.broad_seen (hs : s.Clean) (hext : external.Clean) (e : NodeEntry) (pad : String) :
    (s.seen external e pad).Broad := by
  rw [seen]
  cases findPad pad e.pads with
  | none => exact Constraints.broad_none
  | some p => exact hs.broad_peerView hext _ _

/-! ### Pads of plugins -/

/-- A pad of an outcome of a plugin is declared by its type. -/
theorem Outcome.exists_spec (h : Outcome T config n e (t.peerViews external e) d)
    (hb : e.body = .plugin type) : ∃ pads specs,
      pads.map PadState.plan = e.pads.map PadState.plan ∧
        type.resolve ⟨e.id, pads, t.peerViews external e⟩ = .ok specs ∧
        (∀ p ∈ d.pads, ∃ spec ∈ specs, spec.id = p.id ∧ spec.constraints = p.declared) := by
  obtain ⟨pads, specs, hpads, hspecs, hbare⟩ := h.plugin type hb
  refine ⟨pads, specs, hpads, hspecs, fun p hp => ?_⟩
  have hmem : p.bare ∈ (specs.map (mergedPad pads)).map PadState.bare :=
    hbare ▸ List.mem_map_of_mem hp
  rw [List.map_map] at hmem
  obtain ⟨spec, hspec, hmerged⟩ := List.mem_map.mp hmem
  obtain ⟨value, hdecl, -⟩ := mergedPad_eq pads spec
  rw [Function.comp_apply, hdecl] at hmerged
  obtain ⟨hid, -, -, hcs, -⟩ := PadState.bare_eq_iff.mp hmerged
  exact ⟨spec, hspec, hid, hcs⟩

section

variable (hT : ∀ name type, T name type → type.IsBuiltin) (hs : AtRest T config n external s)
  (he : e ∈ s.nodes)

include hT hs he

theorem AtRest.proxy_eq_none (hb : e.body = .plugin type) {pads : List PadState}
    (hpads : pads.map PadState.plan = e.pads.map PadState.plan) : ∀ p ∈ pads, p.proxy = none := by
  intro p hp
  obtain ⟨specs, hspecs, -, hbare⟩ := hs.settledAt hT he
  obtain ⟨hspecs, -⟩ := (resolveBody_of_plugin hb).mp hspecs
  obtain ⟨q, hq, hqp⟩ : ∃ q ∈ e.pads, q.outline = p.outline := by
    have hmem : p.outline ∈ e.pads.map PadState.outline :=
      PadState.map_outline_of_plan hpads ▸ List.mem_map_of_mem hp
    exact List.mem_map.mp hmem
  obtain ⟨spec, hspec, hmerged⟩ : ∃ spec ∈ specs, (mergedPad e.pads spec).bare = q.bare := by
    have hmem : q.bare ∈ (specs.map (mergedPad e.pads)).map PadState.bare :=
      hbare ▸ List.mem_map_of_mem hq
    rw [List.map_map] at hmem
    exact List.mem_map.mp hmem
  obtain ⟨value, hdecl, -⟩ := mergedPad_eq e.pads spec
  rw [hdecl] at hmerged
  have hnone := ((hs.nested.builtin hT he hb).tame.consistent _ _ hspecs spec hspec).1
  exact (PadState.outline_eq_iff.mp hqp).2.2.symm.trans
    ((PadState.bare_eq_iff.mp hmerged).2.2.2.2.2.symm.trans hnone)

variable (h₁ : Outcome T config n e (g₁.peerViews external₁ e) d₁)
  (h₂ : Outcome T config n e (g₂.peerViews external₂ e) d₂) (hb : e.body = .plugin type)

include h₁ h₂ hb

/-- Where the pads that it depends on see the same, a pad of a plugin declares the same. -/
theorem Outcome.declared_congr (hp : p ∈ d₁.pads) (hq : q ∈ d₂.pads) (hid : q.id = p.id)
    (hsee : ∀ z, type.Moves z p.id → g₁.seen external₁ e z = g₂.seen external₂ e z) :
    q.declared = p.declared := by
  obtain ⟨pads₁, specs₁, hpads₁, hspecs₁, hdecl₁⟩ := h₁.exists_spec hb
  obtain ⟨pads₂, specs₂, hpads₂, hspecs₂, hdecl₂⟩ := h₂.exists_spec hb
  have hbuiltin := hs.nested.builtin hT he hb
  obtain ⟨spec₁, hspec₁, hid₁, hcs₁⟩ := hdecl₁ p hp
  obtain ⟨spec₂, hspec₂, hid₂, hcs₂⟩ := hdecl₂ q hq
  have hprop := sameProperties_of_plan (v := ⟨e.id, pads₁, g₁.peerViews external₁ e⟩)
    (w := ⟨e.id, pads₂, g₂.peerViews external₂ e⟩) hbuiltin hspecs₁
    (hpads₂.trans hpads₁.symm) (hs.proxy_eq_none hT he hb hpads₁)
  have hmem := hbuiltin.spec_of_moves hspecs₁ hspecs₂ hprop hspec₁ fun z hz => by
    rw [peerConstraints_peerViews, peerConstraints_peerViews]
    exact hsee z (hid₁ ▸ hz)
  obtain rfl := List.inj_on_of_nodup_map (hbuiltin.steady.distinct _ _ hspecs₂) hmem hspec₂
    (hid₁.trans (hid.symm.trans hid₂.symm))
  exact hcs₂.symm.trans hcs₁

/-- Where the pads that it depends on see more, a pad of a plugin declares more, whatever the state
was in which the node was resolved. -/
theorem Outcome.declared_under (hg₁ : g₁.Clean) (hext₁ : external₁.Clean) (hg₂ : g₂.Clean)
    (hext₂ : external₂.Clean) (hp : p ∈ d₁.pads) (hq : q ∈ d₂.pads) (hid : q.id = p.id)
    (hop : ¬ IsOperator p.id)
    (hsee : ∀ z, type.Moves z p.id →
      (g₁.seen external₁ e z).Under (g₂.seen external₂ e z)) :
    p.declared.Under q.declared := by
  obtain ⟨pads₁, specs₁, hpads₁, hspecs₁, hdecl₁⟩ := h₁.exists_spec hb
  obtain ⟨pads₂, specs₂, hpads₂, hspecs₂, hdecl₂⟩ := h₂.exists_spec hb
  have hbuiltin := hs.nested.builtin hT he hb
  obtain ⟨spec₁, hspec₁, hid₁, hcs₁⟩ := hdecl₁ p hp
  obtain ⟨spec₂, hspec₂, hid₂, hcs₂⟩ := hdecl₂ q hq
  have hprop := sameProperties_of_plan (v := ⟨e.id, pads₁, g₁.peerViews external₁ e⟩)
    (w := ⟨e.id, pads₂, g₂.peerViews external₂ e⟩) hbuiltin hspecs₁
    (hpads₂.trans hpads₁.symm) (hs.proxy_eq_none hT he hb hpads₁)
  obtain ⟨spec, hspec, hspecid, hunder⟩ := hbuiltin.spec_under hspecs₁ hspecs₂ hprop
    (fun z => by rw [peerConstraints_peerViews]; exact hg₁.broad_seen hext₁ e z)
    (fun z => by rw [peerConstraints_peerViews]; exact hg₂.broad_seen hext₂ e z) hspec₁
    (hid₁ ▸ hop) fun z hz => by
      rw [peerConstraints_peerViews, peerConstraints_peerViews]
      exact hsee z (hid₁ ▸ hz)
  obtain rfl := List.inj_on_of_nodup_map (hbuiltin.steady.distinct _ _ hspecs₂) hspec hspec₂
    (hspecid.trans (hid₁.trans (hid.symm.trans hid₂.symm)))
  rw [← hcs₁, ← hcs₂]
  exact hunder

end

/-! ### Pads of subgraphs -/

theorem findPad_of_outcome (h : Outcome T config n e (t.peerViews external e) d)
    (hnd : (e.pads.map (·.id)).Nodup) (hp : p ∈ d.pads) :
    ∃ q ∈ e.pads, findPad p.id e.pads = some q ∧ q.outline = p.outline := by
  have hmem : p.outline ∈ e.pads.map PadState.outline :=
    PadState.map_outline_of_plan (NodeEntry.plan_eq_iff.mp h.plan).2.2.2.1 ▸ List.mem_map_of_mem hp
  obtain ⟨q, hq, hqp⟩ := List.mem_map.mp hmem
  exact ⟨q, hq, (PadState.outline_eq_iff.mp hqp).1 ▸ findPad_of_mem hnd hq, hqp⟩

section

variable (hT : ∀ name type, T name type → type.IsBuiltin) (hs : AtRest T config n external s)
  (he : e ∈ s.nodes)

include hT hs he

/-- A pad of a subgraph declares what is behind it, narrowed by what it sees
(`Constraints.narrowedBy`). -/
theorem Outcome.declared_of_subgraph (h : Outcome T config n e (t.peerViews external' e) d)
    (hb : d.body = .subgraph id inner) (hp : p ∈ d.pads) :
    p.declared = (d.behind p.id).narrowedBy (t.seen external' e p.id) := by
  obtain ⟨q, -, hq, hqp⟩ := findPad_of_outcome h (hs.wellFormed.self.distinctPads e he) hp
  obtain ⟨hqid, hqtype, -⟩ := PadState.outline_eq_iff.mp hqp
  rw [h.declared_eq hT hs he hb hp, seen, hq, Option.bind_some, hqid,
    peerView_congr rfl rfl (congrArg PadType.isSource hqtype)]

theorem Outcome.broad_behind (h : Outcome T config n e (t.peerViews external' e) d)
    (ht : t.Clean) (hext : external'.Clean) {pad : String} (hop : ¬ IsOperator pad) :
    (d.behind pad).Broad := by
  cases hb : d.body with
  | subgraph id inner =>
    obtain ⟨⟨m, -, hg⟩, -⟩ := h.inside id inner hb
    rw [NodeEntry.behind_of_body hb]
    cases hr : parseProxyPadId pad with
    | none => exact Constraints.broad_none
    | some r =>
      obtain ⟨rfl, -⟩ := parseProxyPadId_eq_some_iff.mp hr
      exact GraphState.broad_behind inner hg.clean fun hr' =>
        hop ((isOperator_proxyPadId r).mpr hr')
  | plugin type =>
    have hbody := (NodeEntry.plan_eq_iff.mp h.plan).2.2.2.2
    have hb' := Body.plugin_of_plan hbody.symm hb
    rw [NodeEntry.behind_of_plugin hb]
    cases hp : findPad pad d.pads with
    | none => exact Constraints.broad_none
    | some p =>
      obtain ⟨hmem, hpid⟩ := findPad_eq_some hp
      obtain ⟨pads, specs, -, hspecs, hdecl⟩ := h.exists_spec hb'
      obtain ⟨spec, hspec, hid, hcs⟩ := hdecl p hmem
      rw [Option.bind_some, ← hcs]
      exact (hs.nested.builtin hT he hb').broad hspecs
        (fun z => by rw [peerConstraints_peerViews]; exact ht.broad_seen hext e z) hspec
        (hid.trans hpid ▸ hop)

/-- Where all pads of a node see more, and more is inside, all of them declare more. -/
theorem Outcome.above (h₁ : Outcome T config n e (g₁.peerViews external₁ e) d₁)
    (h₂ : Outcome T config n e (g₂.peerViews external₂ e) d₂) (hg₁ : g₁.Clean)
    (hext₁ : external₁.Clean) (hg₂ : g₂.Clean) (hext₂ : external₂.Clean)
    (hsee : ∀ z, (g₁.seen external₁ e z).Under (g₂.seen external₂ e z))
    (hsup : ∀ pad, ¬ IsOperator pad →
      (d₁.behind pad).intersect (g₁.seen external₁ e pad) = some [] → d₁.behind pad = some [])
    (hinside : ∀ id₁ id₂ inner₁ inner₂, d₁.body = .subgraph id₁ inner₁ →
      d₂.body = .subgraph id₂ inner₂ → inner₂.Above inner₁) : d₂.Padwise PadState.Above d₁ := by
  refine ⟨fun p hp q hq hid hop => ?_, hinside⟩
  have hbody₁ := (NodeEntry.plan_eq_iff.mp h₁.plan).2.2.2.2
  have hbody₂ := (NodeEntry.plan_eq_iff.mp h₂.plan).2.2.2.2
  cases hb : e.body with
  | plugin type =>
    exact h₁.declared_under hT hs he h₂ hb hg₁ hext₁ hg₂ hext₂ hp hq hid hop fun z _ => hsee z
  | subgraph id inner =>
    obtain ⟨inner₁, hb₁, hplan₁⟩ := Body.subgraph_of_plan hbody₁ hb
    obtain ⟨inner₂, hb₂, hplan₂⟩ := Body.subgraph_of_plan hbody₂ hb
    obtain ⟨⟨m, -, hrest⟩, -⟩ := h₁.inside id inner₁ hb₁
    have hbehind : (d₁.behind p.id).Under (d₂.behind p.id) := by
      rw [NodeEntry.behind_of_body hb₁, NodeEntry.behind_of_body hb₂]
      cases hr : parseProxyPadId p.id with
      | none => exact Constraints.under_none none
      | some r =>
        have hrid := (parseProxyPadId_eq_some_iff.mp hr).1
        exact (hinside id id inner₁ inner₂ hb₁ hb₂).behind
          (nodes_of_plan (hplan₂.trans hplan₁.symm)) hrest.wellFormed fun hop' =>
            hop (by rw [hrid]; exact (isOperator_proxyPadId r).mpr hop')
    have hbroad₁ := h₁.broad_behind hT hs he hg₁ hext₁ hop
    have hbroad₂ := h₂.broad_behind hT hs he hg₂ hext₂ hop
    have hseen₁ := hg₁.broad_seen hext₁ e p.id
    have hseen₂ := hg₂.broad_seen hext₂ e p.id
    rw [h₁.declared_of_subgraph hT hs he hb₁ hp, h₂.declared_of_subgraph hT hs he hb₂ hq, hid]
    by_cases hnil : (d₁.behind p.id).intersect (g₁.seen external₁ e p.id) = some []
    · -- nothing is behind the pad at all
      have hnothing := hsup p.id hop hnil
      rw [Constraints.narrowedBy, hnil, hnothing]
      simp only [Constraints.isIncompatible_iff, if_true]
      exact Constraints.nil_under _
    · exact hbroad₁.narrowedBy_under_narrowedBy hbroad₂ hseen₁ hseen₂ hbehind (hsee p.id) hnil

end

end Patchbay.GraphState
