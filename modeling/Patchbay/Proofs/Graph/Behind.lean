import Patchbay.Proofs.Graph.LastPass
import Patchbay.Proofs.Graph.Prefixes
import Patchbay.Proofs.Graph.Resting

/-!
# What is behind a pad

A pad of a subgraph stands for a pad inside, which may stand for another one in turn. What the
innermost of them declares is *behind* the pad (`GraphState.behind`). In a graph at rest a pad
declares what is behind it, narrowed by what it sees (`AtRest.declared_eq`); so whatever graphs
are passed through on the way, one narrowing is all that is left of them.
-/

namespace Patchbay

mutual

/-- What the innermost pad declares that a pad stands for. For a pad of a plugin this is its own
declaration. -/
def GraphState.behind : GraphState → PadRef → Constraints
  | ⟨nodes, _⟩, r => behindIn nodes r

/-- What is behind a pad of one of the nodes. -/
def behindIn : List NodeEntry → PadRef → Constraints
  | [], _ => none
  | e :: rest, r => if e.id = r.node then e.behind r.pad else behindIn rest r

/-- What is behind a pad of a node. -/
def NodeEntry.behind : NodeEntry → String → Constraints
  | ⟨_, _, _, pads, _, body⟩, pad => body.behind pads pad

/-- What is behind a pad of a node with the given pads. -/
def Body.behind : Body → List PadState → String → Constraints
  | .plugin _, pads, pad => (findPad pad pads).bind (·.declared)
  | .subgraph _ inner, _, pad =>
    match parseProxyPadId pad with
    | some r => inner.behind r
    | none => none

end

theorem NodeEntry.behind_of_plugin {e : NodeEntry} {type : NodeType} (hb : e.body = .plugin type)
    (pad : String) : e.behind pad = (findPad pad e.pads).bind (·.declared) := by
  cases e
  obtain rfl := hb
  rfl

theorem NodeEntry.behind_of_body {e : NodeEntry} {id : Option String} {inner : GraphState}
    (hb : e.body = .subgraph id inner) (pad : String) :
    e.behind pad = (parseProxyPadId pad).bind inner.behind := by
  cases e
  obtain rfl := hb
  rw [NodeEntry.behind, Body.behind]
  cases parseProxyPadId pad <;> rfl

theorem NodeEntry.behind_of_subgraph {e : NodeEntry} {id : Option String} {inner : GraphState}
    (hb : e.body = .subgraph id inner) {r : PadRef} (hr : ':' ∉ r.node.toList) :
    e.behind (proxyPadId r) = inner.behind r := by
  have hparse : parseProxyPadId (proxyPadId r) = some r :=
    parseProxyPadId_eq_some_iff.mpr ⟨rfl, hr⟩
  rw [behind_of_body hb, hparse, Option.bind_some]

namespace GraphState

variable {T : String → NodeType → Prop} {config : EngineConfig} {n m : Nat} {R : InnerResolver}
  {external external' : External} {s s' t t' : GraphState} {e d d' : NodeEntry} {p : PadState}
  {r : PadRef} {cs : Constraints} {id : Option String} {inner inner' : GraphState}
  {changed : Bool} {i : Nat}

theorem behind_eq (s : GraphState) (r : PadRef) :
    s.behind r = (s.node? r.node).bind fun e => e.behind r.pad := by
  obtain ⟨nodes, links⟩ := s
  rw [behind, node?]
  show behindIn nodes r = _
  induction nodes with
  | nil => rfl
  | cons e rest ih =>
    rw [behindIn]
    by_cases h : e.id = r.node
    · rw [if_pos h, List.find?_cons_of_pos (by simpa using h)]
      rfl
    · rw [if_neg h, List.find?_cons_of_neg (by simpa using h), ih]

theorem behind_of_mem (hnd : (s.nodes.map (·.id)).Nodup) (he : e ∈ s.nodes) (pad : String) :
    s.behind ⟨e.id, pad⟩ = e.behind pad := by
  rw [behind_eq, node?_of_mem hnd he]
  rfl

theorem broad_behind (s : GraphState) (hs : s.Everywhere Clean) {r : PadRef}
    (hr : ¬ IsOperator r.pad) : (s.behind r).Broad := by
  induction s using insideInduction generalizing r with
  | step s ih =>
    rw [behind_eq]
    cases he : s.node? r.node with
    | none => exact Constraints.broad_none
    | some e =>
      obtain ⟨he, -⟩ := node?_eq_some he
      rw [Option.bind_some]
      cases hb : e.body with
      | plugin type =>
        rw [NodeEntry.behind_of_plugin hb]
        cases hp : findPad r.pad e.pads with
        | none => exact Constraints.broad_none
        | some p =>
          obtain ⟨hp, hid⟩ := findPad_eq_some hp
          exact hs.self.broad e he p hp (hid ▸ hr)
      | subgraph id inner =>
        rw [NodeEntry.behind_of_body hb]
        cases hq : parseProxyPadId r.pad with
        | none => exact Constraints.broad_none
        | some q =>
          obtain ⟨hid, -⟩ := parseProxyPadId_eq_some_iff.mp hq
          exact ih e he _ _ hb (hs.body he _ _ hb) fun hop =>
            hr (by rw [hid]; exact (isOperator_proxyPadId q).mpr hop)

theorem behind_of_bare (h : t.bare = s.bare) (r : PadRef) : t.behind r = s.behind r := by
  have hnode : (t.node? r.node).map NodeEntry.bare = (s.node? r.node).map NodeEntry.bare := by
    rw [← node?_bare, h, node?_bare]
  rw [behind_eq, behind_eq]
  cases hs : s.node? r.node with
  | none =>
    rw [hs, Option.map_none, Option.map_eq_none_iff] at hnode
    rw [hnode]
  | some e =>
    rw [hs, Option.map_some] at hnode
    obtain ⟨d, hd, hde⟩ := Option.map_eq_some_iff.mp hnode
    obtain ⟨-, -, -, hpads, hbody⟩ := NodeEntry.bare_eq_iff.mp hde
    rw [hd, Option.bind_some, Option.bind_some]
    cases hb : e.body with
    | plugin type =>
      have hfind := congrArg (Option.map PadState.declared)
        ((findPad_bare r.pad d.pads).symm.trans ((congrArg _ hpads).trans (findPad_bare _ e.pads)))
      rw [Option.map_map, Option.map_map] at hfind
      rw [NodeEntry.behind_of_plugin hb, NodeEntry.behind_of_plugin (hbody.trans hb)]
      revert hfind
      cases findPad r.pad d.pads <;> cases findPad r.pad e.pads <;> intro hfind
      · rfl
      · cases hfind
      · cases hfind
      · exact Option.some.inj hfind
    | subgraph id inner =>
      rw [NodeEntry.behind_of_body hb, NodeEntry.behind_of_body (hbody.trans hb)]

/-! ### Outcomes -/

/-- What resolution makes of a node with the plan of the node `e` that sees `peers`. Later
arguments compare outcomes, and need not know in which state they came about. -/
structure Outcome (T : String → NodeType → Prop) (config : EngineConfig) (n : Nat) (e : NodeEntry)
    (peers : List (String × PeerView)) (d : NodeEntry) : Prop where
  plan : d.plan = e.plan
  plugin : ∀ type, e.body = .plugin type → ∃ pads specs,
    pads.map PadState.plan = e.pads.map PadState.plan ∧
      type.resolve ⟨e.id, pads, peers⟩ = .ok specs ∧
      d.pads.map PadState.bare = (specs.map (mergedPad pads)).map PadState.bare
  inside : ∀ id inner, d.body = .subgraph id inner →
    (∃ m, n = m + 1 ∧ AtRest T config m (externalOf e.pads peers) inner) ∧
      d.pads.map PadState.bare = (inner.exposedPads.map PadState.ofSpec).map PadState.bare

/-- Nodes with one plan show the same inside. -/
theorem externalOf_of_plan (u : GraphState) (external : External) (hde : d.plan = e.plan) :
    externalOf d.pads (u.peerViews external d) = externalOf e.pads (u.peerViews external e) := by
  obtain ⟨hid, -, -, hpads, -⟩ := NodeEntry.plan_eq_iff.mp hde
  have houtline := PadState.map_outline_of_plan hpads
  rw [externalOf_congr _ houtline, peerViews_congr rfl rfl hid houtline]

theorem outcome_of_resolveNode (hde : d.plan = e.plan) (hplan : d'.plan = e.plan)
    (hrest : d'.body.Inside fun g => ∃ m, n = m + 1 ∧
      AtRest T config m (externalOf d.pads (t.peerViews external d)) g)
    (h : resolveNode R external t d = .ok (d', changed)) :
    Outcome T config n e (t.peerViews external e) d' := by
  obtain ⟨hid, -, -, hpads, hbody⟩ := NodeEntry.plan_eq_iff.mp hde
  obtain ⟨specs, body, hresolve, -, rfl, -⟩ := resolveNode_eq_ok h
  refine ⟨hplan, fun type hb => ?_, fun id inner hb => ?_⟩
  · obtain ⟨hspecs, -⟩ := (resolveBody_of_plugin (Body.plugin_of_plan hbody hb)).mp hresolve
    rw [view, hid, peerViews_congr rfl rfl hid (PadState.map_outline_of_plan hpads)] at hspecs
    exact ⟨d.pads, specs, hpads, hspecs, rfl⟩
  · refine ⟨externalOf_of_plan t external hde ▸ hrest id inner hb, ?_⟩
    obtain rfl : body = .subgraph id inner := hb
    obtain ⟨inner₁, -, -, rfl⟩ := exists_of_resolveBody hresolve
    exact congrArg _ (map_mergedPad_exposedPads inner d.pads)

/-- The pads of an outcome show what is behind them, narrowed by what the pad behind sees, which
comes from outside. -/
theorem AtRest.declared_of_exposed (hs : AtRest T config n external s)
    (heff : ∀ r p, s.pad? r = some p → s.isLinked r p = false →
      p.effective = (s.behind r).narrowedBy (externalView external r).constraints)
    {pads : List PadState}
    (hpads : pads.map PadState.bare = (s.exposedPads.map PadState.ofSpec).map PadState.bare)
    (hp : p ∈ pads) : ∃ r, p.id = proxyPadId r ∧ p.proxy = some r ∧ ':' ∉ r.node.toList ∧
      p.declared = (s.behind r).narrowedBy (externalView external r).constraints := by
  have hwf := hs.wellFormed.self
  have hmem : p.bare ∈ (s.exposedPads.map PadState.ofSpec).map PadState.bare :=
    hpads ▸ List.mem_map_of_mem hp
  obtain ⟨q, hq, hqp⟩ := List.mem_map.mp hmem
  obtain ⟨spec, hspec, rfl⟩ := List.mem_map.mp hq
  obtain ⟨f, hf, c, hc, hlinked, rfl⟩ := mem_exposedPads.mp hspec
  obtain ⟨hid, -, -, hdecl, -, hproxy⟩ := PadState.bare_eq_iff.mp hqp
  have hpad : s.pad? ⟨f.id, c.id⟩ = some c := by
    rw [pad?_of_mem hwf.distinctNodes hf, findPad_of_mem (hwf.distinctPads f hf) hc]
  exact ⟨⟨f.id, c.id⟩, hid.symm, hproxy.symm, (hwf.validIds f hf).2.1,
    hdecl.symm.trans (heff _ _ hpad hlinked)⟩

section

variable (hT : ∀ name type, T name type → type.IsBuiltin)

include hT

namespace AtRest

variable (hs : AtRest T config n external s)

include hs

/-- A node at rest is the outcome of itself, and of every node with its plan (`outcome_of_plan`).
-/
theorem outcome (he : e ∈ s.nodes) : Outcome T config n e (s.peerViews external e) e := by
  have hset := hs.settledAt hT he
  refine ⟨rfl, fun type hb => ?_, fun id inner hb => ?_⟩
  · obtain ⟨specs, hspecs, -, hbare⟩ := hset
    exact ⟨e.pads, specs, rfl, ((resolveBody_of_plugin hb).mp hspecs).1, hbare.symm⟩
  · exact ⟨hs.inside hT he hb, (hset.resolved hb).2.symm⟩

/-- A node at rest is an outcome of every node with its plan. -/
theorem outcome_of_plan (hd : d ∈ s.nodes) (hde : d.plan = e.plan) :
    Outcome T config n e (s.peerViews external e) d := by
  obtain ⟨hid, -, -, hpads, hbody⟩ := NodeEntry.plan_eq_iff.mp hde
  have hpeers : s.peerViews external d = s.peerViews external e :=
    peerViews_congr rfl rfl hid (PadState.map_outline_of_plan hpads)
  have h := hs.outcome hT hd
  refine ⟨hde, fun type hb => ?_, fun id inner hb => ?_⟩
  · obtain ⟨pads, specs, hplan, hspecs, hbare⟩ := h.plugin type (Body.plugin_of_plan hbody hb)
    rw [hid, hpeers] at hspecs
    exact ⟨pads, specs, hplan.trans hpads, hspecs, hbare⟩
  · rw [← externalOf_of_plan s external hde]
    exact h.inside id inner hb

end AtRest

/-- A pad of a subgraph declares what is behind it, narrowed by what it sees. -/
theorem Outcome.declared_of_inside (hs : AtRest T config n external s) (he : e ∈ s.nodes)
    (heff : ∀ m ext g r p, n = m + 1 → AtRest T config m ext g → g.pad? r = some p →
      g.isLinked r p = false →
      p.effective = (g.behind r).narrowedBy (externalView ext r).constraints)
    (h : Outcome T config n e (t.peerViews external' e) d) (hb : d.body = .subgraph id inner)
    (hp : p ∈ d.pads) :
    p.declared = (d.behind p.id).narrowedBy (t.peerView external' ⟨e.id, p.id⟩ p).constraints := by
  obtain ⟨⟨m, hm, hg⟩, hbare⟩ := h.inside id inner hb
  obtain ⟨r, hid, hproxy, hr, hdecl⟩ := hg.declared_of_exposed
    (fun r q => heff m _ inner r q hm hg) hbare hp
  obtain ⟨-, -, -, hpads, hbody⟩ := NodeEntry.plan_eq_iff.mp h.plan
  obtain ⟨q, hq, hqp⟩ : ∃ q ∈ e.pads, q.outline = p.outline := by
    have hmem : p.outline ∈ e.pads.map PadState.outline :=
      PadState.map_outline_of_plan hpads ▸ List.mem_map_of_mem hp
    exact List.mem_map.mp hmem
  obtain ⟨hqid, hqtype, hqproxy⟩ := PadState.outline_eq_iff.mp hqp
  obtain ⟨inner₀, hb₀, -⟩ := Body.subgraph_of_plan hbody.symm hb
  have hview := externalView_of_settled (hs.wellFormed.self.distinctPads e he) (hs.settledAt hT he)
    hb₀ (hs.wellFormed.body he _ _ hb₀).self t external' hq (hqproxy.trans hproxy)
  rw [hdecl, hview, hqid, hid, NodeEntry.behind_of_subgraph hb hr,
    peerView_congr rfl rfl (congrArg PadType.isSource hqtype)]

/-- A pad that is exposed has what is behind it, narrowed by what is seen from outside
(`externalView`). The induction is on the depth. -/
theorem AtRest.effective_eq (hs : AtRest T config n external s) (hp : s.pad? r = some p)
    (hlinked : s.isLinked r p = false) :
    p.effective = (s.behind r).narrowedBy (externalView external r).constraints := by
  induction n using Nat.strong_induction_on generalizing external s r p
  rename_i n ih
  have hwf := hs.wellFormed.self
  have hunlinked := hwf.unlinked hp hlinked
  obtain ⟨e, he, hid, hmem, hpid⟩ := pad?_eq_some hp
  obtain rfl : (⟨e.id, p.id⟩ : PadRef) = r := by rw [hid, hpid]
  rw [effective_of_narrowed hwf (hs.reconciled hT).narrowed hp hlinked,
    behind_of_mem hwf.distinctNodes he]
  cases hb : e.body with
  | plugin type =>
    rw [NodeEntry.behind_of_plugin hb, findPad_of_mem (hwf.distinctPads e he) hmem,
      Option.bind_some]
  | subgraph id inner =>
    have hdecl := (hs.outcome hT he).declared_of_inside hT hs he
      (fun m ext g r p hm hg hp hl => ih m (hm ▸ m.lt_succ_self) hg hp hl) hb hmem
    rw [peerView_unlinked hunlinked] at hdecl
    rw [hdecl]
    by_cases hop : IsOperator p.id
    · rw [externalView_of_isOperator hs.seen hop, Constraints.narrowedBy_none,
        Constraints.narrowedBy_none]
    · have hbroad := broad_behind s hs.clean (r := ⟨e.id, p.id⟩) hop
      rw [behind_of_mem hwf.distinctNodes he] at hbroad
      exact hbroad.narrowedBy_narrowedBy (broad_externalView hs.seen _)

/-- A pad of a subgraph declares what is behind it, narrowed by what it sees. -/
theorem Outcome.declared_eq (h : Outcome T config n e (t.peerViews external' e) d)
    (hs : AtRest T config n external s) (he : e ∈ s.nodes) (hb : d.body = .subgraph id inner)
    (hp : p ∈ d.pads) :
    p.declared = (d.behind p.id).narrowedBy (t.peerView external' ⟨e.id, p.id⟩ p).constraints :=
  declared_of_inside hT hs he (fun _ _ _ _ _ _ hg hp hl => hg.effective_eq hT hp hl) h hb hp

end

end GraphState

end Patchbay
