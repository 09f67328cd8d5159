import Patchbay.Proofs.Graph.Sights
import Patchbay.Proofs.Graph.Cut

/-!
# How far the type of a link is carried

A type that is fed to a sink goes on through relays, from sink to sink, as long as it meets the
input of a relay (`Carries`). A link to a free sink changes what is seen at these sinks, and
nowhere else, provided that no subgraph takes part (`Clear`). In the graph before there was nothing
to be seen at any of them (`Linkable.sight_of_carries`).
-/

/-!
## Passes under given sights

Passes over a graph of built-in nodes can be told by what feeds each of its pads. At its turn in a
pass a node takes notice of what feeds it now (`GraphState.advance`), and stands as it declares its
pads under that (`Follows.pass`).
-/

namespace Patchbay.GraphState

variable {R : InnerResolver} {s u : GraphState}

/-- The graph as its nodes declare their pads if they are fed with given constraints
(`NodeEntry.under`). Subgraphs stay as they are. -/
def under (s : GraphState) (seen : Sights) : GraphState :=
  { s with nodes := s.nodes.map fun e => e.under fun id => seen ⟨e.id, id⟩ }

theorem ids_under (s : GraphState) (seen : Sights) :
    (s.under seen).nodes.map (·.id) = s.nodes.map (·.id) := by
  rw [under, List.map_map]
  exact List.map_congr_left fun e _ => NodeEntry.under_id e _

/-- A node at a place of a graph takes notice of what it is fed with: its sinks are seen as `under`
has them now. -/
def advance (s : GraphState) (seen : Sights) (i : Nat) : Sights := fun q =>
  if s.indexOf? q.node = some i then (s.under seen).sight q else seen q

/-- Under all sights of a class, which they do not leave, nodes of built-in types go from one state
to the next as if they had been in no other, and graphs inside are not affected. -/
structure Follows (R : InnerResolver) (s : GraphState) (I : Sights → Prop) : Prop where
  distinct : (s.nodes.map (·.id)).Nodup
  sound : ∀ l ∈ s.links, s.isSound l = true
  step : ∀ seen i, I seen → I (s.advance seen i)
  slim : ∀ seen, I seen → ∀ q, (seen q).Slim ∧ ((s.under seen).sight q).Slim
  node : ∀ e ∈ s.nodes, ∀ seen, I seen →
    e.isSubgraph = true ∧ SettledAt R [] (s.under seen) e ∨
    ∃ t see₀, e.Stands t see₀ ∧ ∀ spec ∈ e.declaresUnder fun id => (s.under seen).sight ⟨e.id, id⟩,
      mergedPad (e.under fun id => seen ⟨e.id, id⟩).pads spec = mergedPad e.pads spec

theorem getElem?_advance {seen : Sights} {i j : Nat} (hnd : (s.nodes.map (·.id)).Nodup) :
    (s.under (s.advance seen i)).nodes[j]? = (s.nodes[j]?).map fun e =>
      e.under fun id => if j = i then (s.under seen).sight ⟨e.id, id⟩ else seen ⟨e.id, id⟩ := by
  rw [under, List.getElem?_map]
  cases he : s.nodes[j]? with
  | none => rfl
  | some e =>
    rw [Option.map_some, Option.map_some]
    refine congrArg (fun see => some (e.under see)) (funext fun id => ?_)
    rw [advance, indexOf?_of_getElem? hnd he]
    simp only [Option.some.injEq]

namespace Follows

variable {I : Sights → Prop} {seen : Sights} {order : List Nat}

theorem resolveAt (h : Follows R s I) (hI : I seen) (hu : u.bare = (s.under seen).bare) (i : Nat) :
    ∃ u' changed, GraphState.resolveAt R [] u i = .ok (u', changed) ∧
      u'.bare = (s.under (s.advance seen i)).bare ∧ (changed = false → u'.bare = u.bare) := by
  obtain ⟨hnodes, hlinks⟩ := bare_eq_iff.mp hu
  have hget : ∀ j : Nat, (u.nodes[j]?).map NodeEntry.bare =
      (s.nodes[j]?).map fun e => (e.under fun id => seen ⟨e.id, id⟩).bare := by
    intro j
    rw [← List.getElem?_map, hnodes, List.getElem?_map, under, List.getElem?_map, Option.map_map]
    rfl
  rw [GraphState.resolveAt]
  cases hd : u.nodes[i]? with
  | none =>
    refine ⟨u, false, rfl, bare_eq_iff.mpr ⟨?_, hlinks⟩, fun _ => rfl⟩
    refine List.ext_getElem? fun j => ?_
    rw [List.getElem?_map, List.getElem?_map, getElem?_advance h.distinct, hget, Option.map_map]
    by_cases hj : j = i
    · have hnone : s.nodes[j]? = none := by
        have hi := hget j
        rw [hj, hd] at hi
        rw [hj]
        exact Option.map_eq_none_iff.mp hi.symm
      rw [hnone]
      rfl
    · simp only [if_neg hj]
      rfl
  | some d =>
    have hi := hget i
    rw [hd] at hi
    obtain ⟨e, he, hed⟩ := Option.map_eq_some_iff.mp hi.symm
    have hmem := List.mem_of_getElem? he
    have hslim := h.slim seen hI
    have hsight : ∀ q, u.sight q = (s.under seen).sight q := congrFun (sight_of_bare hu)
    obtain ⟨d', changed, hres, hd', hsame⟩ :
      ∃ d' changed, resolveNode R [] u d = .ok (d', changed) ∧
        d'.bare = (e.under fun id => (s.under seen).sight ⟨e.id, id⟩).bare ∧
        (changed = false → d'.bare = d.bare) := by
      rcases h.node e hmem seen hI with ⟨hsub, hsettled⟩ | ⟨t, see₀, hstands, hmerge⟩
      · have hbare : e.bare = d.bare := by
          rw [← hed, NodeEntry.under_of_subgraph hsub]
        have hplugin : ∀ t, e.body = .plugin t → t.ReadsValues := by
          intro t hb
          rw [NodeEntry.isSubgraph, hb] at hsub
          cases hsub
        obtain ⟨d', hres, hd'⟩ :=
          (hsettled.congr hplugin hlinks.symm (faces_of_bare hu).symm hbare).resolveNode
        refine ⟨d', false, hres, ?_, fun _ => hd'⟩
        rw [NodeEntry.under_of_subgraph hsub, hd', hbare]
      · have hmerge' := hmerge
        simp only [← hsight] at hmerge' ⊢
        exact resolveNode_under hstands hed.symm u (fun id => (hslim _).1)
          (fun id => hsight _ ▸ (hslim _).2) hmerge'
    refine ⟨{ u with nodes := u.nodes.set i d' }, changed, by simp only [hres, Except.map],
      bare_eq_iff.mpr ⟨?_, hlinks⟩, fun hc => bare_eq_iff.mpr ⟨map_set_of_eq hd (hsame hc), rfl⟩⟩
    refine List.ext_getElem? fun j => ?_
    rw [List.getElem?_map, List.getElem?_map, getElem?_advance h.distinct, Option.map_map]
    by_cases hj : j = i
    · subst hj
      rw [List.getElem?_set_self (List.getElem?_eq_some_iff.mp hd).1, he, Option.map_some,
        Option.map_some, hd']
      simp only [Function.comp_apply, if_true]
    · rw [List.getElem?_set_ne (Ne.symm hj), hget]
      simp only [if_neg hj]
      rfl

theorem resolveEach (h : Follows R s I) (hI : I seen) (hu : u.bare = (s.under seen).bare)
    (order : List Nat) :
    ∃ u' changed, GraphState.resolveEach R [] u order = .ok (u', changed) ∧
    I (order.foldl s.advance seen) ∧
      u'.bare = (s.under (order.foldl s.advance seen)).bare ∧
      (changed = false → u'.bare = u.bare) := by
  induction order generalizing u seen with
  | nil => exact ⟨u, false, rfl, hI, hu, fun _ => rfl⟩
  | cons i rest ih =>
    obtain ⟨u₁, c₁, h₁, hu₁, hsame₁⟩ := h.resolveAt hI hu i
    obtain ⟨u₂, c₂, h₂, hI₂, hu₂, hsame₂⟩ := ih (h.step seen i hI) hu₁
    refine ⟨u₂, c₁ || c₂, ?_, hI₂, hu₂, fun hc => ?_⟩
    · rw [GraphState.resolveEach, h₁]
      simp only [bind, Except.bind, h₂]
    · obtain ⟨hc₁, hc₂⟩ := Bool.or_eq_false_iff.mp hc
      exact (hsame₂ hc₂).trans (hsame₁ hc₁)

/-- The pads of a graph keep their direction and kind. -/
theorem padType_under (h : Follows R s I) (hI : I seen) (r : PadRef) :
    ((s.under seen).pad? r).map (·.padType) = (s.pad? r).map (·.padType) := by
  have hnode : (s.under seen).node? r.node = (s.node? r.node).map fun e =>
      e.under fun id => seen ⟨e.id, id⟩ := by
    have htest :
        (fun d : NodeEntry => d.id == r.node) ∘
        (fun e : NodeEntry => e.under fun id => seen ⟨e.id, id⟩) =
        fun e => e.id == r.node := funext fun e => by rw [Function.comp_apply, NodeEntry.under_id]
    rw [node?, under, List.find?_map, htest]
    rfl
  rw [pad?, pad?, hnode]
  cases he : s.node? r.node with
  | none => rfl
  | some e =>
    rcases h.node e (node?_eq_some he).1 seen hI with ⟨hsub, -⟩ | ⟨t, see₀, hstands, -⟩
    · rw [Option.map_some, NodeEntry.under_of_subgraph hsub]
    · exact hstands.padType_under _ r.pad

theorem isSound_under (h : Follows R s I) (hI : I seen) (l : Link) :
    (s.under seen).isSound l = s.isSound l := by
  have hpad : ∀ (r : PadRef) (g : PadType → Bool),
      ((s.under seen).pad? r).any (fun p => g p.padType) = (s.pad? r).any fun p =>
      g p.padType := by
    intro r g
    have hmap := congrArg (Option.any g) (h.padType_under hI r)
    rwa [Option.any_map, Option.any_map] at hmap
  exact congrArg₂ (· && ·) (hpad l.sink (!·.isSource)) (hpad l.source (·.isSource))

/-- A pass goes over to what the graph feeds its nodes with in their turn (`advance`), and drops no
link. -/
theorem pass (h : Follows R s I) (hI : I seen) (hu : u.bare = (s.under seen).bare)
    (order : List Nat) :
    ∃ u' changed, GraphState.pass R [] order u = .ok (u', changed) ∧
    I (order.foldl s.advance seen) ∧
      u'.bare = (s.under (order.foldl s.advance seen)).bare ∧
      (changed = false → u'.bare = u.bare) := by
  obtain ⟨u', changed, hres, hI', hu', hsame⟩ := h.resolveEach hI hu order
  have hall : ∀ l ∈ u'.links, u'.isSound l = true := by
    intro l hl
    rw [← isSound_bare, hu', isSound_bare, h.isSound_under hI']
    exact h.sound l ((bare_eq_iff.mp hu').2 ▸ hl)
  have hkeep : u'.links.filter u'.isSound = u'.links := List.filter_eq_self.mpr hall
  refine ⟨u', changed, ?_, hI', hu', hsame⟩
  rw [GraphState.pass, hres]
  simp only [Except.map, pruneLinks, hkeep, List.all_eq_true.mpr hall, Bool.not_true,
    Bool.or_false]
  cases u'
  rfl

end Follows

end Patchbay.GraphState

/-! ## How far the type of a link is carried -/

namespace Patchbay

/-- A passthrough or a gate: the source declares what feeds the sink (`NodeType.IsRelay`). -/
def NodeEntry.IsRelay (e : NodeEntry) : Prop := ∃ t : NodeType, e.body = .plugin t ∧ t.IsRelay

/-- The menu of a compare whose pads are fed with given constraints (`Compare.menu`). -/
def NodeEntry.menuUnder (e : NodeEntry) (seen : GraphState.Sights) : List String :=
  Compare.menu (e.viewUnder fun id => seen ⟨e.id, id⟩)

namespace GraphState

variable {R : InnerResolver} {s : GraphState} {l : Link} {e : NodeEntry} {q r : PadRef}
  {seen : Sights} {on : Bool}

/-- The sinks that a type fed to a sink comes to: that sink, and those that are fed by a relay
whose input it comes to. -/
inductive Carries (s : GraphState) (start : PadRef) : PadRef → Prop where
  | start : Carries s start start
  | relay {e : NodeEntry} {q : PadRef} (mem : e ∈ s.nodes) (relay : e.IsRelay)
      (link : ⟨⟨e.id, Passthrough.output⟩, q⟩ ∈ s.links)
      (input : Carries s start ⟨e.id, Passthrough.input⟩) : Carries s start q

/-- No subgraph has the source of a link, or is carried what the link feeds to its sink
(`Carries`), or feeds a node that is carried it. Where there are no subgraphs all links are clear
(`clear_of_flat`). -/
def Clear (s : GraphState) (l : Link) : Prop :=
  ∀ e ∈ s.nodes, e.isSubgraph = true → e.id ≠ l.source.node ∧
    ∀ q, s.Carries l.sink q → e.id ≠ q.node ∧ ¬ s.Feeds e.id q.node

/-- A settled graph of built-in nodes and subgraphs, and a link from one of its sources to a sink
that nothing feeds, which is clear of subgraphs. -/
structure Linkable (R : InnerResolver) (s : GraphState) (l : Link) : Prop where
  distinct : (s.nodes.map (·.id)).Nodup
  settled : Settled R [] s
  builtin : ∀ e ∈ s.nodes, ∀ t, e.body = .plugin t → t.IsBuiltin
  slim : ∀ r a, s.declared? r = some a → a.Slim
  joined : s.Joined
  source : (s.pad? l.source).any (·.isSource) = true
  sink : (s.pad? l.sink).any (!·.isSource) = true
  free : s.feeder l.sink = none
  clear : s.Clear l

/-- What a source offers to those that it feeds: its declaration, or nothing. -/
def offered (s : GraphState) (r : PadRef) : Constraints := (s.declared? r).getD none

/-- Away from what a link carries things look as they do in the graph, and the sinks that it is
carried to see nothing, or the type of its source. Both the graph with the link and the one without
it keep this (`spread_sight_under`). -/
structure Spread (s : GraphState) (l : Link) (seen : Sights) : Prop where
  others : ∀ q, ¬ s.Carries l.sink q → seen q = s.sight q
  carried : ∀ q, s.Carries l.sink q → seen q = none ∨ seen q = s.offered l.source

/-- The graph with or without one more link. -/
def wire (s : GraphState) (l : Link) (on : Bool) : GraphState := { s with links := s.wired l on }

theorem links_under_wire (s : GraphState) (l : Link) (on : Bool) (seen : Sights) :
    ((s.wire l on).under seen).links = s.wired l on := rfl

theorem pad?_under (hnd : (s.nodes.map (·.id)).Nodup) (he : e ∈ s.nodes) (id : String) :
    (s.under seen).pad? ⟨e.id, id⟩ = findPad id (e.under fun id => seen ⟨e.id, id⟩).pads := by
  have hmem : (e.under fun id => seen ⟨e.id, id⟩) ∈ (s.under seen).nodes := List.mem_map_of_mem he
  have hpad := pad?_of_mem (ids_under s seen ▸ hnd) hmem id
  rwa [NodeEntry.under_id] at hpad

theorem sight_eq (h : s.feeder q = some r) : s.sight q = s.offered r := by
  rw [sight, h]
  rfl

/-- A pad belongs to some node. -/
theorem exists_owner {p : PadState} (hr : s.pad? r = some p) : ∃ e ∈ s.nodes, ∃ id,
    r = ⟨e.id, id⟩ := by
  obtain ⟨e, he, hid, -, -⟩ := pad?_eq_some hr
  exact ⟨e, he, r.pad, by rw [hid]⟩

theorem Joined.source_isSource (hs : s.Joined) (hl : l ∈ s.links) :
    (s.pad? l.source).any (·.isSource) = true := by
  obtain ⟨p, -, hp, -, hps, -⟩ := hs.ends hl
  rw [hp]
  exact hps

namespace Linkable

variable (h : Linkable R s l)

include h

theorem stands (he : e ∈ s.nodes) {t : NodeType} (hb : e.body = .plugin t) :
    e.Stands t fun id => s.sight ⟨e.id, id⟩ :=
  (h.settled e he).stands hb (h.builtin e he t hb)

/-- Every node is a subgraph, or it stands under what feeds it. -/
theorem subgraph_or_stands (he : e ∈ s.nodes) :
    e.isSubgraph = true ∨ ∃ t, e.Stands t fun id => s.sight ⟨e.id, id⟩ := by
  cases hb : e.body with
  | plugin t => exact .inr ⟨t, h.stands he hb⟩
  | subgraph id inner => exact .inl (by rw [NodeEntry.isSubgraph, hb])

theorem slim_offered (r : PadRef) : (s.offered r).Slim := by
  rw [offered]
  cases hr : s.declared? r with
  | none => exact Constraints.slim_none
  | some a => exact h.slim r a hr

theorem slim_sight (q : PadRef) : (s.sight q).Slim := by
  cases hq : s.feeder q with
  | none =>
    rw [sight, hq]
    exact Constraints.slim_none
  | some r =>
    rw [sight_eq hq]
    exact h.slim_offered r

/-! ### What is declared under given sights -/

/-- Fed as before, a node declares as before. -/
theorem declared?_under_of_eq (he : e ∈ s.nodes)
    (hsee : ∀ id, seen ⟨e.id, id⟩ = s.sight ⟨e.id, id⟩)
    (id : String) : (s.under seen).declared? ⟨e.id, id⟩ = s.declared? ⟨e.id, id⟩ := by
  have hbare : (e.under fun id => seen ⟨e.id, id⟩).bare = e.bare := by
    rcases h.subgraph_or_stands he with hsub | ⟨t, hstands⟩
    · rw [NodeEntry.under_of_subgraph hsub]
    · rw [funext hsee]
      exact hstands.under_bare
  have hpads := congrArg (findPad id) (NodeEntry.bare_eq_iff.mp hbare).2.2.2.1
  rw [findPad_bare, findPad_bare] at hpads
  have hdecl := congrArg (Option.map (·.declared)) hpads
  rw [Option.map_map, Option.map_map] at hdecl
  rw [declared?, declared?, pad?_under h.distinct he, pad?_of_mem h.distinct he]
  exact hdecl

/-- The source of a relay is its output, and declares what feeds the input. -/
theorem declared?_under_relay (he : e ∈ s.nodes) (hrelay : e.IsRelay) {id : String}
    (hsource : (s.pad? ⟨e.id, id⟩).any (·.isSource) = true) (seen : Sights) :
    id = Passthrough.output ∧ (s.under seen).declared? ⟨e.id, id⟩ =
    some (seen ⟨e.id, Passthrough.input⟩) := by
  obtain ⟨t, hb, ht⟩ := hrelay
  rw [pad?_of_mem h.distinct he] at hsource
  obtain ⟨p, hp, hps⟩ := (Option.any_eq_true _ _).mp hsource
  obtain ⟨hmem, rfl⟩ := findPad_eq_some hp
  obtain ⟨hid, hdecl⟩ := (h.stands he hb).declared_relay ht hmem hps fun id => seen ⟨e.id, id⟩
  rw [declared?, pad?_under h.distinct he]
  exact ⟨hid, hdecl⟩

/-- Fed as things are, a relay declares what it declares. -/
theorem declared?_relay (he : e ∈ s.nodes) (hrelay : e.IsRelay) {id : String}
    (hsource : (s.pad? ⟨e.id, id⟩).any (·.isSource) = true) :
    s.declared? ⟨e.id, id⟩ = some (s.sight ⟨e.id, Passthrough.input⟩) := by
  rw [← h.declared?_under_of_eq he (fun _ => rfl)]
  exact (h.declared?_under_relay he hrelay hsource s.sight).2

/-- A source declares as before if it is not on a relay that is fed with something else: what other
types declare for sources does not depend on what feeds them. -/
theorem declared?_under (hr : (s.pad? r).any (·.isSource) = true)
    (hsee : ∀ e ∈ s.nodes, e.IsRelay → r = ⟨e.id, Passthrough.output⟩ →
      seen ⟨e.id, Passthrough.input⟩ = s.sight ⟨e.id, Passthrough.input⟩) :
    (s.under seen).declared? r = s.declared? r := by
  obtain ⟨p, hp, -⟩ := (Option.any_eq_true _ _).mp hr
  obtain ⟨e, he, id, heq⟩ := exists_owner hp
  rw [heq] at hr ⊢
  by_cases hrelay : e.IsRelay
  · obtain ⟨hid, hdecl⟩ := h.declared?_under_relay he hrelay hr seen
    rw [hdecl, h.declared?_relay he hrelay hr, hsee e he hrelay (heq.trans (by rw [hid]))]
  · rw [declared?, declared?, pad?_under h.distinct he]
    rw [pad?_of_mem h.distinct he] at hr ⊢
    rcases h.subgraph_or_stands he with hsub | ⟨t, hstands⟩
    · rw [NodeEntry.under_of_subgraph hsub]
    · obtain ⟨p, hp, hps⟩ := (Option.any_eq_true _ _).mp hr
      obtain ⟨hmem, hid⟩ := findPad_eq_some hp
      rw [← hid, hstands.declared_source (fun ht => hrelay ⟨t, hstands.body, ht⟩) hmem hps, hid,
        hp]
      rfl

/-! ### Sinks that the link is carried to -/

/-- Before there is the link, these sinks see nothing, for the sink of the link is free, and relays
hand on what they see. -/
theorem sight_of_carries (hq : s.Carries l.sink q) : s.sight q = none := by
  induction hq with
  | start =>
    rw [sight, h.free]
    rfl
  | @relay e q he hrelay hlink _ ih =>
    rw [sight_eq (h.joined.feeder_sink hlink), offered,
      h.declared?_relay he hrelay (h.joined.source_isSource hlink), ih]
    rfl

theorem spread_sight : s.Spread l s.sight :=
  ⟨fun _ _ => rfl, fun _ hq => .inl (h.sight_of_carries hq)⟩

section

variable (hseen : s.Spread l seen)

include hseen

theorem slim_of_spread (q : PadRef) : (seen q).Slim := by
  by_cases hq : s.Carries l.sink q
  · rcases hseen.carried q hq with hnone | hoffered
    · exact hnone ▸ Constraints.slim_none
    · exact hoffered ▸ h.slim_offered _
  · exact hseen.others q hq ▸ h.slim_sight q

/-- What feeds a sink that the link is not carried to declares as before. -/
theorem declared?_of_not_carries (hlink : ⟨r, q⟩ ∈ s.links) (hq : ¬ s.Carries l.sink q) :
    (s.under seen).declared? r = s.declared? r := by
  refine h.declared?_under (h.joined.source_isSource hlink) fun e he hrelay heq => ?_
  exact hseen.others _ fun hin => hq (.relay he hrelay (heq ▸ hlink) hin)

/-- The source of the link declares as before. -/
theorem declared?_source : (s.under seen).declared? l.source = s.declared? l.source := by
  refine h.declared?_under h.source fun e he hrelay heq => ?_
  by_cases hin : s.Carries l.sink ⟨e.id, Passthrough.input⟩
  · -- the link feeds its own source, which offers nothing then
    have hnone := h.sight_of_carries hin
    have hoffered : s.offered l.source = none := by
      have hsource := h.source
      rw [heq] at hsource ⊢
      rw [offered, h.declared?_relay he hrelay hsource, hnone]
      rfl
    rw [hnone]
    exact (hseen.carried _ hin).elim id (·.trans hoffered)
  · exact hseen.others _ hin

/-! ### What is seen next -/

/-- Away from what the link is carried to nothing else is seen. -/
theorem sight_under_of_not_carries (hq : ¬ s.Carries l.sink q) :
    ((s.wire l on).under seen).sight q = s.sight q := by
  have hne : q ≠ l.sink := fun heq => hq (heq ▸ .start)
  have hfeeder := feeder_of_wired (links_under_wire s l on seen) q hne
  rw [sight, sight, hfeeder]
  cases hr : s.feeder q with
  | none => rfl
  | some r =>
    exact congrArg (·.getD none) (h.declared?_of_not_carries hseen (feeder_eq_some hr) hq)

omit hseen in
/-- A relay feeds to a sink what its input was fed with. -/
theorem sight_under_relay (he : e ∈ s.nodes) (hrelay : e.IsRelay)
    (hlink : ⟨⟨e.id, Passthrough.output⟩, q⟩ ∈ s.links) (seen : Sights) :
    ((s.wire l on).under seen).sight q = seen ⟨e.id, Passthrough.input⟩ := by
  have hfed := h.joined.feeder_sink hlink
  have hne : q ≠ l.sink := by
    rintro rfl
    rw [h.free] at hfed
    cases hfed
  have hfeeder : ((s.wire l on).under seen).feeder q = some ⟨e.id, Passthrough.output⟩ :=
    (feeder_of_wired (links_under_wire s l on seen) q hne).trans hfed
  rw [sight, hfeeder]
  exact congrArg (·.getD none)
    (h.declared?_under_relay he hrelay (h.joined.source_isSource hlink) seen).2

/-- The sink sees the type of the source if there is the link, and nothing otherwise. -/
theorem sight_under_sink :
    ((s.wire l on).under seen).sight l.sink = if on then s.offered l.source else none := by
  have hfeeder := feeder_sink_of_wired (links_under_wire s l on seen) h.free
  rw [sight, hfeeder]
  cases on with
  | true => exact congrArg (·.getD none) (h.declared?_source hseen)
  | false => rfl

/-- What is seen next is spread in the same way. -/
theorem spread_sight_under : s.Spread l ((s.wire l on).under seen).sight := by
  refine ⟨fun q hq => h.sight_under_of_not_carries hseen hq, fun q hq => ?_⟩
  cases hq with
  | start =>
    rw [h.sight_under_sink hseen]
    cases on with
    | true => exact .inr rfl
    | false => exact .inl rfl
  | relay he hrelay hlink hin =>
    rw [h.sight_under_relay he hrelay hlink]
    exact hseen.carried _ hin

theorem spread_advance (i : Nat) : s.Spread l ((s.wire l on).advance seen i) := by
  have hnext : s.Spread l ((s.wire l on).under seen).sight := h.spread_sight_under hseen
  refine ⟨fun q hq => ?_, fun q hq => ?_⟩ <;> rw [advance] <;> split
  · exact hnext.others q hq
  · exact hseen.others q hq
  · exact hnext.carried q hq
  · exact hseen.carried q hq

/-! ### Nodes under what is seen -/

/-- A subgraph sees what it sees, with the link or without it, because the link is clear. -/
theorem peerViews_under (he : e ∈ s.nodes) (hsub : e.isSubgraph = true) :
    s.peerViews [] e = ((s.wire l on).under seen).peerViews [] e := by
  obtain ⟨hne, hclear⟩ := h.clear e he hsub
  have hlinks := links_under_wire s l on seen
  refine List.map_congr_left fun p _ => congrArg (Prod.mk p.id) ?_
  cases hp : p.isSource with
  | true =>
    have hdown := downstream_of_wired hlinks h.free (r := ⟨e.id, p.id⟩)
      fun heq => hne (congrArg PadRef.node heq)
    have hseen : (s.downstream ⟨e.id, p.id⟩).filterMap ((s.wire l on).under seen).declared? =
        (s.downstream ⟨e.id, p.id⟩).filterMap s.declared? := by
      refine List.filterMap_congr fun q hq => ?_
      have hlink := mem_downstream.mp hq
      obtain ⟨-, b, -, hb, -⟩ := h.joined.ends hlink
      obtain ⟨d, hd, id, rfl⟩ := exists_owner hb
      exact h.declared?_under_of_eq hd
        (fun id => hseen.others _ fun hcarried => (hclear _ hcarried).2 ⟨_, hlink, rfl, rfl⟩) id
    rw [peerView_source hp, peerView_source hp, hdown, hseen]
  | false =>
    have hout : ¬ s.Carries l.sink ⟨e.id, p.id⟩ := fun hcarried => (hclear _ hcarried).1 rfl
    have hfeeder := feeder_of_wired hlinks ⟨e.id, p.id⟩ fun heq => hout (heq ▸ .start)
    have hseen : (s.feeder ⟨e.id, p.id⟩).bind ((s.wire l on).under seen).declared? =
        (s.feeder ⟨e.id, p.id⟩).bind s.declared? := by
      cases hr : s.feeder ⟨e.id, p.id⟩ with
      | none => rfl
      | some r => exact h.declared?_of_not_carries hseen (feeder_eq_some hr) hout
    rw [peerView_sink hp, peerView_sink hp, hfeeder, hseen]

end

/-- Passes go over from what is seen to what is seen next (`Follows`), if no compare loses its menu
and gets it back. -/
theorem follows {I : Sights → Prop} (hspread : ∀ seen, I seen → s.Spread l seen)
    (hstep : ∀ seen i, I seen → I ((s.wire l on).advance seen i))
    (hmenu : ∀ e ∈ s.nodes, e.body = .plugin Compare.nodeType → ∀ seen, I seen →
      e.menuUnder seen = e.menuUnder s.sight ∨ e.menuUnder s.sight = [] ∨
        e.menuUnder seen = e.menuUnder ((s.wire l on).under seen).sight) :
    Follows R (s.wire l on) I := by
  refine ⟨h.distinct, fun k hk => ?_, hstep, fun seen hI q => ?_, fun e he seen hI => ?_⟩
  · rcases mem_of_wired rfl hk with rfl | hk
    · exact Bool.and_eq_true_iff.mpr ⟨h.sink, h.source⟩
    · exact h.joined.sound k hk
  · exact ⟨h.slim_of_spread (hspread seen hI) q,
      h.slim_of_spread (h.spread_sight_under (hspread seen hI)) q⟩
  · cases hb : e.body with
    | plugin t =>
      refine .inr ⟨t, _, h.stands he hb, (h.stands he hb).mergedPad_under fun ht => ?_⟩
      exact hmenu e he (ht ▸ hb) seen hI
    | subgraph id inner =>
      have hsub : e.isSubgraph = true := by rw [NodeEntry.isSubgraph, hb]
      obtain ⟨specs, hspecs, hrest⟩ := h.settled e he
      refine .inl ⟨hsub, specs, ?_, hrest⟩
      rwa [view, ← h.peerViews_under (hspread seen hI) he hsub]

end Linkable

end GraphState

end Patchbay
