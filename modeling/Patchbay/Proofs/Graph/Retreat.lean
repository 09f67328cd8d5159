import Patchbay.Proofs.Graph.Carried

/-!
# Passes with a link and without it

Take the passes with a link, over the graph as it was before the link, side by side with the passes
without it, over the graph as the link has left it. In the first run the type of the source spreads
from sink to sink, and in the second one it withdraws. A sink that it has come to in the first run
has been left by it in the second one (`Apart`): without the link a node that comes after one that
feeds it does so as well (`before_of_subset`). So the second run is through when the first one is,
and it ends with the graph before (`Linkable.settle_retreat`).
-/

namespace Patchbay

namespace NodeEntry

variable {e : NodeEntry} {seen v w : GraphState.Sights}

theorem peerConstraints_since (h : ∀ id, v ⟨e.id, id⟩ = w ⟨e.id, id⟩ ∨ w ⟨e.id, id⟩ = none)
    (id : String) :
    (e.viewUnder fun id => v ⟨e.id, id⟩).peerConstraints id =
        (e.viewUnder fun id => w ⟨e.id, id⟩).peerConstraints id ∨
      (e.viewUnder fun id => w ⟨e.id, id⟩).peerConstraints id = none := by
  rw [peerConstraints_viewUnder, peerConstraints_viewUnder]
  split
  · exact h id
  · exact .inl rfl

theorem peerConstraints_or (h : ∀ id, seen ⟨e.id, id⟩ = v ⟨e.id, id⟩ ∨
    seen ⟨e.id, id⟩ = w ⟨e.id, id⟩)
    (id : String) : (e.viewUnder fun id => seen ⟨e.id, id⟩).peerConstraints id =
        (e.viewUnder fun id => v ⟨e.id, id⟩).peerConstraints id ∨
      (e.viewUnder fun id => seen ⟨e.id, id⟩).peerConstraints id =
        (e.viewUnder fun id => w ⟨e.id, id⟩).peerConstraints id := by
  rw [peerConstraints_viewUnder, peerConstraints_viewUnder, peerConstraints_viewUnder]
  split
  · exact h id
  · exact .inl rfl

namespace OfBuiltin

variable {t : NodeType} (h : e.OfBuiltin t) {see see' : String → Constraints}
  {key : String → Constraints → Constraints} (hkey : t.Heeds key)

include h

/-- The constraints of the pads of a node are those of its declarations. -/
theorem declared_under (see : String → Constraints) :
    (e.under see).pads.map (·.declared) = (e.declaresUnder see).map (·.constraints) := by
  rw [h.pads_under, List.map_map]
  refine List.map_congr_left fun spec _ => ?_
  obtain ⟨value, heq, -⟩ := GraphState.mergedPad_eq e.pads spec
  rw [Function.comp_apply, heq]
  rfl

include hkey

/-- The pads of a node show what it takes notice of. -/
theorem heeded_of_bare (hbare : (e.under see).bare = (e.under see').bare) (id : String)
    (hsome : (findPad id e.pads).isSome = true) : key id (see id) = key id (see' id) := by
  have hpads := congrArg (List.map (·.declared)) (bare_eq_iff.mp hbare).2.2.2.1
  rw [List.map_map, List.map_map] at hpads
  have hspecs := (h.declared_under see).symm.trans (hpads.trans (h.declared_under see'))
  have hid := hkey.shown _ _ _ _ (h.resolve_declaresUnder see)
    (h.resolve_declaresUnder see') hspecs id
  rwa [peerConstraints_viewUnder, peerConstraints_viewUnder, if_pos hsome, if_pos hsome] at hid

/-- A node that is fed with something else, of which it takes no notice, stays as it is. -/
theorem under_congr (hslim : ∀ id, ((e.viewUnder see).peerConstraints id).Slim)
    (hslim' : ∀ id, ((e.viewUnder see').peerConstraints id).Slim)
    (hsame : ∀ id, (findPad id e.pads).isSome = true → key id (see id) = key id (see' id)) :
    e.under see = e.under see' := by
  have hresolve : t.resolve (e.viewUnder see) = t.resolve (e.viewUnder see') := by
    refine hkey.congr _ _ (fun _ => rfl) hslim hslim' fun id => ?_
    rw [peerConstraints_viewUnder, peerConstraints_viewUnder]
    split
    · rename_i hsome
      exact hsame id hsome
    · rfl
  rw [h.resolve_declaresUnder, h.resolve_declaresUnder] at hresolve
  rw [under, under, h.body, Except.ok.inj hresolve]

end OfBuiltin

end NodeEntry

namespace GraphState

variable {R : InnerResolver} {s a b a' : GraphState} {l : Link} {e : NodeEntry} {q : PadRef}
  {seen v w : Sights} {on : Bool} {front rest order order' : List Nat} {i j : Nat}

/-! ### What a pass leaves at a place -/

theorem foldl_advance_of_forall_ne (h : ∀ i ∈ order, s.indexOf? q.node ≠ some i) (seen : Sights) :
    order.foldl s.advance seen q = seen q := by
  induction order generalizing seen with
  | nil => rfl
  | cons i rest ih =>
    obtain ⟨hi, hrest⟩ := List.forall_mem_cons.mp h
    rw [List.foldl_cons, ih hrest, advance, if_neg hi]

/-- At its turn a node takes notice of what it is fed with after the turns before. -/
theorem foldl_advance_of_place (hi : s.indexOf? q.node = some i) (hrest : i ∉ rest)
    (seen : Sights) :
    (front ++ i :: rest).foldl s.advance seen q = (s.under (front.foldl s.advance seen)).sight
    q := by
  rw [List.foldl_append, List.foldl_cons, foldl_advance_of_forall_ne, advance, if_pos hi]
  intro j hj heq
  rw [hi] at heq
  exact hrest (Option.some.inj heq ▸ hj)

/-- Every place occurs once. -/
structure Complete (s : GraphState) (order : List Nat) : Prop where
  nodup : order.Nodup
  mem : ∀ i < s.nodes.length, i ∈ order

theorem exists_place {p : PadState} (hnd : (s.nodes.map (·.id)).Nodup) (hr : s.pad? q = some p) :
    ∃ i < s.nodes.length, s.indexOf? q.node = some i := by
  obtain ⟨e, he, hid, -, -⟩ := pad?_eq_some hr
  obtain ⟨i, hi, rfl⟩ := List.mem_iff_getElem.mp he
  exact ⟨i, hi, hid ▸ indexOf?_of_getElem? hnd (List.getElem?_eq_getElem hi)⟩

namespace Linkable

variable (h : Linkable R s l)

include h

theorem spread_foldl (hseen : s.Spread l seen) (order : List Nat) :
    s.Spread l (order.foldl (s.wire l on).advance seen) := by
  induction order generalizing seen with
  | nil => exact hseen
  | cons i rest ih => exact ih (h.spread_advance hseen i)

theorem foldl_sink (horder : s.Complete order) (hseen : s.Spread l seen) :
    order.foldl (s.wire l on).advance seen l.sink = if on then s.offered l.source else none := by
  obtain ⟨p, hp, -⟩ := (Option.any_eq_true _ _).mp h.sink
  obtain ⟨i, hlt, hi⟩ := exists_place h.distinct hp
  obtain ⟨front, rest, rfl⟩ := List.append_of_mem (horder.mem i hlt)
  have hrest : i ∉ rest := (List.nodup_cons.mp (List.nodup_append.mp horder.nodup).2.1).1
  exact (foldl_advance_of_place (s := s.wire l on) hi hrest seen).trans
    (h.sight_under_sink (h.spread_foldl hseen front))

/-- A relay passes on what it is fed with in this pass, if its turn comes before, or else what it
was fed with before this pass. -/
theorem foldl_relay (on : Bool) (horder : s.Complete order) (he : e ∈ s.nodes) (hrelay : e.IsRelay)
    (hlink : ⟨⟨e.id, Passthrough.output⟩, q⟩ ∈ s.links) (seen : Sights) :
    ∃ j i, s.indexOf? e.id = some j ∧ s.indexOf? q.node = some i ∧
      (Before order j i → order.foldl (s.wire l on).advance seen q =
        order.foldl (s.wire l on).advance seen ⟨e.id, Passthrough.input⟩) ∧
      (¬ Before order j i →
        order.foldl (s.wire l on).advance seen q = seen ⟨e.id, Passthrough.input⟩) := by
  obtain ⟨-, p, -, hp, -⟩ := h.joined.ends hlink
  obtain ⟨i, hilt, hi⟩ := exists_place h.distinct hp
  obtain ⟨j, hjlt, rfl⟩ := List.mem_iff_getElem.mp he
  have hj := indexOf?_of_getElem? h.distinct (List.getElem?_eq_getElem hjlt)
  obtain ⟨front, rest, rfl⟩ := List.append_of_mem (horder.mem i hilt)
  obtain ⟨-, hback, hdisjoint⟩ := List.nodup_append.mp horder.nodup
  have hrest : i ∉ rest := (List.nodup_cons.mp hback).1
  -- the node of `q` has only one turn, at which it sees what the turns in `front` have left
  have hat : (front ++ i :: rest).foldl (s.wire l on).advance seen q =
      front.foldl (s.wire l on).advance seen ⟨s.nodes[j].id, Passthrough.input⟩ :=
    (foldl_advance_of_place (s := s.wire l on) hi hrest seen).trans
      (h.sight_under_relay he hrelay hlink _)
  have hplace : ∀ k, (s.wire l on).indexOf? s.nodes[j].id = some k → k = j := fun k hk =>
    Option.some.inj (hk.symm.trans hj)
  refine ⟨j, i, hj, hi, fun hbefore => ?_, fun hbefore => ?_⟩ <;>
    rw [before_append_cons_iff hrest] at hbefore
  · have hlater : ∀ k ∈ i :: rest, (s.wire l on).indexOf? s.nodes[j].id ≠ some k := fun k hk hkj =>
      hdisjoint j hbefore k hk (hplace k hkj).symm
    rw [hat, List.foldl_append]
    exact (foldl_advance_of_forall_ne hlater _).symm
  · have hlater : ∀ k ∈ front, (s.wire l on).indexOf? s.nodes[j].id ≠ some k := fun k hk hkj =>
      hbefore (hplace k hkj ▸ hk)
    exact hat.trans (foldl_advance_of_forall_ne hlater seen)

/-! ### A pass that changes nothing -/

/-- What is declared under given sights shows what feeds a relay. -/
theorem input_eq_of_bare (hbare : ((s.wire l on).under seen).bare = ((s.wire l on).under v).bare)
    (he : e ∈ s.nodes) (hrelay : e.IsRelay) (hlink : ⟨⟨e.id, Passthrough.output⟩, q⟩ ∈ s.links) :
    seen ⟨e.id, Passthrough.input⟩ = v ⟨e.id, Passthrough.input⟩ := by
  have hsource := h.joined.source_isSource hlink
  have hdecl : (s.under seen).declared? ⟨e.id, Passthrough.output⟩ =
      (s.under v).declared? ⟨e.id, Passthrough.output⟩ := declared?_congr (faces_of_bare hbare) _
  rw [(h.declared?_under_relay he hrelay hsource seen).2,
    (h.declared?_under_relay he hrelay hsource v).2] at hdecl
  exact Option.some.inj hdecl

/-- After a pass that changes nothing all sinks that the link is carried to see what its sink
sees. -/
theorem foldl_of_unchanged (horder : s.Complete order) (hseen : s.Spread l seen)
    (hbare : ((s.wire l on).under (order.foldl (s.wire l on).advance seen)).bare =
      ((s.wire l on).under seen).bare) (hq : s.Carries l.sink q) :
    order.foldl (s.wire l on).advance seen q = if on then s.offered l.source else none := by
  induction hq with
  | start => exact h.foldl_sink horder hseen
  | relay he hrelay hlink _ ih =>
    obtain ⟨j, i, -, -, hbefore, hafter⟩ := h.foldl_relay on horder he hrelay hlink seen
    by_cases hji : Before order j i
    · exact (hbefore hji).trans ih
    · exact (hafter hji).trans ((h.input_eq_of_bare hbare he hrelay hlink).symm.trans ih)

end Linkable

/-! ### The type of the source spreads -/

open Classical in
/-- All sinks that a link is carried to see the type of its source. -/
noncomputable def filled (s : GraphState) (l : Link) : Sights := fun q =>
  if s.Carries l.sink q then s.offered l.source else s.sight q

theorem filled_of_carries (hq : s.Carries l.sink q) : s.filled l q = s.offered l.source :=
  if_pos hq

theorem spread_filled (s : GraphState) (l : Link) : s.Spread l (s.filled l) :=
  ⟨fun _ hq => if_neg hq, fun _ hq => .inr (filled_of_carries hq)⟩

theorem Spread.eq_of_carries (hv : s.Spread l v) (hw : s.Spread l w)
    (h : ∀ q, s.Carries l.sink q → v q = w q) : v = w := by
  funext q
  by_cases hq : s.Carries l.sink q
  · exact h q hq
  · exact (hv.others q hq).trans (hw.others q hq).symm

/-- In the run with the link, what a relay feeds has seen nothing yet if the relay has not. -/
structure Rising (s : GraphState) (l : Link) (seen : Sights) : Prop extends s.Spread l seen where
  heard : ∀ e ∈ s.nodes, e.IsRelay → ∀ q, ⟨⟨e.id, Passthrough.output⟩, q⟩ ∈ s.links →
    s.Carries l.sink ⟨e.id, Passthrough.input⟩ → seen q ≠ none →
    seen ⟨e.id, Passthrough.input⟩ ≠ none

namespace Linkable

variable (h : Linkable R s l)

include h

theorem rising_sight : s.Rising l s.sight :=
  ⟨h.spread_sight, fun _ he hrelay _ hlink hin hne =>
    absurd (h.sight_of_carries (.relay he hrelay hlink hin)) hne⟩

/-- What is seen in the run with the link goes on to be seen. -/
theorem sight_under_eq (hseen : s.Rising l seen) (hne : seen q ≠ none) :
    ((s.wire l true).under seen).sight q = seen q := by
  by_cases hq : s.Carries l.sink q
  · have hoffered := (hseen.carried q hq).resolve_left hne
    cases hq with
    | start => exact (h.sight_under_sink hseen.toSpread).trans hoffered.symm
    | relay he hrelay hlink hin =>
      rw [h.sight_under_relay he hrelay hlink, hoffered]
      exact (hseen.carried _ hin).resolve_left (hseen.heard _ he hrelay _ hlink hin hne)
  · exact (h.sight_under_of_not_carries hseen.toSpread hq).trans (hseen.others q hq).symm

theorem advance_ne_none (hseen : s.Rising l seen) (i : Nat) (hne : seen q ≠ none) :
    (s.wire l true).advance seen i q ≠ none := by
  rw [advance]
  split
  · rwa [h.sight_under_eq hseen hne]
  · exact hne

theorem rising_advance (hseen : s.Rising l seen) (i : Nat) :
    s.Rising l ((s.wire l true).advance seen i) := by
  refine ⟨h.spread_advance hseen.toSpread i, fun e he hrelay q hlink hin hne => ?_⟩
  refine h.advance_ne_none hseen i ?_
  rw [advance] at hne
  split at hne
  · rwa [h.sight_under_relay he hrelay hlink] at hne
  · exact hseen.heard e he hrelay q hlink hin hne

theorem rising_foldl (hseen : s.Rising l seen) (order : List Nat) :
    s.Rising l (order.foldl (s.wire l true).advance seen) ∧
      ∀ q, seen q ≠ none → order.foldl (s.wire l true).advance seen q ≠ none := by
  induction order generalizing seen with
  | nil => exact ⟨hseen, fun _ hne => hne⟩
  | cons i rest ih =>
    obtain ⟨hrise, hkept⟩ := ih (h.rising_advance hseen i)
    exact ⟨hrise, fun q hne => hkept q (h.advance_ne_none hseen i hne)⟩

/-! ### Menus on the way -/

theorem slim_view (hseen : s.Spread l seen) (e : NodeEntry) (id : String) :
    ((e.viewUnder fun id => seen ⟨e.id, id⟩).peerConstraints id).Slim :=
  NodeEntry.slim_viewUnder (fun id => h.slim_of_spread hseen ⟨e.id, id⟩) id

/-- A pad sees what it saw before, or it saw nothing. -/
theorem fed_since (hseen : s.Spread l seen) (q : PadRef) :
    seen q = s.sight q ∨ s.sight q = none := by
  by_cases hq : s.Carries l.sink q
  · exact .inr (h.sight_of_carries hq)
  · exact .inl (hseen.others q hq)

/-- In the run with the link, a compare offers what it did, or it will offer nothing from now
on. -/
theorem follows_wired : Follows R (s.wire l true) (s.Rising l) := by
  refine h.follows (fun _ hI => hI.toSpread) (fun _ i hI => h.rising_advance hI i)
    fun e he hb seen hseen => ?_
  by_cases hmenu : e.menuUnder s.sight = []
  · exact .inr (.inl hmenu)
  by_cases hnil : Compare.operand (e.viewUnder fun id => seen ⟨e.id, id⟩) = some []
  · -- what has been seen goes on to be seen, so that the operands do not come together again
    have hnext : s.Spread l ((s.wire l true).under seen).sight :=
      h.spread_sight_under hseen.toSpread
    have hnil' := Compare.operand_eq_nil (h.slim_view hnext e)
      (NodeEntry.peerConstraints_since fun id => ?_) hnil
    · exact .inr (.inr (by simp only [NodeEntry.menuUnder, Compare.menu, hnil, hnil']))
    · by_cases hne : seen ⟨e.id, id⟩ = none
      · exact .inr hne
      · exact .inl (h.sight_under_eq hseen hne)
  · exact .inl (Compare.menu_eq (h.slim_view h.spread_sight e) (h.slim_view hseen.toSpread e)
      (NodeEntry.peerConstraints_since fun id => h.fed_since hseen.toSpread _)
      (fun _ => .inr rfl) hnil hmenu)

/-- In the run without the link, a compare that offered something goes on to offer it, if it did so
in the end of the run with the link. -/
theorem follows_unwired (hcommon : ∀ e ∈ s.nodes, e.body = .plugin Compare.nodeType →
      Compare.operand (e.viewUnder fun id => s.filled l ⟨e.id, id⟩) ≠ some []) :
    Follows R (s.wire l false) (s.Spread l) := by
  refine h.follows (fun _ hI => hI) (fun _ i hI => h.spread_advance hI i)
    fun e he hb seen hseen => ?_
  by_cases hmenu : e.menuUnder s.sight = []
  · exact .inr (.inl hmenu)
  refine .inl (Compare.menu_eq (h.slim_view h.spread_sight e) (h.slim_view (spread_filled s l) e)
    (NodeEntry.peerConstraints_since fun id => h.fed_since (spread_filled s l) _) (fun id => ?_)
    (hcommon e he hb) hmenu)
  refine NodeEntry.peerConstraints_or (fun id => ?_) id
  by_cases hq : s.Carries l.sink ⟨e.id, id⟩
  · refine (hseen.carried _ hq).imp (·.trans (h.sight_of_carries hq).symm) fun hoffered => ?_
    exact hoffered.trans (filled_of_carries hq).symm
  · exact .inl (hseen.others _ hq)

/-! ### The end of the run with the link -/

/-- When a pass with the link changes nothing, the type of the source has come to all sinks. -/
theorem foldl_eq_filled (horder : s.Complete order) (hseen : s.Spread l seen)
    (hbare : ((s.wire l true).under (order.foldl (s.wire l true).advance seen)).bare =
      ((s.wire l true).under seen).bare) : order.foldl (s.wire l true).advance seen = s.filled l :=
  (h.spread_foldl hseen order).eq_of_carries (spread_filled s l) fun _ hq =>
    (h.foldl_of_unchanged horder hseen hbare hq).trans (filled_of_carries hq).symm

/-- When a pass without the link changes nothing, everything is seen as it was. -/
theorem foldl_eq_sight (horder : s.Complete order) (hseen : s.Spread l seen)
    (hbare : ((s.wire l false).under (order.foldl (s.wire l false).advance seen)).bare =
      ((s.wire l false).under seen).bare) : order.foldl (s.wire l false).advance seen = s.sight :=
  (h.spread_foldl hseen order).eq_of_carries h.spread_sight fun _ hq =>
    (h.foldl_of_unchanged horder hseen hbare hq).trans (h.sight_of_carries hq).symm

/-- Passes with the link end when the type of the source has come to all sinks. -/
theorem settle_filled (horder : s.Complete order) (hseen : s.Rising l seen)
    (ha : a.bare = ((s.wire l true).under seen).bare) {limit : Nat}
    (hset : settle (pass R [] order) limit a = .ok (some a')) :
    a'.bare = ((s.wire l true).under (s.filled l)).bare := by
  induction limit generalizing a seen with
  | zero => cases hset
  | succ limit ih =>
    obtain ⟨u, changed, hpass, hrise, hu, hsame⟩ := h.follows_wired.pass hseen ha order
    rw [settle, hpass] at hset
    cases changed with
    | true => exact ih hrise hu hset
    | false =>
      cases hset
      rw [hu, h.foldl_eq_filled horder hseen.toSpread]
      rw [← hu, hsame rfl, ha]

end Linkable

/-! ### The type of the source withdraws -/

/-- What sees the type of the source in the first run sees nothing in the second one. -/
def Apart (s : GraphState) (l : Link) (v w : Sights) : Prop :=
  ∀ q, s.Carries l.sink q → v q = none ∨ w q = none

namespace Linkable

variable (h : Linkable R s l)

include h

/-- A pass with the link and one without it keep the two runs apart. -/
theorem apart_foldl (horder : s.Complete order) (horder' : s.Complete order')
    (hbefore : ∀ j i, (j, i) ∈ s.nodeEdges → Before order j i → Before order' j i)
    (hv : s.Rising l v) (hw : s.Spread l w) (hapart : s.Apart l v w) :
    s.Apart l (order.foldl (s.wire l true).advance v)
    (order'.foldl (s.wire l false).advance w) := by
  intro q hq
  induction hq with
  | start => exact .inr (h.foldl_sink horder' hw)
  | @relay e q he hrelay hlink hin ih =>
    obtain ⟨j, i, hj, hi, hsoon, hlate⟩ := h.foldl_relay true horder he hrelay hlink v
    obtain ⟨j', i', hj', hi', hsoon', hlate'⟩ := h.foldl_relay false horder' he hrelay hlink w
    obtain rfl := Option.some.inj (hj.symm.trans hj')
    obtain rfl := Option.some.inj (hi.symm.trans hi')
    have hback : Before order j i → Before order' j i := by
      intro hji
      refine hbefore j i (mem_nodeEdges.mpr ⟨?_, _, hlink, hj, hi⟩) hji
      rintro rfl
      exact not_before_self horder.nodup j hji
    -- where the relay comes first in both runs, or second in both of them, the two runs agree on
    -- which pass they take its input from; the link may make it second in the first run only
    by_cases hji' : Before order' j i
    · rw [hsoon' hji']
      by_cases hji : Before order j i
      · rw [hsoon hji]
        exact ih
      · rw [hlate hji]
        by_cases hne : v ⟨e.id, Passthrough.input⟩ = none
        · exact .inl hne
        · exact .inr (ih.resolve_left ((h.rising_foldl hv order).2 _ hne))
    · rw [hlate (mt hback hji'), hlate' hji']
      exact hapart _ hin

/-- Fed as before, the graph is as before. -/
theorem under_sight : (s.under s.sight).bare = s.bare := by
  refine bare_eq_iff.mpr ⟨?_, rfl⟩
  rw [under, List.map_map]
  refine List.map_congr_left fun e he => ?_
  rcases h.subgraph_or_stands he with hsub | ⟨t, hstands⟩
  · rw [Function.comp_apply, NodeEntry.under_of_subgraph hsub]
  · exact hstands.under_bare

/-- At the end of the first run the second run is through: of what a sink still sees its node takes
no notice, for in the first run the node took no notice of it either. -/
theorem under_of_apart (hw : s.Spread l w) (hapart : s.Apart l v w)
    (hbare : ((s.wire l true).under v).bare = ((s.wire l true).under (s.filled l)).bare) :
    (s.under w).bare = s.bare := by
  rw [← h.under_sight]
  refine bare_eq_iff.mpr ⟨?_, rfl⟩
  refine congrArg (List.map NodeEntry.bare) (List.map_congr_left fun e he => ?_)
  rcases h.subgraph_or_stands he with hsub | ⟨t, hstands⟩
  · rw [NodeEntry.under_of_subgraph hsub, NodeEntry.under_of_subgraph hsub]
  obtain ⟨key, hkey⟩ := hstands.builtin.heeds
  have hnode :
      (e.under fun id => v ⟨e.id, id⟩).bare = (e.under fun id => s.filled l ⟨e.id, id⟩).bare := by
    have hnodes := (bare_eq_iff.mp hbare).1
    rw [under, under, List.map_map, List.map_map] at hnodes
    exact List.map_inj_left.mp hnodes e he
  have hshown := hstands.heeded_of_bare hkey hnode
  refine hstands.under_congr hkey (h.slim_view hw e)
    (h.slim_view h.spread_sight e) fun id hsome => ?_
  by_cases hq : s.Carries l.sink ⟨e.id, id⟩
  · rw [h.sight_of_carries hq]
    rcases hw.carried _ hq with hnone | hoffered
    · rw [hnone]
    · rcases hapart _ hq with hnone | hnone
      · rw [hoffered, ← filled_of_carries hq, ← hshown id hsome, hnone]
      · rw [hnone]
  · rw [hw.others _ hq]

/-- The second run is through when the first one is, and ends with the graph before. -/
theorem settle_retreat (hcommon : ∀ e ∈ s.nodes, e.body = .plugin Compare.nodeType →
      Compare.operand (e.viewUnder fun id => s.filled l ⟨e.id, id⟩) ≠ some [])
    (hreads : s.ReadsValues) (horder : s.Complete order) (horder' : s.Complete order')
    (hbefore : ∀ j i, (j, i) ∈ s.nodeEdges → Before order j i → Before order' j i)
    (hv : s.Rising l v) (hw : s.Spread l w) (hapart : s.Apart l v w)
    (ha : a.bare = ((s.wire l true).under v).bare) (hb : b.bare = ((s.wire l false).under w).bare)
    {limit : Nat} (hset : settle (pass R [] order) limit a = .ok (some a')) :
    ∃ b', settle (pass R [] order') limit b = .ok (some b') ∧ b'.bare = s.bare := by
  induction limit generalizing a b v w with
  | zero => cases hset
  | succ limit ih =>
    obtain ⟨u, changed, hpass, hrise, hu, hsame⟩ := h.follows_wired.pass hv ha order
    obtain ⟨u', changed', hpass', hspread, hu', hsame'⟩ :=
      (h.follows_unwired hcommon).pass hw hb order'
    rw [settle, hpass] at hset
    rw [settle, hpass']
    cases changed with
    | false =>
      -- the first run ends here, so that the second pass finds the graph before
      have hbare : ((s.wire l true).under (order.foldl (s.wire l true).advance v)).bare =
          ((s.wire l true).under v).bare := by rw [← hu, hsame rfl, ha]
      have hfilled := h.foldl_eq_filled horder hv.toSpread hbare
      have hbs : b.bare = s.bare :=
        hb.trans (h.under_of_apart hw hapart (hfilled ▸ hbare.symm))
      obtain ⟨t, hpass'', ht⟩ := pass_of_settled order' (h.settled.congr hreads hbs.symm)
        (readsValues_of_bare hreads hbs.symm) fun k hk => by
          rw [← isSound_bare, hbs, isSound_bare]
          exact h.joined.sound k ((bare_eq_iff.mp hbs).2 ▸ hk)
      rw [hpass'] at hpass''
      cases hpass''
      exact ⟨u', rfl, ht.trans hbs⟩
    | true =>
      cases changed' with
      | false =>
        -- the second run is through before the first one
        refine ⟨u', rfl, hu'.trans ?_⟩
        rw [h.foldl_eq_sight horder' hw (by rw [← hu', hsame' rfl, hb])]
        exact h.under_sight
      | true =>
        exact ih hrise hspread (h.apart_foldl horder horder' hbefore hv hw hapart) hu hu' hset

end Linkable

end GraphState

end Patchbay
