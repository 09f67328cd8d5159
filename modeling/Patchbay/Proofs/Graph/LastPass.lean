import Patchbay.Proofs.Constraint.Finer
import Patchbay.Proofs.Graph.Copies
import Patchbay.Proofs.Graph.Rounds
import Patchbay.Proofs.Graph.Proxies
import Patchbay.Proofs.Graph.Cascade

/-!
# The last pass

Resolution ends with a pass that changes nothing. Then a node has declared its pads in sight of a
state that is not quite the one that is left: declarations count as unchanged when they are equal,
numbers being taken as numbers, and a pass that goes on may write an equal one in the place of
another. Such states are *akin* (`GraphState.Akin`), and what a pad sees in them permits the same,
together with any others (`Akin.finer_peerView`).

So every node of a graph that has settled comes from a resolution in sight of a state that is akin
to the graph (`exists_of_last_pass`), and a subgraph node shows inside what its proxies see, up to
equal declarations (`exists_outer_of_last_pass`).
-/

/-!
## What narrowing leaves to a source

Whatever the types are, the first round of narrowing leaves a source with no more than what it
declares together with all its sinks (`Shares`), and later rounds only take away. So when narrowing
ends, a source permits, with any others, no more than its declaration and what it sees of its sinks
do (`narrow_shares`).

The sinks are intersected one by one with the source, while a node sees them intersected with each
other. That this comes to the same is where four constraints have to be grouped anew
(`Constraints.Finer.assoc`).
-/

namespace Patchbay

/-! ### Narrowed from outside -/

namespace Constraints

variable {a outer : Constraints}

theorem narrowedBy_of_compatible (h : (a.intersect outer).accept .null = true) :
    a.narrowedBy outer = a.intersect outer := by
  rw [narrowedBy, isIncompatible_eq, h]
  rfl

theorem narrowedBy_of_incompatible (h : (a.intersect outer).accept .null = false) :
    a.narrowedBy outer = a := by
  rw [narrowedBy, isIncompatible_eq, h]
  rfl

theorem finer_narrowedBy (a outer : Constraints) : (a.narrowedBy outer).Finer a := by
  cases h : (a.intersect outer).accept .null with
  | true =>
    rw [narrowedBy_of_compatible h]
    exact .left a outer
  | false =>
    rw [narrowedBy_of_incompatible h]
    exact .refl a

end Constraints

namespace GraphState

variable {s s' t t' : GraphState} {l : Link} {r : PadRef} {p p' q : PadState} {done : List Link}
  {external : External} {changed : Bool}

/-- What the sinks declare together that links of a list lead to from a source. With all links of
the graph it is what the source sees (`peerView_linked`). -/
def sinksOf (s : GraphState) (links : List Link) (r : PadRef) : Constraints :=
  (((links.filter fun l => l.source == r).map (·.sink)).filterMap s.declared?).foldl
    Constraints.intersect none

theorem sinksOf_concat (hl : l.source = r) {d : Constraints} (hd : s.declared? l.sink = some d) :
    s.sinksOf (done ++ [l]) r = (s.sinksOf done r).intersect d := by
  have hlast : [l].filter (fun l => l.source == r) = [l] := by simp [hl]
  rw [sinksOf, List.filter_append, hlast, List.map_append, List.filterMap_append,
    List.foldl_append]
  simp [hd, sinksOf]

theorem sinksOf_concat_of_ne (hl : l.source ≠ r) :
    s.sinksOf (done ++ [l]) r = s.sinksOf done r := by
  have hlast : [l].filter (fun l => l.source == r) = [] := by simp [hl]
  rw [sinksOf, List.filter_append, hlast, List.append_nil, sinksOf]

theorem finer_sinksOf {links : List Link} {d : Constraints} (hl : l ∈ links)
    (hd : s.declared? l.sink = some d) : (s.sinksOf links l.source).Finer d := by
  refine .foldl_mem (List.mem_filterMap.mpr ⟨l.sink, ?_, hd⟩) none
  exact List.mem_map_of_mem (List.mem_filter.mpr ⟨hl, beq_self_eq_true _⟩)

/-- A linked source sees what its sinks declare together. -/
theorem peerView_linked (hs : s.Joined) (hl : l ∈ s.links) (hp : p.isSource = true) :
    (s.peerView external l.source p).constraints = s.sinksOf s.links l.source := by
  obtain ⟨-, q, -, hq, -⟩ := hs.ends hl
  have hmem : q.declared ∈ (s.downstream l.source).filterMap s.declared? := by
    refine List.mem_filterMap.mpr ⟨l.sink, ?_, by rw [declared?, hq]; rfl⟩
    exact List.mem_map_of_mem (List.mem_filter.mpr ⟨hl, beq_self_eq_true _⟩)
  rw [peerView_source hp, sinksOf]
  rw [downstream] at hmem ⊢
  split
  · rename_i hnil
    rw [hnil] at hmem
    cases hmem
  · rename_i hseen
    rfl

/-! ### One link -/

/-- Narrowing a link takes away from pads, and nothing else. -/
theorem finer_narrowLink (hne : l.source ≠ l.sink) (h : t.narrowLink l = .ok (t', changed))
    (hp' : t'.pad? r = some p') :
    ∃ p, t.pad? r = some p ∧ p'.declared = p.declared ∧ p'.effective.Finer p.effective := by
  rcases pad?_narrowLink hne h hp' with hp | ⟨p, q, hp, hq, ⟨rfl, rfl⟩ | ⟨rfl, rfl⟩⟩
  · exact ⟨p', hp, rfl, .refl _⟩
  · exact ⟨p, hp, rfl, .left _ _⟩
  · exact ⟨q, hq, rfl, .right _ _⟩

/-- It leaves to its source no more than the ends have in common. -/
theorem finer_narrowLink_source (hne : l.source ≠ l.sink) (h : t.narrowLink l = .ok (t', changed))
    (hp : t.pad? l.source = some p) (hq : t.pad? l.sink = some q)
    (hp' : t'.pad? l.source = some p') :
    p'.effective.Finer (p.effective.intersect q.effective) := by
  rw [narrowLink, hp, hq] at h
  dsimp only at h
  split at h
  · cases h
  · simp only [Except.ok.injEq, Prod.mk.injEq] at h
    obtain ⟨rfl, -⟩ := h
    cases hsame : (p.effective.intersect q.effective).same p.effective with
    | true =>
      -- the source is left alone because it has that already
      have hpad : t.pad? l.source = some p' := by
        simp only [hsame, Bool.not_true, Bool.false_eq_true, if_false] at hp'
        split at hp'
        · rwa [pad?_updatePad, if_neg hne] at hp'
        · exact hp'
      obtain rfl := Option.some.inj (hp.symm.trans hpad)
      exact .of_same (Constraints.same_symm hsame)
    | false =>
      have hpad : p' = { p with effective := p.effective.intersect q.effective } := by
        simp only [hsame, Bool.not_false, if_true] at hp'
        split at hp'
        · rw [pad?_updatePad, if_neg hne, pad?_updatePad, if_pos rfl, hp] at hp'
          exact (Option.some.inj hp').symm
        · rw [pad?_updatePad, if_pos rfl, hp] at hp'
          exact (Option.some.inj hp').symm
      rw [hpad]
      exact .refl _

/-! ### All links -/

/-- While the links of a list were narrowed, every source was left with no more than what it
declares together with the sinks that they lead to (`sinksOf`). -/
structure Shares (s : GraphState) (done : List Link) (t : GraphState) : Prop where
  bare : t.bare = s.bare
  declared : ∀ r p, t.pad? r = some p → p.effective.Finer p.declared
  sinks : ∀ r p, t.pad? r = some p → p.effective.Finer (p.declared.intersect (s.sinksOf done r))

theorem shares_startNarrowing (s : GraphState) (external : External) :
    s.Shares [] (s.startNarrowing external) := by
  have hstart : ∀ r p, (s.startNarrowing external).pad? r = some p →
      p.effective.Finer p.declared := by
    intro r p hp
    rw [pad?_startNarrowing] at hp
    obtain ⟨q, -, rfl⟩ := Option.map_eq_some_iff.mp hp
    rw [startOf_eq]
    exact Constraints.finer_narrowedBy _ _
  refine ⟨bare_startNarrowing s external, hstart, fun r p hp => ?_⟩
  rw [sinksOf, List.filter_nil, List.map_nil, List.filterMap_nil, List.foldl_nil,
    Constraints.intersect_none]
  exact hstart r p hp

theorem Shares.narrowLink (h : s.Shares done t) (hs : s.Joined) (hl : l ∈ s.links)
    (hstep : t.narrowLink l = .ok (t', changed)) : s.Shares (done ++ [l]) t' := by
  have hne := hs.source_ne_sink hl hl
  refine ⟨(bare_narrowLink hstep).trans h.bare, fun r p' hp' => ?_, fun r p' hp' => ?_⟩
  · obtain ⟨p, hp, hdecl, hfiner⟩ := finer_narrowLink hne hstep hp'
    rw [hdecl]
    exact hfiner.trans (h.declared r p hp)
  · obtain ⟨p, hp, hdecl, hfiner⟩ := finer_narrowLink hne hstep hp'
    rw [hdecl]
    by_cases hr : l.source = r
    · subst hr
      obtain ⟨-, q, -, hq⟩ := hs.ends_of_bare h.bare hl
      have hsink : s.declared? l.sink = some q.declared := by
        obtain ⟨q₀, hq₀, hbare⟩ := pad?_of_bare h.bare hq
        rw [declared?, hq₀, Option.map_some, (PadState.bare_eq_iff.mp hbare).2.2.2.1]
      rw [sinksOf_concat rfl hsink]
      exact (finer_narrowLink_source hne hstep hp hq hp').trans
        (((h.sinks _ p hp).intersect (h.declared _ q hq)).trans (.assoc _ _ _))
    · rw [sinksOf_concat_of_ne hr]
      exact hfiner.trans (h.sinks r p hp)

/-- Later rounds keep what the first one has brought about. -/
theorem Shares.narrowLink_again (h : s.Shares done t) (hs : s.Joined) (hl : l ∈ s.links)
    (hstep : t.narrowLink l = .ok (t', changed)) : s.Shares done t' := by
  have hne := hs.source_ne_sink hl hl
  refine ⟨(bare_narrowLink hstep).trans h.bare, fun r p' hp' => ?_, fun r p' hp' => ?_⟩ <;>
    obtain ⟨p, hp, hdecl, hfiner⟩ := finer_narrowLink hne hstep hp' <;> rw [hdecl]
  · exact hfiner.trans (h.declared r p hp)
  · exact hfiner.trans (h.sinks r p hp)

/-- When narrowing ends, every source is left with no more than what it declares together with all
its sinks (`Shares`). -/
theorem narrow_shares (hs : s.Joined) (h : s.narrow external = .ok s') : s.Shares s.links s' := by
  have hpos : ∃ n, (s.startNarrowing external).roundLimit = n + 1 :=
    Nat.exists_eq_add_one.mpr (Nat.lt_of_lt_of_le (Nat.succ_pos _) (le_roundLimit _))
  obtain ⟨n, hn⟩ := hpos
  have hround : narrowRounds (n + 1) (s.startNarrowing external) = .settled s' := by
    rw [narrow, hn] at h
    split at h
    · rename_i hr
      cases h
      exact hr
    · cases h
    · cases h
  rw [narrowRounds] at hround
  cases hfirst : (s.startNarrowing external).narrowLinks (s.startNarrowing external).links with
  | error e =>
    rw [hfirst] at hround
    cases hround
  | ok x =>
    obtain ⟨t, c⟩ := x
    have ht : s.Shares s.links t := by
      have hlinks : (s.startNarrowing external).links = s.links := rfl
      refine narrowLinks_prefix (fun done l t t' changed hl h hstep => h.narrowLink hs hl hstep)
        (fun _ hl => hl) (shares_startNarrowing s external) (hlinks ▸ hfirst)
    rw [hfirst] at hround
    dsimp only at hround
    split at hround
    · refine (narrowRounds_settled (fun u l u' c hl hu hstep => ?_) ht hround).1
      have hlinks : u.links = s.links := (bare_eq_iff.mp hu.bare).2
      exact hu.narrowLink_again hs (hlinks ▸ hl) hstep
    · cases hround
      exact ht

end GraphState

end Patchbay

/-! ## The last pass -/

namespace Patchbay

/-! ### States that are akin -/

/-- The same pad, with a declaration that is equal (`PadState.sameDeclaration`), which may be
written in another way. -/
structure PadState.Akin (p q : PadState) : Prop where
  id : p.id = q.id
  padType : p.padType = q.padType
  proxy : p.proxy = q.proxy
  declared : Constraints.same p.declared q.declared = true

theorem PadState.Akin.symm {p q : PadState} (h : p.Akin q) : q.Akin p :=
  ⟨h.id.symm, h.padType.symm, h.proxy.symm, Constraints.same_symm h.declared⟩

theorem PadState.akin_of_sameDeclaration {p q : PadState} (h : p.sameDeclaration q = true) :
    p.Akin q := by
  simp only [sameDeclaration, Bool.and_eq_true, beq_iff_eq] at h
  obtain ⟨⟨⟨⟨⟨hid, -⟩, htype⟩, hdecl⟩, -⟩, hproxy⟩ := h
  exact ⟨hid, htype, hproxy, hdecl⟩

/-- The same pads at a node with the same id. -/
structure NodeEntry.Akin (e d : NodeEntry) : Prop where
  id : e.id = d.id
  pads : List.Forall₂ PadState.Akin e.pads d.pads

theorem NodeEntry.Akin.refl (e : NodeEntry) : e.Akin e :=
  ⟨rfl, List.forall₂_same.mpr fun p _ => ⟨rfl, rfl, rfl, Constraints.same_refl p.declared⟩⟩

theorem NodeEntry.Akin.symm {e d : NodeEntry} (h : e.Akin d) : d.Akin e :=
  ⟨h.id.symm, (h.pads.imp fun _ _ hp => hp.symm).flip⟩

namespace GraphState

/-- The same nodes with the same pads (`NodeEntry.Akin`), and the same links. -/
structure Akin (s t : GraphState) : Prop where
  links : s.links = t.links
  nodes : List.Forall₂ NodeEntry.Akin s.nodes t.nodes

variable {s t u : GraphState} {e e' : NodeEntry} {external : External} {R : InnerResolver}
  {r : PadRef} {order : List Nat}

theorem Akin.symm (h : s.Akin t) : t.Akin s :=
  ⟨h.links.symm, (h.nodes.imp fun _ _ he => he.symm).flip⟩

/-- Where the one declares something, the other declares an equal thing. -/
theorem Akin.declared? (h : s.Akin t) (r : PadRef) :
    Option.Rel (fun a b => Constraints.same a b = true) (s.declared? r) (t.declared? r) := by
  have hnode := find?_of_forall₂ h.nodes (f := fun e => e.id == r.node)
    (g := fun e => e.id == r.node)
    fun e d hed => by rw [hed.id]
  rw [GraphState.declared?, GraphState.declared?, pad?, pad?, node?, node?]
  rcases hnode with ⟨hs, ht⟩ | ⟨e, d, he, hd, hed⟩
  · rw [hs, ht]
    exact .none
  · rw [he, hd, Option.bind_some, Option.bind_some, NodeEntry.pad?, NodeEntry.pad?, findPad,
      findPad]
    rcases find?_of_forall₂ hed.pads (f := fun p => p.id == r.pad) (g := fun p => p.id == r.pad)
      fun p q hpq => by rw [hpq.id] with ⟨hs, ht⟩ | ⟨p, q, hp, hq, hpq⟩
    · rw [hs, ht]
      exact .none
    · rw [hp, hq]
      exact .some hpq.declared

/-- What a pad sees in the one permits no more than what it sees in the other
(`Constraints.Finer`), together with anything else. -/
theorem Akin.finer_peerView (h : s.Akin t) (external : External) (r : PadRef) (p : PadState) :
    (s.peerView external r p).constraints.Finer (t.peerView external r p).constraints := by
  cases hp : p.isSource with
  | true =>
    have hdown : s.downstream r = t.downstream r := by rw [downstream, downstream, h.links]
    have hseen : List.Forall₂ (fun a b => Constraints.same a b = true)
        ((s.downstream r).filterMap s.declared?) ((t.downstream r).filterMap t.declared?) := by
      rw [hdown]
      exact List.rel_filterMap (R := Eq) (fun a b hab => hab ▸ h.declared? a)
        (List.forall₂_same.mpr fun _ _ => rfl)
    rw [peerView_source hp, peerView_source hp]
    generalize (s.downstream r).filterMap s.declared? = seen at hseen ⊢
    generalize (t.downstream r).filterMap t.declared? = seen' at hseen ⊢
    cases hseen with
    | nil => exact .refl _
    | cons hhead hrest =>
      exact .foldl (.cons (.of_same hhead) (hrest.imp fun _ _ => .of_same)) (.refl none)
  | false =>
    have hfeeder : s.feeder r = t.feeder r := by rw [feeder, feeder, h.links]
    rw [peerView_sink hp, peerView_sink hp, hfeeder]
    cases t.feeder r with
    | none => exact .refl _
    | some r' =>
      have hdecl := h.declared? r'
      rw [Option.bind_some, Option.bind_some]
      generalize s.declared? r' = a at hdecl ⊢
      generalize t.declared? r' = b at hdecl ⊢
      cases hdecl with
      | none => exact .refl _
      | some hsame => exact .of_same hsame

theorem Akin.alike_peerView (h : s.Akin t) (external : External) (r : PadRef) (p : PadState) :
    (s.peerView external r p).constraints.Alike (t.peerView external r p).constraints :=
  ⟨h.finer_peerView external r p, h.symm.finer_peerView external r p⟩

/-- A pad without links sees what is seen from outside. -/
theorem peerView_unlinked (hr : s.Unlinked r) (p : PadState) :
    s.peerView external r p = externalView external r := by
  cases hp : p.isSource with
  | true =>
    rw [peerView_source hp, hr.downstream]
    rfl
  | false =>
    rw [peerView_sink hp, hr.feeder]
    rfl

/-! ### Nodes that do not change -/

/-- A node that its resolution leaves the same is akin to what it was. -/
theorem akin_of_resolveNode (h : resolveNode R external s e = .ok (e', false)) : e.Akin e' := by
  obtain ⟨specs, body, -, -, rfl, hchanged⟩ := resolveNode_eq_ok h
  refine ⟨rfl, (sameDeclarations_iff.mp ?_).imp fun _ _ => PadState.akin_of_sameDeclaration⟩
  simpa using hchanged.symm

/-- Proxies are called after the pads that they stand for. -/
theorem id_of_exposed {pads : List PadState} {p : PadState}
    (hp : p ∈ t.exposedPads.map (mergedPad pads))
    (hr : p.proxy = some r) : p.id = proxyPadId r := by
  obtain ⟨spec, hspec, rfl⟩ := List.mem_map.mp hp
  obtain ⟨f, -, d, -, -, rfl⟩ := mem_exposedPads.mp hspec
  rw [mergedPad_of_proxy rfl] at hr ⊢
  obtain rfl := Option.some.inj hr
  rfl

/-- The graph inside a node sees what the proxies of the node see. -/
theorem externalView_of_resolveNode (h : resolveNode R external s e = .ok (e', false))
    {id : Option String}
    {inner' : GraphState} (hb : e'.body = .subgraph id inner') :
    ∃ inner outer, e.body = .subgraph id inner ∧ R outer inner = .ok inner' ∧
      ∀ p ∈ e'.pads, ∀ r, p.proxy = some r →
        externalView outer r = s.peerView external ⟨e'.id, p.id⟩ p := by
  have hakin := akin_of_resolveNode h
  obtain ⟨specs, body, hbody, hnd, rfl, -⟩ := resolveNode_eq_ok h
  have hbody' : body = .subgraph id inner' := hb
  subst hbody'
  obtain ⟨inner, hinner, hresolved, rfl⟩ := exists_of_resolveBody hbody
  refine ⟨inner, _, hinner, hresolved, fun p hp r hr => ?_⟩
  -- before the pass there was one proxy of the same pad, of the same name
  obtain ⟨p₀, hp₀, hpp⟩ := exists_of_forall₂ hakin.symm.pads hp
  have hids : e.pads.map (·.id) = (inner'.exposedPads.map (mergedPad e.pads)).map (·.id) := by
    rw [← List.forall₂_eq_eq_eq, List.forall₂_map_left_iff, List.forall₂_map_right_iff]
    exact hakin.pads.imp fun _ _ hpq => hpq.id
  have hdistinct : (e.pads.map (·.id)).Nodup := by
    rw [hids, List.map_map]
    refine (List.map_congr_left fun spec _ => ?_) ▸ hnd
    exact (mergedPad_id ..).symm
  have hone : ∀ q ∈ e.pads, q.proxy = some r → q = p₀ := by
    intro q hq hqr
    obtain ⟨q', hq', hqq⟩ := exists_of_forall₂ hakin.pads hq
    refine List.inj_on_of_nodup_map hdistinct hq hp₀ ?_
    rw [hqq.id, id_of_exposed hq' (hqq.proxy ▸ hqr), ← hpp.id, id_of_exposed hp hr]
  have hview :=
    externalView_externalOf (V := fun q => s.peerView external ⟨e.id, q.id⟩ q) hdistinct hone
    peerView_eq_default hp₀ (hpp.proxy ▸ hr)
  refine hview.trans ?_
  rw [← hpp.id]
  exact peerView_congr rfl rfl (congrArg PadType.isSource hpp.padType.symm)

/-! ### A pass that changes nothing -/

/-- Every node of the graph that a last pass leaves was resolved in sight of a state that is akin
to it (`Akin`), since nothing changed from then on. -/
theorem exists_of_last_pass (hnd : order.Nodup) (hall : ∀ i, i < s.nodes.length → i ∈ order)
    (h : pass R external order s = .ok (u, false)) (he' : e' ∈ u.nodes) :
    ∃ e ∈ s.nodes, ∃ t, t.Akin u ∧ resolveNode R external t e = .ok (e', false) := by
  have hsweep := sweep_of_resolveEach hnd (resolveEach_of_pass h)
  have hstep : ∀ (i : Nat) (e : NodeEntry), s.nodes[i]? = some e → ∃ e' placed,
      u.nodes[i]? = some e' ∧
      resolveNode R external (s.partway u placed) e = .ok (e', false) := by
    intro i e hi
    obtain ⟨placed, rest, horder⟩ :=
      List.append_of_mem (hall i (List.getElem?_eq_some_iff.mp hi).1)
    obtain ⟨e', c, hi', hnode, hc⟩ := hsweep.step placed i rest horder e hi
    exact ⟨e', placed, hi', hc rfl ▸ hnode⟩
  have hakin : ∀ placed, (s.partway u placed).Akin u := by
    intro placed
    refine ⟨hsweep.links.symm, List.forall₂_iff_get.mpr ⟨?_, fun i hi hi' => ?_⟩⟩
    · rw [partway, List.length_mapIdx, hsweep.length]
    · have hlt : i < s.nodes.length := hsweep.length ▸ hi'
      obtain ⟨d, _, hd, hnode⟩ := hstep i _ (List.getElem?_eq_getElem hlt)
      have hget : (s.partway u placed).nodes[i] = if i ∈ placed then d else s.nodes[i] := by
        simp [partway, hd]
      obtain ⟨_, rfl⟩ := List.getElem?_eq_some_iff.mp hd
      rw [List.get_eq_getElem, List.get_eq_getElem, hget]
      split
      · exact .refl _
      · exact akin_of_resolveNode hnode
  obtain ⟨i, hi, rfl⟩ := List.mem_iff_getElem.mp he'
  have hlt : i < s.nodes.length := hsweep.length ▸ hi
  obtain ⟨d, placed, hd, hnode⟩ := hstep i _ (List.getElem?_eq_getElem hlt)
  obtain ⟨_, rfl⟩ := List.getElem?_eq_some_iff.mp hd
  exact ⟨s.nodes[i], List.getElem_mem hlt, _, hakin placed, hnode⟩

/-- Up to effective constraints, a subgraph node that a last pass leaves shows inside what its
proxies see (`externalOf`). -/
theorem exists_outer_of_last_pass (hnd : order.Nodup) (hall : ∀ i, i < s.nodes.length → i ∈ order)
    (h : pass R external order s = .ok (u, false)) (hbare : t.bare = u.bare) (he : e ∈ t.nodes)
    {id : Option String} {inner : GraphState} (hb : e.body = .subgraph id inner) :
    ∃ e₀ ∈ s.nodes, ∃ inner₀ outer, e₀.body = .subgraph id inner₀ ∧ R outer inner₀ = .ok inner ∧
      ∀ p ∈ e.pads, ∀ r, p.proxy = some r →
        (externalView outer r).constraints.Alike
        (t.peerView external ⟨e.id, p.id⟩ p).constraints := by
  obtain ⟨e₁, he₁, hbare₁⟩ := exists_bare_eq hbare he
  obtain ⟨hid, -, -, hpads, hbody⟩ := NodeEntry.bare_eq_iff.mp hbare₁
  obtain ⟨e₀, he₀, w, hw, hstep⟩ := exists_of_last_pass hnd hall h he₁
  obtain ⟨inner₀, outer, hb₀, hinner, hview⟩ := externalView_of_resolveNode hstep (hbody.trans hb)
  refine ⟨e₀, he₀, inner₀, outer, hb₀, hinner, fun p hp r hr => ?_⟩
  have hmem : p.bare ∈ e₁.pads.map PadState.bare := hpads ▸ List.mem_map_of_mem hp
  obtain ⟨p₁, hp₁, hpp⟩ := List.mem_map.mp hmem
  obtain ⟨hpid, -, htype, -, -, hproxy⟩ := PadState.bare_eq_iff.mp hpp
  have hsource : p₁.isSource = p.isSource := congrArg PadType.isSource htype
  have hafter : t.peerView external ⟨e.id, p.id⟩ p = u.peerView external ⟨e.id, p.id⟩ p₁ :=
    peerView_congr (bare_eq_iff.mp hbare).2 (faces_of_bare hbare) hsource.symm
  rw [hview p₁ hp₁ r (hproxy.trans hr), hid, hpid, hafter]
  exact hw.alike_peerView external _ p₁

end GraphState

end Patchbay
